import LeviRsLoader.Nbt.Grammar

/-!
# Integers in a text

What integer a token is written as, and when a parsed value says the same. The elements of a
typed array are cast down without a check, float literals are truncated there, and an empty array
passes with any letter.
-/
namespace Nbt

open Utf8 Nbt.Parser

/-! ## Tokens -/

/-- A token without the letter that says how wide its integer is. -/
def stripWidth (t : List Char) : List Char :=
  match t.getLast? with
  | some c => if c ∈ ['b', 'B', 's', 'S', 'l', 'L'] then t.dropLast else t
  | none => t

/-- The integer a token is written as: a numeral with or without a width letter, or a boolean. -/
def written (t : List Char) : Option Int :=
  if t.map Char.toLower = "true".toList then some 1
  else if t.map Char.toLower = "false".toList then some 0
  else Decimal.parseInt (stripWidth t)

def NbtValue.integer : NbtValue → Option Int
  | .byte v => some v.toInt
  | .short v => some v.toInt
  | .int v => some v.toInt
  | .long v => some v.toInt
  | _ => none

theorem parseNat_digits {t : List Char} {n : Nat} (h : Decimal.parseNat t = some n) : ∀ c ∈ t, c.isDigit = true := by
  rw [Decimal.parseNat] at h
  split at h
  next hd =>
    rw [Bool.and_eq_true] at hd
    exact List.all_eq_true.mp hd.2
  next => cases h

/-- A numeral has digits and signs only. -/
theorem parseInt_chars {t : List Char} {i : Int} (h : Decimal.parseInt t = some i) :
    ∀ c ∈ t, c = '-' ∨ c = '+' ∨ c.isDigit = true := by
  intro c hc
  unfold Decimal.parseInt at h
  split at h
  next s =>
    obtain ⟨n, hn, -⟩ := Option.map_eq_some_iff.mp h
    rcases List.mem_cons.mp hc with rfl | hc
    · exact .inl rfl
    · exact .inr (.inr (parseNat_digits hn c hc))
  next s =>
    obtain ⟨n, hn, -⟩ := Option.map_eq_some_iff.mp h
    rcases List.mem_cons.mp hc with rfl | hc
    · exact .inr (.inl rfl)
    · exact .inr (.inr (parseNat_digits hn c hc))
  next =>
    obtain ⟨n, hn, -⟩ := Option.map_eq_some_iff.mp h
    exact .inr (.inr (parseNat_digits hn c hc))

theorem parse_eq_some {lo hi i : Int} {t : List Char} (h : Decimal.parse lo hi t = some i) :
    Decimal.parseInt t = some i ∧ lo ≤ i ∧ i ≤ hi := by
  rw [Decimal.parse, Option.filter_eq_some_iff] at h
  exact ⟨h.1, of_decide_eq_true h.2⟩

/-- A fixed-width `parse` gives the number that is written. -/
theorem parse_i8_eq {t : List Char} {v : Int8} (h : parse_i8 t = some v) : Decimal.parseInt t = some v.toInt := by
  obtain ⟨i, hi, rfl⟩ := Option.map_eq_some_iff.mp h
  obtain ⟨ht, hl, hh⟩ := parse_eq_some hi
  rw [Int8.toInt_ofInt_of_le (by omega) (by omega), ht]

theorem parse_i16_eq {t : List Char} {v : Int16} (h : parse_i16 t = some v) : Decimal.parseInt t = some v.toInt := by
  obtain ⟨i, hi, rfl⟩ := Option.map_eq_some_iff.mp h
  obtain ⟨ht, hl, hh⟩ := parse_eq_some hi
  rw [Int16.toInt_ofInt_of_le (by omega) (by omega), ht]

theorem parse_i32_eq {t : List Char} {v : Int32} (h : parse_i32 t = some v) : Decimal.parseInt t = some v.toInt := by
  obtain ⟨i, hi, rfl⟩ := Option.map_eq_some_iff.mp h
  obtain ⟨ht, hl, hh⟩ := parse_eq_some hi
  rw [Int32.toInt_ofInt_of_le (by omega) (by omega), ht]

theorem parse_i64_eq {t : List Char} {v : Int64} (h : parse_i64 t = some v) : Decimal.parseInt t = some v.toInt := by
  obtain ⟨i, hi, rfl⟩ := Option.map_eq_some_iff.mp h
  obtain ⟨ht, hl, hh⟩ := parse_eq_some hi
  rw [Int64.toInt_ofInt_of_le (by omega) (by omega), ht]

/-- How the last letter of a token bears on `stripWidth`. -/
theorem suffix_cases (t : List Char) :
    (∃ x, t.getLast?.bind suffixOf = some x ∧ x ∈ ['b', 's', 'l'] ∧ stripWidth t = t.dropLast) ∨
    (∃ x c, t.getLast?.bind suffixOf = some x ∧ x ∈ ['f', 'd'] ∧ stripWidth t = t ∧ c ∈ t ∧
      c ∈ ['f', 'F', 'd', 'D']) ∨
    (t.getLast?.bind suffixOf = none ∧ stripWidth t = t) := by
  cases hlast : t.getLast? with
  | none => exact .inr (.inr ⟨rfl, by rw [stripWidth, hlast]⟩)
  | some c =>
    have hc := List.mem_of_getLast? hlast
    simp only [stripWidth, hlast, Option.bind_some]
    by_cases hw : c ∈ ['b', 'B', 's', 'S', 'l', 'L']
    · left
      rw [if_pos hw]
      simp only [List.mem_cons, List.not_mem_nil, or_false] at hw
      rcases hw with rfl | rfl | rfl | rfl | rfl | rfl <;> exact ⟨_, rfl, by decide, rfl⟩
    · right
      rw [if_neg hw]
      by_cases hf : c ∈ ['f', 'F', 'd', 'D']
      · left
        refine ⟨c.toLower, c, ?_, ?_, rfl, hc, hf⟩
        · simp only [List.mem_cons, List.not_mem_nil, or_false] at hf
          rcases hf with rfl | rfl | rfl | rfl <;> rfl
        · simp only [List.mem_cons, List.not_mem_nil, or_false] at hf
          rcases hf with rfl | rfl | rfl | rfl <;> decide
      · right
        refine ⟨?_, rfl⟩
        rw [suffixOf, if_neg]
        simp only [List.contains_iff_mem, List.mem_cons, List.not_mem_nil, or_false] at hw hf ⊢
        grind

section

variable {F : Floats}

/-- What a numeral is taken for is what its body is written as. -/
theorem numericOf_integer {body : List Char} {x : Option Char} {v : NbtValue} {i : Int}
    (h : numericOf F body x = some v) (hv : v.integer = some i) :
    Decimal.parseInt body = some i ∧ x ≠ some 'f' ∧ x ≠ some 'd' := by
  unfold numericOf at h
  split at h
  next =>
    obtain ⟨w, hw, rfl⟩ := Option.map_eq_some_iff.mp h
    cases hv
    exact ⟨parse_i8_eq hw, by decide, by decide⟩
  next =>
    obtain ⟨w, hw, rfl⟩ := Option.map_eq_some_iff.mp h
    cases hv
    exact ⟨parse_i16_eq hw, by decide, by decide⟩
  next =>
    obtain ⟨w, hw, rfl⟩ := Option.map_eq_some_iff.mp h
    cases hv
    exact ⟨parse_i64_eq hw, by decide, by decide⟩
  next =>
    obtain ⟨w, -, rfl⟩ := Option.map_eq_some_iff.mp h
    cases hv
  next =>
    obtain ⟨w, -, rfl⟩ := Option.map_eq_some_iff.mp h
    cases hv
  next =>
    split at h
    next =>
      obtain ⟨w, -, rfl⟩ := Option.map_eq_some_iff.mp h
      cases hv
    next =>
    split at h
    next w hw =>
      cases h
      cases hv
      exact ⟨parse_i32_eq hw, by decide, by decide⟩
    next =>
      obtain ⟨w, hw, rfl⟩ := Option.map_eq_some_iff.mp h
      cases hv
      exact ⟨parse_i64_eq hw, by decide, by decide⟩
  next => cases h

/-- A float comes from its own suffix letters, or from a point or an exponent. -/
theorem numericOf_float {body : List Char} {x : Option Char} {v : NbtValue} (h : numericOf F body x = some v)
    (hv : noFloatNode v = false) :
    x = some 'f' ∨ x = some 'd' ∨ (x = none ∧ ∃ c ∈ body, c = '.' ∨ c = 'e' ∨ c = 'E') := by
  unfold numericOf at h
  split at h
  next =>
    obtain ⟨w, -, rfl⟩ := Option.map_eq_some_iff.mp h
    cases hv
  next =>
    obtain ⟨w, -, rfl⟩ := Option.map_eq_some_iff.mp h
    cases hv
  next =>
    obtain ⟨w, -, rfl⟩ := Option.map_eq_some_iff.mp h
    cases hv
  next => exact .inl rfl
  next => exact .inr (.inl rfl)
  next =>
    split at h
    next hany =>
      obtain ⟨c, hc, hdot⟩ := List.any_eq_true.mp hany
      simp only [Bool.or_eq_true, beq_iff_eq, or_assoc] at hdot
      exact .inr (.inr ⟨rfl, c, hc, hdot⟩)
    next =>
    split at h
    next =>
      cases h
      cases hv
    next =>
      obtain ⟨w, -, rfl⟩ := Option.map_eq_some_iff.mp h
      cases hv
  next => cases h

theorem eq_true_iff (t : List Char) :
    eq_ignore_ascii_case t "true".toList = true ↔ t.map Char.toLower = "true".toList := by
  rw [eq_ignore_ascii_case, beq_iff_eq]
  rfl

theorem eq_false_iff (t : List Char) :
    eq_ignore_ascii_case t "false".toList = true ↔ t.map Char.toLower = "false".toList := by
  rw [eq_ignore_ascii_case, beq_iff_eq]
  rfl

/-- What a token is taken for: a boolean, a number by its suffix, or itself as a string. -/
theorem tokenValue_cases (t : List Char) :
    (∃ v : Int8, tokenValue F t = .byte v ∧ written t = some v.toInt) ∨
    (written t = Decimal.parseInt (stripWidth t) ∧ (tokenValue F t = .string (String.ofList t) ∨
      numericOf F (if (t.getLast?.bind suffixOf).isSome then t.dropLast else t) (t.getLast?.bind suffixOf)
        = some (tokenValue F t))) := by
  by_cases htrue : t.map Char.toLower = "true".toList
  · left
    rw [tokenValue, if_pos ((eq_true_iff t).mpr htrue), written, if_pos htrue]
    exact ⟨1, rfl, rfl⟩
  by_cases hfalse : t.map Char.toLower = "false".toList
  · left
    rw [tokenValue, if_neg (htrue ∘ (eq_true_iff t).mp), if_pos ((eq_false_iff t).mpr hfalse), written,
      if_neg htrue, if_pos hfalse]
    exact ⟨0, rfl, rfl⟩
  right
  rw [written, if_neg htrue, if_neg hfalse]
  refine ⟨rfl, ?_⟩
  rw [tokenValue, if_neg (htrue ∘ (eq_true_iff t).mp), if_neg (hfalse ∘ (eq_false_iff t).mp)]
  dsimp only
  generalize (if (t.getLast?.bind suffixOf).isSome then t.dropLast else t) = body
  by_cases hbody : isNumericBody body = true
  · rw [if_pos hbody]
    cases numericOf F body (t.getLast?.bind suffixOf) with
    | none => exact .inl rfl
    | some v => exact .inr rfl
  · exact .inl (if_neg hbody)

def NbtValue.isScalar : NbtValue → Bool
  | .list _ => false
  | .compound _ => false
  | .byteArray _ => false
  | .intArray _ => false
  | .longArray _ => false
  | _ => true

theorem numericOf_isScalar {body : List Char} {x : Option Char} {v : NbtValue} (h : numericOf F body x = some v) :
    v.isScalar = true := by
  unfold numericOf at h
  split at h
  next => obtain ⟨w, -, rfl⟩ := Option.map_eq_some_iff.mp h; rfl
  next => obtain ⟨w, -, rfl⟩ := Option.map_eq_some_iff.mp h; rfl
  next => obtain ⟨w, -, rfl⟩ := Option.map_eq_some_iff.mp h; rfl
  next => obtain ⟨w, -, rfl⟩ := Option.map_eq_some_iff.mp h; rfl
  next => obtain ⟨w, -, rfl⟩ := Option.map_eq_some_iff.mp h; rfl
  next =>
    split at h
    next => obtain ⟨w, -, rfl⟩ := Option.map_eq_some_iff.mp h; rfl
    next =>
    split at h
    next => cases h; rfl
    next => obtain ⟨w, -, rfl⟩ := Option.map_eq_some_iff.mp h; rfl
  next => cases h

theorem tokenValue_isScalar (t : List Char) : (tokenValue F t).isScalar = true := by
  rcases tokenValue_cases (F := F) t with ⟨v, hv, -⟩ | ⟨-, hs | hn⟩
  · rw [hv]
    rfl
  · rw [hs]
    rfl
  · exact numericOf_isScalar hn

/-- A token read as an integer is written as that integer. -/
theorem tokenValue_integer {t : List Char} {i : Int} (h : (tokenValue F t).integer = some i) : written t = some i := by
  rcases tokenValue_cases (F := F) t with ⟨v, hv, hw⟩ | ⟨hw, hs | hn⟩
  · rw [hv] at h
    exact hw.trans h
  · rw [hs] at h
    cases h
  obtain ⟨hbody, hf, hd⟩ := numericOf_integer hn h
  rw [hw]
  rcases suffix_cases t with ⟨x, hx, -, hstrip⟩ | ⟨x, c, hx, hmem, -⟩ | ⟨hx, hstrip⟩
  · rw [hx, Option.isSome_some, if_pos rfl] at hbody
    rw [hstrip, hbody]
  · rw [hx] at hf hd
    simp only [List.mem_cons, List.not_mem_nil, or_false] at hmem
    rcases hmem with rfl | rfl
    · exact absurd rfl hf
    · exact absurd rfl hd
  · rw [hx, Option.isSome_none, if_neg (by simp)] at hbody
    rw [hstrip, hbody]

/-- A token with one of these characters is no numeral. -/
theorem parseInt_eq_none {t : List Char} {c : Char} (hc : c ∈ t) (hcs : c ∈ ['f', 'F', 'd', 'D', '.', 'e', 'E']) :
    Decimal.parseInt t = none := by
  rw [Option.eq_none_iff_forall_not_mem]
  intro i hi
  have hchar := parseInt_chars hi c hc
  simp only [List.mem_cons, List.not_mem_nil, or_false] at hcs
  rcases hcs with rfl | rfl | rfl | rfl | rfl | rfl | rfl <;> revert hchar <;> decide

/-- A token read as a float is written as no integer. -/
theorem tokenValue_float {t : List Char} (h : noFloatNode (tokenValue F t) = false) : written t = none := by
  rcases tokenValue_cases (F := F) t with ⟨v, hv, -⟩ | ⟨hw, hs | hn⟩
  · rw [hv] at h
    cases h
  · rw [hs] at h
    cases h
  rw [hw]
  rcases suffix_cases t with ⟨x, hx, hmem, -⟩ | ⟨x, c, -, -, hstrip, hc, hcs⟩ | ⟨hx, hstrip⟩
  · rcases numericOf_float hn h with hf | hd | ⟨hnone, -⟩
    · rw [hx] at hf
      cases hf
      exact absurd hmem (by decide)
    · rw [hx] at hd
      cases hd
      exact absurd hmem (by decide)
    · rw [hx] at hnone
      cases hnone
  · rw [hstrip]
    refine parseInt_eq_none hc ?_
    simp only [List.mem_cons, List.not_mem_nil, or_false] at hcs ⊢
    grind
  · rw [hstrip]
    rcases numericOf_float hn h with hf | hd | ⟨-, c, hc, hdot⟩
    · rw [hx] at hf
      cases hf
    · rw [hx] at hd
      cases hd
    · rw [hx, Option.isSome_none, if_neg (by simp)] at hc
      refine parseInt_eq_none hc ?_
      rcases hdot with rfl | rfl | rfl <;> decide

/-- An element that is not a float is taken for the integer it is written as. -/
theorem written_of_elementOf {t : List Char} {n : Int64} (h : elementOf F t = some n)
    (hf : noFloatNode (tokenValue F t) = true) : written t = some n.toInt := by
  apply tokenValue_integer (F := F)
  rw [elementOf] at h
  cases hv : tokenValue F t with
  | byte v => rw [hv] at h; cases h; simp [NbtValue.integer]
  | short v => rw [hv] at h; cases h; simp [NbtValue.integer]
  | int v => rw [hv] at h; cases h; simp [NbtValue.integer]
  | long v => rw [hv] at h; cases h; rfl
  | float v => rw [hv] at hf; cases hf
  | double v => rw [hv] at hf; cases hf
  | _ => rw [hv] at h; cases h

end

/-! ## What a value says of a tree -/

mutual

/-- The value says what is written: its integers, with the structure around them. -/
def Tree.Denotes : Tree → NbtValue → Prop
  | .token t, .byte v => written t = some v.toInt
  | .token t, .short v => written t = some v.toInt
  | .token t, .int v => written t = some v.toInt
  | .token t, .long v => written t = some v.toInt
  | .token _, .float _ => True
  | .token _, .double _ => True
  | .token _, .string _ => True
  | .quoted _, .string _ => True
  | .list items, .list vs => DenotesItems items vs
  | .compound entries, .compound map =>
    ∃ es, DenotesEntries entries es ∧ map = es.foldl (fun map e => insertEntry e.1 e.2 map) []
  | .array kind tokens, .byteArray vs =>
    kind = byteOf 'B' ∧ List.Forall₂ (fun t (v : Int8) => written t = some v.toInt) tokens vs
  | .array kind tokens, .intArray vs =>
    kind = byteOf 'I' ∧ List.Forall₂ (fun t (v : Int32) => written t = some v.toInt) tokens vs
  | .array kind tokens, .longArray vs =>
    kind = byteOf 'L' ∧ List.Forall₂ (fun t (v : Int64) => written t = some v.toInt) tokens vs
  | _, _ => False

def DenotesItems : List Tree → List NbtValue → Prop
  | [], [] => True
  | t :: items, v :: vs => t.Denotes v ∧ DenotesItems items vs
  | _, _ => False

def DenotesEntries : List (String × Tree) → List (String × NbtValue) → Prop
  | [], [] => True
  | (key, t) :: entries, (key', v) :: es => key = key' ∧ t.Denotes v ∧ DenotesEntries entries es
  | _, _ => False

end

/-- Where the parser gives a value, the value says what the characters of the text spell. -/
def Faithful (F : Floats) (text : String) : Prop :=
  ∀ v, NbtValue.parse F text = .ok v → ∃ t, treeOf text = some t ∧ SpellsText text.toList t ∧ t.Denotes v

/-! ## Arrays -/

def KnownKind (kind : UInt8) : Prop := kind = byteOf 'B' ∨ kind = byteOf 'I' ∨ kind = byteOf 'L'

/-- The range of an element of the array with this letter. -/
def Fits (kind : UInt8) (i : Int) : Prop :=
  if kind = byteOf 'B' then -128 ≤ i ∧ i ≤ 127
  else if kind = byteOf 'I' then -2147483648 ≤ i ∧ i ≤ 2147483647
  else -9223372036854775808 ≤ i ∧ i ≤ 9223372036854775807

/-- The array is refused: an element is no number, or there is one and the letter is unknown. -/
def Refused (F : Floats) (a : UInt8 × List (List Char)) : Prop :=
  (∃ t ∈ a.2, elementOf F t = none) ∨ (a.2 ≠ [] ∧ ¬KnownKind a.1)

/-- The letter is known, no element is a float literal, and every integer fits. -/
def Exact (F : Floats) (a : UInt8 × List (List Char)) : Prop :=
  KnownKind a.1 ∧ ∀ t ∈ a.2, noFloatNode (tokenValue F t) = true ∧ ∀ i, written t = some i → Fits a.1 i

section

variable {F : Floats} {kind : UInt8} {tokens : List (List Char)}

theorem push_eq_none (acc : TypedAcc) (i : Int64) : acc.push kind i = none ↔ ¬KnownKind kind := by
  rw [TypedAcc.push, KnownKind]
  split
  next hb => simp [hb]
  next hb =>
  split
  next hi => simp [hi]
  next hi =>
  split
  next hl => simp [hl]
  next hl => simp [hb, hi, hl]

/-- The elements are taken one by one; any of them can end the parse. -/
theorem foldlM_push_eq_none (acc : TypedAcc) :
    tokens.foldlM (pushToken F kind) acc = none ↔ Refused F (kind, tokens) := by
  induction tokens generalizing acc with
  | nil => simp [Refused]
  | cons t tokens ih =>
    rw [List.foldlM_cons, pushToken]
    cases he : elementOf F t with
    | none => simp [Refused, he]
    | some n =>
      rw [Option.bind_some]
      cases hp : acc.push kind n with
      | none =>
        have hk := (push_eq_none acc n).mp hp
        simp [Refused, hk]
      | some acc' =>
        have hk : KnownKind kind := by
          by_contra hk
          rw [(push_eq_none acc n).mpr hk] at hp
          cases hp
        change tokens.foldlM (pushToken F kind) acc' = none ↔ _
        rw [ih acc']
        simp [Refused, hk, he]

/-- What the loop appends to one of the three vectors. -/
theorem foldlM_push {β : Type} (get : TypedAcc → List β) (narrow : Int64 → β)
    (h : ∀ acc i acc', acc.push kind i = some acc' → get acc' = get acc ++ [narrow i]) {acc acc' : TypedAcc}
    (hf : tokens.foldlM (pushToken F kind) acc = some acc') :
    ∃ ns, List.Forall₂ (fun t n => elementOf F t = some n) tokens ns ∧ get acc' = get acc ++ ns.map narrow := by
  induction tokens generalizing acc with
  | nil =>
    cases hf
    exact ⟨[], .nil, (List.append_nil _).symm⟩
  | cons t tokens ih =>
    rw [List.foldlM_cons, pushToken] at hf
    cases he : elementOf F t with
    | none => rw [he] at hf; cases hf
    | some n =>
      rw [he, Option.bind_some] at hf
      cases hp : acc.push kind n with
      | none => rw [hp] at hf; cases hf
      | some acc₁ =>
        rw [hp] at hf
        obtain ⟨ns, hns, hget⟩ := ih hf
        refine ⟨n :: ns, .cons he hns, ?_⟩
        rw [hget, h acc n acc₁ hp, List.map_cons, List.append_assoc]
        rfl

/-- Elements that are no floats and fit are kept by the cast. -/
theorem forall₂_written {β : Type} {narrow : Int64 → β} {toInt : β → Int}
    (hcast : ∀ n : Int64, Fits kind n.toInt → toInt (narrow n) = n.toInt) {ns : List Int64}
    (hns : List.Forall₂ (fun t n => elementOf F t = some n) tokens ns)
    (hexact : ∀ t ∈ tokens, noFloatNode (tokenValue F t) = true ∧ ∀ i, written t = some i → Fits kind i) :
    List.Forall₂ (fun t v => written t = some (toInt v)) tokens (ns.map narrow) := by
  rw [List.forall₂_map_right_iff]
  induction hns with
  | nil => exact .nil
  | @cons t n tokens ns he _ ih =>
    obtain ⟨hf, hfits⟩ := hexact t List.mem_cons_self
    have hw := written_of_elementOf he hf
    refine .cons ?_ (ih fun u hu => hexact u (List.mem_cons_of_mem _ hu))
    rw [hw, hcast n (hfits _ hw)]

theorem fits_bytes (n : Int64) (h : Fits (byteOf 'B') n.toInt) : n.toInt8.toInt = n.toInt := by
  rw [Fits, if_pos rfl] at h
  rw [Int64.toInt_toInt8]
  exact Int.bmod_eq_of_le (by omega) (by omega)

theorem fits_ints (n : Int64) (h : Fits (byteOf 'I') n.toInt) : n.toInt32.toInt = n.toInt := by
  rw [Fits, if_neg (by decide), if_pos rfl] at h
  rw [Int64.toInt_toInt32]
  exact Int.bmod_eq_of_le (by omega) (by omega)

/-- An exact array is read as it is written. -/
theorem array_denotes {v : NbtValue} (h : Tree.eval F (.array kind tokens) = some v) (hexact : Exact F (kind, tokens)) :
    (Tree.array kind tokens).Denotes v := by
  obtain ⟨hk, hexact⟩ := hexact
  rw [Tree.eval] at h
  obtain ⟨acc, hacc, rfl⟩ := Option.map_eq_some_iff.mp h
  rcases hk with hk | hk | hk
  · subst hk
    obtain ⟨ns, hns, hget⟩ := foldlM_push TypedAcc.bytes_ Int64.toInt8
      (fun acc i acc' hp => by rw [TypedAcc.push, if_pos rfl] at hp; cases hp; rfl) hacc
    have hv : acc.value (byteOf 'B') = .byteArray (ns.map Int64.toInt8) := by
      rw [TypedAcc.value, if_pos rfl, hget, List.nil_append]
    rw [hv, Tree.Denotes]
    exact ⟨rfl, forall₂_written fits_bytes hns hexact⟩
  · subst hk
    obtain ⟨ns, hns, hget⟩ := foldlM_push TypedAcc.ints Int64.toInt32
      (fun acc i acc' hp => by rw [TypedAcc.push, if_neg (by decide), if_pos rfl] at hp; cases hp; rfl) hacc
    have hv : acc.value (byteOf 'I') = .intArray (ns.map Int64.toInt32) := by
      rw [TypedAcc.value, if_neg (by decide), if_pos rfl, hget, List.nil_append]
    rw [hv, Tree.Denotes]
    exact ⟨rfl, forall₂_written fits_ints hns hexact⟩
  · subst hk
    obtain ⟨ns, hns, hget⟩ := foldlM_push TypedAcc.longs id
      (fun acc i acc' hp => by
        rw [TypedAcc.push, if_neg (by decide), if_neg (by decide), if_pos rfl] at hp; cases hp; rfl) hacc
    have hv : acc.value (byteOf 'L') = .longArray (ns.map id) := by
      rw [TypedAcc.value, if_neg (by decide), if_neg (by decide), hget, List.nil_append]
    rw [hv, Tree.Denotes]
    exact ⟨rfl, forall₂_written (fun _ _ => rfl) hns hexact⟩

/-- Elements whose integers are the array's are no floats and fit. -/
theorem exact_of_forall₂ {β : Type} {toInt : β → Int} {vs : List β} (hk : KnownKind kind)
    (hfits : ∀ v, Fits kind (toInt v)) (h : List.Forall₂ (fun t v => written t = some (toInt v)) tokens vs) :
    Exact F (kind, tokens) := by
  refine ⟨hk, fun t ht => ?_⟩
  obtain ⟨v, hv⟩ : ∃ v, written t = some (toInt v) := by
    induction h with
    | nil => cases ht
    | @cons u v tokens vs hu _ ih =>
      rcases List.mem_cons.mp ht with rfl | ht
      · exact ⟨v, hu⟩
      · exact ih ht
  refine ⟨?_, fun i hi => ?_⟩
  · cases hf : noFloatNode (tokenValue F t) with
    | true => rfl
    | false => rw [tokenValue_float hf] at hv; cases hv
  · rw [hv] at hi
    cases hi
    exact hfits v

theorem exact_of_array_denotes {v : NbtValue} (h : (Tree.array kind tokens).Denotes v) : Exact F (kind, tokens) := by
  cases v with
  | byteArray vs =>
    obtain ⟨rfl, h⟩ := h
    refine exact_of_forall₂ (.inl rfl) (fun v => ?_) h
    rw [Fits, if_pos rfl]
    exact ⟨v.le_toInt, Int.le_of_lt_add_one v.toInt_lt⟩
  | intArray vs =>
    obtain ⟨rfl, h⟩ := h
    refine exact_of_forall₂ (.inr (.inl rfl)) (fun v => ?_) h
    rw [Fits, if_neg (by decide), if_pos rfl]
    exact ⟨v.le_toInt, Int.le_of_lt_add_one v.toInt_lt⟩
  | longArray vs =>
    obtain ⟨rfl, h⟩ := h
    refine exact_of_forall₂ (.inr (.inr rfl)) (fun v => ?_) h
    rw [Fits, if_neg (by decide), if_neg (by decide)]
    exact ⟨v.le_toInt, Int.le_of_lt_add_one v.toInt_lt⟩
  | _ => exact h.elim

/-! ## Trees -/

theorem foldlM_item_eq_none {vs : List NbtValue} {items : List Tree} :
    items.foldlM (pushItem F) vs = none ↔ ∃ t ∈ items, t.eval F = none := by
  induction items generalizing vs with
  | nil => simp
  | cons t items ih =>
    rw [List.foldlM_cons, pushItem]
    cases he : t.eval F with
    | none => simp [he]
    | some v =>
      change items.foldlM (pushItem F) (vs ++ [v]) = none ↔ _
      rw [ih]
      simp [he]

theorem foldlM_entry_eq_none {map : List (String × NbtValue)} {entries : List (String × Tree)} :
    entries.foldlM (pushEntry F) map = none ↔ ∃ e ∈ entries, e.2.eval F = none := by
  induction entries generalizing map with
  | nil => simp
  | cons e entries ih =>
    rw [List.foldlM_cons, pushEntry]
    cases he : e.2.eval F with
    | none => simp [he]
    | some v =>
      change entries.foldlM (pushEntry F) (insertEntry e.1 v map) = none ↔ _
      rw [ih]
      simp [he]

/-- A text that has a tree is refused for one of its typed arrays only. -/
theorem eval_eq_none (t : Tree) : t.eval F = none ↔ ∃ a ∈ t.arrays, Refused F a := by
  induction t using Tree.induct with
  | token t => simp [Tree.eval, Tree.arrays]
  | quoted s => simp [Tree.eval, Tree.arrays]
  | list items ih =>
    rw [Tree.eval, Option.map_eq_none_iff, evalItems_eq, foldlM_item_eq_none]
    constructor
    · rintro ⟨t, ht, he⟩
      obtain ⟨a, ha, hr⟩ := (ih t ht).mp he
      exact ⟨a, Tree.mem_arrays_list.mpr ⟨t, ht, ha⟩, hr⟩
    · rintro ⟨a, ha, hr⟩
      obtain ⟨t, ht, ha⟩ := Tree.mem_arrays_list.mp ha
      exact ⟨t, ht, (ih t ht).mpr ⟨a, ha, hr⟩⟩
  | compound entries ih =>
    rw [Tree.eval, Option.map_eq_none_iff, evalEntries_eq, foldlM_entry_eq_none]
    constructor
    · rintro ⟨e, hmem, he⟩
      obtain ⟨a, ha, hr⟩ := (ih e hmem).mp he
      exact ⟨a, Tree.mem_arrays_compound.mpr ⟨e, hmem, ha⟩, hr⟩
    · rintro ⟨a, ha, hr⟩
      obtain ⟨e, hmem, ha⟩ := Tree.mem_arrays_compound.mp ha
      exact ⟨e, hmem, (ih e hmem).mpr ⟨a, ha, hr⟩⟩
  | array kind tokens =>
    rw [Tree.eval, Option.map_eq_none_iff, foldlM_push_eq_none]
    simp [Tree.arrays]

theorem denotesItems_of {vs ws : List NbtValue} {items : List Tree}
    (hi : ∀ t ∈ items, ∀ v, t.eval F = some v → t.Denotes v) (h : items.foldlM (pushItem F) vs = some ws) :
    ∃ us, ws = vs ++ us ∧ DenotesItems items us := by
  induction items generalizing vs with
  | nil =>
    cases h
    exact ⟨[], (List.append_nil _).symm, trivial⟩
  | cons t items ih =>
    rw [List.foldlM_cons, pushItem] at h
    cases he : t.eval F with
    | none => rw [he] at h; cases h
    | some v =>
      rw [he] at h
      obtain ⟨us, hus, hd⟩ := ih (fun u hu => hi u (List.mem_cons_of_mem _ hu)) h
      refine ⟨v :: us, ?_, hi t List.mem_cons_self v he, hd⟩
      rw [hus, List.append_assoc]
      rfl

theorem denotesEntries_of {map map' : List (String × NbtValue)} {entries : List (String × Tree)}
    (hi : ∀ e ∈ entries, ∀ v, e.2.eval F = some v → e.2.Denotes v)
    (h : entries.foldlM (pushEntry F) map = some map') :
    ∃ es, map' = es.foldl (fun map e => insertEntry e.1 e.2 map) map ∧ DenotesEntries entries es := by
  induction entries generalizing map with
  | nil =>
    cases h
    exact ⟨[], rfl, trivial⟩
  | cons e entries ih =>
    obtain ⟨key, t⟩ := e
    rw [List.foldlM_cons, pushEntry] at h
    cases he : t.eval F with
    | none => rw [he] at h; cases h
    | some v =>
      rw [he] at h
      obtain ⟨es, hes, hd⟩ := ih (fun u hu => hi u (List.mem_cons_of_mem _ hu)) h
      exact ⟨(key, v) :: es, hes, rfl, hi (key, t) List.mem_cons_self v he, hd⟩

/-- A token is either no integer, or the integer it is written as. -/
theorem token_denotes (t : List Char) : (Tree.token t).Denotes (tokenValue F t) := by
  have hint (i : Int) : (tokenValue F t).integer = some i → written t = some i := tokenValue_integer
  have hscalar : (tokenValue F t).isScalar = true := tokenValue_isScalar t
  cases hv : tokenValue F t with
  | byte v => exact hint _ (by rw [hv]; rfl)
  | short v => exact hint _ (by rw [hv]; rfl)
  | int v => exact hint _ (by rw [hv]; rfl)
  | long v => exact hint _ (by rw [hv]; rfl)
  | float v => trivial
  | double v => trivial
  | string s => trivial
  | _ => rw [hv] at hscalar; cases hscalar

/-- With exact arrays the value of a tree says what is written in it. -/
theorem denotes_of_exact (t : Tree) (v : NbtValue) (hv : t.eval F = some v) (h : ∀ a ∈ t.arrays, Exact F a) :
    t.Denotes v := by
  induction t using Tree.induct generalizing v with
  | token t =>
    cases hv
    exact token_denotes t
  | quoted s =>
    cases hv
    trivial
  | list items ih =>
    rw [Tree.eval, evalItems_eq] at hv
    obtain ⟨vs, hvs, rfl⟩ := Option.map_eq_some_iff.mp hv
    have hi : ∀ t ∈ items, ∀ v, t.eval F = some v → t.Denotes v := fun t ht v hv =>
      ih t ht v hv fun a ha => h a (Tree.mem_arrays_list.mpr ⟨t, ht, ha⟩)
    obtain ⟨us, rfl, hd⟩ := denotesItems_of hi hvs
    exact hd
  | compound entries ih =>
    rw [Tree.eval, evalEntries_eq] at hv
    obtain ⟨map, hmap, rfl⟩ := Option.map_eq_some_iff.mp hv
    have hi : ∀ e ∈ entries, ∀ v, e.2.eval F = some v → e.2.Denotes v := fun e he v hv =>
      ih e he v hv fun a ha => h a (Tree.mem_arrays_compound.mpr ⟨e, he, ha⟩)
    obtain ⟨es, hes, hd⟩ := denotesEntries_of hi hmap
    exact ⟨es, hd, hes⟩
  | array kind tokens => exact array_denotes hv (h _ (Tree.mem_arrays_array.mpr rfl))

theorem DenotesItems.mem {items : List Tree} {vs : List NbtValue} (h : DenotesItems items vs) :
    ∀ t ∈ items, ∃ v, t.Denotes v := by
  induction items generalizing vs with
  | nil => simp
  | cons t items ih =>
    cases vs with
    | nil => exact h.elim
    | cons v vs =>
      intro u hu
      rcases List.mem_cons.mp hu with rfl | hu
      · exact ⟨v, h.1⟩
      · exact ih h.2 u hu

theorem DenotesEntries.mem {entries : List (String × Tree)} {es : List (String × NbtValue)}
    (h : DenotesEntries entries es) : ∀ e ∈ entries, ∃ v, e.2.Denotes v := by
  induction entries generalizing es with
  | nil => simp
  | cons e entries ih =>
    obtain ⟨key, t⟩ := e
    cases es with
    | nil => exact h.elim
    | cons e' es =>
      obtain ⟨-, hd, hrest⟩ := h
      intro u hu
      rcases List.mem_cons.mp hu with rfl | hu
      · exact ⟨e'.2, hd⟩
      · exact ih hrest u hu

/-- A tree that a value says right has exact arrays only. -/
theorem exact_of_denotes (t : Tree) (v : NbtValue) (hd : t.Denotes v) : ∀ a ∈ t.arrays, Exact F a := by
  induction t using Tree.induct generalizing v with
  | token t => simp [Tree.arrays]
  | quoted s => simp [Tree.arrays]
  | list items ih =>
    intro a ha
    obtain ⟨t, ht, ha⟩ := Tree.mem_arrays_list.mp ha
    cases v with
    | list vs =>
      obtain ⟨u, hu⟩ := DenotesItems.mem hd t ht
      exact ih t ht u hu a ha
    | _ => exact hd.elim
  | compound entries ih =>
    intro a ha
    obtain ⟨e, he, ha⟩ := Tree.mem_arrays_compound.mp ha
    cases v with
    | compound map =>
      obtain ⟨es, hes, -⟩ := hd
      obtain ⟨u, hu⟩ := DenotesEntries.mem hes e he
      exact ih e he u hu a ha
    | _ => exact hd.elim
  | array kind tokens =>
    intro a ha
    rw [Tree.mem_arrays_array.mp ha]
    exact exact_of_array_denotes hd

end

/-- The parser keeps to the text exactly where a typed array makes it fail, or where every typed
array has a known letter and elements that are no floats and fit it. -/
theorem parse_faithful_iff (F : Floats) (text : String) :
    Faithful F text ↔
      ∀ t, treeOf text = some t → (∃ a ∈ t.arrays, Refused F a) ∨ ∀ a ∈ t.arrays, Exact F a := by
  have hparse := parse_eq_eval (F := F) text
  constructor
  · intro h t ht
    rw [ht, Option.bind_some] at hparse
    cases he : t.eval F with
    | none => exact .inl ((eval_eq_none t).mp he)
    | some v =>
      rw [he, got_eq_some] at hparse
      obtain ⟨t', ht', -, hd⟩ := h v hparse
      rw [ht] at ht'
      cases ht'
      exact .inr (exact_of_denotes t v hd)
  · intro h v hv
    rw [hv, got_ok] at hparse
    obtain ⟨t, ht, he⟩ := Option.bind_eq_some_iff.mp hparse.symm
    refine ⟨t, ht, treeOf_spells ht, ?_⟩
    rcases h t ht with hr | hexact
    · rw [(eval_eq_none t).mpr hr] at he
      cases he
    · exact denotes_of_exact t v he hexact

/-- `[B;300]` is read as the one byte 44. -/
theorem byte_element_wraps : ¬∀ (F : Floats) (text : String), Faithful F text := by
  intro h
  have hparse (F : Floats) : NbtValue.parse F "[B;300]" = .ok (.byteArray [44]) := rfl
  have htree : treeOf "[B;300]" = some (.array (byteOf 'B') ["300".toList]) := rfl
  obtain ⟨t, ht, -, hd⟩ := h ⟨fun _ => 0, fun _ => 0, fun _ => 0, fun _ => [], fun _ => none, fun _ => none⟩
    "[B;300]" _ (hparse _)
  rw [htree] at ht
  cases ht
  have hw : written "300".toList = some (44 : Int8).toInt := (List.forall₂_cons.mp hd.2).1
  exact absurd hw (by decide)

end Nbt
