import LeviRsLoader.Nbt.Reading

/-!
# Reading back what was written

The parser on the writer's text, constructor by constructor: each lemma says
that what was written is read whole, whatever delimiter follows. Lists whose
first element is a string starting with a semicolon are left out; the bracket
lookahead takes those for typed arrays.
-/
namespace Nbt

open Utf8 Nbt.Parser

variable {F : Floats} {p : Parser} {r t : List Char}

/-- What can follow a written value. -/
def Delim (r : List Char) : Prop := ∀ c ∈ r.head?, c ∈ [',', ']', '}']

theorem Delim.cons {c : Char} (hc : c ∈ [',', ']', '}']) (r : List Char) : Delim (c :: r) := by
  simpa [Delim] using hc

theorem Delim.not_bare (h : Delim r) : ∀ c ∈ r.head?, isBareChar c = false := by
  intro c hc
  have := h c hc
  simp only [List.mem_cons, List.not_mem_nil, or_false] at this
  rcases this with rfl | rfl | rfl <;> decide

theorem Delim.not_semi (h : Delim r) : r.head? ≠ some ';' := by
  intro hr
  have := h ';' hr
  exact absurd this (by decide)

theorem adv_append (p : Parser) (s t : List Char) :
    (p.adv (encode s).length).adv (encode t).length = p.adv (encode (s ++ t)).length := by
  simp

theorem adv_cons {c : Char} (hc : isAscii c = true) (p : Parser) (t : List Char) :
    (p.adv 1).adv (encode t).length = p.adv (encode (c :: t)).length := by
  rw [encode_cons_ascii hc, adv_adv, List.length_cons, Nat.add_comm]

theorem length_le_encode (t : List Char) : t.length ≤ (encode t).length := by
  induction t with
  | nil => simp
  | cons c t ih =>
    have : 0 < (String.utf8EncodeChar c).length := List.length_pos_of_ne_nil String.utf8EncodeChar_ne_nil
    simp only [encode_cons, List.length_cons, List.length_append]
    omega

/-! ## Strings -/

/-- The writer escapes a character or copies it. -/
theorem escapeChar_cases (c : Char) :
    (∃ e, escapeChar c = ['\\', e] ∧ e ∈ ['n', 'r', 't', '"', '\\'] ∧ unescape e = c) ∨
    (escapeChar c = [c] ∧ c ≠ '"' ∧ c ≠ '\\') := by
  unfold escapeChar
  split
  · exact .inl ⟨'"', rfl, by decide, rfl⟩
  · exact .inl ⟨'\\', rfl, by decide, rfl⟩
  · exact .inl ⟨'n', rfl, by decide, rfl⟩
  · exact .inl ⟨'r', rfl, by decide, rfl⟩
  · exact .inl ⟨'t', rfl, by decide, rfl⟩
  · rename_i h₁ h₂ _ _ _
    exact .inr ⟨rfl, h₁, h₂⟩

/-- The writer's escape letters are letters the reader knows, of one byte each. -/
theorem escaped_letter {e : Char} (h : e ∈ ['n', 'r', 't', '"', '\\']) :
    e ∈ ['n', 'r', 't', '"', '\'', '\\'] ∧ isAscii e = true := by
  simp only [List.mem_cons, List.not_mem_nil, or_false] at h
  rcases h with rfl | rfl | rfl | rfl | rfl <;> decide

theorem quotedLoop_literal (s : List Char) (n : Nat) (out : List Char)
    (h : p.rest = encode (s.flatMap escapeChar ++ '"' :: r)) (hn : s.length < n) :
    quotedLoop (byteOf '"') n out p =
      .ok (String.ofList (out ++ s), p.adv (encode (s.flatMap escapeChar ++ ['"'])).length) := by
  induction s generalizing n out p with
  | nil =>
    obtain ⟨n, rfl⟩ : ∃ m, n = m + 1 := ⟨n - 1, by simp at hn; omega⟩
    rw [List.flatMap_nil, List.nil_append] at h
    rw [quotedLoop_close (by decide) n out h, List.append_nil]
    rfl
  | cons c s ih =>
    obtain ⟨n, rfl⟩ : ∃ m, n = m + 1 := ⟨n - 1, by simp at hn; omega⟩
    rw [List.flatMap_cons, List.append_assoc] at h ⊢
    have hstep : quotedLoop (byteOf '"') (n + 1) out p =
        quotedLoop (byteOf '"') n (out ++ [c]) (p.adv (encode (escapeChar c)).length) := by
      rcases escapeChar_cases c with ⟨e, he, hmem, hun⟩ | ⟨he, hq, hb⟩
      · rw [he] at h ⊢
        obtain ⟨hmem', hae⟩ := escaped_letter hmem
        rw [quotedLoop_escape (by decide) (by decide) n out hmem' h, hun,
          encode_cons_ascii (by decide), encode_cons_ascii hae]
        rfl
      · rw [he] at h ⊢
        exact quotedLoop_raw (by decide) hq hb n out h
    rw [hstep, ih n (out ++ [c]) (rest_adv_text h) (by simp at hn; omega), adv_append]
    simp

theorem length_le_flatMap_escapeChar (s : List Char) : s.length ≤ (s.flatMap escapeChar).length := by
  induction s with
  | nil => simp
  | cons c s ih =>
    have hpos : 1 ≤ (escapeChar c).length := by
      rcases escapeChar_cases c with ⟨e, he, -, -⟩ | ⟨he, -, -⟩ <;> simp [he]
    rw [List.flatMap_cons, List.length_append, List.length_cons]
    omega

theorem quoted_string_literal (s : String) (h : p.rest = encode (write_quoted s ++ r)) :
    quoted_string p = .ok (s, p.adv (encode (write_quoted s)).length) := by
  have hw : write_quoted s ++ r = '"' :: (s.toList.flatMap escapeChar ++ '"' :: r) := by
    simp [write_quoted]
  rw [hw] at h
  have hrest := rest_adv_char (by decide) h
  have hlen : s.toList.length < (p.adv 1).bytes.length + 1 := by
    have h₁ := rest_length_le (p.adv 1)
    have h₂ := length_le_flatMap_escapeChar s.toList
    have h₃ := length_le_encode (s.toList.flatMap escapeChar)
    rw [hrest, encode_append, List.length_append] at h₁
    omega
  have hloop := quotedLoop_literal s.toList _ [] hrest hlen
  rw [List.nil_append, String.ofList_toList, adv_adv, Nat.add_comm 1] at hloop
  rw [quoted_string, bump_char (by decide) h, write_quoted, encode_cons_ascii (c := '"') rfl]
  exact hloop

/-! ## Numbers -/

theorem isBareChar_of_isDigit {c : Char} (h : c.isDigit = true) : isBareChar c = true := by
  have halnum : c.isAlphanum = (c.isAlpha || c.isDigit) := rfl
  simp [isBareChar, halnum, h]

theorem print_bare (v : Int) : (Decimal.print v).all isBareChar = true := by
  rw [List.all_eq_true]
  intro c hc
  rcases Decimal.mem_print hc with rfl | hd
  · decide
  · exact isBareChar_of_isDigit hd

theorem isDigit_bounds {c : Char} (h : c.isDigit = true) : 48 ≤ c.toNat ∧ c.toNat ≤ 57 := by
  have hval (x : Char) : x.val.toNat = x.toNat := rfl
  simp only [Char.isDigit, Bool.and_eq_true, decide_eq_true_eq, ge_iff_le, UInt32.le_iff_toNat_le, hval] at h
  exact h

/-- A token with a digit is no word. -/
theorem not_eq_ignore_ascii_case {s w : List Char} {c : Char} (hc : c ∈ s) (hd : c.isDigit = true)
    (hw : (w.any fun d => d.toLower.isDigit) = false) : eq_ignore_ascii_case s w = false := by
  have hlow : c.toLower = c := by
    have := isDigit_bounds hd
    refine dif_neg fun hu => ?_
    have hu' : 65 ≤ c.toNat := by
      have := hu.1
      rw [ge_iff_le, UInt32.le_iff_toNat_le] at this
      exact this
    omega
  rw [eq_ignore_ascii_case, beq_eq_false_iff_ne]
  intro he
  have hm : c ∈ w.map Char.toLower := by
    rw [← he, ← hlow]
    exact List.mem_map_of_mem hc
  obtain ⟨d, hd', hdc⟩ := List.mem_map.mp hm
  have hno := List.any_eq_false.mp hw d hd'
  rw [hdc] at hno
  exact hno hd

theorem isNumericBody_print (v : Int) : isNumericBody (Decimal.print v) = true := by
  obtain ⟨c, hc, hd⟩ := Decimal.exists_digit_print v
  have hall : (Decimal.print v).all
      (fun b => b.isDigit || b == '-' || b == '+' || b == '.' || b == 'e' || b == 'E') = true := by
    rw [List.all_eq_true]
    intro b hb
    rcases Decimal.mem_print hb with rfl | hb
    · decide
    · simp [hb]
  have hany : (Decimal.print v).any Char.isDigit = true := List.any_eq_true.mpr ⟨c, hc, hd⟩
  simp [isNumericBody, Decimal.print_ne_nil, hall, hany]

/-- A numeral with or without a suffix letter is read by its suffix. -/
theorem tokenValue_numeral (v : Int) (suffix : List Char)
    (hs : suffix = [] ∨ ∃ c, suffix = [c] ∧ (suffixOf c).isSome = true) :
    tokenValue F (Decimal.print v ++ suffix) =
      (numericOf F (Decimal.print v) (suffix.head?.bind suffixOf)).getD
        (.string (String.ofList (Decimal.print v ++ suffix))) := by
  obtain ⟨c, hc, hd⟩ := Decimal.exists_digit_print v
  have hc' : c ∈ Decimal.print v ++ suffix := List.mem_append_left _ hc
  have htrue : eq_ignore_ascii_case (Decimal.print v ++ suffix) "true".toList = false :=
    not_eq_ignore_ascii_case hc' hd (by decide)
  have hfalse : eq_ignore_ascii_case (Decimal.print v ++ suffix) "false".toList = false :=
    not_eq_ignore_ascii_case hc' hd (by decide)
  rcases hs with rfl | ⟨d, rfl, hsuf⟩
  · obtain ⟨e, he, hed⟩ := Decimal.getLast_print v
    have hnone : suffixOf e = none := by
      have := isDigit_bounds hed
      rw [suffixOf, if_neg]
      intro hm
      simp only [List.contains_iff_mem, List.mem_cons, List.not_mem_nil, or_false] at hm
      rcases hm with rfl | rfl | rfl | rfl | rfl | rfl | rfl | rfl | rfl | rfl <;>
        exact absurd this (by decide)
    rw [tokenValue, htrue, hfalse]
    simp [he, hnone, isNumericBody_print]
  · obtain ⟨e, he⟩ := Option.isSome_iff_exists.mp hsuf
    rw [tokenValue, htrue, hfalse]
    simp [he, isNumericBody_print]

theorem print_any_dot (v : Int) : ((Decimal.print v).any fun c => c == '.' || c == 'e' || c == 'E') = false := by
  rw [List.any_eq_false]
  intro c hc
  rcases Decimal.mem_print hc with rfl | hd
  · decide
  · have := isDigit_bounds hd
    simp only [Bool.or_eq_true, beq_iff_eq]
    rintro ((rfl | rfl) | rfl) <;> exact absurd this (by decide)

theorem tokenValue_byte (v : Int8) : tokenValue F (Decimal.print v.toInt ++ ['b']) = .byte v := by
  rw [tokenValue_numeral _ _ (.inr ⟨'b', rfl, by decide⟩)]
  have h := Decimal.parse_print (-128) 127 (v := v.toInt) v.le_toInt
    (Int.le_of_lt_add_one v.toInt_lt)
  simp [numericOf, show suffixOf 'b' = some 'b' from rfl, parse_i8, h]

theorem tokenValue_short (v : Int16) : tokenValue F (Decimal.print v.toInt ++ ['s']) = .short v := by
  rw [tokenValue_numeral _ _ (.inr ⟨'s', rfl, by decide⟩)]
  have h := Decimal.parse_print (-32768) 32767 (v := v.toInt) v.le_toInt
    (Int.le_of_lt_add_one v.toInt_lt)
  simp [numericOf, show suffixOf 's' = some 's' from rfl, parse_i16, h]

theorem tokenValue_int (v : Int32) : tokenValue F (Decimal.print v.toInt) = .int v := by
  have h := Decimal.parse_print (-2147483648) 2147483647 (v := v.toInt) v.le_toInt
    (Int.le_of_lt_add_one v.toInt_lt)
  have := tokenValue_numeral (F := F) v.toInt [] (.inl rfl)
  rw [List.append_nil] at this
  rw [this]
  simp [numericOf, print_any_dot, parse_i32, h]

/-- Either letter makes a long. -/
theorem tokenValue_long {c : Char} (hc : suffixOf c = some 'l') (v : Int64) :
    tokenValue F (Decimal.print v.toInt ++ [c]) = .long v := by
  rw [tokenValue_numeral _ _ (.inr ⟨c, rfl, by rw [hc]; rfl⟩)]
  have h := Decimal.parse_print (-9223372036854775808) 9223372036854775807 (v := v.toInt)
    v.le_toInt (Int.le_of_lt_add_one v.toInt_lt)
  simp [numericOf, hc, parse_i64, h]

theorem scalar_token {tok : List Char} (hb : tok.all isBareChar = true) (hne : tok ≠ [])
    (hr : ∀ c ∈ r.head?, isBareChar c = false) (h : p.rest = encode (tok ++ r)) :
    scalar F p = .ok (tokenValue F tok, p.adv (encode tok).length) := by
  have htw : (tok ++ r).takeWhile isBareChar = tok := by
    rw [List.takeWhile_append_of_pos (fun c hc => List.all_eq_true.mp hb c hc)]
    cases r with
    | nil => simp
    | cons c r =>
      rw [List.takeWhile_cons_of_neg (by simp [hr c rfl]), List.append_nil]
  rw [scalar, bare_token_text h, htw, if_neg hne, ok_bind]

/-! ## Typed arrays -/

section Typed

theorem writeSep_false_cons {α : Type} (f : α → List Char) (a : α) (l : List α) :
    writeSep f false (a :: l) = ',' :: writeSep f true (a :: l) := by
  simp [writeSep]

theorem writeSep_true_cons {α : Type} (f : α → List Char) (a : α) (l : List α) :
    writeSep f true (a :: l) = f a ++ writeSep f false l := by
  simp [writeSep]

/-- After an element comes a comma or the closing character. -/
theorem writeSep_tail {α : Type} (f : α → List Char) (l : List α) (close : Char) (r : List Char) :
    ∃ c t, writeSep f false l ++ close :: r = c :: t ∧ (c = ',' ∨ c = close) := by
  cases l with
  | nil => exact ⟨close, r, rfl, .inr rfl⟩
  | cons a l =>
    rw [writeSep_false_cons]
    exact ⟨',', _, rfl, .inl rfl⟩

theorem delim_tail {α : Type} (f : α → List Char) (l : List α) {k : Char} (hc : k ∈ [']', '}'])
    (r : List Char) : Delim (writeSep f false l ++ k :: r) := by
  obtain ⟨c, t, h, hct⟩ := writeSep_tail f l k r
  rw [h]
  apply Delim.cons
  rcases hct with rfl | rfl
  · decide
  · simp only [List.mem_cons, List.not_mem_nil, or_false] at hc ⊢
    exact .inr hc

theorem Delim.skip_ws (hd : Delim t) (h : p.rest = encode t) : p.skip_ws = p := by
  apply skip_ws_text h
  intro c hc
  have := hd c hc
  simp only [List.mem_cons, List.not_mem_nil, or_false] at this
  rcases this with rfl | rfl | rfl <;> decide

theorem isWsChar_of_isBareChar {c : Char} (h : isBareChar c = true) : isWsChar c = false := by
  rw [Bool.eq_false_iff]
  intro hw
  simp only [isWsChar, Bool.or_eq_true, beq_iff_eq] at hw
  rcases hw with ((rfl | rfl) | rfl) | rfl <;> exact absurd h (by decide)

theorem isWsChar_of_head {c : Char} (h : c = '{' ∨ c = '[' ∨ c = '"' ∨ isBareChar c = true) :
    isWsChar c = false := by
  rcases h with rfl | rfl | rfl | h
  · rfl
  · rfl
  · rfl
  · exact isWsChar_of_isBareChar h

/-- A container that is not empty starts with its first element: no white
space, and not the closing character. -/
theorem sep_head {α : Type} {f : α → List Char} {a : α} {l : List α} {close : Char} (hclose : close ∈ [']', '}'])
    (hf : ∃ c t, f a = c :: t ∧ (c = '{' ∨ c = '[' ∨ c = '"' ∨ isBareChar c = true))
    (h : p.rest = encode (writeSep f true (a :: l) ++ close :: r)) :
    p.skip_ws = p ∧ p.peek ≠ some (byteOf close) := by
  obtain ⟨c, t, hc, hcb⟩ := hf
  have hhead : writeSep f true (a :: l) ++ close :: r = c :: (t ++ (writeSep f false l ++ close :: r)) := by
    rw [writeSep_true_cons, hc]
    simp
  rw [hhead] at h
  have hascii : isAscii close = true := by
    simp only [List.mem_cons, List.not_mem_nil, or_false] at hclose
    rcases hclose with rfl | rfl <;> rfl
  constructor
  · apply skip_ws_text h
    simp only [List.head?_cons, Option.mem_def, Option.some.injEq, forall_eq']
    exact isWsChar_of_head hcb
  · rw [ne_eq, peek_eq_char hascii h]
    intro he
    obtain rfl : c = close := by simpa using he
    simp only [List.mem_cons, List.not_mem_nil, or_false] at hclose
    rcases hclose with rfl | rfl <;> exact absurd hcb (by decide)

variable {α : Type} {f : α → List Char} {toI : α → Int64} {add : TypedAcc → α → TypedAcc} {kind : UInt8}

theorem typedLoop_write (hne : ∀ a, f a ≠ []) (hb : ∀ a, (f a).all isBareChar = true)
    (hv : ∀ a, (tokenValue F (f a)).as_i64 F = some (toI a))
    (hadd : ∀ acc a, acc.push kind (toI a) = some (add acc a)) (a : α) (l : List α) (n : Nat)
    (acc : TypedAcc) (h : p.rest = encode (writeSep f true (a :: l) ++ ']' :: r)) (hn : l.length < n) :
    typedLoop F kind n acc p =
      .ok ((a :: l).foldl add acc, p.adv (encode (writeSep f true (a :: l) ++ [']'])).length) := by
  induction l generalizing a n acc p with
  | nil =>
    obtain ⟨n, rfl⟩ : ∃ m, n = m + 1 := ⟨n - 1, by omega⟩
    rw [writeSep_true_cons, List.append_assoc] at h
    have hd : Delim (writeSep f false [] ++ ']' :: r) := delim_tail f [] (by decide) r
    have hrest := rest_adv_text h
    rw [typedLoop, scalar_token (hb a) (hne a) hd.not_bare h]
    simp only [ok_bind, hv, hadd, hd.skip_ws hrest]
    rw [show writeSep f false [] ++ ']' :: r = ']' :: r from rfl] at hrest
    rw [bump_char (by decide) hrest, writeSep_true_cons]
    simp only [writeSep, List.append_nil, if_true, (byteOf_inj (c := ']') (d := ',') rfl rfl).not.mpr (by decide),
      if_false, List.foldl_cons, List.foldl_nil, ← adv_append]
    rfl
  | cons b l ih =>
    obtain ⟨n, rfl⟩ : ∃ m, n = m + 1 := ⟨n - 1, by omega⟩
    rw [writeSep_true_cons, List.append_assoc] at h
    have hd : Delim (writeSep f false (b :: l) ++ ']' :: r) := delim_tail f (b :: l) (by decide) r
    have hrest := rest_adv_text h
    rw [typedLoop, scalar_token (hb a) (hne a) hd.not_bare h]
    simp only [ok_bind, hv, hadd, hd.skip_ws hrest]
    rw [writeSep_false_cons, List.cons_append] at hrest
    have hrest' := rest_adv_char (by decide) hrest
    have hws : ((p.adv (encode (f a)).length).adv 1).skip_ws = (p.adv (encode (f a)).length).adv 1 := by
      apply skip_ws_text hrest'
      obtain ⟨c, s, hs⟩ := List.exists_cons_of_ne_nil (hne b)
      rw [writeSep_true_cons, hs]
      simp only [List.cons_append, List.head?_cons, Option.mem_def, Option.some.injEq, forall_eq']
      exact isWsChar_of_isBareChar (List.all_eq_true.mp (hb b) c (by rw [hs]; exact List.mem_cons_self))
    rw [bump_char (by decide) hrest]
    simp only [if_true, hws]
    rw [ih b n (add acc a) hrest' (by simp at hn; omega)]
    rw [writeSep_true_cons f a, writeSep_false_cons]
    simp [encode_cons_ascii (c := ',') rfl, Nat.add_assoc, Nat.add_comm, Nat.add_left_comm]

theorem length_le_writeSep (l : List α) (first : Bool) : l.length ≤ (writeSep f first l).length + 1 := by
  induction l generalizing first with
  | nil => simp
  | cons a l ih =>
    cases l with
    | nil => simp
    | cons b l =>
      have := ih true
      simp only [writeSep, List.length_append, List.length_cons] at this ⊢
      simp only [if_true, List.length_nil, Bool.false_eq_true, if_false, List.length_singleton] at this ⊢
      omega

/-- A loop over what `writeSep` wrote has fuel for every element. -/
theorem length_lt_fuel {l : List α} {close : Char} {first : Bool}
    (h : p.rest = encode (writeSep f first l ++ close :: r)) : l.length < p.bytes.length + 1 := by
  have h₁ := rest_length_le p
  have h₂ := length_le_encode (writeSep f first l ++ close :: r)
  have h₃ := length_le_writeSep (f := f) l first
  rw [← h, List.length_append, List.length_cons] at h₂
  omega

theorem typed_array_write (hne : ∀ a, f a ≠ []) (hb : ∀ a, (f a).all isBareChar = true)
    (hv : ∀ a, (tokenValue F (f a)).as_i64 F = some (toI a))
    (hadd : ∀ acc a, acc.push kind (toI a) = some (add acc a)) (l : List α)
    (h : p.rest = encode (writeSep f true l ++ ']' :: r)) :
    typed_array F kind p = .ok ((l.foldl add ⟨[], [], []⟩).value kind,
      p.adv (encode (writeSep f true l ++ [']'])).length) := by
  cases l with
  | nil =>
    have hd : Delim (']' :: r) := Delim.cons (by decide) r
    rw [typed_array, hd.skip_ws h, peek_char (by decide) h]
    rfl
  | cons a l =>
    obtain ⟨c, s, hs⟩ := List.exists_cons_of_ne_nil (hne a)
    have hc : isBareChar c = true := List.all_eq_true.mp (hb a) c (by rw [hs]; exact List.mem_cons_self)
    obtain ⟨hws, hpeek⟩ := sep_head (by decide) ⟨c, s, hs, .inr (.inr (.inr hc))⟩ h
    have hlen : l.length < p.bytes.length + 1 := by
      have := length_lt_fuel h
      simp only [List.length_cons] at this
      omega
    rw [typed_array]
    simp only [hws, hpeek, if_false, typedLoop_write hne hb hv hadd a l _ _ h hlen, ok_bind]

end Typed

/-! ## Lists and compounds -/

/-- `val` reads the written text of `v` whole, whatever delimiter follows. -/
def Reads (F : Floats) (val : Parser → Except Fail (NbtValue × Parser)) (v : NbtValue) : Prop :=
  ∀ (p : Parser) (r : List Char), p.rest = encode (v.write F ++ r) → Delim r →
    val p = .ok (v, p.adv (encode (v.write F)).length)

variable {val : Parser → Except Fail (NbtValue × Parser)}

section Items

variable {ι : Type} {print : ι → List Char} {value : ι → NbtValue}

/-- The loop reads items up to the closing bracket. -/
theorem listLoop_items (e : ι) (l : List ι)
    (hl : ∀ u ∈ e :: l, ∀ (p : Parser) (r : List Char), p.rest = encode (print u ++ r) → Delim r →
      val p = .ok (value u, p.adv (encode (print u)).length))
    (n : Nat) (items : List NbtValue) (h : p.rest = encode (writeSep print true (e :: l) ++ ']' :: r))
    (hn : l.length < n) :
    listLoop val n items p = .ok (items ++ (e :: l).map value,
      p.adv (encode (writeSep print true (e :: l) ++ [']'])).length) := by
  induction l generalizing e n items p with
  | nil =>
    obtain ⟨n, rfl⟩ : ∃ m, n = m + 1 := ⟨n - 1, by omega⟩
    rw [writeSep_true_cons, List.append_assoc] at h
    have hd : Delim (writeSep print false [] ++ ']' :: r) := delim_tail _ [] (by decide) r
    have hrest := rest_adv_text h
    rw [listLoop, hl e List.mem_cons_self p _ h hd]
    simp only [ok_bind, hd.skip_ws hrest]
    rw [show writeSep print false [] ++ ']' :: r = ']' :: r from rfl] at hrest
    rw [bump_char (by decide) hrest, writeSep_true_cons]
    simp only [writeSep, List.append_nil, if_true, (byteOf_inj (c := ']') (d := ',') rfl rfl).not.mpr (by decide),
      if_false, ← adv_append]
    rfl
  | cons u l ih =>
    obtain ⟨n, rfl⟩ : ∃ m, n = m + 1 := ⟨n - 1, by omega⟩
    rw [writeSep_true_cons, List.append_assoc] at h
    have hd : Delim (writeSep print false (u :: l) ++ ']' :: r) := delim_tail _ (u :: l) (by decide) r
    have hrest := rest_adv_text h
    rw [listLoop, hl e List.mem_cons_self p _ h hd]
    simp only [ok_bind, hd.skip_ws hrest]
    rw [writeSep_false_cons, List.cons_append] at hrest
    rw [bump_char (by decide) hrest]
    simp only [if_true]
    rw [ih u (fun w hw => hl w (List.mem_cons_of_mem _ hw)) n (items ++ [value e])
      (rest_adv_char (by decide) hrest) (by simp at hn; omega)]
    rw [writeSep_true_cons _ e, writeSep_false_cons]
    simp [encode_cons_ascii (c := ',') rfl, Nat.add_assoc, Nat.add_comm, Nat.add_left_comm]

/-- Items before a closing bracket are a list. -/
theorem list_items (l : List ι)
    (hhead : ∀ u ∈ l, ∃ c t, print u = c :: t ∧ (c = '{' ∨ c = '[' ∨ c = '"' ∨ isBareChar c = true))
    (hl : ∀ u ∈ l, ∀ (p : Parser) (r : List Char), p.rest = encode (print u ++ r) → Delim r →
      val p = .ok (value u, p.adv (encode (print u)).length))
    (h : p.rest = encode (writeSep print true l ++ ']' :: r)) :
    list val p = .ok (.list (l.map value), p.adv (encode (writeSep print true l ++ [']'])).length) := by
  cases l with
  | nil =>
    have hd : Delim (']' :: r) := Delim.cons (by decide) r
    rw [list, hd.skip_ws h, peek_char (by decide) h]
    rfl
  | cons e l =>
    obtain ⟨hws, hpeek⟩ := sep_head (by decide) (hhead e List.mem_cons_self) h
    have hlen : l.length < p.bytes.length + 1 := by
      have := length_lt_fuel h
      simp only [List.length_cons] at this
      omega
    rw [list]
    simp only [hws, hpeek, if_false, listLoop_items e l hl _ [] h hlen, ok_bind, List.nil_append]

end Items

/-- Written values never start with white space or with a closing bracket. -/
theorem write_head {v : NbtValue} (hv : noFloatNode v = true) :
    ∃ c t, v.write F = c :: t ∧ (c = '{' ∨ c = '[' ∨ c = '"' ∨ isBareChar c = true) := by
  have hnum (i : Int) (s : List Char) :
      ∃ c t, Decimal.print i ++ s = c :: t ∧ (c = '{' ∨ c = '[' ∨ c = '"' ∨ isBareChar c = true) := by
    obtain ⟨c, t, hc⟩ := List.exists_cons_of_ne_nil (Decimal.print_ne_nil i)
    refine ⟨c, t ++ s, by rw [hc, List.cons_append], .inr (.inr (.inr ?_))⟩
    exact List.all_eq_true.mp (print_bare i) c (by rw [hc]; exact List.mem_cons_self)
  cases v with
  | byte v => exact hnum _ _
  | short v => exact hnum _ _
  | int v => simpa [NbtValue.write] using hnum v.toInt []
  | long v => exact hnum _ _
  | float v => simp [noFloatNode] at hv
  | double v => simp [noFloatNode] at hv
  | string s => exact ⟨'"', _, rfl, by simp⟩
  | list items => exact ⟨'[', _, rfl, by simp⟩
  | compound map => exact ⟨'{', _, rfl, by simp⟩
  | byteArray items => exact ⟨'[', _, rfl, by simp⟩
  | intArray items => exact ⟨'[', _, rfl, by simp⟩
  | longArray items => exact ⟨'[', _, rfl, by simp⟩

theorem noFloatNode_of_noFloats {v : NbtValue} (h : v.NoFloats) : noFloatNode v = true := by
  rw [NbtValue.NoFloats] at h
  cases v <;> simp_all [NbtValue.all]

theorem list_write (items : List NbtValue) (hl : ∀ u ∈ items, Reads F val u)
    (hf : ∀ u ∈ items, noFloatNode u = true)
    (h : p.rest = encode (writeSep (NbtValue.write F) true items ++ ']' :: r)) :
    list val p = .ok (.list items,
      p.adv (encode (writeSep (NbtValue.write F) true items ++ [']'])).length) := by
  have hitems : list val p = .ok (.list (items.map id),
      p.adv (encode (writeSep (NbtValue.write F) true items ++ [']'])).length) :=
    list_items items (fun u hu => write_head (hf u hu)) hl h
  rwa [List.map_id] at hitems

theorem is_bare_key_iff (k : String) :
    is_bare_key k = true ↔ k.toList ≠ [] ∧ k.toList.all isBareChar = true := by
  simp [is_bare_key]

/-- A key starts with a bare character or a double quote. -/
theorem writeKey_head (k : String) : ∃ c t, writeKey k = c :: t ∧ (c = '"' ∨ isBareChar c = true) := by
  cases hk : is_bare_key k with
  | true =>
    obtain ⟨hne, hall⟩ := (is_bare_key_iff k).mp hk
    obtain ⟨c, t, hc⟩ := List.exists_cons_of_ne_nil hne
    refine ⟨c, t, by simp [writeKey, hk, hc], .inr ?_⟩
    exact List.all_eq_true.mp hall c (by rw [hc]; exact List.mem_cons_self)
  | false =>
    have hw : writeKey k = write_quoted k := by simp [writeKey, hk]
    exact ⟨'"', _, by rw [hw, write_quoted], .inl rfl⟩

theorem readKey_write (k : String) (h : p.rest = encode (writeKey k ++ ':' :: r)) :
    readKey p = .ok (k, p.adv (encode (writeKey k)).length) := by
  cases hk : is_bare_key k with
  | true =>
    obtain ⟨hne, hall⟩ := (is_bare_key_iff k).mp hk
    have hw : writeKey k = k.toList := by simp [writeKey, hk]
    rw [hw] at h ⊢
    obtain ⟨c, t, hc⟩ := List.exists_cons_of_ne_nil hne
    have hbc : isBareChar c = true := List.all_eq_true.mp hall c (by rw [hc]; exact List.mem_cons_self)
    have hq (q : Char) (hq : isAscii q = true) (hqb : isBareChar q = false) : p.peek ≠ some (byteOf q) := by
      rw [ne_eq, peek_eq_char hq h, hc]
      intro he
      obtain rfl : c = q := by simpa using he
      rw [hbc] at hqb
      exact absurd hqb (by simp)
    have htw : (k.toList ++ ':' :: r).takeWhile isBareChar = k.toList := by
      rw [List.takeWhile_append_of_pos (fun c hc => List.all_eq_true.mp hall c hc),
        List.takeWhile_cons_of_neg (by decide), List.append_nil]
    rw [readKey, if_neg (by simp [hq '"' rfl rfl, hq '\'' rfl rfl]), bare_token_text h, htw, if_neg hne,
      ok_bind]
    simp only [String.ofList_toList]
  | false =>
    have hw : writeKey k = write_quoted k := by simp [writeKey, hk]
    rw [hw] at h ⊢
    have hpeek : p.peek = some (byteOf '"') := peek_char (by decide) h
    rw [readKey, if_pos (.inl hpeek)]
    exact quoted_string_literal k h

theorem insertEntry_append (k : String) (v : NbtValue) (map : List (String × NbtValue))
    (h : ∀ e ∈ map, e.1 < k) : insertEntry k v map = map ++ [(k, v)] := by
  induction map with
  | nil => rfl
  | cons e map ih =>
    have he : e.1 < k := h e List.mem_cons_self
    have h₁ : ¬ k < e.1 := String.lt_asymm he
    have h₂ : ¬ k = e.1 := by
      rintro rfl
      exact String.lt_irrefl _ he
    obtain ⟨k', v'⟩ := e
    simp only [insertEntry, h₁, h₂, if_false, List.cons_append]
    rw [ih fun e he => h e (List.mem_cons_of_mem _ he)]

/-- Inserting in key order appends. -/
theorem insertEntry_last {e : String × NbtValue} {map l : List (String × NbtValue)}
    (hs : ((map ++ e :: l).map Prod.fst).Pairwise (· < ·)) : insertEntry e.1 e.2 map = map ++ [e] := by
  apply insertEntry_append
  intro u hu
  rw [List.map_append, List.pairwise_append] at hs
  exact hs.2.2 u.1 (List.mem_map_of_mem hu) e.1 (by simp)

theorem lookup_insertEntry_of_ne {k k' : String} (h : k' ≠ k) (v : NbtValue) (map : List (String × NbtValue)) :
    (insertEntry k v map).lookup k' = map.lookup k' := by
  have hb : (k' == k) = false := beq_eq_false_iff_ne.mpr h
  induction map with
  | nil => simp [insertEntry, h]
  | cons e map ih =>
    obtain ⟨a, b⟩ := e
    rw [insertEntry]
    split_ifs with hlt heq
    · rw [List.lookup_cons, hb]
    · subst heq
      rw [List.lookup_cons, List.lookup_cons, hb]
    · rw [List.lookup_cons, List.lookup_cons, ih]

theorem mem_insertEntry {k : String} {v : NbtValue} {map : List (String × NbtValue)} {e : String × NbtValue}
    (h : e ∈ insertEntry k v map) : e = (k, v) ∨ e ∈ map := by
  induction map with
  | nil => exact .inl (List.mem_singleton.mp h)
  | cons u map ih =>
    obtain ⟨a, b⟩ := u
    rw [insertEntry] at h
    split_ifs at h with hlt heq
    · exact List.mem_cons.mp h
    · rcases List.mem_cons.mp h with h | h
      · exact .inl h
      · exact .inr (.tail _ h)
    · rcases List.mem_cons.mp h with rfl | h
      · exact .inr (.head _)
      · rcases ih h with h | h
        · exact .inl h
        · exact .inr (.tail _ h)

theorem insertEntry_sorted (k : String) (v : NbtValue) {map : List (String × NbtValue)}
    (h : map.Pairwise fun a b => a.1 < b.1) : (insertEntry k v map).Pairwise fun a b => a.1 < b.1 := by
  induction h with
  | nil => exact List.pairwise_singleton _ _
  | @cons u map hu hm ih =>
    obtain ⟨a, b⟩ := u
    rw [insertEntry]
    split_ifs with hlt heq
    · refine .cons (fun e he => ?_) (.cons hu hm)
      rcases List.mem_cons.mp he with rfl | he
      · exact hlt
      · exact String.lt_trans hlt (hu e he)
    · subst heq
      exact .cons hu hm
    · refine .cons (fun e he => ?_) ih
      rcases mem_insertEntry he with rfl | he
      · by_contra hn
        exact heq (String.le_antisymm (String.not_lt.mp hn) (String.not_lt.mp hlt))
      · exact hu e he
/-- What the writer puts down for one entry. -/
def writeEntry (F : Floats) (e : String × NbtValue) : List Char := writeKey e.1 ++ ':' :: e.2.write F

theorem writeEntry_head (e : String × NbtValue) :
    ∃ c t, writeEntry F e = c :: t ∧ (c = '{' ∨ c = '[' ∨ c = '"' ∨ isBareChar c = true) := by
  obtain ⟨c, t, hc, hcb⟩ := writeKey_head e.1
  exact ⟨c, t ++ ':' :: e.2.write F, by rw [writeEntry, hc]; rfl, .inr (.inr hcb)⟩

/-- No white space stands before a written key. -/
theorem skip_ws_key (k : String) (h : p.rest = encode (writeKey k ++ ':' :: t)) : p.skip_ws = p := by
  obtain ⟨c, s, hc, hcb⟩ := writeKey_head k
  apply skip_ws_text h
  rw [hc]
  simp only [List.cons_append, List.head?_cons, Option.mem_def, Option.some.injEq, forall_eq']
  exact isWsChar_of_head (.inr (.inr hcb))

/-- The key and the colon of a written entry are read; the value is next. -/
theorem entry_key (e : String × NbtValue) (h : p.rest = encode (writeEntry F e ++ t)) :
    p.skip_ws = p ∧ readKey p = .ok (e.1, p.adv (encode (writeKey e.1)).length) ∧
      (p.adv (encode (writeKey e.1)).length).skip_ws.expect ':' =
        .ok ((p.adv (encode (writeKey e.1)).length).adv 1) ∧
      ((p.adv (encode (writeKey e.1)).length).adv 1).rest = encode (e.2.write F ++ t) := by
  have hkey : p.rest = encode (writeKey e.1 ++ ':' :: (e.2.write F ++ t)) := by
    rw [h, writeEntry]
    simp
  have h₁ := rest_adv_text hkey
  have hws₁ : (p.adv (encode (writeKey e.1)).length).skip_ws = p.adv (encode (writeKey e.1)).length :=
    skip_ws_text h₁ (by simp [isWsChar])
  refine ⟨skip_ws_key e.1 hkey, readKey_write e.1 hkey, ?_, rest_adv_char rfl h₁⟩
  rw [hws₁, expect_char rfl h₁]

/-- A round of the loop reads the text as an entry, whatever delimiter follows. -/
def ReadsEntry (val : Parser → Except Fail (NbtValue × Parser)) (text : List Char) (key : String) (v : NbtValue) :
    Prop :=
  ∀ (p : Parser) (t : List Char) (n : Nat) (map : List (String × NbtValue)), p.rest = encode (text ++ t) → Delim t →
    compoundLoop val (n + 1) map p =
      match (p.adv (encode text).length).bump with
      | (some b, p) =>
        if b = byteOf ',' then compoundLoop val n (insertEntry key v map) p
        else if b = byteOf '}' then .ok (insertEntry key v map, p)
        else .error (p.err "expected ',' or '\x7d' in compound")
      | (none, p) => .error (p.err "expected ',' or '\x7d' in compound")

/-- A key, a colon and a value. -/
theorem readsEntry {keyText text : List Char} {key : String} {v : NbtValue}
    (hkey : ∀ (p : Parser) (t : List Char), p.rest = encode (keyText ++ ':' :: t) →
      p.skip_ws = p ∧ readKey p = .ok (key, p.adv (encode keyText).length))
    (hval : ∀ (p : Parser) (t : List Char), p.rest = encode (text ++ t) → Delim t →
      val p = .ok (v, p.adv (encode text).length)) : ReadsEntry val (keyText ++ ':' :: text) key v := by
  intro p t n map h hd
  have hrest : p.rest = encode (keyText ++ ':' :: (text ++ t)) := by
    rw [h]
    simp
  obtain ⟨hws, hread⟩ := hkey p _ hrest
  have hcolon := rest_adv_text hrest
  have hws' : (p.adv (encode keyText).length).skip_ws = p.adv (encode keyText).length :=
    skip_ws_text hcolon (by simp [isWsChar])
  have hv := hval _ t (rest_adv_char rfl hcolon) hd
  have hadv : ((p.adv (encode keyText).length).adv 1).adv (encode text).length =
      p.adv (encode (keyText ++ ':' :: text)).length := by
    rw [adv_cons (c := ':') rfl, adv_append]
  rw [compoundLoop, hws, hread]
  rcases hbump : (p.adv (encode (keyText ++ ':' :: text)).length).bump with ⟨_ | b, q⟩ <;>
    simp only [ok_bind, hws', expect_char rfl hcolon, hv, hadv, hd.skip_ws (rest_adv_text h), hbump]

section Entries

variable {ι : Type} {print : ι → List Char} {key : ι → String} {value : ι → NbtValue}

/-- The loop reads entries up to the closing brace. -/
theorem compoundLoop_entries (e : ι) (l : List ι) (hl : ∀ u ∈ e :: l, ReadsEntry val (print u) (key u) (value u))
    (n : Nat) (map : List (String × NbtValue)) (h : p.rest = encode (writeSep print true (e :: l) ++ '}' :: r))
    (hn : l.length < n) :
    compoundLoop val n map p = .ok ((e :: l).foldl (fun map e => insertEntry (key e) (value e) map) map,
      p.adv (encode (writeSep print true (e :: l) ++ ['}'])).length) := by
  induction l generalizing e n map p with
  | nil =>
    obtain ⟨n, rfl⟩ : ∃ m, n = m + 1 := ⟨n - 1, by omega⟩
    rw [writeSep_true_cons, List.append_assoc] at h
    have hd : Delim (writeSep print false [] ++ '}' :: r) := delim_tail _ [] (by decide) r
    have hrest := rest_adv_text h
    rw [hl e List.mem_cons_self p _ n map h hd]
    rw [show writeSep print false [] ++ '}' :: r = '}' :: r from rfl] at hrest
    rw [bump_char (by decide) hrest, writeSep_true_cons]
    simp only [writeSep, List.append_nil, if_true, (byteOf_inj (c := '}') (d := ',') rfl rfl).not.mpr (by decide),
      if_false, ← adv_append]
    rfl
  | cons u l ih =>
    obtain ⟨n, rfl⟩ : ∃ m, n = m + 1 := ⟨n - 1, by omega⟩
    rw [writeSep_true_cons, List.append_assoc] at h
    have hd : Delim (writeSep print false (u :: l) ++ '}' :: r) := delim_tail _ (u :: l) (by decide) r
    have hrest := rest_adv_text h
    rw [hl e List.mem_cons_self p _ n map h hd]
    rw [writeSep_false_cons, List.cons_append] at hrest
    rw [bump_char (by decide) hrest]
    simp only [if_true]
    rw [ih u (fun w hw => hl w (List.mem_cons_of_mem _ hw)) n (insertEntry (key e) (value e) map)
      (rest_adv_char (by decide) hrest) (by simp at hn; omega)]
    rw [writeSep_true_cons _ e, writeSep_false_cons]
    simp [encode_cons_ascii (c := ',') rfl, Nat.add_assoc, Nat.add_comm, Nat.add_left_comm]

/-- Entries in braces are a compound. -/
theorem compound_entries (e : ι) (l : List ι)
    (hhead : ∃ c t, print e = c :: t ∧ (c = '{' ∨ c = '[' ∨ c = '"' ∨ isBareChar c = true))
    (hl : ∀ u ∈ e :: l, ReadsEntry val (print u) (key u) (value u))
    (h : p.rest = encode ('{' :: (writeSep print true (e :: l) ++ '}' :: r))) :
    compound val p = .ok (.compound ((e :: l).foldl (fun map e => insertEntry (key e) (value e) map) []),
      p.adv (encode ('{' :: (writeSep print true (e :: l) ++ ['}']))).length) := by
  have hrest := rest_adv_char (by decide) h
  obtain ⟨hws, hpeek⟩ := sep_head (by decide) hhead hrest
  have hlen : l.length < (p.adv 1).bytes.length + 1 := by
    have := length_lt_fuel hrest
    simp only [List.length_cons] at this
    omega
  have hloop := compoundLoop_entries e l hl _ [] hrest hlen
  rw [adv_cons (c := '{') rfl] at hloop
  rw [compound, expect_char (by decide) h, ok_bind]
  simp only [hws, hpeek, if_false, hloop, ok_bind]

end Entries

theorem readsEntry_write (e : String × NbtValue) (he : Reads F val e.2) :
    ReadsEntry val (writeEntry F e) e.1 e.2 :=
  readsEntry (fun _ _ h => ⟨skip_ws_key e.1 h, readKey_write e.1 h⟩) he

/-- Entries in key order are read into the map as they stand. -/
theorem foldl_insertEntry (l map : List (String × NbtValue)) (hs : ((map ++ l).map Prod.fst).Pairwise (· < ·)) :
    l.foldl (fun map e => insertEntry e.1 e.2 map) map = map ++ l := by
  induction l generalizing map with
  | nil => simp
  | cons e l ih =>
    rw [List.foldl_cons, insertEntry_last hs, ih _ (by simpa using hs)]
    simp

theorem compound_write (map : List (String × NbtValue)) (hl : ∀ u ∈ map, Reads F val u.2)
    (hs : (map.map Prod.fst).Pairwise (· < ·))
    (h : p.rest = encode ('{' :: (writeSep (writeEntry F) true map ++ '}' :: r))) :
    compound val p = .ok (.compound map,
      p.adv (encode ('{' :: (writeSep (writeEntry F) true map ++ ['}']))).length) := by
  cases map with
  | nil =>
    have hrest := rest_adv_char (by decide) h
    have hd : Delim ('}' :: r) := Delim.cons (by decide) r
    rw [compound, expect_char (by decide) h, ok_bind]
    simp only [hd.skip_ws hrest, peek_char (c := '}') rfl hrest, if_true, adv_adv]
    rfl
  | cons e l =>
    have hentries := compound_entries e l (writeEntry_head e) (fun u hu => readsEntry_write u (hl u hu)) h
    rwa [foldl_insertEntry (e :: l) [] hs, List.nil_append] at hentries

/-! ## The bracket lookahead -/

/-- What follows the first character of a written number is no semicolon. -/
theorem number_second (i : Int) {x : List Char} (hx : x.all isBareChar = true) (hd : Delim r) {a : Char}
    {s : List Char} (h : Decimal.print i ++ x ++ r = a :: s) : s.head? ≠ some ';' := by
  obtain ⟨c, t, hc⟩ := List.exists_cons_of_ne_nil (Decimal.print_ne_nil i)
  have hs : s = t ++ x ++ r := by
    rw [hc] at h
    simpa using (List.cons.inj h).2.symm
  have hb : (t ++ x).all isBareChar = true := by
    have := print_bare i
    rw [hc, List.all_cons, Bool.and_eq_true] at this
    rw [List.all_append, this.2, hx]
    rfl
  rw [hs]
  cases htx : t ++ x with
  | nil => exact hd.not_semi
  | cons d u =>
    rw [htx, List.all_cons, Bool.and_eq_true] at hb
    rw [List.cons_append, List.head?_cons]
    intro he
    obtain rfl := Option.some.inj he
    exact absurd hb.1 (by decide)

/-- Nor is the first of what stands between brackets. -/
theorem writeSep_first {α : Type} {f : α → List Char} {l : List α} {k : Char} (hk : k ≠ ';')
    (hf : ∀ u ∈ l, ∃ c t, f u = c :: t ∧ (c = '{' ∨ c = '[' ∨ c = '"' ∨ isBareChar c = true)) :
    (writeSep f true l ++ k :: r).head? ≠ some ';' := by
  cases l with
  | nil => simpa [writeSep] using hk
  | cons u l =>
    obtain ⟨c, t, hc, hcb⟩ := hf u List.mem_cons_self
    rw [writeSep_true_cons, hc]
    simp only [List.cons_append, List.head?_cons, ne_eq, Option.some.injEq]
    rintro rfl
    exact absurd hcb (by decide)

/-- The second character of a written value is no semicolon, unless the value
is a string that starts with one. -/
theorem write_second {v : NbtValue} (hf : v.all noFloatNode = true)
    (hv : ∀ s, v = .string s → s.toList.head? ≠ some ';') (hd : Delim r) {a : Char} {s : List Char}
    (h : v.write F ++ r = a :: s) : s.head? ≠ some ';' := by
  cases v with
  | byte v => exact number_second v.toInt (x := ['b']) (by decide) hd h
  | short v => exact number_second v.toInt (x := ['s']) (by decide) hd h
  | int v => exact number_second v.toInt (x := []) rfl hd (by simpa [NbtValue.write] using h)
  | long v => exact number_second v.toInt (x := ['L']) (by decide) hd h
  | float v => simp [NbtValue.all, noFloatNode] at hf
  | double v => simp [NbtValue.all, noFloatNode] at hf
  | string str =>
    rw [NbtValue.write, write_quoted, List.cons_append] at h
    rw [← (List.cons.inj h).2]
    cases hs : str.toList with
    | nil => simp
    | cons c cs =>
      rw [List.flatMap_cons]
      rcases escapeChar_cases c with ⟨e, he, -, -⟩ | ⟨he, -, -⟩
      · simp [he]
      · have := hv str rfl
        rw [hs] at this
        simpa [he] using this
  | list items =>
    rw [NbtValue.write, List.cons_append] at h
    rw [← (List.cons.inj h).2, writeItems_eq, List.append_assoc]
    rw [NbtValue.all, Bool.and_eq_true, allItems_iff] at hf
    exact writeSep_first (by decide) fun u hu => write_head (noFloatNode_of_noFloats (hf.2 u hu))
  | compound map =>
    rw [NbtValue.write, List.cons_append] at h
    rw [← (List.cons.inj h).2, writeEntries_eq, List.append_assoc]
    exact writeSep_first (by decide) fun e _ => writeEntry_head e
  | byteArray | intArray | longArray =>
    rw [NbtValue.write] at h
    rw [← (List.cons.inj h).2]
    simp

theorem list_text (items : List NbtValue) :
    (NbtValue.list items).write F ++ r = '[' :: (writeSep (NbtValue.write F) true items ++ ']' :: r) := by
  rw [NbtValue.write, writeItems_eq]
  simp

/-- The lookahead takes a list for a list unless it starts with a semicolon string. -/
theorem list_or_array_of_list {items : List NbtValue} (hf : ∀ u ∈ items, u.NoFloats)
    (hs : noSemicolonNode (.list items) = true) (hd : Delim r)
    (h : p.rest = encode ((NbtValue.list items).write F ++ r)) :
    list_or_array F val p = list val (p.adv 1) := by
  rw [list_text] at h
  apply list_or_array_list F val h
  intro a s has _
  cases items with
  | nil =>
    obtain rfl := (List.cons.inj has).2
    exact hd.not_semi
  | cons u l =>
    rw [writeSep_true_cons, List.append_assoc] at has
    refine write_second (hf u List.mem_cons_self) ?_ (delim_tail _ l (by decide) r) has
    rintro str rfl
    simpa [noSemicolonNode] using hs

theorem list_or_array_write {items : List NbtValue} (hl : ∀ u ∈ items, Reads F val u)
    (hf : ∀ u ∈ items, u.NoFloats) (hs : noSemicolonNode (.list items) = true) (hd : Delim r)
    (h : p.rest = encode ((NbtValue.list items).write F ++ r)) :
    list_or_array F val p = .ok (.list items, p.adv (encode ((NbtValue.list items).write F)).length) := by
  have hrest : (p.adv 1).rest = encode (writeSep (NbtValue.write F) true items ++ ']' :: r) := by
    rw [list_text] at h
    exact rest_adv_char rfl h
  rw [list_or_array_of_list hf hs hd h,
    list_write items hl (fun u hu => noFloatNode_of_noFloats (hf u hu)) hrest, adv_cons (c := '[') rfl,
    NbtValue.write, writeItems_eq]

/-! ## The whole value -/

/-- A bare token starts neither a container nor a string. -/
theorem value_token {tok : List Char} (hb : tok.all isBareChar = true) (hne : tok ≠ []) (n : Nat)
    (h : p.rest = encode (tok ++ r)) (hd : Delim r) :
    value F (n + 1) p = .ok (tokenValue F tok, p.adv (encode tok).length) := by
  obtain ⟨c, t, hc⟩ := List.exists_cons_of_ne_nil hne
  have hcb : isBareChar c = true := List.all_eq_true.mp hb c (by rw [hc]; exact List.mem_cons_self)
  have hhead : p.rest = encode (c :: (t ++ r)) := by rw [h, hc]; rfl
  have hnot (d : Char) (hdb : isBareChar d = false) : c ≠ d := by
    rintro rfl
    rw [hcb] at hdb
    exact absurd hdb (by simp)
  rw [value_of_head n (isAscii_of_isBareChar hcb) (isWsChar_of_isBareChar hcb) hhead, if_neg (hnot '{' rfl),
    if_neg (hnot '[' rfl), if_neg (by simp [hnot '"' rfl, hnot '\'' rfl])]
  exact scalar_token hb hne hd.not_bare h

theorem value_numeral (i : Int) (suffix : List Char) (hx : suffix.all isBareChar = true) (n : Nat)
    (h : p.rest = encode (Decimal.print i ++ suffix ++ r)) (hd : Delim r) :
    value F (n + 1) p = .ok (tokenValue F (Decimal.print i ++ suffix),
      p.adv (encode (Decimal.print i ++ suffix)).length) := by
  have hb : (Decimal.print i ++ suffix).all isBareChar = true := by
    rw [List.all_append, print_bare, hx]
    rfl
  exact value_token hb (by simp [Decimal.print_ne_nil]) n h hd

/-- The typed-array constructors, which differ in the kind and the vector filled. -/
theorem value_typed {α : Type} {f : α → List Char} (toI : α → Int64) (add : TypedAcc → α → TypedAcc) {k : Char}
    (hk : isAscii k = true) (hne : ∀ a, f a ≠ []) (hb : ∀ a, (f a).all isBareChar = true)
    (hv : ∀ a, (tokenValue F (f a)).as_i64 F = some (toI a))
    (hadd : ∀ acc a, acc.push (byteOf k) (toI a) = some (add acc a)) (l : List α) (n : Nat)
    (h : p.rest = encode (['[', k, ';'] ++ writeSep f true l ++ [']'] ++ r)) :
    value F (n + 1) p = .ok ((l.foldl add ⟨[], [], []⟩).value (byteOf k),
      p.adv (encode (['[', k, ';'] ++ writeSep f true l ++ [']'])).length) := by
  have htext : ['[', k, ';'] ++ writeSep f true l ++ [']'] ++ r =
      '[' :: k :: ';' :: (writeSep f true l ++ ']' :: r) := by simp
  rw [htext] at h
  have hrest := rest_adv_char (by decide) (rest_adv_char hk (rest_adv_char (by decide) h))
  rw [value_of_head n (by decide) (by decide) h, if_neg (by decide), if_pos rfl,
    list_or_array_typed F _ hk h]
  rw [adv_adv, adv_adv] at hrest
  rw [typed_array_write hne hb hv hadd l hrest]
  have hadv : (p.adv 3).adv (encode (writeSep f true l ++ [']'])).length =
      p.adv (encode (['[', k, ';'] ++ writeSep f true l ++ [']'])).length := by
    rw [show p.adv 3 = ((p.adv 1).adv 1).adv 1 by simp, adv_cons (c := ';') rfl, adv_cons hk,
      adv_cons (c := '[') rfl]
    simp
  rw [hadv]

theorem foldl_bytes (l : List Int8) (acc : TypedAcc) :
    l.foldl (fun acc v => { acc with bytes_ := acc.bytes_ ++ [v] }) acc =
      { acc with bytes_ := acc.bytes_ ++ l } := by
  induction l generalizing acc with
  | nil => simp
  | cons v l ih => simp [ih]

theorem foldl_ints (l : List Int32) (acc : TypedAcc) :
    l.foldl (fun acc v => { acc with ints := acc.ints ++ [v] }) acc = { acc with ints := acc.ints ++ l } := by
  induction l generalizing acc with
  | nil => simp
  | cons v l ih => simp [ih]

theorem foldl_longs (l : List Int64) (acc : TypedAcc) :
    l.foldl (fun acc v => { acc with longs := acc.longs ++ [v] }) acc =
      { acc with longs := acc.longs ++ l } := by
  induction l generalizing acc with
  | nil => simp
  | cons v l ih => simp [ih]

theorem length_le_writeSep_of_mem {α : Type} (f : α → List Char) {a : α} {l : List α} (ha : a ∈ l)
    (first : Bool) : (encode (f a)).length ≤ (encode (writeSep f first l)).length := by
  induction l generalizing first with
  | nil => exact absurd ha (by simp)
  | cons b l ih =>
    simp only [writeSep, encode_append, List.length_append]
    rcases List.mem_cons.mp ha with rfl | ha
    · omega
    · have := ih ha false
      omega

theorem length_write_item {u : NbtValue} {items : List NbtValue} (hu : u ∈ items) :
    (encode (u.write F)).length + 2 ≤ (encode ((NbtValue.list items).write F)).length := by
  have := length_le_writeSep_of_mem (NbtValue.write F) hu true
  have htext := list_text (F := F) (r := []) items
  rw [List.append_nil] at htext
  rw [htext, encode_cons_ascii (c := '[') rfl, encode_append, encode_cons_ascii (c := ']') rfl]
  simp only [List.length_cons, List.length_append]
  omega

theorem compound_text (map : List (String × NbtValue)) :
    (NbtValue.compound map).write F ++ r = '{' :: (writeSep (writeEntry F) true map ++ '}' :: r) := by
  have heq : writeSep (fun e => writeKey e.1 ++ ':' :: e.2.write F) true map =
      writeSep (writeEntry F) true map := rfl
  rw [NbtValue.write, writeEntries_eq, heq]
  simp

theorem length_write_entry {e : String × NbtValue} {map : List (String × NbtValue)} (he : e ∈ map) :
    (encode (e.2.write F)).length + 2 ≤ (encode ((NbtValue.compound map).write F)).length := by
  have := length_le_writeSep_of_mem (writeEntry F) he true
  have htext := compound_text (F := F) (r := []) map
  rw [List.append_nil] at htext
  rw [htext, encode_cons_ascii (c := '{') rfl, encode_append, encode_cons_ascii (c := '}') rfl]
  rw [writeEntry, encode_append, encode_cons_ascii (c := ':') rfl] at this
  simp only [List.length_cons, List.length_append] at this ⊢
  omega

theorem value_string (s : String) (n : Nat) (h : p.rest = encode (write_quoted s ++ r)) :
    value F (n + 1) p = .ok (.string s, p.adv (encode (write_quoted s)).length) := by
  have hhead : p.rest = encode ('"' :: (s.toList.flatMap escapeChar ++ ['"'] ++ r)) := by
    rw [h, write_quoted]
    rfl
  rw [value_of_head n (by decide) (by decide) hhead, if_neg (by decide), if_neg (by decide), if_pos (.inl rfl),
    quoted_string_literal s h]
  rfl

theorem reads_list {items : List NbtValue} {n : Nat} (hl : ∀ u ∈ items, Reads F (value F n) u)
    (hf : ∀ u ∈ items, u.NoFloats) (hs : noSemicolonNode (.list items) = true) :
    Reads F (value F (n + 1)) (.list items) := by
  intro p r h hd
  have hhead : p.rest = encode ('[' :: (writeItems F true items ++ [']'] ++ r)) := by
    rw [h, NbtValue.write]
    rfl
  rw [value_of_head n (by decide) (by decide) hhead, if_neg (by decide), if_pos rfl]
  exact list_or_array_write hl hf hs hd h

theorem reads_compound {map : List (String × NbtValue)} {n : Nat} (hl : ∀ e ∈ map, Reads F (value F n) e.2)
    (hs : (map.map Prod.fst).Pairwise (· < ·)) : Reads F (value F (n + 1)) (.compound map) := by
  intro p r h hd
  have hhead : p.rest = encode ('{' :: (writeSep (writeEntry F) true map ++ '}' :: r)) := by
    rw [h, compound_text]
  have htext := compound_text (F := F) (r := []) map
  rw [List.append_nil] at htext
  rw [value_of_head n (by decide) (by decide) hhead, if_pos rfl, compound_write map hl hs hhead, htext]

theorem reads_byteArray (items : List Int8) (n : Nat) : Reads F (value F (n + 1)) (.byteArray items) := by
  intro p r h hd
  rw [NbtValue.write] at h ⊢
  rw [value_typed (F := F) (k := 'B') Int8.toInt64 (fun acc v => { acc with bytes_ := acc.bytes_ ++ [v] })
    rfl (by simp) ?_ ?_ ?_ items n h, foldl_bytes]
  · rfl
  · intro a
    rw [List.all_append, print_bare]
    rfl
  · intro a
    rw [tokenValue_byte]
    rfl
  · intro acc a
    simp [TypedAcc.push]

theorem reads_intArray (items : List Int32) (n : Nat) : Reads F (value F (n + 1)) (.intArray items) := by
  intro p r h hd
  rw [NbtValue.write] at h ⊢
  rw [value_typed (F := F) (k := 'I') Int32.toInt64 (fun acc v => { acc with ints := acc.ints ++ [v] })
    rfl (fun a => Decimal.print_ne_nil _) (fun a => print_bare _) ?_ ?_ items n h, foldl_ints]
  · rfl
  · intro a
    rw [tokenValue_int]
    rfl
  · intro acc a
    simp [TypedAcc.push, byteOf_inj (c := 'I') (d := 'B') rfl rfl]

theorem reads_longArray (items : List Int64) (n : Nat) : Reads F (value F (n + 1)) (.longArray items) := by
  intro p r h hd
  rw [NbtValue.write] at h ⊢
  rw [value_typed (F := F) (k := 'L') id (fun acc v => { acc with longs := acc.longs ++ [v] })
    rfl (by simp) ?_ ?_ ?_ items n h, foldl_longs]
  · rfl
  · intro a
    rw [List.all_append, print_bare]
    rfl
  · intro a
    rw [tokenValue_long rfl]
    rfl
  · intro acc a
    simp [TypedAcc.push, byteOf_inj (c := 'L') (d := 'B') rfl rfl, byteOf_inj (c := 'L') (d := 'I') rfl rfl]

/-- Every value without floats and without semicolon lists is read back by
`value`, given more fuel than the text has bytes. -/
theorem value_write (v : NbtValue) (hw : v.WF) (hf : v.NoFloats) (hs : v.NoSemicolonLists) (n : Nat)
    (hn : (encode (v.write F)).length < n) : Reads F (value F n) v := by
  obtain ⟨n, rfl⟩ : ∃ m, n = m + 1 := ⟨n - 1, by omega⟩
  induction v using NbtValue.induct generalizing n with
  | byte v =>
    intro p r h hd
    rw [value_numeral v.toInt ['b'] (by decide) n h hd, tokenValue_byte, NbtValue.write]
  | short v =>
    intro p r h hd
    rw [value_numeral v.toInt ['s'] (by decide) n h hd, tokenValue_short, NbtValue.write]
  | int v =>
    intro p r h hd
    have := value_numeral (F := F) v.toInt [] rfl n (by simpa [NbtValue.write] using h) hd
    rw [List.append_nil, tokenValue_int] at this
    rw [this, NbtValue.write]
  | long v =>
    intro p r h hd
    rw [value_numeral v.toInt ['L'] (by decide) n h hd, tokenValue_long rfl, NbtValue.write]
  | float v => simp [NbtValue.NoFloats, NbtValue.all, noFloatNode] at hf
  | double v => simp [NbtValue.NoFloats, NbtValue.all, noFloatNode] at hf
  | string s =>
    intro p r h hd
    rw [NbtValue.write] at h ⊢
    exact value_string s n h
  | list items ih =>
    rw [NbtValue.WF, NbtValue.all, Bool.and_eq_true, allItems_iff] at hw
    rw [NbtValue.NoFloats, NbtValue.all, Bool.and_eq_true, allItems_iff] at hf
    rw [NbtValue.NoSemicolonLists, NbtValue.all, Bool.and_eq_true, allItems_iff] at hs
    refine reads_list (fun u hu => ?_) hf.2 hs.1
    have hlen := length_write_item (F := F) hu
    obtain ⟨m, rfl⟩ : ∃ m, n = m + 1 := ⟨n - 1, by omega⟩
    exact ih u hu (hw.2 u hu) (hf.2 u hu) (hs.2 u hu) m (by omega)
  | compound map ih =>
    rw [NbtValue.WF, NbtValue.all, Bool.and_eq_true, allEntries_iff] at hw
    rw [NbtValue.NoFloats, NbtValue.all, Bool.and_eq_true, allEntries_iff] at hf
    rw [NbtValue.NoSemicolonLists, NbtValue.all, Bool.and_eq_true, allEntries_iff] at hs
    refine reads_compound (fun e he => ?_) (by simpa [sortedNode] using hw.1)
    have hlen := length_write_entry (F := F) he
    obtain ⟨m, rfl⟩ : ∃ m, n = m + 1 := ⟨n - 1, by omega⟩
    exact ih e he (hw.2 e he) (hf.2 e he) (hs.2 e he) m (by omega)
  | byteArray items => exact reads_byteArray items n
  | intArray items => exact reads_intArray items n
  | longArray items => exact reads_longArray items n

/-- No white space stands before a written value. -/
theorem start_skip_ws {v : NbtValue} (hf : v.NoFloats) :
    (Parser.mk (encode (v.write F)) 0).skip_ws = Parser.mk (encode (v.write F)) 0 := by
  obtain ⟨c, t, hc, hcb⟩ := write_head (F := F) (noFloatNode_of_noFloats hf)
  apply skip_ws_text (t := v.write F) (by simp [rest])
  rw [hc]
  simp only [List.head?_cons, Option.mem_def, Option.some.injEq, forall_eq']
  exact isWsChar_of_head hcb

/-- Parsing what was written gives the value back. -/
theorem parse_to_snbt {v : NbtValue} (hw : v.WF) (hf : v.NoFloats) (hs : v.NoSemicolonLists) :
    NbtValue.parse F (v.to_snbt F) = .ok v := by
  have hbytes : encode (v.to_snbt F).toList = encode (v.write F) := by rw [NbtValue.to_snbt, String.toList_ofList]
  have hrest : (Parser.mk (encode (v.write F)) 0).rest = encode (v.write F ++ []) := by simp [rest]
  have hws := start_skip_ws (F := F) hf
  have hval := value_write v hw hf hs (n := (encode (v.write F)).length + 1) (F := F) (by omega) _ _ hrest
    (by simp [Delim])
  have hend : ((Parser.mk (encode (v.write F)) 0).adv (encode (v.write F)).length).skip_ws =
      (Parser.mk (encode (v.write F)) 0).adv (encode (v.write F)).length := by
    apply skip_ws_of_head
    simp [rest, adv]
  rw [NbtValue.parse, parse_all]
  simp only [hbytes, hws, hval, ok_bind, hend, adv_pos, adv_bytes, Nat.zero_add, if_true]

end Nbt
