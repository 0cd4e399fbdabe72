import LeviRsLoader.Nbt.RoundTrip

/-!
# Reading from inside a literal

When the bracket lookahead takes a list for a typed array, the parser goes on
inside a string literal. From there every quote it meets is met from the wrong
side, so it can only fail or stop inside a literal again, and never at the end
of the text. With the lemmas of the round trip this makes the condition on
lists exact.
-/
namespace Nbt

open Utf8 Nbt.Parser

/-- The texts that can remain at a point inside (`true`) or outside a literal
of what the writer put down. -/
inductive Tail : Bool → List Char → Prop where
  | nil : Tail false []
  | plain {c : Char} {t : List Char} (hq : c ≠ '"') (ha : c ≠ '\'') (hb : c ≠ '\\') (h : Tail false t) :
      Tail false (c :: t)
  | opening {t : List Char} (h : Tail true t) : Tail false ('"' :: t)
  | closing {t : List Char} (hs : t.head? ≠ some ';') (h : Tail false t) : Tail true ('"' :: t)
  | copied {c : Char} {t : List Char} (hq : c ≠ '"') (hb : c ≠ '\\') (h : Tail true t) : Tail true (c :: t)
  | escaped {c : Char} {t : List Char} (he : c ∈ ['n', 'r', 't', '"', '\\']) (h : Tail true t) :
      Tail true ('\\' :: c :: t)

/-- The parser stands inside a literal. -/
def Inside (p : Parser) : Prop := ∃ t, p.rest = encode t ∧ Tail true t

/-- A call that fails, or stops inside a literal. -/
def Lost {α : Type} (x : Except Fail (α × Parser)) : Prop := ∀ a p, x = .ok (a, p) → Inside p

theorem lost_error {α : Type} (e : Fail) : Lost (.error e : Except Fail (α × Parser)) := by
  intro a p h
  exact absurd h (by simp)

theorem lost_ok {α : Type} {a : α} {p : Parser} (h : Inside p) : Lost (.ok (a, p)) := by
  intro b q hq
  obtain ⟨rfl, rfl⟩ := Prod.mk.inj (Except.ok.inj hq)
  exact h

/-- A lost call followed by anything that is lost from inside is lost. -/
theorem Lost.bind {α β : Type} {x : Except Fail (α × Parser)} {f : α × Parser → Except Fail (β × Parser)}
    (hx : Lost x) (hf : ∀ a p, Inside p → Lost (f (a, p))) : Lost (x >>= f) := by
  cases x with
  | error e => exact lost_error e
  | ok y =>
    obtain ⟨a, p⟩ := y
    exact hf a p (hx a p rfl)

variable {F : Floats} {p q : Parser} {r t : List Char}

/-! ## Primitives from inside -/

theorem Tail.of_copied {c : Char} (hq : c ≠ '"') (hb : c ≠ '\\') (h : Tail true (c :: t)) : Tail true t := by
  cases h with
  | closing _ _ => exact absurd rfl hq
  | copied _ _ h => exact h
  | escaped _ _ => exact absurd rfl hb

theorem Tail.dropWhile {f : Char → Bool} (hq : f '"' = false) (hb : f '\\' = false) (h : Tail true t) :
    Tail true (t.dropWhile f) := by
  induction t with
  | nil => exact h
  | cons c t ih =>
    cases hc : f c with
    | false => rwa [List.dropWhile_cons_of_neg (by simp [hc])]
    | true =>
      rw [List.dropWhile_cons_of_pos hc]
      apply ih
      apply h.of_copied
      · rintro rfl
        rw [hq] at hc
        exact absurd hc (by simp)
      · rintro rfl
        rw [hb] at hc
        exact absurd hc (by simp)

theorem Inside.skip_ws (h : Inside p) : Inside p.skip_ws := by
  obtain ⟨t, ht, htail⟩ := h
  obtain ⟨w, -, hr⟩ := skip_ws_drop ht
  exact ⟨_, hr, htail.dropWhile (by decide) (by decide)⟩

/-- A text that shows an ASCII byte first starts with its character. -/
theorem exists_of_peek {c : Char} (hc : isAscii c = true) (h : p.rest = encode t)
    (hp : p.peek = some (byteOf c)) : ∃ s, t = c :: s := by
  have := (peek_eq_char hc h).mp hp
  cases t with
  | nil => simp at this
  | cons d s =>
    obtain rfl : d = c := by simpa using this
    exact ⟨s, rfl⟩

/-- Stepping over a character that is neither quote nor backslash stays inside. -/
theorem Inside.adv_one {c : Char} (hc : isAscii c = true) (hq : c ≠ '"') (hb : c ≠ '\\') (h : Inside p)
    (hp : p.peek = some (byteOf c)) : Inside (p.adv 1) := by
  obtain ⟨t, ht, htail⟩ := h
  obtain ⟨s, rfl⟩ := exists_of_peek hc ht hp
  exact ⟨s, rest_adv_char hc ht, htail.of_copied hq hb⟩

theorem bump_eq_some {b : UInt8} (h : p.bump = (some b, q)) : p.peek = some b ∧ q = p.adv 1 := by
  rw [bump] at h
  cases hp : p.peek with
  | none => rw [hp] at h; simp at h
  | some b' =>
    rw [hp] at h
    obtain ⟨h₁, h₂⟩ := Prod.mk.inj h
    exact ⟨h₁, h₂.symm⟩

theorem Inside.bump {c : Char} {b : UInt8} (hc : isAscii c = true) (hq : c ≠ '"') (hb : c ≠ '\\')
    (h : Inside p) (hp : p.bump = (some b, q)) (hbc : b = byteOf c) : Inside q := by
  obtain ⟨h₁, rfl⟩ := bump_eq_some hp
  exact h.adv_one hc hq hb (by rw [h₁, hbc])

theorem Inside.expect {c : Char} (hc : isAscii c = true) (hq : c ≠ '"') (hb : c ≠ '\\') (h : Inside p)
    (hp : p.expect c = .ok q) : Inside q := by
  rw [Parser.expect] at hp
  split at hp
  · rename_i hpeek
    obtain rfl := Except.ok.inj hp
    exact h.adv_one hc hq hb hpeek
  · exact absurd hp (by simp)

theorem lost_bare_token (h : Inside p) : Lost (bare_token p) := by
  obtain ⟨t, ht, htail⟩ := h
  rw [bare_token_text ht]
  split
  · exact lost_error _
  · apply lost_ok
    refine ⟨t.dropWhile isBareChar, ?_, htail.dropWhile (by decide) (by decide)⟩
    apply rest_adv_text
    rw [List.takeWhile_append_dropWhile, ht]

theorem lost_scalar (h : Inside p) : Lost (scalar F p) :=
  (lost_bare_token h).bind fun _ _ hp => lost_ok hp

/-! ## Quotes met from the wrong side -/

/-- From outside, a double-quoted string runs up to the opening quote of a literal. -/
theorem lost_quotedLoop_double (n : Nat) (out : List Char) (ht : p.rest = encode t) (h : Tail false t) :
    Lost (quotedLoop (byteOf '"') n out p) := by
  induction n generalizing out p t with
  | zero => exact lost_error _
  | succ n ih =>
    cases h with
    | nil =>
      rw [quotedLoop, bump_nil (by simpa using ht)]
      exact lost_error _
    | plain hq _ hb h =>
      rw [quotedLoop_raw rfl hq hb n out ht]
      exact ih _ (rest_adv_text (s := [_]) ht) h
    | opening h =>
      rw [quotedLoop_close rfl n out ht]
      exact lost_ok ⟨_, rest_adv_char rfl ht, h⟩

/-- A single quote stands inside literals only, so a single-quoted string ends inside one. -/
theorem lost_quotedLoop_single (b : Bool) (n : Nat) (out : List Char) (ht : p.rest = encode t) (h : Tail b t) :
    Lost (quotedLoop (byteOf '\'') n out p) := by
  induction n generalizing b out p t with
  | zero => exact lost_error _
  | succ n ih =>
    cases h with
    | nil =>
      rw [quotedLoop, bump_nil (by simpa using ht)]
      exact lost_error _
    | plain _ ha hb h =>
      rw [quotedLoop_raw rfl ha hb n out ht]
      exact ih _ _ (rest_adv_text (s := [_]) ht) h
    | opening h =>
      rw [quotedLoop_raw rfl (by decide) (by decide) n out ht]
      exact ih _ _ (rest_adv_text (s := ['"']) ht) h
    | closing _ h =>
      rw [quotedLoop_raw rfl (by decide) (by decide) n out ht]
      exact ih _ _ (rest_adv_text (s := ['"']) ht) h
    | @copied c t hq hb h =>
      by_cases hc : c = '\''
      · subst hc
        rw [quotedLoop_close rfl n out ht]
        exact lost_ok ⟨_, rest_adv_char rfl ht, h⟩
      · rw [quotedLoop_raw rfl hc hb n out ht]
        exact ih _ _ (rest_adv_text (s := [_]) ht) h
    | @escaped c t he h =>
      obtain ⟨he', hc⟩ := escaped_letter he
      rw [quotedLoop_escape rfl (by decide) n out he' ht]
      refine ih _ _ ?_ h
      have := rest_adv_char hc (rest_adv_char rfl ht)
      rwa [adv_adv] at this

theorem lost_quoted_string (h : Inside p) (hp : p.peek = some (byteOf '"') ∨ p.peek = some (byteOf '\'')) :
    Lost (quoted_string p) := by
  obtain ⟨t, ht, htail⟩ := h
  rcases hp with hp | hp
  · obtain ⟨s, rfl⟩ := exists_of_peek rfl ht hp
    have hs : Tail false s := by
      cases htail with
      | closing _ h => exact h
      | copied hq _ _ => exact absurd rfl hq
    rw [quoted_string, bump_char rfl ht]
    exact lost_quotedLoop_double _ _ (rest_adv_char rfl ht) hs
  · obtain ⟨s, rfl⟩ := exists_of_peek rfl ht hp
    rw [quoted_string, bump_char rfl ht]
    exact lost_quotedLoop_single true _ _ (rest_adv_char rfl ht) (htail.of_copied (by decide) (by decide))

theorem lost_readKey (h : Inside p) : Lost (readKey p) := by
  rw [readKey]
  split
  · rename_i hp
    exact lost_quoted_string h hp
  · exact (lost_bare_token h).bind fun _ _ hp => lost_ok hp

/-! ## Containers from inside -/

theorem lost_typedLoop (kind : UInt8) (n : Nat) (acc : TypedAcc) (h : Inside p) :
    Lost (typedLoop F kind n acc p) := by
  induction n generalizing acc p with
  | zero => exact lost_error _
  | succ n ih =>
    rw [typedLoop]
    refine (lost_scalar h).bind fun v p hp => ?_
    dsimp only
    split
    · exact lost_error _
    · split
      · exact lost_error _
      · split
        · rename_i b q hb
          split
          · rename_i hc
            exact ih _ (hp.skip_ws.bump (c := ',') rfl (by decide) (by decide) hb hc).skip_ws
          · split
            · rename_i hc
              exact lost_ok (hp.skip_ws.bump (c := ']') rfl (by decide) (by decide) hb hc)
            · exact lost_error _
        · exact lost_error _

theorem lost_typed_array (kind : UInt8) (h : Inside p) : Lost (typed_array F kind p) := by
  rw [typed_array]
  dsimp only
  split
  · rename_i hp
    exact lost_ok (h.skip_ws.adv_one (c := ']') rfl (by decide) (by decide) hp)
  · exact (lost_typedLoop kind _ _ h.skip_ws).bind fun _ _ hp => lost_ok hp

variable {val : Parser → Except Fail (NbtValue × Parser)} {items : List NbtValue}

/-- One round of the list loop is lost once its element is and the rounds after it are. -/
theorem lost_listLoop_round {n : Nat} (hnext : ∀ items p, Inside p → Lost (listLoop val n items p))
    (items : List NbtValue) (h : Lost (val p)) : Lost (listLoop val (n + 1) items p) := by
  rw [listLoop]
  refine h.bind fun v p hp => ?_
  dsimp only
  split
  · rename_i b q hb
    split
    · rename_i hc
      exact hnext _ _ (hp.skip_ws.bump (c := ',') rfl (by decide) (by decide) hb hc)
    · split
      · rename_i hc
        exact lost_ok (hp.skip_ws.bump (c := ']') rfl (by decide) (by decide) hb hc)
      · exact lost_error _
  · exact lost_error _

theorem lost_listLoop (hval : ∀ p, Inside p → Lost (val p)) (n : Nat) (items : List NbtValue) (h : Inside p) :
    Lost (listLoop val n items p) := by
  induction n generalizing items p with
  | zero => exact lost_error _
  | succ n ih => exact lost_listLoop_round (fun _ _ hp => ih _ hp) items (hval p h)

theorem lost_list (hval : ∀ p, Inside p → Lost (val p)) (h : Inside p) : Lost (list val p) := by
  rw [list]
  dsimp only
  split
  · rename_i hp
    exact lost_ok (h.skip_ws.adv_one (c := ']') rfl (by decide) (by decide) hp)
  · exact (lost_listLoop hval _ _ h.skip_ws).bind fun _ _ hp => lost_ok hp

/-- The lookahead skips two characters of the literal, or none. -/
theorem lost_list_or_array (hval : ∀ p, Inside p → Lost (val p)) (h : Inside p)
    (hp : p.peek = some (byteOf '[')) : Lost (list_or_array F val p) := by
  obtain ⟨t, ht, htail⟩ := h
  obtain ⟨s, rfl⟩ := exists_of_peek rfl ht hp
  have hs : Tail true s := htail.of_copied (by decide) (by decide)
  by_cases hsemi : ∃ c u, s = c :: ';' :: u ∧ isAscii c = true
  · obtain ⟨c, u, rfl, hc⟩ := hsemi
    rw [list_or_array_typed F val hc ht]
    apply lost_typed_array
    refine ⟨u, ?_, ?_⟩
    · have := rest_adv_char rfl (rest_adv_char hc (rest_adv_char rfl ht))
      rwa [adv_adv, adv_adv] at this
    · have hu : Tail true (';' :: u) := by
        cases hs with
        | closing hs _ => exact absurd rfl hs
        | copied _ _ h => exact h
        | escaped he _ => exact absurd he (by decide)
      exact hu.of_copied (by decide) (by decide)
  · rw [list_or_array_list F val ht]
    · exact lost_list hval ⟨s, rest_adv_char rfl ht, hs⟩
    · rintro c u rfl hc hu
      cases u with
      | nil => simp at hu
      | cons d u =>
        obtain rfl : d = ';' := by simpa using hu
        exact hsemi ⟨c, u, rfl, hc⟩

/-- One round of the compound loop is lost once the value after its key is
and the rounds after it are. -/
theorem lost_compoundLoop_round {n : Nat} (hnext : ∀ map p, Inside p → Lost (compoundLoop val n map p))
    (map : List (String × NbtValue))
    (h : ∀ k q, readKey p.skip_ws = .ok (k, q) → ∀ q', q.skip_ws.expect ':' = .ok q' → Lost (val q')) :
    Lost (compoundLoop val (n + 1) map p) := by
  rw [compoundLoop]
  cases hk : readKey p.skip_ws with
  | error e => exact lost_error e
  | ok y =>
    obtain ⟨k, q⟩ := y
    simp only [ok_bind]
    cases he : q.skip_ws.expect ':' with
    | error e => exact lost_error e
    | ok q' =>
      rw [ok_bind]
      refine (h k q hk q' he).bind fun v p hp => ?_
      dsimp only
      split
      · rename_i b q hb
        split
        · rename_i hc
          exact hnext _ _ (hp.skip_ws.bump (c := ',') rfl (by decide) (by decide) hb hc)
        · split
          · rename_i hc
            exact lost_ok (hp.skip_ws.bump (c := '}') rfl (by decide) (by decide) hb hc)
          · exact lost_error _
      · exact lost_error _

theorem lost_compoundLoop (hval : ∀ p, Inside p → Lost (val p)) (n : Nat) (map : List (String × NbtValue))
    (h : Inside p) : Lost (compoundLoop val n map p) := by
  induction n generalizing map p with
  | zero => exact lost_error _
  | succ n ih =>
    refine lost_compoundLoop_round (fun _ _ hp => ih _ hp) map fun k q hk q' he => hval q' ?_
    have hq : Inside q := lost_readKey h.skip_ws k q hk
    exact hq.skip_ws.expect rfl (by decide) (by decide) he

theorem lost_compound (hval : ∀ p, Inside p → Lost (val p)) (h : Inside p) : Lost (compound val p) := by
  rw [compound]
  cases he : p.expect '{' with
  | error e => exact lost_error e
  | ok q =>
    have hq := h.expect rfl (by decide) (by decide) he
    rw [ok_bind]
    dsimp only
    split
    · rename_i hp
      exact lost_ok (hq.skip_ws.adv_one (c := '}') rfl (by decide) (by decide) hp)
    · exact (lost_compoundLoop hval _ _ hq.skip_ws).bind fun _ _ hp => lost_ok hp

/-- A value read from inside a literal fails or ends inside a literal. -/
theorem lost_value (n : Nat) (h : Inside p) : Lost (value F n p) := by
  induction n generalizing p with
  | zero => exact lost_error _
  | succ n ih =>
    rw [value]
    dsimp only
    split
    · exact lost_error _
    · rename_i b hb
      split
      · exact lost_compound (fun p hp => ih hp) h.skip_ws
      · split
        · rename_i hc
          exact lost_list_or_array (fun p hp => ih hp) h.skip_ws (by rw [hb, hc])
        · split
          · rename_i hc
            refine (lost_quoted_string h.skip_ws ?_).bind fun _ _ hp => lost_ok hp
            rw [hb]
            simpa using hc
          · exact lost_scalar h.skip_ws

/-! ## What the writer puts down -/

theorem Tail.plain_append {s : List Char} (hs : ∀ c ∈ s, c ≠ '"' ∧ c ≠ '\'' ∧ c ≠ '\\') (h : Tail false t) :
    Tail false (s ++ t) := by
  induction s with
  | nil => exact h
  | cons c s ih =>
    obtain ⟨h₁, h₂, h₃⟩ := hs c List.mem_cons_self
    exact .plain h₁ h₂ h₃ (ih fun d hd => hs d (List.mem_cons_of_mem _ hd))

theorem plain_of_isBareChar {c : Char} (h : isBareChar c = true) : c ≠ '"' ∧ c ≠ '\'' ∧ c ≠ '\\' := by
  refine ⟨?_, ?_, ?_⟩ <;> rintro rfl <;> exact absurd h (by decide)

theorem Tail.bare_append {s : List Char} (hs : s.all isBareChar = true) (h : Tail false t) :
    Tail false (s ++ t) :=
  .plain_append (fun c hc => plain_of_isBareChar (List.all_eq_true.mp hs c hc)) h

/-- From inside the body of a literal to what follows it. -/
theorem tail_escaped (s : List Char) (hr : r.head? ≠ some ';') (h : Tail false r) :
    Tail true (s.flatMap escapeChar ++ '"' :: r) := by
  induction s with
  | nil => exact .closing hr h
  | cons c s ih =>
    rw [List.flatMap_cons, List.append_assoc]
    rcases escapeChar_cases c with ⟨e, he, hmem, -⟩ | ⟨he, hq, hb⟩
    · rw [he]
      exact .escaped hmem ih
    · rw [he]
      exact .copied hq hb ih

theorem tail_write_quoted (s : String) (hr : r.head? ≠ some ';') (h : Tail false r) :
    Tail false (write_quoted s ++ r) := by
  rw [write_quoted, List.cons_append, List.append_assoc]
  exact .opening (tail_escaped s.toList hr h)

theorem tail_writeKey (k : String) (hr : r.head? ≠ some ';') (h : Tail false r) :
    Tail false (writeKey k ++ r) := by
  rw [writeKey]
  split
  · rename_i hk
    exact .bare_append ((is_bare_key_iff k).mp hk).2 h
  · exact tail_write_quoted k hr h

/-- A separated sequence whose elements are fine one by one is fine. -/
theorem tail_writeSep {α : Type} {f : α → List Char} {k : Char} (hc : k ∈ [']', '}']) (l : List α)
    (hf : ∀ a ∈ l, ∀ r, Delim r → Tail false r → Tail false (f a ++ r)) (first : Bool) (h : Tail false r) :
    Tail false (writeSep f first l ++ k :: r) := by
  induction l generalizing first with
  | nil =>
    simp only [List.mem_cons, List.not_mem_nil, or_false] at hc
    rcases hc with rfl | rfl
    · exact .plain (by decide) (by decide) (by decide) h
    · exact .plain (by decide) (by decide) (by decide) h
  | cons a l ih =>
    have htail := ih (fun b hb => hf b (List.mem_cons_of_mem _ hb)) false
    have ha := hf a List.mem_cons_self _ (delim_tail f l hc r) htail
    rw [writeSep, List.append_assoc, List.append_assoc]
    cases first with
    | true => exact ha
    | false => exact .plain (by decide) (by decide) (by decide) ha

theorem tail_elems {α : Type} {f : α → List Char} (hf : ∀ a, (f a).all isBareChar = true) {k : Char}
    (hk : isBareChar k = true) (l : List α) (h : Tail false r) :
    Tail false (['[', k, ';'] ++ writeSep f true l ++ [']'] ++ r) := by
  have hk' := plain_of_isBareChar hk
  have hbody : Tail false (writeSep f true l ++ ']' :: r) :=
    tail_writeSep (by decide) l (fun a _ _ _ hr => .bare_append (hf a) hr) true h
  have : ['[', k, ';'] ++ writeSep f true l ++ [']'] ++ r =
      '[' :: k :: ';' :: (writeSep f true l ++ ']' :: r) := by simp
  rw [this]
  exact .plain (by decide) (by decide) (by decide)
    (.plain hk'.1 hk'.2.1 hk'.2.2 (.plain (by decide) (by decide) (by decide) hbody))

/-- A written value, and what may follow it, is a text as seen from outside. -/
theorem tail_write (v : NbtValue) (hf : v.NoFloats) (hd : Delim r) (h : Tail false r) :
    Tail false (v.write F ++ r) := by
  have hsuf (i : Int) (x : List Char) (hx : x.all isBareChar = true) :
      (Decimal.print i ++ x).all isBareChar = true := by
    rw [List.all_append, print_bare, hx]
    rfl
  induction v using NbtValue.induct generalizing r with
  | byte v => exact .bare_append (hsuf _ ['b'] (by decide)) h
  | short v => exact .bare_append (hsuf _ ['s'] (by decide)) h
  | int v => exact .bare_append (print_bare _) h
  | long v => exact .bare_append (hsuf _ ['L'] (by decide)) h
  | float v => simp [NbtValue.NoFloats, NbtValue.all, noFloatNode] at hf
  | double v => simp [NbtValue.NoFloats, NbtValue.all, noFloatNode] at hf
  | string s => exact tail_write_quoted s hd.not_semi h
  | list items ih =>
    rw [NbtValue.NoFloats, NbtValue.all, Bool.and_eq_true, allItems_iff] at hf
    rw [NbtValue.write, writeItems_eq, List.cons_append, List.append_assoc]
    exact .plain (by decide) (by decide) (by decide)
      (tail_writeSep (by decide) items (fun u hu _ hd hr => ih u hu (hf.2 u hu) hd hr) true h)
  | compound map ih =>
    rw [NbtValue.NoFloats, NbtValue.all, Bool.and_eq_true, allEntries_iff] at hf
    rw [NbtValue.write, writeEntries_eq, List.cons_append, List.append_assoc]
    refine .plain (by decide) (by decide) (by decide) (tail_writeSep (by decide) map ?_ true h)
    intro e he r hd hr
    rw [List.append_assoc, List.cons_append]
    exact tail_writeKey e.1 (by simp)
      (.plain (by decide) (by decide) (by decide) (ih e he (hf.2 e he) hd hr))
  | byteArray items => exact tail_elems (fun a => hsuf _ ['b'] (by decide)) (by decide) items h
  | intArray items => exact tail_elems (fun a => print_bare _) (by decide) items h
  | longArray items => exact tail_elems (fun a => hsuf _ ['L'] (by decide)) (by decide) items h

/-! ## Semicolon lists -/

/-- `val` goes astray on the written text of `v`. -/
def Strays (F : Floats) (val : Parser → Except Fail (NbtValue × Parser)) (v : NbtValue) : Prop :=
  ∀ (p : Parser) (r : List Char), p.rest = encode (v.write F ++ r) → Delim r → Tail false r → Lost (val p)

/-- One stray element makes the whole list stray. -/
theorem listLoop_strays (hin : ∀ p, Inside p → Lost (val p)) (v : NbtValue) (l : List NbtValue)
    (hl : ∀ u ∈ v :: l, u.NoFloats ∧ (Reads F val u ∨ Strays F val u)) (hs : ∃ u ∈ v :: l, Strays F val u)
    (n : Nat) (items : List NbtValue) (htail : Tail false r)
    (h : p.rest = encode (writeSep (NbtValue.write F) true (v :: l) ++ ']' :: r)) :
    Lost (listLoop val n items p) := by
  induction l generalizing v n items p with
  | nil =>
    cases n with
    | zero => exact lost_error _
    | succ n =>
      obtain ⟨u, hu, hsu⟩ := hs
      obtain rfl : u = v := by simpa using hu
      rw [writeSep_true_cons, List.append_assoc] at h
      have hd := delim_tail (NbtValue.write F) [] (k := ']') (by decide) r
      have ht := tail_writeSep (f := NbtValue.write F) (k := ']') (by decide) [] (by simp) false htail
      exact lost_listLoop_round (fun _ _ hp => lost_listLoop hin n _ hp) items (hsu p _ h hd ht)
  | cons w l ih =>
    cases n with
    | zero => exact lost_error _
    | succ n =>
      rw [writeSep_true_cons, List.append_assoc] at h
      have hd := delim_tail (NbtValue.write F) (w :: l) (k := ']') (by decide) r
      have ht := tail_writeSep (f := NbtValue.write F) (k := ']') (by decide) (w :: l)
        (fun u hu r hd hr => tail_write u (hl u (List.mem_cons_of_mem _ hu)).1 hd hr) false htail
      by_cases hv : Strays F val v
      · exact lost_listLoop_round (fun _ _ hp => lost_listLoop hin n _ hp) items (hv p _ h hd ht)
      · have hread := (hl v List.mem_cons_self).2.resolve_right hv
        have hrest := rest_adv_text h
        rw [listLoop, hread p _ h hd]
        simp only [ok_bind, hd.skip_ws hrest]
        rw [writeSep_false_cons, List.cons_append] at hrest
        rw [bump_char (by decide) hrest]
        simp only [if_true]
        refine ih w (fun u hu => hl u (List.mem_cons_of_mem _ hu)) ?_ n _ (rest_adv_char (by decide) hrest)
        obtain ⟨u, hu, hsu⟩ := hs
        rcases List.mem_cons.mp hu with rfl | hu
        · exact absurd hsu hv
        · exact ⟨u, hu, hsu⟩

theorem list_strays (hin : ∀ p, Inside p → Lost (val p)) {items : List NbtValue}
    (hl : ∀ u ∈ items, u.NoFloats ∧ (Reads F val u ∨ Strays F val u)) (hs : ∃ u ∈ items, Strays F val u)
    (htail : Tail false r) (h : p.rest = encode (writeSep (NbtValue.write F) true items ++ ']' :: r)) :
    Lost (list val p) := by
  cases items with
  | nil =>
    obtain ⟨u, hu, -⟩ := hs
    exact absurd hu (by simp)
  | cons v l =>
    have hroot : noFloatNode v = true := noFloatNode_of_noFloats (hl v List.mem_cons_self).1
    obtain ⟨hws, hpeek⟩ := sep_head (by decide) (write_head hroot) h
    rw [list]
    simp only [hws, hpeek, if_false]
    exact (listLoop_strays hin v l hl hs _ [] htail h).bind fun _ _ hp => lost_ok hp

/-- The text after one entry of a compound, as seen from outside. -/
theorem tail_entries {l : List (String × NbtValue)} (hl : ∀ e ∈ l, e.2.NoFloats) (h : Tail false r) :
    Tail false (writeSep (writeEntry F) false l ++ '}' :: r) := by
  refine tail_writeSep (by decide) l ?_ false h
  intro e he r hd hr
  rw [writeEntry, List.append_assoc, List.cons_append]
  exact tail_writeKey e.1 (by simp) (.plain (by decide) (by decide) (by decide) (tail_write e.2 (hl e he) hd hr))

/-- A stray value makes its entry, and with it the compound, stray. -/
theorem compoundLoop_stray_entry (hin : ∀ p, Inside p → Lost (val p)) (e : String × NbtValue)
    (hs : Strays F val e.2) (n : Nat) (map : List (String × NbtValue))
    (h : p.rest = encode (writeEntry F e ++ t)) (hd : Delim t) (ht : Tail false t) :
    Lost (compoundLoop val (n + 1) map p) := by
  obtain ⟨hws, hkey, hcolon, hrest⟩ := entry_key e h
  refine lost_compoundLoop_round (fun _ _ hp => lost_compoundLoop hin n _ hp) map fun k q hk q' he => ?_
  rw [hws, hkey] at hk
  obtain ⟨rfl, rfl⟩ := Prod.mk.inj (Except.ok.inj hk)
  rw [hcolon] at he
  obtain rfl := Except.ok.inj he
  exact hs _ t hrest hd ht

theorem compoundLoop_strays (hin : ∀ p, Inside p → Lost (val p)) (e : String × NbtValue)
    (l : List (String × NbtValue)) (hl : ∀ u ∈ e :: l, u.2.NoFloats ∧ (Reads F val u.2 ∨ Strays F val u.2))
    (hs : ∃ u ∈ e :: l, Strays F val u.2) (n : Nat) (map : List (String × NbtValue)) (htail : Tail false r)
    (h : p.rest = encode (writeSep (writeEntry F) true (e :: l) ++ '}' :: r)) :
    Lost (compoundLoop val n map p) := by
  induction l generalizing e n map p with
  | nil =>
    cases n with
    | zero => exact lost_error _
    | succ n =>
      obtain ⟨u, hu, hsu⟩ := hs
      obtain rfl : u = e := by simpa using hu
      rw [writeSep_true_cons, List.append_assoc] at h
      exact compoundLoop_stray_entry hin u hsu n map h (delim_tail _ [] (by decide) r)
        (tail_entries (by simp) htail)
  | cons w l ih =>
    cases n with
    | zero => exact lost_error _
    | succ n =>
      rw [writeSep_true_cons, List.append_assoc] at h
      have hd := delim_tail (writeEntry F) (w :: l) (k := '}') (by decide) r
      by_cases he : Strays F val e.2
      · exact compoundLoop_stray_entry hin e he n map h hd
          (tail_entries (fun u hu => (hl u (List.mem_cons_of_mem _ hu)).1) htail)
      · have hread := (hl e List.mem_cons_self).2.resolve_right he
        have hrest := rest_adv_text h
        rw [readsEntry_write e hread p _ n map h hd]
        rw [writeSep_false_cons, List.cons_append] at hrest
        rw [bump_char (by decide) hrest]
        simp only [if_true]
        refine ih w (fun u hu => hl u (List.mem_cons_of_mem _ hu)) ?_ n _ (rest_adv_char (by decide) hrest)
        obtain ⟨u, hu, hsu⟩ := hs
        rcases List.mem_cons.mp hu with rfl | hu
        · exact absurd hsu he
        · exact ⟨u, hu, hsu⟩

theorem compound_strays (hin : ∀ p, Inside p → Lost (val p)) {map : List (String × NbtValue)}
    (hl : ∀ u ∈ map, u.2.NoFloats ∧ (Reads F val u.2 ∨ Strays F val u.2))
    (hs : ∃ u ∈ map, Strays F val u.2) (htail : Tail false r)
    (h : p.rest = encode ('{' :: (writeSep (writeEntry F) true map ++ '}' :: r))) :
    Lost (compound val p) := by
  have hrest := rest_adv_char (by decide) h
  rw [compound, expect_char (by decide) h, ok_bind]
  cases map with
  | nil =>
    obtain ⟨u, hu, -⟩ := hs
    exact absurd hu (by simp)
  | cons e l =>
    obtain ⟨hws, hpeek⟩ := sep_head (by decide) (writeEntry_head e) hrest
    simp only [hws, hpeek, if_false]
    exact (compoundLoop_strays hin e l hl hs _ [] htail hrest).bind fun _ _ hp => lost_ok hp

/-- The root of the trouble: the list itself starts with a string that starts with a semicolon. -/
theorem semicolon_list_strays (hs : ∃ s l, items = .string s :: l ∧ s.toList.head? = some ';')
    (hf : ∀ u ∈ items, u.NoFloats) (htail : Tail false r)
    (h : p.rest = encode ((NbtValue.list items).write F ++ r)) : Lost (list_or_array F val p) := by
  obtain ⟨s, l, rfl, hsemi⟩ := hs
  obtain ⟨cs, hcs⟩ : ∃ cs, s.toList = ';' :: cs := by
    cases hc : s.toList with
    | nil => rw [hc] at hsemi; simp at hsemi
    | cons c cs =>
      rw [hc] at hsemi
      obtain rfl : c = ';' := by simpa using hsemi
      exact ⟨cs, rfl⟩
  have htext : (NbtValue.list (.string s :: l)).write F ++ r =
      '[' :: '"' :: ';' :: (cs.flatMap escapeChar ++
        '"' :: (writeSep (NbtValue.write F) false l ++ ']' :: r)) := by
    rw [NbtValue.write, writeItems_eq, writeSep_true_cons, NbtValue.write, write_quoted, hcs, List.flatMap_cons,
      show escapeChar ';' = [';'] from rfl]
    simp
  rw [htext] at h
  rw [list_or_array_typed F val (by decide) h]
  apply lost_typed_array
  refine ⟨_, ?_, tail_escaped cs (delim_tail _ l (by decide) r).not_semi
    (tail_writeSep (f := NbtValue.write F) (k := ']') (by decide) l
      (fun u hu _ hd hr => tail_write u (hf u (List.mem_cons_of_mem _ hu)) hd hr) false htail)⟩
  have := rest_adv_char rfl (rest_adv_char (by decide) (rest_adv_char rfl h))
  rwa [adv_adv, adv_adv] at this

/-- A list leads the parser astray, by its first item or by one that does. -/
theorem value_list_strays {items : List NbtValue} (n : Nat)
    (hl : ∀ u ∈ items, u.NoFloats ∧ (Reads F (value F n) u ∨ Strays F (value F n) u))
    (hs : noSemicolonNode (.list items) = true → ∃ u ∈ items, Strays F (value F n) u) :
    Strays F (value F (n + 1)) (.list items) := by
  intro p r h hd htail
  have hf : ∀ u ∈ items, u.NoFloats := fun u hu => (hl u hu).1
  have htext := h
  rw [list_text] at htext
  rw [value_of_head n rfl rfl htext, if_neg (by decide), if_pos rfl]
  cases hroot : noSemicolonNode (.list items) with
  | false =>
    refine semicolon_list_strays ?_ hf htail h
    unfold noSemicolonNode at hroot
    split at hroot
    · rename_i s l heq
      obtain rfl := NbtValue.list.inj heq
      exact ⟨s, l, rfl, by simpa using hroot⟩
    · exact absurd hroot (by simp)
  | true =>
    rw [list_or_array_of_list hf hroot hd h]
    exact list_strays (fun p hp => lost_value n hp) hl (hs hroot) htail (rest_adv_char rfl htext)

/-- A compound leads it astray by an entry that does. -/
theorem value_compound_strays {map : List (String × NbtValue)} (n : Nat)
    (hl : ∀ e ∈ map, e.2.NoFloats ∧ (Reads F (value F n) e.2 ∨ Strays F (value F n) e.2))
    (hs : ∃ e ∈ map, Strays F (value F n) e.2) : Strays F (value F (n + 1)) (.compound map) := by
  intro p r h hd htail
  rw [compound_text] at h
  rw [value_of_head n rfl rfl h, if_pos rfl]
  exact compound_strays (fun p hp => lost_value n hp) hl hs htail h

/-- A value with a semicolon list somewhere leads the parser astray. -/
theorem value_strays (v : NbtValue) (hw : v.WF) (hf : v.NoFloats) (hs : ¬ v.NoSemicolonLists) (n : Nat)
    (hn : (encode (v.write F)).length < n) : Strays F (value F n) v := by
  induction v using NbtValue.induct generalizing n with
  | list items ih =>
    obtain ⟨n, rfl⟩ : ∃ m, n = m + 1 := ⟨n - 1, by omega⟩
    rw [NbtValue.WF, NbtValue.all, Bool.and_eq_true, allItems_iff] at hw
    rw [NbtValue.NoFloats, NbtValue.all, Bool.and_eq_true, allItems_iff] at hf
    have hlen : ∀ u ∈ items, (encode (u.write F)).length < n := fun u hu => by
      have := length_write_item (F := F) hu
      omega
    have hstray : ∀ u ∈ items, ¬ u.NoSemicolonLists → Strays F (value F n) u := fun u hu hsu =>
      ih u hu (hw.2 u hu) (hf.2 u hu) hsu n (hlen u hu)
    refine value_list_strays n (fun u hu => ⟨hf.2 u hu, ?_⟩) fun hroot => ?_
    · by_cases hsu : u.NoSemicolonLists
      · exact .inl (value_write u (hw.2 u hu) (hf.2 u hu) hsu n (hlen u hu))
      · exact .inr (hstray u hu hsu)
    · rw [NbtValue.NoSemicolonLists, NbtValue.all, hroot, Bool.true_and, allItems_iff] at hs
      obtain ⟨u, hu, hsu⟩ := not_forall₂.mp hs
      exact ⟨u, hu, hstray u hu hsu⟩
  | compound map ih =>
    obtain ⟨n, rfl⟩ : ∃ m, n = m + 1 := ⟨n - 1, by omega⟩
    rw [NbtValue.WF, NbtValue.all, Bool.and_eq_true, allEntries_iff] at hw
    rw [NbtValue.NoFloats, NbtValue.all, Bool.and_eq_true, allEntries_iff] at hf
    have hlen : ∀ e ∈ map, (encode (e.2.write F)).length < n := fun e he => by
      have := length_write_entry (F := F) he
      omega
    have hstray : ∀ e ∈ map, ¬ e.2.NoSemicolonLists → Strays F (value F n) e.2 := fun e he hse =>
      ih e he (hw.2 e he) (hf.2 e he) hse n (hlen e he)
    refine value_compound_strays n (fun e he => ⟨hf.2 e he, ?_⟩) ?_
    · by_cases hse : e.2.NoSemicolonLists
      · exact .inl (value_write e.2 (hw.2 e he) (hf.2 e he) hse n (hlen e he))
      · exact .inr (hstray e he hse)
    · rw [NbtValue.NoSemicolonLists, NbtValue.all, show noSemicolonNode (.compound map) = true from rfl,
        Bool.true_and, allEntries_iff] at hs
      obtain ⟨e, he, hse⟩ := not_forall₂.mp hs
      exact ⟨e, he, hstray e he hse⟩
  | _ => exact absurd rfl hs

/-- Nothing with a semicolon list is read back. -/
theorem parse_strays {v : NbtValue} (hw : v.WF) (hf : v.NoFloats) (hs : ¬ v.NoSemicolonLists) :
    ∃ e, NbtValue.parse F (v.to_snbt F) = .error e := by
  have hbytes : encode (v.to_snbt F).toList = encode (v.write F) := by rw [NbtValue.to_snbt, String.toList_ofList]
  have hrest : (Parser.mk (encode (v.write F)) 0).rest = encode (v.write F ++ []) := by simp [rest]
  have hws := start_skip_ws (F := F) hf
  have hlost := value_strays v hw hf hs ((encode (v.write F)).length + 1) (F := F) (by omega) _ _ hrest
    (by simp [Delim]) .nil
  rw [NbtValue.parse, parse_all]
  simp only [hbytes, hws]
  cases hval : value F ((encode (v.write F)).length + 1) (Parser.mk (encode (v.write F)) 0) with
  | error e => exact ⟨e, rfl⟩
  | ok y =>
    obtain ⟨u, p⟩ := y
    obtain ⟨t, ht, htail⟩ := (hlost u p hval).skip_ws
    have hne : p.skip_ws.pos ≠ p.skip_ws.bytes.length := by
      intro heq
      have hnil : p.skip_ws.rest = [] := by rw [rest, heq, List.drop_length]
      rw [ht] at hnil
      cases htail with
      | closing _ _ => simp [encode_cons_ascii (c := '"') rfl] at hnil
      | copied _ _ _ => simp [encode_cons] at hnil
      | escaped _ _ => simp [encode_cons_ascii (c := '\\') rfl] at hnil
    simp [hne]

/-- SNBT text reads back as the value it was written from, exactly when no list
in the value starts with a string whose first character is a semicolon. -/
theorem parse_to_snbt_iff (F : Floats) (v : NbtValue) (hw : v.WF) (hf : v.NoFloats) :
    NbtValue.parse F (v.to_snbt F) = .ok v ↔ v.NoSemicolonLists := by
  constructor
  · intro h
    by_contra hs
    obtain ⟨e, he⟩ := parse_strays (F := F) hw hf hs
    rw [h] at he
    exact absurd he (by simp)
  · exact parse_to_snbt hw hf

/-- A float library for values without floats. -/
def noFloats : Floats where
  f32_as_f64 _ := 0
  f32_as_i64 _ := 0
  f64_as_i64 _ := 0
  write_float _ := []
  parse_f32 _ := none
  parse_f64 _ := none

theorem parse_to_snbt_iff_nested :
    NbtValue.parse noFloats ((NbtValue.compound [("a b", .list [.byte 1])]).to_snbt noFloats) =
        .ok (.compound [("a b", .list [.byte 1])]) ↔
      (NbtValue.compound [("a b", .list [.byte 1])]).NoSemicolonLists :=
  parse_to_snbt_iff noFloats _ (by decide) (by decide)

/-- The list holding the one string ";" does not come back. -/
theorem semicolon_list_not_read : ¬ ∀ (F : Floats) (v : NbtValue), v.WF → v.NoFloats →
    NbtValue.parse F (v.to_snbt F) = .ok v := by
  intro h
  have hv := h noFloats (.list [.string ";"]) (by decide) (by decide)
  obtain ⟨e, he⟩ := parse_strays (F := noFloats) (v := .list [.string ";"]) (by decide) (by decide) (by decide)
  rw [hv] at he
  exact absurd he (by simp)

end Nbt
