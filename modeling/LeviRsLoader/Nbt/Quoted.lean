import LeviRsLoader.Nbt.Reading

/-!
# Quoted strings

What `quoted_string` makes of any text after a quote. A backslash before a character of several
bytes is the one thing it gets wrong: it takes the lead byte for a character of its own.
-/
namespace Nbt

open Utf8 Nbt.Parser

/-! ## The text between the quotes -/

/-- A text in which no quote `q` stands by itself: every character is another one or follows
a backslash. -/
inductive Body (q : Char) : List Char → Prop where
  | nil : Body q []
  | plain {c : Char} {t : List Char} (hq : c ≠ q) (hb : c ≠ '\\') (h : Body q t) : Body q (c :: t)
  | escape {c : Char} {t : List Char} (h : Body q t) : Body q ('\\' :: c :: t)

/-- The letters that mean something after a backslash. -/
def escapeLetters : List Char := ['n', 'r', 't', '"', '\'', '\\']

/-- What the text stands for. -/
def unquote : List Char → List Char
  | [] => []
  | '\\' :: c :: t => (if c ∈ escapeLetters then [unescape c] else ['\\', c]) ++ unquote t
  | c :: t => c :: unquote t

/-- Every character after a backslash takes one byte. -/
def EscapesAscii : List Char → Prop
  | [] => True
  | '\\' :: c :: t => isAscii c = true ∧ EscapesAscii t
  | _ :: t => EscapesAscii t

theorem unquote_escape (c : Char) (t : List Char) :
    unquote ('\\' :: c :: t) = (if c ∈ escapeLetters then [unescape c] else ['\\', c]) ++ unquote t := by
  rw [unquote]

theorem unquote_plain {c : Char} (h : c ≠ '\\') (t : List Char) : unquote (c :: t) = c :: unquote t := by
  rw [unquote]
  exact fun _ _ hc => absurd hc h

theorem escapesAscii_escape (c : Char) (t : List Char) :
    EscapesAscii ('\\' :: c :: t) ↔ isAscii c = true ∧ EscapesAscii t := by
  rw [EscapesAscii]

theorem escapesAscii_plain {c : Char} (h : c ≠ '\\') (t : List Char) : EscapesAscii (c :: t) ↔ EscapesAscii t := by
  rw [EscapesAscii]
  exact fun _ _ hc => absurd hc h

/-! ## One turn of the loop -/

section Turn

variable {p : Parser} {q c : Char} {t : List Char} (n : Nat) (out : List Char)

/-- A backslash and any other ASCII character are both kept. -/
theorem quotedLoop_kept (hq : isAscii q = true) (hqb : q ≠ '\\') (hc : isAscii c = true) (he : c ∉ escapeLetters)
    (h : p.rest = encode ('\\' :: c :: t)) :
    quotedLoop (byteOf q) (n + 1) out p = quotedLoop (byteOf q) n (out ++ ['\\', c]) (p.adv 2) := by
  have hb : isAscii '\\' = true := by decide
  have hrest := rest_adv_char hb h
  have hne (d : Char) (hd : d ∈ escapeLetters) (hda : isAscii d = true) : byteOf c ≠ byteOf d := fun heq =>
    he ((byteOf_inj hc hda).mp heq ▸ hd)
  have hletters : ¬(byteOf c = byteOf '"' ∨ byteOf c = byteOf '\'' ∨ byteOf c = byteOf '\\') := by
    rintro (heq | heq | heq)
    · exact hne '"' (by decide) (by decide) heq
    · exact hne '\'' (by decide) (by decide) heq
    · exact hne '\\' (by decide) (by decide) heq
  rw [quotedLoop, bump_char hb h]
  simp only [(byteOf_inj hb hq).not.mpr (Ne.symm hqb), if_false, if_true, bump_char hc hrest, adv_adv,
    hne 'n' (by decide) (by decide), hne 'r' (by decide) (by decide), hne 't' (by decide) (by decide), hletters,
    asChar_byteOf hc]

/-- The text ends without a closing quote. -/
theorem quotedLoop_end (quote : UInt8) (h : p.rest = []) :
    ∃ msg, quotedLoop quote (n + 1) out p = .error (.error msg) := by
  rw [quotedLoop, bump_nil h]
  exact ⟨_, rfl⟩

/-- The text ends with a backslash. -/
theorem quotedLoop_endEscape (hq : isAscii q = true) (hqb : q ≠ '\\') (h : p.rest = encode ['\\']) :
    ∃ msg, quotedLoop (byteOf q) (n + 1) out p = .error (.error msg) := by
  have hb : isAscii '\\' = true := by decide
  have hrest : (p.adv 1).rest = [] := rest_adv_char hb h
  rw [quotedLoop, bump_char hb h]
  simp only [(byteOf_inj hb hq).not.mpr (Ne.symm hqb), if_false, if_true, bump_nil hrest]
  exact ⟨_, rfl⟩

/-- A byte from the middle of a character is no text. -/
theorem quotedLoop_tail (hq : isAscii q = true) {x : UInt8} {r : List UInt8} (hx : 128 ≤ x.toNat) (hx' : x.toNat < 192)
    (h : p.rest = x :: r) : ∃ msg, quotedLoop (byteOf q) (n + 1) out p = .error (.error msg) := by
  have hlen : utf8_len x = 1 := by
    rw [utf8_len, if_neg (by omega), if_neg (by omega), if_neg (by omega)]
  have hstop : min (p.pos + 1) p.bytes.length = p.pos + 1 := by
    have hsize := congrArg List.length h
    simp only [rest, List.length_drop, List.length_cons] at hsize
    omega
  have hslice : p.slice p.pos (p.pos + 1) = .ok [x] := slice_append (w := [x]) h (by simp)
  rw [quotedLoop, bump_cons h]
  simp only [lead_ne_byteOf hx hq, lead_ne_byteOf hx (c := '\\') (by decide), if_false, Nat.not_lt.mpr hx, adv_pos,
    Nat.add_sub_cancel, adv_bytes, hlen, hstop, slice_adv, hslice, ok_bind, from_utf8, decode_tail hx hx']
  exact ⟨_, rfl⟩

/-- A backslash before a character of several bytes: its lead byte is pushed, and the loop fails
at the byte after it. -/
theorem quotedLoop_wideEscape (hq : isAscii q = true) (hqb : q ≠ '\\') (hc : isAscii c = false)
    (h : p.rest = encode ('\\' :: c :: t)) :
    ∃ msg, quotedLoop (byteOf q) (n + 2) out p = .error (.error msg) := by
  have hb : isAscii '\\' = true := by decide
  have hrest := rest_adv_char hb h
  obtain ⟨b, tail, hbt, htail, hlead⟩ := encodeChar_lead hc
  have hb₀ : 128 ≤ b.toNat := by omega
  have hbytes : (p.adv 1).rest = b :: (tail ++ encode t) := by
    rw [hrest, encode_cons, hbt, List.cons_append]
  have hne (d : Char) (hd : isAscii d = true) : b ≠ byteOf d := lead_ne_byteOf hb₀ hd
  have hletters : ¬(b = byteOf '"' ∨ b = byteOf '\'' ∨ b = byteOf '\\') := by
    rintro (heq | heq | heq)
    · exact hne '"' (by decide) heq
    · exact hne '\'' (by decide) heq
    · exact hne '\\' (by decide) heq
  have hturn : quotedLoop (byteOf q) (n + 2) out p
      = quotedLoop (byteOf q) (n + 1) (out ++ ['\\', asChar b]) (p.adv 2) := by
    rw [quotedLoop, bump_char hb h]
    simp only [(byteOf_inj hb hq).not.mpr (Ne.symm hqb), if_false, if_true, bump_cons hbytes, adv_adv,
      hne 'n' (by decide), hne 'r' (by decide), hne 't' (by decide), hletters]
  obtain ⟨x, tail, rfl⟩ : ∃ x xs, tail = x :: xs := by
    cases tail with
    | nil => simp at hlead
    | cons x xs => exact ⟨x, xs, rfl⟩
  have hx := htail x List.mem_cons_self
  have hx' := encodeChar_tail_lt hbt x List.mem_cons_self
  rw [hturn]
  refine quotedLoop_tail n _ hq hx hx' (r := tail ++ encode t) ?_
  have hdrop := rest_adv (p.adv 1) 1
  rw [adv_adv, hbytes] at hdrop
  exact hdrop

end Turn

/-! ## The whole string -/

section Whole

variable {q : Char} (hq : isAscii q = true) (hqb : q ≠ '\\')

include hq hqb

/-- A backslash and an ASCII character. -/
theorem quotedLoop_asciiEscape {p : Parser} {c : Char} {t : List Char} (n : Nat) (out : List Char)
    (hc : isAscii c = true) (h : p.rest = encode ('\\' :: c :: t)) :
    quotedLoop (byteOf q) (n + 1) out p =
      quotedLoop (byteOf q) n (out ++ if c ∈ escapeLetters then [unescape c] else ['\\', c]) (p.adv 2) := by
  by_cases he : c ∈ escapeLetters
  · rw [if_pos he]
    exact quotedLoop_escape hq hqb n out he h
  · rw [if_neg he]
    exact quotedLoop_kept n out hq hqb hc he h

omit hq hqb in
theorem rest_adv_escape {p : Parser} {c : Char} {t : List Char} (hc : isAscii c = true)
    (h : p.rest = encode ('\\' :: c :: t)) :
    (p.adv 2).rest = encode t ∧ (encode ('\\' :: c :: t)).length = (encode t).length + 2 := by
  have hb : isAscii '\\' = true := by decide
  have hrest := rest_adv_char hc (rest_adv_char hb h)
  rw [adv_adv] at hrest
  exact ⟨hrest, by rw [encode_cons_ascii hb, encode_cons_ascii hc]; rfl⟩

omit hq hqb in
theorem length_encode_cons (c : Char) (t : List Char) :
    (encode (c :: t)).length = (encode [c]).length + (encode t).length ∧ 0 < (encode [c]).length := by
  have hsplit : encode (c :: t) = encode [c] ++ encode t := by rw [← encode_append, List.singleton_append]
  refine ⟨by rw [hsplit, List.length_append], ?_⟩
  have hone : encode [c] = String.utf8EncodeChar c := by rw [encode_cons, encode_nil, List.append_nil]
  rw [hone]
  exact List.length_pos_of_ne_nil String.utf8EncodeChar_ne_nil

/-- Up to the closing quote the loop decodes every body whose escapes are ASCII. -/
theorem quotedLoop_body {body : List Char} (hbody : Body q body) (n : Nat) (out : List Char) (p : Parser)
    (rest : List Char) (hesc : EscapesAscii body) (h : p.rest = encode (body ++ q :: rest))
    (hn : (encode body).length < n) :
    quotedLoop (byteOf q) n out p =
      .ok (String.ofList (out ++ unquote body), p.adv ((encode body).length + 1)) := by
  induction hbody generalizing n out p with
  | nil =>
    obtain ⟨n, rfl⟩ := Nat.exists_eq_succ_of_ne_zero (Nat.ne_of_gt hn)
    rw [quotedLoop_close hq n out h, unquote, List.append_nil]
    rfl
  | @plain c t hcq hcb _ ih =>
    obtain ⟨hlen, hpos⟩ := length_encode_cons c t
    obtain ⟨n, rfl⟩ := Nat.exists_eq_add_of_lt (Nat.lt_of_le_of_lt (Nat.zero_le _) hn)
    rw [Nat.zero_add, quotedLoop_raw hq hcq hcb n out h,
      ih n (out ++ [c]) _ ((escapesAscii_plain hcb t).mp hesc) (rest_adv_text (s := [c]) h) (by omega),
      unquote_plain hcb, List.append_assoc, List.singleton_append, adv_adv, hlen, Nat.add_assoc]
  | @escape c t _ ih =>
    obtain ⟨hc, hesc⟩ := (escapesAscii_escape c t).mp hesc
    obtain ⟨hrest, -⟩ := rest_adv_escape hc h
    have hlen : (encode ('\\' :: c :: t)).length = (encode t).length + 2 := by
      rw [encode_cons_ascii (by decide), encode_cons_ascii hc]
      rfl
    obtain ⟨n, rfl⟩ := Nat.exists_eq_add_of_lt (Nat.lt_of_le_of_lt (Nat.zero_le _) hn)
    rw [Nat.zero_add, quotedLoop_asciiEscape hq hqb n out hc h, ih n _ _ hesc hrest (by omega), unquote_escape,
      List.append_assoc, adv_adv, hlen]
    congr 3
    omega

/-- An escape before a character of several bytes makes the loop fail. -/
theorem quotedLoop_body_wide {body : List Char} (hbody : Body q body) (n : Nat) (out : List Char) (p : Parser)
    (rest : List Char) (hesc : ¬EscapesAscii body) (h : p.rest = encode (body ++ q :: rest))
    (hn : (encode body).length < n) : ∃ msg, quotedLoop (byteOf q) n out p = .error (.error msg) := by
  induction hbody generalizing n out p with
  | nil => exact absurd trivial hesc
  | @plain c t hcq hcb _ ih =>
    obtain ⟨hlen, hpos⟩ := length_encode_cons c t
    obtain ⟨n, rfl⟩ := Nat.exists_eq_add_of_lt (Nat.lt_of_le_of_lt (Nat.zero_le _) hn)
    rw [Nat.zero_add, quotedLoop_raw hq hcq hcb n out h]
    exact ih n _ _ (fun ht => hesc ((escapesAscii_plain hcb t).mpr ht)) (rest_adv_text (s := [c]) h) (by omega)
  | @escape c t _ ih =>
    have hlen := length_encode_cons '\\' (c :: t)
    have hlen' := length_encode_cons c t
    obtain ⟨n, rfl⟩ := Nat.exists_eq_add_of_le' (show 2 ≤ n by omega)
    cases hc : isAscii c with
    | false => exact quotedLoop_wideEscape n out hq hqb hc h
    | true =>
      rw [quotedLoop_asciiEscape hq hqb (n + 1) out hc h]
      exact ih (n + 1) _ _ (fun ht => hesc ((escapesAscii_escape c t).mpr ⟨hc, ht⟩)) (rest_adv_escape hc h).1
        (by omega)

/-- Without a closing quote the loop fails. -/
theorem quotedLoop_unclosed (t : List Char) (n : Nat) (out : List Char) (p : Parser)
    (hopen : ∀ body rest, t = body ++ q :: rest → ¬Body q body) (h : p.rest = encode t)
    (hn : (encode t).length < n) : ∃ msg, quotedLoop (byteOf q) n out p = .error (.error msg) := by
  induction n generalizing t out p with
  | zero => exact absurd hn (Nat.not_lt_zero _)
  | succ n ih =>
    cases t with
    | nil => exact quotedLoop_end n out _ h
    | cons c t =>
      obtain ⟨hlen, hpos⟩ := length_encode_cons c t
      by_cases hcq : c = q
      · exact absurd .nil (hopen [] t (by rw [hcq]; rfl))
      · by_cases hcb : c = '\\'
        · subst hcb
          cases t with
          | nil => exact quotedLoop_endEscape n out hq hqb h
          | cons c t =>
            obtain ⟨hlen', hpos'⟩ := length_encode_cons c t
            cases hc : isAscii c with
            | false =>
              obtain ⟨n, rfl⟩ := Nat.exists_eq_add_of_le' (show 1 ≤ n by omega)
              exact quotedLoop_wideEscape n out hq hqb hc h
            | true =>
              rw [quotedLoop_asciiEscape hq hqb n out hc h]
              refine ih t _ _ (fun body rest ht hbody => ?_) (rest_adv_escape hc h).1 (by omega)
              exact hopen ('\\' :: c :: body) rest (by rw [ht]; rfl) (.escape hbody)
        · rw [quotedLoop_raw hq hcq hcb n out h]
          refine ih t _ _ (fun body rest ht hbody => ?_) (rest_adv_text (s := [c]) h) (by omega)
          exact hopen (c :: body) rest (by rw [ht]; rfl) (.plain hcq hcb hbody)

end Whole

/-- The string between a quote and the first quote of its kind that stands by itself is decoded,
and the position is right behind that quote; without one the call fails. -/
def DecodesExactly (p : Parser) (q : Char) (t : List Char) : Prop :=
  (∀ body rest, t = body ++ q :: rest → Body q body →
    quoted_string p = .ok (String.ofList (unquote body), p.adv (encode (q :: body ++ [q])).length))
  ∧ ((∀ body rest, t = body ++ q :: rest → ¬Body q body) → ∃ msg, quoted_string p = .error (.error msg))

theorem quoted_string_exact_iff {q : Char} (hq : q = '"' ∨ q = '\'') {p : Parser} {t : List Char}
    (h : p.rest = encode (q :: t)) :
    DecodesExactly p q t ↔ ∀ body rest, t = body ++ q :: rest → Body q body → EscapesAscii body := by
  have hascii : isAscii q = true := by rcases hq with rfl | rfl <;> decide
  have hqb : q ≠ '\\' := by rcases hq with rfl | rfl <;> decide
  have hrest := rest_adv_char hascii h
  have hloop : quoted_string p = quotedLoop (byteOf q) (p.bytes.length + 1) [] (p.adv 1) := by
    rw [quoted_string, bump_char hascii h]
    rfl
  have hfuel : (encode t).length < p.bytes.length + 1 := by
    have hle := rest_length_le (p.adv 1)
    rw [hrest, adv_bytes] at hle
    omega
  have hfuel' (body rest : List Char) (ht : t = body ++ q :: rest) : (encode body).length < p.bytes.length + 1 := by
    rw [ht, encode_append, List.length_append] at hfuel
    omega
  rw [DecodesExactly, hloop]
  constructor
  · rintro ⟨hdecode, -⟩ body rest ht hbody
    by_contra hesc
    obtain ⟨msg, hfail⟩ := quotedLoop_body_wide hascii hqb hbody _ [] _ rest hesc (by rw [hrest, ht]) (hfuel' _ _ ht)
    rw [hdecode body rest ht hbody] at hfail
    cases hfail
  · intro hesc
    refine ⟨fun body rest ht hbody => ?_, fun hopen => quotedLoop_unclosed hascii hqb t _ [] _ hopen hrest hfuel⟩
    have hsize : (encode (q :: body ++ [q])).length = 1 + ((encode body).length + 1) := by
      rw [encode_append, encode_cons_ascii hascii, encode_cons_ascii hascii, List.length_append, List.length_cons,
        encode_nil]
      simp only [List.length_cons, List.length_nil]
      omega
    rw [quotedLoop_body hascii hqb hbody _ [] _ rest (hesc body rest ht hbody) (by rw [hrest, ht]) (hfuel' _ _ ht),
      adv_adv, hsize, List.nil_append]

/-- `"a\n"`, the escape written out. -/
theorem quoted_string_exact_newline :
    DecodesExactly ⟨encode ['"', 'a', '\\', 'n', '"'], 0⟩ '"' ['a', '\\', 'n', '"']
      ↔ ∀ body rest, ['a', '\\', 'n', '"'] = body ++ '"' :: rest → Body '"' body → EscapesAscii body :=
  quoted_string_exact_iff (.inl rfl) rfl

/-- `"\é"` is a string between quotes, and is refused. -/
theorem wide_escape_refused : ¬∀ p q t, q = '"' ∨ q = '\'' → p.rest = encode (q :: t) → DecodesExactly p q t := by
  intro hall
  have hbody : Body '"' ['\\', 'é'] := .escape .nil
  have hrest : (Parser.mk (encode ['"', '\\', 'é', '"']) 0).rest = encode ('"' :: ['\\', 'é', '"']) := rfl
  have hdecode := (hall _ '"' _ (.inl rfl) hrest).1 ['\\', 'é'] [] rfl hbody
  obtain ⟨msg, hfail⟩ := quotedLoop_body_wide (q := '"') (by decide) (by decide) hbody
    ((encode ['"', '\\', 'é', '"']).length + 1) [] _ [] (fun h => absurd h.1 (by decide))
    (rest_adv_char (by decide) hrest) (by decide)
  have hloop : quoted_string (Parser.mk (encode ['"', '\\', 'é', '"']) 0)
      = quotedLoop (byteOf '"') ((encode ['"', '\\', 'é', '"']).length + 1) []
        ((Parser.mk (encode ['"', '\\', 'é', '"']) 0).adv 1) := by
    rw [quoted_string, bump_char (by decide) hrest]
    rfl
  rw [hloop, hfail] at hdecode
  cases hdecode

end Nbt
