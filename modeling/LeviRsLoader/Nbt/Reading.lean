import LeviRsLoader.Nbt.Parser
import Mathlib.Data.List.TakeWhile

/-!
# The parser's primitives on a given text

Each lemma says what one primitive does when the text left to read is known,
character by character. Both directions of the round trip use them.
-/
namespace Nbt

open Utf8

namespace Parser

@[simp] theorem adv_zero (p : Parser) : p.adv 0 = p := rfl

@[simp] theorem adv_adv (p : Parser) (m n : Nat) : (p.adv m).adv n = p.adv (m + n) := by
  simp [adv, Nat.add_assoc]

@[simp] theorem adv_bytes (p : Parser) (n : Nat) : (p.adv n).bytes = p.bytes := rfl

@[simp] theorem adv_pos (p : Parser) (n : Nat) : (p.adv n).pos = p.pos + n := rfl

theorem rest_adv (p : Parser) (n : Nat) : (p.adv n).rest = p.rest.drop n := by
  simp [rest, adv, List.drop_drop]

theorem rest_adv_append {p : Parser} {w r : List UInt8} (h : p.rest = w ++ r) :
    (p.adv w.length).rest = r := by
  rw [rest_adv, h, List.drop_left]

theorem peek_eq (p : Parser) : p.peek = p.rest.head? := by
  rw [peek, rest, List.head?_drop]

theorem bump_nil {p : Parser} (h : p.rest = []) : p.bump = (none, p) := by
  simp [bump, peek_eq, h]

theorem bump_cons {p : Parser} {b : UInt8} {r : List UInt8} (h : p.rest = b :: r) :
    p.bump = (some b, p.adv 1) := by
  simp [bump, peek_eq, h]

theorem bump_eq {p q : Parser} {b : UInt8} (h : p.bump = (some b, q)) : p.peek = some b ∧ q = p.adv 1 := by
  rw [bump] at h
  cases hp : p.peek with
  | none => rw [hp] at h; cases h
  | some c => rw [hp] at h; cases h; exact ⟨rfl, rfl⟩

theorem rest_length_le (p : Parser) : p.rest.length ≤ p.bytes.length := by
  simp [rest]

variable {p : Parser} {c : Char} {t : List Char}

theorem rest_adv_text {s : List Char} (h : p.rest = encode (s ++ t)) :
    (p.adv (encode s).length).rest = encode t :=
  rest_adv_append (by rw [h, encode_append])

theorem rest_adv_char (hc : isAscii c = true) (h : p.rest = encode (c :: t)) :
    (p.adv 1).rest = encode t := by
  rw [rest_adv, h, encode_cons_ascii hc]
  rfl

theorem peek_char (hc : isAscii c = true) (h : p.rest = encode (c :: t)) : p.peek = some (byteOf c) := by
  rw [peek_eq, h, encode_cons_ascii hc]
  rfl

theorem bump_char (hc : isAscii c = true) (h : p.rest = encode (c :: t)) :
    p.bump = (some (byteOf c), p.adv 1) :=
  bump_cons (by rw [h, encode_cons_ascii hc])

theorem peek_eq_char (hc : isAscii c = true) (h : p.rest = encode t) :
    p.peek = some (byteOf c) ↔ t.head? = some c := by
  rw [peek_eq, h, head?_encode hc]

theorem expect_char (hc : isAscii c = true) (h : p.rest = encode (c :: t)) : p.expect c = .ok (p.adv 1) := by
  rw [expect, peek_char hc h, if_pos rfl]

/-- `skip_ws` stays where it is before anything but white space. -/
theorem skip_ws_of_head (h : ∀ b ∈ p.rest.head?, isWs b = false) : p.skip_ws = p := by
  cases hr : p.rest with
  | nil => simp [skip_ws, hr]
  | cons b r =>
    have hb : isWs b = false := h b (by simp [hr])
    simp [skip_ws, hr, hb]

def isWsChar (c : Char) : Bool := c == ' ' || c == '\t' || c == '\r' || c == '\n'

theorem isWs_byteOf (hc : isAscii c = true) : isWs (byteOf c) = isWsChar c := by
  have h (d : Char) (hd : isAscii d = true) : (byteOf c == byteOf d) = (c == d) := by
    rw [Bool.eq_iff_iff, beq_iff_eq, beq_iff_eq, byteOf_inj hc hd]
  rw [isWs, isWsChar, h ' ' rfl, h '\t' rfl, h '\r' rfl, h '\n' rfl]

theorem isWs_lead {b : UInt8} (hb : 128 ≤ b.toNat) : isWs b = false := by
  have h (d : Char) (hd : isAscii d = true) : (b == byteOf d) = false := by
    rw [beq_eq_false_iff_ne]
    rintro rfl
    rw [byteOf_toNat hd] at hb
    have : d.toNat < 128 := by simpa [isAscii] using hd
    omega
  rw [isWs, h ' ' rfl, h '\t' rfl, h '\r' rfl, h '\n' rfl]
  rfl

theorem skip_ws_text (h : p.rest = encode t) (hw : ∀ c ∈ t.head?, isWsChar c = false) : p.skip_ws = p := by
  apply skip_ws_of_head
  rw [h]
  cases t with
  | nil => simp
  | cons c t =>
    cases hc : isAscii c with
    | true =>
      simp only [encode_cons_ascii hc, List.head?_cons, Option.mem_def, Option.some.injEq, forall_eq']
      rw [isWs_byteOf hc]
      exact hw c rfl
    | false =>
      obtain ⟨b, r, he, hb⟩ := encode_head hc t
      simp only [he, List.head?_cons, Option.mem_def, Option.some.injEq, forall_eq']
      exact isWs_lead (by omega)

/-- Where `skip_ws` ends up: past the leading white space of the text. -/
theorem skip_ws_drop (h : p.rest = encode t) :
    ∃ w, p.skip_ws = p.adv w ∧ p.skip_ws.rest = encode (t.dropWhile isWsChar) := by
  induction t generalizing p with
  | nil =>
    rw [skip_ws_of_head (by simp [h])]
    exact ⟨0, rfl, h⟩
  | cons c t ih =>
    cases hc : isWsChar c with
    | false =>
      rw [skip_ws_text h (by simp [hc]), List.dropWhile_cons_of_neg (by simp [hc])]
      exact ⟨0, rfl, h⟩
    | true =>
      have ha : isAscii c = true := by
        simp only [isWsChar, Bool.or_eq_true, beq_iff_eq] at hc
        rcases hc with ((rfl | rfl) | rfl) | rfl <;> decide
      obtain ⟨w, hw, hr⟩ := ih (rest_adv_char ha h)
      have hs : p.skip_ws = (p.adv 1).skip_ws := by
        rw [skip_ws, skip_ws, rest_adv, h, encode_cons_ascii ha,
          List.takeWhile_cons_of_pos (by rw [isWs_byteOf ha]; exact hc)]
        simp [Nat.add_comm]
      rw [hs, List.dropWhile_cons_of_pos hc]
      exact ⟨1 + w, by rw [hw, adv_adv], hr⟩

theorem slice_append {w r : List UInt8} (h : p.rest = w ++ r) (hw : w ≠ []) :
    p.slice p.pos (p.pos + w.length) = .ok w := by
  have hlen := congrArg List.length h
  simp only [rest, List.length_drop, List.length_append] at hlen
  have hpos : 0 < w.length := List.length_pos_of_ne_nil hw
  have hdrop : p.bytes.drop p.pos = w ++ r := h
  rw [slice, if_pos (by omega), hdrop, Nat.add_sub_cancel_left, List.take_left]

theorem slice_adv (p : Parser) (n a b : Nat) : (p.adv n).slice a b = p.slice a b := rfl

theorem from_utf8_encode (p : Parser) (msg : String) (t : List Char) : p.from_utf8 msg (encode t) = .ok t := by
  rw [from_utf8, decode_encode]

end Parser

@[simp] theorem ok_bind {α β : Type} (a : α) (f : α → Except Fail β) : (Except.ok a >>= f) = f a := rfl

/-! ## Characters of a quoted string -/

open Nbt.Parser

variable {p : Parser} {c : Char} {t : List Char}

theorem asChar_byteOf (hc : isAscii c = true) : asChar (byteOf c) = c := by
  rw [asChar, byteOf_toNat hc]
  exact Char.ofNat_toNat c

theorem byteOf_lt (hc : isAscii c = true) : (byteOf c).toNat < 0x80 := by
  rw [byteOf_toNat hc]
  simpa [isAscii] using hc

theorem lead_ne_byteOf {b : UInt8} (hb : 128 ≤ b.toNat) (hc : isAscii c = true) : b ≠ byteOf c := by
  rintro rfl
  have := byteOf_lt hc
  omega

/-- A character outside ASCII is copied whole. -/
theorem quotedLoop_wide {q : Char} (hq : isAscii q = true) (hc : isAscii c = false) (n : Nat)
    (out : List Char) (h : p.rest = encode (c :: t)) :
    quotedLoop (byteOf q) (n + 1) out p =
      quotedLoop (byteOf q) n (out ++ [c]) (p.adv (encode [c]).length) := by
  obtain ⟨b, s, hb, -, hl⟩ := encodeChar_lead hc
  have hone : encode [c] = b :: s := by rw [encode_cons, hb]; simp
  have hrest : p.rest = encode [c] ++ encode t := by rw [h, ← encode_append]; rfl
  have hlen : utf8_len b = (encode [c]).length := by
    rw [hone, List.length_cons, utf8_len]
    rcases hl with ⟨h₁, h₂, h₃⟩ | ⟨h₁, h₂, h₃⟩ | ⟨h₁, h₂⟩
    · rw [if_neg (by omega), if_neg (by omega), if_pos (by omega)]; omega
    · rw [if_neg (by omega), if_pos (by omega)]; omega
    · rw [if_pos (by omega)]; omega
  have hb₀ : 128 ≤ b.toNat := by omega
  have hstop : min (p.pos + (encode [c]).length) p.bytes.length = p.pos + (encode [c]).length := by
    have := congrArg List.length hrest
    simp only [rest, List.length_drop, List.length_append] at this
    have hpos : 0 < (encode [c]).length := by rw [hone]; simp
    omega
  have hbump : p.bump = (some b, p.adv 1) := bump_cons (by rw [hrest, hone, List.cons_append])
  have hslice := slice_append hrest (by rw [hone]; simp)
  rw [quotedLoop, hbump]
  simp only [lead_ne_byteOf hb₀ hq, lead_ne_byteOf hb₀ (c := '\\') (by decide), if_false,
    show ¬ b.toNat < 0x80 by omega, adv_pos, Nat.add_sub_cancel, adv_bytes, hlen, hstop, slice_adv, hslice,
    ok_bind, from_utf8_encode]
  rfl

/-- An ASCII character other than the quote and the backslash is copied. -/
theorem quotedLoop_ascii {q : Char} (hq : isAscii q = true) (hc : isAscii c = true) (hcq : c ≠ q)
    (hbs : c ≠ '\\') (n : Nat) (out : List Char) (h : p.rest = encode (c :: t)) :
    quotedLoop (byteOf q) (n + 1) out p = quotedLoop (byteOf q) n (out ++ [c]) (p.adv 1) := by
  rw [quotedLoop, bump_char hc h]
  simp only [(byteOf_inj hc hq).not.mpr hcq, (byteOf_inj hc (d := '\\') (by decide)).not.mpr hbs, if_false,
    byteOf_lt hc, if_true, asChar_byteOf hc]

/-- Every character but the quote and the backslash is copied. -/
theorem quotedLoop_raw {q : Char} (hq : isAscii q = true) (hcq : c ≠ q) (hbs : c ≠ '\\') (n : Nat)
    (out : List Char) (h : p.rest = encode (c :: t)) :
    quotedLoop (byteOf q) (n + 1) out p =
      quotedLoop (byteOf q) n (out ++ [c]) (p.adv (encode [c]).length) := by
  cases hc : isAscii c with
  | true =>
    rw [quotedLoop_ascii hq hc hcq hbs n out h, encode_cons_ascii hc]
    rfl
  | false => exact quotedLoop_wide hq hc n out h

/-- What an escape letter stands for. -/
def unescape (c : Char) : Char := if c = 'n' then '\n' else if c = 'r' then '\r' else if c = 't' then '\t' else c

/-- A backslash and an escape letter give one character. -/
theorem quotedLoop_escape {q : Char} (hq : isAscii q = true) (hqb : q ≠ '\\') (n : Nat) (out : List Char)
    (he : c ∈ ['n', 'r', 't', '"', '\'', '\\']) (h : p.rest = encode ('\\' :: c :: t)) :
    quotedLoop (byteOf q) (n + 1) out p = quotedLoop (byteOf q) n (out ++ [unescape c]) (p.adv 2) := by
  have hb : isAscii '\\' = true := by decide
  have hc : isAscii c = true := by
    simp only [List.mem_cons, List.not_mem_nil, or_false] at he
    rcases he with rfl | rfl | rfl | rfl | rfl | rfl <;> decide
  have hrest := rest_adv_char hb h
  rw [quotedLoop, bump_char hb h]
  simp only [(byteOf_inj hb hq).not.mpr (Ne.symm hqb), if_false, if_true, bump_char hc hrest, adv_adv]
  simp only [List.mem_cons, List.not_mem_nil, or_false] at he
  rcases he with rfl | rfl | rfl | rfl | rfl | rfl <;> rfl

/-- The closing quote ends the loop. -/
theorem quotedLoop_close {q : Char} (hq : isAscii q = true) (n : Nat) (out : List Char)
    (h : p.rest = encode (q :: t)) :
    quotedLoop (byteOf q) (n + 1) out p = .ok (String.ofList out, p.adv 1) := by
  rw [quotedLoop, bump_char hq h]
  simp

/-! ## Bare tokens -/

theorem isAlphanum_eq (c : Char) :
    c.isAlphanum = (decide ('A'.val ≤ c.val ∧ c.val ≤ 'Z'.val) || ('a'.val ≤ c.val && c.val ≤ 'z'.val) ||
      ('0'.val ≤ c.val && c.val ≤ '9'.val)) := rfl

theorem isBareChar_iff_toNat (c : Char) :
    isBareChar c = true ↔ (48 ≤ c.toNat ∧ c.toNat ≤ 57) ∨ (65 ≤ c.toNat ∧ c.toNat ≤ 90) ∨
      (97 ≤ c.toNat ∧ c.toNat ≤ 122) ∨ c.toNat = 95 ∨ c.toNat = 45 ∨ c.toNat = 46 ∨ c.toNat = 43 := by
  have hval (x : Char) : x.val.toNat = x.toNat := rfl
  have heq (d : Char) : c = d ↔ c.toNat = d.toNat := Char.toNat_inj.symm
  simp only [isBareChar, isAlphanum_eq, Bool.or_eq_true, Bool.and_eq_true, decide_eq_true_eq,
    UInt32.le_iff_toNat_le, beq_iff_eq, heq, hval]
  simp only [show 'A'.toNat = 65 from rfl, show 'Z'.toNat = 90 from rfl, show 'a'.toNat = 97 from rfl,
    show 'z'.toNat = 122 from rfl, show '0'.toNat = 48 from rfl, show '9'.toNat = 57 from rfl,
    show '_'.toNat = 95 from rfl, show '-'.toNat = 45 from rfl, show '.'.toNat = 46 from rfl,
    show '+'.toNat = 43 from rfl]
  omega

theorem isBareByte_iff_toNat (b : UInt8) :
    isBareByte b = true ↔ (48 ≤ b.toNat ∧ b.toNat ≤ 57) ∨ (65 ≤ b.toNat ∧ b.toNat ≤ 90) ∨
      (97 ≤ b.toNat ∧ b.toNat ≤ 122) ∨ b.toNat = 95 ∨ b.toNat = 45 ∨ b.toNat = 46 ∨ b.toNat = 43 := by
  have heq (d : UInt8) : b = d ↔ b.toNat = d.toNat := UInt8.toNat_inj.symm
  simp only [isBareByte, Bool.or_eq_true, Bool.and_eq_true, decide_eq_true_eq, beq_iff_eq, heq]
  simp only [show (byteOf '_').toNat = 95 from rfl, show (byteOf '-').toNat = 45 from rfl,
    show (byteOf '.').toNat = 46 from rfl, show (byteOf '+').toNat = 43 from rfl]
  omega

theorem isAscii_of_isBareChar (h : isBareChar c = true) : isAscii c = true := by
  have := (isBareChar_iff_toNat c).mp h
  simp only [isAscii, decide_eq_true_eq]
  omega

theorem isBareByte_byteOf (hc : isAscii c = true) : isBareByte (byteOf c) = isBareChar c := by
  rw [Bool.eq_iff_iff, isBareByte_iff_toNat, isBareChar_iff_toNat, byteOf_toNat hc]

theorem isBareByte_lead {b : UInt8} (hb : 128 ≤ b.toNat) : isBareByte b = false := by
  rw [Bool.eq_false_iff, ne_eq, isBareByte_iff_toNat]
  omega

/-- The bare bytes at the front of a text are its bare characters. -/
theorem takeWhile_isBareByte (t : List Char) :
    (encode t).takeWhile isBareByte = encode (t.takeWhile isBareChar) := by
  induction t with
  | nil => rfl
  | cons c t ih =>
    cases hc : isAscii c with
    | true =>
      rw [encode_cons_ascii hc]
      cases hb : isBareChar c with
      | true =>
        rw [List.takeWhile_cons_of_pos (by rw [isBareByte_byteOf hc, hb]), ih,
          List.takeWhile_cons_of_pos hb, encode_cons_ascii hc]
      | false =>
        rw [List.takeWhile_cons_of_neg (by simp [isBareByte_byteOf hc, hb]),
          List.takeWhile_cons_of_neg (by simp [hb]), encode_nil]
    | false =>
      obtain ⟨b, r, he, hb⟩ := encode_head hc t
      have hn : isBareChar c = false := by
        cases h : isBareChar c with
        | true => rw [isAscii_of_isBareChar h] at hc; exact absurd hc (by simp)
        | false => rfl
      rw [he, List.takeWhile_cons_of_neg (by simp [isBareByte_lead (b := b) (by omega)]),
        List.takeWhile_cons_of_neg (by simp [hn]), encode_nil]

/-- A bare token is the longest run of bare characters; there must be one. -/
theorem bare_token_text (h : p.rest = encode t) :
    bare_token p = if t.takeWhile isBareChar = [] then .error (p.err "expected a token")
      else .ok (t.takeWhile isBareChar, p.adv (encode (t.takeWhile isBareChar)).length) := by
  have hsplit : p.rest = encode (t.takeWhile isBareChar) ++ encode (t.dropWhile isBareChar) := by
    rw [← encode_append, List.takeWhile_append_dropWhile, h]
  rw [bare_token, h, takeWhile_isBareByte]
  by_cases ht : t.takeWhile isBareChar = []
  · simp [ht]
  · have hne : encode (t.takeWhile isBareChar) ≠ [] := by
      obtain ⟨c, s, hs⟩ := List.exists_cons_of_ne_nil ht
      have hc : isBareChar c = true := by
        have hm : c ∈ t.takeWhile isBareChar := by rw [hs]; exact List.mem_cons_self
        exact List.mem_takeWhile_imp hm
      rw [hs, encode_cons_ascii (isAscii_of_isBareChar hc)]
      simp
    have hslice := slice_append hsplit hne
    have hlen : (encode (t.takeWhile isBareChar)).length ≠ 0 := by simpa using hne
    simp [ht, hlen, slice_adv, hslice, from_utf8_encode]

/-! ## Lists and typed arrays -/

theorem getElem?_rest (p : Parser) (i : Nat) : p.rest[i]? = p.bytes[p.pos + i]? := by
  rw [rest, List.getElem?_drop]

variable (F : Floats) (value : Parser → Except Fail (NbtValue × Parser))

/-- The lookahead of `list_or_array` in terms of the text after the bracket. -/
theorem list_or_array_eq (h : p.rest = encode ('[' :: t)) :
    list_or_array F value p =
      if (encode t)[1]? = some (byteOf ';') then do
        let kind ← (p.adv 1).index (p.pos + 1)
        typed_array F kind (p.adv 3)
      else list value (p.adv 1) := by
  have hrest := rest_adv_char (by decide) h
  have hidx : (encode t)[1]? = p.bytes[p.pos + 2]? := by
    rw [← hrest, getElem?_rest, adv_pos, adv_bytes]
  rw [list_or_array, expect_char (by decide) h, ok_bind, adv_pos, adv_bytes, hidx]
  by_cases hlen : p.pos + 1 + 2 ≤ p.bytes.length
  · have hget : p.bytes[p.pos + 2]? = some p.bytes[p.pos + 2] := List.getElem?_eq_getElem (by omega)
    have hi : (p.adv 1).index (p.pos + 1 + 1) = .ok p.bytes[p.pos + 2] := by
      rw [index, adv_bytes, hget]
    rw [if_pos hlen, hi, ok_bind, hget, adv_adv]
    simp
  · have hget : p.bytes[p.pos + 2]? = none := List.getElem?_eq_none (by omega)
    simp [hlen, hget]

/-- A character and a semicolon after the bracket are read as a typed array's kind. -/
theorem list_or_array_typed (hc : isAscii c = true) (h : p.rest = encode ('[' :: c :: ';' :: t)) :
    list_or_array F value p = typed_array F (byteOf c) (p.adv 3) := by
  have hrest := rest_adv_char (by decide) h
  have hsemi : (encode (c :: ';' :: t))[1]? = some (byteOf ';') :=
    (getElem?_one_encode (by decide) c _).mpr ⟨hc, rfl⟩
  have hkind : (p.adv 1).index (p.pos + 1) = .ok (byteOf c) := by
    have := getElem?_rest (p.adv 1) 0
    rw [hrest, encode_cons_ascii hc, List.getElem?_cons_zero, adv_pos, Nat.add_zero] at this
    rw [index, ← this]
  rw [list_or_array_eq F value h, if_pos hsemi, hkind, ok_bind]

/-- Anything else after the bracket is read as a list. -/
theorem list_or_array_list (h : p.rest = encode ('[' :: t))
    (ht : ∀ a s, t = a :: s → isAscii a = true → s.head? ≠ some ';') :
    list_or_array F value p = list value (p.adv 1) := by
  have hsemi : (encode t)[1]? ≠ some (byteOf ';') := by
    cases t with
    | nil => simp
    | cons a s =>
      intro hs
      obtain ⟨ha, hh⟩ := (getElem?_one_encode (by decide) a s).mp hs
      exact ht a s rfl ha hh
  rw [list_or_array_eq F value h, if_neg hsemi]

/-! ## The dispatch of `value` -/

section

variable {F} (n : Nat)

theorem value_of_head (hc : isAscii c = true) (hw : isWsChar c = false) (h : p.rest = encode (c :: t)) :
    Nbt.value F (n + 1) p =
      if c = '{' then compound (Nbt.value F n) p
      else if c = '[' then list_or_array F (Nbt.value F n) p
      else if c = '"' ∨ c = '\'' then do
        let (s, p) ← quoted_string p
        .ok (.string s, p)
      else scalar F p := by
  have hs : p.skip_ws = p := skip_ws_text h (by simp [hw])
  simp only [Nbt.value, hs, peek_char hc h, byteOf_inj hc (d := '{') rfl, byteOf_inj hc (d := '[') rfl,
    byteOf_inj hc (d := '"') rfl, byteOf_inj hc (d := '\'') rfl]

end

end Nbt
