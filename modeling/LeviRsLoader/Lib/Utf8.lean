import Mathlib.Data.List.Basic
import Mathlib.Data.UInt

/-!
# UTF-8 text as bytes

Encoding is the core library's, character by character; what is added is the
shape of an encoded character a byte-wise reader sees: one byte below 0x80, or
a lead byte from 0xC0 that tells how many bytes follow.
-/
namespace Utf8

def encode (t : List Char) : List UInt8 := t.flatMap String.utf8EncodeChar

/-- The bytes of a text literal. -/
def ascii (s : String) : List UInt8 := encode s.toList

/-- The characters of a byte string, if it is valid UTF-8. -/
def decode (b : List UInt8) : Option (List Char) := b.toByteArray.utf8Decode?.map Array.toList

def isAscii (c : Char) : Bool := c.toNat < 128

/-- The single byte of an ASCII character. -/
def byteOf (c : Char) : UInt8 := UInt8.ofNat c.toNat

@[simp] theorem encode_nil : encode [] = [] := rfl

theorem encode_cons (c : Char) (t : List Char) : encode (c :: t) = String.utf8EncodeChar c ++ encode t := rfl

@[simp] theorem encode_append (s t : List Char) : encode (s ++ t) = encode s ++ encode t := by
  simp [encode]

theorem decode_encode (t : List Char) : decode (encode t) = some t := by
  have h : (encode t).toByteArray = t.utf8Encode := rfl
  simp [decode, h, List.utf8Decode?_utf8Encode]

theorem encode_eq_nil {t : List Char} : encode t = [] ↔ t = [] := by
  constructor
  · intro h
    have hd := decode_encode t
    rw [h, ← encode_nil, decode_encode] at hd
    exact (Option.some.inj hd).symm
  · rintro rfl
    rfl

/-- Only an encoded text decodes. -/
theorem encode_of_decode {b : List UInt8} {t : List Char} (h : decode b = some t) : ∃ s, encode s = b := by
  have hsome : b.toByteArray.utf8Decode?.isSome := by
    rw [decode, Option.map_eq_some_iff] at h
    obtain ⟨a, ha, -⟩ := h
    rw [ha]
    rfl
  obtain ⟨s, hs⟩ := ByteArray.isSome_utf8Decode?_iff.mp hsome
  have heq : b.toByteArray = (encode s).toByteArray := hs
  exact ⟨s, (List.toByteArray_inj.mp heq).symm⟩

theorem encodeChar_ascii {c : Char} (h : isAscii c = true) : String.utf8EncodeChar c = [byteOf c] := by
  have hc : c.val.toNat ≤ 127 := by
    have : c.toNat < 128 := by simpa [isAscii] using h
    exact Nat.le_of_lt_succ this
  simp only [String.utf8EncodeChar, hc, if_true, byteOf]
  rfl

theorem encode_cons_ascii {c : Char} (h : isAscii c = true) (t : List Char) :
    encode (c :: t) = byteOf c :: encode t := by
  rw [encode_cons, encodeChar_ascii h, List.singleton_append]

theorem byteOf_toNat {c : Char} (h : isAscii c = true) : (byteOf c).toNat = c.toNat := by
  have : c.toNat < 128 := by simpa [isAscii] using h
  simp only [byteOf, UInt8.toNat_ofNat']
  omega

theorem byteOf_inj {c d : Char} (hc : isAscii c = true) (hd : isAscii d = true) :
    byteOf c = byteOf d ↔ c = d := by
  constructor
  · intro h
    have := congrArg UInt8.toNat h
    rw [byteOf_toNat hc, byteOf_toNat hd] at this
    exact Char.toNat_inj.mp this
  · rintro rfl
    rfl

/-- A character outside ASCII starts with a lead byte that tells its length;
its other bytes are no ASCII bytes either. -/
theorem encodeChar_lead {c : Char} (h : isAscii c = false) :
    ∃ b t, String.utf8EncodeChar c = b :: t ∧ (∀ x ∈ t, 128 ≤ x.toNat) ∧
      ((192 ≤ b.toNat ∧ b.toNat < 224 ∧ t.length = 1) ∨
       (224 ≤ b.toNat ∧ b.toNat < 240 ∧ t.length = 2) ∨
       (240 ≤ b.toNat ∧ t.length = 3)) := by
  have hc : 127 < c.val.toNat := by
    have : ¬ c.toNat < 128 := by simpa [isAscii] using h
    simp only [Char.toNat] at this
    omega
  have hmax : c.val.toNat < 1114112 := by
    have := c.valid
    simp only [UInt32.isValidChar, Nat.isValidChar] at this
    omega
  have h₁ : ¬ c.val.toNat ≤ 127 := by omega
  have htail (n : Nat) : 128 ≤ (UInt8.ofNat (n % 64 + 128)).toNat := by
    rw [UInt8.toNat_ofNat']
    omega
  by_cases h₂ : c.val.toNat ≤ 2047
  · refine ⟨UInt8.ofNat (c.val.toNat / 64 % 32 + 192), [UInt8.ofNat (c.val.toNat % 64 + 128)],
      by simp only [String.utf8EncodeChar, h₁, h₂, if_false, if_true], ?_, .inl ?_⟩
    · simp only [List.mem_singleton, forall_eq, htail]
    · rw [UInt8.toNat_ofNat']
      exact ⟨by omega, by omega, rfl⟩
  · by_cases h₃ : c.val.toNat ≤ 65535
    · refine ⟨UInt8.ofNat (c.val.toNat / 4096 % 16 + 224),
        [UInt8.ofNat (c.val.toNat / 64 % 64 + 128), UInt8.ofNat (c.val.toNat % 64 + 128)],
        by simp only [String.utf8EncodeChar, h₁, h₂, h₃, if_false, if_true], ?_, .inr (.inl ?_)⟩
      · simp only [List.mem_cons, List.not_mem_nil, or_false, forall_eq_or_imp, forall_eq, htail, and_true]
      · rw [UInt8.toNat_ofNat']
        exact ⟨by omega, by omega, rfl⟩
    · refine ⟨UInt8.ofNat (c.val.toNat / 262144 % 8 + 240),
        [UInt8.ofNat (c.val.toNat / 4096 % 64 + 128), UInt8.ofNat (c.val.toNat / 64 % 64 + 128),
          UInt8.ofNat (c.val.toNat % 64 + 128)],
        by simp only [String.utf8EncodeChar, h₁, h₂, h₃, if_false], ?_, .inr (.inr ?_)⟩
      · simp only [List.mem_cons, List.not_mem_nil, or_false, forall_eq_or_imp, forall_eq, htail, and_true]
      · rw [UInt8.toNat_ofNat']
        exact ⟨by omega, rfl⟩

/-- The first byte of a text outside ASCII is no ASCII byte. -/
theorem encode_head {c : Char} (h : isAscii c = false) (t : List Char) :
    ∃ b r, encode (c :: t) = b :: r ∧ 192 ≤ b.toNat := by
  obtain ⟨b, s, hb, -, hl⟩ := encodeChar_lead h
  refine ⟨b, s ++ encode t, by rw [encode_cons, hb, List.cons_append], ?_⟩
  omega

/-- No byte but the first of an encoded character looks like a lead byte. -/
theorem encodeChar_tail_lt {c : Char} {b : UInt8} {t : List UInt8} (h : String.utf8EncodeChar c = b :: t) :
    ∀ x ∈ t, x.toNat < 192 := by
  have htail (n : Nat) : (UInt8.ofNat (n % 64 + 128)).toNat < 192 := by
    rw [UInt8.toNat_ofNat']
    omega
  have heq := h
  unfold String.utf8EncodeChar at heq
  simp only at heq
  split at heq
  · cases heq
    exact fun x hx => (nomatch hx)
  · split at heq
    · cases heq
      simp only [List.mem_singleton, forall_eq, htail]
    · split at heq <;> cases heq <;>
        simp only [List.mem_cons, List.not_mem_nil, or_false, forall_eq_or_imp, forall_eq, htail, and_self]

/-- A byte that is neither ASCII nor a lead byte is no text on its own. -/
theorem decode_tail {x : UInt8} (h : 128 ≤ x.toNat) (h' : x.toNat < 192) : decode [x] = none := by
  cases hd : decode [x] with
  | none => rfl
  | some t =>
    obtain ⟨s, hs⟩ := encode_of_decode hd
    cases s with
    | nil => cases hs
    | cons c s =>
      cases hc : isAscii c with
      | true =>
        rw [encode_cons_ascii hc] at hs
        have hx : byteOf c = x := (List.cons.inj hs).1
        have hlt : c.toNat < 128 := by simpa [isAscii] using hc
        rw [← hx, byteOf_toNat hc] at h
        omega
      | false =>
        obtain ⟨b, r, he, hb⟩ := encode_head hc s
        rw [he] at hs
        have hx : b = x := (List.cons.inj hs).1
        rw [hx] at hb
        omega

/-- An ASCII byte stands for its own character only. -/
theorem byteOf_mem_encodeChar {c d : Char} (hd : isAscii d = true) :
    byteOf d ∈ String.utf8EncodeChar c ↔ c = d := by
  cases hc : isAscii c with
  | true => rw [encodeChar_ascii hc, List.mem_singleton, byteOf_inj hd hc, eq_comm]
  | false =>
    have hlt : (byteOf d).toNat < 128 := by
      rw [byteOf_toNat hd]
      simpa [isAscii] using hd
    obtain ⟨b, t, hbt, ht, hlead⟩ := encodeChar_lead hc
    constructor
    · intro hm
      rw [hbt] at hm
      rcases List.mem_cons.mp hm with rfl | hm
      · omega
      · have := ht _ hm
        omega
    · rintro rfl
      rw [hc] at hd
      cases hd

/-- A text shows an ASCII byte first only if it starts with that character. -/
theorem head?_encode {c : Char} (hc : isAscii c = true) (t : List Char) :
    (encode t).head? = some (byteOf c) ↔ t.head? = some c := by
  cases t with
  | nil => simp
  | cons d t =>
    cases hd : isAscii d with
    | true => simp [encode_cons_ascii hd, byteOf_inj hd hc]
    | false =>
      obtain ⟨b, r, he, hb⟩ := encode_head hd t
      have hlt : (byteOf c).toNat < 128 := by
        rw [byteOf_toNat hc]
        simpa [isAscii] using hc
      have hne : b ≠ byteOf c := by
        rintro rfl
        omega
      have hne' : d ≠ c := by
        rintro rfl
        rw [hc] at hd
        exact absurd hd (by simp)
      simp [he, hne, hne']

/-- The second byte of a text is an ASCII byte only if its first two characters are ASCII. -/
theorem getElem?_one_encode {c : Char} (hc : isAscii c = true) (a : Char) (t : List Char) :
    (encode (a :: t))[1]? = some (byteOf c) ↔ isAscii a = true ∧ t.head? = some c := by
  cases ha : isAscii a with
  | true =>
    rw [encode_cons_ascii ha, List.getElem?_cons_succ, ← List.head?_eq_getElem?, head?_encode hc]
    simp
  | false =>
    obtain ⟨b, s, hb, hs, hl⟩ := encodeChar_lead ha
    have hlt : (byteOf c).toNat < 128 := by
      rw [byteOf_toNat hc]
      simpa [isAscii] using hc
    cases s with
    | nil => simp at hl
    | cons x s =>
      have hx := hs x List.mem_cons_self
      have hne : x ≠ byteOf c := by
        rintro rfl
        omega
      simp [encode_cons, hb, hne]

/-- A text may be rewritten byte by byte or character by character, where the bytes of the other characters
are left alone. -/
theorem flatMap_encode {byte : UInt8 → List UInt8} {char : Char → List Char}
    (hhigh : ∀ b, 128 ≤ b.toNat → byte b = [b]) (hascii : ∀ c, isAscii c = true → byte (byteOf c) = encode (char c))
    (hother : ∀ c, isAscii c = false → char c = [c]) (s : List Char) :
    (encode s).flatMap byte = encode (s.flatMap char) := by
  have hleft (t : List UInt8) (ht : ∀ x ∈ t, 128 ≤ x.toNat) : t.flatMap byte = t := by
    induction t with
    | nil => rfl
    | cons x t ih =>
      rw [List.flatMap_cons, hhigh x (ht x (.head t)), ih fun y hy => ht y (.tail x hy)]
      rfl
  have hone (c : Char) : (String.utf8EncodeChar c).flatMap byte = encode (char c) := by
    cases hc : isAscii c with
    | true => rw [encodeChar_ascii hc, List.flatMap_singleton, hascii c hc]
    | false =>
      obtain ⟨b, t, hbt, ht, hlead⟩ := encodeChar_lead hc
      have hall : ∀ x ∈ b :: t, 128 ≤ x.toNat := List.forall_mem_cons.mpr ⟨by omega, ht⟩
      rw [hother c hc, encode_cons, hbt, hleft _ hall, encode_nil, List.append_nil]
  induction s with
  | nil => rfl
  | cons c s ih => rw [encode_cons, List.flatMap_append, hone, List.flatMap_cons, encode_append, ← ih]

end Utf8
