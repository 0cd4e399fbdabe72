import Mathlib.Data.List.Basic
import Mathlib.Data.UInt

/-!
# Unsigned LEB128

Seven payload bits a byte, least significant group first; the top bit says that
another byte follows. Values are unbounded here, a reader may bound them.
-/
namespace Leb128

def encode (n : Nat) : List UInt8 :=
  if n < 128 then [UInt8.ofNat n] else UInt8.ofNat (n % 128 + 128) :: encode (n / 128)
termination_by n

/-- The value at the front of the bytes and the number of bytes it takes. -/
def decode : List UInt8 → Option (Nat × Nat)
  | [] => none
  | b :: data =>
    if b.toNat < 128 then some (b.toNat, 1)
    else match decode data with
      | none => none
      | some (v, size) => some (b.toNat % 128 + 128 * v, size + 1)

theorem encode_small {n : Nat} (h : n < 128) : encode n = [UInt8.ofNat n] := by
  rw [encode, if_pos h]

theorem encode_big {n : Nat} (h : ¬n < 128) :
    encode n = UInt8.ofNat (n % 128 + 128) :: encode (n / 128) := by
  rw [encode, if_neg h]

theorem decode_last {b : UInt8} (h : b.toNat < 128) (data : List UInt8) :
    decode (b :: data) = some (b.toNat, 1) := by
  rw [decode, if_pos h]

theorem decode_more {b : UInt8} (h : ¬b.toNat < 128) (data : List UInt8) :
    decode (b :: data) = (decode data).map fun p => (b.toNat % 128 + 128 * p.1, p.2 + 1) := by
  rw [decode, if_neg h]
  cases decode data <;> rfl

/-- A number is read back from the front of any bytes that start with it. -/
theorem decode_encode (n : Nat) (rest : List UInt8) :
    decode (encode n ++ rest) = some (n, (encode n).length) := by
  induction n using encode.induct with
  | case1 n h =>
    have hb : (UInt8.ofNat n).toNat = n := by
      rw [UInt8.toNat_ofNat']
      omega
    rw [encode_small h, List.singleton_append, decode_last (by omega), hb]
    rfl
  | case2 n h ih =>
    have hb : (UInt8.ofNat (n % 128 + 128)).toNat = n % 128 + 128 := by
      rw [UInt8.toNat_ofNat']
      omega
    have hn : (n % 128 + 128) % 128 + 128 * (n / 128) = n := by omega
    rw [encode_big h, List.cons_append, decode_more (by omega), ih, hb]
    simp only [Option.map_some, List.length_cons, hn]

theorem decode_pos {data : List UInt8} {v size : Nat} (h : decode data = some (v, size)) : 0 < size := by
  cases data with
  | nil => cases h
  | cons b data =>
    by_cases hb : b.toNat < 128
    · rw [decode_last hb] at h
      cases h
      omega
    · rw [decode_more hb] at h
      obtain ⟨p, -, hp⟩ := Option.map_eq_some_iff.mp h
      cases hp
      omega

/-- A value of two bytes or more: its first group, and what the bytes after it hold. -/
theorem decode_longer {data : List UInt8} {v n : Nat} (h : decode data = some (v, n + 2)) :
    ∃ b rest u, data = b :: rest ∧ 128 ≤ b.toNat ∧ v = b.toNat % 128 + 128 * u ∧ decode rest = some (u, n + 1) := by
  cases data with
  | nil => cases h
  | cons b rest =>
    by_cases hb : b.toNat < 128
    · rw [decode_last hb] at h
      cases h
    · rw [decode_more hb] at h
      obtain ⟨p, hp, he⟩ := Option.map_eq_some_iff.mp h
      cases p
      cases he
      exact ⟨b, rest, _, rfl, Nat.le_of_not_lt hb, rfl, hp⟩

/-- A value of one byte. -/
theorem decode_one {data : List UInt8} {v : Nat} (h : decode data = some (v, 1)) :
    ∃ b rest, data = b :: rest ∧ b.toNat < 128 ∧ v = b.toNat := by
  cases data with
  | nil => cases h
  | cons b rest =>
    by_cases hb : b.toNat < 128
    · rw [decode_last hb] at h
      cases h
      exact ⟨b, rest, rfl, hb, rfl⟩
    · rw [decode_more hb] at h
      obtain ⟨p, hp, he⟩ := Option.map_eq_some_iff.mp h
      have hpos := decode_pos hp
      simp only [Prod.mk.injEq] at he
      omega

/-- The bytes after a value do not matter. -/
theorem decode_take {data : List UInt8} {v size : Nat} (h : decode data = some (v, size)) :
    decode (data.take size) = some (v, size) := by
  induction data generalizing v size with
  | nil => cases h
  | cons b data ih =>
    by_cases hb : b.toNat < 128
    · rw [decode_last hb] at h
      cases h
      exact decode_last hb _
    · rw [decode_more hb] at h
      obtain ⟨p, hp, he⟩ := Option.map_eq_some_iff.mp h
      cases he
      rw [List.take_succ_cons, decode_more hb, ih hp]
      rfl

/-- `size` bytes hold less than `size` groups of seven bits can. -/
theorem decode_lt {data : List UInt8} {v size : Nat} (h : decode data = some (v, size)) : v < 128 ^ size := by
  induction data generalizing v size with
  | nil => cases h
  | cons b data ih =>
    by_cases hb : b.toNat < 128
    · rw [decode_last hb] at h
      cases h
      omega
    · rw [decode_more hb] at h
      obtain ⟨p, hp, he⟩ := Option.map_eq_some_iff.mp h
      cases he
      have htail := ih hp
      rw [Nat.pow_succ]
      omega

/-- `k` groups of seven bits take at most `k` bytes. -/
theorem length_encode_le (k n : Nat) (h : n < 128 ^ (k + 1)) : (encode n).length ≤ k + 1 := by
  induction k generalizing n with
  | zero =>
    rw [encode_small (by omega)]
    exact Nat.le_refl 1
  | succ k ih =>
    by_cases hn : n < 128
    · rw [encode_small hn, List.length_singleton]
      omega
    · have hdiv : n / 128 < 128 ^ (k + 1) := by
        rw [Nat.div_lt_iff_lt_mul (by omega)]
        rwa [Nat.pow_succ] at h
      rw [encode_big hn, List.length_cons]
      exact Nat.succ_le_succ (ih _ hdiv)

end Leb128
