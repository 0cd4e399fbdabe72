import Mathlib.Data.Int.Basic

/-!
# Two 32-bit integers in a 64-bit key

The first in the high half, the second in the low half; the packing is a
bijection, so distinct pairs have distinct keys.
-/
namespace Packing

def pack (hi lo : Int32) : UInt64 := (hi.toUInt32.toUInt64 <<< 32) ||| lo.toUInt32.toUInt64

def high (k : UInt64) : Int32 := (k >>> 32).toUInt32.toInt32

def low (k : UInt64) : Int32 := k.toUInt32.toInt32

theorem pack_toNat (hi lo : Int32) : (pack hi lo).toNat = hi.toUInt32.toNat * 4294967296 + lo.toUInt32.toNat := by
  have hh := hi.toUInt32.toNat_lt
  have hl := lo.toUInt32.toNat_lt
  simp only [pack, UInt64.toNat_or, UInt64.toNat_shiftLeft, UInt32.toNat_toUInt64]
  rw [show (32 : UInt64).toNat % 64 = 32 from rfl, Nat.mod_eq_of_lt (by rw [Nat.shiftLeft_eq]; omega),
    Nat.shiftLeft_eq, Nat.mul_comm]
  exact (Nat.two_pow_add_eq_or_of_lt hl hi.toUInt32.toNat).symm

@[simp] theorem high_pack (hi lo : Int32) : high (pack hi lo) = hi := by
  have h : ((pack hi lo >>> 32).toUInt32).toNat = hi.toUInt32.toNat := by
    have hh := hi.toUInt32.toNat_lt
    have hl := lo.toUInt32.toNat_lt
    rw [UInt64.toNat_toUInt32, UInt64.toNat_shiftRight, pack_toNat, show (32 : UInt64).toNat % 64 = 32 from rfl,
      Nat.shiftRight_eq_div_pow]
    omega
  rw [high, UInt32.toNat_inj.mp h]
  exact Int32.toInt32_toUInt32 hi

@[simp] theorem low_pack (hi lo : Int32) : low (pack hi lo) = lo := by
  have h : (pack hi lo).toUInt32.toNat = lo.toUInt32.toNat := by
    have hl := lo.toUInt32.toNat_lt
    rw [UInt64.toNat_toUInt32, pack_toNat]
    omega
  rw [low, UInt32.toNat_inj.mp h]
  exact Int32.toInt32_toUInt32 lo

theorem pack_halves (k : UInt64) : pack (high k) (low k) = k := by
  apply UInt64.toNat_inj.mp
  have hk := k.toNat_lt
  rw [pack_toNat, high, low, UInt32.toUInt32_toInt32, UInt32.toUInt32_toInt32, UInt64.toNat_toUInt32,
    UInt64.toNat_toUInt32, UInt64.toNat_shiftRight, show (32 : UInt64).toNat % 64 = 32 from rfl,
    Nat.shiftRight_eq_div_pow]
  omega

@[simp] theorem pack_inj (hi lo hi' lo' : Int32) : pack hi lo = pack hi' lo' ↔ hi = hi' ∧ lo = lo' := by
  constructor
  · intro h
    exact ⟨by simpa using congrArg high h, by simpa using congrArg low h⟩
  · rintro ⟨rfl, rfl⟩
    rfl

end Packing
