import Mathlib.Data.Int.ModEq
import Mathlib.Data.List.Basic
import Mathlib.Data.Nat.Bitwise
import Mathlib.Tactic.Ring

/-!
# FNV-1a on 64 bits

A byte is xored into the low end of the hash, which is then multiplied by the prime. The prime is odd, so a
step loses nothing of the hash before it. It is also `2 ^ 40 + 435`, and that keeps apart any two texts that
differ only in four bytes next to each other.
-/
namespace Fnv

def prime : UInt64 := 0x100000001b3

def step (h : UInt64) (b : UInt8) : UInt64 := (h ^^^ b.toUInt64) * prime

def mix (h : UInt64) (bytes : List UInt8) : UInt64 := bytes.foldl step h

@[simp] theorem mix_nil (h : UInt64) : mix h [] = h := rfl

@[simp] theorem mix_cons (h : UInt64) (b : UInt8) (bytes : List UInt8) : mix h (b :: bytes) = mix (step h b) bytes :=
  rfl

theorem mix_append (h : UInt64) (xs ys : List UInt8) : mix h (xs ++ ys) = mix (mix h xs) ys := List.foldl_append

/-! ## A step is a bijection -/

/-- The inverse of the prime. -/
def inverse : UInt64 := 0xce965057aff6957b

theorem mul_prime_inj {h h' : UInt64} (he : h * prime = h' * prime) : h = h' := by
  have hone : prime * inverse = 1 := by decide
  calc h = h * prime * inverse := by rw [UInt64.mul_assoc, hone, UInt64.mul_one]
    _ = h' * prime * inverse := by rw [he]
    _ = h' := by rw [UInt64.mul_assoc, hone, UInt64.mul_one]

theorem step_left_inj {h h' : UInt64} {b : UInt8} (he : step h b = step h' b) : h = h' :=
  (UInt64.xor_left_inj _).mp (mul_prime_inj he)

/-- What follows never brings two hashes together. -/
theorem mix_left_inj {h h' : UInt64} {bytes : List UInt8} : mix h bytes = mix h' bytes ↔ h = h' := by
  refine ⟨fun he => ?_, fun he => by rw [he]⟩
  induction bytes generalizing h h' with
  | nil => exact he
  | cons b bytes ih => exact step_left_inj (ih he)

/-! ## Four bytes -/

/-- What xoring a byte in adds to the hash. -/
def shift (h : UInt64) (b : UInt8) : Int := (h ^^^ b.toUInt64).toNat - h.toNat

theorem shift_bounds (h : UInt64) (b : UInt8) : -255 ≤ shift h b ∧ shift h b ≤ 255 := by
  -- only the low eight bits change
  have hb : b.toNat / 2 ^ 8 = 0 := Nat.div_eq_of_lt b.toNat_lt
  have hhigh : (h.toNat ^^^ b.toNat) / 2 ^ 8 = h.toNat / 2 ^ 8 := by
    rw [Nat.xor_div_two_pow, hb, Nat.xor_zero]
  rw [shift, UInt64.toNat_xor, UInt8.toNat_toUInt64]
  omega

theorem shift_inj {h : UInt64} {b c : UInt8} (he : shift h b = shift h c) : b = c := by
  have hxor : h ^^^ b.toUInt64 = h ^^^ c.toUInt64 := by
    rw [shift, shift] at he
    exact UInt64.toNat_inj.mp (by omega)
  have hwide := congrArg UInt64.toUInt8 ((UInt64.xor_right_inj h).mp hxor)
  simpa using hwide

theorem step_modEq (h : UInt64) (b : UInt8) :
    ((step h b).toNat : Int) ≡ (h.toNat + shift h b) * 0x100000001b3 [ZMOD 2 ^ 64] := by
  have hsum : (h.toNat : Int) + shift h b = ((h ^^^ b.toUInt64).toNat : Int) := by
    rw [shift]
    omega
  rw [step, UInt64.toNat_mul, hsum, show prime.toNat = 0x100000001b3 from rfl, Int.natCast_mod, Int.natCast_mul]
  exact Int.mod_modEq _ _

/-- How far two hashes are apart, before and after a byte each. -/
theorem gap_step {h h' : UInt64} {g : Int} (hg : (h.toNat : Int) - h'.toNat ≡ g [ZMOD 2 ^ 64]) (b c : UInt8) :
    ((step h b).toNat : Int) - (step h' c).toNat ≡ (g + (shift h b - shift h' c)) * 0x100000001b3 [ZMOD 2 ^ 64] :=
  calc ((step h b).toNat : Int) - (step h' c).toNat
      ≡ (h.toNat + shift h b) * 0x100000001b3 - (h'.toNat + shift h' c) * 0x100000001b3 [ZMOD 2 ^ 64] :=
        (step_modEq h b).sub (step_modEq h' c)
    _ = ((h.toNat - h'.toNat : Int) + (shift h b - shift h' c)) * 0x100000001b3 := by ring
    _ ≡ (g + (shift h b - shift h' c)) * 0x100000001b3 [ZMOD 2 ^ 64] := (hg.add_right _).mul_right _

/-- Four small numbers, weighted with powers of the prime, do not add up to a multiple of `2 ^ 64`: the low
40 bits and the high 24 would both have to vanish. -/
theorem weights_eq_zero {a b c d : Int} (ha : -510 ≤ a ∧ a ≤ 510) (hb : -510 ≤ b ∧ b ≤ 510)
    (hc : -510 ≤ c ∧ c ≤ 510) (hd : -510 ≤ d ∧ d ≤ 510)
    (h : ((a * 0x100000001b3 + b) * 0x100000001b3 + c) * 0x100000001b3 + d ≡ 0 [ZMOD 2 ^ 64]) :
    a = 0 ∧ b = 0 ∧ c = 0 ∧ d = 0 := by
  obtain ⟨k, hk⟩ := (Int.modEq_zero_iff_dvd).mp h
  have hlow : ((a * 435 + b) * 435 + c) * 435 + d = 0 := by omega
  have hhigh : ∃ m : Int, (a * 3 * 435 + b * 2) * 435 + c = 2 ^ 24 * m := by
    refine ⟨k - (a * (2 ^ 56 + 3 * 435 * 2 ^ 16) + b * 2 ^ 16), ?_⟩
    omega
  obtain ⟨m, hm⟩ := hhigh
  have hthird : -1 ≤ (a * 435 + b) * 435 + c ∧ (a * 435 + b) * 435 + c ≤ 1 := by omega
  have hsecond : -1 ≤ a * 435 + b ∧ a * 435 + b ≤ 1 := by omega
  have hfirst : -1 ≤ a ∧ a ≤ 1 := by omega
  have hzero : m = 0 := by omega
  omega

theorem cancel_prime {x : Int} (h : 0 ≡ x * 0x100000001b3 [ZMOD 2 ^ 64]) : x ≡ 0 [ZMOD 2 ^ 64] := by
  have hone : (0x100000001b3 * 0xce965057aff6957b : Int) ≡ 1 [ZMOD 2 ^ 64] := by decide
  calc x = x * 1 := (mul_one x).symm
    _ ≡ x * (0x100000001b3 * 0xce965057aff6957b) [ZMOD 2 ^ 64] := hone.symm.mul_left x
    _ = x * 0x100000001b3 * 0xce965057aff6957b := by ring
    _ ≡ 0 * 0xce965057aff6957b [ZMOD 2 ^ 64] := h.symm.mul_right _
    _ = 0 := zero_mul _

theorem shift_sub_bounds (h h' : UInt64) (b c : UInt8) :
    -510 ≤ shift h b - shift h' c ∧ shift h b - shift h' c ≤ 510 := by
  have hb := shift_bounds h b
  have hc := shift_bounds h' c
  omega

/-- Two texts of four bytes are told apart, whatever came before. -/
theorem mix_four_inj {h : UInt64} {a b c d a' b' c' d' : UInt8} (he : mix h [a, b, c, d] = mix h [a', b', c', d']) :
    [a, b, c, d] = [a', b', c', d'] := by
  simp only [mix_cons, mix_nil] at he
  have hstart : (h.toNat : Int) - h.toNat ≡ 0 [ZMOD 2 ^ 64] := by rw [sub_self]
  have hgap := gap_step (gap_step (gap_step (gap_step hstart a a') b b') c c') d d'
  rw [he, sub_self, zero_add] at hgap
  obtain ⟨ha, hb, hc, hd⟩ := weights_eq_zero (shift_sub_bounds _ _ _ _) (shift_sub_bounds _ _ _ _)
    (shift_sub_bounds _ _ _ _) (shift_sub_bounds _ _ _ _) (cancel_prime hgap)
  -- byte by byte, from one hash each time
  obtain rfl := shift_inj (sub_eq_zero.mp ha)
  obtain rfl := shift_inj (sub_eq_zero.mp hb)
  obtain rfl := shift_inj (sub_eq_zero.mp hc)
  obtain rfl := shift_inj (sub_eq_zero.mp hd)
  rfl

/-- Texts of one length that differ only in a stretch of at most four bytes never share a hash. -/
theorem mix_window {xs ys : List UInt8} (hlen : xs.length = ys.length) (hfour : xs.length ≤ 4) (h : UInt64)
    (before after : List UInt8) :
    mix h (before ++ xs ++ after) = mix h (before ++ ys ++ after) ↔ xs = ys := by
  rw [mix_append, mix_append, mix_append, mix_append, mix_left_inj]
  refine ⟨fun he => ?_, fun he => by rw [he]⟩
  -- filled up to four bytes with the same ones
  have hpadded : mix (mix h before) (xs ++ List.replicate (4 - xs.length) 0)
      = mix (mix h before) (ys ++ List.replicate (4 - xs.length) 0) := by
    rw [mix_append, mix_append, he]
  have hfull (l : List UInt8) (hl : l.length = xs.length) : ∃ a b c d,
      l ++ List.replicate (4 - xs.length) 0 = [a, b, c, d] :=
    List.length_eq_four.mp (by rw [List.length_append, List.length_replicate]; omega)
  obtain ⟨a, b, c, d, hx⟩ := hfull xs rfl
  obtain ⟨a', b', c', d', hy⟩ := hfull ys hlen.symm
  rw [hx, hy] at hpadded
  have hsame := mix_four_inj hpadded
  rw [← hx, ← hy] at hsame
  exact List.append_cancel_right hsame

end Fnv
