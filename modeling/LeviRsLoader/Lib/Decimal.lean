import Mathlib.Data.List.Basic

/-!
# Signed decimal numerals

Printing an integer in base ten, and reading one back the way a fixed-width
`parse` does: an optional sign, at least one digit, nothing else, and a range
check.
-/
namespace Decimal

def print (v : Int) : List Char :=
  if v < 0 then '-' :: Nat.toDigits 10 v.natAbs else Nat.toDigits 10 v.natAbs

def parseNat (t : List Char) : Option Nat :=
  if !t.isEmpty && t.all Char.isDigit then some (Nat.ofDigitChars 10 t 0) else none

/-- The numeral's value, without a range check. -/
def parseInt : List Char → Option Int
  | '-' :: t => (parseNat t).map fun n : Nat => -Int.ofNat n
  | '+' :: t => (parseNat t).map Int.ofNat
  | t => (parseNat t).map Int.ofNat

/-- The numeral's value if it lies between `lo` and `hi`. -/
def parse (lo hi : Int) (t : List Char) : Option Int :=
  (parseInt t).filter fun v => decide (lo ≤ v ∧ v ≤ hi)

theorem parseNat_toDigits (n : Nat) : parseNat (Nat.toDigits 10 n) = some n := by
  have hd : (Nat.toDigits 10 n).all Char.isDigit = true := by
    rw [List.all_eq_true]
    intro c hc
    exact Nat.isDigit_of_mem_toDigits (by decide) (by decide) hc
  simp [parseNat, hd, Nat.toDigits_ne_nil, Nat.ofDigitChars_ten_toDigits]

/-- The first digit is a digit, so it is no sign. -/
theorem toDigits_cons (n : Nat) : ∃ c t, Nat.toDigits 10 n = c :: t ∧ c.isDigit = true := by
  obtain ⟨c, t, h⟩ := List.exists_cons_of_ne_nil (Nat.toDigits_ne_nil (n := n) (b := 10))
  exact ⟨c, t, h, Nat.isDigit_of_mem_toDigits (by decide) (by decide) ((h ▸ List.mem_cons_self))⟩

theorem parseInt_print (v : Int) : parseInt (print v) = some v := by
  by_cases h : v < 0
  · simp only [print, h, if_true, parseInt, parseNat_toDigits, Option.map_some, Option.some.injEq, Int.ofNat_eq_natCast]
    omega
  · obtain ⟨c, t, hc, hd⟩ := toDigits_cons v.natAbs
    have hp : parseInt (c :: t) = (parseNat (c :: t)).map Int.ofNat := by
      unfold parseInt
      split
      · simp_all
      · simp_all
      · rfl
    simp only [print, h, if_false]
    rw [hc, hp, ← hc, parseNat_toDigits, Option.map_some, Option.some.injEq, Int.ofNat_eq_natCast]
    omega

theorem parse_print (lo hi : Int) {v : Int} (hl : lo ≤ v) (hh : v ≤ hi) : parse lo hi (print v) = some v := by
  simp [parse, parseInt_print, hl, hh]

/-- A printed numeral consists of digits and at most a leading minus sign. -/
theorem mem_print {v : Int} {c : Char} (h : c ∈ print v) : c = '-' ∨ c.isDigit = true := by
  by_cases hv : v < 0
  · simp only [print, hv, if_true, List.mem_cons] at h
    rcases h with rfl | h
    · exact .inl rfl
    · exact .inr (Nat.isDigit_of_mem_toDigits (by decide) (by decide) h)
  · simp only [print, hv, if_false] at h
    exact .inr (Nat.isDigit_of_mem_toDigits (by decide) (by decide) h)

theorem exists_digit_print (v : Int) : ∃ c ∈ print v, c.isDigit = true := by
  obtain ⟨c, t, hc, hd⟩ := toDigits_cons v.natAbs
  refine ⟨c, ?_, hd⟩
  by_cases hv : v < 0 <;> simp [print, hv, hc]

theorem print_ne_nil (v : Int) : print v ≠ [] := by
  obtain ⟨c, hc, -⟩ := exists_digit_print v
  exact List.ne_nil_of_mem hc

/-- The last character of a printed numeral is a digit. -/
theorem getLast_print (v : Int) : ∃ c, (print v).getLast? = some c ∧ c.isDigit = true := by
  obtain ⟨c, t, hc, -⟩ := toDigits_cons v.natAbs
  obtain ⟨d, hd⟩ : ∃ d, (Nat.toDigits 10 v.natAbs).getLast? = some d := by
    rw [hc]
    exact ⟨_, List.getLast?_eq_some_getLast (by simp)⟩
  refine ⟨d, ?_, Nat.isDigit_of_mem_toDigits (by decide) (by decide) (List.mem_of_getLast? hd)⟩
  by_cases hv : v < 0
  · simp only [print, hv, if_true]
    rw [hc] at hd ⊢
    simpa [List.getLast?_cons_cons] using hd
  · simpa only [print, hv, if_false] using hd

end Decimal
