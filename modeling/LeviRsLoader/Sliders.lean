import Mathlib.Data.Rat.Floor
import LeviRsLoader.Lib.Rounding

/-!
# Sliders

`normalizeSlider` of `Forms.cpp`. The client drops a whole form over one slider
whose default lies outside its bounds or whose range is not a whole number of
steps. A double is modelled by the rational it stands for.
-/
namespace Sliders

open Rounding

structure Slider where
  mn : Rat
  mx : Rat
  step : Rat
  dflt : Rat
  deriving DecidableEq, Repr

/-- `1e-9`: the part of a step the range may fall short, and how far the default
may move unreported. -/
def slack : Rat := 1 / 1000000000

namespace Slider

/-- `if (!(mn <= mx)) std::swap(mn, mx);` -/
def ordered (s : Slider) : Slider := if ¬s.mn ≤ s.mx then { s with mn := s.mx, mx := s.mn } else s

/-- `if (!(step > 0.0)) step = 0.0;` -/
def stepped (s : Slider) : Slider := if ¬0 < s.step then { s with step := 0 } else s

/-- The step and the range made to fit each other. -/
def fitted (s : Slider) : Slider :=
  if 0 < s.step then
    let span := s.mx - s.mn
    if span < s.step then
      -- the step is larger than the range: one step is left
      { s with step := if 0 < span then span else 0 }
    else
      -- the last value on a step point
      let steps := ⌊span / s.step + slack⌋
      { s with mx := s.mn + steps * s.step }
  else s

def snapped (s : Slider) : Slider :=
  let dflt := clamp s.dflt s.mn s.mx
  if 0 < s.step then
    let k := roundAway ((dflt - s.mn) / s.step)
    { s with dflt := clamp (s.mn + k * s.step) s.mn s.mx }
  else { s with dflt := dflt }

end Slider

def normalizeSlider (s : Slider) : Slider := s.ordered.stepped.fitted.snapped

/-- What the warning names. -/
structure Adjusted where
  name : List UInt8
  before : Rat
  mn : Rat
  mx : Rat
  dflt : Rat
  deriving DecidableEq

def adjusted (name : List UInt8) (s : Slider) : Option Adjusted :=
  let t := normalizeSlider s
  if slack < |s.dflt - t.dflt| then some ⟨name, s.dflt, t.mn, t.mx, t.dflt⟩ else none

/-- The branch `slider` of `sendCustom`; `num` is the number under a key, if there is one. -/
def sliderOf (num : String → Option Rat) : Slider :=
  let mn := (num "min").getD 0
  { mn
    mx := (num "max").getD 100
    step := (num "step").getD 0
    dflt := (num "default").getD mn }

/-! ## What the client accepts -/

namespace Slider

/-- A value the slider can stand at. -/
def Admits (s : Slider) (y : Rat) : Prop :=
  s.mn ≤ y ∧ y ≤ s.mx ∧ (0 < s.step → ∃ k : ℤ, y - s.mn = k * s.step)

structure Normalised (s : Slider) : Prop where
  dflt : s.Admits s.dflt
  mx : s.Admits s.mx
  step : 0 ≤ s.step ∧ s.step ≤ s.mx - s.mn

end Slider

/-! ## The stages -/

theorem slack_pos : 0 < slack := by norm_num [slack]

theorem slack_lt_one : slack < 1 := by norm_num [slack]

/-- The number of steps kept is the greatest that fits. -/
theorem isGreatest_steps (span : Rat) {step : Rat} (h : 0 < step) :
    IsGreatest {k : ℤ | k * step ≤ span + slack * step} ⌊span / step + slack⌋ := by
  have hmem : ∀ k : ℤ, k * step ≤ span + slack * step ↔ k ≤ ⌊span / step + slack⌋ := by
    intro k
    have hdiv : span / step + slack = (span + slack * step) / step := by
      rw [add_div, mul_div_cancel_right₀ _ h.ne']
    rw [Int.le_floor, hdiv, le_div_iff₀ h]
  exact ⟨(hmem _).mpr (le_refl _), fun k hk => (hmem k).mp hk⟩

namespace Slider

variable (s : Slider)

theorem ordered_eq : s.ordered = { s with mn := min s.mn s.mx, mx := max s.mn s.mx } := by
  unfold ordered
  split
  · next h =>
    have hle := (not_le.mp h).le
    rw [min_eq_right hle, max_eq_left hle]
  · next h =>
    have hle := not_not.mp h
    rw [min_eq_left hle, max_eq_right hle]

theorem stepped_eq : s.stepped = { s with step := max s.step 0 } := by
  unfold stepped
  split
  · next h => rw [max_eq_right (not_lt.mp h)]
  · next h => rw [max_eq_left (not_not.mp h).le]

variable {s}

/-- All that fitting can do: nothing without a step, else one step or whole steps. -/
theorem fitted_cases (hs : 0 ≤ s.step) (hr : s.mn ≤ s.mx) :
    (s.step = 0 ∧ s.fitted = s) ∨
    (s.mx - s.mn < s.step ∧ s.fitted = { s with step := s.mx - s.mn }) ∨
    (0 < s.step ∧ s.step ≤ s.mx - s.mn ∧ ∃ n : ℤ, 1 ≤ n ∧
      IsGreatest {k : ℤ | k * s.step ≤ s.mx - s.mn + slack * s.step} n ∧
      s.fitted = { s with mx := s.mn + n * s.step }) := by
  rcases hs.eq_or_lt with hzero | hpos
  · exact .inl ⟨hzero.symm, by rw [fitted, if_neg hzero.not_lt]⟩
  · by_cases hspan : s.mx - s.mn < s.step
    · refine .inr (.inl ⟨hspan, ?_⟩)
      have hstep : (if 0 < s.mx - s.mn then s.mx - s.mn else 0) = s.mx - s.mn := by
        split
        · rfl
        · next h => exact le_antisymm (sub_nonneg.mpr hr) (not_lt.mp h)
      simp only [fitted, if_pos hpos, if_pos hspan, hstep]
    · have hle := not_lt.mp hspan
      have hg := isGreatest_steps (s.mx - s.mn) hpos
      refine .inr (.inr ⟨hpos, hle, _, hg.2 ?_, hg, by simp only [fitted, if_pos hpos, if_neg hspan]⟩)
      have := mul_pos slack_pos hpos
      show ((1 : ℤ) : Rat) * s.step ≤ s.mx - s.mn + slack * s.step
      rw [Int.cast_one, one_mul]
      linarith

/-- Bounds that fit the step, whatever the default. -/
structure Fitted (s : Slider) : Prop where
  mx : s.Admits s.mx
  step : 0 ≤ s.step ∧ s.step ≤ s.mx - s.mn

theorem Fitted.le (h : s.Fitted) : s.mn ≤ s.mx := by
  obtain ⟨h₁, h₂⟩ := h.step
  linarith

theorem fitted_fitted (hs : 0 ≤ s.step) (hr : s.mn ≤ s.mx) : s.fitted.Fitted := by
  rcases fitted_cases hs hr with ⟨hzero, heq⟩ | ⟨_, heq⟩ | ⟨hpos, hle, n, hn, _, heq⟩
  · rw [heq]
    refine ⟨⟨hr, le_refl _, fun h => absurd hzero h.ne'⟩, hs, ?_⟩
    rw [hzero]
    exact sub_nonneg.mpr hr
  · rw [heq]
    exact ⟨⟨hr, le_refl _, fun _ => ⟨1, by rw [Int.cast_one, one_mul]⟩⟩, sub_nonneg.mpr hr, le_refl _⟩
  · rw [heq]
    have hn' : s.step ≤ n * s.step := by
      have h₁ : (1 : Rat) ≤ n := by exact_mod_cast hn
      exact le_mul_of_one_le_left hs h₁
    refine ⟨⟨?_, le_refl _, fun _ => ⟨n, add_sub_cancel_left _ _⟩⟩, hs, ?_⟩
    · show s.mn ≤ s.mn + n * s.step
      linarith
    · show s.step ≤ s.mn + n * s.step - s.mn
      linarith

/-- A default rounded to a step point stays in bounds, which end on one. -/
theorem Fitted.snap_mem (h : s.Fitted) (hpos : 0 < s.step) (x : Rat) :
    s.Admits (snap (clamp x s.mn s.mx) s.mn s.step) := by
  obtain ⟨n, hn⟩ := h.mx.2.2 hpos
  have hmx : s.mx = s.mn + n * s.step := by rw [← hn]; ring
  refine ⟨le_snap hpos (le_clamp h.le), ?_, fun _ => ⟨_, add_sub_cancel_left _ _⟩⟩
  have hc := clamp_le (x := x) h.le
  rw [hmx] at hc ⊢
  exact snap_le hpos hc

/-- So the second clamp of the default does nothing. -/
theorem Fitted.snapped_of_pos (h : s.Fitted) (hpos : 0 < s.step) :
    s.snapped = { s with dflt := snap (clamp s.dflt s.mn s.mx) s.mn s.step } := by
  obtain ⟨hlo, hhi, _⟩ := h.snap_mem hpos s.dflt
  simp only [snapped, if_pos hpos]
  congr 1
  exact clamp_of_mem hlo hhi

theorem snapped_of_zero (hzero : s.step = 0) : s.snapped = { s with dflt := clamp s.dflt s.mn s.mx } := by
  simp only [snapped, hzero, lt_self_iff_false, if_false]

theorem Fitted.normalised_snapped (h : s.Fitted) : s.snapped.Normalised := by
  rcases h.step.1.eq_or_lt with hzero | hpos
  · rw [snapped_of_zero hzero.symm]
    exact ⟨⟨le_clamp h.le, clamp_le h.le, fun hp => absurd hzero hp.ne⟩, h.mx, h.step⟩
  · rw [h.snapped_of_pos hpos]
    exact ⟨h.snap_mem hpos s.dflt, h.mx, h.step⟩

@[simp] theorem snapped_mn (s : Slider) : s.snapped.mn = s.mn := by unfold snapped; split <;> rfl

@[simp] theorem snapped_mx (s : Slider) : s.snapped.mx = s.mx := by unfold snapped; split <;> rfl

@[simp] theorem snapped_step (s : Slider) : s.snapped.step = s.step := by unfold snapped; split <;> rfl

/-- How the default moves: into the bounds, then to the step point nearest to that. -/
theorem Fitted.default_moves (h : s.Fitted) :
    let t := s.snapped
    let c := clamp s.dflt t.mn t.mx
    (t.step = 0 → t.dflt = c) ∧ (0 < t.step → ∀ k : ℤ, |t.dflt - c| ≤ |t.mn + k * t.step - c|) := by
  simp only [snapped_mn, snapped_mx, snapped_step]
  constructor
  · intro hzero
    rw [snapped_of_zero hzero]
  · intro hpos k
    rw [h.snapped_of_pos hpos]
    exact snap_nearest hpos k

/-- No value the slider can stand at is nearer to the default it was given. -/
theorem Fitted.default_nearest (h : s.Fitted) {y : Rat} (hy : s.snapped.Admits y) :
    |s.snapped.dflt - s.dflt| ≤ |y - s.dflt| := by
  have hn := h.normalised_snapped
  rw [abs_sub_eq_clamp hy.1 hy.2.1, abs_sub_eq_clamp hn.dflt.1 hn.dflt.2.1]
  refine add_le_add ?_ (le_refl _)
  rcases hn.step.1.eq_or_lt with hzero | hpos
  · rw [h.default_moves.1 hzero.symm, sub_self, abs_zero]
    exact abs_nonneg _
  · obtain ⟨k, hk⟩ := hy.2.2 hpos
    have hgrid : y = s.snapped.mn + k * s.snapped.step := by rw [← hk]; ring
    rw [hgrid]
    exact h.default_moves.2 hpos k

end Slider

/-! ## The whole -/

section
variable (s : Slider)

theorem fitted_ordered_stepped : s.ordered.stepped.fitted.Fitted := by
  apply Slider.fitted_fitted
  · rw [Slider.stepped_eq]
    exact le_max_right _ _
  · rw [Slider.stepped_eq, Slider.ordered_eq]
    exact min_le_max

theorem dflt_fitted : s.ordered.stepped.fitted.dflt = s.dflt := by
  unfold Slider.fitted
  rw [Slider.stepped_eq, Slider.ordered_eq]
  split
  · dsimp only
    split <;> rfl
  · rfl

theorem normalizeSlider_normalised : (normalizeSlider s).Normalised := (fitted_ordered_stepped s).normalised_snapped

/-- Whatever a mod sends, the form gets a slider the client can show. -/
theorem sliderOf_normalised (num : String → Option Rat) : (normalizeSlider (sliderOf num)).Normalised :=
  normalizeSlider_normalised _

end

/-- A whole number of steps is not cut short. -/
theorem floor_steps {step : Rat} (h : 0 < step) (n : ℤ) : ⌊n * step / step + slack⌋ = n := by
  rw [mul_div_cancel_right₀ _ h.ne', Int.floor_intCast_add, Int.floor_eq_zero_iff.mpr ⟨slack_pos.le, slack_lt_one⟩,
    add_zero]

theorem Slider.Normalised.fitted_eq {s : Slider} (h : s.Normalised) : s.fitted = s := by
  unfold Slider.fitted
  split
  · next hpos =>
    obtain ⟨n, hn⟩ := h.mx.2.2 hpos
    have hmx : s.mn + n * s.step = s.mx := by rw [← hn]; ring
    simp only [if_neg (not_lt.mpr h.step.2)]
    rw [hn, floor_steps hpos, hmx]
  · rfl

theorem Slider.Normalised.snapped_eq {s : Slider} (h : s.Normalised) : s.snapped = s := by
  have hf : s.Fitted := ⟨h.mx, h.step⟩
  have hc : clamp s.dflt s.mn s.mx = s.dflt := clamp_of_mem h.dflt.1 h.dflt.2.1
  rcases h.step.1.eq_or_lt with hzero | hpos
  · rw [Slider.snapped_of_zero hzero.symm, hc]
  · obtain ⟨k, hk⟩ := h.dflt.2.2 hpos
    have hgrid : s.dflt = s.mn + k * s.step := by rw [← hk]; ring
    rw [hf.snapped_of_pos hpos, hc]
    conv_lhs => rw [hgrid, snap_grid hpos, ← hgrid]

theorem Slider.Normalised.normalizeSlider_eq {s : Slider} (h : s.Normalised) : normalizeSlider s = s := by
  have hle : s.mn ≤ s.mx := h.dflt.1.trans h.dflt.2.1
  have ho : s.ordered = s := by rw [Slider.ordered, if_neg (not_not.mpr hle)]
  have hs : s.stepped = s := by rw [Slider.stepped_eq, max_eq_left h.step.1]
  rw [normalizeSlider, ho, hs, h.fitted_eq, h.snapped_eq]

/-- The sliders left alone are those that fit already. -/
theorem normalizeSlider_eq_self_iff (s : Slider) : normalizeSlider s = s ↔ s.Normalised := by
  constructor
  · intro h
    rw [← h]
    exact normalizeSlider_normalised s
  · exact fun h => h.normalizeSlider_eq

theorem adjusted_of_normalised (name : List UInt8) {s : Slider} (h : s.Normalised) : adjusted name s = none := by
  have hslack : ¬slack < |s.dflt - s.dflt| := by
    rw [sub_self, abs_zero]
    exact slack_pos.not_gt
  simp only [adjusted, h.normalizeSlider_eq, if_neg hslack]

/-! ## What normalising does -/

/-- A step that fits is kept, over the whole steps of the given range. -/
theorem normalizeSlider_of_fits (s : Slider) (hpos : 0 < s.step) (hle : s.step ≤ |s.mx - s.mn|) :
    (normalizeSlider s).mn = min s.mn s.mx ∧ (normalizeSlider s).step = s.step ∧
      ∃ n : ℤ, (normalizeSlider s).mx = (normalizeSlider s).mn + n * s.step ∧
        IsGreatest {k : ℤ | k * s.step ≤ |s.mx - s.mn| + slack * s.step} n := by
  have hspan : max s.mn s.mx - min s.mn s.mx = |s.mx - s.mn| := by rw [max_sub_min_eq_abs]
  have hst : s.ordered.stepped = ⟨min s.mn s.mx, max s.mn s.mx, s.step, s.dflt⟩ := by
    rw [Slider.stepped_eq, Slider.ordered_eq, max_eq_left hpos.le]
  rw [normalizeSlider, Slider.snapped_mn, Slider.snapped_mx, Slider.snapped_step, hst]
  rcases Slider.fitted_cases (s := ⟨min s.mn s.mx, max s.mn s.mx, s.step, s.dflt⟩) hpos.le min_le_max with
    ⟨hzero, _⟩ | ⟨hspan', _⟩ | ⟨_, _, n, _, hg, heq⟩
  · exact absurd hzero hpos.ne'
  · rw [hspan] at hspan'
    exact absurd hle (not_le.mpr hspan')
  · rw [heq]
    rw [hspan] at hg
    exact ⟨rfl, rfl, n, rfl, hg⟩

/-- For every slider: what comes out is in bounds and on whole steps, a step that
fits is kept, the default is as near as the result allows, and a second run
changes nothing. -/
theorem normalizeSlider_sound (s : Slider) :
    let t := normalizeSlider s
    let c := clamp s.dflt t.mn t.mx
    (t.mn ≤ t.dflt ∧ t.dflt ≤ t.mx ∧ 0 ≤ t.step) ∧
      (0 < t.step → (∃ n : ℤ, t.mx - t.mn = n * t.step) ∧ ∃ k : ℤ, t.dflt - t.mn = k * t.step) ∧
      (0 < s.step → s.step ≤ |s.mx - s.mn| → t.mn = min s.mn s.mx ∧ t.step = s.step ∧
        ∃ n : ℤ, t.mx = t.mn + n * s.step ∧ IsGreatest {k : ℤ | k * s.step ≤ |s.mx - s.mn| + slack * s.step} n) ∧
      (t.step = 0 → t.dflt = c) ∧
      (0 < t.step → ∀ k : ℤ, |t.dflt - c| ≤ |t.mn + k * t.step - c|) ∧
      (∀ y, t.Admits y → |t.dflt - s.dflt| ≤ |y - s.dflt|) ∧
      normalizeSlider t = t := by
  have hn := normalizeSlider_normalised s
  have hf := fitted_ordered_stepped s
  have hmoves := hf.default_moves
  have hnearest := fun y => hf.default_nearest (y := y)
  rw [dflt_fitted] at hmoves hnearest
  exact ⟨⟨hn.dflt.1, hn.dflt.2.1, hn.step.1⟩, fun hpos => ⟨hn.mx.2.2 hpos, hn.dflt.2.2 hpos⟩,
    normalizeSlider_of_fits s, hmoves.1, hmoves.2, hnearest, hn.normalizeSlider_eq⟩

example : normalizeSlider ⟨10, 0, 3, 5⟩ = ⟨0, 9, 3, 6⟩ := by decide +kernel

end Sliders
