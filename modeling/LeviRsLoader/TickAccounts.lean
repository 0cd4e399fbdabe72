import LeviRsLoader.TickControl
import Mathlib.Algebra.BigOperators.Ring.Finset
import Mathlib.Data.Rat.Floor

/-!
# Tick accounting

How many world ticks a run executes: those the warp factors add up to while the clock runs, and
those the accepted steps ask for while it is frozen. Factor and accumulator are exact here.
-/
namespace TickAccounts

open Runs TickControl

/-- The warp on exact numbers. -/
def exact : Doubles Rat where
  zero := 0
  one := 1
  add := (· + ·)
  toInt q := q.num.tdiv q.den
  subInt q n := q - n
  inRange q := decide (0 < q) && !decide (100 < q)
  isOne q := q == 1

/-- Turns of the running loop that have not begun. -/
def left (s : State Rat) : Nat :=
  match s.phase with
  | .idle => 0
  | .loop _ n _ => n

/-- World ticks per frame; a frame without the detour is one tick. -/
def factor (s : State Rat) : Rat := if s.tick.hooked then s.tick.warp else 1

/-- Ticks that this step of the run executes. -/
def ticked : Label Rat → Nat
  | .tickBegins => 1
  | _ => 0

/-- World ticks begun in the run. -/
def ticks (tr : List (State Rat × Label Rat)) : Nat := (tr.map fun e => ticked e.2).sum

/-- The factor in force when a frame begins. -/
def inForce (s : State Rat) : Label Rat → Rat
  | .frameBegins => factor s
  | _ => 0

/-- The factors in force at the frames of the run. -/
def factors (tr : List (State Rat × Label Rat)) : Rat := (tr.map fun e => inForce e.1 e.2).sum

/-- Steps that the call adds. -/
def acceptedBy (s : State Rat) : Label Rat → Nat
  | .step n => if (api_tick_step n s.tick).1 then n.toNat else 0
  | _ => 0

/-- Steps accepted in the run. -/
def accepted (tr : List (State Rat × Label Rat)) : Nat := (tr.map fun e => acceptedBy e.1 e.2).sum

/-- Frames begin with the clock running, and no call sets the warp back to one. -/
def Running (s : State Rat) : Label Rat → Prop
  | .frameBegins => s.tick.frozen = false
  | .warp installs f => (api_tick_warp exact installs f s.tick).1 = true → f ≠ 1
  | _ => True

/-- No call lets the clock run. -/
def StaysFrozen (_ : State Rat) : Label Rat → Prop
  | .freeze _ on => on = true
  | _ => True

/-- An accepted call finds room in the counter. -/
def Fits (s : State Rat) : Label Rat → Prop
  | .step n => (api_tick_step n s.tick).1 = true → s.tick.pendingSteps.toNat + n.toNat < 4294967296
  | _ => True

/-- What holds of the hook's variables at any time. -/
structure Kept (st : TickState Rat) : Prop where
  acc : 0 ≤ st.acc ∧ st.acc < 1
  warp : 0 < st.warp
  hooked : st.frozen = true → st.hooked = true

/-! ## The calls -/

theorem exact_toInt {q : Rat} (h : 0 ≤ q) : exact.toInt q = ⌊q⌋ := by
  show q.num.tdiv q.den = ⌊q⌋
  rw [Int.tdiv_eq_ediv_of_nonneg (Rat.num_nonneg.mpr h), Rat.floor_def']

theorem exact_isOne (q : Rat) : exact.isOne q = true ↔ q = 1 := beq_iff_eq

/-- A warp that is not refused sets the factor, and clears the accumulator when it is one. -/
theorem warp_cases (installs : Bool) (f : Rat) (st : TickState Rat) :
    (api_tick_warp exact installs f st).2 = st
      ∨ (api_tick_warp exact installs f st) =
          (true, { st with hooked := true, warp := f, acc := if f = 1 then 0 else st.acc }) ∧ 0 < f := by
  have hacc : (if exact.isOne f then { st with hooked := true, warp := f, acc := exact.zero }
      else { st with hooked := true, warp := f }) =
      ({ st with hooked := true, warp := f, acc := if f = 1 then 0 else st.acc } : TickState Rat) := by
    by_cases h1 : f = 1
    · rw [if_pos ((exact_isOne f).mpr h1), if_pos h1]
      rfl
    · rw [if_neg fun h => h1 ((exact_isOne f).mp h), if_neg h1]
  by_cases hrange : exact.inRange f = true
  · have hpos : 0 < f := by
      simp only [exact, Bool.and_eq_true, decide_eq_true_eq] at hrange
      exact hrange.1
    obtain ⟨hooked, frozen, warp, acc, pendingSteps⟩ := st
    cases hooked with
    | true =>
      refine .inr ⟨?_, hpos⟩
      simp only [api_tick_warp, ensureTickHooked, hrange, Bool.not_true, Bool.and_false, Bool.false_eq_true, if_false,
        if_true] at hacc ⊢
      exact congrArg (Prod.mk true) hacc
    | false =>
      by_cases h1 : exact.isOne f = true
      · exact .inl (by simp only [api_tick_warp, hrange, h1, Bool.not_true, Bool.not_false, Bool.and_self,
          Bool.false_eq_true, if_false, if_true])
      · cases installs with
        | false => exact .inl (by simp [api_tick_warp, ensureTickHooked, hrange, h1])
        | true =>
          refine .inr ⟨?_, hpos⟩
          simp only [api_tick_warp, ensureTickHooked, hrange, h1, Bool.not_true, Bool.not_false, Bool.and_true,
            Bool.false_eq_true, if_false, if_true] at hacc ⊢
          exact congrArg (Prod.mk true) hacc
  · exact .inl (by simp only [api_tick_warp, hrange, Bool.not_false, if_true])

theorem Kept.of_warp {st : TickState Rat} (h : Kept st) (installs : Bool) (f : Rat) :
    Kept (api_tick_warp exact installs f st).2 := by
  obtain he | ⟨he, hpos⟩ := warp_cases installs f st
  · rwa [he]
  · rw [he]
    refine ⟨?_, hpos, fun _ => rfl⟩
    dsimp only
    split_ifs
    · exact ⟨le_refl 0, zero_lt_one⟩
    · exact h.acc

theorem Kept.of_freeze {st : TickState Rat} (h : Kept st) (installs on : Bool) :
    Kept (api_tick_freeze installs on st).2 := by
  obtain ⟨-, -, he⟩ | ⟨-, he⟩ | he := api_tick_freeze_cases installs on st
  · rwa [he]
  · rwa [he]
  · rw [he]
    exact ⟨h.acc, h.warp, fun _ => rfl⟩

theorem Kept.of_step {st : TickState Rat} (h : Kept st) (n : UInt32) : Kept (api_tick_step n st).2 := by
  obtain he | ⟨-, -, he⟩ := api_tick_step_cases n st
  · rwa [he]
  · rw [he]
    exact ⟨h.acc, h.warp, h.hooked⟩

/-- The turns of a frame and the accumulator it leaves, while the clock runs. -/
theorem levelTick_running {st : TickState Rat} (h : Kept st) (hf : st.frozen = false) :
    ∃ kind n acc, levelTick exact st = (kind, n, { st with acc := acc }) ∧ kind ≠ .steps ∧ 0 ≤ acc ∧ acc < 1
      ∧ (n : Rat) + acc = st.acc + if st.hooked then st.warp else 1 := by
  have hplain (hone : (if st.hooked then st.warp else 1) = 1) :
      ((1 : Nat) : Rat) + st.acc = st.acc + if st.hooked then st.warp else 1 := by
    rw [hone, Nat.cast_one, add_comm]
  by_cases hh : st.hooked = true
  · by_cases h1 : st.warp = 1
    · have hone : levelTick exact st = (.plain, 1, st) := by
        simp [levelTick, hh, hf, (exact_isOne st.warp).mpr h1]
      exact ⟨.plain, 1, st.acc, hone, by decide, h.acc.1, h.acc.2, hplain (by simp [h1])⟩
    · have hsum : 0 ≤ st.acc + st.warp := add_nonneg h.acc.1 (le_of_lt h.warp)
      have hfloor : 0 ≤ ⌊st.acc + st.warp⌋ := Int.floor_nonneg.mpr hsum
      refine ⟨.warp, ⌊st.acc + st.warp⌋.toNat, st.acc + st.warp - ⌊st.acc + st.warp⌋, ?_, by decide,
        Int.fract_nonneg _, Int.fract_lt_one _, ?_⟩
      · have hne : exact.isOne st.warp = false := Bool.eq_false_iff.mpr fun h => h1 ((exact_isOne st.warp).mp h)
        have hint : exact.toInt (exact.add st.acc st.warp) = ⌊st.acc + st.warp⌋ := exact_toInt hsum
        simp only [levelTick, hh, hf, hne, hint, Bool.not_true, Bool.false_eq_true, if_false]
        rfl
      · have hcast : ((⌊st.acc + st.warp⌋.toNat : Nat) : Rat) = (⌊st.acc + st.warp⌋ : Rat) := by
          exact_mod_cast congrArg (Int.cast : Int → Rat) (Int.toNat_of_nonneg hfloor)
        rw [hcast, if_pos hh]
        exact add_sub_cancel _ _
  · have hone : levelTick exact st = (.plain, 1, st) := by simp [levelTick, hh]
    exact ⟨.plain, 1, st.acc, hone, by decide, h.acc.1, h.acc.2, hplain (by simp [hh])⟩

theorem levelTick_frozen {st : TickState Rat} (h : Kept st) (hf : st.frozen = true) :
    levelTick exact st = (.steps, st.pendingSteps.toNat, { st with pendingSteps := 0 }) := by
  simp [levelTick, h.hooked hf, hf]

/-! ## One step -/

section Step

variable {s t : State Rat} {l : Label Rat}

theorem call_eq {answer : Bool × TickState Rat} {clock : Clock} (hs : s.call answer clock = some t) :
    t.tick = answer.2 ∧ left t = left s := by
  obtain ⟨-, rfl⟩ := open_of_call hs
  exact ⟨rfl, rfl⟩

theorem begin_left (hs : s.begin = some t) : t.tick = s.tick ∧ 1 + left t = left s := by
  obtain ⟨kind, n, hp, rfl⟩ := begin_eq_some hs
  refine ⟨rfl, ?_⟩
  simp only [left, hp]
  exact Nat.add_comm 1 n

theorem Kept.of_any {st : TickState Rat} (h : Kept st) : Kept (levelTick exact st).2.2 := by
  cases hf : st.frozen with
  | false =>
    obtain ⟨kind, n, acc, he, -, hacc, hacc', -⟩ := levelTick_running h hf
    rw [he]
    exact ⟨⟨hacc, hacc'⟩, h.warp, h.hooked⟩
  | true =>
    rw [levelTick_frozen h hf]
    exact ⟨h.acc, h.warp, h.hooked⟩

theorem tickEnds_eq (hs : step exact s .tickEnds = some t) : t.tick = s.tick ∧ left t = left s := by
  simp only [step] at hs
  split at hs
  · next kind n hp =>
    cases hs
    exact ⟨rfl, by simp only [left, hp]⟩
  · cases hs

theorem frameEnds_eq (hs : step exact s .frameEnds = some t) : t.tick = s.tick ∧ left t = left s := by
  simp only [step] at hs
  split at hs
  · next kind hp =>
    cases hs
    exact ⟨rfl, by simp only [left, hp]⟩
  · cases hs

theorem frameBegins_eq (hs : step exact s .frameBegins = some t) :
    left s = 0 ∧ t.tick = (levelTick exact s.tick).2.2 ∧ left t = (levelTick exact s.tick).2.1 := by
  simp only [step] at hs
  split at hs
  · next hp =>
    cases hs
    exact ⟨by simp only [left, hp], rfl, rfl⟩
  · cases hs

theorem Kept.preserved (h : Kept s.tick) (hs : step exact s l = some t) : Kept t.tick := by
  cases l with
  | frameBegins =>
    rw [(frameBegins_eq hs).2.1]
    exact h.of_any
  | tickBegins =>
    rw [(begin_left hs).1]
    exact h
  | tickEnds =>
    rw [(tickEnds_eq hs).1]
    exact h
  | frameEnds =>
    rw [(frameEnds_eq hs).1]
    exact h
  | freeze installs on =>
    rw [(call_eq hs).1]
    exact h.of_freeze installs on
  | step n =>
    rw [(call_eq hs).1]
    exact h.of_step n
  | warp installs f =>
    rw [(call_eq hs).1]
    exact h.of_warp installs f

/-- The balance of a step that neither begins a frame nor executes a tick. -/
theorem running_balance_quiet (hticked : ticked l = 0) (hforce : inForce s l = 0) (hleft : left t = left s)
    (hacc : t.tick.acc = s.tick.acc) :
    (ticked l : Rat) + (left t + t.tick.acc) = left s + s.tick.acc + inForce s l := by
  rw [hticked, hforce, hleft, hacc, Nat.cast_zero, zero_add, add_zero]

/-- While frames begin with the clock running, turns to come and the accumulator together grow by
the factor at a frame, and shrink by the ticks executed. -/
theorem running_balance (h : Kept s.tick) (hG : Running s l) (hs : step exact s l = some t) :
    (ticked l : Rat) + (left t + t.tick.acc) = left s + s.tick.acc + inForce s l := by
  cases l with
  | frameBegins =>
    obtain ⟨hleft, htick, hleft'⟩ := frameBegins_eq hs
    obtain ⟨kind, n, acc, he, -, -, -, hsum⟩ := levelTick_running h hG
    rw [he] at htick hleft'
    have hforce : inForce s .frameBegins = if s.tick.hooked then s.tick.warp else 1 := rfl
    have hticked : ticked .frameBegins = 0 := rfl
    rw [htick, hleft', hleft, hforce, hticked, Nat.cast_zero, zero_add, zero_add]
    exact hsum
  | tickBegins =>
    obtain ⟨htick, hleft⟩ := begin_left hs
    have hforce : inForce s .tickBegins = 0 := rfl
    have hticked : ticked .tickBegins = 1 := rfl
    rw [htick, ← hleft, hforce, hticked, Nat.cast_add, add_zero, add_assoc]
  | tickEnds =>
    obtain ⟨htick, hleft⟩ := tickEnds_eq hs
    exact running_balance_quiet rfl rfl hleft (congrArg TickState.acc htick)
  | frameEnds =>
    obtain ⟨htick, hleft⟩ := frameEnds_eq hs
    exact running_balance_quiet rfl rfl hleft (congrArg TickState.acc htick)
  | freeze installs on =>
    obtain ⟨htick, hleft⟩ := call_eq hs
    refine running_balance_quiet rfl rfl hleft ?_
    rw [htick]
    obtain ⟨-, -, he⟩ | ⟨-, he⟩ | he := api_tick_freeze_cases installs on s.tick <;> rw [he]
  | step n =>
    obtain ⟨htick, hleft⟩ := call_eq hs
    refine running_balance_quiet rfl rfl hleft ?_
    rw [htick]
    obtain he | ⟨-, -, he⟩ := api_tick_step_cases n s.tick <;> rw [he]
  | warp installs f =>
    obtain ⟨htick, hleft⟩ := call_eq hs
    refine running_balance_quiet rfl rfl hleft ?_
    rw [htick]
    obtain he | ⟨he, -⟩ := warp_cases installs f s.tick
    · rw [he]
    · have hne : f ≠ 1 := hG (by rw [he])
      rw [he, if_neg hne]

/-- What the counter drops when an accepted call finds no room. -/
def dropped (s : State Rat) : Label Rat → Nat
  | .step n =>
    if (api_tick_step n s.tick).1 = true ∧ 4294967296 ≤ s.tick.pendingSteps.toNat + n.toNat then 4294967296 else 0
  | _ => 0

theorem dropped_eq_zero_iff (s : State Rat) (l : Label Rat) : dropped s l = 0 ↔ Fits s l := by
  cases l with
  | step n =>
    simp only [dropped, Fits]
    split_ifs with h
    · simp only [h.1, true_implies, false_iff, not_lt]
      exact h.2
    · simp only [true_iff]
      exact fun ha => Nat.lt_of_not_le fun hle => h ⟨ha, hle⟩
  | _ => simp only [dropped, Fits]

/-- What is held while the clock is frozen: turns to come and steps pending. -/
def owed (s : State Rat) : Nat := left s + s.tick.pendingSteps.toNat

theorem frozen_balance_quiet (hticked : ticked l = 0) (hdropped : dropped s l = 0) (haccepted : acceptedBy s l = 0)
    (hleft : left t = left s) (hpending : t.tick.pendingSteps = s.tick.pendingSteps) :
    (ticked l + dropped s l) + owed t = owed s + acceptedBy s l := by
  rw [hticked, hdropped, haccepted, owed, owed, hleft, hpending, Nat.zero_add, Nat.add_zero]

theorem toNat_add_dropped (p n : UInt32) :
    (p + n).toNat + (if 4294967296 ≤ p.toNat + n.toNat then 4294967296 else 0) = p.toNat + n.toNat := by
  have hp := p.toNat_lt
  have hn := n.toNat_lt
  rw [UInt32.toNat_add]
  split_ifs <;> omega

/-- While the clock is frozen, what is owed grows by the steps accepted and shrinks by the ticks
executed and the steps dropped. -/
theorem frozen_balance (h : Kept s.tick) (hf : s.tick.frozen = true) (hG : StaysFrozen s l)
    (hs : step exact s l = some t) :
    t.tick.frozen = true ∧ (ticked l + dropped s l) + owed t = owed s + acceptedBy s l := by
  cases l with
  | frameBegins =>
    obtain ⟨hleft, htick, hleft'⟩ := frameBegins_eq hs
    rw [levelTick_frozen h hf] at htick hleft'
    have hpending : t.tick.pendingSteps.toNat = 0 := by rw [htick]; rfl
    refine ⟨by rw [htick]; exact hf, ?_⟩
    simp only [ticked, dropped, acceptedBy, owed, hleft, hleft', hpending, Nat.zero_add, Nat.add_zero]
  | tickBegins =>
    obtain ⟨htick, hleft⟩ := begin_left hs
    refine ⟨by rw [htick]; exact hf, ?_⟩
    simp only [ticked, dropped, acceptedBy, owed, htick, ← hleft, Nat.add_zero, Nat.add_assoc]
  | tickEnds =>
    obtain ⟨htick, hleft⟩ := tickEnds_eq hs
    exact ⟨by rw [htick]; exact hf, frozen_balance_quiet rfl rfl rfl hleft (congrArg TickState.pendingSteps htick)⟩
  | frameEnds =>
    obtain ⟨htick, hleft⟩ := frameEnds_eq hs
    exact ⟨by rw [htick]; exact hf, frozen_balance_quiet rfl rfl rfl hleft (congrArg TickState.pendingSteps htick)⟩
  | freeze installs on =>
    obtain ⟨htick, hleft⟩ := call_eq hs
    have hon : on = true := hG
    subst hon
    obtain ⟨-, hoff, -⟩ | ⟨-, he⟩ | he := api_tick_freeze_cases installs true s.tick
    · cases hoff
    · rw [he] at htick
      exact ⟨by rw [htick]; exact hf, frozen_balance_quiet rfl rfl rfl hleft (congrArg TickState.pendingSteps htick)⟩
    · rw [he] at htick
      exact ⟨by rw [htick], frozen_balance_quiet rfl rfl rfl hleft (by rw [htick]; rfl)⟩
  | step n =>
    obtain ⟨htick, hleft⟩ := call_eq hs
    obtain he | ⟨-, -, he⟩ := api_tick_step_cases n s.tick
    · rw [he] at htick
      refine ⟨by rw [htick]; exact hf, frozen_balance_quiet rfl ?_ ?_ hleft (congrArg TickState.pendingSteps htick)⟩
      · simp [dropped, he]
      · simp [acceptedBy, he]
    · rw [he] at htick
      refine ⟨by rw [htick]; exact hf, ?_⟩
      have hsum := toNat_add_dropped s.tick.pendingSteps n
      simp only [ticked, dropped, acceptedBy, owed, he, htick, hleft, if_true, true_and]
      omega
  | warp installs f =>
    obtain ⟨htick, hleft⟩ := call_eq hs
    obtain he | ⟨he, -⟩ := warp_cases installs f s.tick
    · rw [he] at htick
      exact ⟨by rw [htick]; exact hf, frozen_balance_quiet rfl rfl rfl hleft (congrArg TickState.pendingSteps htick)⟩
    · rw [he] at htick
      exact ⟨by rw [htick]; exact hf, frozen_balance_quiet rfl rfl rfl hleft (by rw [htick])⟩

end Step

/-! ## Runs -/

section Runs

variable {s u : State Rat} {tr₀ tr : List (State Rat × Label Rat)}

theorem kept_start : Kept (start exact).tick :=
  ⟨⟨le_refl 0, zero_lt_one⟩, zero_lt_one, fun h => (nomatch h)⟩

theorem kept_of_run (h₀ : Run (Steps exact) (start exact) tr₀ s) : Kept s.tick :=
  h₀.invariant' (fun s => Kept s.tick) kept_start fun _ _ _ h hs => h.preserved hs

theorem left_idle (h : s.phase = .idle) : left s = 0 := by simp only [left, h]

theorem cast_ticks (tr : List (State Rat × Label Rat)) :
    (tr.map fun e => (ticked e.2 : Rat)).sum = (ticks tr : Rat) := by
  rw [ticks, Nat.cast_list_sum, List.map_map]
  rfl

/-- While frames begin with the clock running, the ticks are the whole part of what the factors
add up to. -/
theorem ticks_of_running (hk : Kept s.tick) (hidle : s.phase = .idle) (h : Run (Steps exact) s tr u)
    (hG : Meets Running tr) :
    ((ticks tr + left u : Nat) : Int) = ⌊s.tick.acc + factors tr⌋ ∧ 0 ≤ u.tick.acc ∧ u.tick.acc < 1 := by
  obtain ⟨hku, hsum⟩ := h.account (fun s => Kept s.tick) (fun s => (left s : Rat) + s.tick.acc)
    (fun _ l => (ticked l : Rat)) inForce hG hk fun _ _ _ hk hG hs => ⟨hk.preserved hs, running_balance hk hG hs⟩
  rw [cast_ticks, left_idle hidle, Nat.cast_zero, zero_add, ← add_assoc] at hsum
  refine ⟨?_, hku.acc⟩
  have htotal : s.tick.acc + factors tr = ((ticks tr + left u : Nat) : Int) + u.tick.acc := by
    rw [factors, ← hsum, Int.cast_natCast, Nat.cast_add]
  rw [htotal, Int.floor_intCast_add, Int.floor_eq_zero_iff.mpr ⟨hku.acc.1, hku.acc.2⟩, add_zero]

/-- While the clock is frozen, every accepted step is executed or still owed exactly if every
accepted call has found room in the counter. -/
theorem owed_iff_fits (hk : Kept s.tick) (hidle : s.phase = .idle) (hf : s.tick.frozen = true)
    (h : Run (Steps exact) s tr u) (hG : Meets StaysFrozen tr) :
    ticks tr + (left u + u.tick.pendingSteps.toNat) = s.tick.pendingSteps.toNat + accepted tr ↔ Meets Fits tr := by
  obtain ⟨-, hsum⟩ := h.account (fun s => Kept s.tick ∧ s.tick.frozen = true) owed
    (fun s l => ticked l + dropped s l) acceptedBy hG ⟨hk, hf⟩ fun _ _ _ hI hG hs =>
      have hstep := frozen_balance hI.1 hI.2 hG hs
      ⟨⟨hI.1.preserved hs, hstep.1⟩, hstep.2⟩
  have hfits : (tr.map fun e => dropped e.1 e.2).sum = 0 ↔ Meets Fits tr := by
    simp only [List.sum_eq_zero_iff_forall_eq_nat, List.forall_mem_map, dropped_eq_zero_iff, Meets]
  rw [List.sum_map_add, owed, owed, left_idle hidle, Nat.zero_add] at hsum
  rw [← hfits, ticks, accepted]
  omega

/-- From any point between two frames of any run. -/
theorem tick_accounts (h₀ : Run (Steps exact) (start exact) tr₀ s) (hidle : s.phase = .idle)
    (h : Run (Steps exact) s tr u) :
    (Meets Running tr → ((ticks tr + left u : Nat) : Int) = ⌊s.tick.acc + factors tr⌋
      ∧ 0 ≤ u.tick.acc ∧ u.tick.acc < 1)
    ∧ (s.tick.frozen = true → Meets StaysFrozen tr →
      (ticks tr + (left u + u.tick.pendingSteps.toNat) = s.tick.pendingSteps.toNat + accepted tr ↔ Meets Fits tr)) :=
  ⟨ticks_of_running (kept_of_run h₀) hidle h, fun hf => owed_iff_fits (kept_of_run h₀) hidle hf h⟩

end Runs

/-- The clock frozen, before any frame. -/
def frozen : State Rat := ⟨⟨true, true, 1, 0, 0⟩, .idle, ⟨true, 0, 0⟩⟩

theorem run_frozen : Run (Steps exact) (start exact) [(start exact, .freeze true true)] frozen := .single rfl

theorem tick_accounts_one_step :
    ticks [(frozen, .step 1)] + (0 + 1) = 0 + accepted [(frozen, .step 1)] ↔ Meets Fits [(frozen, .step 1)] :=
  have hstep : Steps exact frozen (.step 1) ⟨⟨true, true, 1, 0, 1⟩, .idle, ⟨true, 1, 0⟩⟩ := rfl
  (tick_accounts run_frozen rfl (.single hstep)).2 rfl fun e he => by
    cases List.mem_singleton.mp he
    trivial

/-- Two accepted calls for 2^32 steps together, after which no step is pending. -/
theorem steps_lost : ¬∀ tr₀ s tr u, Run (Steps exact) (start exact) tr₀ s → s.phase = .idle → s.tick.frozen = true →
    Run (Steps exact) s tr u → Meets StaysFrozen tr →
    ticks tr + (left u + u.tick.pendingSteps.toNat) = s.tick.pendingSteps.toNat + accepted tr := by
  intro h
  have hrun : Run (Steps exact) frozen
      [(frozen, .step 4294967295), (⟨⟨true, true, 1, 0, 4294967295⟩, .idle, ⟨true, 4294967295, 0⟩⟩, .step 1)]
      ⟨⟨true, true, 1, 0, 0⟩, .idle, ⟨true, 4294967296, 0⟩⟩ := .cons rfl (.single rfl)
  have hlost := h _ _ _ _ run_frozen rfl rfl hrun fun e he => by
    rcases List.mem_pair.mp he with rfl | rfl <;> trivial
  revert hlost
  decide

end TickAccounts
