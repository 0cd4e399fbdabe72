import LeviRsLoader.Lib.Runs

/-!
# Tick control

The detour on `Level::$tick` and the three calls that steer it. A frame runs a
loop of world ticks whose length is fixed at its start; the calls come between
frames or from inside one of these ticks.
-/
namespace TickControl

open Runs

/-- The arithmetic of `double`, as far as the warp uses it. -/
structure Doubles (D : Type) where
  zero : D
  one : D
  add : D → D → D
  /-- `static_cast<int>` -/
  toInt : D → Int
  subInt : D → Int → D
  /-- `factor > 0.0 && !(factor > 100.0)` -/
  inRange : D → Bool
  isOne : D → Bool

structure TickState (D : Type) where
  hooked : Bool
  frozen : Bool
  /-- Ticks per real frame. -/
  warp : D
  acc : D
  pendingSteps : UInt32

variable {D : Type} (A : Doubles D)

def TickState.initial : TickState D := ⟨false, false, A.one, A.zero, 0⟩

/-- The loop a frame runs its ticks in. -/
inductive Kind where
  | plain
  | warp
  | steps
  deriving DecidableEq

/-- What `LevelTickHook` does before its first tick: the loop, and how many
turns it takes. Without the detour a frame is one tick. -/
def levelTick (st : TickState D) : Kind × Nat × TickState D :=
  if !st.hooked then (.plain, 1, st)
  else if st.frozen then (.steps, st.pendingSteps.toNat, { st with pendingSteps := 0 })
  else if A.isOne st.warp then (.plain, 1, st)
  else
    let acc := A.add st.acc st.warp
    let n := A.toInt acc
    (.warp, n.toNat, { st with acc := A.subInt acc n })

/-- `none` where installing the detour throws. -/
def ensureTickHooked (installs : Bool) (st : TickState D) : Option (TickState D) :=
  if st.hooked then some st else if installs then some { st with hooked := true } else none

def api_tick_freeze (installs on : Bool) (st : TickState D) : Bool × TickState D :=
  if !on && !st.hooked then (true, st)
  else
    match ensureTickHooked installs st with
    | none => (false, st)
    | some st =>
      let st := { st with frozen := on }
      (true, if !on then { st with pendingSteps := 0 } else st)

def api_tick_step (n : UInt32) (st : TickState D) : Bool × TickState D :=
  if n = 0 then (false, st)
  else if !st.hooked || !st.frozen then (false, st)
  else (true, { st with pendingSteps := st.pendingSteps + n })

def api_tick_warp (installs : Bool) (factor : D) (st : TickState D) : Bool × TickState D :=
  if !A.inRange factor then (false, st)
  else if A.isOne factor && !st.hooked then (true, st)
  else
    match ensureTickHooked installs st with
    | none => (false, st)
    | some st =>
      let st := { st with warp := factor }
      (true, if A.isOne factor then { st with acc := A.zero } else st)

theorem levelTick_cases (st : TickState D) :
    ((st.hooked = false ∨ st.frozen = false) ∧ levelTick A st = (.plain, 1, st)) ∨
    (st.frozen = true ∧ levelTick A st = (.steps, st.pendingSteps.toNat, { st with pendingSteps := 0 })) ∨
    (st.frozen = false ∧ ∃ n acc, levelTick A st = (.warp, n, { st with acc := acc })) := by
  unfold levelTick
  cases hh : st.hooked with
  | false => exact .inl ⟨.inl rfl, rfl⟩
  | true =>
    cases hf : st.frozen with
    | true => exact .inr (.inl ⟨rfl, rfl⟩)
    | false =>
      cases A.isOne st.warp with
      | true => exact .inl ⟨.inr rfl, rfl⟩
      | false => exact .inr (.inr ⟨rfl, _, _, rfl⟩)

theorem api_tick_freeze_cases (installs on : Bool) (st : TickState D) :
    (st.hooked = false ∧ on = false ∧ api_tick_freeze installs on st = (true, st)) ∨
    (on = true ∧ api_tick_freeze installs on st = (false, st)) ∨
    api_tick_freeze installs on st =
      (true, { st with hooked := true, frozen := on, pendingSteps := if on then st.pendingSteps else 0 }) := by
  obtain ⟨hooked, frozen, warp, acc, pendingSteps⟩ := st
  cases hooked with
  | true => cases on <;> simp [api_tick_freeze, ensureTickHooked]
  | false => cases on <;> cases installs <;> simp [api_tick_freeze, ensureTickHooked]

theorem api_tick_step_cases (n : UInt32) (st : TickState D) :
    api_tick_step n st = (false, st) ∨
    (st.hooked = true ∧ st.frozen = true ∧
      api_tick_step n st = (true, { st with pendingSteps := st.pendingSteps + n })) := by
  unfold api_tick_step
  split
  · exact .inl rfl
  · split
    · exact .inl rfl
    · next h =>
      simp only [Bool.or_eq_true, Bool.not_eq_eq_eq_not, Bool.not_true, not_or, Bool.not_eq_false] at h
      exact .inr ⟨h.1, h.2, rfl⟩

theorem api_tick_warp_cases (installs : Bool) (factor : D) (st : TickState D) :
    ∃ hooked warp acc, (st.hooked = true → hooked = true) ∧
      (api_tick_warp A installs factor st).2 = { st with hooked := hooked, warp := warp, acc := acc } := by
  obtain ⟨hooked, frozen, warp, acc, pendingSteps⟩ := st
  unfold api_tick_warp ensureTickHooked
  split
  · exact ⟨_, _, _, id, rfl⟩
  · split
    · exact ⟨_, _, _, id, rfl⟩
    · cases hooked with
      | true => cases A.isOne factor <;> exact ⟨true, _, _, id, rfl⟩
      | false =>
        cases installs with
        | false => exact ⟨false, _, _, id, rfl⟩
        | true => cases A.isOne factor <;> exact ⟨true, _, _, fun _ => rfl, rfl⟩

/-! ## What the calls ask for -/

/-- The clock as its users know it. -/
structure Clock where
  /-- The last `tick_freeze` was one to freeze. -/
  halted : Bool
  /-- Steps asked for since the last frame that ran some, and not called off. -/
  asked : Nat
  /-- Steps the running frame is to make that have neither begun nor been called off. -/
  due : Nat

namespace Clock

def freeze (c : Clock) (on : Bool) : Clock := if on then { c with halted := true } else ⟨false, 0, 0⟩

def step (c : Clock) (n : UInt32) : Clock := { c with asked := c.asked + n.toNat }

/-- A frame that runs steps takes all that are asked for. -/
def take (c : Clock) : Clock := { c with asked := 0, due := c.asked }

def stepBegins (c : Clock) : Clock := { c with due := c.due - 1 }

end Clock

/-! ## Frames and calls -/

inductive Phase where
  | idle
  /-- Turns left, and whether a tick is running. -/
  | loop (kind : Kind) (left : Nat) (running : Bool)

structure State (D : Type) where
  tick : TickState D
  phase : Phase
  clock : Clock

inductive Label (D : Type) where
  | frameBegins
  | tickBegins
  | tickEnds
  | frameEnds
  | freeze (installs on : Bool)
  | step (n : UInt32)
  | warp (installs : Bool) (factor : D)

/-- Whether commands and callbacks can run. -/
def Phase.open : Phase → Bool
  | .idle => true
  | .loop _ _ running => running

def State.frame (s : State D) : State D :=
  let r := levelTick A s.tick
  ⟨r.2.2, .loop r.1 r.2.1 false, if r.1 = .steps then s.clock.take else s.clock⟩

def State.begin (s : State D) : Option (State D) :=
  match s.phase with
  | .loop kind (n + 1) false =>
    some { s with phase := .loop kind n true, clock := if kind = .steps then s.clock.stepBegins else s.clock }
  | _ => none

/-- An accepted call changes the clock, a refused one nothing. -/
def State.call (s : State D) (answer : Bool × TickState D) (clock : Clock) : Option (State D) :=
  if s.phase.open then some { s with tick := answer.2, clock := if answer.1 then clock else s.clock } else none

def step (s : State D) : Label D → Option (State D)
  | .frameBegins =>
    match s.phase with
    | .idle => some (s.frame A)
    | _ => none
  | .tickBegins => s.begin
  | .tickEnds =>
    match s.phase with
    | .loop kind n true => some { s with phase := .loop kind n false }
    | _ => none
  | .frameEnds =>
    match s.phase with
    | .loop _ 0 false => some { s with phase := .idle }
    | _ => none
  | .freeze installs on => s.call (api_tick_freeze installs on s.tick) (s.clock.freeze on)
  | .step n => s.call (api_tick_step n s.tick) (s.clock.step n)
  | .warp installs factor => s.call (api_tick_warp A installs factor s.tick) s.clock

def Steps (s : State D) (l : Label D) (t : State D) : Prop := step A s l = some t

def start : State D := ⟨.initial A, .idle, ⟨false, 0, 0⟩⟩

/-- The tick that is about to begin is a step that is due, or the clock is not frozen. -/
def State.wanted (s : State D) : Bool :=
  match s.phase with
  | .loop .steps _ _ => 0 < s.clock.due
  | _ => !s.clock.halted

/-- No warp tick ends with the clock frozen while there are more to come, and
no step that is not the frame's last unfreezes the clock. -/
def State.orderly (s : State D) (l : Label D) : Bool :=
  match l, s.phase with
  | .tickEnds, .loop .warp (_ + 1) true => !s.clock.halted
  | .freeze _ false, .loop .steps (_ + 1) true => false
  | _, _ => true

def Wanted (s : State D) (l : Label D) : Prop := l = .tickBegins → s.wanted = true

def Orderly (s : State D) (l : Label D) : Prop := s.orderly l = true

/-! ## The invariant -/

/-- The hook's variables agree with what was asked for. -/
structure Sound (s : State D) : Prop where
  halted : s.clock.halted = s.tick.frozen
  unhooked : s.tick.hooked = false → s.tick.frozen = false ∧ s.tick.pendingSteps = 0
  pending : s.tick.pendingSteps.toNat ≤ s.clock.asked
  steps : ∀ n running, s.phase = .loop .steps n running → n ≤ s.clock.due
  plain : ∀ n running, s.phase = .loop .plain n running → n + (if running then 1 else 0) ≤ 1
  going : ∀ kind n, s.phase = .loop kind (n + 1) false → kind ≠ .steps → s.clock.halted = false

theorem sound_start : Sound (start A : State D) := by
  constructor <;> simp [start, TickState.initial]

section Sound

variable {A} {s t : State D}

theorem Sound.of_frame (h : Sound s) : Sound (s.frame A) := by
  unfold State.frame
  obtain ⟨hf, he⟩ | ⟨hf, he⟩ | ⟨hf, n, acc, he⟩ := levelTick_cases A s.tick
  · have hnot : s.clock.halted = false := by
      rw [h.halted]
      exact hf.elim (fun hh => (h.unhooked hh).1) id
    rw [he]
    exact ⟨h.halted, h.unhooked, h.pending, by simp, by simp, by simp [hnot]⟩
  · rw [he]
    refine ⟨h.halted, fun hh => ?_, by simp, ?_, by simp, ?_⟩
    · rw [(h.unhooked hh).1] at hf
      cases hf
    · rintro n running ⟨⟩
      exact h.pending
    · rintro kind n hp hne
      exact absurd (Phase.loop.inj hp).1.symm hne
  · rw [he]
    exact ⟨h.halted, h.unhooked, h.pending, by simp, by simp, by simp [h.halted, hf]⟩

theorem begin_eq_some (h : s.begin = some t) :
    ∃ kind n, s.phase = .loop kind (n + 1) false ∧
      t = { s with phase := .loop kind n true, clock := if kind = .steps then s.clock.stepBegins else s.clock } := by
  unfold State.begin at h
  split at h
  · next kind n hp => exact ⟨kind, n, hp, (Option.some.inj h).symm⟩
  · cases h

theorem Sound.of_begin (h : Sound s) (hs : s.begin = some t) : Sound t := by
  obtain ⟨kind, n, hp, rfl⟩ := begin_eq_some hs
  have hhalted : (if kind = .steps then s.clock.stepBegins else s.clock).halted = s.clock.halted := by
    split <;> rfl
  have hasked : (if kind = .steps then s.clock.stepBegins else s.clock).asked = s.clock.asked := by
    split <;> rfl
  refine ⟨hhalted.trans h.halted, h.unhooked, ?_, ?_, ?_, ?_⟩
  · exact hasked ▸ h.pending
  · rintro m running ⟨⟩
    have := h.steps (n + 1) false hp
    simp only [if_true, Clock.stepBegins]
    omega
  · rintro m running ⟨⟩
    have := h.plain (n + 1) false hp
    simp at this ⊢
    omega
  · rintro kind' m ⟨⟩

/-- A call keeps the phase, so what it has to keep is what the loops rely on. -/
theorem Sound.of_call {answer : Bool × TickState D} {clock : Clock} (h : Sound s) (hs : s.call answer clock = some t)
    (hhalted : (if answer.1 then clock else s.clock).halted = answer.2.frozen)
    (hunhooked : answer.2.hooked = false → answer.2.frozen = false ∧ answer.2.pendingSteps = 0)
    (hpending : answer.2.pendingSteps.toNat ≤ (if answer.1 then clock else s.clock).asked)
    (hsteps : ∀ n running, s.phase = .loop .steps n running → n ≤ (if answer.1 then clock else s.clock).due) :
    Sound t := by
  unfold State.call at hs
  split at hs
  · next ho =>
    cases hs
    refine ⟨hhalted, hunhooked, hpending, hsteps, h.plain, fun kind n hp => ?_⟩
    dsimp only at hp
    simp [hp, Phase.open] at ho
  · cases hs

theorem open_of_call {answer : Bool × TickState D} {clock : Clock} (hs : s.call answer clock = some t) :
    s.phase.open = true ∧ t = { s with tick := answer.2, clock := if answer.1 then clock else s.clock } := by
  unfold State.call at hs
  split at hs
  · next ho => exact ⟨ho, (Option.some.inj hs).symm⟩
  · cases hs

theorem Sound.of_freeze (h : Sound s) {installs on : Bool} (hG : Orderly s (.freeze installs on : Label D))
    (hs : step A s (.freeze installs on) = some t) : Sound t := by
  have hleft : on = false → ∀ n running, s.phase = .loop .steps n running → n = 0 := by
    rintro rfl n running hp
    obtain ⟨ho, -⟩ := open_of_call hs
    have hr : running = true := by simpa [hp, Phase.open] using ho
    cases n with
    | zero => rfl
    | succ n => simp [Orderly, State.orderly, hp, hr] at hG
  refine h.of_call hs ?_ ?_ ?_ ?_ <;>
    obtain ⟨hh, rfl, he⟩ | ⟨rfl, he⟩ | he := api_tick_freeze_cases installs on s.tick <;> rw [he]
  · exact (h.unhooked hh).1.symm
  · exact h.halted
  · cases on <;> rfl
  · exact h.unhooked
  · exact h.unhooked
  · intro hh
    cases hh
  · simp [(h.unhooked hh).2]
  · exact h.pending
  · cases on with
    | true => exact h.pending
    | false => simp
  · intro n running hp
    simp [hleft rfl n running hp]
  · exact h.steps
  · intro n running hp
    cases on with
    | true => exact h.steps n running hp
    | false => simp [hleft rfl n running hp]

theorem Sound.of_step (h : Sound s) {n : UInt32} (hs : step A s (.step n) = some t) : Sound t := by
  obtain he | ⟨hh, hf, he⟩ := api_tick_step_cases n s.tick
  · refine h.of_call hs ?_ ?_ ?_ ?_ <;> rw [he]
    · exact h.halted
    · exact h.unhooked
    · exact h.pending
    · exact h.steps
  · refine h.of_call hs ?_ ?_ ?_ ?_ <;> rw [he]
    · exact h.halted
    · intro hu
      rw [hh] at hu
      cases hu
    · have hle : (s.tick.pendingSteps + n).toNat ≤ s.tick.pendingSteps.toNat + n.toNat := by
        rw [UInt32.toNat_add]
        exact Nat.mod_le _ _
      exact Nat.le_trans hle (Nat.add_le_add_right h.pending _)
    · exact h.steps

theorem Sound.of_warp (h : Sound s) {installs : Bool} {factor : D} (hs : step A s (.warp installs factor) = some t) :
    Sound t := by
  obtain ⟨hooked, warp, acc, hh, he⟩ := api_tick_warp_cases A installs factor s.tick
  refine h.of_call hs ?_ ?_ ?_ ?_
  · rw [ite_self, he]
    exact h.halted
  · rw [he]
    rintro rfl
    exact h.unhooked (by simpa using hh)
  · rw [ite_self, he]
    exact h.pending
  · rw [ite_self]
    exact h.steps

theorem Sound.preserved (h : Sound s) {l : Label D} (hG : Orderly s l) (hs : step A s l = some t) : Sound t := by
  cases l with
  | frameBegins =>
    simp only [step] at hs
    split at hs
    · cases hs
      exact h.of_frame
    · cases hs
  | tickBegins => exact h.of_begin hs
  | tickEnds =>
    simp only [step] at hs
    split at hs
    · next kind n hp =>
      cases hs
      refine ⟨h.halted, h.unhooked, h.pending, ?_, ?_, ?_⟩
      · rintro m running ⟨⟩
        exact h.steps n true hp
      · rintro m running ⟨⟩
        have := h.plain n true hp
        simp at this ⊢
        omega
      · rintro kind' m ⟨⟩ hne
        cases kind with
        | plain => simpa using h.plain (m + 1) true hp
        | warp => simpa [Orderly, State.orderly, hp] using hG
        | steps => exact absurd rfl hne
    · cases hs
  | frameEnds =>
    simp only [step] at hs
    split at hs
    · cases hs
      exact ⟨h.halted, h.unhooked, h.pending, by simp, by simp, by simp⟩
    · cases hs
  | freeze installs on => exact h.of_freeze hG hs
  | step n => exact h.of_step hs
  | warp installs factor => exact h.of_warp hs

end Sound

/-! ## Runs -/

section Runs

variable {A} {s u : State D} {tr : List (State D × Label D)}

theorem Sound.wanted (h : Sound s) {t : State D} (hs : s.begin = some t) : s.wanted = true := by
  obtain ⟨kind, n, hp, -⟩ := begin_eq_some hs
  unfold State.wanted
  rw [hp]
  cases kind with
  | steps => exact decide_eq_true (Nat.lt_of_lt_of_le n.succ_pos (h.steps (n + 1) false hp))
  | plain => simpa using h.going .plain n hp (by decide)
  | warp => simpa using h.going .warp n hp (by decide)

/-- A run none of whose calls comes at a bad moment begins no tick that is not wanted. -/
theorem wanted_of_orderly (h : Run (Steps A) (start A) tr u) (hG : Meets Orderly tr) : Meets Wanted tr :=
  h.forall_entries Sound Wanted hG (sound_start A) (fun _ _ _ hi hl hs => hi.preserved hl hs)
    fun s l t hi _ hs hl => by
      subst hl
      exact hi.wanted hs

/-- The loop goes on with a tick that nobody wants. -/
inductive Late (s : State D) : Prop where
  | steps (n : Nat) (running : Bool) (hp : s.phase = .loop .steps (n + 1) running) (hd : s.clock.due = 0)
  | warp (n : Nat) (hp : s.phase = .loop .warp (n + 1) false) (hh : s.clock.halted = true)

theorem Late.not_wanted (h : Late s) : s.wanted = false := by
  cases h with
  | steps n running hp hd => simp [State.wanted, hp, hd]
  | warp n hp hh => simp [State.wanted, hp, hh]

theorem late_of_not_orderly {t : State D} {l : Label D} (hG : ¬Orderly s l) (hs : step A s l = some t) : Late t := by
  unfold Orderly State.orderly at hG
  split at hG
  · next n hp =>
    simp only [step, hp, Option.some.injEq] at hs
    subst hs
    exact .warp n rfl (by simpa using hG)
  · next installs n hp =>
    obtain ⟨-, rfl⟩ := open_of_call hs
    refine .steps n true hp ?_
    obtain ⟨-, -, he⟩ | ⟨hon, -⟩ | he := api_tick_freeze_cases installs false s.tick
    · simp [he, Clock.freeze]
    · cases hon
    · simp [he, Clock.freeze]
  · exact absurd rfl hG

/-- A call reaches a late frame in a step only, and asks for nothing that is due in it. -/
theorem Late.call {t : State D} {answer : Bool × TickState D} {clock : Clock} (h : Late s)
    (hs : s.call answer clock = some t) (hdue : s.clock.due = 0 → clock.due = 0) : Late t := by
  obtain ⟨ho, rfl⟩ := open_of_call hs
  cases h with
  | steps n running hp hd =>
    refine .steps n running hp ?_
    dsimp only
    split
    · exact hdue hd
    · exact hd
  | warp n hp hh => simp [hp, Phase.open] at ho

/-- Whatever is called in the meantime, a frame that is late stays so until the tick begins. -/
theorem Late.step {t : State D} {l : Label D} (h : Late s) (hs : step A s l = some t) : l = .tickBegins ∨ Late t := by
  cases l with
  | frameBegins =>
    cases h with
    | steps n running hp hd => simp [TickControl.step, hp] at hs
    | warp n hp hh => simp [TickControl.step, hp] at hs
  | tickBegins => exact .inl rfl
  | tickEnds =>
    cases h with
    | steps n running hp hd =>
      cases running with
      | true =>
        simp only [TickControl.step, hp, Option.some.injEq] at hs
        subst hs
        exact .inr (.steps n false rfl hd)
      | false => simp [TickControl.step, hp] at hs
    | warp n hp hh => simp [TickControl.step, hp] at hs
  | frameEnds =>
    cases h with
    | steps n running hp hd => simp [TickControl.step, hp] at hs
    | warp n hp hh => simp [TickControl.step, hp] at hs
  | freeze installs on => exact .inr (h.call hs fun hd => by cases on <;> simp [Clock.freeze, hd])
  | step n => exact .inr (h.call hs id)
  | warp installs factor => exact .inr (h.call hs id)

theorem Late.run (h : Late s) (hr : Run (Steps A) s tr u) (hu : u.phase = .idle) : ¬Meets Wanted tr := by
  induction hr with
  | nil s =>
    cases h with
    | steps n running hp hd => simp [hp] at hu
    | warp n hp hh => simp [hp] at hu
  | @cons s t u l tr hs hr ih =>
    intro hw
    rcases h.step hs with rfl | ht
    · have := hw _ List.mem_cons_self rfl
      rw [h.not_wanted] at this
      cases this
    · exact ih ht hu fun e he => hw e (List.mem_cons_of_mem _ he)

/-- In a run of whole frames every tick is wanted exactly if no call comes at a bad moment. -/
theorem wanted_iff_orderly (h : Run (Steps A) (start A) tr u) :
    (Meets Orderly tr → Meets Wanted tr) ∧ (u.phase = .idle → Meets Wanted tr → Meets Orderly tr) := by
  refine ⟨wanted_of_orderly h, fun hu hw e he => ?_⟩
  by_contra hG
  obtain ⟨pre, suf, rfl⟩ := List.append_of_mem he
  obtain ⟨t, -, hs, hr⟩ := h.split_cons
  refine (late_of_not_orderly hG hs).run hr hu fun e' he' => ?_
  exact hw e' (List.mem_append_right _ (List.mem_cons_of_mem _ he'))

end Runs

/-! ## Calls from inside a tick -/

/-- Whole factors, on which `double` computes as integers do. -/
def whole : Doubles Int := ⟨0, 1, (· + ·), id, (· - ·), fun f => 0 < f && f ≤ 100, (· == 1)⟩

/-- The trace of a sequence of labels, as far as they can be taken. -/
def trace : State Int → List (Label Int) → List (State Int × Label Int) × State Int
  | s, [] => ([], s)
  | s, l :: ls =>
    match step whole s l with
    | none => ([], s)
    | some t => ((s, l) :: (trace t ls).1, (trace t ls).2)

theorem run_trace (s : State Int) (ls : List (Label Int)) : Run (Steps whole) s (trace s ls).1 (trace s ls).2 := by
  induction ls generalizing s with
  | nil => exact .nil s
  | cons l ls ih =>
    unfold trace
    cases h : step whole s l with
    | none => exact .nil s
    | some t => exact .cons h (ih t)

/-- A command freezes the clock in an ordinary tick and asks for a step, which the next frame makes. -/
def freezeAndStep : List (Label Int) :=
  [.frameBegins, .tickBegins, .freeze true true, .step 1, .tickEnds, .frameEnds, .frameBegins, .tickBegins, .tickEnds,
    .frameEnds]

theorem freezeAndStep_wanted : Meets Wanted (trace (start whole) freezeAndStep).1 := by
  have hall : (trace (start whole) freezeAndStep).1.all fun e => e.1.orderly e.2 := by decide
  exact (wanted_iff_orderly (run_trace (start whole) freezeAndStep)).1 fun e he => List.all_eq_true.mp hall e he

/-- A warp of three ticks, frozen from inside the first. -/
def freezeInWarp : List (Label Int) :=
  [.warp true 3, .frameBegins, .tickBegins, .freeze true true, .tickEnds, .tickBegins]

/-- Two steps, called off from inside the first. -/
def unfreezeInStep : List (Label Int) :=
  [.freeze true true, .step 2, .frameBegins, .tickBegins, .freeze true false, .tickEnds, .tickBegins]

/-- The loops go on with the number of ticks they started with. -/
theorem loops_go_on :
    (¬∀ tr u, Run (Steps whole) (start whole) tr u → Meets Wanted tr) ∧
      ¬Meets Wanted (trace (start whole) freezeInWarp).1 ∧ ¬Meets Wanted (trace (start whole) unfreezeInStep).1 := by
  have hwarp : ¬Meets Wanted (trace (start whole) freezeInWarp).1 := by
    intro h
    have hlast := h ((trace (start whole) freezeInWarp).1.getLast (by decide)) (List.getLast_mem _) rfl
    revert hlast
    decide
  refine ⟨fun h => hwarp (h _ _ (run_trace _ _)), hwarp, fun h => ?_⟩
  have hlast := h ((trace (start whole) unfreezeInStep).1.getLast (by decide)) (List.getLast_mem _) rfl
  revert hlast
  decide

end TickControl
