import LeviRsLoader.Lib.Spans
import LeviRsLoader.Profiler
import Mathlib.Algebra.Order.BigOperators.Group.List
import Mathlib.Algebra.Order.Group.Nat

/-!
# The times of a report

The level tick calls the dimension ticks, and these the rest. What a report says of the inner calls
is then at most what it says of the outer ones, but for the calls that were already running when the
window was armed: those are not timed, and what runs inside them is.
-/
namespace Profiler

open Runs

/-- The call that a call of this kind runs inside. -/
def outer : Hook → Option Hook
  | .levelTick => none
  | .dimensionTick => some .levelTick
  | .redstoneTick => some .dimensionTick
  | .chunkBlocks => some .dimensionTick
  | .blockEntities => some .dimensionTick

/-- The engine enters a call only inside the one it belongs to, and not inside another of its kind. -/
def Nests (s : State) : Label → Prop
  | .enter h _ =>
    (∀ f ∈ s.stack, f.hook ≠ h) ∧
      match outer h with
      | none => s.stack = []
      | some o => ∃ f ∈ s.stack, f.hook = o
  | _ => True

/-- How long after `t` the call ends that ends here, if it is one of `h` and was not timed. -/
def lateCall (h : Hook) (t : Nat) (e : State × Label) : Option Nat :=
  match e.2, e.1.stack with
  | .leave now, f :: _ => if f.hook = h ∧ f.timed = false then some (now - t) else none
  | _, _ => none

/-- The calls of `h` in this part of a run that its window has missed. -/
def lateCalls (h : Hook) (t : Nat) (tr : Trace) : List Nat := tr.filterMap (lateCall h t)

/-! ## Seen as nested calls -/

def calls (s : State) : Spans.Calls Hook := ⟨s.stack.map fun f => ⟨f.hook, f.entered⟩, s.clock⟩

def Label.event : Label → Spans.Event Hook
  | .enter h now => .enter h now
  | .leave now => .leave now
  | .begin _ now => .pass now
  | .take _ now => .pass now

def spans (tr : Trace) : List (Spans.Calls Hook × Spans.Event Hook) := tr.map fun e => (calls e.1, e.2.event)

section Steps

variable {s t : State} {l : Label} {tr : Trace} {h o : Hook}

theorem Step.calls (hs : Step s l t) : Spans.Step (calls s) l.event (calls t) := by
  obtain ⟨hclock, hnext⟩ := hs
  cases l with
  | enter h now =>
    obtain rfl := Option.some.inj hnext
    exact .enter h hclock
  | leave now =>
    obtain ⟨prof, stack, clock⟩ := s
    cases stack with
    | nil => cases hnext
    | cons f rest =>
      obtain rfl := Option.some.inj hnext
      exact .leave hclock
  | begin ticks now =>
    obtain rfl := Option.some.inj hnext
    exact .pass hclock
  | take sink now =>
    obtain rfl := Option.some.inj hnext
    exact .pass hclock

theorem run_spans (hr : Run Step State.initial tr s) : Run Spans.Step ⟨[], 0⟩ (spans tr) (calls s) :=
  hr.map calls Label.event fun _ _ _ hs => hs.calls

theorem meets_spans {G : Spans.Calls Hook → Spans.Event Hook → Prop} (hn : Meets Nests tr)
    (hG : ∀ s l, Nests s l → G (calls s) l.event) : Meets G (spans tr) := by
  intro x hx
  obtain ⟨e, he, rfl⟩ := List.mem_map.mp hx
  exact hG e.1 e.2 (hn e he)

theorem Nests.single (k : Hook) (hn : Nests s l) : Spans.Single k (calls s) l.event := by
  cases l with
  | enter h now =>
    rintro rfl x hx
    obtain ⟨f, hf, rfl⟩ := List.mem_map.mp hx
    exact hn.1 f hf
  | _ => trivial

theorem Nests.inside (ho : outer h = some o) (hn : Nests s l) : Spans.Inside h o (calls s) l.event := by
  cases l with
  | enter k now =>
    rintro rfl
    refine ⟨?_, hn.single k rfl⟩
    have hin := hn.2
    rw [ho] at hin
    obtain ⟨f, hf, hfo⟩ := hin
    exact ⟨⟨f.hook, f.entered⟩, List.mem_map_of_mem hf, hfo⟩
  | _ => trivial

/-- The clock shows the time of the last step. -/
theorem now_le_clock (hr : Run Step s tr t) : s.clock ≤ t.clock ∧ ∀ e ∈ tr, e.2.now ≤ t.clock := by
  induction hr with
  | nil s => exact ⟨Nat.le_refl _, by simp⟩
  | @cons s u t l tr hs hr ih =>
    obtain ⟨hle, hall⟩ := ih
    have hnow : u.clock = l.now := by
      obtain ⟨-, hnext⟩ := hs
      obtain ⟨prof, stack, clock⟩ := s
      cases l with
      | leave now =>
        cases stack with
        | nil => cases hnext
        | cons f rest => exact (Option.some.inj hnext) ▸ rfl
      | _ => exact (Option.some.inj hnext) ▸ rfl
    refine ⟨Nat.le_trans hs.1 (hnow ▸ hle), fun e he => ?_⟩
    rcases List.mem_cons.mp he with rfl | he
    · exact hnow ▸ hle
    · exact hall e he

end Steps

/-! ## Which calls are timed -/

section Timed

variable {s t : State} {l : Label} {tr : Trace} {h o : Hook} {st : ProfState}

theorem hookAfter_sampling (d : Nat) (hs : (hookAfter h d st).sampling = true) : st.sampling = true := by
  by_cases hlevel : h = .levelTick
  · subst hlevel
    change (profLevelTickHook d st).sampling = true at hs
    unfold profLevelTickHook at hs
    dsimp only at hs
    split at hs
    · split at hs
      · exact absurd hs (by simp [finishWindow])
      · exact hs
    · exact hs
  · rw [hookAfter_of_ne hlevel] at hs
    exact hs

theorem hookAfter_hooked (h : Hook) (d : Nat) (st : ProfState) : (hookAfter h d st).hooked = st.hooked := by
  by_cases hlevel : h = .levelTick
  · subst hlevel
    show (profLevelTickHook d st).hooked = st.hooked
    unfold profLevelTickHook
    dsimp only
    split
    · split <;> rfl
    · rfl
  · rw [hookAfter_of_ne hlevel]
    rfl

/-- What holds at any time of a run with proper nesting. -/
structure Sound (tr : Trace) (s : State) : Prop where
  bottom : ∀ above f below, s.stack = above ++ f :: below → f.hook = .levelTick → below = []
  hooked : s.prof.sampling = true → s.prof.hooked = true
  idle : s.prof.sampling = false → ∀ f ∈ s.stack, f.timed = false
  armed : ∀ b w t win, Armed tr b w t win → t ≤ s.clock ∧ (∀ f ∈ s.stack, f.timed = true → t ≤ f.entered) ∧
    (s.prof.sampling = true → b.stack = [] → ∀ f ∈ s.stack, f.timed = true)

theorem Armed.of_concat {e : State × Label} {b : State} {w : UInt32} {t : Nat} {win : Trace}
    (ha : Armed (tr ++ [e]) b w t win) (he : ¬Arms e) : ∃ win', Armed tr b w t win' := by
  rcases armed_concat.mp ha with ⟨-, harms, -⟩ | ⟨win', -, ha', -⟩
  · exact absurd harms he
  · exact ⟨win', ha'⟩

/-- A call of the profiler that arms nothing leaves the stack alone. -/
theorem Sound.quiet {now : Nat} {prof : ProfState} (hi : Sound tr s) (he : ¬Arms (s, l)) (hclock : s.clock ≤ now)
    (hs : prof.sampling = s.prof.sampling) (hh : prof.hooked = s.prof.hooked) :
    Sound (tr ++ [(s, l)]) ⟨prof, s.stack, now⟩ := by
  refine ⟨hi.bottom, ?_, ?_, fun b w t win ha => ?_⟩
  · rw [hs, hh]
    exact hi.hooked
  · rw [hs]
    exact hi.idle
  · obtain ⟨win', ha'⟩ := ha.of_concat he
    obtain ⟨ht, hentered, hall⟩ := hi.armed b w t win' ha'
    exact ⟨Nat.le_trans ht hclock, hentered, fun h => hall (hs ▸ h)⟩

theorem Sound.step (hi : Sound tr s) (hn : Nests s l) (h : Step s l t) : Sound (tr ++ [(s, l)]) t := by
  obtain ⟨hclock, hnext⟩ := h
  cases l with
  | enter h now =>
    obtain rfl := Option.some.inj hnext
    refine ⟨fun above f below hstack hf => ?_, hi.hooked, fun hs f hf => ?_, fun b w t win ha => ?_⟩
    · cases above with
      | nil =>
        obtain ⟨rfl, rfl⟩ := List.cons.inj hstack
        have hin := hn.2
        rw [show h = .levelTick from hf] at hin
        exact hin
      | cons g above => exact hi.bottom above f below (List.cons.inj hstack).2 hf
    · rcases List.mem_cons.mp hf with rfl | hf
      · show (s.prof.hooked && s.prof.sampling) = false
        rw [show s.prof.sampling = false from hs, Bool.and_false]
      · exact hi.idle hs f hf
    · obtain ⟨win', ha'⟩ := ha.of_concat (quiet_enter s h now).1
      obtain ⟨ht, hentered, hall⟩ := hi.armed b w t win' ha'
      refine ⟨Nat.le_trans ht hclock, fun f hf hft => ?_, fun hs hb f hf => ?_⟩
      · rcases List.mem_cons.mp hf with rfl | hf
        · exact Nat.le_trans ht hclock
        · exact hentered f hf hft
      · rcases List.mem_cons.mp hf with rfl | hf
        · show (s.prof.hooked && s.prof.sampling) = true
          rw [show s.prof.sampling = true from hs, hi.hooked hs, Bool.and_true]
        · exact hall hs hb f hf
  | leave now =>
    obtain ⟨prof, stack, clock⟩ := s
    cases stack with
    | nil => cases hnext
    | cons f rest =>
      obtain rfl := Option.some.inj hnext
      have hbefore (hs : (if f.timed then hookAfter f.hook (now - f.entered) prof else prof).sampling = true) :
          prof.sampling = true := by
        split at hs
        · exact hookAfter_sampling _ hs
        · exact hs
      refine ⟨fun above g below hstack hg => ?_, fun hs => ?_, fun hs g hg => ?_, fun b w t win ha => ?_⟩
      · exact hi.bottom (f :: above) g below (congrArg (f :: ·) hstack) hg
      · have := hi.hooked (hbefore hs)
        dsimp only
        split
        · rw [hookAfter_hooked]
          exact this
        · exact this
      · cases hprof : prof.sampling with
        | false => exact hi.idle hprof g (.tail _ hg)
        | true =>
          -- the call that ends the window is a level tick, and nothing runs around it
          have hlevel : f.hook = .levelTick := by
            by_contra hne
            change (if f.timed then hookAfter f.hook (now - f.entered) prof else prof).sampling = false at hs
            rw [hookAfter_of_ne hne] at hs
            split at hs
            · exact absurd (hprof.symm.trans hs) (by decide)
            · exact absurd (hprof.symm.trans hs) (by decide)
          rw [hi.bottom [] f rest rfl hlevel] at hg
          exact absurd hg List.not_mem_nil
      · obtain ⟨win', ha'⟩ := ha.of_concat (quiet_leave _ now).1
        obtain ⟨ht, hentered, hall⟩ := hi.armed b w t win' ha'
        exact ⟨Nat.le_trans ht hclock, fun g hg hgt => hentered g (.tail _ hg) hgt,
          fun hs hb g hg => hall (hbefore hs) hb g (.tail _ hg)⟩
  | begin ticks now =>
    obtain rfl := Option.some.inj hnext
    rcases api_profile_begin_cases ticks s.prof with ⟨hno, hst⟩ | ⟨hs, hpos, heq⟩
    · rw [hst]
      exact hi.quiet (quiet_begin now hno).1 hclock rfl rfl
    · rw [heq]
      refine ⟨hi.bottom, fun _ => rfl, fun hs => absurd hs (by simp), fun b w t win ha => ?_⟩
      rcases armed_concat.mp ha with ⟨he, -, -⟩ | ⟨win', -, -, hn, -⟩
      · cases he
        refine ⟨Nat.le_refl _, fun f hf hft => ?_, fun _ hb f hf => ?_⟩
        · rw [hi.idle hs f hf] at hft
          cases hft
        · rw [show s.stack = [] from hb] at hf
          exact absurd hf List.not_mem_nil
      · exact absurd ⟨ticks, now, rfl, by rw [heq]⟩ hn
  | take sink now =>
    obtain rfl := Option.some.inj hnext
    have harms : ¬Arms (s, .take sink now) := by
      rintro ⟨w, t, hl, -⟩
      cases hl
    rcases api_profile_take_cases sink s.prof with ⟨-, hst⟩ | ⟨-, -, hst⟩
    · rw [hst]
      exact hi.quiet harms hclock rfl rfl
    · rw [hst]
      exact hi.quiet harms hclock rfl rfl

theorem sound_run (hr : Run Step State.initial tr s) (hn : Meets Nests tr) : Sound tr s :=
  hr.traceInvariant Sound hn
    ⟨by simp [State.initial], by simp [State.initial, ProfState.initial], by simp [State.initial],
      fun _ _ _ _ ha => absurd ha not_armed_nil⟩
    fun _ _ _ _ hi hn hs => hi.step hn hs

end Timed

/-! ## The times of a window -/

section Window

variable {s b : State} {tr before part after : Trace} {w : UInt32} {t : Nat} {h o k : Hook}

theorem timedCall_eq_some {e : State × Label} {d : Nat} (hc : timedCall k e = some d) :
    ∃ now f rest, e.2 = .leave now ∧ e.1.stack = f :: rest ∧ f.hook = k ∧ f.timed = true ∧ d = now - f.entered := by
  unfold timedCall at hc
  split at hc
  next now f rest hl hstack =>
    split_ifs at hc with hf
    exact ⟨now, f, rest, hl, hstack, hf.1, hf.2, (Option.some.inj hc).symm⟩
  next => cases hc

/-- Before its last tick a window is open. -/
theorem sampling_of_armed {pre more : Trace} {e : State × Label} (hr : Run Step State.initial tr s)
    (harmed : Armed tr b w t pre) (hpart : Completes w (pre ++ e :: more)) : s.prof.sampling = true := by
  cases follows_run hr with
  | idle _ _ _ hnone => exact absurd harmed (hnone b w t pre)
  | «open» hs _ _ _ _ _ => exact hs
  | @ready _ _ _ _ _ _ part after harmed' hpart' _ =>
    obtain ⟨-, rfl, -, rfl⟩ := harmed.unique harmed'
    rw [List.append_assoc] at hpart
    have hnil := hpart'.eq_nil hpart
    simp at hnil

/-- The top call at an entry of the window: timed since the window was armed, or
running already when it was. -/
theorem top_of_window (hr : Run Step State.initial tr s) (hn : Meets Nests tr)
    (harmed : Armed tr b w t (part ++ after)) (hpart : Completes w part) {e : State × Label} (he : e ∈ part)
    {f : Frame} (hf : f ∈ e.1.stack) : (f.timed = true → t ≤ f.entered) ∧ (b.stack = [] → f.timed = true) := by
  obtain ⟨before, rfl, harms, hquiet⟩ := harmed
  obtain ⟨pre, more, rfl⟩ := List.append_of_mem he
  have htr : before ++ (b, .begin w t) :: (pre ++ e :: more ++ after) =
      (before ++ (b, .begin w t) :: pre) ++ e :: (more ++ after) := by simp
  rw [htr] at hr hn
  obtain ⟨u, hpre, -, -⟩ := hr.split_cons
  have harmed' : Armed (before ++ (b, .begin w t) :: pre) b w t pre :=
    ⟨before, rfl, harms, fun x hx => hquiet x (by simp [hx])⟩
  have hsound := sound_run hpre ((meets_append _ _).mp hn).1
  obtain ⟨-, hentered, hall⟩ := hsound.armed b w t pre harmed'
  exact ⟨hentered f hf, fun hb => hall (sampling_of_armed hpre harmed' hpart) hb f hf⟩

theorem sum_filterMap {α : Type} (g : α → Option Nat) (l : List α) :
    (l.filterMap g).sum = (l.map fun a => (g a).getD 0).sum := by
  induction l with
  | nil => rfl
  | cons a l ih =>
    rw [List.map_cons, List.sum_cons, ← ih, List.filterMap_cons]
    cases g a <;> simp

/-- What lies of an ended call in the window is its time, if it is timed, and else at most what is late of it. -/
theorem ended_eq {e : State × Label} (htop : ∀ f ∈ e.1.stack, f.timed = true → t ≤ f.entered) :
    (timedCall k e).getD 0 ≤ Spans.ended k t (calls e.1, e.2.event) ∧
      Spans.ended k t (calls e.1, e.2.event) ≤ (timedCall k e).getD 0 + (lateCall k t e).getD 0 := by
  obtain ⟨⟨prof, stack, clock⟩, l⟩ := e
  cases l with
  | leave now =>
    cases stack with
    | nil => exact ⟨Nat.le_refl _, Nat.zero_le _⟩
    | cons f rest =>
      have hf := htop f (.head _)
      by_cases hk : f.hook = k
      · cases hft : f.timed with
        | true =>
          have ht := hf hft
          simp [timedCall, lateCall, Spans.ended, calls, Label.event, Spans.Span.after, hk, hft, ht]
        | false =>
          simp [timedCall, lateCall, Spans.ended, calls, Label.event, Spans.Span.after, hk, hft]
          omega
      · simp [timedCall, lateCall, Spans.ended, calls, Label.event, hk]
  | _ => exact ⟨Nat.le_refl _, Nat.zero_le _⟩

/-- The run up to the end of a window: nothing is running any more, and only the window counts. -/
theorem spent_window (hr : Run Step State.initial tr s) (hn : Meets Nests tr)
    (harmed : Armed tr b w t (part ++ after)) (hpart : Completes w part) :
    ∃ (pre : Trace) (u : State), Run Step State.initial pre u ∧ Meets Nests pre ∧ u.clock ≤ s.clock ∧
      ∀ k, Spans.spent k t (spans pre) (calls u) =
        (part.map fun e => Spans.ended k t (calls e.1, e.2.event)).sum := by
  obtain ⟨before, rfl, harms, hquiet⟩ := harmed
  obtain ⟨hlen, init, e, rfl, he⟩ := hpart
  have htr : before ++ (b, .begin w t) :: (init ++ [e] ++ after) =
      (before ++ (b, .begin w t) :: init) ++ e :: after := by simp
  rw [htr] at hr hn
  obtain ⟨u, hinit, hlast, hafter⟩ := hr.split_cons
  have hnpre := ((meets_append _ _).mp hn).1
  have hne := ((meets_cons _ _).mp ((meets_append _ _).mp hn).2).1
  refine ⟨(before ++ (b, .begin w t) :: init) ++ [e], u, hinit.append (.single hlast), ?_, (now_le_clock hafter).1,
    fun k => ?_⟩
  · exact (meets_append _ _).mpr ⟨hnpre, (meets_cons _ _).mpr ⟨hne, meets_nil⟩⟩
  · obtain ⟨d, hd⟩ := Option.ne_none_iff_exists'.mp he
    obtain ⟨now, f, rest, hl, hstack, hlevel, -, -⟩ := timedCall_eq_some hd
    -- the last level tick is alone on the stack
    have hrest : rest = [] := (sound_run hinit hnpre).bottom [] f rest hstack hlevel
    have hu : u.stack = [] := by
      obtain ⟨-, hnext⟩ := hlast
      rw [hl] at hnext
      obtain ⟨⟨prof, stack, clock⟩, l⟩ := e
      dsimp only at hstack
      subst hstack hrest
      exact (Option.some.inj hnext) ▸ rfl
    have hrunning : Spans.running k t (calls u) = 0 := by
      simp [Spans.running, calls, hu]
    -- what ended before the window was armed has nothing in it
    obtain ⟨v, hb, hbegin, -⟩ := hinit.split_cons
    have hzero : ∀ x ∈ before, Spans.ended k t (calls x.1, x.2.event) = 0 := by
      intro x hx
      have hnow : x.2.now ≤ t := Nat.le_trans ((now_le_clock hb).2 x hx) hbegin.1
      obtain ⟨⟨prof, stack, clock⟩, l⟩ := x
      cases l with
      | leave now =>
        cases stack with
        | nil => rfl
        | cons f rest =>
          have : now ≤ t := hnow
          simp [Spans.ended, calls, Label.event, Spans.Span.after]
          omega
      | _ => rfl
    rw [Spans.spent, hrunning, Nat.add_zero, spans, List.map_map, List.append_assoc, List.map_append, List.sum_append,
      List.cons_append, List.map_cons, List.sum_cons]
    have hsum : (before.map (Spans.ended k t ∘ fun e => (calls e.1, e.2.event))).sum = 0 :=
      List.sum_eq_zero fun x hx => by
        obtain ⟨y, hy, rfl⟩ := List.mem_map.mp hx
        exact hzero y hy
    rw [hsum]
    simp [Spans.ended, Label.event, Function.comp_def]

theorem Nests.meets_single (hn : Meets Nests tr) (k : Hook) : Meets (Spans.Single k) (spans tr) :=
  meets_spans hn fun _ _ hs => hs.single k

/-- The numbers of a report are the true times, and what it says of the inner calls is at most what it says of
those around them and how much of these ran on from before the window; nothing did where it was armed between
two ticks. -/
theorem report_nests (hr : Run Step State.initial tr s) (hn : Meets Nests tr)
    (hclock : s.clock < 18446744073709551616) (harmed : Armed tr b w t (part ++ after)) (hpart : Completes w part) :
    (∀ k, (totals part k).ns.toNat = (timedCalls k part).sum) ∧
      ∀ h o, outer h = some o →
        (totals part h).ns.toNat ≤ (totals part o).ns.toNat + (lateCalls o t part).sum ∧
        (b.stack = [] → (totals part h).ns ≤ (totals part o).ns) := by
  obtain ⟨pre, u, hpre, hnpre, hu, hspent⟩ := spent_window hr hn harmed hpart
  have hended (k : Hook) (e : State × Label) (he : e ∈ part) :=
    ended_eq (k := k) fun f hf => (top_of_window hr hn harmed hpart he hf).1
  have hlow (k : Hook) : (timedCalls k part).sum ≤ Spans.spent k t (spans pre) (calls u) := by
    rw [hspent, timedCalls, sum_filterMap]
    exact List.sum_le_sum fun e he => (hended k e he).1
  have hhigh (k : Hook) :
      Spans.spent k t (spans pre) (calls u) ≤ (timedCalls k part).sum + (lateCalls k t part).sum := by
    rw [hspent, timedCalls, sum_filterMap, lateCalls, sum_filterMap, ← List.sum_map_add]
    exact List.sum_le_sum fun e he => (hended k e he).2
  have hns (k : Hook) : (totals part k).ns.toNat = (timedCalls k part).sum := by
    have hle := Spans.spent_le_clock (run_spans hpre) (Nests.meets_single hnpre k) t
    have hlt : (timedCalls k part).sum < 18446744073709551616 := by
      have h1 := hlow k
      have h2 : (calls u).clock = u.clock := rfl
      omega
    exact UInt64.toNat_ofNat_of_lt hlt
  refine ⟨hns, fun h o ho => ?_⟩
  have hle := Spans.spent_le_spent (run_spans hpre) (meets_spans hnpre fun _ _ hs => hs.inside ho) t
  have hsum : (timedCalls h part).sum ≤ (timedCalls o part).sum + (lateCalls o t part).sum :=
    Nat.le_trans (hlow h) (Nat.le_trans hle (hhigh o))
  refine ⟨by rw [hns, hns]; exact hsum, fun hb => ?_⟩
  have hlate : lateCalls o t part = [] := by
    rw [lateCalls, List.filterMap_eq_nil_iff]
    intro e he
    unfold lateCall
    split
    next now f rest _ hstack =>
      have hft := (top_of_window hr hn harmed hpart he (hstack ▸ List.mem_cons_self : f ∈ e.1.stack)).2 hb
      rw [hft, if_neg (by simp)]
    next => rfl
  rw [UInt64.le_iff_toNat_le, hns, hns]
  rw [hlate, List.sum_nil, Nat.add_zero] at hsum
  exact hsum

/-- Armed before a level tick of 29990 ns with a dimension tick of 8000 ns in it. -/
theorem report_nests_oneTick :
    (totals (oneTick.drop 1) .dimensionTick).ns ≤ (totals (oneTick.drop 1) .levelTick).ns := by
  have hn : Meets Nests oneTick := by
    simp [oneTick, Nests, outer, State.initial]
  have hr := oneTick_run
  exact ((report_nests hr hn (by decide) oneTick_armed oneTick_completes).2 _ _ rfl).2 rfl

end Window

end Profiler
