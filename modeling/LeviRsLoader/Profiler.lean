import LeviRsLoader.Lib.Runs
import LeviRsLoader.NativeTexts

/-!
# The tick profiler

Five timing detours on engine calls that nest, one sampling window at a time, and a report that is
handed out once. A window is armed and a report is asked for from anywhere, also from inside a tick.
-/
namespace Profiler

open Runs Nbt Utf8 HookPayload NativeTexts
open HookCancel (r)

/-- The detours, by the engine call they time. -/
inductive Hook where
  | levelTick
  | dimensionTick
  | redstoneTick
  | chunkBlocks
  | blockEntities
  deriving DecidableEq

structure Bucket where
  ns : UInt64
  calls : UInt64

def Bucket.add (b : Bucket) (d : Nat) : Bucket := ⟨b.ns + UInt64.ofNat d, b.calls + 1⟩

def Bucket.reset : Bucket := ⟨0, 0⟩

structure ProfState where
  hooked : Bool
  sampling : Bool
  reportReady : Bool
  remaining : UInt32
  window : UInt32
  bucket : Hook → Bucket
  report : List Char

def ProfState.initial : ProfState := ⟨false, false, false, 0, 0, fun _ => Bucket.reset, []⟩

def bucketSnbt (name : String) (b : Bucket) : List Char :=
  "\"".toList ++ name.toList ++ "\":\x7b\"us\":".toList ++ Decimal.print (b.ns / 1000).toNat ++
    ",\"calls\":".toList ++ Decimal.print b.calls.toNat ++ "\x7d".toList

def reportText (window : UInt32) (bucket : Hook → Bucket) : List Char :=
  "\x7b\"ticks\":".toList ++ Decimal.print window.toNat ++
    ",\"buckets\":\x7b".toList ++ bucketSnbt "level_tick" (bucket .levelTick) ++
    ",".toList ++ bucketSnbt "dimension_tick" (bucket .dimensionTick) ++
    ",".toList ++ bucketSnbt "redstone" (bucket .redstoneTick) ++
    ",".toList ++ bucketSnbt "chunk_blocks" (bucket .chunkBlocks) ++
    ",".toList ++ bucketSnbt "block_entities" (bucket .blockEntities) ++ "\x7d\x7d".toList

def finishWindow (st : ProfState) : ProfState :=
  { st with sampling := false, report := reportText st.window st.bucket, reportReady := true }

def ProfState.addTo (st : ProfState) (h : Hook) (d : Nat) : ProfState :=
  { st with bucket := fun k => if k = h then (st.bucket h).add d else st.bucket k }

/-- A hook before `origin()`: whether it takes the time, which the fast path does not. -/
def hookBefore (st : ProfState) : Bool := st.hooked && st.sampling

/-- The four inner hooks after `origin()` has taken `d` nanoseconds. -/
def innerHookAfter (h : Hook) (d : Nat) (st : ProfState) : ProfState := st.addTo h d

def profDimensionTickHook := innerHookAfter .dimensionTick
def profRedstoneTickHook := innerHookAfter .redstoneTick
def profChunkBlocksHook := innerHookAfter .chunkBlocks
def profBlockEntitiesHook := innerHookAfter .blockEntities

def profLevelTickHook (d : Nat) (st : ProfState) : ProfState :=
  let st := st.addTo .levelTick d
  if 0 < st.remaining then
    let st := { st with remaining := st.remaining - 1 }
    if st.remaining = 0 then finishWindow st else st
  else st

def hookAfter : Hook → Nat → ProfState → ProfState
  | .levelTick => profLevelTickHook
  | .dimensionTick => profDimensionTickHook
  | .redstoneTick => profRedstoneTickHook
  | .chunkBlocks => profChunkBlocksHook
  | .blockEntities => profBlockEntitiesHook

def api_profile_begin (ticks : UInt32) (st : ProfState) : Bool × ProfState :=
  if ticks = 0 || ticks > 12000 then (false, st)
  else if st.sampling then (false, st)
  else (true, ⟨true, true, false, ticks, ticks, fun _ => Bucket.reset, []⟩)

/-- With the text the sink is given, if it is. -/
def api_profile_take (sink : Bool) (st : ProfState) : Bool × Option (List Char) × ProfState :=
  if !st.reportReady || !sink then (false, none, st)
  else (true, some st.report, { st with reportReady := false, report := [] })

/-- `Server::take_profile`: what the caller gets of the call. -/
def take_profile (F : Floats) (st : ProfState) : Except Fail (Option NbtValue) :=
  match api_profile_take true st with
  | (true, text, _) => (NbtValue.parse F (r (encode (text.getD [])))).map some
  | (false, _, _) => .ok none

/-! ## Runs -/

/-- An engine call in progress. -/
structure Frame where
  hook : Hook
  /-- `t0`, where the hook takes it. -/
  entered : Nat
  timed : Bool

structure State where
  prof : ProfState
  stack : List Frame
  /-- The clock at the last step; it never goes back. -/
  clock : Nat

def State.initial : State := ⟨ProfState.initial, [], 0⟩

inductive Label where
  | enter (h : Hook) (now : Nat)
  | leave (now : Nat)
  | begin (ticks : UInt32) (now : Nat)
  | take (sink : Bool) (now : Nat)

def Label.now : Label → Nat
  | .enter _ now => now
  | .leave now => now
  | .begin _ now => now
  | .take _ now => now

def State.next (s : State) : Label → Option State
  | .enter h now => some ⟨s.prof, ⟨h, now, hookBefore s.prof⟩ :: s.stack, now⟩
  | .leave now =>
    match s.stack with
    | [] => none
    | f :: rest => some ⟨if f.timed then hookAfter f.hook (now - f.entered) s.prof else s.prof, rest, now⟩
  | .begin ticks now => some ⟨(api_profile_begin ticks s.prof).2, s.stack, now⟩
  | .take sink now => some ⟨(api_profile_take sink s.prof).2.2, s.stack, now⟩

def Step (s : State) (l : Label) (t : State) : Prop := s.clock ≤ l.now ∧ s.next l = some t

abbrev Trace := List (State × Label)

/-! ## What a report has to say -/

/-- How long the call took that ends here, if it is one of `h` and was timed. -/
def timedCall (h : Hook) (e : State × Label) : Option Nat :=
  match e.2, e.1.stack with
  | .leave now, f :: _ => if f.hook = h ∧ f.timed = true then some (now - f.entered) else none
  | _, _ => none

/-- The timed calls of `h` that end in this part of a run. -/
def timedCalls (h : Hook) (tr : Trace) : List Nat := tr.filterMap (timedCall h)

def totals (tr : Trace) (h : Hook) : Bucket :=
  ⟨UInt64.ofNat (timedCalls h tr).sum, UInt64.ofNat (timedCalls h tr).length⟩

/-- The entry arms a window. -/
def Arms (e : State × Label) : Prop := ∃ w t, e.2 = .begin w t ∧ (api_profile_begin w e.1.prof).1 = true

/-- The entry hands a report out. -/
def HandsOut (e : State × Label) : Prop := ∃ sink now, e.2 = .take sink now ∧ (api_profile_take sink e.1.prof).1 = true

/-- An entry that arms nothing and hands nothing out. -/
def Quiet (e : State × Label) : Prop := ¬Arms e ∧ ¬HandsOut e

/-- `win` is what has happened since a window of `w` ticks was armed, in the state
`b` and at the time `t`: no other one has been since, and no report has been handed out. -/
def Armed (tr : Trace) (b : State) (w : UInt32) (t : Nat) (win : Trace) : Prop :=
  ∃ before, tr = before ++ (b, .begin w t) :: win ∧ Arms (b, .begin w t) ∧ ∀ e ∈ win, Quiet e

/-- The part ends with the last level tick of a window of `w`. -/
def Completes (w : UInt32) (part : Trace) : Prop :=
  (timedCalls .levelTick part).length = w.toNat ∧ ∃ init e, part = init ++ [e] ∧ timedCall .levelTick e ≠ none

def bucketValue (b : Bucket) : NbtValue :=
  .compound [("calls", number b.calls.toNat), ("us", number (b.ns / 1000).toNat)]

def reportValue (w : UInt32) (bucket : Hook → Bucket) : NbtValue :=
  .compound [("buckets", .compound [("block_entities", bucketValue (bucket .blockEntities)),
    ("chunk_blocks", bucketValue (bucket .chunkBlocks)), ("dimension_tick", bucketValue (bucket .dimensionTick)),
    ("level_tick", bucketValue (bucket .levelTick)), ("redstone", bucketValue (bucket .redstoneTick))]),
    ("ticks", number w.toNat)]

/-- A report over `part` is due: the window has been completed and no other
one armed, and the report has not been handed out. -/
def Due (tr : Trace) (w : UInt32) (part : Trace) : Prop :=
  ∃ b t after, Armed tr b w t (part ++ after) ∧ Completes w part

/-! ## Windows in a growing trace -/

section Windows

variable {tr win win' : Trace} {e : State × Label} {b b' : State} {w w' : UInt32} {t t' : Nat} {h : Hook}

theorem timedCalls_concat :
    timedCalls h (tr ++ [e]) = timedCalls h tr ++ (timedCall h e).toList := by
  rw [timedCalls, List.filterMap_append, timedCalls]
  cases hc : timedCall h e <;> simp [hc]

theorem totals_of_untimed (hc : timedCall h e = none) : totals (tr ++ [e]) h = totals tr h := by
  simp [totals, timedCalls_concat, hc]

theorem totals_of_timed {d : Nat} (hc : timedCall h e = some d) : totals (tr ++ [e]) h = (totals tr h).add d := by
  simp [totals, Bucket.add, timedCalls_concat, hc, UInt64.ofNat_add]

theorem armed_concat : Armed (tr ++ [e]) b w t win ↔
    (e = (b, .begin w t) ∧ Arms e ∧ win = []) ∨ ∃ win', win = win' ++ [e] ∧ Armed tr b w t win' ∧ Quiet e := by
  constructor
  · rintro ⟨before, htr, ha, hwin⟩
    induction win using List.reverseRecOn with
    | nil =>
      obtain ⟨-, hlast⟩ := List.append_inj' htr rfl
      obtain rfl := List.singleton_inj.mp hlast
      exact .inl ⟨rfl, ha, rfl⟩
    | append_singleton win x =>
      rw [← List.cons_append, ← List.append_assoc] at htr
      obtain ⟨rfl, hlast⟩ := List.append_inj' htr rfl
      obtain rfl := List.singleton_inj.mp hlast
      exact .inr ⟨win, rfl, ⟨before, rfl, ha, fun x hx => hwin x (by simp [hx])⟩, hwin e (by simp)⟩
  · rintro (⟨rfl, ha, rfl⟩ | ⟨win', rfl, ⟨before, rfl, ha, hwin⟩, he⟩)
    · exact ⟨tr, rfl, ha, by simp⟩
    · refine ⟨before, by simp, ha, fun x hx => ?_⟩
      rcases List.mem_append.mp hx with hx | hx
      · exact hwin x hx
      · exact List.mem_singleton.mp hx ▸ he

theorem not_armed_nil : ¬Armed [] b w t win := by
  rintro ⟨before, htr, -⟩
  simp at htr

/-- The window that was armed last is the only one. -/
theorem Armed.unique (h : Armed tr b w t win) (h' : Armed tr b' w' t' win') :
    b = b' ∧ w = w' ∧ t = t' ∧ win = win' := by
  induction tr using List.reverseRecOn generalizing win win' with
  | nil => exact absurd h not_armed_nil
  | append_singleton tr e ih =>
    rcases armed_concat.mp h with ⟨he, ha, rfl⟩ | ⟨v, rfl, hv, hn, -⟩
    · rcases armed_concat.mp h' with ⟨he', -, rfl⟩ | ⟨v', -, -, hn', -⟩
      · rw [he] at he'
        cases he'
        exact ⟨rfl, rfl, rfl, rfl⟩
      · exact absurd ha hn'
    · rcases armed_concat.mp h' with ⟨-, ha', -⟩ | ⟨v', rfl, hv', -, -⟩
      · exact absurd ha' hn
      · obtain ⟨rfl, rfl, rfl, rfl⟩ := ih hv hv'
        exact ⟨rfl, rfl, rfl, rfl⟩

theorem Armed.concat (h : Armed tr b w t win) (he : Quiet e) : Armed (tr ++ [e]) b w t (win ++ [e]) :=
  armed_concat.mpr (.inr ⟨win, rfl, h, he⟩)

theorem not_armed_concat (h : ∀ b w t win, ¬Armed tr b w t win) (he : ¬Arms e) :
    ∀ b w t win, ¬Armed (tr ++ [e]) b w t win := by
  intro b w t win hw
  rcases armed_concat.mp hw with ⟨-, ha, -⟩ | ⟨win', -, hw', -⟩
  · exact he ha
  · exact h b w t win' hw'

theorem not_armed_of_handsOut (he : HandsOut e) : ∀ b w t win, ¬Armed (tr ++ [e]) b w t win := by
  intro b w t win hw
  rcases armed_concat.mp hw with ⟨-, ⟨_, _, hl, -⟩, -⟩ | ⟨win', -, -, -, hn⟩
  · obtain ⟨sink, now, hl', -⟩ := he
    rw [hl] at hl'
    cases hl'
  · exact hn he

end Windows

/-! ## The profiler's state follows the windows -/

/-- What the state says of the run so far. -/
inductive Follows (tr : Trace) (st : ProfState) : Prop where
  | idle (hs : st.sampling = false) (hready : st.reportReady = false) (hrem : st.remaining = 0)
      (hnone : ∀ b w t win, ¬Armed tr b w t win)
  | open (hs : st.sampling = true) (hready : st.reportReady = false) {b : State} {t : Nat} {win : Trace}
      (harmed : Armed tr b st.window t win)
      (hleft : (timedCalls .levelTick win).length + st.remaining.toNat = st.window.toNat) (hrem : 0 < st.remaining)
      (hbucket : st.bucket = totals win)
  | ready (hs : st.sampling = false) (hready : st.reportReady = true) (hrem : st.remaining = 0) {b : State}
      {w : UInt32} {t : Nat} {part after : Trace} (harmed : Armed tr b w t (part ++ after)) (hpart : Completes w part)
      (hreport : st.report = reportText w (totals part))

theorem api_profile_begin_cases (ticks : UInt32) (st : ProfState) :
    ((api_profile_begin ticks st).1 = false ∧ (api_profile_begin ticks st).2 = st) ∨
    (st.sampling = false ∧ 0 < ticks ∧
      api_profile_begin ticks st = (true, ⟨true, true, false, ticks, ticks, fun _ => Bucket.reset, []⟩)) := by
  unfold api_profile_begin
  split
  next => exact .inl ⟨rfl, rfl⟩
  next hrange =>
  split
  next => exact .inl ⟨rfl, rfl⟩
  next hs =>
    simp only [Bool.or_eq_true, decide_eq_true_eq, not_or] at hrange
    have hpos : 0 < ticks := UInt32.pos_iff_ne_zero.mpr hrange.1
    exact .inr ⟨by simpa using hs, hpos, rfl⟩

theorem api_profile_take_cases (sink : Bool) (st : ProfState) :
    ((api_profile_take sink st).1 = false ∧ (api_profile_take sink st).2.2 = st) ∨
    (st.reportReady = true ∧ (api_profile_take sink st).1 = true ∧
      (api_profile_take sink st).2.2 = { st with reportReady := false, report := [] }) := by
  unfold api_profile_take
  cases hr : st.reportReady <;> cases sink <;> simp

theorem hookAfter_of_ne {h : Hook} (hne : h ≠ .levelTick) (d : Nat) (st : ProfState) :
    hookAfter h d st = st.addTo h d := by
  cases h with
  | levelTick => exact absurd rfl hne
  | _ => rfl

theorem profLevelTickHook_of_zero {st : ProfState} (hrem : st.remaining = 0) (d : Nat) :
    profLevelTickHook d st = st.addTo .levelTick d := by
  have : (st.addTo .levelTick d).remaining = 0 := hrem
  simp [profLevelTickHook, this]

section Step

variable {tr : Trace} {st : ProfState} {e : State × Label}

theorem Follows.quiet (h : Follows tr st) (he : Quiet e) (hc : ∀ k, timedCall k e = none) :
    Follows (tr ++ [e]) st := by
  cases h with
  | idle hs hready hrem hnone => exact .idle hs hready hrem (not_armed_concat hnone he.1)
  | «open» hs hready harmed hleft hrem hbucket =>
    refine .open hs hready (harmed.concat he) ?_ hrem ?_
    · rw [timedCalls_concat, hc]
      simpa using hleft
    · rw [hbucket]
      funext k
      exact (totals_of_untimed (hc k)).symm
  | ready hs hready hrem harmed hpart hreport =>
    have harmed' := harmed.concat he
    rw [List.append_assoc] at harmed'
    exact .ready hs hready hrem harmed' hpart hreport

theorem totals_addTo {win : Trace} {h : Hook} {d : Nat} (hbucket : st.bucket = totals win)
    (hc : ∀ k, timedCall k e = if k = h then some d else none) :
    (st.addTo h d).bucket = totals (win ++ [e]) := by
  funext k
  have hk := hc k
  show (if k = h then (st.bucket h).add d else st.bucket k) = _
  split_ifs at hk ⊢ with hkh
  · subst hkh
    rw [hbucket, totals_of_timed hk]
  · rw [hbucket, totals_of_untimed hk]

/-- A timed call ends: only a level tick of an open window counts it down, and the last one ends the window. -/
theorem Follows.timed {h : Hook} {d : Nat} (hf : Follows tr st) (he : Quiet e)
    (hc : ∀ k, timedCall k e = if k = h then some d else none) : Follows (tr ++ [e]) (hookAfter h d st) := by
  by_cases hlevel : h = .levelTick
  · subst hlevel
    have hcl : timedCall .levelTick e = some d := hc .levelTick
    cases hf with
    | idle hs hready hrem hnone =>
      show Follows _ (profLevelTickHook d st)
      rw [profLevelTickHook_of_zero hrem]
      exact .idle hs hready hrem (not_armed_concat hnone he.1)
    | @«open» hs hready b t win harmed hleft hrem hbucket =>
      have htotals : (st.addTo .levelTick d).bucket = totals _ := totals_addTo hbucket hc
      have hone : (1 : UInt32) ≤ st.remaining := by
        rw [UInt32.le_iff_toNat_le]
        exact UInt32.lt_iff_toNat_lt.mp hrem
      have hless : (st.remaining - 1).toNat + 1 = st.remaining.toNat := by
        rw [UInt32.toNat_sub_of_le _ _ hone]
        exact Nat.sub_add_cancel (UInt32.le_iff_toNat_le.mp hone)
      have hleft' : (timedCalls .levelTick (win ++ [e])).length + (st.remaining - 1).toNat = st.window.toNat := by
        rw [timedCalls_concat, hcl, Option.toList_some, List.length_append, List.length_singleton]
        omega
      have hrem' : 0 < (st.addTo .levelTick d).remaining := hrem
      show Follows _ (profLevelTickHook d st)
      unfold profLevelTickHook
      dsimp only
      rw [if_pos hrem']
      split
      next hzero =>
        have hzero' : (st.remaining - 1).toNat = 0 := by
          rw [show st.remaining - 1 = 0 from hzero]
          rfl
        have hpart : Completes st.window (win ++ [e]) := by
          refine ⟨by omega, win, e, rfl, ?_⟩
          rw [hcl]
          exact Option.some_ne_none d
        have harmed' : Armed (tr ++ [e]) b st.window t (win ++ [e] ++ []) := by
          rw [List.append_nil]
          exact harmed.concat he
        refine .ready rfl rfl hzero harmed' hpart ?_
        show reportText st.window (st.addTo .levelTick d).bucket = _
        rw [htotals]
      next hmore =>
        exact .open hs hready (harmed.concat he) hleft' (UInt32.pos_iff_ne_zero.mpr hmore) htotals
    | ready hs hready hrem harmed hpart hreport =>
      show Follows _ (profLevelTickHook d st)
      rw [profLevelTickHook_of_zero hrem]
      have harmed' := harmed.concat he
      rw [List.append_assoc] at harmed'
      exact .ready hs hready hrem harmed' hpart hreport
  · rw [hookAfter_of_ne hlevel]
    have hcl : timedCall .levelTick e = none := by
      rw [hc, if_neg (Ne.symm hlevel)]
    cases hf with
    | idle hs hready hrem hnone => exact .idle hs hready hrem (not_armed_concat hnone he.1)
    | «open» hs hready harmed hleft hrem hbucket =>
      refine .open hs hready (harmed.concat he) ?_ hrem (totals_addTo hbucket hc)
      rw [timedCalls_concat, hcl, Option.toList_none, List.append_nil]
      exact hleft
    | ready hs hready hrem harmed hpart hreport =>
      have harmed' := harmed.concat he
      rw [List.append_assoc] at harmed'
      exact .ready hs hready hrem harmed' hpart hreport

theorem quiet_enter (s : State) (h : Hook) (now : Nat) : Quiet (s, .enter h now) := by
  constructor
  · rintro ⟨w, t, hl, -⟩
    cases hl
  · rintro ⟨sink, now', hl, -⟩
    cases hl

theorem quiet_leave (s : State) (now : Nat) : Quiet (s, .leave now) := by
  constructor
  · rintro ⟨w, t, hl, -⟩
    cases hl
  · rintro ⟨sink, now', hl, -⟩
    cases hl

theorem quiet_begin {s : State} {ticks : UInt32} (now : Nat) (hno : (api_profile_begin ticks s.prof).1 = false) :
    Quiet (s, .begin ticks now) := by
  constructor
  · rintro ⟨w, t, hl, hyes⟩
    cases hl
    rw [hno] at hyes
    cases hyes
  · rintro ⟨sink, now', hl, -⟩
    cases hl

theorem quiet_take {s : State} {sink : Bool} (now : Nat) (hno : (api_profile_take sink s.prof).1 = false) :
    Quiet (s, .take sink now) := by
  constructor
  · rintro ⟨w, t, hl, -⟩
    cases hl
  · rintro ⟨sink', now', hl, hyes⟩
    cases hl
    rw [hno] at hyes
    cases hyes

theorem follows_step {s t : State} {l : Label} (hf : Follows tr s.prof) (h : Step s l t) :
    Follows (tr ++ [(s, l)]) t.prof := by
  obtain ⟨-, hnext⟩ := h
  cases l with
  | enter h now =>
    obtain rfl := Option.some.inj hnext
    exact hf.quiet (quiet_enter s h now) fun _ => rfl
  | leave now =>
    obtain ⟨prof, stack, clock⟩ := s
    cases stack with
    | nil => cases hnext
    | cons f rest =>
      obtain rfl := Option.some.inj hnext
      cases hft : f.timed with
      | false =>
        refine hf.quiet (quiet_leave _ now) fun k => ?_
        simp [timedCall, hft]
      | true =>
        refine hf.timed (quiet_leave _ now) fun k => ?_
        simp [timedCall, hft, eq_comm]
  | begin ticks now =>
    obtain rfl := Option.some.inj hnext
    rcases api_profile_begin_cases ticks s.prof with ⟨hno, hst⟩ | ⟨hs, hpos, heq⟩
    · show Follows _ (api_profile_begin ticks s.prof).2
      rw [hst]
      exact hf.quiet (quiet_begin now hno) fun _ => rfl
    · show Follows _ (api_profile_begin ticks s.prof).2
      rw [heq]
      have harms : Arms (s, .begin ticks now) := ⟨ticks, now, rfl, by rw [heq]⟩
      have hleft : (timedCalls .levelTick []).length + ticks.toNat = ticks.toNat := Nat.zero_add _
      exact .open rfl rfl (armed_concat.mpr (.inl ⟨rfl, harms, rfl⟩)) hleft hpos rfl
  | take sink now =>
    obtain rfl := Option.some.inj hnext
    rcases api_profile_take_cases sink s.prof with ⟨hno, hst⟩ | ⟨hready, hyes, hst⟩
    · show Follows _ (api_profile_take sink s.prof).2.2
      rw [hst]
      exact hf.quiet (quiet_take now hno) fun _ => rfl
    · have hnone : ∀ b w t win, ¬Armed (tr ++ [(s, .take sink now)]) b w t win :=
        not_armed_of_handsOut ⟨sink, now, rfl, hyes⟩
      show Follows _ (api_profile_take sink s.prof).2.2
      rw [hst]
      cases hf with
      | idle hs _ hrem _ => exact .idle hs rfl hrem hnone
      | «open» _ hready' _ _ _ _ =>
        rw [hready] at hready'
        cases hready'
      | ready hs _ hrem _ _ _ => exact .idle hs rfl hrem hnone

theorem follows_run {s : State} (h : Run Step State.initial tr s) : Follows tr s.prof := by
  refine h.traceInvariant (G := fun _ _ => True) (fun tr s => Follows tr s.prof) (by simp [Meets]) ?_ ?_
  · exact .idle rfl rfl rfl fun _ _ _ _ => not_armed_nil
  · exact fun _ _ _ _ hf _ hs => follows_step hf hs

end Step

/-! ## Reading a report -/

section Reading

variable {F : Floats}

def bucketEntries (b : Bucket) : List Entry :=
  [⟨"us", Decimal.print (b.ns / 1000).toNat, number (b.ns / 1000).toNat⟩,
    ⟨"calls", Decimal.print b.calls.toNat, number b.calls.toNat⟩]

def bucketEntry (name : String) (b : Bucket) : Entry := ⟨name, bracedText (bucketEntries b), bucketValue b⟩

def bucketsEntries (bucket : Hook → Bucket) : List Entry :=
  [bucketEntry "level_tick" (bucket .levelTick), bucketEntry "dimension_tick" (bucket .dimensionTick),
    bucketEntry "redstone" (bucket .redstoneTick), bucketEntry "chunk_blocks" (bucket .chunkBlocks),
    bucketEntry "block_entities" (bucket .blockEntities)]

def reportEntries (w : UInt32) (bucket : Hook → Bucket) : List Entry :=
  [⟨"ticks", Decimal.print w.toNat, number w.toNat⟩,
    ⟨"buckets", bracedText (bucketsEntries bucket), .compound (mapOf (bucketsEntries bucket))⟩]

theorem bucketSnbt_eq {name : String} (hname : write_quoted name = "\"".toList ++ name.toList ++ ['"']) (b : Bucket) :
    bucketSnbt name b = (bucketEntry name b).print := by
  have hus : "\":\x7b\"us\":".toList = '"' :: ':' :: '{' :: (write_quoted "us" ++ [':']) := by decide
  have hcalls : ",\"calls\":".toList = ',' :: (write_quoted "calls" ++ [':']) := by decide
  have hclose : "\x7d".toList = ['}'] := by decide
  rw [bucketSnbt, hus, hcalls, hclose, bucketEntry, Entry.print, entryText, hname]
  simp [bucketEntries, bracedText, writeSep, Entry.print, entryText]

theorem reportText_eq (w : UInt32) (bucket : Hook → Bucket) :
    reportText w bucket = bracedText (reportEntries w bucket) := by
  have hticks : "\x7b\"ticks\":".toList = '{' :: (write_quoted "ticks" ++ [':']) := by decide
  have hbuckets : ",\"buckets\":\x7b".toList = ',' :: (write_quoted "buckets" ++ [':', '{']) := by decide
  have hcomma : ",".toList = [','] := by decide
  have hclose : "\x7d\x7d".toList = ['}', '}'] := by decide
  unfold reportText
  simp (disch := decide) only [hticks, hbuckets, hcomma, hclose, bucketSnbt_eq, reportEntries, bucketsEntries,
    bracedText, Entry.print, entryText, writeSep, List.append_assoc, List.cons_append, List.nil_append,
    Bool.false_eq_true, ↓reduceIte]

theorem reads_bucketEntry (n : Nat) (name : String) (b : Bucket) :
    ReadsText (value F (n + 2)) (bucketEntry name b).text (bucketEntry name b).value := by
  have hvalue : bucketValue b = .compound (mapOf (bucketEntries b)) := by
    simp only [bucketValue, mapOf, bucketEntries, List.foldl_cons, List.foldl_nil, insertEntry, String.reduceLT,
      ↓reduceIte]
  show ReadsText _ (bracedText (bucketEntries b)) (bucketValue b)
  rw [hvalue]
  refine reads_braced _ _ fun u hu => ?_
  rcases List.mem_pair.mp hu with rfl | rfl
  · exact reads_number n (b.ns / 1000).toNat
  · exact reads_number n b.calls.toNat

theorem mapOf_bucketsEntries (bucket : Hook → Bucket) :
    mapOf (bucketsEntries bucket) = [("block_entities", bucketValue (bucket .blockEntities)),
      ("chunk_blocks", bucketValue (bucket .chunkBlocks)), ("dimension_tick", bucketValue (bucket .dimensionTick)),
      ("level_tick", bucketValue (bucket .levelTick)), ("redstone", bucketValue (bucket .redstoneTick))] := by
  simp only [mapOf, bucketsEntries, bucketEntry, List.foldl_cons, List.foldl_nil, insertEntry, String.reduceLT,
    String.reduceEq, ↓reduceIte]

theorem parse_report (w : UInt32) (bucket : Hook → Bucket) :
    NbtValue.parse F (r (encode (reportText w bucket))) = .ok (reportValue w bucket) := by
  have hvalue : reportValue w bucket = .compound (mapOf (reportEntries w bucket)) := by
    rw [reportValue, mapOf, reportEntries, mapOf_bucketsEntries]
    simp only [List.foldl_cons, List.foldl_nil, insertEntry, String.reduceLT, ↓reduceIte]
  rw [reportText_eq, hvalue]
  refine parse_braced 4 _ _ ?_ fun n u hu => ?_
  · simp [bracedText, writeSep, Entry.print, entryText, write_quoted]
    omega
  · rcases List.mem_pair.mp hu with rfl | rfl
    · exact reads_number (n + 3) w.toNat
    · refine reads_braced _ _ fun u hu => ?_
      simp only [List.mem_cons, List.not_mem_nil, or_false] at hu
      rcases hu with rfl | rfl | rfl | rfl | rfl <;> exact reads_bucketEntry _ _ _

end Reading

theorem Completes.eq_nil {w : UInt32} {part mid : Trace} (h : Completes w part) (h' : Completes w (part ++ mid)) :
    mid = [] := by
  obtain ⟨hlen, -⟩ := h
  obtain ⟨hlen', init, e, hpart, he⟩ := h'
  induction mid using List.reverseRecOn with
  | nil => rfl
  | append_singleton mid x =>
    rw [← List.append_assoc] at hpart hlen'
    obtain ⟨-, hlast⟩ := List.append_inj' hpart rfl
    obtain rfl := List.singleton_inj.mp hlast
    obtain ⟨d, hd⟩ := Option.ne_none_iff_exists'.mp he
    rw [timedCalls_concat, timedCalls, List.filterMap_append, ← timedCalls, ← timedCalls, hd, Option.toList_some,
      List.length_append, List.length_append, List.length_singleton] at hlen'
    omega

/-- Two parts of one trace that both end with the last tick of the window are the same. -/
theorem Completes.unique {w : UInt32} {part part' after after' : Trace} (h : Completes w part)
    (h' : Completes w part') (heq : part ++ after = part' ++ after') : part = part' := by
  rcases List.append_eq_append_iff.mp heq with ⟨mid, rfl, -⟩ | ⟨mid, rfl, -⟩
  · rw [h.eq_nil h', List.append_nil]
  · rw [h'.eq_nil h, List.append_nil]

/-- What `take_profile` gives at any moment of any run: the report of the window that is due,
with the exact totals of the calls timed in it, and nothing where no window is. -/
theorem take_profile_due (F : Floats) {tr : Trace} {s : State} (h : Run Step State.initial tr s) :
    (∀ w part, Due tr w part → take_profile F s.prof = .ok (some (reportValue w (totals part)))) ∧
      ((∀ w part, ¬Due tr w part) → take_profile F s.prof = .ok none) := by
  have hnone (hready : s.prof.reportReady = false) : take_profile F s.prof = .ok none := by
    simp [take_profile, api_profile_take, hready]
  cases follows_run h with
  | idle hs hready hrem hno =>
    exact ⟨fun w part ⟨b, t, after, harmed, _⟩ => absurd harmed (hno b w t _), fun _ => hnone hready⟩
  | «open» hs hready harmed hleft hrem hbucket =>
    refine ⟨fun w part ⟨b, t, after, harmed', hpart⟩ => ?_, fun _ => hnone hready⟩
    -- an open window has seen fewer level ticks than it needs
    obtain ⟨-, rfl, -, rfl⟩ := harmed.unique harmed'
    have hpos := UInt32.lt_iff_toNat_lt.mp hrem
    rw [timedCalls, List.filterMap_append, List.length_append] at hleft
    have hall := hpart.1
    rw [timedCalls] at hall
    change 0 < s.prof.remaining.toNat at hpos
    omega
  | @ready hs hready hrem b w t part after harmed hpart hreport =>
    have htake : take_profile F s.prof = .ok (some (reportValue w (totals part))) := by
      simp only [take_profile, api_profile_take, hready, Bool.not_true, Bool.or_self, Bool.false_eq_true, if_false,
        Option.getD_some, hreport]
      rw [parse_report]
      rfl
    refine ⟨fun w' part' ⟨b', t', after', harmed', hpart'⟩ => ?_,
      fun hno => absurd ⟨b, t, after, harmed, hpart⟩ (hno w part)⟩
    obtain ⟨-, rfl, -, heq⟩ := harmed.unique harmed'
    rw [hpart.unique hpart' heq] at htake
    exact htake

/-- A window of one tick: a level tick of 29990 ns with a dimension tick of 8000 ns in it. -/
def oneTick : Trace :=
  let armed : ProfState := (api_profile_begin 1 ProfState.initial).2
  [(State.initial, .begin 1 5), (⟨armed, [], 5⟩, .enter .levelTick 10),
    (⟨armed, [⟨.levelTick, 10, true⟩], 10⟩, .enter .dimensionTick 12000),
    (⟨armed, [⟨.dimensionTick, 12000, true⟩, ⟨.levelTick, 10, true⟩], 12000⟩, .leave 20000),
    (⟨hookAfter .dimensionTick 8000 armed, [⟨.levelTick, 10, true⟩], 20000⟩, .leave 30000)]

def oneTickEnd : State :=
  ⟨hookAfter .levelTick 29990 (hookAfter .dimensionTick 8000 (api_profile_begin 1 ProfState.initial).2), [], 30000⟩

theorem oneTick_run : Run Step State.initial oneTick oneTickEnd :=
  .cons ⟨by decide, rfl⟩ (.cons ⟨by decide, rfl⟩ (.cons ⟨by decide, rfl⟩ (.cons ⟨by decide, rfl⟩
    (.cons ⟨by decide, rfl⟩ (.nil _)))))

theorem oneTick_armed : Armed oneTick State.initial 1 5 (oneTick.drop 1 ++ []) := by
  refine ⟨[], rfl, ⟨1, 5, rfl, rfl⟩, fun e he => ?_⟩
  simp only [oneTick, List.drop_succ_cons, List.drop_zero, List.append_nil, List.mem_cons, List.not_mem_nil,
    or_false] at he
  rcases he with rfl | rfl | rfl | rfl
  · exact quiet_enter _ _ _
  · exact quiet_enter _ _ _
  · exact quiet_leave _ _
  · exact quiet_leave _ _

theorem oneTick_completes : Completes 1 (oneTick.drop 1) :=
  ⟨rfl, (oneTick.drop 1).dropLast, _, rfl, by simp [timedCall]⟩

theorem take_profile_due_oneTick :
    take_profile noFloats oneTickEnd.prof = .ok (some (reportValue 1 (totals (oneTick.drop 1)))) :=
  (take_profile_due noFloats oneTick_run).1 1 _ ⟨_, _, _, oneTick_armed, oneTick_completes⟩

end Profiler
