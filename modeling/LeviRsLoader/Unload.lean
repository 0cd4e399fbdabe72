import LeviRsLoader.Lifecycle

/-!
# Unloading a mod

While an unload is under way every entry of its mod is the business of some
instruction that is still to run before the library is freed. A call made in
between, by a `release` that runs meanwhile, keeps this true as long as what it
registers is still ahead of its sweep.
-/
namespace Lifecycle

open LeviRs Lane Loader Nesting Runs

variable {env : Env} {w w' : World} {i : Instr} {new : List Instr} {m : ModId} {e : Entry}

/-- The entry an instruction makes, and whose it is. -/
def Instr.registers (env : Env) (s : Loader.State) : Instr → Option (Entry × ModId)
  | .call c => c.registers env s
  | .lane (.publish live mod name desc) => (Call.api_lane_publish live mod name desc).registers env s
  | .lane (.acquire live mod name want out) => (Call.api_lane_acquire live mod name want out).registers env s
  | _ => none

/-- The entries of a mod an instruction takes out, or sees to it that they are. -/
def Instr.clears (m : ModId) (e : Entry) : Instr → Bool
  | .sweep v m' => m' = m && e.sweep = some v
  | .lane (.collectLeases m') => m' = m && (e matches .lease _)
  | .lane (.dropLease id) => e = .lease id
  | .lane (.collectPublished m') => m' = m && (e matches .lane _)
  | .lane (.retireLane id) => e = .lane id
  | _ => false

/-- Nothing of the mod is left, but for the listeners, which its `RustMod` keeps. -/
def Gone (env : Env) (m : ModId) (s : Loader.State) : Prop := ∀ e, e.keptByMod = false → ¬s.Owns env m e

/-- What is registered for the mod while it is being unloaded still has its sweep ahead. -/
def InTime (env : Env) (m : ModId) (p : State) (l : Event) : Prop :=
  ∀ i e, l = .exec i → i.registers env p.state.loader = some (e, m) → e.keptByMod = false →
    ∀ pre name post, p.stack.tail = pre ++ .libFree name m :: post → ∃ j ∈ pre, j.clears m e

/-- Every entry of the mod is taken out before its library is freed. -/
structure Swept (env : Env) (m : ModId) (s : Loader.State) (stack : List Instr) : Prop where
  wellFormed : s.WellFormed
  ahead : ∀ e, e.keptByMod = false → s.Owns env m e →
    ∀ pre name post, stack = pre ++ .libFree name m :: post → ∃ j ∈ pre, j.clears m e

/-! ## What an instruction does to the entries -/

theorem owns_laneExec {s : Loader.State} {i : LaneProtocol.Instr} {new : List LaneProtocol.Instr} {x : Lanes}
    (hs : s.WellFormed) (hx : LaneProtocol.Exec i s.lane new x) (h : { s with lane := x }.Owns env m e) :
    s.Owns env m e ∨ (Instr.lane i).registers env s = some (e, m) := by
  cases hx with
  | publish live mod name desc =>
    refine (owns_of_has (by rfl) (fun _ => has_lanePublish hs) h).imp_right fun hmade => ?_
    change (Call.api_lane_publish live mod name desc).registers env s = some (e, m)
    exact Call.registers_of_makes (by simp) hmade
  | acquire live mod name want out =>
    refine (owns_of_has (by rfl) (fun _ => has_laneAcquire) h).imp_right fun hmade => ?_
    change (Call.api_lane_acquire live mod name want out).registers env s = some (e, m)
    exact Call.registers_of_makes (by simp) hmade
  | unpublish => exact .inl h
  | retireLane laneId => exact .inl (owns_of_has' (by rfl) (fun _ => has_retireLane) h)
  | retain => exact .inl h
  | releaseLease mod leaseId => exact .inl (owns_of_has' (by rfl) (fun _ => has_laneRelease) h)
  | release => exact .inl h
  | collectLeases => exact .inl h
  | dropLease leaseId =>
    left
    unfold Lane.dropLease at h
    split at h
    · exact h
    · exact owns_of_has' (by rfl) (fun _ => has_takeLease) h
  | collectPublished => exact .inl h

theorem owns_finishLoad {s : Loader.State} {name : String} {m' : ModId} {ok : Bool} {abi_version : UInt32}
    (h : (finishLoad name m' ok abi_version s).2.Owns env m e) : s.Owns env m e := by
  unfold finishLoad at h
  split at h
  · exact h.of_dropRustMod
  · cases e <;> exact h

/-- A change of the cells alone touches no entry. -/
theorem owns_setLane {s : Lanes} (hs : ∃ cells, s = { w.lane with cells := cells })
    (h : (w.setLane s).loader.Owns env m e) : w.loader.Owns env m e := by
  obtain ⟨cells, rfl⟩ := hs
  cases e <;> exact h

/-- What the mod owns after an instruction it owned before, or the instruction registered it. -/
theorem Exec.owns (hx : Exec env i w new w') (hs : w.loader.WellFormed) (h : w'.loader.Owns env m e) :
    w.loader.Owns env m e ∨ i.registers env w.loader = some (e, m) := by
  cases hx with
  | call c => exact c.owns_apply hs h
  | lane hx => exact owns_laneExec hs hx h
  | foreign => exact .inl h
  | load_fails => exact .inl (owns_clearListeners h.of_dropRustMod)
  | load => exact .inl (owns_clearListeners h)
  | levi_rs_main => exact .inl (owns_finishLoad h)
  | unloadCheck => exact .inl h
  | refuses => exact .inl h
  | on_unload => exact .inl h
  | muteCommands => exact .inl (by cases e <;> exact h)
  | clearListeners => exact .inl (owns_clearListeners h)
  | sweep v m' => exact .inl (v.owns_apply m' h)
  | libFree_fails => exact .inl h
  | libFree => exact .inl (by have := h.of_dropRustMod; cases e <;> exact this)
  | laneWith ref => exact .inl (owns_setLane (laneWith_eq ref w.lane) h)
  | inside ref => exact .inl (owns_setLane (leave_eq ref.busy w.lane) h)

theorem wellFormed_laneExec {s : Loader.State} {i : LaneProtocol.Instr} {new : List LaneProtocol.Instr} {x : Lanes}
    (hs : s.WellFormed) (hx : LaneProtocol.Exec i s.lane new x) : { s with lane := x }.WellFormed :=
  hs.setLane hx.effect.next_le

theorem Exec.wellFormed (hx : Exec env i w new w') (hs : w.loader.WellFormed) : w'.loader.WellFormed := by
  have hsame : ∀ cells, (w.setLane { w.lane with cells := cells }).loader.WellFormed := fun _ =>
    hs.setLane (Nat.le_refl _)
  cases hx with
  | call c => exact c.wellFormed_apply hs
  | lane hx => exact wellFormed_laneExec hs hx
  | levi_rs_main name m ok abi_version =>
    dsimp only
    unfold finishLoad
    split <;> exact ⟨hs.task, hs.sub, hs.service, hs.lane, hs.binding⟩
  | sweep v m => exact v.wellFormed_apply hs m
  | laneWith ref =>
    obtain ⟨cells, hc⟩ := laneWith_eq ref w.lane
    rw [hc]
    exact hsame cells
  | inside ref =>
    obtain ⟨cells, hc⟩ := leave_eq ref.busy w.lane
    rw [hc]
    exact hsame cells
  | _ => exact ⟨hs.task, hs.sub, hs.service, hs.lane, hs.binding⟩

/-! ## What is still to run -/

def Instr.frees : Instr → Bool
  | .libFree _ _ => true
  | _ => false

/-- An instruction whose business an entry is takes it out or hands it on. -/
theorem Exec.clears (hx : Exec env i w new w') (hc : i.clears m e = true) (h : w'.loader.Owns env m e) :
    ∃ j ∈ new, j.clears m e = true := by
  cases hx with
  | sweep v m' =>
    simp only [Instr.clears, Bool.and_eq_true, decide_eq_true_eq] at hc
    obtain ⟨rfl, he⟩ := hc
    exact absurd h (Sweep.not_owns_apply he)
  | lane hx =>
    cases hx with
    | collectLeases m' ids s hp =>
      simp only [Instr.clears, Bool.and_eq_true, decide_eq_true_eq] at hc
      obtain ⟨rfl, he⟩ := hc
      cases e with
      | lease id =>
        obtain ⟨lease, hl, hm⟩ := h
        have hid : id ∈ ids := by
          rw [hp.mem_iff, leasesOf, AList.mem_keysIf]
          exact ⟨lease, hl, by simpa using hm⟩
        exact ⟨.lane (.dropLease id), by simp [hid], by simp [Instr.clears]⟩
      | _ => cases he
    | dropLease leaseId =>
      simp only [Instr.clears, decide_eq_true_eq] at hc
      subst hc
      obtain ⟨lease, hl, _⟩ := h
      exact absurd ((lookup_dropLease leaseId w.lane).symm.trans hl) (by simp)
    | collectPublished m' ids s hp =>
      simp only [Instr.clears, Bool.and_eq_true, decide_eq_true_eq] at hc
      obtain ⟨rfl, he⟩ := hc
      cases e with
      | lane id =>
        obtain ⟨lane, hl, hm⟩ := h
        have hid : id ∈ ids := by
          rw [hp.mem_iff, publishedBy, AList.mem_keysIf]
          exact ⟨lane, hl, by simpa using hm⟩
        exact ⟨.lane (.retireLane id), by simp [hid], by simp [Instr.clears]⟩
      | _ => cases he
    | retireLane laneId =>
      simp only [Instr.clears, decide_eq_true_eq] at hc
      subst hc
      obtain ⟨lane, hl, _⟩ := h
      rw [World.setLane, lookup_retireLane, if_pos rfl] at hl
      cases hl
    | _ => cases hc
  | _ => cases hc

/-- Each entry of the mod is some instruction's business while it is torn down. -/
theorem teardown_clears (m : ModId) {e : Entry} (he : e.keptByMod = false) : ∃ j ∈ teardown m, j.clears m e = true := by
  cases hs : e.sweep with
  | some v =>
    refine ⟨.sweep v m, ?_, by simp [Instr.clears, hs]⟩
    cases v <;> simp [teardown, onRustModGone]
  | none =>
    cases e with
    | lane id => exact ⟨.lane (.collectPublished m), by simp [teardown, onRustModGone, LaneProtocol.program],
        by simp [Instr.clears]⟩
    | lease id => exact ⟨.lane (.collectLeases m), by simp [teardown, onRustModGone, LaneProtocol.program],
        by simp [Instr.clears]⟩
    | listener id => cases he
    | _ => cases hs

theorem teardown_frees (m : ModId) : ∀ j ∈ teardown m, j.frees = false := by
  simp [teardown, onRustModGone, LaneProtocol.program, Instr.frees]

theorem program_frees (o : Op) : ∀ j ∈ program o, j.frees = false := by
  cases o with
  | call c =>
    simp only [program, callProgram]
    split <;> simp [Instr.frees]
  | _ => simp [program, Instr.frees]

/-- Only a mod that agrees to go puts a library up for freeing. -/
theorem Exec.frees (hx : Exec env i w new w') :
    (∀ j ∈ new, j.frees = false) ∨
    ∃ name m, i = .on_unload name m ∧ w' = w ∧ new = teardown m ++ [.libFree name m] := by
  cases hx with
  | lane hx =>
    rename_i i' _ _
    left
    intro j hj
    rcases List.mem_append.mp hj with hj | hj
    · obtain ⟨_, _, rfl⟩ := List.mem_map.mp hj
      rfl
    · cases i' <;> simp [callee] at hj <;> rw [hj] <;> rfl
  | on_unload name m => exact .inr ⟨name, m, rfl, rfl, rfl⟩
  | unloadCheck name =>
    left
    cases Lifecycle.unloadCheck name w.loader <;> simp [afterCheck, Instr.frees]
  | laneWith ref =>
    left
    cases (Lifecycle.laneWith ref w.lane).1 <;> simp [afterWith, Instr.frees]
  | _ => exact .inl (by simp [Instr.frees])

/-! ## Whole runs -/

theorem not_mem_of_frees {l pre q : List Instr} {name : String} (h : ∀ j ∈ l, j.frees = false)
    (hl : l = pre ++ .libFree name m :: q) : False := by
  have := h (.libFree name m) (by simp [hl])
  cases this

/-- Instructions that free nothing join the stack. -/
theorem Swept.push {s : Loader.State} {stack : List Instr} (h : Swept env m s stack)
    (hnew : ∀ j ∈ new, j.frees = false) : Swept env m s (new ++ stack) where
  wellFormed := h.wellFormed
  ahead e hkept howns pre name post heq := by
    obtain ⟨p, rfl, hstack⟩ | ⟨q, hq⟩ := append_eq_append_cons heq
    · obtain ⟨j, hj, hc⟩ := h.ahead e hkept howns p name post hstack
      exact ⟨j, List.mem_append_right new hj, hc⟩
    · exact (not_mem_of_frees hnew hq).elim

/-- The step lemma of `Swept`. -/
theorem Swept.exec {rest : List Instr} (h : Swept env m w.loader (i :: rest))
    (hG : ∀ e, i.registers env w.loader = some (e, m) → e.keptByMod = false →
      ∀ pre name post, rest = pre ++ .libFree name m :: post → ∃ j ∈ pre, j.clears m e)
    (hx : Exec env i w new w') : Swept env m w'.loader (new ++ rest) where
  wellFormed := hx.wellFormed h.wellFormed
  ahead e hkept howns pre name post heq := by
    obtain ⟨p, rfl, hrest⟩ | ⟨q, hq⟩ := append_eq_append_cons heq
    · have hcase := hx.owns h.wellFormed howns
      cases hcase with
      | inl hbefore =>
        have hpre : i :: rest = i :: p ++ .libFree name m :: post := by rw [hrest, List.cons_append]
        obtain ⟨j, hj, hc⟩ := h.ahead e hkept hbefore (i :: p) name post hpre
        rcases List.mem_cons.mp hj with rfl | hj
        · obtain ⟨k, hk, hkc⟩ := hx.clears hc howns
          exact ⟨k, List.mem_append_left p hk, hkc⟩
        · exact ⟨j, List.mem_append_right new hj, hc⟩
      | inr hreg =>
        obtain ⟨j, hj, hc⟩ := hG e hreg hkept p name post hrest
        exact ⟨j, List.mem_append_right new hj, hc⟩
    · obtain hnew | ⟨name', m', _, _, hnew⟩ := hx.frees
      · exact (not_mem_of_frees hnew hq).elim
      · -- the library put up for freeing, with the whole of the teardown before it
        rw [hnew] at hq
        obtain ⟨p, rfl, hlast⟩ | ⟨q', hq'⟩ := append_eq_append_cons hq
        · have hm : m' = m := by
            cases p with
            | nil =>
              obtain ⟨hi, -⟩ := List.cons_eq_cons.mp hlast
              cases hi
              rfl
            | cons y p => simp at hlast
          obtain ⟨j, hj, hc⟩ := teardown_clears m hkept
          exact ⟨j, List.mem_append_left p (hm ▸ hj), hc⟩
        · exact (not_mem_of_frees (teardown_frees m') hq').elim

theorem swept_start (env : Env) (m : ModId) (hookEvents : List String) :
    Swept env m (start hookEvents).state.loader (start hookEvents).stack where
  wellFormed := wellFormed_initial hookEvents
  ahead e _ howns := absurd howns (not_owns_initial env hookEvents m e)

variable {hookEvents : List String} {p : State} {tr : List (State × Event)}

/-- The run lemma: whatever of the mod is there while it is unloaded is still to be swept. -/
theorem swept_run (h : Run (LStep env) (start hookEvents) tr p) (hG : Meets (InTime env m) tr) :
    Swept env m p.state.loader p.stack := by
  refine nested_invariant (fun w stack => Swept env m w.loader stack) h hG (swept_start env m hookEvents) ?_ ?_
  · intro w stack o _ hs
    exact hs.push (program_frees o)
  · intro w i rest new w' hg hs hx
    exact hs.exec (fun e hreg hkept => hg i e rfl hreg hkept) hx

/-- When an unload reaches `lib.free()`, nothing of its mod is left in any
table, provided that whatever was registered for the mod while it was being
unloaded was registered ahead of its sweep. -/
theorem gone_at_libFree {name : String} {w : World} {rest : List Instr}
    (h : Run (LStep env) (start hookEvents) tr ⟨w, .libFree name m :: rest⟩) (hG : Meets (InTime env m) tr) :
    Gone env m w.loader := by
  intro e hkept howns
  obtain ⟨j, hj, _⟩ := (swept_run h hG).ahead e hkept howns [] name rest rfl
  cases hj

/-! ## A subscription that outlives its mod -/

/-- Reached by steps that register nothing late for mod 1. -/
abbrev InTimeReaches (p q : State) : Prop := Reaches (LStep quietEnv) (InTime quietEnv 1) p q

theorem InTimeReaches.start (o : Op) {stack : List Instr} {q : State} (ho : ∀ i ∈ stack.head?, i.opens = true)
    (h : InTimeReaches ⟨w, program o ++ stack⟩ q) : InTimeReaches ⟨w, stack⟩ q :=
  .head (.start w stack o ho) (by intro i e hi; cases hi) h

/-- An instruction that registers nothing. -/
theorem InTimeReaches.quiet {rest : List Instr} {q : State} (hx : Exec quietEnv i w new w')
    (hi : i.registers quietEnv w.loader = none) (h : InTimeReaches ⟨w', new ++ rest⟩ q) :
    InTimeReaches ⟨w, i :: rest⟩ q := by
  refine .head (.exec rest hx) ?_ h
  intro j e hj hreg
  cases hj
  rw [hi] at hreg
  cases hreg

/-- An instruction that runs while nothing is being unloaded. -/
theorem InTimeReaches.early {rest : List Instr} {q : State} (hx : Exec quietEnv i w new w')
    (hr : ∀ j ∈ rest, j.frees = false) (h : InTimeReaches ⟨w', new ++ rest⟩ q) :
    InTimeReaches ⟨w, i :: rest⟩ q :=
  .head (.exec rest hx) (fun _ _ _ _ _ _ _ _ heq => (not_mem_of_frees hr heq).elim) h

theorem provider_reached : InTimeReaches (Lifecycle.start hookNames) ⟨provider, []⟩ :=
  .start (.load "p" 1) (by simp) <|
  .quiet (Exec.load "p" 1 _) rfl <|
  .start (.call publishLane) (by simp [Instr.opens]) <|
  .early (Exec.lane (.publish _ _ _ _ _)) (by simp [Instr.frees]) <|
  .quiet (Exec.levi_rs_main "p" 1 true LEVI_RS_ABI_VERSION _) rfl <| .refl _

/-- Half of `onRustModGone` is done: the `release` of the lane is about to run. -/
def releasing : World :=
  let muted := { provider.loader with
    events := Events.clearListeners 1 provider.loader.events,
    commandsMuted := Function.update provider.loader.commandsMuted 1 true }
  let swept := [Sweep.scheduler, .bus, .services].foldl (fun s v => v.apply quietEnv 1 s) muted
  ⟨{ swept with lane := (retireLane 1 swept.lane).2 }, []⟩

def lateSweeps : List Instr :=
  [.sweep .commands 1, .sweep .forms 1, .sweep .kvdb 1, .sweep .hookEvents 1, .sweep .packetHooks 1, .sweep .money 1]

theorem releasing_reached :
    InTimeReaches ⟨provider, []⟩ ⟨releasing, .foreign :: lateSweeps ++ [.libFree "p" 1]⟩ :=
  .start (.unload "p") (by simp) <|
  .quiet (Exec.unloadCheck "p" _) rfl <|
  .quiet (Exec.on_unload "p" 1 _) rfl <|
  .quiet (Exec.muteCommands 1 _) rfl <|
  .quiet (Exec.clearListeners 1 _) rfl <|
  .quiet (Exec.sweep .scheduler 1 _) rfl <|
  .quiet (Exec.sweep .bus 1 _) rfl <|
  .quiet (Exec.sweep .services 1 _) rfl <|
  .quiet (Exec.lane (.collectLeases 1 [] _ (.refl _))) rfl <|
  .quiet (Exec.lane (.collectPublished 1 [1] _ (.refl _))) rfl <|
  .quiet (Exec.lane (.retireLane 1 _)) rfl <|
  .quiet (Exec.lane (.release 1 _)) rfl <| .refl _

/-- Sweeps in a row run to their end, and only the one over the bus touches it. -/
theorem InTimeReaches.sweeps (vs : List Sweep) (hv : ∀ v ∈ vs, v ≠ .bus) (rest : List Instr) (w : World) :
    ∃ w', InTimeReaches ⟨w, vs.map (.sweep · 1) ++ rest⟩ ⟨w', rest⟩ ∧ w'.loader.bus = w.loader.bus := by
  induction vs generalizing w with
  | nil => exact ⟨w, .refl _, rfl⟩
  | cons v vs ih =>
    have hbus : (v.apply quietEnv 1 w.loader).bus = w.loader.bus := by
      have hne := hv v (.head _)
      cases v <;> first | rfl | exact absurd rfl hne
    obtain ⟨w', hreach, hw'⟩ := ih (fun u hu => hv u (.tail _ hu)) { w with loader := v.apply quietEnv 1 w.loader }
    exact ⟨w', .quiet (Exec.sweep v 1 w) rfl hreach, hw'.trans hbus⟩

theorem lateSweeps_reach (w : World) : ∃ w', InTimeReaches ⟨w, lateSweeps ++ [.libFree "p" 1]⟩ ⟨w', [.libFree "p" 1]⟩ ∧
    w'.loader.bus = w.loader.bus :=
  InTimeReaches.sweeps [.commands, .forms, .kvdb, .hookEvents, .packetHooks, .money] (by simp) _ w

/-- The unload runs on undisturbed. -/
theorem gone_provider : ∃ tr w, Run (LStep quietEnv) (Lifecycle.start hookNames) tr ⟨w, [.libFree "p" 1]⟩ ∧
    Gone quietEnv 1 w.loader := by
  obtain ⟨w, hsweeps, _⟩ := lateSweeps_reach releasing
  obtain ⟨tr, hrun, hG⟩ := provider_reached.trans <| releasing_reached.trans <|
    InTimeReaches.quiet (Exec.foreign releasing) rfl hsweeps
  exact ⟨tr, w, hrun, gone_at_libFree hrun hG⟩

def subscribeLate : Call := .api_bus_subscribe LaneProtocol.everyone (some 1) "t" (some 100) 0

/-- A `release` that subscribes to the bus, whose sweep is over, leaves its
subscription to the freed library. -/
theorem sub_outlives_unload :
    ¬∀ env hookEvents m name w rest,
      Reachable (LStep env) (Lifecycle.start hookEvents) ⟨w, .libFree name m :: rest⟩ → Gone env m w.loader := by
  intro h
  let subscribed : World := { releasing with loader := subscribeLate.apply quietEnv releasing.loader }
  obtain ⟨w, hsweeps, hbus⟩ := lateSweeps_reach subscribed
  obtain ⟨tr, hrun, _⟩ := provider_reached.trans releasing_reached
  obtain ⟨tr', hrun', _⟩ := hsweeps
  have hlate : Run (LStep quietEnv) ⟨releasing, .foreign :: lateSweeps ++ [.libFree "p" 1]⟩ _ ⟨w, [.libFree "p" 1]⟩ :=
    .cons (.start _ _ (.call subscribeLate) (by simp [Instr.opens])) <|
    .cons (.exec _ (Exec.call subscribeLate _ rfl)) <| .cons (.exec _ (Exec.foreign _)) hrun'
  refine h quietEnv hookNames 1 "p" w [] ⟨_, hrun.append hlate⟩ (.sub 1) rfl ?_
  unfold Loader.State.Owns
  rw [hbus]
  exact ⟨_, rfl, rfl⟩

end Lifecycle
