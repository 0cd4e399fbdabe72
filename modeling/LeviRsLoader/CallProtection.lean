import LeviRsLoader.LaneCalls

/-!
# References under a call

A run of the loader, seen through its lane instructions and with the busy
counts left out, is one of the interleavings of the lane operations, and one in
which no release overtakes a retain. Its books therefore balance, and a lane in
the table has a reference left. At the end the three promises of `Lane::with`
are put together.
-/
namespace Lane

open LeviRs

/-- The tables without the busy counts. -/
def Lanes.forget (s : Lanes) : Lanes := { s with cells := s.cells.map fun c => { c with busy := 0 } }

@[simp] theorem gLanes_forget (s : Lanes) : s.forget.gLanes = s.gLanes := rfl

@[simp] theorem gByName_forget (s : Lanes) : s.forget.gByName = s.gByName := rfl

@[simp] theorem gLeases_forget (s : Lanes) : s.forget.gLeases = s.gLeases := rfl

@[simp] theorem gNextLaneId_forget (s : Lanes) : s.forget.gNextLaneId = s.gNextLaneId := rfl

@[simp] theorem gNextLeaseId_forget (s : Lanes) : s.forget.gNextLeaseId = s.gNextLeaseId := rfl

theorem map_modify {α β : Type*} {h : α → β} {f : α → α} {g : β → β} (hfg : ∀ x, h (f x) = g (h x)) (l : List α)
    (a : Nat) : (l.modify a f).map h = (l.map h).modify a g := by
  apply List.ext_getElem?
  intro b
  rw [List.getElem?_map, List.getElem?_modify, List.getElem?_modify, List.getElem?_map]
  cases l[b]? with
  | none => rfl
  | some x => by_cases hb : a = b <;> simp [hb, hfg]

/-- A busy count is no part of what is left. -/
theorem forget_setBusy (s : Lanes) (a : Nat) (f : Nat → Nat) :
    { s with cells := s.cells.modify a fun c => { c with busy := f c.busy } }.forget = s.forget := by
  have hcells := map_modify (h := fun c : AliveCell => { c with busy := 0 }) (f := fun c => { c with busy := f c.busy })
    (g := id) (fun _ => rfl) s.cells a
  rw [List.modify_id] at hcells
  simp only [Lanes.forget, hcells]

theorem forget_addLane (m : ModId) (name : String) (desc : LaneDesc) (s : Lanes) :
    addLane m name desc s.forget = (addLane m name desc s).forget := by
  simp [Lanes.forget, addLane]

theorem forget_takeLease (id : Nat) (lease : Lease) (s : Lanes) :
    takeLease id lease s.forget = ((takeLease id lease s).1, (takeLease id lease s).2.forget) := by
  simp only [takeLease, gLanes_forget]
  split <;> rfl

theorem forget_retireLane (l : Nat) (s : Lanes) :
    retireLane l s.forget = ((retireLane l s).1, (retireLane l s).2.forget) := by
  simp only [retireLane, gLanes_forget]
  split
  · rfl
  · next lane _ =>
    have hcells := map_modify (h := fun c : AliveCell => { c with busy := 0 })
      (f := fun c => { c with flag := 0 }) (g := fun c => { c with flag := 0 }) (fun _ => rfl) s.cells lane.alive
    simp only [Lanes.forget, hcells]
    rfl

theorem forget_publish (live : ModId → Bool) (mod : Option ModId) (name : String) (desc : Option LaneDesc)
    (s : Lanes) :
    api_lane_publish live mod name desc s.forget =
      ((api_lane_publish live mod name desc s).1, (api_lane_publish live mod name desc s).2.forget) := by
  cases mod with
  | none => rfl
  | some m =>
    cases desc with
    | none => rfl
    | some d =>
      simp only [api_lane_publish, gByName_forget, forget_addLane]
      split_ifs <;> rfl

theorem forget_acquire (live : ModId → Bool) (mod : Option ModId) (name : String) (want : UInt64)
    (out : Option LaneRef) (s : Lanes) :
    api_lane_acquire live mod name want out s.forget =
      { api_lane_acquire live mod name want out s with
        lanes := (api_lane_acquire live mod name want out s).lanes.forget } := by
  cases out with
  | none => rfl
  | some out =>
    simp only [api_lane_acquire, gByName_forget, gLanes_forget, gNextLeaseId_forget]
    split
    · rfl
    · cases mod with
      | none => rfl
      | some consumer =>
        dsimp only
        split
        · rfl
        · split
          · rfl
          · split
            · rfl
            · split
              · rfl
              · split
                · rfl
                · split <;> rfl

theorem forget_release (mod : Option ModId) (leaseId : Nat) (s : Lanes) :
    api_lane_release mod leaseId s.forget =
      ((api_lane_release mod leaseId s).1, (api_lane_release mod leaseId s).2.1,
        (api_lane_release mod leaseId s).2.2.forget) := by
  cases mod with
  | none => rfl
  | some consumer =>
    simp only [api_lane_release, gLeases_forget]
    split_ifs
    · rfl
    · split
      · rfl
      · split_ifs
        · rfl
        · rw [forget_takeLease]

theorem forget_dropLease (leaseId : Nat) (s : Lanes) :
    dropLease leaseId s.forget = ((dropLease leaseId s).1, (dropLease leaseId s).2.forget) := by
  simp only [dropLease, gLeases_forget]
  split
  · rfl
  · exact forget_takeLease _ _ s

end Lane

namespace LaneProtocol

open LeviRs Lane

/-- The lane instructions neither read nor write a busy count. -/
theorem Exec.forget {i : Instr} {s s' : Lanes} {new : List Instr} (h : Exec i s new s') :
    Exec i s.forget new s'.forget := by
  cases h with
  | publish live mod name desc =>
    have := Exec.publish live mod name desc s.forget
    rwa [forget_publish] at this
  | unpublish mod pubId => exact .unpublish mod pubId s.forget
  | retireLane laneId =>
    have := Exec.retireLane laneId s.forget
    rwa [forget_retireLane] at this
  | acquire live mod name want out =>
    have := Exec.acquire live mod name want out s.forget
    rwa [forget_acquire] at this
  | retain laneId leaseId => exact .retain laneId leaseId s.forget
  | releaseLease mod leaseId =>
    have := Exec.releaseLease mod leaseId s.forget
    rwa [forget_release] at this
  | release laneId => exact .release laneId s.forget
  | collectLeases mod ids _ hp => exact .collectLeases mod ids s.forget hp
  | dropLease leaseId =>
    have := Exec.dropLease leaseId s.forget
    rwa [forget_dropLease] at this
  | collectPublished mod ids _ hp => exact .collectPublished mod ids s.forget hp

end LaneProtocol

namespace Lifecycle

open LeviRs Lane Loader Nesting Runs

variable {env : Env} {w w' : World} {i : Instr} {new rest : List Instr}

/-! ## The lane instructions of a run -/

def laneInstr : Instr → Option LaneProtocol.Instr
  | .lane i => some i
  | _ => none

/-- What a run shows of the lanes. -/
def laneView (w : World) : Lanes := w.lane.forget

theorem filterMap_laneInstr (l : List LaneProtocol.Instr) : (l.map Instr.lane).filterMap laneInstr = l := by
  rw [List.filterMap_map]
  exact List.filterMap_some

theorem filterMap_callee (j : LaneProtocol.Instr) : (callee j).filterMap laneInstr = [] := by
  cases j <;> rfl

/-- Only an unload that goes through puts lane instructions on the stack, the whole sweep of a mod. -/
theorem Exec.filterMap_new (hx : Exec env i w new w') (hi : laneInstr i = none) :
    new.filterMap laneInstr = [] ∨ ∃ o, new.filterMap laneInstr = LaneProtocol.program o := by
  cases hx with
  | lane => cases hi
  | on_unload name m => exact .inr ⟨.modGone m, rfl⟩
  | unloadCheck name =>
    left
    cases Lifecycle.unloadCheck name w.loader <;> rfl
  | laneWith ref =>
    left
    cases (Lifecycle.laneWith ref w.lane).1 <;> rfl
  | _ => exact .inl rfl

theorem LaneStep.laneView (hx : LaneStep w i new w') (hi : laneInstr i = none) : laneView w' = laneView w := by
  cases hx with
  | other _ _ _ hlane => rw [Lifecycle.laneView, hlane, Lifecycle.laneView]
  | lane => cases hi
  | enter ref =>
    cases hb : ref.busy with
    | none => rfl
    | some a => exact forget_setBusy w.lane a (· + 1)
  | leave ref =>
    cases hb : ref.busy with
    | none => rfl
    | some a => exact forget_setBusy w.lane a (· - 1)

/-- A run of the loader shows an interleaving of the lane operations. -/
theorem laneProjection (env : Env) :
    Projection program (Exec env) LaneProtocol.program LaneProtocol.Exec laneInstr laneView where
  start o := by
    cases o with
    | call c =>
      simp only [program, callProgram]
      split
      · next o' _ => exact .inr ⟨o', filterMap_laneInstr _⟩
      · exact .inl rfl
    | _ => exact .inl rfl
  seen hi hx := by
    cases hx with
    | lane hx =>
      cases hi
      rw [List.filterMap_append, filterMap_laneInstr, filterMap_callee, List.append_nil]
      exact hx.forget
    | _ => cases hi
  unseen hi hx := ⟨hx.laneStep.laneView hi, hx.filterMap_new hi⟩

/-! ## Counting references -/

/-- A call into a provider that is of this kind. -/
def made (f : LaneProtocol.Instr → Bool) : Event → Bool
  | .exec i => (laneInstr i).any f
  | .start _ => false

/-- The calls of a kind made so far. -/
def calls (f : LaneProtocol.Instr → Bool) (tr : List (State × Event)) : Nat := tr.countP fun e => made f e.2

/-- `1 + retain calls - release calls`. -/
def count (laneId : Nat) (tr : List (State × Event)) : Int :=
  1 + calls (LaneProtocol.Instr.retains laneId) tr - calls (LaneProtocol.Instr.releases laneId) tr

/-- The step publishes the lane, with both reference functions, and gives it this cell. -/
def Publishes (laneId a : Nat) (e : State × Event) : Prop :=
  ∃ live mod name desc, e.2 = .exec (.lane (.publish live mod name (some desc))) ∧
    desc.retain.isSome ∧ desc.release.isSome ∧ laneId ≠ 0 ∧
    (api_lane_publish live mod name (some desc) e.1.state.lane).1 = laneId ∧ e.1.state.lane.cells.length = a

def PublishedAt (laneId a : Nat) (tr : List (State × Event)) : Prop := ∃ e ∈ tr, Publishes laneId a e

abbrev LaneTrace : Type := List (LaneProtocol.State × LaneProtocol.Event)

variable {hookEvents : List String} {p : State} {tr : List (State × Event)} {laneId a : Nat}

theorem calls_append (f : LaneProtocol.Instr → Bool) (tr tr' : List (State × Event)) :
    calls f (tr ++ tr') = calls f tr + calls f tr' := List.countP_append

theorem calls_of_view {tr' : LaneTrace} (hview : tr'.filterMap poolView = tr.filterMap (view laneInstr laneView))
    (f : LaneProtocol.Instr → Bool) : LaneProtocol.calls f tr' = calls f tr := by
  have hpool : LaneProtocol.calls f tr' = (tr'.filterMap poolView).countP fun x => f x.2.2 := by
    rw [List.countP_filterMap, LaneProtocol.calls]
    congr 1
    funext e
    obtain ⟨q, _ | i⟩ := e <;> rfl
  have hmachine : calls f tr = (tr.filterMap (view laneInstr laneView)).countP fun x => f x.2.2 := by
    rw [List.countP_filterMap, calls]
    congr 1
    funext e
    obtain ⟨q, _ | i⟩ := e
    · rfl
    · cases i <;> rfl
  rw [hpool, hmachine, hview]

theorem published_of_view {tr' : LaneTrace} (hview : tr'.filterMap poolView = tr.filterMap (view laneInstr laneView))
    (h : PublishedAt laneId a tr) : LaneProtocol.Published laneId tr' := by
  obtain ⟨⟨q, _⟩, hmem, live, mod, name, desc, rfl, hretain, hrelease, hne, hid, _⟩ := h
  have hseen : (laneView q.state, q.stack.filterMap laneInstr, LaneProtocol.Instr.publish live mod name (some desc)) ∈
      tr'.filterMap poolView := by
    rw [hview]
    exact List.mem_filterMap.mpr ⟨_, hmem, rfl⟩
  obtain ⟨⟨q', l'⟩, hmem', hq'⟩ := List.mem_filterMap.mp hseen
  cases l' with
  | start => cases hq'
  | exec j =>
    simp only [poolView, Option.some.injEq, Prod.mk.injEq] at hq'
    obtain ⟨hshared, -, rfl⟩ := hq'
    refine ⟨_, hmem', live, mod, name, desc, rfl, hretain, hrelease, hne, ?_⟩
    dsimp only
    rw [hshared, laneView, forget_publish]
    exact hid

/-! ### A retain is made at once -/

def Instr.isRetain : Instr → Bool
  | .lane (.retain _ _) => true
  | _ => false

/-- A retain still owed is the next thing to run. -/
def RetainOnTop (stack : List Instr) : Prop := ∀ j ∈ stack.tail, j.isRetain = false

theorem program_isRetain (o : Op) : ∀ j ∈ program o, j.isRetain = false := by
  cases o with
  | call c =>
    simp only [program, callProgram]
    cases c <;> simp [laneOp, LaneProtocol.program, Instr.isRetain]
  | _ => simp [program, Instr.isRetain]

theorem Exec.isRetain (hx : Exec env i w new w') : ∀ j ∈ new.tail, j.isRetain = false := by
  cases hx with
  | lane hx =>
    cases hx with
    | acquire live mod name want out =>
      cases (api_lane_acquire live mod name want out w.lane).retain <;> simp [LaneProtocol.retainInstr, callee]
    | retireLane | releaseLease | dropLease =>
      intro j hj
      have hj := List.mem_of_mem_tail hj
      simp only [callee, List.append_nil, List.map_map, List.mem_map, LaneProtocol.releaseInstr] at hj
      obtain ⟨_, _, rfl⟩ := hj
      rfl
    | collectLeases | collectPublished =>
      intro j hj
      have hj := List.mem_of_mem_tail hj
      simp only [callee, List.append_nil, List.map_map, List.mem_map] at hj
      obtain ⟨_, _, rfl⟩ := hj
      rfl
    | unpublish => split <;> simp [callee]
    | _ => simp [callee]
  | unloadCheck name => cases Lifecycle.unloadCheck name w.loader <;> simp [afterCheck]
  | on_unload => simp [teardown, onRustModGone, LaneProtocol.program, Instr.isRetain]
  | laneWith ref => cases (Lifecycle.laneWith ref w.lane).1 <;> simp [afterWith]
  | _ => simp

theorem mem_tail_append {j : Instr} (h : j ∈ (new ++ rest).tail) : j ∈ new.tail ∨ j ∈ rest := by
  cases new with
  | nil => exact .inr (List.mem_of_mem_tail h)
  | cons k new => exact List.mem_append.mp h

theorem retainOnTop_run (h : Run (LStep env) (start hookEvents) tr p) : RetainOnTop p.stack := by
  refine nested_invariant (fun _ stack => RetainOnTop stack) (G := fun _ _ => True) h (fun _ _ => trivial) ?_ ?_ ?_
  · simp [RetainOnTop, start]
  · intro w stack o hopen hs j hj
    rcases mem_tail_append hj with hj | hj
    · exact program_isRetain o j (List.mem_of_mem_tail hj)
    · cases stack with
      | nil => cases hj
      | cons k stack =>
        rcases List.mem_cons.mp hj with rfl | hj
        · -- what an operation starts on is foreign code
          have hk := hopen j rfl
          cases j <;> first | rfl | cases hk
        · exact hs j hj
  · intro w i rest new w' _ hs hx j hj
    rcases mem_tail_append hj with hj | hj
    · exact hx.isRetain j hj
    · exact hs j hj

theorem orphan_of_not_retain {j : LaneProtocol.Instr} {k : Instr} (hk : k.isRetain = false)
    (hj : laneInstr k = some j) (s : Lanes) (laneId : Nat) : j.orphan s laneId = false := by
  cases k with
  | lane j' =>
    cases hj
    cases j <;> first | rfl | cases hk
  | _ => cases hj

/-- No release overtakes a retain. -/
theorem retainFirst_of_view (h : Run (LStep env) (start hookEvents) tr p) {tr' : LaneTrace}
    (hview : tr'.filterMap poolView = tr.filterMap (view laneInstr laneView)) (laneId : Nat) :
    Meets (LaneProtocol.RetainFirst laneId) tr' := by
  intro e he hrelease j hj
  have hseen :
      (e.1.shared, e.1.pending, LaneProtocol.Instr.release laneId) ∈ tr.filterMap (view laneInstr laneView) := by
    rw [← hview]
    exact List.mem_filterMap.mpr ⟨e, he, by simp [poolView, hrelease]⟩
  obtain ⟨⟨q, l⟩, hmem, hq⟩ := List.mem_filterMap.mp hseen
  cases l with
  | start => cases hq
  | exec i =>
    obtain ⟨k, hk, hview'⟩ := Option.map_eq_some_iff.mp hq
    simp only [Prod.mk.injEq] at hview'
    obtain ⟨-, hpending, rfl⟩ := hview'
    obtain ⟨pre, suf, rfl⟩ := List.append_of_mem hmem
    obtain ⟨_, hbefore, hstep, _⟩ := h.split_cons
    obtain ⟨_, rest, hstack, _, _⟩ := hstep.top
    have htop := retainOnTop_run hbefore
    rw [← hpending] at hj
    obtain ⟨k', hk', hkj⟩ := List.mem_filterMap.mp hj
    dsimp only at hstack htop hk'
    rw [hstack] at htop hk'
    rcases List.mem_cons.mp hk' with rfl | hrest
    · rw [hk] at hkj
      cases hkj
      rfl
    · exact orphan_of_not_retain (htop k' hrest) hkj e.1.shared laneId

/-- A lane in the table has a reference left. -/
theorem count_pos (h : Run (LStep env) (start hookEvents) tr p) (hpub : PublishedAt laneId a tr)
    (hd : (p.state.lane.descOf laneId).isSome) : 0 < count laneId tr := by
  have hshows : Shows laneInstr laneView (start hookEvents) LaneProtocol.start := ⟨rfl, rfl⟩
  obtain ⟨tr', p', hrun, ⟨hshared, _⟩, hview⟩ := (laneProjection env).run h hshows
  have hpub' := published_of_view hview hpub
  have hbooks := LaneProtocol.books_run hrun (retainFirst_of_view h hview laneId)
  have heq := hbooks.count_eq hpub'
  have hle := LaneProtocol.owedRetains_le hbooks.shape laneId
  have hcovered := (hbooks.account hpub').covered
  have hone : LaneProtocol.published p'.shared laneId = 1 := by
    rw [LaneProtocol.published, hshared]
    exact if_pos hd
  have hcount : LaneProtocol.count laneId tr' = count laneId tr := by
    rw [LaneProtocol.count, count, calls_of_view hview, calls_of_view hview]
  omega

/-! ### Which lane a cell is of -/

/-- A cell is the cell of no lane but the one it was made for. -/
def Sites (tr : List (State × Event)) (s : Lanes) : Prop :=
  ∀ laneId a, PublishedAt laneId a tr → a < s.cells.length ∧ ∀ id m, s.homeOf id = some (m, a) → id = laneId

theorem publishedAt_append (laneId a : Nat) (tr : List (State × Event)) (e : State × Event) :
    PublishedAt laneId a (tr ++ [e]) ↔ PublishedAt laneId a tr ∨ Publishes laneId a e := by
  simp [PublishedAt, or_and_right, exists_or]

theorem not_publishes_start (laneId a : Nat) (p : State) (o : Op) : ¬Publishes laneId a (p, .start o) := by
  intro h
  obtain ⟨live, mod, name, desc, he, _⟩ := h
  cases he

theorem LaneStep.cells_le (hx : LaneStep w i new w') : w.lane.cells.length ≤ w'.lane.cells.length := by
  cases hx with
  | other _ _ _ hlane => rw [hlane]
  | lane j new s hx => exact hx.effect.cells_le
  | enter ref =>
    cases hb : ref.busy with
    | none => exact Nat.le_refl _
    | some a => exact Nat.le_of_eq (List.length_modify _ _ _).symm
  | leave ref =>
    cases hb : ref.busy with
    | none => exact Nat.le_refl _
    | some a => exact Nat.le_of_eq (List.length_modify _ _ _).symm

theorem LaneStep.homeOf_before (hx : LaneStep w i new w') {m : ModId} (hh : w'.lane.homeOf laneId = some (m, a)) :
    w.lane.homeOf laneId = some (m, a) ∨ laneId = w.lane.gNextLaneId ∧ a = w.lane.cells.length := by
  cases hx with
  | other _ _ _ hlane =>
    rw [hlane] at hh
    exact .inl hh
  | lane j new s hx =>
    obtain hb | ⟨hid, ha, _⟩ := hx.effect.homeOf_before hh
    · exact .inl hb
    · exact .inr ⟨hid, ha⟩
  | enter ref =>
    obtain ⟨cells, hc⟩ := enter_eq ref.busy w.lane
    rw [hc] at hh
    exact .inl hh
  | leave ref =>
    obtain ⟨cells, hc⟩ := leave_eq ref.busy w.lane
    rw [hc] at hh
    exact .inl hh

/-- A publication takes the next id and makes a cell. -/
theorem Exec.publishes (hx : Exec env i w new w') (h : Publishes laneId a (⟨w, i :: rest⟩, .exec i)) :
    laneId = w.lane.gNextLaneId ∧ a = w.lane.cells.length ∧ a < w'.lane.cells.length := by
  obtain ⟨live, mod, name, desc, hi, _, _, hne, hid, ha⟩ := h
  cases hi
  cases hx with
  | lane hx =>
    cases hx
    show _ ∧ _ ∧ a < (api_lane_publish live mod name (some desc) w.lane).2.cells.length
    obtain hc | ⟨m, d, _, _, _, _, hc⟩ := api_lane_publish_cases live mod name (some desc) w.lane
    · exact absurd (hid.symm.trans (by rw [hc])) hne
    · rw [hc] at hid ⊢
      exact ⟨hid.symm, ha.symm, by simp [addLane, ← ha]⟩

theorem Sites.exec (h : Sites tr w.lane) (hs : Sound w.lane) (hx : Exec env i w new w') :
    Sites (tr ++ [(⟨w, i :: rest⟩, .exec i)]) w'.lane := by
  intro laneId a hpub
  have hle := hx.laneStep.cells_le
  rcases (publishedAt_append laneId a tr _).mp hpub with hold | hnew
  · obtain ⟨ha, hsite⟩ := h laneId a hold
    refine ⟨Nat.lt_of_lt_of_le ha hle, fun id m hh => ?_⟩
    obtain hb | ⟨_, hb⟩ := hx.laneStep.homeOf_before hh
    · exact hsite id m hb
    · exact absurd hb (Nat.ne_of_lt ha)
  · obtain ⟨hid, ha, hlt⟩ := hx.publishes hnew
    refine ⟨hlt, fun id m hh => ?_⟩
    obtain hb | ⟨hb, _⟩ := hx.laneStep.homeOf_before hh
    · -- the cell did not exist before
      exact absurd ha (Nat.ne_of_lt (hs.cellLt id m a hb))
    · rw [hid, hb]

/-- The run lemma of `Sites`. -/
theorem sites_run (h : Run (LStep env) (start hookEvents) tr p) : Sites tr p.state.lane := by
  suffices Counted p.state p.stack ∧ Sites tr p.state.lane from this.2
  refine h.traceInvariant (G := fun _ _ => True) (fun tr p => Counted p.state p.stack ∧ Sites tr p.state.lane)
    (fun _ _ => trivial) ?_ ?_
  · refine ⟨@counted_run env hookEvents _ _ (.nil _), fun laneId a hpub => ?_⟩
    obtain ⟨e, he, _⟩ := hpub
    cases he
  · intro pre p l q hp _ hstep
    cases hstep with
    | start w stack o =>
      refine ⟨hp.1.push (program_frame o), fun laneId a hpub => hp.2 laneId a ?_⟩
      exact ((publishedAt_append laneId a pre _).mp hpub).resolve_right (not_publishes_start laneId a _ o)
    | exec rest hx => exact ⟨hp.1.step hx.laneStep, hp.2.exec hp.1.sound hx⟩

/-! ## The three promises -/

/-- What `Lane::with` promises, at the end of a run: a cell counts the calls on
its lane, an unload is refused while a call is on a lane of the mod, and a lane
that is being called has a reference left. -/
structure CallProtected (env : Env) (tr : List (State × Event)) (p : State) : Prop where
  busy : ∀ a, (p.state.lane.cell a).busy = framesOn a p.stack
  refused : ∀ name laneId lane, p.state.lane.gLanes.lookup laneId = some lane →
    p.state.loader.mods.lookup name = some lane.mod → 0 < framesOn lane.alive p.stack →
    (∃ error, unloadCheck name p.state.loader = .error error) ∧
      ∀ new w', Exec env (.unloadCheck name) p.state new w' → new = [] ∧ w' = p.state
  referenced : ∀ laneId a, PublishedAt laneId a tr → 0 < framesOn a p.stack → 0 < count laneId tr

/-- A cell counts the calls on its lane, in every run. -/
theorem busy_eq_framesOn (h : Run (LStep env) (start hookEvents) tr p) (a : Nat) :
    (p.state.lane.cell a).busy = framesOn a p.stack := (counted_run h).busy a

/-- A mod is not unloaded under a call, in any run. -/
theorem refused_under_call (h : Run (LStep env) (start hookEvents) tr p) {name : String} {lane : LaneEntry}
    (hl : p.state.lane.gLanes.lookup laneId = some lane) (hm : p.state.loader.mods.lookup name = some lane.mod)
    (hframes : 0 < framesOn lane.alive p.stack) :
    (∃ error, unloadCheck name p.state.loader = .error error) ∧
      ∀ new w', Exec env (.unloadCheck name) p.state new w' → new = [] ∧ w' = p.state := by
  have hbusy : (p.state.lane.cell lane.alive).busy ≠ 0 := by
    rw [busy_eq_framesOn h]
    exact Nat.ne_of_gt hframes
  obtain ⟨error, he⟩ := unloadCheck_of_busy (homeOf_eq_some hl) hbusy hm
  refine ⟨⟨error, he⟩, fun new w' hx => ?_⟩
  cases hx with
  | unloadCheck => exact ⟨by rw [he]; rfl, rfl⟩

/-- A lane that is being called has a reference left, unless it is unpublished under a call. -/
theorem referenced_under_call (h : Run (LStep env) (start hookEvents) tr p) (hG : Meets KeepsCalled tr)
    (hpub : PublishedAt laneId a tr) (hframes : 0 < framesOn a p.stack) : 0 < count laneId tr := by
  obtain ⟨i, hmem, hi⟩ := List.countP_pos_iff.mp hframes
  cases i with
  | inside ref =>
    obtain ⟨pre, post, hstack⟩ := List.append_of_mem hmem
    obtain ⟨id, m, b, halive, hh, _⟩ := held_run h hG pre ref post hstack
    have hab : b = a := by simpa [Instr.frame, halive] using hi
    have hid : id = laneId := (sites_run h laneId a hpub).2 id m (hab ▸ hh)
    apply count_pos h hpub
    rw [← homeOf_isSome, ← hid, hh]
    rfl
  | _ => simp [Instr.frame] at hi

/-- In every run in which no lane is unpublished under a call, calls are protected. -/
theorem callProtected_of_keepsCalled (h : Run (LStep env) (start hookEvents) tr p) (hG : Meets KeepsCalled tr) :
    CallProtected env tr p where
  busy := busy_eq_framesOn h
  refused _ _ _ hl hm hframes := refused_under_call h hl hm hframes
  referenced _ _ hpub hframes := referenced_under_call h hG hpub hframes

/-! ## A publication dropped from inside its own table -/

def acquireCall : Call := .api_lane_acquire LaneProtocol.everyone (some 2) "a" 7 (some LaneProtocol.exampleRef)

/-- What mod 2 gets for it. -/
def lentRecord : LaneRef := ⟨busyRefSize, 1, 7, 100, some 200, some 0, some 0⟩

/-- Mod 1 has published a lane and mod 2 has taken a lease on it. -/
def lent : World where
  loader := (finishLoad "c" 2 true LEVI_RS_ABI_VERSION
    (acquireCall.apply quietEnv (provider.loader.makeRustMod 2))).2
  handed := [lentRecord]

theorem lent_run : ∃ tr, Run (LStep quietEnv) (start hookNames) tr ⟨lent, []⟩ ∧ PublishedAt 1 0 tr ∧
    calls (LaneProtocol.Instr.retains 1) tr = 1 ∧ calls (LaneProtocol.Instr.releases 1) tr = 0 ∧
    Meets KeepsCalled tr := by
  refine ⟨_, .cons (.start _ _ (.load "p" 1) (by simp)) <| .cons (.exec _ (Exec.load "p" 1 _)) <|
    .cons (.start _ _ (.call publishLane) (by simp [Instr.opens])) <|
    .cons (.exec _ (Exec.lane (.publish _ _ _ _ _))) <|
    .cons (.exec _ (Exec.levi_rs_main "p" 1 true LEVI_RS_ABI_VERSION _)) <|
    .cons (.start _ _ (.load "c" 2) (by simp)) <| .cons (.exec _ (Exec.load "c" 2 _)) <|
    .cons (.start _ _ (.call acquireCall) (by simp [Instr.opens])) <|
    .cons (.exec _ (Exec.lane (.acquire _ _ _ _ _ _))) <|
    .cons (.exec _ (Exec.lane (.retain 1 1 _))) <| .cons (.exec _ (Exec.foreign _)) <|
    .cons (.exec _ (Exec.levi_rs_main "c" 2 true LEVI_RS_ABI_VERSION _)) <| .nil _, ?_, rfl, rfl, ?_⟩
  · exact ⟨_, .tail _ (.tail _ (.tail _ (.head _))), LaneProtocol.everyone, some 1, "a", LaneProtocol.exampleDesc, rfl,
      rfl, rfl, by decide, rfl, rfl⟩
  · simp only [meets_cons, meets_nil, and_true]
    refine ⟨?_, ?_, ?_, ?_, ?_, ?_, ?_, ?_, ?_, ?_, ?_, ?_⟩
    all_goals
      intro mod laneId lane h
      cases h
/-- In the middle of a call through it. -/
def called : World := lent.setLane (enter lentRecord.busy lent.lane)

def calledTrace : List (State × Event) :=
  [(⟨lent, []⟩, .start (.laneWith lentRecord)), (⟨lent, [.laneWith lentRecord]⟩, .exec (.laneWith lentRecord))]

theorem called_run : Run (LStep quietEnv) ⟨lent, []⟩ calledTrace ⟨called, [.inside lentRecord]⟩ :=
  .cons (.start _ _ (Op.laneWith lentRecord) (by simp)) <|
    .cons (.exec _ (Exec.laneWith lentRecord lent (.head _))) <| .nil _

/-- The call is counted, the provider can not be unloaded, and its data is referenced. -/
theorem callProtected_called : ∃ tr, Run (LStep quietEnv) (start hookNames) tr ⟨called, [.inside lentRecord]⟩ ∧
    CallProtected quietEnv tr ⟨called, [.inside lentRecord]⟩ := by
  obtain ⟨tr, hrun, _, _, _, hG⟩ := lent_run
  refine ⟨_, hrun.append called_run, callProtected_of_keepsCalled (hrun.append called_run) ?_⟩
  simp only [calledTrace, meets_append, meets_cons, meets_nil, and_true]
  refine ⟨hG, ?_, ?_⟩
  all_goals
    intro mod laneId lane h
    cases h

/-- A table function that drops its own publication takes the last reference
from under the call it runs in. -/
theorem unpublish_under_call :
    ¬∀ env hookEvents tr p, Run (LStep env) (start hookEvents) tr p → CallProtected env tr p := by
  intro h
  obtain ⟨tr, hrun, ⟨e, he, hpub⟩, hretains, hreleases, _⟩ := lent_run
  have hunpublish : ∃ tr' w, Run (LStep quietEnv) ⟨called, [.inside lentRecord]⟩ tr' ⟨w, [.inside lentRecord]⟩ ∧
      calls (LaneProtocol.Instr.retains 1) tr' = 0 ∧ calls (LaneProtocol.Instr.releases 1) tr' = 2 :=
    ⟨_, _, .cons (.start _ _ (.call (.api_lane_unpublish (some 1) 1)) (by simp [Instr.opens])) <|
      .cons (.exec _ (Exec.lane (.unpublish _ _ _))) <| .cons (.exec _ (Exec.lane (.retireLane 1 _))) <|
      .cons (.exec _ (Exec.lane (.release 1 _))) <| .cons (.exec _ (Exec.foreign _)) <|
      .cons (.exec _ (Exec.lane (.release 1 _))) <| .cons (.exec _ (Exec.foreign _)) <| .nil _, rfl, rfl⟩
  obtain ⟨tr', w, hrun', hretains', hreleases'⟩ := hunpublish
  have hprotected := h quietEnv hookNames _ _ ((hrun.append called_run).append hrun')
  have hpos := hprotected.referenced 1 0 ⟨e, by simp [he], hpub⟩ (by simp [framesOn, Instr.frame, lentRecord])
  have hcalled : ∀ f, calls f calledTrace = 0 := fun _ => rfl
  simp [count, calls_append, hretains, hreleases, hretains', hreleases', hcalled] at hpos

end Lifecycle
