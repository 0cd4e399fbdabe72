import LeviRsLoader.Lib.Interleave
import LeviRsLoader.Lane

/-!
# Reference counts under concurrency

The five lane operations as programs over the lane tables: every part under
`gMutex` is one instruction, every call of a provider's `retain` or `release`
another. A call names the lane its `desc` comes from; a `retain` also names the
lease it is made for.
-/
namespace LaneProtocol

open LeviRs Lane Runs Interleave

inductive Instr where
  | publish (live : ModId → Bool) (mod : Option ModId) (name : String) (desc : Option LaneDesc)
  | unpublish (mod : Option ModId) (pubId : Nat)
  | retireLane (laneId : Nat)
  | acquire (live : ModId → Bool) (mod : Option ModId) (name : String) (wantFingerprint : UInt64)
      (out : Option LaneRef)
  | retain (laneId leaseId : Nat)
  | releaseLease (mod : Option ModId) (leaseId : Nat)
  | release (laneId : Nat)
  | collectLeases (mod : ModId)
  | dropLease (leaseId : Nat)
  | collectPublished (mod : ModId)

/-- The API calls, and the sweep of a mod that is gone. -/
inductive Op where
  | publish (live : ModId → Bool) (mod : Option ModId) (name : String) (desc : Option LaneDesc)
  | unpublish (mod : Option ModId) (pubId : Nat)
  | acquire (live : ModId → Bool) (mod : Option ModId) (name : String) (wantFingerprint : UInt64)
      (out : Option LaneRef)
  | release (mod : Option ModId) (leaseId : Nat)
  | modGone (mod : ModId)

def program : Op → List Instr
  | .publish live mod name desc => [.publish live mod name desc]
  | .unpublish mod pubId => [.unpublish mod pubId]
  | .acquire live mod name want out => [.acquire live mod name want out]
  | .release mod leaseId => [.releaseLease mod leaseId]
  | .modGone mod => [.collectLeases mod, .collectPublished mod]

def retainInstr (r : Option (Nat × Nat)) : List Instr := r.toList.map fun r => .retain r.1 r.2

def releaseInstr (r : Option Nat) : List Instr := r.toList.map .release

/-- The effect of an instruction. A hash map is walked in any order. -/
inductive Exec : Instr → Lanes → List Instr → Lanes → Prop where
  | publish (live : ModId → Bool) (mod : Option ModId) (name : String) (desc : Option LaneDesc) (s : Lanes) :
      Exec (.publish live mod name desc) s [] (api_lane_publish live mod name desc s).2
  | unpublish (mod : Option ModId) (pubId : Nat) (s : Lanes) :
      Exec (.unpublish mod pubId) s (if unpublishCheck mod pubId s then [.retireLane pubId] else []) s
  | retireLane (laneId : Nat) (s : Lanes) :
      Exec (.retireLane laneId) s ((Lane.retireLane laneId s).1.map .release) (Lane.retireLane laneId s).2
  | acquire (live : ModId → Bool) (mod : Option ModId) (name : String) (want : UInt64)
      (out : Option LaneRef) (s : Lanes) :
      Exec (.acquire live mod name want out) s
        (retainInstr (api_lane_acquire live mod name want out s).retain)
        (api_lane_acquire live mod name want out s).lanes
  | retain (laneId leaseId : Nat) (s : Lanes) : Exec (.retain laneId leaseId) s [] s
  | releaseLease (mod : Option ModId) (leaseId : Nat) (s : Lanes) :
      Exec (.releaseLease mod leaseId) s (releaseInstr (api_lane_release mod leaseId s).2.1)
        (api_lane_release mod leaseId s).2.2
  | release (laneId : Nat) (s : Lanes) : Exec (.release laneId) s [] s
  | collectLeases (mod : ModId) (ids : List Nat) (s : Lanes) (h : ids.Perm (leasesOf mod s)) :
      Exec (.collectLeases mod) s (ids.map .dropLease) s
  | dropLease (leaseId : Nat) (s : Lanes) :
      Exec (.dropLease leaseId) s (releaseInstr (Lane.dropLease leaseId s).1)
        (Lane.dropLease leaseId s).2
  | collectPublished (mod : ModId) (ids : List Nat) (s : Lanes) (h : ids.Perm (publishedBy mod s)) :
      Exec (.collectPublished mod) s (ids.map .retireLane) s

abbrev State := Pool Lanes Instr

abbrev Event := Label Op Instr

abbrev PStep : State → Event → State → Prop := Interleave.Step program Exec

def start : State := ⟨Lanes.initial, []⟩

/-! ## The count of a lane -/

def Instr.retains (laneId : Nat) : Instr → Bool
  | .retain l _ => l == laneId
  | _ => false

def Instr.releases (laneId : Nat) : Instr → Bool
  | .release l => l == laneId
  | _ => false

def Event.made (f : Instr → Bool) : Event → Bool
  | .exec i => f i
  | .start _ => false

/-- The calls of a kind made so far. -/
def calls (f : Instr → Bool) (tr : List (State × Event)) : Nat := tr.countP fun e => Event.made f e.2

/-- `1 + retain calls - release calls`. -/
def count (laneId : Nat) (tr : List (State × Event)) : Int :=
  1 + calls (Instr.retains laneId) tr - calls (Instr.releases laneId) tr

/-- The event publishes the lane, with both reference functions. -/
def Publishes (laneId : Nat) (e : State × Event) : Prop :=
  ∃ live mod name desc, e.2 = .exec (.publish live mod name (some desc)) ∧
    desc.retain.isSome ∧ desc.release.isSome ∧ laneId ≠ 0 ∧
    (api_lane_publish live mod name (some desc) e.1.shared).1 = laneId

def Published (laneId : Nat) (tr : List (State × Event)) : Prop := ∃ e ∈ tr, Publishes laneId e

/-- What the protocol is for, at the end of a run. -/
structure RefCounted (laneId : Nat) (tr : List (State × Event)) (p : State) : Prop where
  nonneg : ∀ pre suf, tr = pre ++ suf → 0 ≤ count laneId pre
  dead : ∀ pre mid e suf, tr = pre ++ mid ++ e :: suf → count laneId pre = 0 →
    Event.made (Instr.retains laneId) e.2 = false ∧ Event.made (Instr.releases laneId) e.2 = false
  quiescent : p.Quiescent → p.shared.gLanes.lookup laneId = none →
    count laneId tr = 0 ∧ ∀ id lease, p.shared.gLeases.lookup id = some lease → lease.laneId ≠ laneId

/-- The `retain` of an acquire whose lease has been taken out of the table meanwhile. -/
def Instr.orphan (s : Lanes) (laneId : Nat) : Instr → Bool
  | .retain l leaseId => l == laneId && (s.gLeases.lookup leaseId).isNone
  | _ => false

/-- No release call on the lane's data while such a retain is still owed. -/
def RetainFirst (laneId : Nat) (p : State) (l : Event) : Prop :=
  l = .exec (.release laneId) → ∀ i ∈ p.pending, i.orphan p.shared laneId = false

/-! ## What one instruction can do -/

/-- Not a call into a provider. -/
def Instr.quiet : Instr → Bool
  | .retain _ _ => false
  | .release _ => false
  | _ => true

/-- Everything an instruction can do, by its effect on the tables and on what is owed. -/
inductive Effect (s : Lanes) : Instr → List Instr → Lanes → Prop where
  | same (i : Instr) (new : List Instr) (hi : i.quiet = true) (hnew : ∀ j ∈ new, j.quiet = true) :
      Effect s i new s
  | publish (live : ModId → Bool) (m : ModId) (name : String) (desc : LaneDesc)
      (h : api_lane_publish live (some m) name (some desc) s = (s.gNextLaneId, addLane m name desc s)) :
      Effect s (.publish live (some m) name (some desc)) [] (addLane m name desc s)
  | lease (i : Instr) (consumer : ModId) (laneId : Nat) (lane : LaneEntry) (hi : i.quiet = true)
      (h : s.gLanes.lookup laneId = some lane) :
      Effect s i (if lane.desc.retain.isSome then [.retain laneId s.gNextLeaseId] else [])
        (addLease consumer laneId lane s)
  | take (i : Instr) (id : Nat) (lease : Lease) (hi : i.quiet = true)
      (h : s.gLeases.lookup id = some lease) :
      Effect s i (releaseInstr (takeLease id lease s).1) (takeLease id lease s).2
  | retire (laneId : Nat) (lane : LaneEntry) (h : s.gLanes.lookup laneId = some lane) :
      Effect s (.retireLane laneId) ((retireCalls lane (s.leasesOn laneId) laneId).map .release)
        (Lane.retireLane laneId s).2
  | retain (laneId leaseId : Nat) : Effect s (.retain laneId leaseId) [] s
  | release (laneId : Nat) : Effect s (.release laneId) [] s

theorem quiet_map {f : Nat → Instr} (hf : ∀ n, (f n).quiet = true) (ids : List Nat) :
    ∀ j ∈ ids.map f, j.quiet = true := by
  intro j hj
  obtain ⟨n, _, rfl⟩ := List.mem_map.mp hj
  exact hf n

theorem Exec.effect {i : Instr} {s s' : Lanes} {new : List Instr} (h : Exec i s new s') :
    Effect s i new s' := by
  cases h with
  | publish live mod name desc =>
    obtain he | ⟨m, d, rfl, rfl, _, _, he⟩ := api_lane_publish_cases live mod name desc s
    · rw [he]
      exact .same _ _ rfl (by simp)
    · rw [he]
      exact .publish live m name d he
  | unpublish mod pubId =>
    refine .same _ _ rfl ?_
    split
    · simp [Instr.quiet]
    · simp
  | retireLane laneId =>
    cases hl : s.gLanes.lookup laneId with
    | none =>
      rw [retireLane_of_none hl]
      exact .same _ _ rfl (by simp)
    | some lane =>
      rw [retireLane_owes hl]
      exact .retire laneId lane hl
  | acquire live mod name want out =>
    obtain ⟨hs, hr, _⟩ | ⟨consumer, laneId, lane, _, hl, _, _, _, hs, hr, _⟩ :=
      api_lane_acquire_cases live mod name want out s
    · rw [hs, hr]
      exact .same _ _ rfl (by simp [retainInstr])
    · rw [hs, hr]
      have := Effect.lease (.acquire live mod name want out) consumer laneId lane rfl hl
      split at this
      · next h => simpa [retainInstr, h] using this
      · next h => simpa [retainInstr, h] using this
  | retain laneId leaseId => exact .retain laneId leaseId
  | releaseLease mod leaseId =>
    obtain he | ⟨consumer, lease, _, hl, _, he⟩ := api_lane_release_cases mod leaseId s
    · rw [he]
      exact .same _ _ rfl (by simp [releaseInstr])
    · rw [he]
      exact .take _ leaseId lease rfl hl
  | release laneId => exact .release laneId
  | collectLeases mod ids _ hp => exact .same _ _ rfl (quiet_map (fun _ => rfl) ids)
  | dropLease leaseId =>
    cases hl : s.gLeases.lookup leaseId with
    | none => simpa [Lane.dropLease, hl, releaseInstr] using Effect.same (.dropLease leaseId) [] rfl (by simp)
    | some lease => simpa [Lane.dropLease, hl] using Effect.take (.dropLease leaseId) leaseId lease rfl hl
  | collectPublished mod ids _ hp => exact .same _ _ rfl (quiet_map (fun _ => rfl) ids)

/-! ## What is owed refers to what is there -/

/-- The lease a `retain` is owed for. -/
def Instr.leaseOf : Instr → Option Nat
  | .retain _ leaseId => some leaseId
  | _ => none

/-- A call owed names ids in use, and a `retain` names the lane its lease is on. -/
def Instr.Refers (s : Lanes) : Instr → Prop
  | .retain laneId leaseId => laneId < s.gNextLaneId ∧ leaseId < s.gNextLeaseId ∧
      ∀ lease, s.gLeases.lookup leaseId = some lease → lease.laneId = laneId
  | .release laneId => laneId < s.gNextLaneId
  | _ => True

theorem Instr.Refers.of_quiet {s : Lanes} {i : Instr} (h : i.quiet = true) : i.Refers s := by
  cases i <;> trivial

/-- Tables that only drop old leases and add new ones keep every reference. -/
theorem Instr.Refers.mono {s s' : Lanes} {i : Instr} (h : i.Refers s)
    (hlane : s.gNextLaneId ≤ s'.gNextLaneId) (hlease : s.gNextLeaseId ≤ s'.gNextLeaseId)
    (hold : ∀ id lease, id < s.gNextLeaseId → s'.gLeases.lookup id = some lease →
      s.gLeases.lookup id = some lease) : i.Refers s' := by
  cases i with
  | retain laneId leaseId =>
    obtain ⟨h₁, h₂, h₃⟩ := h
    exact ⟨Nat.lt_of_lt_of_le h₁ hlane, Nat.lt_of_lt_of_le h₂ hlease,
      fun lease hl => h₃ lease (hold leaseId lease h₂ hl)⟩
  | release laneId => exact Nat.lt_of_lt_of_le h hlane
  | publish => trivial
  | unpublish => trivial
  | retireLane => trivial
  | acquire => trivial
  | releaseLease => trivial
  | collectLeases => trivial
  | dropLease => trivial
  | collectPublished => trivial

/-- The tables are in order, the calls owed refer to them, and no two retains
are owed for one lease. -/
structure Shape (s : Lanes) (l : List Instr) : Prop where
  ordered : s.Ordered
  refers : ∀ i ∈ l, i.Refers s
  once : (l.filterMap Instr.leaseOf).Nodup

theorem Shape.perm {s : Lanes} {l l' : List Instr} (hp : l.Perm l') (h : Shape s l) : Shape s l' where
  ordered := h.ordered
  refers i hi := h.refers i (hp.mem_iff.mpr hi)
  once := (hp.filterMap _).nodup_iff.mp h.once

theorem Shape.tail {s : Lanes} {i : Instr} {l : List Instr} (h : Shape s (i :: l)) : Shape s l where
  ordered := h.ordered
  refers j hj := h.refers j (List.mem_cons_of_mem i hj)
  once := by
    have := h.once
    rw [List.filterMap_cons] at this
    split at this
    · exact this
    · exact this.of_cons

theorem filterMap_leaseOf_nil {l : List Instr} (h : ∀ i ∈ l, i.leaseOf = none) : l.filterMap Instr.leaseOf = [] := by
  simpa using h

/-- New instructions that owe no `retain` join what is owed. -/
theorem Shape.append {s s' : Lanes} {l new : List Instr} (h : Shape s l) (ho : s'.Ordered)
    (hold : ∀ i ∈ l, i.Refers s') (hnew : ∀ i ∈ new, i.Refers s' ∧ i.leaseOf = none) : Shape s' (new ++ l) where
  ordered := ho
  refers i hi := by
    rcases List.mem_append.mp hi with hi | hi
    · exact (hnew i hi).1
    · exact hold i hi
  once := by
    rw [List.filterMap_append, filterMap_leaseOf_nil fun i hi => (hnew i hi).2]
    exact h.once

theorem leaseOf_of_quiet {i : Instr} (h : i.quiet = true) : i.leaseOf = none := by
  cases i <;> first | rfl | cases h

theorem program_quiet (o : Op) : ∀ i ∈ program o, i.quiet = true := by
  cases o <;> simp [program, Instr.quiet]

theorem Shape.start {s : Lanes} {l : List Instr} (h : Shape s l) (o : Op) : Shape s (program o ++ l) :=
  h.append h.ordered h.refers fun i hi => ⟨.of_quiet (program_quiet o i hi), leaseOf_of_quiet (program_quiet o i hi)⟩

/-- A granted lease, with the `retain` it owes if the lane wants one. -/
theorem Shape.lease {s : Lanes} {l : List Instr} (h : Shape s l) {laneId : Nat} {lane : LaneEntry} (consumer : ModId)
    (hl : s.gLanes.lookup laneId = some lane) :
    Shape (addLease consumer laneId lane s)
      ((if lane.desc.retain.isSome then [.retain laneId s.gNextLeaseId] else []) ++ l) := by
  have hold : ∀ j ∈ l, j.Refers (addLease consumer laneId lane s) := by
    intro j hj
    refine (h.refers j hj).mono (Nat.le_refl _) (Nat.le_succ _) fun id lease hid hlk => ?_
    simpa [addLease, AList.lookup_insert_eq, Nat.ne_of_lt hid] using hlk
  have hshape : Shape (addLease consumer laneId lane s) l := ⟨h.ordered.addLease hl, hold, h.once⟩
  have hlane : laneId < s.gNextLaneId := by
    apply h.ordered.laneLt
    rw [descOf_eq_some hl]
    rfl
  split
  · refine ⟨hshape.ordered, ?_, ?_⟩
    · intro j hj
      rcases List.mem_cons.mp hj with rfl | hj
      · refine ⟨hlane, Nat.lt_succ_self _, fun lease hlk => ?_⟩
        simp only [addLease, AList.lookup_insert_eq, if_true, Option.some.injEq] at hlk
        rw [← hlk]
      · exact hold j hj
    · -- the new lease id is above every id a retain is already owed for
      have hfresh : s.gNextLeaseId ∉ l.filterMap Instr.leaseOf := by
        intro hm
        obtain ⟨j, hj, hjl⟩ := List.mem_filterMap.mp hm
        cases j with
        | retain laneId' leaseId' =>
          have := (h.refers _ hj).2.1
          cases hjl
          exact absurd this (Nat.lt_irrefl _)
        | _ => cases hjl
      exact List.nodup_cons.mpr ⟨hfresh, h.once⟩
  · exact hshape

/-- The step lemma of `Shape`, one case for each effect. -/
theorem Shape.exec {s s' : Lanes} {i : Instr} {l new : List Instr} (h : Shape s (i :: l))
    (he : Effect s i new s') : Shape s' (new ++ l) := by
  have ht := h.tail
  cases he with
  | same _ _ hi hnew =>
    exact ht.append ht.ordered ht.refers fun j hj => ⟨.of_quiet (hnew j hj), leaseOf_of_quiet (hnew j hj)⟩
  | publish live m name desc =>
    refine ht.append (ht.ordered.addLane m name desc) (fun j hj => ?_) (by simp)
    exact (ht.refers j hj).mono (Nat.le_succ _) (Nat.le_refl _) fun _ _ _ hl => hl
  | lease _ consumer laneId lane hi hl => exact ht.lease consumer hl
  | take _ id lease hi hl =>
    refine ht.append (ht.ordered.takeLease id lease) (fun j hj => ?_) (fun j hj => ?_)
    · have hnext := next_takeLease id lease s
      refine (ht.refers j hj).mono (Nat.le_of_eq hnext.1.symm) (Nat.le_of_eq hnext.2.symm) fun id' lease' _ hlk => ?_
      rw [gLeases_takeLease, AList.lookup_erase_eq] at hlk
      split at hlk
      · cases hlk
      · exact hlk
    · rw [takeLease_owes] at hj
      split at hj
      · simp only [releaseInstr, Option.toList, List.map_cons, List.map_nil, List.mem_singleton] at hj
        subst hj
        refine ⟨?_, rfl⟩
        show lease.laneId < _
        rw [(next_takeLease id lease s).1]
        exact ht.ordered.laneLt _ (ht.ordered.leaseLane id lease hl)
      · simp [releaseInstr] at hj
  | retire laneId lane hl =>
    refine ht.append (ht.ordered.retireLane laneId) (fun j hj => ?_) (fun j hj => ?_)
    · have hnext := next_retireLane laneId s
      refine (ht.refers j hj).mono (Nat.le_of_eq hnext.1.symm) (Nat.le_of_eq hnext.2.symm) fun id' lease' _ hlk => ?_
      rw [gLeases_retireLane hl, AList.lookup_eraseIf_eq_some] at hlk
      exact hlk.1
    · obtain ⟨n, hn, rfl⟩ := List.mem_map.mp hj
      have hnl : n = laneId := by
        unfold retireCalls at hn
        split at hn
        · exact List.eq_of_mem_replicate hn
        · cases hn
      refine ⟨?_, rfl⟩
      show n < _
      rw [(next_retireLane laneId s).1, hnl]
      apply ht.ordered.laneLt
      rw [descOf_eq_some hl]
      rfl
  | retain laneId leaseId => exact ht
  | release laneId => exact ht

end LaneProtocol
