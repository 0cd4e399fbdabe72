import LeviRsLoader.LaneCalls

/-!
# The lane tables over whole runs

One thread runs the lane operations, and a `retain` or `release` of a provider
may call back into any of them. Whatever they do, the names, the lanes, the
leases and the liveness cells go on saying the same, and what has been handed
out is never handed out again. Ids and the leases on a lane are counted without
a bound.
-/
namespace LaneTables

open LeviRs Lane LaneProtocol Runs Interleave Nesting

/-! ## The tables agree with each other -/

/-- The cells are numbered as the lanes are, so cell `a` is that of lane `a + 1`. -/
structure Intact (s : Lanes) : Prop where
  ordered : s.Ordered
  named : ∀ name laneId, s.gByName.lookup name = some laneId ↔
    ∃ lane, s.gLanes.lookup laneId = some lane ∧ lane.name = name
  leases : ∀ laneId lane, s.gLanes.lookup laneId = some lane → lane.leases = s.leasesOn laneId
  cell : ∀ laneId lane, s.gLanes.lookup laneId = some lane → laneId = lane.alive + 1
  next : s.gNextLaneId = s.cells.length + 1
  lit : ∀ a < s.cells.length, (s.cell a).flag = if (s.gLanes.lookup (a + 1)).isSome then 1 else 0

theorem intact_initial : Intact Lanes.initial where
  ordered := ordered_initial
  named := by simp [Lanes.initial]
  leases := by simp [Lanes.initial]
  cell := by simp [Lanes.initial]
  next := rfl
  lit := by simp [Lanes.initial]

variable {s s' : Lanes} {l : Nat} {lane : LaneEntry}

/-- A publish that succeeds has found its name free. -/
theorem free_of_publish {live : ModId → Bool} {mod : Option ModId} {name : String}
    {desc : Option LaneDesc} (hp : (api_lane_publish live mod name desc s).1 ≠ 0) :
    s.gByName.lookup name = none := by
  obtain he | ⟨_, _, _, _, _, hfree, _⟩ := api_lane_publish_cases live mod name desc s
  · rw [he] at hp
    exact absurd rfl hp
  · exact hfree

namespace Intact

theorem laneId_lt (h : Intact s) {laneId : Nat} (hl : s.gLanes.lookup laneId = some lane) :
    laneId < s.gNextLaneId := h.ordered.laneLt laneId (by rw [descOf_eq_some hl]; rfl)

theorem lookup_next (h : Intact s) : s.gLanes.lookup s.gNextLaneId = none := by
  cases hl : s.gLanes.lookup s.gNextLaneId with
  | none => rfl
  | some lane => exact absurd (h.laneId_lt hl) (Nat.lt_irrefl _)

/-- A name that is free gets the next id and the next cell. -/
theorem addLane (h : Intact s) {name : String} (hfree : s.gByName.lookup name = none) (m : ModId)
    (desc : LaneDesc) : Intact (addLane m name desc s) where
  ordered := h.ordered.addLane m name desc
  named name' laneId := by
    rw [lookup_addLane, Lane.addLane, AList.lookup_insert_eq]
    by_cases hn : name' = name
    · subst hn
      rw [if_pos rfl]
      constructor
      · intro he
        cases he
        exact ⟨_, if_pos rfl, rfl⟩
      · rintro ⟨lane, hl, hname⟩
        split at hl
        · next he => rw [he]
        · have := (h.named name' laneId).mpr ⟨lane, hl, hname⟩
          rw [hfree] at this
          cases this
    · rw [if_neg hn, h.named]
      constructor
      · rintro ⟨lane, hl, hname⟩
        exact ⟨lane, by rw [if_neg (Nat.ne_of_lt (h.laneId_lt hl)), hl], hname⟩
      · rintro ⟨lane, hl, hname⟩
        split at hl
        · cases hl
          exact absurd hname.symm hn
        · exact ⟨lane, hl, hname⟩
  leases laneId lane hl := by
    rw [lookup_addLane] at hl
    split at hl
    · next he =>
      cases hl
      have hnone : s.descOf laneId = none := by rw [he, Lanes.descOf, h.lookup_next, Option.map_none]
      exact (leasesOn_eq_zero h.ordered hnone).symm
    · exact h.leases laneId lane hl
  cell laneId lane hl := by
    rw [lookup_addLane] at hl
    split at hl
    · next he =>
      cases hl
      rw [he, h.next]
    · exact h.cell laneId lane hl
  next := by simp [Lane.addLane, h.next]
  lit a ha := by
    have hlen : (Lane.addLane m name desc s).cells.length = s.cells.length + 1 := by simp [Lane.addLane]
    rw [hlen] at ha
    rw [cell_addLane, lookup_addLane, h.next]
    by_cases he : a = s.cells.length
    · simp [he]
    · have hne : a + 1 ≠ s.cells.length + 1 := by omega
      rw [if_neg he, if_neg hne, h.lit a (by omega)]

/-- An operation that changes the number of leases on one lane, in the lane's
entry as in the table of leases. -/
theorem setLeases (h : Intact s) {n : Nat} (hl : s.gLanes.lookup l = some lane) (ho : s'.Ordered)
    (hlanes : s'.gLanes = s.gLanes.insert l { lane with leases := n }) (hnames : s'.gByName = s.gByName)
    (hnext : s'.gNextLaneId = s.gNextLaneId) (hcells : s'.cells = s.cells) (hn : n = s'.leasesOn l)
    (hothers : ∀ laneId, laneId ≠ l → s'.leasesOn laneId = s.leasesOn laneId) : Intact s' where
  ordered := ho
  named name laneId := by
    rw [hnames, hlanes, AList.lookup_insert_eq, h.named]
    by_cases he : laneId = l
    · rw [if_pos he, he, hl]
      simp
    · rw [if_neg he]
  leases laneId lane' hl' := by
    rw [hlanes, AList.lookup_insert_eq] at hl'
    split at hl'
    · next he =>
      cases hl'
      rw [he]
      exact hn
    · next hne => rw [hothers laneId hne, h.leases laneId lane' hl']
  cell laneId lane' hl' := by
    rw [hlanes, AList.lookup_insert_eq] at hl'
    split at hl'
    · next he =>
      cases hl'
      rw [he]
      exact h.cell l lane hl
    · exact h.cell laneId lane' hl'
  next := by rw [hnext, hcells, h.next]
  lit a ha := by
    rw [hcells] at ha
    have hcell : s'.cell a = s.cell a := by simp [Lanes.cell, hcells]
    rw [hcell, h.lit a ha, hlanes, AList.lookup_insert_eq]
    by_cases he : a + 1 = l
    · rw [if_pos he, he, hl]
      rfl
    · rw [if_neg he]

theorem addLease (h : Intact s) (hl : s.gLanes.lookup l = some lane) (consumer : ModId) :
    Intact (addLease consumer l lane s) := by
  refine h.setLeases hl (h.ordered.addLease hl) rfl rfl rfl rfl ?_ fun laneId hne => ?_
  · rw [leasesOn_addLease h.ordered, if_pos rfl, h.leases l lane hl]
  · rw [leasesOn_addLease h.ordered, if_neg (Ne.symm hne), Nat.add_zero]

/-- The lane of a lease is there, so its count goes down with the table's. -/
theorem takeLease (h : Intact s) {id : Nat} {lease : Lease} (hid : s.gLeases.lookup id = some lease) :
    Intact (takeLease id lease s).2 := by
  obtain ⟨desc, hdesc⟩ := Option.isSome_iff_exists.mp (h.ordered.leaseLane id lease hid)
  obtain ⟨lane, hl, -⟩ := Option.map_eq_some_iff.mp hdesc
  have htake : (Lane.takeLease id lease s).2 =
      { s with gLanes := s.gLanes.insert lease.laneId { lane with leases := lane.leases - 1 },
               gLeases := s.gLeases.erase id } := by simp [Lane.takeLease, hl]
  have hleft := leasesOn_takeLease hid
  refine h.setLeases hl (h.ordered.takeLease id lease) (by rw [htake]) (by rw [htake]) (by rw [htake]) (by rw [htake])
    ?_ fun laneId hne => ?_
  · rw [h.leases _ lane hl, hleft, if_pos rfl, Nat.add_sub_cancel]
  · rw [hleft, if_neg (Ne.symm hne), Nat.add_zero]

theorem retireLane (h : Intact s) (hl : s.gLanes.lookup l = some lane) : Intact (retireLane l s).2 where
  ordered := h.ordered.retireLane l
  named name laneId := by
    have hown : s.gByName.lookup lane.name = some l := (h.named lane.name l).mpr ⟨lane, hl, rfl⟩
    have hnames : (Lane.retireLane l s).2.gByName = s.gByName.erase lane.name := by
      simp [Lane.retireLane, hl, hown]
    rw [hnames, AList.lookup_erase_eq, lookup_retireLane]
    by_cases hn : name = lane.name
    · rw [if_pos hn]
      constructor
      · intro he
        cases he
      · rintro ⟨lane', hl', hname⟩
        split at hl'
        · cases hl'
        · next hne =>
          -- two lanes of one name would be one lane
          have hid := (h.named name laneId).mpr ⟨lane', hl', hname⟩
          rw [hn, hown] at hid
          cases hid
          exact absurd rfl hne
    · rw [if_neg hn, h.named]
      constructor
      · rintro ⟨lane', hl', hname⟩
        have hne : laneId ≠ l := by
          intro he
          rw [he, hl] at hl'
          cases hl'
          exact hn hname.symm
        exact ⟨lane', by rw [if_neg hne, hl'], hname⟩
      · rintro ⟨lane', hl', hname⟩
        split at hl'
        · cases hl'
        · exact ⟨lane', hl', hname⟩
  leases laneId lane' hl' := by
    rw [lookup_retireLane] at hl'
    split at hl'
    · cases hl'
    · next hne => rw [leasesOn_retireLane hl, if_neg hne, h.leases laneId lane' hl']
  cell laneId lane' hl' := by
    rw [lookup_retireLane] at hl'
    split at hl'
    · cases hl'
    · exact h.cell laneId lane' hl'
  next := by
    have hlen : (Lane.retireLane l s).2.cells.length = s.cells.length := by simp [Lane.retireLane, hl]
    rw [hlen, (next_retireLane l s).1, h.next]
  lit a ha := by
    have hlen : (Lane.retireLane l s).2.cells.length = s.cells.length := by simp [Lane.retireLane, hl]
    rw [hlen] at ha
    have hcell := h.cell l lane hl
    rw [cell_retireLane hl, lookup_retireLane]
    by_cases he : lane.alive = a
    · have hid : a + 1 = l := by omega
      rw [if_pos ⟨he, ha⟩, if_pos hid]
      rfl
    · have hid : a + 1 ≠ l := by omega
      rw [if_neg fun hc => he hc.1, if_neg hid, h.lit a ha]

/-- The step lemma of `Intact`. -/
theorem exec (h : Intact s) {i : Instr} {new : List Instr} (hx : Exec i s new s') : Intact s' := by
  cases hx.effect with
  | publish live m name desc hp =>
    have hid : (api_lane_publish live (some m) name (some desc) s).1 ≠ 0 := by
      rw [hp, h.next]
      exact Nat.succ_ne_zero _
    exact h.addLane (free_of_publish hid) m desc
  | lease _ consumer l lane _ hl => exact h.addLease hl consumer
  | take _ id lease _ hid => exact h.takeLease hid
  | retire l lane hl => exact h.retireLane hl
  | _ => exact h

end Intact

/-! ## What a run has handed out -/

abbrev Thread := Machine Lanes Instr

/-- One thread; an operation starts with nothing to run, or inside a call into a provider. -/
abbrev TStep : Thread → Event → Thread → Prop := Nesting.Step (fun i : Instr => !i.quiet) program Exec

def initial : Thread := ⟨Lanes.initial, []⟩

/-- The lane a step publishes: the id it answers, and what it was given. -/
def publishedLane : Thread × Event → Option (Nat × LaneEntry)
  | (p, .exec (.publish live (some mod) name (some desc))) =>
    let id := (api_lane_publish live (some mod) name (some desc) p.state).1
    if id = 0 then none
    else some (id, ⟨mod, name, { desc with struct_size := sizeofLaneDesc }, p.state.cells.length, 0⟩)
  | _ => none

/-- The lease a step grants, and to whom. -/
def grantedLease : Thread × Event → Option (Nat × ModId)
  | (p, .exec (.acquire live (some consumer) name want out)) =>
    let r := api_lane_acquire live (some consumer) name want out p.state
    if r.code = LEVI_RS_LANE_OK then r.out.map fun ref => (ref.lease, consumer) else none
  | _ => none

/-- The lease a step takes back, and from whom. -/
def returnedLease : Thread × Event → Option (Nat × ModId)
  | (p, .exec (.releaseLease (some consumer) leaseId)) =>
    if (api_lane_release (some consumer) leaseId p.state).1 then some (leaseId, consumer) else none
  | _ => none

/-- The entry of a lane as it was published. -/
def entryOf (s : Lanes) (laneId : Nat) : Option LaneEntry :=
  (s.gLanes.lookup laneId).map fun lane => { lane with leases := 0 }

/-! ### What one step adds -/

theorem entryOf_addLane (m : ModId) (name : String) (desc : LaneDesc) (s : Lanes) (laneId : Nat) :
    entryOf (addLane m name desc s) laneId =
      if laneId = s.gNextLaneId then some ⟨m, name, { desc with struct_size := sizeofLaneDesc }, s.cells.length, 0⟩
      else entryOf s laneId := by
  rw [entryOf, lookup_addLane]
  split <;> rfl

variable {p : Thread} {i : Instr} {new : List Instr}

/-- Only a publish puts a lane in the table, under the next id and with a cell of its own. -/
theorem publishedLane_cases (h : Intact p.state) (hx : Exec i p.state new s') :
    (publishedLane (p, .exec i) = none ∧ ∀ laneId entry, entryOf s' laneId = some entry →
      entryOf p.state laneId = some entry) ∨
    ∃ entry, publishedLane (p, .exec i) = some (p.state.gNextLaneId, entry) ∧ entry.alive = p.state.cells.length ∧
      s'.cells.length = p.state.cells.length + 1 ∧ ∀ laneId entry', entryOf s' laneId = some entry' →
        laneId = p.state.gNextLaneId ∧ entry' = entry ∨ entryOf p.state laneId = some entry' := by
  by_cases hi : ∃ live mod name desc, i = .publish live mod name desc
  · obtain ⟨live, mod, name, desc, rfl⟩ := hi
    cases hx
    obtain he | ⟨m, d, rfl, rfl, -, -, he⟩ := api_lane_publish_cases live mod name desc p.state
    · refine .inl ⟨?_, by rw [he]; exact fun _ _ hl => hl⟩
      unfold publishedLane
      split
      · next heq =>
        cases heq
        rw [he]
        rfl
      · rfl
    · refine .inr ⟨⟨m, name, { d with struct_size := sizeofLaneDesc }, p.state.cells.length, 0⟩, ?_, rfl, ?_, ?_⟩
      · have hne : p.state.gNextLaneId ≠ 0 := by rw [h.next]; exact Nat.succ_ne_zero _
        simp [publishedLane, he, hne]
      · simp [he, addLane]
      · intro laneId entry' hl
        rw [he, entryOf_addLane] at hl
        split at hl
        · next hid =>
          cases hl
          exact .inl ⟨hid, rfl⟩
        · exact .inr hl
  · left
    constructor
    · unfold publishedLane
      split
      · next heq =>
        cases heq
        exact absurd ⟨_, _, _, _, rfl⟩ hi
      · rfl
    · intro laneId entry hl
      cases hx.effect with
      | publish live m name desc hp => exact absurd ⟨_, _, _, _, rfl⟩ hi
      | lease _ consumer l lane _ hlane =>
        rwa [entryOf, lookup_addLease (fun _ _ => rfl) consumer hlane] at hl
      | take _ id lease => rwa [entryOf, lookup_takeLease (fun _ _ => rfl)] at hl
      | retire l lane hlane =>
        rw [entryOf, lookup_retireLane] at hl
        split at hl
        · cases hl
        · exact hl
      | _ => exact hl

/-- The table of leases has lost entries at most. -/
def LeasesKept (s s' : Lanes) : Prop :=
  s'.gNextLeaseId = s.gNextLeaseId ∧ ∀ id lease, s'.gLeases.lookup id = some lease → s.gLeases.lookup id = some lease

theorem leasesKept_refl (s : Lanes) : LeasesKept s s := ⟨rfl, fun _ _ hl => hl⟩

theorem leasesKept_takeLease (id : Nat) (lease : Lease) (s : Lanes) : LeasesKept s (takeLease id lease s).2 := by
  refine ⟨(next_takeLease id lease s).2, fun id' lease' hl => ?_⟩
  rw [gLeases_takeLease, AList.lookup_erase_eq] at hl
  split at hl
  · cases hl
  · exact hl

theorem leasesKept_retireLane (l : Nat) (s : Lanes) : LeasesKept s (retireLane l s).2 := by
  refine ⟨(next_retireLane l s).2, fun id lease hl => ?_⟩
  cases hlane : s.gLanes.lookup l with
  | none => rwa [retireLane_of_none hlane] at hl
  | some lane =>
    rw [gLeases_retireLane hlane, AList.lookup_eraseIf_eq_some] at hl
    exact hl.1

theorem leasesKept_publish (live : ModId → Bool) (mod : Option ModId) (name : String) (desc : Option LaneDesc)
    (s : Lanes) : LeasesKept s (api_lane_publish live mod name desc s).2 := by
  obtain he | ⟨m, d, -, -, -, -, he⟩ := api_lane_publish_cases live mod name desc s
  · rw [he]
    exact leasesKept_refl s
  · rw [he]
    exact ⟨rfl, fun _ _ hl => hl⟩

theorem grantedLease_acquire (p : Thread) (live : ModId → Bool) (mod : Option ModId) (name : String) (want : UInt64)
    (out : Option LaneRef) :
    (grantedLease (p, .exec (.acquire live mod name want out)) = none ∧
      (api_lane_acquire live mod name want out p.state).lanes = p.state) ∨
    ∃ consumer laneId lane,
      grantedLease (p, .exec (.acquire live mod name want out)) = some (p.state.gNextLeaseId, consumer) ∧
      (api_lane_acquire live mod name want out p.state).lanes = addLease consumer laneId lane p.state := by
  obtain ⟨code, out', he, hcode, -⟩ | ⟨consumer, laneId, lane, ref, ⟨rfl, -⟩, -, he, hid, -⟩ :=
    api_lane_acquire_spec live mod name want out p.state
  · refine .inl ⟨?_, by rw [he]⟩
    cases mod with
    | none => rfl
    | some consumer => rw [grantedLease, he, if_neg hcode]
  · refine .inr ⟨consumer, laneId, lane, ?_, by rw [he]⟩
    rw [grantedLease, he, if_pos rfl, Option.map_some, hid]

/-- Only an acquire puts a lease in the table, under the next id. -/
theorem grantedLease_cases (p : Thread) (hx : Exec i p.state new s') :
    (grantedLease (p, .exec i) = none ∧ LeasesKept p.state s') ∨
    ∃ consumer, grantedLease (p, .exec i) = some (p.state.gNextLeaseId, consumer) ∧
      s'.gNextLeaseId = p.state.gNextLeaseId + 1 ∧ ∀ id lease, s'.gLeases.lookup id = some lease →
        id = p.state.gNextLeaseId ∧ lease.holder = consumer ∨ p.state.gLeases.lookup id = some lease := by
  cases hx with
  | publish live mod name desc => exact .inl ⟨rfl, leasesKept_publish live mod name desc p.state⟩
  | retireLane laneId => exact .inl ⟨rfl, leasesKept_retireLane laneId p.state⟩
  | acquire live mod name want out =>
    obtain ⟨hg, hs⟩ | ⟨consumer, laneId, lane, hg, hs⟩ := grantedLease_acquire p live mod name want out
    · exact .inl ⟨hg, by rw [hs]; exact leasesKept_refl _⟩
    · refine .inr ⟨consumer, hg, by rw [hs]; rfl, fun id lease hl => ?_⟩
      rw [hs, addLease, AList.lookup_insert_eq] at hl
      split at hl
      · next hid =>
        cases hl
        exact .inl ⟨hid, rfl⟩
      · exact .inr hl
  | releaseLease mod leaseId =>
    refine .inl ⟨rfl, ?_⟩
    obtain he | ⟨_, lease, _, _, _, he⟩ := api_lane_release_cases mod leaseId p.state
    · rw [he]
      exact leasesKept_refl _
    · rw [he]
      exact leasesKept_takeLease leaseId lease p.state
  | dropLease leaseId =>
    refine .inl ⟨rfl, ?_⟩
    unfold Lane.dropLease
    split
    · exact leasesKept_refl _
    · exact leasesKept_takeLease leaseId _ p.state
  | _ => exact .inl ⟨rfl, leasesKept_refl _⟩

/-- A release that answers true takes back a lease its caller holds. -/
theorem returnedLease_some (hx : Exec i p.state new s') {x : Nat × ModId} (hr : returnedLease (p, .exec i) = some x) :
    ∃ lease, p.state.gLeases.lookup x.1 = some lease ∧ lease.holder = x.2 ∧ s'.gLeases.lookup x.1 = none := by
  unfold returnedLease at hr
  split at hr
  · next consumer leaseId heq =>
    cases heq
    cases hx
    obtain he | ⟨_, lease, hmod, hl, hholder, he⟩ := api_lane_release_cases (some consumer) leaseId p.state
    · rw [he] at hr
      cases hr
    · cases hmod
      rw [he] at hr
      cases hr
      refine ⟨lease, hl, hholder, ?_⟩
      rw [he, gLeases_takeLease, AList.lookup_erase_eq, if_pos rfl]
  · cases hr

/-! ### The books of a run -/

/-- What is in the tables has been handed out, under ids given out once, and what
has been taken back is in them no more. -/
structure Handed (tr : List (Thread × Event)) (s : Lanes) : Prop where
  intact : Intact s
  lanes : Numbered (tr.filterMap publishedLane) s.gNextLaneId
  cell : ∀ x ∈ tr.filterMap publishedLane, x.1 = x.2.alive + 1
  lane : ∀ laneId entry, entryOf s laneId = some entry → (laneId, entry) ∈ tr.filterMap publishedLane
  leases : Numbered (tr.filterMap grantedLease) s.gNextLeaseId
  lease : ∀ id lease, s.gLeases.lookup id = some lease → (id, lease.holder) ∈ tr.filterMap grantedLease
  returnOnce : ((tr.filterMap returnedLease).map Prod.fst).Nodup
  returned : ∀ x ∈ tr.filterMap returnedLease, x ∈ tr.filterMap grantedLease ∧ s.gLeases.lookup x.1 = none

theorem handed_initial : Handed [] Lanes.initial where
  intact := intact_initial
  lanes := numbered_nil _
  cell := by simp
  lane := by simp [entryOf, Lanes.initial]
  leases := numbered_nil _
  lease := by simp [Lanes.initial]
  returnOnce := by simp
  returned := by simp

variable {tr : List (Thread × Event)}

section Concat

variable {α β : Type*} {f : α → Option β} {as : List α} {a : α} {x : β}

theorem filterMap_concat_none (h : f a = none) : (as ++ [a]).filterMap f = as.filterMap f := by
  simp [List.filterMap_append, h]

theorem filterMap_concat_some (h : f a = some x) : (as ++ [a]).filterMap f = as.filterMap f ++ [x] := by
  simp [List.filterMap_append, h]

end Concat

namespace Handed

theorem start (h : Handed tr p.state) (o : Op) : Handed (tr ++ [(p, .start o)]) p.state := by
  let e : Thread × Event := (p, .start o)
  have hl : (tr ++ [e]).filterMap publishedLane = tr.filterMap publishedLane := filterMap_concat_none rfl
  have hg : (tr ++ [e]).filterMap grantedLease = tr.filterMap grantedLease := filterMap_concat_none rfl
  have hr : (tr ++ [e]).filterMap returnedLease = tr.filterMap returnedLease := filterMap_concat_none rfl
  obtain ⟨h₁, h₂, h₃, h₄, h₅, h₆, h₇, h₈⟩ := h
  exact ⟨h₁, by rwa [hl], by rwa [hl], by rwa [hl], by rwa [hg], by rwa [hg], by rwa [hr], by rwa [hr, hg]⟩

/-- What has been taken back does not come back into the table. -/
theorem lookup_returned (h : Handed tr p.state) (hx : Exec i p.state new s') {x : Nat × ModId}
    (hm : x ∈ tr.filterMap returnedLease) : s'.gLeases.lookup x.1 = none := by
  obtain ⟨hgr, hgone⟩ := h.returned x hm
  cases hl : s'.gLeases.lookup x.1 with
  | none => rfl
  | some lease =>
    have hback : x.1 = p.state.gNextLeaseId ∨ p.state.gLeases.lookup x.1 = some lease := by
      obtain ⟨-, -, hkept⟩ | ⟨consumer, -, -, hnew⟩ := grantedLease_cases p hx
      · exact .inr (hkept x.1 lease hl)
      · exact (hnew x.1 lease hl).imp_left And.left
    rcases hback with hid | hold
    · exact absurd hid (Nat.ne_of_lt (h.leases.lt x hgr))
    · rw [hgone] at hold
      cases hold

/-- The step lemma of `Handed`. -/
theorem exec (h : Handed tr p.state) (hx : Exec i p.state new s') : Handed (tr ++ [(p, .exec i)]) s' where
  intact := h.intact.exec hx
  lanes := by
    obtain ⟨hnone, -⟩ | ⟨entry, hsome, -, hlen, -⟩ := publishedLane_cases h.intact hx
    · rw [filterMap_concat_none hnone]
      exact h.lanes.mono hx.effect.next_le
    · have hnext : s'.gNextLaneId = p.state.gNextLaneId + 1 := by rw [(h.intact.exec hx).next, hlen, h.intact.next]
      rw [filterMap_concat_some hsome, hnext]
      exact h.lanes.concat entry
  cell x hm := by
    rw [List.filterMap_append, List.mem_append] at hm
    rcases hm with hm | hm
    · exact h.cell x hm
    · obtain ⟨hnone, -⟩ | ⟨entry, hsome, halive, -⟩ := publishedLane_cases h.intact hx
      · simp [hnone] at hm
      · have hxe : x = (p.state.gNextLaneId, entry) := by simpa [hsome] using hm
        rw [hxe, halive]
        exact h.intact.next
  lane laneId entry hl := by
    rw [List.filterMap_append, List.mem_append]
    obtain ⟨-, hkept⟩ | ⟨new, hsome, -, -, hnew⟩ := publishedLane_cases h.intact hx
    · exact .inl (h.lane laneId entry (hkept laneId entry hl))
    · obtain ⟨rfl, rfl⟩ | hold := hnew laneId entry hl
      · exact .inr (by simp [hsome])
      · exact .inl (h.lane laneId entry hold)
  leases := by
    obtain ⟨hnone, hnext, -⟩ | ⟨consumer, hsome, hnext, -⟩ := grantedLease_cases p hx
    · rw [filterMap_concat_none hnone, hnext]
      exact h.leases
    · rw [filterMap_concat_some hsome, hnext]
      exact h.leases.concat consumer
  lease id lease hl := by
    rw [List.filterMap_append, List.mem_append]
    obtain ⟨-, -, hkept⟩ | ⟨consumer, hsome, -, hnew⟩ := grantedLease_cases p hx
    · exact .inl (h.lease id lease (hkept id lease hl))
    · obtain ⟨rfl, rfl⟩ | hold := hnew id lease hl
      · exact .inr (by simp [hsome])
      · exact .inl (h.lease id lease hold)
  returnOnce := by
    cases hret : returnedLease (p, .exec i) with
    | none =>
      rw [filterMap_concat_none hret]
      exact h.returnOnce
    | some x =>
      -- what has been taken back before is not in the table to be taken back again
      have hfresh : x.1 ∉ (tr.filterMap returnedLease).map Prod.fst := by
        intro hm
        obtain ⟨y, hy, hxy⟩ := List.mem_map.mp hm
        obtain ⟨lease, hl, -⟩ := returnedLease_some hx hret
        have hgone := (h.returned y hy).2
        rw [hxy, hl] at hgone
        cases hgone
      rw [filterMap_concat_some hret, List.map_append, List.map_singleton]
      simpa using List.Nodup.concat hfresh h.returnOnce
  returned x hm := by
    rw [List.filterMap_append, List.mem_append] at hm
    rw [List.filterMap_append, List.mem_append]
    rcases hm with hm | hm
    · exact ⟨.inl (h.returned x hm).1, h.lookup_returned hx hm⟩
    · have hret : returnedLease (p, .exec i) = some x := by simpa using hm
      obtain ⟨lease, hl, hholder, hgone⟩ := returnedLease_some hx hret
      have hgr := h.lease x.1 lease hl
      rw [hholder] at hgr
      exact ⟨.inl hgr, hgone⟩

end Handed

/-- The run lemma of `Handed`. -/
theorem handed_run (h : Run TStep initial tr p) : Handed tr p.state := by
  refine h.traceInvariant (G := fun _ _ => True) (fun tr p => Handed tr p.state) (fun _ _ => trivial) handed_initial ?_
  intro pre q l q' hq _ hs
  cases hs with
  | start s stack o => exact hq.start o
  | exec rest hx => exact hq.exec hx

/-! ## The tables in every run -/

/-- A flag that is down stays down: publishing allocates a cell, nothing raises one again. -/
theorem flag_exec {s : Lanes} (hx : Exec i s new s') {a : Nat} (ha : a < s.cells.length)
    (hf : (s.cell a).flag = 0) : (s'.cell a).flag = 0 := by
  cases hx.effect with
  | publish _ m name desc =>
    rw [cell_addLane, if_neg (Nat.ne_of_lt ha)]
    exact hf
  | take _ id lease => rwa [cell_takeLease]
  | retire l lane hl =>
    rw [cell_retireLane hl]
    split
    · rfl
    · exact hf
  | _ => exact hf

theorem flag_run {p' : Thread} (h : Run TStep p tr p') {a : Nat} (ha : a < p.state.cells.length)
    (hf : (p.state.cell a).flag = 0) : (p'.state.cell a).flag = 0 := by
  have hrun : a < p'.state.cells.length ∧ (p'.state.cell a).flag = 0 := by
    refine h.invariant' (fun q => a < q.state.cells.length ∧ (q.state.cell a).flag = 0) ⟨ha, hf⟩ ?_
    rintro q l q' ⟨hlt, hdown⟩ hs
    cases hs with
    | start s stack o => exact ⟨hlt, hdown⟩
    | exec rest hx => exact ⟨Nat.lt_of_lt_of_le hlt hx.effect.cells_le, flag_exec hx hlt hdown⟩
  exact hrun.2

/-- What the tables, and the records handed out from them, keep to. -/
structure TablesHold (tr : List (Thread × Event)) (p : Thread) : Prop where
  /-- A name leads to the live lane of that name, and only to it. -/
  named : ∀ name laneId, p.state.gByName.lookup name = some laneId ↔
    ∃ lane, p.state.gLanes.lookup laneId = some lane ∧ lane.name = name
  leases : ∀ laneId lane, p.state.gLanes.lookup laneId = some lane → lane.leases = p.state.leasesOn laneId
  leased : ∀ id lease, p.state.gLeases.lookup id = some lease → (p.state.gLanes.lookup lease.laneId).isSome
  /-- But for its leases, a live lane is as one publish left it. -/
  lane : ∀ laneId lane, p.state.gLanes.lookup laneId = some lane →
    (laneId, { lane with leases := 0 }) ∈ tr.filterMap publishedLane
  laneOnce : ((tr.filterMap publishedLane).map Prod.fst).Nodup
  cellOnce : ((tr.filterMap publishedLane).map fun x => x.2.alive).Nodup
  alive : ∀ x ∈ tr.filterMap publishedLane,
    (p.state.cell x.2.alive).flag = if (p.state.gLanes.lookup x.1).isSome then 1 else 0
  /-- Once down, a lane's flag is down for good. -/
  down : ∀ x ∈ tr.filterMap publishedLane, (p.state.cell x.2.alive).flag = 0 →
    ∀ tr' p', Run TStep p tr' p' → (p'.state.cell x.2.alive).flag = 0
  acquired : ∀ live mod name want out, kMinRefSize ≤ out.struct_size →
    ∃ ref, (api_lane_acquire live mod name want (some out) p.state).out = some ref ∧
      ((api_lane_acquire live mod name want (some out) p.state).code ≠ LEVI_RS_LANE_OK → ref.Empty) ∧
      ((api_lane_acquire live mod name want (some out) p.state).code = LEVI_RS_LANE_OK →
        ∃ consumer laneId lane, Grants p.state mod name want consumer laneId lane)
  leaseOnce : ((tr.filterMap grantedLease).map Prod.fst).Nodup
  /-- A release answers true to the mod the lease was granted to, and once. -/
  released : ∀ mod leaseId, (api_lane_release mod leaseId p.state).1 = true →
    ∃ consumer, mod = some consumer ∧ (leaseId, consumer) ∈ tr.filterMap grantedLease ∧
      leaseId ∉ (tr.filterMap returnedLease).map Prod.fst
  returnOnce : ((tr.filterMap returnedLease).map Prod.fst).Nodup
  returned : ∀ x ∈ tr.filterMap returnedLease, x ∈ tr.filterMap grantedLease

theorem Handed.alive_lt {s : Lanes} (h : Handed tr s) {x : Nat × LaneEntry} (hx : x ∈ tr.filterMap publishedLane) :
    x.2.alive < s.cells.length := by
  have hlt := h.lanes.lt x hx
  rw [h.cell x hx, h.intact.next] at hlt
  omega

/-- A cell belongs to one lane, as an id does. -/
theorem Handed.cellOnce {s : Lanes} (h : Handed tr s) :
    ((tr.filterMap publishedLane).map fun x => x.2.alive).Nodup := by
  refine List.Nodup.of_map Nat.succ ?_
  have hids : ((tr.filterMap publishedLane).map fun x => x.2.alive).map Nat.succ =
      (tr.filterMap publishedLane).map Prod.fst := by
    rw [List.map_map]
    exact List.map_congr_left fun x hx => (h.cell x hx).symm
  rw [hids]
  exact h.lanes.once

theorem Handed.released {s : Lanes} (h : Handed tr s) {mod : Option ModId} {leaseId : Nat}
    (hr : (api_lane_release mod leaseId s).1 = true) :
    ∃ consumer, mod = some consumer ∧ (leaseId, consumer) ∈ tr.filterMap grantedLease ∧
      leaseId ∉ (tr.filterMap returnedLease).map Prod.fst := by
  obtain he | ⟨consumer, lease, hmod, hl, rfl, -⟩ := api_lane_release_cases mod leaseId s
  · rw [he] at hr
    cases hr
  · refine ⟨lease.holder, hmod, h.lease leaseId lease hl, fun hm => ?_⟩
    obtain ⟨x, hx, rfl⟩ := List.mem_map.mp hm
    have hgone := (h.returned x hx).2
    rw [hl] at hgone
    cases hgone

/-- In every run of one thread, whatever the providers' callbacks call in turn. -/
theorem lane_tables_hold (h : Run TStep initial tr p) : TablesHold tr p where
  named := (handed_run h).intact.named
  leases := (handed_run h).intact.leases
  leased id lease hl := by
    have := (handed_run h).intact.ordered.leaseLane id lease hl
    rwa [Lanes.descOf, Option.isSome_map] at this
  lane laneId lane hl := (handed_run h).lane laneId _ (by rw [entryOf, hl]; rfl)
  laneOnce := (handed_run h).lanes.once
  cellOnce := (handed_run h).cellOnce
  alive x hx := by
    rw [(handed_run h).intact.lit _ ((handed_run h).alive_lt hx), (handed_run h).cell x hx]
  down x hx hf tr' p' hrun := flag_run hrun ((handed_run h).alive_lt hx) hf
  acquired live mod name want out hout := by
    obtain ⟨code, out', he, hcode, hempty⟩ | ⟨consumer, laneId, lane, ref, hgrants, -, he, -⟩ :=
      api_lane_acquire_spec live mod name want (some out) p.state
    · obtain ⟨ref, href, hempty⟩ := hempty out rfl hout
      rw [he]
      exact ⟨ref, href, fun _ => hempty, fun hok => absurd hok hcode⟩
    · rw [he]
      exact ⟨ref, rfl, fun hne => absurd rfl hne, fun _ => ⟨consumer, laneId, lane, hgrants⟩⟩
  leaseOnce := (handed_run h).leases.once
  released mod leaseId hr := (handed_run h).released hr
  returnOnce := (handed_run h).returnOnce
  returned x hx := ((handed_run h).returned x hx).1

/-- A lane is published and acquired, and its `retain` gives the lease back at once. -/
def callbackTrace : List (Thread × Event) :=
  [(initial, .start (.publish everyone (some 1) "a" (some exampleDesc))),
   (⟨Lanes.initial, [.publish everyone (some 1) "a" (some exampleDesc)]⟩,
     .exec (.publish everyone (some 1) "a" (some exampleDesc))),
   (⟨onePublished, []⟩, .start (.acquire everyone (some 2) "a" 7 (some exampleRef))),
   (⟨onePublished, [.acquire everyone (some 2) "a" 7 (some exampleRef)]⟩,
     .exec (.acquire everyone (some 2) "a" 7 (some exampleRef))),
   (⟨oneLease, [.retain 1 1]⟩, .start (.release (some 2) 1)),
   (⟨oneLease, [.releaseLease (some 2) 1, .retain 1 1]⟩, .exec (.releaseLease (some 2) 1))]

def callbackEnd : Thread := ⟨(api_lane_release (some 2) 1 oneLease).2.2, [.release 1, .retain 1 1]⟩

theorem run_callback : Run TStep initial callbackTrace callbackEnd :=
  .cons (.start _ _ _ (by simp)) <| .cons (.exec _ (.publish _ _ _ _ _)) <| .cons (.start _ _ _ (by simp)) <|
    .cons (.exec _ (.acquire _ _ _ _ _ _)) <| .cons (.start _ _ _ fun i hi => by cases hi; rfl) <|
      .cons (.exec _ (.releaseLease _ _ _)) (.nil _)

theorem lane_tables_hold_callback : TablesHold callbackTrace callbackEnd ∧
    callbackTrace.filterMap returnedLease = [(1, 2)] := ⟨lane_tables_hold run_callback, by decide⟩

end LaneTables
