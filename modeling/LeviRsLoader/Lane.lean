import LeviRsLoader.RustMod

/-!
# The lane tables

Each operation of `Lane.cpp` up to the end of its part under `gMutex`: the
tables after it, and the `retain` and `release` calls it still owes, which are
made without the lock. A call is named by the lane whose `desc` it comes from.
Liveness cells are never freed, so a cell is an index into a growing list.
-/
namespace Lane

open LeviRs

def kMaxName : Nat := 128

def LEVI_RS_LANE_PROTOCOL : UInt32 := 1

def LEVI_RS_LANE_OK : Int32 := 0
def LEVI_RS_LANE_NOT_FOUND : Int32 := 1
def LEVI_RS_LANE_FINGERPRINT : Int32 := 2
def LEVI_RS_LANE_REFUSED : Int32 := 3

/-- `sizeof(LeviRsLaneDesc)` -/
def sizeofLaneDesc : UInt32 := 48

/-- `offsetof(LeviRsLaneRef, alive) + sizeof(uint32_t const*)` -/
def kMinRefSize : UInt32 := 48

/-- `offsetof(LeviRsLaneRef, busy) + sizeof(uint32_t*)` -/
def busyRefSize : UInt32 := 56

structure AliveCell where
  flag : UInt32
  busy : Nat
  deriving DecidableEq, Repr

structure LaneDesc where
  struct_size : UInt32
  protocol : UInt32
  fingerprint : UInt64
  data : Ptr
  vtable : Option Ptr
  retain : Option Ptr
  release : Option Ptr
  deriving DecidableEq, Repr

/-- `leases` is a `uint32_t`: as a natural number it is the field's value as
long as fewer than 2^32 leases are out on the lane. -/
structure LaneEntry where
  mod : ModId
  name : String
  desc : LaneDesc
  alive : Nat
  leases : Nat
  deriving DecidableEq, Repr

structure Lease where
  holder : ModId
  laneId : Nat
  deriving DecidableEq, Repr

/-- What `api_lane_acquire` fills in. -/
structure LaneRef where
  struct_size : UInt32
  lease : Nat
  fingerprint : UInt64
  data : Ptr
  vtable : Option Ptr
  alive : Option Nat
  busy : Option Nat
  deriving DecidableEq, Repr

structure Lanes where
  gLanes : Table Nat LaneEntry
  gByName : Table String Nat
  gLeases : Table Nat Lease
  gNextLaneId : Nat
  gNextLeaseId : Nat
  cells : List AliveCell

def Lanes.initial : Lanes := ⟨∅, ∅, ∅, 1, 1, []⟩

def Lanes.cell (s : Lanes) (a : Nat) : AliveCell := s.cells.getD a ⟨0, 0⟩

/-- A name the tables admit: not empty, at most `kMaxName` bytes. -/
def validName (name : String) : Bool := 0 < name.utf8ByteSize && name.utf8ByteSize ≤ kMaxName

/-- `providerAlive`: the weak pointer still leads to the same mod. -/
def providerAlive (live : ModId → Bool) (lane : LaneEntry) : Bool := live lane.mod

/-- The tables with one more lane, under the next id. -/
def addLane (mod : ModId) (name : String) (desc : LaneDesc) (s : Lanes) : Lanes :=
  let lane : LaneEntry :=
    { mod := mod, name := name, desc := { desc with struct_size := sizeofLaneDesc }, alive := s.cells.length,
      leases := 0 }
  { s with gLanes := s.gLanes.insert s.gNextLaneId lane, gByName := s.gByName.insert name s.gNextLaneId,
           gNextLaneId := s.gNextLaneId + 1, cells := s.cells ++ [⟨1, 0⟩] }

/-- The lane id (0 for a refusal) and the tables after. -/
def api_lane_publish (live : ModId → Bool) (mod : Option ModId) (name : String) (desc : Option LaneDesc)
    (s : Lanes) : Nat × Lanes :=
  match mod, desc with
  | some raw, some desc =>
    if desc.struct_size < sizeofLaneDesc then (0, s)
    else if desc.protocol ≠ LEVI_RS_LANE_PROTOCOL then (0, s)
    else if desc.vtable = none then (0, s)
    else if desc.fingerprint = 0 then (0, s)
    else if !validName name then (0, s)
    else if !live raw then (0, s)
    else if (s.gByName.lookup name).isSome then (0, s)
    else (s.gNextLaneId, addLane raw name desc s)
  | _, _ => (0, s)

/-- The check of `api_lane_unpublish`; `retireLane` follows when it is true. -/
def unpublishCheck (mod : Option ModId) (pubId : Nat) (s : Lanes) : Bool :=
  match mod with
  | none => false
  | some raw =>
    if pubId = 0 then false
    else match s.gLanes.lookup pubId with
      | none => false
      | some lane => lane.mod == raw

/-- The release calls `retireLane` owes: one for the publication and one for
every lease it took out. -/
def retireCalls (lane : LaneEntry) (outstanding : Nat) (laneId : Nat) : List Nat :=
  if lane.desc.release.isSome then List.replicate (1 + outstanding) laneId else []

def retireLane (laneId : Nat) (s : Lanes) : List Nat × Lanes :=
  match s.gLanes.lookup laneId with
  | none => ([], s)
  | some lane =>
    (retireCalls lane (s.gLeases.countIf fun _ l => l.laneId == laneId) laneId,
      { s with
        cells := s.cells.modify lane.alive fun c => { c with flag := 0 },
        gLeases := s.gLeases.eraseIf fun _ l => l.laneId == laneId,
        gByName := if s.gByName.lookup lane.name = some laneId then s.gByName.erase lane.name else s.gByName,
        gLanes := s.gLanes.erase laneId })

/-- The tables with one more lease, under the next id. -/
def addLease (consumer : ModId) (laneId : Nat) (lane : LaneEntry) (s : Lanes) : Lanes :=
  { s with gNextLeaseId := s.gNextLeaseId + 1, gLeases := s.gLeases.insert s.gNextLeaseId ⟨consumer, laneId⟩,
           gLanes := s.gLanes.insert laneId { lane with leases := lane.leases + 1 } }

/-- The code, the record, the tables, and the retain call still owed as a lane
and the new lease on it. -/
structure Acquired where
  code : Int32
  out : Option LaneRef
  lanes : Lanes
  retain : Option (Nat × Nat)

def api_lane_acquire (live : ModId → Bool) (mod : Option ModId) (name : String) (wantFingerprint : UInt64)
    (out : Option LaneRef) (s : Lanes) : Acquired :=
  match out with
  | none => ⟨LEVI_RS_LANE_REFUSED, none, s, none⟩
  | some out =>
    if out.struct_size < kMinRefSize then ⟨LEVI_RS_LANE_REFUSED, some out, s, none⟩
    else
      let out : LaneRef :=
        { out with lease := 0, fingerprint := 0, data := 0, vtable := none, alive := none,
                   busy := if busyRefSize ≤ out.struct_size then none else out.busy }
      match mod with
      | none => ⟨LEVI_RS_LANE_REFUSED, some out, s, none⟩
      | some consumer =>
        if !validName name then ⟨LEVI_RS_LANE_REFUSED, some out, s, none⟩
        else match s.gByName.lookup name with
          | none => ⟨LEVI_RS_LANE_NOT_FOUND, some out, s, none⟩
          | some laneId => match s.gLanes.lookup laneId with
            | none => ⟨LEVI_RS_LANE_NOT_FOUND, some out, s, none⟩
            | some lane =>
              if lane.mod = consumer then ⟨LEVI_RS_LANE_REFUSED, some out, s, none⟩
              else if !providerAlive live lane then ⟨LEVI_RS_LANE_NOT_FOUND, some out, s, none⟩
              else
                let out := { out with fingerprint := lane.desc.fingerprint }
                if wantFingerprint = 0 ∨ wantFingerprint ≠ lane.desc.fingerprint then
                  ⟨LEVI_RS_LANE_FINGERPRINT, some out, s, none⟩
                else
                  let out :=
                    { out with lease := s.gNextLeaseId, data := lane.desc.data, vtable := lane.desc.vtable,
                               alive := some lane.alive,
                               busy := if busyRefSize ≤ out.struct_size then some lane.alive else out.busy }
                  ⟨LEVI_RS_LANE_OK, some out, addLease consumer laneId lane s,
                    if lane.desc.retain.isSome then some (laneId, s.gNextLeaseId) else none⟩

/-- Take a lease out of the table: the lane whose release call is owed, if any. -/
def takeLease (leaseId : Nat) (lease : Lease) (s : Lanes) : Option Nat × Lanes :=
  match s.gLanes.lookup lease.laneId with
  | none => (none, { s with gLeases := s.gLeases.erase leaseId })
  | some lane =>
    (if lane.desc.release.isSome then some lease.laneId else none,
      { s with gLanes := s.gLanes.insert lease.laneId { lane with leases := lane.leases - 1 },
               gLeases := s.gLeases.erase leaseId })

def api_lane_release (mod : Option ModId) (leaseId : Nat) (s : Lanes) : Bool × Option Nat × Lanes :=
  match mod with
  | none => (false, none, s)
  | some consumer =>
    if leaseId = 0 then (false, none, s)
    else match s.gLeases.lookup leaseId with
      | none => (false, none, s)
      | some lease => if lease.holder ≠ consumer then (false, none, s) else (true, takeLease leaseId lease s)

/-- The name of a lane of `mod` that is being called, if there is one. -/
def laneModBusyName (mod : ModId) (s : Lanes) : Option String :=
  ((s.gLanes.keysIf fun _ lane => lane.mod == mod && (s.cell lane.alive).busy != 0).head?.bind
    s.gLanes.lookup).map LaneEntry.name

/-- The leases the first half of `laneOnRustModGone` collects. -/
def leasesOf (mod : ModId) (s : Lanes) : List Nat := s.gLeases.keysIf fun _ lease => lease.holder == mod

/-- One round of its loop. -/
def dropLease (leaseId : Nat) (s : Lanes) : Option Nat × Lanes :=
  match s.gLeases.lookup leaseId with
  | none => (none, s)
  | some lease => takeLease leaseId lease s

/-- The lanes its second half collects and retires. -/
def publishedBy (mod : ModId) (s : Lanes) : List Nat := s.gLanes.keysIf fun _ lane => lane.mod == mod

/-! ## What each operation can do -/

theorem api_lane_publish_cases (live : ModId → Bool) (mod : Option ModId) (name : String)
    (desc : Option LaneDesc) (s : Lanes) :
    api_lane_publish live mod name desc s = (0, s) ∨
    ∃ m d, mod = some m ∧ desc = some d ∧ live m = true ∧ s.gByName.lookup name = none ∧
      api_lane_publish live mod name desc s = (s.gNextLaneId, addLane m name d s) := by
  generalize hr : api_lane_publish live mod name desc s = r
  cases mod with
  | none => exact .inl hr.symm
  | some m =>
    cases desc with
    | none => exact .inl hr.symm
    | some d =>
      simp only [api_lane_publish] at hr
      split_ifs at hr with h₁ h₂ h₃ h₄ h₅ h₆ h₇
      · exact .inl hr.symm
      · exact .inl hr.symm
      · exact .inl hr.symm
      · exact .inl hr.symm
      · exact .inl hr.symm
      · exact .inl hr.symm
      · exact .inl hr.symm
      · exact .inr ⟨m, d, rfl, rfl, by simpa using h₆, by simpa using h₇, hr.symm⟩

theorem refused_ne : LEVI_RS_LANE_REFUSED ≠ LEVI_RS_LANE_OK := by decide

theorem notFound_ne : LEVI_RS_LANE_NOT_FOUND ≠ LEVI_RS_LANE_OK := by decide

theorem fingerprint_ne : LEVI_RS_LANE_FINGERPRINT ≠ LEVI_RS_LANE_OK := by decide

/-- Nothing in the record that a consumer could follow. -/
def LaneRef.Empty (ref : LaneRef) : Prop := ref.data = 0 ∧ ref.vtable = none ∧ ref.alive = none ∧ ref.lease = 0

/-- The lane under a name may be handed to this mod. -/
def Grants (s : Lanes) (mod : Option ModId) (name : String) (want : UInt64) (consumer : ModId) (laneId : Nat)
    (lane : LaneEntry) : Prop :=
  mod = some consumer ∧ s.gByName.lookup name = some laneId ∧ s.gLanes.lookup laneId = some lane ∧
    lane.mod ≠ consumer ∧ want ≠ 0 ∧ want = lane.desc.fingerprint

/-- Everything an acquire can do. The record is emptied before anything is looked
up, and filled in only when every check has passed. -/
theorem api_lane_acquire_spec (live : ModId → Bool) (mod : Option ModId) (name : String) (want : UInt64)
    (out : Option LaneRef) (s : Lanes) :
    (∃ code out', api_lane_acquire live mod name want out s = ⟨code, out', s, none⟩ ∧ code ≠ LEVI_RS_LANE_OK ∧
      ∀ ref, out = some ref → kMinRefSize ≤ ref.struct_size → ∃ ref', out' = some ref' ∧ ref'.Empty) ∨
    ∃ consumer laneId lane ref, Grants s mod name want consumer laneId lane ∧ live lane.mod = true ∧
      api_lane_acquire live mod name want out s = ⟨LEVI_RS_LANE_OK, some ref, addLease consumer laneId lane s,
        if lane.desc.retain.isSome then some (laneId, s.gNextLeaseId) else none⟩ ∧
      ref.lease = s.gNextLeaseId ∧ ref.alive = some lane.alive ∧
      (busyRefSize ≤ ref.struct_size → ref.busy = some lane.alive) := by
  generalize hr : api_lane_acquire live mod name want out s = r
  cases out with
  | none => exact .inl ⟨_, _, hr.symm, refused_ne, by simp⟩
  | some out =>
    simp only [api_lane_acquire] at hr
    split at hr
    · next hsmall =>
      refine .inl ⟨_, _, hr.symm, refused_ne, fun ref href hsize => ?_⟩
      cases href
      exact absurd hsmall (by simpa using hsize)
    · cases mod with
      | none => exact .inl ⟨_, _, hr.symm, refused_ne, fun _ _ _ => ⟨_, rfl, rfl, rfl, rfl, rfl⟩⟩
      | some consumer =>
        dsimp only at hr
        split at hr
        · exact .inl ⟨_, _, hr.symm, refused_ne, fun _ _ _ => ⟨_, rfl, rfl, rfl, rfl, rfl⟩⟩
        · split at hr
          · exact .inl ⟨_, _, hr.symm, notFound_ne, fun _ _ _ => ⟨_, rfl, rfl, rfl, rfl, rfl⟩⟩
          · next laneId hname =>
            split at hr
            · exact .inl ⟨_, _, hr.symm, notFound_ne, fun _ _ _ => ⟨_, rfl, rfl, rfl, rfl, rfl⟩⟩
            · next lane hlane =>
              split at hr
              · exact .inl ⟨_, _, hr.symm, refused_ne, fun _ _ _ => ⟨_, rfl, rfl, rfl, rfl, rfl⟩⟩
              · next hself =>
                split at hr
                · exact .inl ⟨_, _, hr.symm, notFound_ne, fun _ _ _ => ⟨_, rfl, rfl, rfl, rfl, rfl⟩⟩
                · next hlive =>
                  split at hr
                  · -- only the published fingerprint has been filled in
                    exact .inl ⟨_, _, hr.symm, fingerprint_ne, fun _ _ _ => ⟨_, rfl, rfl, rfl, rfl, rfl⟩⟩
                  · next hprint =>
                    obtain ⟨hzero, heq⟩ := not_or.mp hprint
                    exact .inr ⟨consumer, laneId, lane, _, ⟨rfl, hname, hlane, hself, hzero, not_not.mp heq⟩,
                      by simpa [providerAlive] using hlive, hr.symm, rfl, rfl, fun hle => if_pos hle⟩

/-- An acquire changes nothing and owes nothing, or it adds one lease on a lane
that is there and owes that lane's `retain`; the record it fills in then names
the lane's cell, a long enough one twice. -/
theorem api_lane_acquire_cases (live : ModId → Bool) (mod : Option ModId) (name : String)
    (want : UInt64) (out : Option LaneRef) (s : Lanes) :
    ((api_lane_acquire live mod name want out s).lanes = s ∧
      (api_lane_acquire live mod name want out s).retain = none ∧
      (api_lane_acquire live mod name want out s).code ≠ LEVI_RS_LANE_OK) ∨
    ∃ consumer laneId lane, mod = some consumer ∧ s.gLanes.lookup laneId = some lane ∧
      s.gByName.lookup name = some laneId ∧ lane.mod ≠ consumer ∧ live lane.mod = true ∧
      (api_lane_acquire live mod name want out s).lanes = addLease consumer laneId lane s ∧
      (api_lane_acquire live mod name want out s).retain =
        (if lane.desc.retain.isSome then some (laneId, s.gNextLeaseId) else none) ∧
      (api_lane_acquire live mod name want out s).code = LEVI_RS_LANE_OK ∧
      ∃ ref, (api_lane_acquire live mod name want out s).out = some ref ∧ ref.alive = some lane.alive ∧
        (busyRefSize ≤ ref.struct_size → ref.busy = some lane.alive) := by
  obtain ⟨code, out', he, hcode, -⟩ | ⟨consumer, laneId, lane, ref, ⟨hmod, hname, hlane, hself, -⟩, hlive, he, -,
    halive, hbusy⟩ := api_lane_acquire_spec live mod name want out s
  · rw [he]
    exact .inl ⟨rfl, rfl, hcode⟩
  · rw [he]
    exact .inr ⟨consumer, laneId, lane, hmod, hlane, hname, hself, hlive, rfl, rfl, rfl, ref, rfl, halive, hbusy⟩

theorem api_lane_release_cases (mod : Option ModId) (leaseId : Nat) (s : Lanes) :
    api_lane_release mod leaseId s = (false, none, s) ∨
    ∃ consumer lease, mod = some consumer ∧ s.gLeases.lookup leaseId = some lease ∧
      lease.holder = consumer ∧ api_lane_release mod leaseId s = (true, takeLease leaseId lease s) := by
  cases mod with
  | none => exact .inl rfl
  | some consumer =>
    simp only [api_lane_release]
    split
    · exact .inl rfl
    · split
      · exact .inl rfl
      · rename_i lease hlease
        split
        · exact .inl rfl
        · rename_i hh
          exact .inr ⟨consumer, lease, rfl, hlease, by simpa using hh, rfl⟩

/-! ## The tables under each operation -/

/-- What the tables keep of a published lane's descriptor. -/
def Lanes.descOf (s : Lanes) (laneId : Nat) : Option LaneDesc := (s.gLanes.lookup laneId).map LaneEntry.desc

/-- Who published a lane, and its cell. -/
def Lanes.homeOf (s : Lanes) (laneId : Nat) : Option (ModId × Nat) :=
  (s.gLanes.lookup laneId).map fun lane => (lane.mod, lane.alive)

/-- The number of leases on a lane. -/
def Lanes.leasesOn (s : Lanes) (laneId : Nat) : Nat := s.gLeases.countIf fun _ l => l.laneId == laneId

theorem homeOf_isSome (s : Lanes) (laneId : Nat) : (s.homeOf laneId).isSome = (s.descOf laneId).isSome := by
  simp [Lanes.homeOf, Lanes.descOf]

/-- Ids in use lie below the counters, and a lease is on a published lane. -/
structure Lanes.Ordered (s : Lanes) : Prop where
  laneLt : ∀ laneId, (s.descOf laneId).isSome → laneId < s.gNextLaneId
  leaseLt : ∀ id lease, s.gLeases.lookup id = some lease → id < s.gNextLeaseId
  leaseLane : ∀ id lease, s.gLeases.lookup id = some lease → (s.descOf lease.laneId).isSome

theorem descOf_eq_some {s : Lanes} {laneId : Nat} {lane : LaneEntry} (h : s.gLanes.lookup laneId = some lane) :
    s.descOf laneId = some lane.desc := by simp [Lanes.descOf, h]

theorem ordered_initial : Lanes.initial.Ordered where
  laneLt := by simp [Lanes.initial, Lanes.descOf]
  leaseLt := by simp [Lanes.initial]
  leaseLane := by simp [Lanes.initial]

theorem lookup_addLane (m : ModId) (name : String) (desc : LaneDesc) (s : Lanes) (laneId : Nat) :
    (addLane m name desc s).gLanes.lookup laneId =
      if laneId = s.gNextLaneId then
        some ⟨m, name, { desc with struct_size := sizeofLaneDesc }, s.cells.length, 0⟩
      else s.gLanes.lookup laneId := by
  rw [addLane, AList.lookup_insert_eq]

theorem lookup_retireLane (l : Nat) (s : Lanes) (laneId : Nat) :
    (retireLane l s).2.gLanes.lookup laneId = if laneId = l then none else s.gLanes.lookup laneId := by
  unfold retireLane
  split
  · next h =>
    split
    · next he => rw [he, h]
    · rfl
  · exact AList.lookup_erase_eq _ _ _

/-- A new lease changes its lane in nothing but the number of leases. -/
theorem lookup_addLease {α : Type*} {f : LaneEntry → α} (hf : ∀ lane n, f { lane with leases := n } = f lane)
    (consumer : ModId) {l : Nat} {lane : LaneEntry} {s : Lanes} (h : s.gLanes.lookup l = some lane) (laneId : Nat) :
    ((addLease consumer l lane s).gLanes.lookup laneId).map f = (s.gLanes.lookup laneId).map f := by
  rw [addLease, AList.lookup_insert_eq]
  split
  · next he =>
    rw [he, h, Option.map_some, hf]
    rfl
  · rfl

theorem lookup_takeLease {α : Type*} {f : LaneEntry → α} (hf : ∀ lane n, f { lane with leases := n } = f lane)
    (id : Nat) (lease : Lease) (s : Lanes) (laneId : Nat) :
    ((takeLease id lease s).2.gLanes.lookup laneId).map f = (s.gLanes.lookup laneId).map f := by
  unfold takeLease
  split
  · rfl
  · next lane h =>
    rw [AList.lookup_insert_eq]
    split
    · next he =>
      rw [he, h, Option.map_some, hf]
      rfl
    · rfl

theorem homeOf_eq_some {s : Lanes} {laneId : Nat} {lane : LaneEntry} (h : s.gLanes.lookup laneId = some lane) :
    s.homeOf laneId = some (lane.mod, lane.alive) := by simp [Lanes.homeOf, h]

theorem homeOf_addLane (m : ModId) (name : String) (desc : LaneDesc) (s : Lanes) (laneId : Nat) :
    (addLane m name desc s).homeOf laneId =
      if laneId = s.gNextLaneId then some (m, s.cells.length) else s.homeOf laneId := by
  rw [Lanes.homeOf, lookup_addLane]
  split <;> rfl

theorem homeOf_addLease (consumer : ModId) {l : Nat} {lane : LaneEntry} {s : Lanes}
    (h : s.gLanes.lookup l = some lane) (laneId : Nat) :
    (addLease consumer l lane s).homeOf laneId = s.homeOf laneId := lookup_addLease (fun _ _ => rfl) consumer h laneId

theorem homeOf_takeLease (id : Nat) (lease : Lease) (s : Lanes) (laneId : Nat) :
    (takeLease id lease s).2.homeOf laneId = s.homeOf laneId := lookup_takeLease (fun _ _ => rfl) id lease s laneId

theorem homeOf_retireLane (l : Nat) (s : Lanes) (laneId : Nat) :
    (retireLane l s).2.homeOf laneId = if laneId = l then none else s.homeOf laneId := by
  rw [Lanes.homeOf, lookup_retireLane]
  split <;> rfl

theorem descOf_addLane (m : ModId) (name : String) (desc : LaneDesc) (s : Lanes) (laneId : Nat) :
    (addLane m name desc s).descOf laneId =
      if laneId = s.gNextLaneId then some { desc with struct_size := sizeofLaneDesc } else s.descOf laneId := by
  rw [Lanes.descOf, lookup_addLane]
  split <;> rfl

theorem descOf_addLease (consumer : ModId) {l : Nat} {lane : LaneEntry} {s : Lanes}
    (h : s.gLanes.lookup l = some lane) (laneId : Nat) :
    (addLease consumer l lane s).descOf laneId = s.descOf laneId := lookup_addLease (fun _ _ => rfl) consumer h laneId

theorem descOf_takeLease (id : Nat) (lease : Lease) (s : Lanes) (laneId : Nat) :
    (takeLease id lease s).2.descOf laneId = s.descOf laneId := lookup_takeLease (fun _ _ => rfl) id lease s laneId

theorem gLeases_takeLease (id : Nat) (lease : Lease) (s : Lanes) :
    (takeLease id lease s).2.gLeases = s.gLeases.erase id := by
  unfold takeLease
  split <;> rfl

theorem lookup_dropLease (id : Nat) (s : Lanes) : (dropLease id s).2.gLeases.lookup id = none := by
  unfold dropLease
  split
  · next h => exact h
  · rw [gLeases_takeLease, AList.lookup_erase_eq, if_pos rfl]

theorem next_takeLease (id : Nat) (lease : Lease) (s : Lanes) :
    (takeLease id lease s).2.gNextLaneId = s.gNextLaneId ∧
      (takeLease id lease s).2.gNextLeaseId = s.gNextLeaseId := by
  unfold takeLease
  split <;> exact ⟨rfl, rfl⟩

/-- The call owed for a lease taken out comes from the descriptor of its lane. -/
theorem takeLease_owes (id : Nat) (lease : Lease) (s : Lanes) :
    (takeLease id lease s).1 =
      if ((s.descOf lease.laneId).bind LaneDesc.release).isSome then some lease.laneId else none := by
  unfold takeLease Lanes.descOf
  split
  · next h => simp [h]
  · next lane h => simp [h]

theorem descOf_retireLane (l : Nat) (s : Lanes) (laneId : Nat) :
    (retireLane l s).2.descOf laneId = if laneId = l then none else s.descOf laneId := by
  rw [Lanes.descOf, lookup_retireLane]
  split <;> rfl

theorem gLeases_retireLane {l : Nat} {lane : LaneEntry} {s : Lanes} (h : s.gLanes.lookup l = some lane) :
    (retireLane l s).2.gLeases = s.gLeases.eraseIf fun _ e => e.laneId == l := by
  simp [retireLane, h]

theorem next_retireLane (l : Nat) (s : Lanes) :
    (retireLane l s).2.gNextLaneId = s.gNextLaneId ∧
      (retireLane l s).2.gNextLeaseId = s.gNextLeaseId := by
  unfold retireLane
  split <;> exact ⟨rfl, rfl⟩

theorem retireLane_owes {l : Nat} {lane : LaneEntry} {s : Lanes} (h : s.gLanes.lookup l = some lane) :
    (retireLane l s).1 = retireCalls lane (s.leasesOn l) l := by
  simp [retireLane, h, Lanes.leasesOn]

theorem retireLane_of_none {l : Nat} {s : Lanes} (h : s.gLanes.lookup l = none) : retireLane l s = ([], s) := by
  simp [retireLane, h]

namespace Lanes.Ordered

variable {s : Lanes}

theorem lt_of_homeOf (h : s.Ordered) {laneId : Nat} {x : ModId × Nat} (hh : s.homeOf laneId = some x) :
    laneId < s.gNextLaneId := by
  apply h.laneLt
  rw [← homeOf_isSome, hh]
  rfl

theorem addLane (h : s.Ordered) (m : ModId) (name : String) (desc : LaneDesc) :
    (addLane m name desc s).Ordered where
  laneLt laneId hl := by
    rw [descOf_addLane] at hl
    split at hl
    · next he => exact he ▸ Nat.lt_succ_self _
    · exact Nat.lt_succ_of_lt (h.laneLt laneId hl)
  leaseLt := h.leaseLt
  leaseLane id lease hl := by
    rw [descOf_addLane]
    split
    · rfl
    · exact h.leaseLane id lease hl

theorem notMem_next (h : s.Ordered) : s.gNextLeaseId ∉ s.gLeases := by
  intro hm
  obtain ⟨lease, hl⟩ := AList.mem_iff_lookup.mp hm
  exact absurd (h.leaseLt _ lease hl) (Nat.lt_irrefl _)

theorem addLease (h : s.Ordered) {consumer : ModId} {l : Nat} {lane : LaneEntry}
    (hl : s.gLanes.lookup l = some lane) : (addLease consumer l lane s).Ordered where
  laneLt laneId hd := by
    rw [descOf_addLease _ hl] at hd
    exact h.laneLt laneId hd
  leaseLt id lease he := by
    simp only [Lane.addLease, AList.lookup_insert_eq] at he
    split at he
    · next hid => exact hid ▸ Nat.lt_succ_self _
    · exact Nat.lt_succ_of_lt (h.leaseLt id lease he)
  leaseLane id lease he := by
    rw [descOf_addLease _ hl]
    simp only [Lane.addLease, AList.lookup_insert_eq] at he
    split at he
    · cases he
      rw [descOf_eq_some hl]
      rfl
    · exact h.leaseLane id lease he

theorem takeLease (h : s.Ordered) (id : Nat) (lease : Lease) : (takeLease id lease s).2.Ordered where
  laneLt laneId hd := by
    rw [descOf_takeLease] at hd
    rw [(next_takeLease id lease s).1]
    exact h.laneLt laneId hd
  leaseLt id' lease' he := by
    rw [gLeases_takeLease, AList.lookup_erase_eq] at he
    rw [(next_takeLease id lease s).2]
    split at he
    · cases he
    · exact h.leaseLt id' lease' he
  leaseLane id' lease' he := by
    rw [gLeases_takeLease, AList.lookup_erase_eq] at he
    rw [descOf_takeLease]
    split at he
    · cases he
    · exact h.leaseLane id' lease' he

theorem retireLane (h : s.Ordered) (l : Nat) : (retireLane l s).2.Ordered := by
  cases hl : s.gLanes.lookup l with
  | none => rwa [retireLane_of_none hl]
  | some lane =>
    refine ⟨?_, ?_, ?_⟩
    · intro laneId hd
      rw [descOf_retireLane] at hd
      rw [(next_retireLane l s).1]
      split at hd
      · cases hd
      · exact h.laneLt laneId hd
    · intro id lease he
      rw [gLeases_retireLane hl, AList.lookup_eraseIf_eq_some] at he
      rw [(next_retireLane l s).2]
      exact h.leaseLt id lease he.1
    · intro id lease he
      rw [gLeases_retireLane hl, AList.lookup_eraseIf_eq_some] at he
      have hne : lease.laneId ≠ l := by simpa using he.2
      rw [descOf_retireLane, if_neg hne]
      exact h.leaseLane id lease he.1

end Lanes.Ordered

/-! ### The cells -/

theorem cell_modify (s : Lanes) (a : Nat) (f : AliveCell → AliveCell) (b : Nat) :
    { s with cells := s.cells.modify a f }.cell b =
      if a = b ∧ b < s.cells.length then f (s.cell b) else s.cell b := by
  simp only [Lanes.cell, List.getD_eq_getElem?_getD, List.getElem?_modify]
  by_cases hb : b < s.cells.length
  · by_cases ha : a = b <;> simp [ha, hb]
  · simp [hb]

theorem cell_addLane (m : ModId) (name : String) (desc : LaneDesc) (s : Lanes) (a : Nat) :
    (addLane m name desc s).cell a = if a = s.cells.length then ⟨1, 0⟩ else s.cell a := by
  simp only [Lanes.cell, addLane, List.getD_eq_getElem?_getD]
  split
  · next h => simp [h]
  · next h =>
    by_cases ha : a < s.cells.length
    · rw [List.getElem?_append_left ha]
    · have hlen : s.cells.length + 1 ≤ a := by omega
      rw [List.getElem?_eq_none (by simpa using hlen), List.getElem?_eq_none (by omega)]

theorem cell_retireLane {l : Nat} {lane : LaneEntry} {s : Lanes} (h : s.gLanes.lookup l = some lane) (a : Nat) :
    (retireLane l s).2.cell a =
      if lane.alive = a ∧ a < s.cells.length then { s.cell a with flag := 0 } else s.cell a := by
  rw [← cell_modify s lane.alive fun c => { c with flag := 0 }]
  simp [retireLane, h, Lanes.cell]

/-! ### The leases on one lane -/

theorem leasesOn_addLease {s : Lanes} (h : s.Ordered) (consumer : ModId) (l : Nat) (lane : LaneEntry)
    (laneId : Nat) :
    (addLease consumer l lane s).leasesOn laneId = s.leasesOn laneId + if l = laneId then 1 else 0 := by
  simp only [Lanes.leasesOn, addLease]
  have := AList.countIf_insert_of_notMem (fun _ e => e.laneId == laneId) (v := (⟨consumer, l⟩ : Lease)) h.notMem_next
  rw [this]
  simp

theorem leasesOn_takeLease {s : Lanes} {id : Nat} {lease : Lease} (h : s.gLeases.lookup id = some lease)
    (laneId : Nat) :
    s.leasesOn laneId =
      (takeLease id lease s).2.leasesOn laneId + if lease.laneId = laneId then 1 else 0 := by
  simp only [Lanes.leasesOn, gLeases_takeLease]
  rw [AList.countIf_erase_of_lookup _ h]
  simp

theorem leasesOn_retireLane {s : Lanes} {l : Nat} {lane : LaneEntry} (h : s.gLanes.lookup l = some lane)
    (laneId : Nat) :
    (retireLane l s).2.leasesOn laneId = if laneId = l then 0 else s.leasesOn laneId := by
  simp only [Lanes.leasesOn, gLeases_retireLane h, AList.countIf_eraseIf]
  split
  · next he =>
    rw [AList.countIf_eq_zero]
    intro k v _
    simp [he]
  · next hne =>
    apply AList.countIf_congr
    intro k v _
    by_cases hv : v.laneId = laneId
    · simp [hv, hne]
    · simp [hv]

/-- A lane that is not in the table has no leases. -/
theorem leasesOn_eq_zero {s : Lanes} (h : s.Ordered) {laneId : Nat} (hd : s.descOf laneId = none) :
    s.leasesOn laneId = 0 := by
  rw [Lanes.leasesOn, AList.countIf_eq_zero]
  intro id lease hl
  have := h.leaseLane id lease hl
  by_contra hc
  have he : lease.laneId = laneId := by simpa using hc
  rw [he, hd] at this
  cases this

end Lane
