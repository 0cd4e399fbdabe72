import LeviRsLoader.RustMod

/-!
# The service registry

`gServices` and `gByName` of `Services.cpp`: one provider for each name.
-/
namespace Services

open LeviRs

def kMaxName : Nat := 128

def kMaxDepth : Nat := 8

structure Service where
  mod : ModId
  name : String
  cb : Callback
  deriving DecidableEq, Repr

structure Registry where
  gServices : Table Nat Service
  gByName : Table String Nat
  gNextId : Nat

def Registry.initial : Registry := ⟨∅, ∅, 1⟩

def validName (name : String) : Bool := 0 < name.utf8ByteSize && name.utf8ByteSize ≤ kMaxName

/-- Both tables with one more service, under the next id. -/
def addService (svc : Service) (s : Registry) : Registry :=
  ⟨s.gServices.insert s.gNextId svc, s.gByName.insert svc.name s.gNextId, s.gNextId + 1⟩

/-- The id, 0 for a refusal. A mod no shared pointer owns still uses up an id. -/
def api_service_register (live : ModId → Bool) (mod : Option ModId) (name : String) (cb : Option Ptr) (user : Ptr)
    (s : Registry) : Nat × Registry :=
  match mod, cb with
  | some m, some fn =>
    if !validName name then (0, s)
    else if (s.gByName.lookup name).isSome then (0, s)
    else if !live m then (0, { s with gNextId := s.gNextId + 1 })
    else (s.gNextId, addService ⟨m, name, ⟨fn, user⟩⟩ s)
  | _, _ => (0, s)

def dropService (id : Nat) (svc : Service) (s : Registry) : Registry :=
  { s with gByName := s.gByName.erase svc.name, gServices := s.gServices.erase id }

def api_service_unregister (mod : Option ModId) (regId : Nat) (s : Registry) : Bool × Registry :=
  match mod with
  | none => (false, s)
  | some m =>
    if regId = 0 then (false, s)
    else match s.gServices.lookup regId with
      | none => (false, s)
      | some svc => if svc.mod ≠ m then (false, s) else (true, dropService regId svc s)

/-- One round of the sweep's loop over the table. -/
def sweepOne (mod : ModId) (s : Registry) (e : Sigma fun _ : Nat => Service) : Registry :=
  if e.2.mod = mod then dropService e.1 e.2 s else s

def servicesOnRustModGone (mod : ModId) (s : Registry) : Registry := s.gServices.entries.foldl (sweepOne mod) s

/-- `LEVI_RS_SERVICE_OK` and the other ways a call ends. -/
inductive Status where
  | ok
  | notFound
  | error
  | refused
  deriving DecidableEq, Repr

/-- `api_service_call` up to the call: the provider, or the status it ends with. -/
def provider (alive : ModId → Bool) (gDepth : Nat) (caller : Option ModId) (name : String) (s : Registry) :
    Except Status (Nat × Service) :=
  if !validName name then .error .refused
  else if kMaxDepth ≤ gDepth then .error .refused
  else match s.gByName.lookup name with
    | none => .error .notFound
    | some id => match s.gServices.lookup id with
      | none => .error .notFound
      | some svc =>
        if caller = some svc.mod then .error .refused
        else if !alive svc.mod then .error .notFound
        else .ok (id, svc)

/-! ## What each operation can do -/

theorem api_service_register_cases (live : ModId → Bool) (mod : Option ModId) (name : String) (cb : Option Ptr)
    (user : Ptr) (s : Registry) :
    (∃ next, s.gNextId ≤ next ∧
      api_service_register live mod name cb user s = (0, { s with gNextId := next })) ∨
    ∃ m fn, mod = some m ∧ cb = some fn ∧ validName name = true ∧ s.gByName.lookup name = none ∧ live m = true ∧
      api_service_register live mod name cb user s = (s.gNextId, addService ⟨m, name, ⟨fn, user⟩⟩ s) := by
  cases mod with
  | none => exact .inl ⟨_, Nat.le_refl _, rfl⟩
  | some m =>
    cases cb with
    | none => exact .inl ⟨_, Nat.le_refl _, rfl⟩
    | some fn =>
      simp only [api_service_register]
      split_ifs with h₁ h₂ h₃
      · exact .inl ⟨_, Nat.le_refl _, rfl⟩
      · exact .inl ⟨_, Nat.le_refl _, rfl⟩
      · exact .inl ⟨_, Nat.le_succ _, rfl⟩
      · exact .inr ⟨m, fn, rfl, rfl, by simpa using h₁, by simpa using h₂, by simpa using h₃, rfl⟩

theorem api_service_unregister_cases (mod : Option ModId) (regId : Nat) (s : Registry) :
    api_service_unregister mod regId s = (false, s) ∨
    ∃ m svc, mod = some m ∧ s.gServices.lookup regId = some svc ∧ svc.mod = m ∧
      api_service_unregister mod regId s = (true, dropService regId svc s) := by
  cases mod with
  | none => exact .inl rfl
  | some m =>
    simp only [api_service_unregister]
    split
    · exact .inl rfl
    · split
      · exact .inl rfl
      · next svc hl =>
        split
        · exact .inl rfl
        · next hm => exact .inr ⟨m, svc, rfl, hl, by simpa using hm, rfl⟩

/-- A provider is found at a depth below the cap, under the name, and is another mod's. -/
theorem provider_ok {alive : ModId → Bool} {gDepth : Nat} {caller : Option ModId} {name : String} {s : Registry}
    {id : Nat} {svc : Service} (h : provider alive gDepth caller name s = .ok (id, svc)) :
    gDepth < kMaxDepth ∧ s.gByName.lookup name = some id ∧ s.gServices.lookup id = some svc ∧
      caller ≠ some svc.mod := by
  unfold provider at h
  split_ifs at h with _ hdepth
  split at h
  · cases h
  · next id' hid =>
    split at h
    · cases h
    · next svc' hl =>
      split_ifs at h with hother
      cases h
      exact ⟨Nat.lt_of_not_le hdepth, hid, hl, hother⟩

theorem lookup_unregister {mod : Option ModId} {regId : Nat} {s : Registry} {id : Nat} {svc : Service}
    (h : (api_service_unregister mod regId s).2.gServices.lookup id = some svc) :
    s.gServices.lookup id = some svc := by
  obtain he | ⟨_, _, _, _, _, he⟩ := api_service_unregister_cases mod regId s
  · rwa [he] at h
  · rw [he, dropService, AList.lookup_erase_eq] at h
    split at h
    · cases h
    · exact h

theorem lookup_sweep (mod : ModId) (es : List (Sigma fun _ : Nat => Service)) (s : Registry) (id : Nat)
    (svc : Service) :
    (es.foldl (sweepOne mod) s).gServices.lookup id = some svc ↔
      s.gServices.lookup id = some svc ∧ ∀ e ∈ es, e.2.mod = mod → e.1 ≠ id := by
  induction es generalizing s with
  | nil => simp
  | cons e es ih =>
    rw [List.foldl_cons, ih]
    by_cases hm : e.2.mod = mod
    · rw [sweepOne, if_pos hm, dropService, AList.lookup_erase_eq]
      by_cases hid : id = e.1
      · simp [hid, hm]
      · simp [hid, hm, Ne.symm hid]
    · rw [sweepOne, if_neg hm]
      simp [hm]

/-- The sweep leaves exactly the services of other mods. -/
theorem lookup_servicesOnRustModGone (mod : ModId) (s : Registry) (id : Nat) (svc : Service) :
    (servicesOnRustModGone mod s).gServices.lookup id = some svc ↔
      s.gServices.lookup id = some svc ∧ svc.mod ≠ mod := by
  rw [servicesOnRustModGone, lookup_sweep]
  constructor
  · intro ⟨hl, h⟩
    exact ⟨hl, fun hm => h ⟨id, svc⟩ (AList.lookup_eq_some_iff.mp hl) hm rfl⟩
  · intro ⟨hl, h⟩
    refine ⟨hl, fun e he hm hid => h ?_⟩
    subst hid
    -- keys are distinct, so the entry walked over is the one looked up
    have := AList.lookup_eq_some_iff.mpr he
    rw [hl] at this
    rw [Option.some.inj this]
    exact hm

theorem lookup_gByName_sweep (mod : ModId) (es : List (Sigma fun _ : Nat => Service)) (s : Registry) (name : String)
    (id : Nat) :
    (es.foldl (sweepOne mod) s).gByName.lookup name = some id ↔
      s.gByName.lookup name = some id ∧ ∀ e ∈ es, e.2.mod = mod → e.2.name ≠ name := by
  induction es generalizing s with
  | nil => simp
  | cons e es ih =>
    rw [List.foldl_cons, ih]
    by_cases hm : e.2.mod = mod
    · rw [sweepOne, if_pos hm, dropService, AList.lookup_erase_eq]
      by_cases hn : name = e.2.name
      · simp [hn, hm]
      · simp [hn, hm, Ne.symm hn]
    · rw [sweepOne, if_neg hm]
      simp [hm]

theorem gNextId_servicesOnRustModGone (mod : ModId) (s : Registry) :
    (servicesOnRustModGone mod s).gNextId = s.gNextId := by
  unfold servicesOnRustModGone
  generalize s.gServices.entries = es
  induction es generalizing s with
  | nil => rfl
  | cons e es ih =>
    rw [List.foldl_cons, ih]
    unfold sweepOne
    split <;> rfl

end Services
