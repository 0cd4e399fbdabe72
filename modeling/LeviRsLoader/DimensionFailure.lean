import LeviRsLoader.DimensionIds

/-!
# Failed registrations of dimensions

`addDimension` with the engine's own map of dimensions beside the tables of the
manager, and what a call that throws leaves behind in each of them.
-/
namespace DimensionFailure

open DimensionLedger DimensionIds

variable {N : Type}

/-- `VanillaDimensions::DimensionMap()`: a map in two directions whose
`insert_or_assign` overwrites the two entries it touches. -/
structure DimensionMap where
  mLeft : Table Int String
  mRight : Table String Int

def DimensionMap.insert_or_assign (name : String) (id : Int) (s : DimensionMap) : DimensionMap :=
  ⟨s.mLeft.insert id name, s.mRight.insert name id⟩

/-- The entry of the name's old id goes first. -/
def DimensionMap.modify (name : String) (id : Int) (s : DimensionMap) : DimensionMap :=
  match s.mRight.lookup name with
  | some old => if old ≠ id then insert_or_assign name id { s with mLeft := s.mLeft.erase old }
    else insert_or_assign name id s
  | none => insert_or_assign name id s

structure Manager (N : Type) where
  impl : Impl N
  dimensionMap : DimensionMap
  /-- `VanillaDimensions::Undefined()`. -/
  undefined : Int

/-- Everything that is written once the id is settled; the sentinel moves on the old path only. -/
def Manager.publish (toSnbt : N → String) (dimName : String) (usedNative : Bool) (info : DimensionInfo N)
    (m : Manager N) : Manager N :=
  let impl := DimensionIds.publish toSnbt dimName info m.impl
  ⟨impl, m.dimensionMap.modify dimName info.id, if usedNative then m.undefined else impl.mNewDimensionId⟩

def Manager.verify (c : Call N) (id : Int) (m : Manager N) : Outcome × Manager N :=
  let (outcome, impl) := DimensionIds.verify c id m.impl
  (outcome, { m with impl := impl })

def Manager.addDimension (toSnbt : N → String) (c : Call N) (m : Manager N) : Outcome × Manager N :=
  if !c.level then (.threw ("Level is nullptr, cannot registry new dimension " ++ c.dimName), m)
  else
    let knownLocally := (m.impl.customDimensionMap.lookup c.dimName).isSome
    match prepare c m.impl with
    | .error what => (.threw what, m)
    | .ok (info, impl₁) =>
      match assignId c knownLocally info impl₁ with
      | none => (.hangs, { m with impl := impl₁ })
      | some (info, impl₂) =>
        Manager.verify c info.id (Manager.publish toSnbt c.dimName c.native.isSome info { m with impl := impl₂ })

/-- The engine's map changes nothing about the manager's own tables. -/
theorem impl_addDimension (toSnbt : N → String) (c : Call N) (m : Manager N) :
    (m.addDimension toSnbt c).1 = (DimensionIds.addDimension toSnbt c m.impl).1 ∧
      (m.addDimension toSnbt c).2.impl = (DimensionIds.addDimension toSnbt c m.impl).2 := by
  unfold Manager.addDimension DimensionIds.addDimension
  cases c.level with
  | false => exact ⟨rfl, rfl⟩
  | true =>
    cases prepare c m.impl with
    | error what => exact ⟨rfl, rfl⟩
    | ok p =>
      obtain ⟨info, impl₁⟩ := p
      simp only [Bool.not_true, Bool.false_eq_true, if_false]
      cases assignId c (m.impl.customDimensionMap.lookup c.dimName).isSome info impl₁ with
      | none => exact ⟨rfl, rfl⟩
      | some q => exact ⟨rfl, rfl⟩

/-- The id a name resolves to for a mod. -/
def api_md_get_dimension_id (name : String) (m : Manager N) : Int :=
  if name = "" then -1
  else if name = "overworld" then 0
  else if name = "nether" then 1
  else if name = "the_end" then 2
  else
    let listed := match m.impl.dimensionList.lookup name with
      | some info => info.dimId
      | none => -1
    match m.dimensionMap.mRight.lookup name with
    | some id => if 0 ≤ id ∧ id ≠ m.undefined then id else listed
    | none => listed

/-! ## The engine's map -/

/-- The two directions are kept as those of the ledger are. -/
theorem modify_eq (name : String) (id : Int) (s : DimensionMap) :
    s.modify name id = ⟨(rememberDimension name id ⟨s.mRight, s.mLeft⟩).ledgerById,
      (rememberDimension name id ⟨s.mRight, s.mLeft⟩).ledgerByName⟩ := by
  unfold DimensionMap.modify rememberDimension
  cases s.mRight.lookup name with
  | none => rfl
  | some old => by_cases ho : old = id <;> simp [ho, DimensionMap.insert_or_assign]

@[simp] theorem lookup_mRight (name n : String) (id : Int) (s : DimensionMap) :
    (s.modify name id).mRight.lookup n = if n = name then some id else s.mRight.lookup n := by
  rw [modify_eq, lookup_byName]

@[simp] theorem lookup_mLeft (name : String) (id i : Int) (s : DimensionMap) :
    (s.modify name id).mLeft.lookup i =
      if i = id then some name
      else if s.mRight.lookup name = some i then none else s.mLeft.lookup i := by
  rw [modify_eq, lookup_byId]

/-! ## What is left behind -/

/-- Everything recorded about a name. -/
structure SameEntries (n : String) (m m' : Manager N) : Prop where
  customDimensionMap : m'.impl.customDimensionMap.lookup n = m.impl.customDimensionMap.lookup n
  salvagedIds : m'.impl.salvagedIds.lookup n = m.impl.salvagedIds.lookup n
  ledgerByName : m'.impl.ledger.ledgerByName.lookup n = m.impl.ledger.ledgerByName.lookup n
  ledgerById : ∀ i, m'.impl.ledger.ledgerById.lookup i = some n ↔ m.impl.ledger.ledgerById.lookup i = some n
  mRight : m'.dimensionMap.mRight.lookup n = m.dimensionMap.mRight.lookup n
  mLeft : ∀ i, m'.dimensionMap.mLeft.lookup i = some n ↔ m.dimensionMap.mLeft.lookup i = some n
  dimensionList : m'.impl.dimensionList.lookup n = m.impl.dimensionList.lookup n

/-- The name resolves to nothing new, its salvaged id is still there, and no
other name is touched. -/
structure Atomic (dimName : String) (m m' : Manager N) : Prop where
  ledger : ∀ i, i ≠ -1 → dimensionIdOf dimName m'.impl.ledger = i → dimensionIdOf dimName m.impl.ledger = i
  customDimensionMap : ∀ info', m'.impl.customDimensionMap.lookup dimName = some info' →
    ∃ info, m.impl.customDimensionMap.lookup dimName = some info ∧ info.id = info'.id
  dimensionMap : ∀ i, m'.dimensionMap.mRight.lookup dimName = some i → m.dimensionMap.mRight.lookup dimName = some i
  dimensionList : ∀ info', m'.impl.dimensionList.lookup dimName = some info' →
    ∃ info, m.impl.dimensionList.lookup dimName = some info ∧ info.dimId = info'.dimId
  salvaged : ∀ i, m.impl.salvagedIds.lookup dimName = some i → m'.impl.salvagedIds.lookup dimName = some i
  others : ∀ n, n ≠ dimName → SameEntries n m m'

/-- A name that no table knew is as unknown to mods as before. -/
theorem Atomic.unknown {dimName : String} {m m' : Manager N} (h : Atomic dimName m m')
    (hr : m.dimensionMap.mRight.lookup dimName = none) (hl : m.impl.dimensionList.lookup dimName = none) :
    api_md_get_dimension_id dimName m' = api_md_get_dimension_id dimName m := by
  have hr' : m'.dimensionMap.mRight.lookup dimName = none := by
    cases hm : m'.dimensionMap.mRight.lookup dimName with
    | none => rfl
    | some i =>
      have := h.dimensionMap i hm
      rw [hr] at this
      cases this
  have hl' : m'.impl.dimensionList.lookup dimName = none := by
    cases hm : m'.impl.dimensionList.lookup dimName with
    | none => rfl
    | some info =>
      obtain ⟨_, hs, _⟩ := h.dimensionList info hm
      rw [hl] at hs
      cases hs
  simp only [api_md_get_dimension_id, hr, hr', hl, hl']

theorem SameEntries.refl (n : String) (m : Manager N) : SameEntries n m m :=
  ⟨rfl, rfl, rfl, fun _ => .rfl, rfl, fun _ => .rfl, rfl⟩

theorem Atomic.refl (dimName : String) (m : Manager N) : Atomic dimName m m :=
  ⟨fun _ _ h => h, fun _ h => ⟨_, h, rfl⟩, fun _ h => h, fun _ h => ⟨_, h, rfl⟩, fun _ h => h,
    fun n _ => .refl n m⟩

/-- What stands in the tables once the id is settled and published; the ledger
shows `shown` in its place when the instance does not match. -/
structure Written (dimName : String) (id shown : Int) (m m' : Manager N) : Prop where
  customDimensionMap : ∃ info : DimensionInfo N, info.id = id ∧ ∀ n,
    m'.impl.customDimensionMap.lookup n = if n = dimName then some info else m.impl.customDimensionMap.lookup n
  salvagedIds : ∀ n, n ≠ dimName ∨ (m.impl.customDimensionMap.lookup dimName).isSome →
    m'.impl.salvagedIds.lookup n = m.impl.salvagedIds.lookup n
  ledgerByName : ∀ n, m'.impl.ledger.ledgerByName.lookup n =
    if n = dimName then some shown else m.impl.ledger.ledgerByName.lookup n
  ledgerById : ∀ i, m'.impl.ledger.ledgerById.lookup i =
    if i = shown then some dimName
    else if i = id ∨ m.impl.ledger.ledgerByName.lookup dimName = some i then none
    else m.impl.ledger.ledgerById.lookup i
  mRight : ∀ n, m'.dimensionMap.mRight.lookup n = if n = dimName then some id else m.dimensionMap.mRight.lookup n
  mLeft : ∀ i, m'.dimensionMap.mLeft.lookup i =
    if i = id then some dimName
    else if m.dimensionMap.mRight.lookup dimName = some i then none else m.dimensionMap.mLeft.lookup i
  dimensionList : ∃ info : StoredInfo, info.dimId = id ∧ ∀ n,
    m'.impl.dimensionList.lookup n = if n = dimName then some info else m.impl.dimensionList.lookup n

/-- Everything the call is about to write stands there already, and no other
name is recorded at an id whose entry the call overwrites. -/
structure Recorded (c : Call N) (m : Manager N) (id : Int) : Prop where
  customDimensionMap : ∃ info, m.impl.customDimensionMap.lookup c.dimName = some info ∧ info.id = id
  native : ∀ i, c.native = some i → i = id
  mRight : m.dimensionMap.mRight.lookup c.dimName = some id
  dimensionList : ∃ info, m.impl.dimensionList.lookup c.dimName = some info ∧ info.dimId = id
  ledger : c.probe = none → id ≠ -1 → dimensionIdOf c.dimName m.impl.ledger = id
  ledgerById : ∀ i, i = id ∨ m.impl.ledger.ledgerByName.lookup c.dimName = some i ∨ (c.probe ≠ none ∧ i = -1) →
    ∀ n, n ≠ c.dimName → m.impl.ledger.ledgerById.lookup i ≠ some n
  mLeft : ∀ n, n ≠ c.dimName → m.dimensionMap.mLeft.lookup id ≠ some n

/-! ## The stages of a call -/

/-- Preparing touches the salvaged ids only, and only those of an unknown name. -/
theorem prepare_stage {c : Call N} {m m₁ : Impl N} {info : DimensionInfo N} (h : prepare c m = .ok (info, m₁)) :
    (∃ salvaged, m₁ = { m with salvagedIds := salvaged }) ∧
      (∀ n, n ≠ c.dimName ∨ (m.customDimensionMap.lookup c.dimName).isSome →
        m₁.salvagedIds.lookup n = m.salvagedIds.lookup n) ∧
      (m.customDimensionMap.lookup c.dimName = some info ∨
        m.customDimensionMap.lookup c.dimName = none ∧ ∃ nbt, c.data = .ok nbt) := by
  unfold prepare at h
  split at h
  · next hl =>
    cases h
    exact ⟨⟨_, rfl⟩, fun _ _ => rfl, .inl hl⟩
  · next hl =>
    split at h
    · cases h
    · next nbt hd =>
      refine ⟨?_, ?_, .inr ⟨hl, nbt, hd⟩⟩
      · split at h <;> cases h <;> exact ⟨_, rfl⟩
      · intro n hn
        have hn : n ≠ c.dimName := by simpa [hl] using hn
        split at h
        · cases h
          exact AList.lookup_erase_ne hn
        · cases h
          rfl

/-- Settling the id touches the used ids, the counter and, with a native id, the ledger. -/
theorem assignId_stage {c : Call N} {info info' : DimensionInfo N} {known : Bool} {m m' : Impl N}
    (h : assignId c known info m = some (info', m')) :
    (∃ used next, m' = { m with
      usedIds := used, mNewDimensionId := next,
      ledger := if c.native.isSome then rememberDimension c.dimName info'.id m.ledger else m.ledger }) ∧
    (known = true → info'.id = c.native.getD info.id) := by
  unfold assignId at h
  cases hn : c.native with
  | some i =>
    rw [hn] at h
    cases h
    exact ⟨⟨_, _, rfl⟩, fun _ => rfl⟩
  | none =>
    rw [hn] at h
    dsimp only at h
    split at h
    · next hsearch =>
      split at h
      · cases h
      · cases h
        refine ⟨⟨_, _, rfl⟩, fun hk => ?_⟩
        simp [hk] at hsearch
    · cases h
      exact ⟨⟨_, _, rfl⟩, fun _ => rfl⟩

/-- Remembering a name's id once more changes nothing. -/
theorem lookup_byId_again (name : String) (id i : Int) (s : Ledger) :
    (rememberDimension name id (rememberDimension name id s)).ledgerById.lookup i =
      (rememberDimension name id s).ledgerById.lookup i := by
  rw [lookup_byId, lookup_byName, if_pos rfl]
  by_cases hi : i = id
  · rw [if_pos hi, lookup_byId, if_pos hi]
  · rw [if_neg hi, if_neg fun h => hi (Option.some.inj h).symm]

theorem written_publish (toSnbt : N → String) {c : Call N} {m : Manager N} {m₁ m₂ : Impl N}
    {info info' : DimensionInfo N} (hprep : prepare c m.impl = .ok (info, m₁))
    (hassign : assignId c (m.impl.customDimensionMap.lookup c.dimName).isSome info m₁ = some (info', m₂)) :
    Written c.dimName info'.id info'.id m
      (Manager.publish toSnbt c.dimName c.native.isSome info' { m with impl := m₂ }) := by
  obtain ⟨⟨salvaged, rfl⟩, hsalvaged, -⟩ := prepare_stage hprep
  obtain ⟨⟨used, next, rfl⟩, -⟩ := assignId_stage hassign
  refine ⟨⟨info', rfl, fun n => ?_⟩, hsalvaged, fun n => ?_, fun i => ?_, fun n => ?_, fun i => ?_,
    ⟨info'.id, toSnbt info'.nbt⟩, rfl, fun n => ?_⟩
  · simp [Manager.publish, DimensionIds.publish, AList.lookup_insert_eq]
  · simp only [Manager.publish, DimensionIds.publish, lookup_byName]
    cases c.native <;> by_cases hn : n = c.dimName <;> simp [hn]
  · simp only [Manager.publish, DimensionIds.publish]
    have hone : (rememberDimension c.dimName info'.id m.impl.ledger).ledgerById.lookup i =
        if i = info'.id then some c.dimName
        else if i = info'.id ∨ m.impl.ledger.ledgerByName.lookup c.dimName = some i then none
        else m.impl.ledger.ledgerById.lookup i := by
      rw [lookup_byId]
      by_cases hi : i = info'.id <;> simp [hi]
    cases c.native with
    | none => exact hone
    | some _ => exact (lookup_byId_again _ _ _ _).trans hone
  · simp [Manager.publish]
  · simp [Manager.publish]
  · simp only [Manager.publish, DimensionIds.publish]
    split
    · next hl =>
      by_cases hn : n = c.dimName
      · rw [hn, if_pos rfl, hl]
      · rw [if_neg hn]
    · rw [AList.lookup_insert_eq]

/-- Taking the name's id back out of the ledger. -/
theorem Written.rollback {dimName : String} {id : Int} {m m' : Manager N} (h : Written dimName id id m m') :
    Written dimName id (-1) m
      { m' with impl := { m'.impl with ledger := rememberDimension dimName (-1) m'.impl.ledger } } := by
  refine ⟨h.customDimensionMap, h.salvagedIds, fun n => ?_, fun i => ?_, h.mRight, h.mLeft, h.dimensionList⟩
  · rw [lookup_byName, h.ledgerByName]
    by_cases hn : n = dimName <;> simp [hn]
  · rw [lookup_byId, h.ledgerByName, if_pos rfl, h.ledgerById]
    by_cases hi : i = -1
    · rw [if_pos hi, if_pos hi]
    · rw [if_neg hi, if_neg hi]
      by_cases hid : i = id
      · rw [if_pos (by rw [hid]), if_pos (.inl hid)]
      · rw [if_neg fun h => hid (Option.some.inj h).symm, if_neg hid]

/-- A call that throws has thrown in the payload generator, or has written everything. -/
theorem addDimension_threw (toSnbt : N → String) {c : Call N} {m : Manager N} {what : String} (hl : c.level = true)
    (ht : (m.addDimension toSnbt c).1 = .threw what) :
    (m.impl.customDimensionMap.lookup c.dimName = none ∧ c.data = .error what ∧ (m.addDimension toSnbt c).2 = m) ∨
    ∃ id shown, Written c.dimName id shown m (m.addDimension toSnbt c).2 ∧
      (c.probe = none ∧ shown = id ∨ c.probe ≠ none ∧ shown = -1) ∧
      ((m.impl.customDimensionMap.lookup c.dimName = none ∧ ∃ nbt, c.data = .ok nbt) ∨
        ∃ info, m.impl.customDimensionMap.lookup c.dimName = some info ∧ id = c.native.getD info.id) := by
  unfold Manager.addDimension at ht ⊢
  rw [hl] at ht ⊢
  simp only [Bool.not_true, Bool.false_eq_true, if_false] at ht ⊢
  cases hprep : prepare c m.impl with
  | error what' =>
    rw [hprep] at ht
    cases ht
    obtain ⟨hnone, hdata⟩ := prepare_error hprep
    exact .inl ⟨hnone, hdata, rfl⟩
  | ok p =>
    obtain ⟨info, m₁⟩ := p
    rw [hprep] at ht
    dsimp only at ht ⊢
    cases hassign : assignId c (m.impl.customDimensionMap.lookup c.dimName).isSome info m₁ with
    | none =>
      rw [hassign] at ht
      cases ht
    | some q =>
      obtain ⟨info', m₂⟩ := q
      rw [hassign] at ht
      have hw := written_publish toSnbt hprep hassign
      have hid : (m.impl.customDimensionMap.lookup c.dimName = none ∧ ∃ nbt, c.data = .ok nbt) ∨
          ∃ info, m.impl.customDimensionMap.lookup c.dimName = some info ∧ info'.id = c.native.getD info.id := by
        obtain ⟨-, -, hknown | hfresh⟩ := prepare_stage hprep
        · exact .inr ⟨info, hknown, (assignId_stage hassign).2 (by rw [hknown]; rfl)⟩
        · exact .inl hfresh
      right
      simp only [Manager.verify, DimensionIds.verify] at ht ⊢
      cases hp : c.probe with
      | none => exact ⟨info'.id, info'.id, hw, .inl ⟨rfl, rfl⟩, hid⟩
      | some realId =>
        rw [hp] at ht
        dsimp only at ht ⊢
        split at ht
        · next hne =>
          rw [if_pos hne]
          exact ⟨info'.id, -1, hw.rollback, .inr ⟨by simp, rfl⟩, hid⟩
        · cases ht

/-! ## When nothing is left behind -/

theorem Written.ledgerById_iff {dimName : String} {id shown : Int} {m m' : Manager N}
    (h : Written dimName id shown m m') {n : String} (hn : n ≠ dimName) :
    (∀ i, m'.impl.ledger.ledgerById.lookup i = some n ↔ m.impl.ledger.ledgerById.lookup i = some n) ↔
      ∀ i, i = id ∨ m.impl.ledger.ledgerByName.lookup dimName = some i ∨ i = shown →
        m.impl.ledger.ledgerById.lookup i ≠ some n := by
  have hgone : ∀ i, i = id ∨ m.impl.ledger.ledgerByName.lookup dimName = some i ∨ i = shown →
      m'.impl.ledger.ledgerById.lookup i ≠ some n := by
    intro i hi
    rw [h.ledgerById]
    by_cases hs : i = shown
    · simp [hs, Ne.symm hn]
    · rw [if_neg hs, if_pos]
      · simp
      · rcases hi with hi | hi | hi
        · exact .inl hi
        · exact .inr hi
        · exact absurd hi hs
  constructor
  · intro hsame i hi hl
    exact hgone i hi ((hsame i).mpr hl)
  · intro hfree i
    by_cases hi : i = id ∨ m.impl.ledger.ledgerByName.lookup dimName = some i ∨ i = shown
    · exact iff_of_false (hgone i hi) (hfree i hi)
    · simp only [not_or] at hi
      rw [h.ledgerById, if_neg hi.2.2, if_neg (by simp [hi.1, hi.2.1])]

theorem Written.mLeft_iff {dimName : String} {id shown : Int} {m m' : Manager N}
    (h : Written dimName id shown m m') (hr : m.dimensionMap.mRight.lookup dimName = some id) {n : String}
    (hn : n ≠ dimName) :
    (∀ i, m'.dimensionMap.mLeft.lookup i = some n ↔ m.dimensionMap.mLeft.lookup i = some n) ↔
      m.dimensionMap.mLeft.lookup id ≠ some n := by
  have hid : m'.dimensionMap.mLeft.lookup id ≠ some n := by
    rw [h.mLeft, if_pos rfl]
    simpa using Ne.symm hn
  constructor
  · intro hsame hl
    exact hid ((hsame id).mpr hl)
  · intro hfree i
    by_cases hi : i = id
    · subst hi
      exact iff_of_false hid hfree
    · rw [h.mLeft, if_neg hi, hr, if_neg fun h => hi (Option.some.inj h).symm]

section Written

variable {c : Call N} {id shown : Int} {m m' : Manager N}

/-- The ids of the ledger whose entries a call overwrites. -/
theorem overwritten_iff (hshown : c.probe = none ∧ shown = id ∨ c.probe ≠ none ∧ shown = -1) (i : Int) :
    (i = id ∨ m.impl.ledger.ledgerByName.lookup c.dimName = some i ∨ i = shown) ↔
      (i = id ∨ m.impl.ledger.ledgerByName.lookup c.dimName = some i ∨ (c.probe ≠ none ∧ i = -1)) := by
  rcases hshown with ⟨hp, hs⟩ | ⟨hp, hs⟩
  · simp only [hp, hs, ne_eq, not_true_eq_false, false_and, or_false]
    constructor
    · rintro (h | h | h)
      · exact .inl h
      · exact .inr h
      · exact .inl h
    · rintro (h | h)
      · exact .inl h
      · exact .inr (.inl h)
  · simp [hp, hs]

/-- A call that leaves nothing behind has found it all there. -/
theorem Written.recorded (h : Written c.dimName id shown m m')
    (hshown : c.probe = none ∧ shown = id ∨ c.probe ≠ none ∧ shown = -1) {info : DimensionInfo N}
    (hknown : m.impl.customDimensionMap.lookup c.dimName = some info) (hid : id = c.native.getD info.id)
    (ha : Atomic c.dimName m m') : Recorded c m id := by
  obtain ⟨info', hinfo', hmap⟩ := h.customDimensionMap
  obtain ⟨stored, hstored, hlist⟩ := h.dimensionList
  have hsame : info.id = id := by
    obtain ⟨info₀, hl, he⟩ := ha.customDimensionMap info' (by rw [hmap, if_pos rfl])
    rw [hknown] at hl
    cases hl
    rw [he, hinfo']
  have hr : m.dimensionMap.mRight.lookup c.dimName = some id := ha.dimensionMap id (by rw [h.mRight, if_pos rfl])
  refine ⟨⟨info, hknown, hsame⟩, fun i hi => ?_, hr, ?_, fun hp hne => ?_, fun i hi n hn => ?_, fun n hn => ?_⟩
  · rw [hid, hi, Option.getD_some]
  · rw [← hstored]
    exact ha.dimensionList stored (by rw [hlist, if_pos rfl])
  · have hs : shown = id := by
      rcases hshown with ⟨_, hs⟩ | ⟨hp', _⟩
      · exact hs
      · exact absurd hp hp'
    exact ha.ledger id hne (by rw [dimensionIdOf, h.ledgerByName, if_pos rfl, hs]; rfl)
  · exact (h.ledgerById_iff hn).mp (ha.others n hn).ledgerById i ((overwritten_iff hshown i).mpr hi)
  · exact (h.mLeft_iff hr hn).mp (ha.others n hn).mLeft

theorem Written.atomic (h : Written c.dimName id shown m m')
    (hshown : c.probe = none ∧ shown = id ∨ c.probe ≠ none ∧ shown = -1) (hr : Recorded c m id) :
    Atomic c.dimName m m' := by
  obtain ⟨info', hinfo', hmap⟩ := h.customDimensionMap
  obtain ⟨stored, hstored, hlist⟩ := h.dimensionList
  obtain ⟨info, hl, hsame⟩ := hr.customDimensionMap
  refine ⟨fun i hne hi => ?_, fun info₁ hl₁ => ?_, fun i hi => ?_, fun info₁ hl₁ => ?_, fun i hi => ?_,
    fun n hn => ?_⟩
  · rw [dimensionIdOf, h.ledgerByName, if_pos rfl, Option.getD_some] at hi
    rcases hshown with ⟨hp, hs⟩ | ⟨_, hs⟩
    · rw [← hi, hs]
      exact hr.ledger hp (by rw [← hs, hi]; exact hne)
    · exact absurd (hi.symm.trans hs) hne
  · rw [hmap, if_pos rfl] at hl₁
    cases hl₁
    exact ⟨info, hl, hsame.trans hinfo'.symm⟩
  · rw [h.mRight, if_pos rfl] at hi
    rw [hr.mRight, hi]
  · rw [hlist, if_pos rfl] at hl₁
    cases hl₁
    rw [hstored]
    exact hr.dimensionList
  · rw [h.salvagedIds _ (.inr (by rw [hl]; rfl))]
    exact hi
  · refine ⟨by rw [hmap, if_neg hn], h.salvagedIds n (.inl hn), by rw [h.ledgerByName, if_neg hn], ?_,
      by rw [h.mRight, if_neg hn], ?_, by rw [hlist, if_neg hn]⟩
    · exact (h.ledgerById_iff hn).mpr fun i hi => hr.ledgerById i ((overwritten_iff hshown i).mp hi) n hn
    · exact (h.mLeft_iff hr.mRight hn).mpr (hr.mLeft n hn)

/-- Once everything is written, nothing is left behind exactly when it stood there before. -/
theorem Written.atomic_iff (h : Written c.dimName id shown m m')
    (hshown : c.probe = none ∧ shown = id ∨ c.probe ≠ none ∧ shown = -1) {info : DimensionInfo N}
    (hknown : m.impl.customDimensionMap.lookup c.dimName = some info) (hid : id = c.native.getD info.id) :
    Atomic c.dimName m m' ↔ Recorded c m id :=
  ⟨h.recorded hshown hknown hid, h.atomic hshown⟩

end Written

/-- A call that throws past the level check leaves nothing behind exactly when
the payload generator threw, or everything written stood there before. -/
theorem atomic_addDimension_iff (toSnbt : N → String) (c : Call N) (m : Manager N) (what : String)
    (hl : c.level = true) (ht : (m.addDimension toSnbt c).1 = .threw what) :
    Atomic c.dimName m (m.addDimension toSnbt c).2 ↔
      (m.impl.customDimensionMap.lookup c.dimName = none ∧ ∃ what, c.data = .error what) ∨ ∃ id, Recorded c m id := by
  obtain ⟨hnone, hdata, hsame⟩ | ⟨id, shown, hw, hshown, ⟨hnone, nbt, hdata⟩ | ⟨info, hknown, hid⟩⟩ :=
    addDimension_threw toSnbt hl ht
  · rw [hsame]
    exact iff_of_true (.refl _ m) (.inl ⟨hnone, what, hdata⟩)
  · refine iff_of_false (fun ha => ?_) ?_
    · obtain ⟨info', -, hmap⟩ := hw.customDimensionMap
      obtain ⟨info, hsome, -⟩ := ha.customDimensionMap info' (by rw [hmap, if_pos rfl])
      rw [hnone] at hsome
      cases hsome
    · rintro (⟨-, what', he⟩ | ⟨id', hr⟩)
      · rw [hdata] at he
        cases he
      · obtain ⟨info, hsome, -⟩ := hr.customDimensionMap
        rw [hnone] at hsome
        cases hsome
  · rw [hw.atomic_iff hshown hknown hid]
    constructor
    · exact fun hr => .inr ⟨id, hr⟩
    · rintro (⟨hnone, -⟩ | ⟨id', hr⟩)
      · rw [hnone] at hknown
        cases hknown
      · have : id' = id := by
          obtain ⟨info', hl', he⟩ := hr.customDimensionMap
          rw [hknown] at hl'
          cases hl'
          cases hn : c.native with
          | none => rw [hid, hn, Option.getD_none, he]
          | some i => rw [hid, hn, Option.getD_some, hr.native i hn]
        exact this ▸ hr

/-- A manager with nothing registered. -/
def emptyManager : Manager Unit := ⟨⟨3, ∅, ∅, ∅, ∅, .initial⟩, ⟨∅, ∅⟩, 3⟩

theorem atomic_payload_throws :
    Atomic "a" emptyManager (emptyManager.addDimension (fun _ => "{}") ⟨"a", true, .error "no seed", none, none⟩).2 ↔
      (emptyManager.impl.customDimensionMap.lookup "a" = none ∧
        ∃ what, (Except.error "no seed" : Except String Unit) = .error what) ∨
      ∃ id, Recorded ⟨"a", true, .error "no seed", none, none⟩ emptyManager id :=
  atomic_addDimension_iff (fun _ => "{}") ⟨"a", true, .error "no seed", none, none⟩ emptyManager "no seed" rfl rfl

/-- A new dimension that cannot be instantiated: the call throws, and its name resolves ever after. -/
theorem uninstantiated_resolves :
    let c : Call Unit := ⟨"a", true, .ok (), some 1000, none⟩
    let m := (emptyManager.addDimension (fun _ => "{}") c).2
    (emptyManager.addDimension (fun _ => "{}") c).1 = .threw "dimension 'a' could not be instantiated" ∧
      dimensionIdOf "a" emptyManager.impl.ledger = -1 ∧ dimensionIdOf "a" m.impl.ledger = 1000 ∧
      api_md_get_dimension_id "a" emptyManager = -1 ∧ api_md_get_dimension_id "a" m = 1000 ∧
      ¬Atomic "a" emptyManager m := by
  refine ⟨rfl, rfl, rfl, rfl, rfl, fun h => ?_⟩
  have := h.ledger 1000 (by decide) rfl
  exact absurd this (by decide)

end DimensionFailure
