import LeviRsLoader.DimensionLedger
import Mathlib.Data.Finset.Card

/-!
# Ids of custom dimensions

The constructor of `CustomDimensionManager` and `addDimension`. An id comes
from the stored configuration, from the engine's native registration or, when
that fails, from a search over the used ids.
-/
namespace DimensionIds

open DimensionLedger

variable {N : Type}

structure DimensionInfo (N : Type) where
  id : Int
  nbt : N

/-- An entry of `dimensionList`. -/
structure StoredInfo where
  dimId : Int
  sNbt : String
  deriving DecidableEq, Repr

structure Impl (N : Type) where
  mNewDimensionId : Int
  customDimensionMap : Table String (DimensionInfo N)
  salvagedIds : Table String Int
  usedIds : Finset Int
  dimensionList : Table String StoredInfo
  ledger : Ledger

/-- The counter is an `int`, so it wraps modulo 2^32. -/
def toInt32 (n : Int) : Int := n.bmod 4294967296

/-! ## The constructor -/

/-- One turn of its loop; the names of `dimensionList` are distinct, so each `emplace` inserts. -/
def loadEntry (fromSnbt : String → Option N) (s : Int × Impl N) (name : String) (info : StoredInfo) : Int × Impl N :=
  let (highest, m) := s
  if info.dimId < 3 then s
  else if info.dimId ∈ m.usedIds then s
  else
    let m := { m with usedIds := insert info.dimId m.usedIds }
    let highest := max highest info.dimId
    match fromSnbt info.sNbt with
    | none => (highest, { m with salvagedIds := m.salvagedIds.insert name info.dimId })
    | some nbtTag =>
      (highest, { m with customDimensionMap := m.customDimensionMap.insert name ⟨info.dimId, nbtTag⟩ })

def loadEntries (fromSnbt : String → Option N) (dimensionList : Table String StoredInfo) : Int × Impl N :=
  dimensionList.entries.foldl (fun s e => loadEntry fromSnbt s e.1 e.2) (2, ⟨3, ∅, ∅, ∅, dimensionList, .initial⟩)

def customDimensionManager (fromSnbt : String → Option N) (dimensionList : Table String StoredInfo) : Impl N :=
  let (highest, m) := loadEntries fromSnbt dimensionList
  { m with mNewDimensionId := toInt32 (highest + 1) }

/-! ## `addDimension` -/

/-- One call, with what the engine and the `data` callback contribute to it. -/
structure Call (N : Type) where
  dimName : String
  /-- Whether `getLevel()` is non-null. -/
  level : Bool
  /-- What `data()` returns, or the text it throws. -/
  data : Except String N
  /-- The answer of `native::registerCustomDimension`. -/
  native : Option Int
  /-- The id of the instance `getOrCreateByName` builds, if it builds one. -/
  probe : Option Int

inductive Outcome where
  | returned (id : Int)
  | threw (what : String)
  /-- The search for an unused id goes on forever. -/
  | hangs
  deriving DecidableEq, Repr

/-- The payload and the id on record; a fresh dimension has the default id 0. -/
def prepare (c : Call N) (m : Impl N) : Except String (DimensionInfo N × Impl N) :=
  match m.customDimensionMap.lookup c.dimName with
  | some info => .ok (info, m)
  | none =>
    match c.data with
    | .error what => .error what
    | .ok nbt =>
      match m.salvagedIds.lookup c.dimName with
      | some id => .ok (⟨id, nbt⟩, { m with salvagedIds := m.salvagedIds.erase c.dimName })
      | none => .ok (⟨0, nbt⟩, m)

/-- `fetch_add` until the value is unused: the value, and the counter after it. -/
def nextCandidate (usedIds : Finset Int) : Nat → Int → Option (Int × Int)
  | 0, _ => none
  | fuel + 1, counter =>
    if counter ∈ usedIds then nextCandidate usedIds fuel (toInt32 (counter + 1))
    else some (counter, toInt32 (counter + 1))

/-- The engine's id if it gives one, else the one on record, else a searched one. -/
def assignId (c : Call N) (knownLocally : Bool) (info : DimensionInfo N) (m : Impl N) :
    Option (DimensionInfo N × Impl N) :=
  match c.native with
  | some nativeId =>
    some ({ info with id := nativeId },
      { m with
        usedIds := insert nativeId m.usedIds,
        ledger := rememberDimension c.dimName nativeId m.ledger })
  | none =>
    if !knownLocally && decide (info.id < 3) then
      match nextCandidate m.usedIds (m.usedIds.card + 1) m.mNewDimensionId with
      | none => none
      | some (candidate, next) =>
        some ({ info with id := candidate },
          { m with usedIds := insert candidate m.usedIds, mNewDimensionId := next })
    else some (info, m)

/-- Everything that is written once the id is settled. -/
def publish (toSnbt : N → String) (dimName : String) (info : DimensionInfo N) (m : Impl N) : Impl N :=
  let stored : StoredInfo := ⟨info.id, toSnbt info.nbt⟩
  { m with
    customDimensionMap := m.customDimensionMap.insert dimName info,
    ledger := rememberDimension dimName info.id m.ledger,
    mNewDimensionId := max m.mNewDimensionId (toInt32 (info.id + 1)),
    dimensionList :=
      if m.dimensionList.lookup dimName = some stored then m.dimensionList
      else m.dimensionList.insert dimName stored }

/-- The check of the instance the engine builds; a mismatch takes back the ledger entry only. -/
def verify (c : Call N) (id : Int) (m : Impl N) : Outcome × Impl N :=
  match c.probe with
  | none => (.threw ("dimension '" ++ c.dimName ++ "' could not be instantiated"), m)
  | some realId =>
    if realId ≠ id then
      (.threw ("dimension id mismatch for '" ++ c.dimName ++ "'"),
        { m with ledger := rememberDimension c.dimName (-1) m.ledger })
    else (.returned id, m)

def addDimension (toSnbt : N → String) (c : Call N) (m : Impl N) : Outcome × Impl N :=
  if !c.level then (.threw ("Level is nullptr, cannot registry new dimension " ++ c.dimName), m)
  else
    let knownLocally := (m.customDimensionMap.lookup c.dimName).isSome
    match prepare c m with
    | .error what => (.threw what, m)
    | .ok (info, m₁) =>
      match assignId c knownLocally info m₁ with
      | none => (.hangs, m₁)
      | some (info, m₂) => verify c info.id (publish toSnbt c.dimName info m₂)

/-! ## The search -/

theorem nextCandidate_notMem {usedIds : Finset Int} {fuel : Nat} {counter candidate next : Int}
    (h : nextCandidate usedIds fuel counter = some (candidate, next)) : candidate ∉ usedIds := by
  induction fuel generalizing counter with
  | zero => cases h
  | succ fuel ih =>
    rw [nextCandidate] at h
    split at h
    · exact ih h
    · next hc =>
      cases h
      exact hc

/-- A search that runs out of fuel has met that many used values in a row. -/
theorem nextCandidate_none {usedIds : Finset Int} {fuel : Nat} {counter : Int} (hc : toInt32 counter = counter)
    (h : nextCandidate usedIds fuel counter = none) : ∀ k < fuel, toInt32 (counter + (k : Nat)) ∈ usedIds := by
  induction fuel generalizing counter with
  | zero => intro k hk; omega
  | succ fuel ih =>
    rw [nextCandidate] at h
    split at h
    · next hused =>
      intro k hk
      cases k with
      | zero => simpa [hc] using hused
      | succ k =>
        have hnext := ih (by simp [toInt32]) h k (by omega)
        have he : toInt32 (toInt32 (counter + 1) + k) = toInt32 (counter + ((k + 1 : Nat) : Int)) := by
          simp only [toInt32, Int.bmod_add_bmod]
          congr 1
          omega
        rwa [he] at hnext
    · cases h

theorem toInt32_add_injOn (counter : Int) (n : Nat) (hn : n ≤ 4294967296) :
    Set.InjOn (fun k : Nat => toInt32 (counter + k)) (Finset.range n) := by
  intro a ha b hb h
  simp only [Finset.coe_range, Set.mem_Iio] at ha hb
  simp only [toInt32, Int.bmod_add_cancel_left] at h
  have ha' := Int.bmod_emod (x := a) (m := 4294967296)
  have hb' := Int.bmod_emod (x := b) (m := 4294967296)
  rw [h, hb'] at ha'
  omega

/-- Fewer than 2^32 ids are in use, so the search ends. -/
theorem nextCandidate_isSome {usedIds : Finset Int} {counter : Int} (hc : toInt32 counter = counter)
    (hcard : usedIds.card < 4294967296) : (nextCandidate usedIds (usedIds.card + 1) counter).isSome := by
  by_contra h
  have hnone : nextCandidate usedIds (usedIds.card + 1) counter = none := by simpa using h
  have hmem := nextCandidate_none hc hnone
  have hle : (Finset.range (usedIds.card + 1)).card ≤ usedIds.card :=
    Finset.card_le_card_of_injOn _ (fun k hk => hmem k (by simpa using hk))
      (toInt32_add_injOn counter _ (by omega))
  rw [Finset.card_range] at hle
  omega

/-! ## What a call can do -/

/-- The name has the id, in the map or among the salvaged. -/
def Holds (m : Impl N) (n : String) (i : Int) : Prop :=
  (∃ info, m.customDimensionMap.lookup n = some info ∧ info.id = i) ∨ m.salvagedIds.lookup n = some i

theorem Holds.congr {m m' : Impl N} {n : String} (hm : m'.customDimensionMap.lookup n = m.customDimensionMap.lookup n)
    (hs : m'.salvagedIds.lookup n = m.salvagedIds.lookup n) (i : Int) : Holds m' n i ↔ Holds m n i := by
  simp only [Holds, hm, hs]

/-- Whether the call gets as far as the engine. -/
def registers (c : Call N) (m : Impl N) : Bool :=
  c.level && ((m.customDimensionMap.lookup c.dimName).isSome || c.data.isOk)

theorem prepare_error {c : Call N} {m : Impl N} {what : String} (h : prepare c m = .error what) :
    m.customDimensionMap.lookup c.dimName = none ∧ c.data = .error what := by
  unfold prepare at h
  split at h
  · cases h
  · next hl =>
    split at h
    · next hd =>
      cases h
      exact ⟨hl, hd⟩
    · split at h <;> cases h

/-- Preparing reads the id on record, and gives up the salvaged entry it read. -/
theorem prepare_ok {c : Call N} {m m₁ : Impl N} {info : DimensionInfo N} (h : prepare c m = .ok (info, m₁)) :
    m₁.customDimensionMap = m.customDimensionMap ∧ m₁.usedIds = m.usedIds ∧
      (∀ n, n ≠ c.dimName → m₁.salvagedIds.lookup n = m.salvagedIds.lookup n) ∧
      (∀ i, m₁.salvagedIds.lookup c.dimName = some i → m.salvagedIds.lookup c.dimName = some i) ∧
      (Holds m c.dimName info.id ∨ m.customDimensionMap.lookup c.dimName = none ∧ info.id = 0) ∧
      ((m.customDimensionMap.lookup c.dimName).isSome ∨ c.data.isOk) := by
  unfold prepare at h
  split at h
  · next hl =>
    cases h
    exact ⟨rfl, rfl, fun _ _ => rfl, fun _ hi => hi, .inl (.inl ⟨_, hl, rfl⟩), .inl (by simp [hl])⟩
  · next hl =>
    split at h
    · cases h
    · next hd =>
      split at h
      · next hs =>
        cases h
        refine ⟨rfl, rfl, fun n hn => by simp [hn], fun i hi => by simp at hi, .inl (.inr hs), .inr ?_⟩
        simp [hd, Except.isOk, Except.toBool]
      · cases h
        refine ⟨rfl, rfl, fun _ _ => rfl, fun _ hi => hi, .inr ⟨hl, rfl⟩, .inr ?_⟩
        simp [hd, Except.isOk, Except.toBool]

/-- Settling the id touches neither table of names. -/
theorem assignId_some {c : Call N} {knownLocally : Bool} {info info' : DimensionInfo N} {m m' : Impl N}
    (h : assignId c knownLocally info m = some (info', m')) :
    m'.customDimensionMap = m.customDimensionMap ∧ m'.salvagedIds = m.salvagedIds ∧
      (c.native = some info'.id ∧ m'.usedIds = insert info'.id m.usedIds ∨
       c.native = none ∧ info'.id ∉ m.usedIds ∧ m'.usedIds = insert info'.id m.usedIds ∨
       c.native = none ∧ info' = info ∧ m'.usedIds = m.usedIds ∧ (knownLocally = true ∨ 3 ≤ info.id)) := by
  unfold assignId at h
  split at h
  · next hnat =>
    cases h
    exact ⟨rfl, rfl, .inl ⟨hnat, rfl⟩⟩
  · next hnat =>
    split at h
    · split at h
      · cases h
      · next hcand =>
        cases h
        exact ⟨rfl, rfl, .inr (.inl ⟨hnat, nextCandidate_notMem hcand, rfl⟩)⟩
    · next hkeep =>
      cases h
      refine ⟨rfl, rfl, .inr (.inr ⟨hnat, rfl, rfl, ?_⟩)⟩
      cases knownLocally with
      | true => exact .inl rfl
      | false => exact .inr (by simpa using hkeep)

@[simp] theorem verify_map (c : Call N) (id : Int) (m : Impl N) :
    (verify c id m).2.customDimensionMap = m.customDimensionMap := by
  unfold verify
  split
  · rfl
  · split <;> rfl

@[simp] theorem verify_salvaged (c : Call N) (id : Int) (m : Impl N) :
    (verify c id m).2.salvagedIds = m.salvagedIds := by
  unfold verify
  split
  · rfl
  · split <;> rfl

@[simp] theorem verify_used (c : Call N) (id : Int) (m : Impl N) : (verify c id m).2.usedIds = m.usedIds := by
  unfold verify
  split
  · rfl
  · split <;> rfl

/-- What a call can do to the ids: the other names keep theirs, and an id the
name did not have before comes from the engine or was unused. -/
structure Effect (c : Call N) (m m' : Impl N) : Prop where
  others : ∀ n i, n ≠ c.dimName → (Holds m' n i ↔ Holds m n i)
  own : ∀ i, Holds m' c.dimName i → Holds m c.dimName i ∨
    i ∈ m'.usedIds ∧ (registers c m = true ∧ c.native = some i ∨ i ∉ m.usedIds)
  used : m.usedIds ⊆ m'.usedIds
  native : ∀ i, registers c m = true → c.native = some i → Holds m' c.dimName i

/-- A call that leaves the map, the used ids and the salvaged ids of the others
as they are, and gives its own name no salvaged id, has the effect of none. -/
theorem Effect.of_map {c : Call N} {m m' : Impl N} (hmap : m'.customDimensionMap = m.customDimensionMap)
    (hused : m'.usedIds = m.usedIds)
    (hother : ∀ n, n ≠ c.dimName → m'.salvagedIds.lookup n = m.salvagedIds.lookup n)
    (hown : ∀ i, m'.salvagedIds.lookup c.dimName = some i → m.salvagedIds.lookup c.dimName = some i)
    (hnat : registers c m = true → c.native = none) : Effect c m m' where
  others n i hn := Holds.congr (by rw [hmap]) (hother n hn) i
  own i h := by
    rcases h with ⟨info, hl, hi⟩ | h
    · rw [hmap] at hl
      exact .inl (.inl ⟨info, hl, hi⟩)
    · exact .inl (.inr (hown i h))
  used := by rw [hused]
  native i hr h := by
    rw [hnat hr] at h
    cases h

/-- Without an id the engine has not given one. -/
theorem native_of_assignId_none {c : Call N} {knownLocally : Bool} {info : DimensionInfo N} {m : Impl N}
    (h : assignId c knownLocally info m = none) : c.native = none := by
  cases hn : c.native with
  | none => rfl
  | some i => simp [assignId, hn] at h

/-- Settling an id and publishing it. -/
theorem publish_effect (toSnbt : N → String) {c : Call N} {m m₁ m₂ : Impl N} {info info' : DimensionInfo N}
    (hok : prepare c m = .ok (info, m₁)) (hreg : registers c m = true)
    (hsome : assignId c (m.customDimensionMap.lookup c.dimName).isSome info m₁ = some (info', m₂)) :
    Effect c m (verify c info'.id (publish toSnbt c.dimName info' m₂)).2 := by
  obtain ⟨hmap, hused, hother, hown, hid, -⟩ := prepare_ok hok
  obtain ⟨hmap', hsal', hcase⟩ := assignId_some hsome
  constructor
  · intro n i hn
    refine Holds.congr ?_ ?_ i
    · rw [verify_map]
      simp [publish, hn, hmap', hmap]
    · rw [verify_salvaged]
      simpa [publish, hsal'] using hother n hn
  · rintro i (⟨info'', hl, rfl⟩ | h)
    · have : info' = info'' := by simpa [publish] using hl
      subst this
      simp only [verify_used, publish]
      rcases hcase with ⟨hnat, hu⟩ | ⟨hnat, hfresh, hu⟩ | ⟨hnat, rfl, hu, hk⟩
      · exact .inr ⟨by simp [hu], .inl ⟨hreg, hnat⟩⟩
      · exact .inr ⟨by simp [hu], .inr (by rwa [← hused])⟩
      · rcases hid with h | ⟨hl, h0⟩
        · exact .inl h
        · simp [hl] at hk
          omega
    · rw [verify_salvaged] at h
      exact .inl (.inr (hown i (by simpa [publish, hsal'] using h)))
  · simp only [verify_used, publish, ← hused]
    rcases hcase with ⟨_, hu⟩ | ⟨_, _, hu⟩ | ⟨_, _, hu, _⟩
    · simp [hu]
    · simp [hu]
    · rw [hu]
  · intro i _ h
    rcases hcase with ⟨hnat, _⟩ | ⟨hnat, _⟩ | ⟨hnat, _⟩
    · rw [hnat] at h
      cases h
      exact .inl ⟨info', by simp [publish], rfl⟩
    · rw [hnat] at h
      cases h
    · rw [hnat] at h
      cases h

theorem addDimension_effect (toSnbt : N → String) (c : Call N) (m : Impl N) :
    Effect c m (addDimension toSnbt c m).2 := by
  unfold addDimension
  split
  · next hlevel =>
    refine .of_map rfl rfl (fun _ _ => rfl) (fun _ h => h) fun h => ?_
    simp [registers] at h
    simp [h.1] at hlevel
  · next hlevel =>
    have hlevel : c.level = true := by simpa using hlevel
    simp only
    split
    · next what herr =>
      obtain ⟨hl, hd⟩ := prepare_error herr
      refine .of_map rfl rfl (fun _ _ => rfl) (fun _ h => h) fun h => ?_
      simp [registers, hl, hd, Except.isOk, Except.toBool] at h
    · next info m₁ hok =>
      obtain ⟨hmap, hused, hother, hown, -, hreach⟩ := prepare_ok hok
      split
      · next hnone => exact .of_map hmap hused hother hown fun _ => native_of_assignId_none hnone
      · next info' m₂ hsome =>
        have hreg : registers c m = true := by
          rcases hreach with h | h <;> simp [registers, hlevel, h]
        exact publish_effect toSnbt hok hreg hsome

/-! ## Uniqueness -/

/-- No two names have one id. -/
def Unique (m : Impl N) : Prop := ∀ n n' i, Holds m n i → Holds m n' i → n = n'

/-- Every id a name has counts as used. -/
def Claimed (m : Impl N) : Prop := ∀ n i, Holds m n i → i ∈ m.usedIds

theorem claimed_addDimension (toSnbt : N → String) (c : Call N) {m : Impl N} (h : Claimed m) :
    Claimed (addDimension toSnbt c m).2 := by
  have he := addDimension_effect toSnbt c m
  intro n i hi
  by_cases hn : n = c.dimName
  · subst hn
    rcases he.own i hi with hold | ⟨hu, _⟩
    · exact he.used (h _ _ hold)
    · exact hu
  · exact he.used (h _ _ ((he.others n i hn).mp hi))

/-- The engine's id, when the call gets one, belongs to no other name. -/
def NativeFree (m : Impl N) (c : Call N) : Prop :=
  ∀ i, registers c m = true → c.native = some i → ∀ n, n ≠ c.dimName → ¬Holds m n i

theorem unique_addDimension_iff (toSnbt : N → String) (c : Call N) {m : Impl N} (h : Unique m) (hc : Claimed m) :
    Unique (addDimension toSnbt c m).2 ↔ NativeFree m c := by
  have he := addDimension_effect toSnbt c m
  constructor
  · intro h' i hreg hnat n hn hi
    exact hn (h' _ _ _ ((he.others n i hn).mpr hi) (he.native i hreg hnat))
  · intro hfree
    -- it is enough to compare the name of the call with another one
    have key : ∀ n i, n ≠ c.dimName → Holds m n i → ¬Holds (addDimension toSnbt c m).2 c.dimName i := by
      intro n i hn hi hown
      rcases he.own i hown with hold | ⟨_, ⟨hreg, hnat⟩ | hnew⟩
      · exact hn (h _ _ _ hi hold)
      · exact hfree i hreg hnat n hn hi
      · exact hnew (hc _ _ hi)
    intro n n' i hi hi'
    by_cases hn : n = c.dimName
    · by_cases hn' : n' = c.dimName
      · rw [hn, hn']
      · rw [hn] at hi
        exact absurd hi (key n' i hn' ((he.others n' i hn').mp hi'))
    · by_cases hn' : n' = c.dimName
      · rw [hn'] at hi'
        exact absurd hi' (key n i hn ((he.others n i hn).mp hi))
      · exact h _ _ _ ((he.others n i hn).mp hi) ((he.others n' i hn').mp hi')

/-- A turn of the constructor's loop gives a name an id only if nothing used it before. -/
theorem loadEntry_holds (fromSnbt : String → Option N) (s : Int × Impl N) (name : String) (info : StoredInfo) :
    s.2.usedIds ⊆ (loadEntry fromSnbt s name info).2.usedIds ∧
    ∀ n i, Holds (loadEntry fromSnbt s name info).2 n i → Holds s.2 n i ∨
      n = name ∧ i ∉ s.2.usedIds ∧ i ∈ (loadEntry fromSnbt s name info).2.usedIds := by
  obtain ⟨highest, m⟩ := s
  unfold loadEntry
  simp only
  split
  · exact ⟨subset_rfl, fun _ _ h => .inl h⟩
  · split
    · exact ⟨subset_rfl, fun _ _ h => .inl h⟩
    · next hfresh =>
      cases fromSnbt info.sNbt with
      | none =>
        refine ⟨by simp, fun n i hi => ?_⟩
        by_cases hn : n = name
        · subst hn
          rcases hi with hi | hi
          · exact .inl (.inl hi)
          · have : info.dimId = i := by simpa using hi
            subst this
            exact .inr ⟨rfl, hfresh, by simp⟩
        · exact .inl (by simpa [Holds, hn] using hi)
      | some nbtTag =>
        refine ⟨by simp, fun n i hi => ?_⟩
        by_cases hn : n = name
        · subst hn
          rcases hi with ⟨info', hl, rfl⟩ | hi
          · have : (⟨info.dimId, nbtTag⟩ : DimensionInfo N) = info' := by simpa using hl
            subst this
            exact .inr ⟨rfl, hfresh, by simp⟩
          · exact .inl (.inr hi)
        · exact .inl (by simpa [Holds, hn] using hi)

/-- Whatever the configuration, the constructor gives distinct names distinct ids. -/
theorem unique_customDimensionManager (fromSnbt : String → Option N) (dimensionList : Table String StoredInfo) :
    Unique (customDimensionManager fromSnbt dimensionList) ∧
      Claimed (customDimensionManager fromSnbt dimensionList) := by
  have hload : Unique (loadEntries fromSnbt dimensionList).2 ∧ Claimed (loadEntries fromSnbt dimensionList).2 := by
    refine Runs.foldl_invariant (fun s : Int × Impl N => Unique s.2 ∧ Claimed s.2) ?_ ?_
    · constructor
      · intro n n' i h
        simp [Holds] at h
      · intro n i h
        simp [Holds] at h
    · rintro s ⟨name, info⟩ ⟨hu, hc⟩
      obtain ⟨hused, hnew⟩ := loadEntry_holds fromSnbt s name info
      constructor
      · intro n n' i hi hi'
        rcases hnew n i hi with ho | ⟨hn, hf, _⟩
        · rcases hnew n' i hi' with ho' | ⟨_, hf', _⟩
          · exact hu _ _ _ ho ho'
          · exact absurd (hc _ _ ho) hf'
        · rcases hnew n' i hi' with ho' | ⟨hn', _, _⟩
          · exact absurd (hc _ _ ho') hf
          · rw [hn, hn']
      · intro n i hi
        rcases hnew n i hi with ho | ⟨_, _, hi⟩
        · exact hused (hc _ _ ho)
        · exact hi
  exact hload

/-- The manager after a sequence of calls. -/
def afterCalls (toSnbt : N → String) (m : Impl N) (calls : List (Call N)) : Impl N :=
  calls.foldl (fun m c => (addDimension toSnbt c m).2) m

/-- The engine answers distinct names with distinct ids of the custom range. -/
def NativeDistinct (calls : List (Call N)) : Prop :=
  (∀ c ∈ calls, ∀ i, c.native = some i → 3 ≤ i) ∧
    ∀ c ∈ calls, ∀ c' ∈ calls, ∀ i, c.native = some i → c'.native = some i → c.dimName = c'.dimName

/-- Over every configuration and sequence of calls, the ids stay distinct at
every point exactly when no call is handed an engine id that another name has. -/
theorem unique_afterCalls_iff (fromSnbt : String → Option N) (toSnbt : N → String)
    (dimensionList : Table String StoredInfo) (calls : List (Call N)) :
    (Unique (customDimensionManager fromSnbt dimensionList) ∧ ∀ pre c suf, calls = pre ++ c :: suf →
      Unique (afterCalls toSnbt (customDimensionManager fromSnbt dimensionList) (pre ++ [c]))) ↔
    ∀ pre c suf, calls = pre ++ c :: suf →
      NativeFree (afterCalls toSnbt (customDimensionManager fromSnbt dimensionList) pre) c := by
  obtain ⟨hu, hc⟩ := unique_customDimensionManager fromSnbt dimensionList
  have hclaimed : ∀ l, Claimed (afterCalls toSnbt (customDimensionManager fromSnbt dimensionList) l) :=
    fun l => Runs.foldl_invariant Claimed hc fun m c h => claimed_addDimension toSnbt c h
  have hrun := Runs.foldl_forall_iff (l := calls) (s := customDimensionManager fromSnbt dimensionList)
    (f := fun m c => (addDimension toSnbt c m).2) (fun m => Unique m ∧ Claimed m) NativeFree ⟨hu, hc⟩
    (fun m c h => by
      rw [← unique_addDimension_iff toSnbt c h.1 h.2]
      exact and_iff_left (claimed_addDimension toSnbt c h.2))
  constructor
  · rintro ⟨_, h⟩
    exact hrun.mp fun pre c suf hl => ⟨h pre c suf hl, hclaimed _⟩
  · intro h
    exact ⟨hu, fun pre c suf hl => (hrun.mpr h pre c suf hl).1⟩

/-- A stored dimension whose payload is unreadable. -/
def storedUnread : Table String StoredInfo := AList.insert "a" ⟨1000, "?"⟩ ∅

/-- The engine gives the name its own id. -/
def nativeCall (dimName : String) : Call Unit := ⟨dimName, true, .ok (), some 1000, some 1000⟩

/-- Its id goes to another dimension as soon as the engine answers with it. -/
theorem native_id_collides :
    let m := afterCalls (fun _ => "{}") (customDimensionManager (fun _ => none) storedUnread) [nativeCall "b"]
    NativeDistinct [nativeCall "b"] ∧ Holds m "a" 1000 ∧ Holds m "b" 1000 ∧ ¬Unique m := by
  intro m
  have ha : Holds m "a" 1000 := .inr rfl
  have hb : Holds m "b" 1000 := .inl ⟨⟨1000, ()⟩, rfl, rfl⟩
  refine ⟨by simp [NativeDistinct, nativeCall], ha, hb, fun h => ?_⟩
  exact absurd (h _ _ _ ha hb) (by decide)

end DimensionIds
