import LeviRsLoader.DimensionFailure

/-!
# Boots

A server is booted again and again; what stays is `dimension_config.json`, which `addDimension`
writes whenever it records an id. Every boot starts the constructor on what the file holds, and
the mods register their dimensions once more, in any order.
-/
namespace DimensionBoots

open DimensionIds
open DimensionFailure (prepare_stage assignId_stage)
open Runs (Run Meets)

variable {N : Type}

structure Server (N : Type) where
  m : Impl N
  /-- `dimension_config.json` -/
  file : Table String StoredInfo

def boot (fromSnbt : String → Option N) (dimensionList : Table String StoredInfo) : Server N :=
  ⟨customDimensionManager fromSnbt dimensionList, dimensionList⟩

/-- `addDimension`, and the `saveConfigFile` in it, which runs where the entry is written.
`saved` is its answer. -/
def call (toSnbt : N → String) (c : Call N) (saved : Bool) (s : Server N) : Outcome × Server N :=
  let r := addDimension toSnbt c s.m
  let written := decide (r.2.dimensionList.lookup c.dimName ≠ s.m.dimensionList.lookup c.dimName)
  (r.1, ⟨r.2, if written && saved then r.2.dimensionList else s.file⟩)

inductive Label (N : Type) where
  | call (c : Call N) (saved : Bool)
  /-- The next boot: the file as it is read, in whatever order. -/
  | boot (dimensionList : Table String StoredInfo)

inductive Step (fromSnbt : String → Option N) (toSnbt : N → String) : Server N → Label N → Server N → Prop where
  | call (s : Server N) (c : Call N) (saved : Bool) (h : (call toSnbt c saved s).1 ≠ .hangs) :
      Step fromSnbt toSnbt s (.call c saved) (call toSnbt c saved s).2
  | boot (s : Server N) (dimensionList : Table String StoredInfo)
      (h : ∀ n, dimensionList.lookup n = s.file.lookup n) :
      Step fromSnbt toSnbt s (.boot dimensionList) (boot fromSnbt dimensionList)

/-! ## What has to hold -/

/-- An id of a custom dimension, with another `int` above it. -/
def InRange (i : Int) : Prop := 3 ≤ i ∧ i < 2147483647

/-- The ids in the file are ids of custom dimensions, and distinct. -/
structure Clean (dimensionList : Table String StoredInfo) : Prop where
  range : ∀ n info, dimensionList.lookup n = some info → InRange info.dimId
  distinct : ∀ n n' info info', dimensionList.lookup n = some info → dimensionList.lookup n' = some info' →
    info.dimId = info'.dimId → n = n'

/-- The engine's id, when the call gets one, is that of a custom dimension, belongs to no other
name and is the one on record, and the list reaches the file. -/
structure Sane (s : Server N) (c : Call N) (saved : Bool) : Prop where
  saved : saved = true
  range : ∀ i, registers c s.m = true → c.native = some i → InRange i
  free : NativeFree s.m c
  agrees : ∀ i j, registers c s.m = true → c.native = some i → Holds s.m c.dimName j → j = i
  counter : s.m.mNewDimensionId < 2147483647

def SaneStep (s : Server N) (l : Label N) : Prop := ∀ c saved, l = .call c saved → Sane s c saved

/-- The list holds the ids the names have, all of them distinct, used and below the counter. -/
structure Settled (s : Server N) : Prop where
  sync : ∀ n i, Holds s.m n i ↔ ∃ info, s.m.dimensionList.lookup n = some info ∧ info.dimId = i
  range : ∀ n i, Holds s.m n i → InRange i
  unique : Unique s.m
  claimed : Claimed s.m
  counter : 3 ≤ s.m.mNewDimensionId ∧ s.m.mNewDimensionId ≤ 2147483647
  above : ∀ i ∈ s.m.usedIds, i < s.m.mNewDimensionId
  file : ∀ n, s.file.lookup n = s.m.dimensionList.lookup n

/-- A name has one id. -/
theorem Settled.inj {s : Server N} (h : Settled s) {n : String} {i j : Int} (hi : Holds s.m n i) (hj : Holds s.m n j) :
    i = j := by
  obtain ⟨info, hl, rfl⟩ := (h.sync n i).mp hi
  obtain ⟨info', hl', rfl⟩ := (h.sync n j).mp hj
  rw [hl] at hl'
  cases hl'
  rfl

theorem toInt32_of_range {n : Int} (h : -2147483648 ≤ n ∧ n ≤ 2147483647) : toInt32 n = n := by
  rw [toInt32]
  exact Int.bmod_eq_of_le (by omega) (by omega)

/-! ## The constructor -/

/-- What the loop has made of the entries so far. -/
structure Loaded (dimensionList : Table String StoredInfo) (pre : List (Σ _ : String, StoredInfo))
    (s : Int × Impl N) : Prop where
  holds : ∀ n i, Holds s.2 n i ↔ ∃ info, ⟨n, info⟩ ∈ pre ∧ info.dimId = i
  used : ∀ i, i ∈ s.2.usedIds ↔ ∃ n info, ⟨n, info⟩ ∈ pre ∧ info.dimId = i
  highest : 2 ≤ s.1 ∧ s.1 < 2147483647
  above : ∀ i ∈ s.2.usedIds, i ≤ s.1
  list : s.2.dimensionList = dimensionList

/-- A fresh id under a fresh name is taken over, whether its payload can be read or not. -/
theorem loadEntry_fresh (fromSnbt : String → Option N) {s : Int × Impl N} {name : String} {info : StoredInfo}
    (hid : 3 ≤ info.dimId) (hused : info.dimId ∉ s.2.usedIds) (hname : ∀ i, ¬Holds s.2 name i) :
    (∀ n i, Holds (loadEntry fromSnbt s name info).2 n i ↔ Holds s.2 n i ∨ n = name ∧ info.dimId = i)
      ∧ (loadEntry fromSnbt s name info).2.usedIds = insert info.dimId s.2.usedIds
      ∧ (loadEntry fromSnbt s name info).1 = max s.1 info.dimId
      ∧ (loadEntry fromSnbt s name info).2.dimensionList = s.2.dimensionList := by
  obtain ⟨highest, m⟩ := s
  have hlow : ¬info.dimId < 3 := by omega
  have hadd : ∀ m' : Impl N, (∀ n, n ≠ name → ∀ i, (Holds m' n i ↔ Holds m n i)) →
      (∀ i, Holds m' name i ↔ info.dimId = i) → ∀ n i, Holds m' n i ↔ Holds m n i ∨ n = name ∧ info.dimId = i := by
    intro m' hother hown n i
    by_cases hn : n = name
    · subst hn
      rw [hown]
      exact ⟨fun h => .inr ⟨rfl, h⟩, fun h => (h.resolve_left (hname i)).2⟩
    · rw [hother n hn]
      exact ⟨.inl, fun h => h.resolve_right fun h => hn h.1⟩
  have hmap : m.customDimensionMap.lookup name = none := by
    rw [Option.eq_none_iff_forall_ne_some]
    exact fun i hi => hname i.id (.inl ⟨i, hi, rfl⟩)
  have hsalvaged : m.salvagedIds.lookup name = none := by
    rw [Option.eq_none_iff_forall_ne_some]
    exact fun i hi => hname i (.inr hi)
  simp only [loadEntry, hlow, if_false]
  rw [if_neg hused]
  cases fromSnbt info.sNbt with
  | none =>
    refine ⟨hadd _ (fun n hn i => ?_) (fun i => ?_), rfl, rfl, rfl⟩
    · simp [Holds, hn]
    · simp [Holds, hmap]
  | some nbtTag =>
    refine ⟨hadd _ (fun n hn i => ?_) (fun i => ?_), rfl, rfl, rfl⟩
    · simp [Holds, hn]
    · simp [Holds, hsalvaged]

theorem loaded_entries (fromSnbt : String → Option N) {dimensionList : Table String StoredInfo}
    (h : Clean dimensionList) (pre suf : List (Σ _ : String, StoredInfo)) (hl : dimensionList.entries = pre ++ suf)
    {s : Int × Impl N} (hs : Loaded dimensionList pre s) :
    Loaded dimensionList dimensionList.entries (suf.foldl (fun s e => loadEntry fromSnbt s e.1 e.2) s) := by
  induction suf generalizing pre s with
  | nil =>
    rw [List.append_nil] at hl
    rw [hl]
    exact hs
  | cons e suf ih =>
    obtain ⟨name, info⟩ := e
    have hlookup : dimensionList.lookup name = some info := by
      rw [AList.lookup_eq_some_iff, hl]
      exact List.mem_append_right pre List.mem_cons_self
    have hpre : ∀ n info', ⟨n, info'⟩ ∈ pre → dimensionList.lookup n = some info' := by
      intro n info' hin
      rw [AList.lookup_eq_some_iff, hl]
      exact List.mem_append_left _ hin
    have hnodup := dimensionList.nodupKeys
    rw [hl, List.NodupKeys, List.keys, List.map_append, List.map_cons, List.nodup_append] at hnodup
    have hname : ∀ i, ¬Holds s.2 name i := by
      intro i hi
      obtain ⟨info', hin, -⟩ := (hs.holds name i).mp hi
      exact hnodup.2.2 name (List.mem_map_of_mem (f := Sigma.fst) hin) name List.mem_cons_self rfl
    have hused : info.dimId ∉ s.2.usedIds := by
      intro hi
      obtain ⟨n, info', hin, hid⟩ := (hs.used _).mp hi
      obtain rfl := h.distinct n name info' info (hpre n info' hin) hlookup hid
      exact hnodup.2.2 n (List.mem_map_of_mem (f := Sigma.fst) hin) n List.mem_cons_self rfl
    have hrange := h.range name info hlookup
    obtain ⟨hholds, hused', hhighest, hlist⟩ := loadEntry_fresh fromSnbt hrange.1 hused hname
    refine ih (pre ++ [⟨name, info⟩]) (by rw [hl, List.append_assoc, List.singleton_append]) ⟨?_, ?_, ?_, ?_, ?_⟩
    · intro n i
      rw [hholds, hs.holds]
      constructor
      · rintro (⟨info', hin, hid⟩ | ⟨rfl, hid⟩)
        · exact ⟨info', List.mem_append_left _ hin, hid⟩
        · exact ⟨info, List.mem_append_right _ List.mem_cons_self, hid⟩
      · rintro ⟨info', hin, hid⟩
        rcases List.mem_append.mp hin with hin | hin
        · exact .inl ⟨info', hin, hid⟩
        · cases List.mem_singleton.mp hin
          exact .inr ⟨rfl, hid⟩
    · intro i
      rw [hused', Finset.mem_insert, hs.used]
      constructor
      · rintro (rfl | ⟨n, info', hin, hid⟩)
        · exact ⟨name, info, List.mem_append_right _ List.mem_cons_self, rfl⟩
        · exact ⟨n, info', List.mem_append_left _ hin, hid⟩
      · rintro ⟨n, info', hin, hid⟩
        rcases List.mem_append.mp hin with hin | hin
        · exact .inr ⟨n, info', hin, hid⟩
        · cases List.mem_singleton.mp hin
          exact .inl hid.symm
    · have := hs.highest
      rw [hhighest]
      unfold InRange at hrange
      omega
    · intro i hi
      rw [hused', Finset.mem_insert] at hi
      rw [hhighest]
      rcases hi with rfl | hi
      · exact le_max_right _ _
      · exact le_max_of_le_left (hs.above i hi)
    · rw [hlist, hs.list]

theorem settled_boot (fromSnbt : String → Option N) {dimensionList : Table String StoredInfo}
    (h : Clean dimensionList) : Settled (boot fromSnbt dimensionList) := by
  have hstart : Loaded dimensionList [] ((2, ⟨3, ∅, ∅, ∅, dimensionList, .initial⟩) : Int × Impl N) :=
    ⟨by simp [Holds], by simp, by omega, by simp, rfl⟩
  have hend := loaded_entries fromSnbt h [] dimensionList.entries rfl hstart
  rw [show dimensionList.entries.foldl (fun s e => loadEntry fromSnbt s e.1 e.2) _
    = loadEntries fromSnbt dimensionList from rfl] at hend
  obtain ⟨hunique, hclaimed⟩ := unique_customDimensionManager fromSnbt dimensionList
  have hcounter : toInt32 ((loadEntries fromSnbt dimensionList).1 + 1) = (loadEntries fromSnbt dimensionList).1 + 1 :=
    toInt32_of_range (by have := hend.highest; omega)
  have hsync : ∀ n i, Holds (loadEntries fromSnbt dimensionList).2 n i
      ↔ ∃ info, dimensionList.lookup n = some info ∧ info.dimId = i := by
    intro n i
    simp only [hend.holds, AList.lookup_eq_some_iff]
  constructor
  · intro n i
    rw [boot, customDimensionManager]
    dsimp only
    rw [hend.list]
    exact hsync n i
  · intro n i hi
    obtain ⟨info, hl, rfl⟩ := (hsync n i).mp hi
    exact h.range n info hl
  · exact hunique
  · exact hclaimed
  · simp only [boot, customDimensionManager, hcounter]
    have := hend.highest
    omega
  · intro i hi
    simp only [boot, customDimensionManager, hcounter]
    have := hend.above i hi
    omega
  · intro n
    simp only [boot, customDimensionManager, hend.list]

/-! ## One call -/

section Call

variable {toSnbt : N → String} {c : Call N} {m : Impl N}

theorem verify_list (c : Call N) (id : Int) (m : Impl N) : (verify c id m).2.dimensionList = m.dimensionList := by
  unfold verify
  split
  · rfl
  · split <;> rfl

/-- Where the id of a call comes from: the engine, the record, or the search. -/
def Source (c : Call N) (m m' : Impl N) (id : Int) : Prop :=
  c.native = some id ∧ m'.usedIds = insert id m.usedIds
      ∧ m'.mNewDimensionId = max m.mNewDimensionId (toInt32 (id + 1))
    ∨ c.native = none ∧ Holds m c.dimName id ∧ m'.usedIds = m.usedIds
      ∧ m'.mNewDimensionId = max m.mNewDimensionId (toInt32 (id + 1))
    ∨ c.native = none ∧ (∀ i, Holds m c.dimName i → i < 3) ∧ m'.usedIds = insert id m.usedIds
      ∧ ∃ next, nextCandidate m.usedIds (m.usedIds.card + 1) m.mNewDimensionId = some (id, next)
        ∧ m'.mNewDimensionId = max next (toInt32 (id + 1))

/-- What a call leaves behind that has settled on an id. -/
structure Placed (c : Call N) (m m' : Impl N) (id : Int) : Prop where
  source : Source c m m' id
  holds : Holds m' c.dimName id
  own : ∀ i, Holds m' c.dimName i → i = id ∨ Holds m c.dimName i
  list : ∃ info : StoredInfo, info.dimId = id ∧ ∀ n,
    m'.dimensionList.lookup n = if n = c.dimName then some info else m.dimensionList.lookup n

theorem source_publish {info info' : DimensionInfo N} {m₁ m₂ : Impl N} (hprep : prepare c m = .ok (info, m₁))
    (hassign : assignId c (m.customDimensionMap.lookup c.dimName).isSome info m₁ = some (info', m₂)) :
    Source c m (publish toSnbt c.dimName info' m₂) info'.id := by
  obtain ⟨-, -, -, -, hid, -⟩ := prepare_ok hprep
  obtain ⟨⟨salvaged, rfl⟩, -, -⟩ := prepare_stage hprep
  unfold assignId at hassign
  cases hnat : c.native with
  | some i =>
    rw [hnat] at hassign
    cases hassign
    exact .inl ⟨hnat, rfl, rfl⟩
  | none =>
    rw [hnat] at hassign
    dsimp only at hassign
    split at hassign
    · next hsearch =>
      simp only [Bool.and_eq_true, Bool.not_eq_true', Option.isSome_eq_false_iff, Option.isNone_iff_eq_none,
        decide_eq_true_eq] at hsearch
      split at hassign
      · cases hassign
      · next hnext =>
        cases hassign
        refine .inr (.inr ⟨hnat, fun i hi => ?_, rfl, _, hnext, rfl⟩)
        -- what is on record is salvaged, so it is the id the call has read
        have hsalvaged : m.salvagedIds.lookup c.dimName = some i := by
          rcases hi with ⟨info', hl, -⟩ | hi
          · rw [hsearch.1] at hl
            cases hl
          · exact hi
        rw [prepare, hsearch.1] at hprep
        dsimp only at hprep
        split at hprep
        · cases hprep
        · rw [hsalvaged] at hprep
          cases hprep
          exact hsearch.2
    · next hkeep =>
      cases hassign
      refine .inr (.inl ⟨hnat, hid.resolve_right fun h => hkeep ?_, rfl, rfl⟩)
      simp [h.1, h.2]

theorem placed_publish {info info' : DimensionInfo N} {m₁ m₂ : Impl N} (hprep : prepare c m = .ok (info, m₁))
    (hassign : assignId c (m.customDimensionMap.lookup c.dimName).isSome info m₁ = some (info', m₂)) :
    Placed c m (verify c info'.id (publish toSnbt c.dimName info' m₂)).2 info'.id := by
  obtain ⟨-, -, -, hown, -, -⟩ := prepare_ok hprep
  have hsource : Source c m (publish toSnbt c.dimName info' m₂) info'.id := source_publish hprep hassign
  obtain ⟨⟨salvaged, rfl⟩, -, -⟩ := prepare_stage hprep
  obtain ⟨⟨used, next, rfl⟩, -⟩ := assignId_stage hassign
  constructor
  · unfold verify
    split
    · exact hsource
    · split
      · exact hsource
      · exact hsource
  · exact .inl ⟨info', by simp [publish], rfl⟩
  · rintro i (⟨info'', hl, rfl⟩ | hi)
    · have : info' = info'' := by simpa [publish] using hl
      exact .inl (by rw [this])
    · rw [verify_salvaged] at hi
      exact .inr (.inr (hown i (by simpa [publish] using hi)))
  · refine ⟨⟨info'.id, toSnbt info'.nbt⟩, rfl, fun n => ?_⟩
    rw [verify_list]
    simp only [publish]
    split
    · next hl =>
      by_cases hn : n = c.dimName
      · rw [hn, if_pos rfl, hl]
      · rw [if_neg hn]
    · rw [AList.lookup_insert_eq]

/-- A call never comes back, changes nothing, or settles on an id. -/
theorem addDimension_cases (toSnbt : N → String) (c : Call N) (m : Impl N) :
    (addDimension toSnbt c m).1 = .hangs
      ∨ (addDimension toSnbt c m).2 = m ∧ (∀ i, (addDimension toSnbt c m).1 ≠ .returned i)
      ∨ registers c m = true ∧ ∃ id, Placed c m (addDimension toSnbt c m).2 id
        ∧ ∀ i, (addDimension toSnbt c m).1 = .returned i → i = id := by
  unfold addDimension
  split
  · exact .inr (.inl ⟨rfl, fun i h => by cases h⟩)
  · next hlevel =>
    have hlevel : c.level = true := by simpa using hlevel
    dsimp only
    split
    · exact .inr (.inl ⟨rfl, fun i h => by cases h⟩)
    · next info m₁ hprep =>
      split
      · exact .inl rfl
      · next info' m₂ hassign =>
        have hreg : registers c m = true := by
          rcases (prepare_ok hprep).2.2.2.2.2 with h | h <;> simp [registers, hlevel, h]
        refine .inr (.inr ⟨hreg, info'.id, placed_publish hprep hassign, fun i h => ?_⟩)
        unfold verify at h
        split at h
        · cases h
        · split at h
          · cases h
          · cases h
            rfl

/-- The id a call settles on is in range, and the one on record where there is one; the counter
stays above the ids. -/
theorem settled_source {s : Server N} {saved : Bool} (h : Settled s) (hs : Sane s c saved)
    (hreg : registers c s.m = true) {m' : Impl N} {id : Int} (hsource : Source c s.m m' id) :
    InRange id ∧ (∀ i, Holds s.m c.dimName i → i = id)
      ∧ (∀ i ∈ m'.usedIds, i < m'.mNewDimensionId)
      ∧ 3 ≤ m'.mNewDimensionId ∧ m'.mNewDimensionId ≤ 2147483647 := by
  have hcounter := h.counter
  have hnext : ∀ {i : Int}, InRange i → toInt32 (i + 1) = i + 1 := fun hi => toInt32_of_range (by
    unfold InRange at hi
    omega)
  have habove : ∀ {used : Finset Int} {n : Int}, used = insert id s.m.usedIds → s.m.mNewDimensionId ≤ n → id < n →
      ∀ i ∈ used, i < n := by
    rintro used n rfl hn hid i hi
    rcases Finset.mem_insert.mp hi with rfl | hi
    · exact hid
    · exact lt_of_lt_of_le (h.above i hi) hn
  rcases hsource with ⟨hnat, hused, hmax⟩ | ⟨-, hheld, hused, hmax⟩ | ⟨-, hnone, hused, next, hsearch, hmax⟩
  · have hrange := hs.range id hreg hnat
    rw [hnext hrange] at hmax
    unfold InRange at hrange
    exact ⟨hrange, fun i hi => hs.agrees id i hreg hnat hi, habove hused (by omega) (by omega), by omega, by omega⟩
  · have hrange := h.range _ _ hheld
    rw [hnext hrange] at hmax
    unfold InRange at hrange
    refine ⟨hrange, fun i hi => h.inj hi hheld, fun i hi => ?_, by omega, by omega⟩
    rw [hused] at hi
    have := h.above i hi
    omega
  · have hfree : s.m.mNewDimensionId ∉ s.m.usedIds := fun hin => lt_irrefl _ (h.above _ hin)
    rw [nextCandidate, if_neg hfree] at hsearch
    obtain ⟨rfl, rfl⟩ := Prod.mk.inj (Option.some.inj hsearch)
    have hrange : InRange s.m.mNewDimensionId := ⟨hcounter.1, hs.counter⟩
    rw [hnext hrange, max_self] at hmax
    unfold InRange at hrange
    refine ⟨hrange, fun i hi => ?_, habove hused (by omega) (by omega), by omega, by omega⟩
    have := hnone i hi
    have := (h.range _ _ hi).1
    omega

/-- A sane call keeps the books, and every id on record. -/
theorem settled_call {s : Server N} {saved : Bool} (h : Settled s) (hs : Sane s c saved)
    (hout : (call toSnbt c saved s).1 ≠ .hangs) :
    Settled (call toSnbt c saved s).2 ∧ (∀ n i, Holds s.m n i → Holds (call toSnbt c saved s).2.m n i)
      ∧ ∀ i, (call toSnbt c saved s).1 = .returned i → Holds (call toSnbt c saved s).2.m c.dimName i := by
  rcases addDimension_cases toSnbt c s.m with hhang | ⟨hsame, hthrew⟩ | ⟨hreg, id, hplaced, hret⟩
  · exact absurd hhang hout
  · have hcall : (call toSnbt c saved s).2 = s := by
      simp [call, hsame]
    rw [hcall]
    exact ⟨h, fun _ _ hi => hi, fun i hi => absurd hi (hthrew i)⟩
  · obtain ⟨hrange, hkept, habove, hcounter⟩ := settled_source h hs hreg hplaced.source
    have heffect := addDimension_effect toSnbt c s.m
    obtain ⟨info, hid, hlist⟩ := hplaced.list
    have hown : ∀ i, Holds (addDimension toSnbt c s.m).2 c.dimName i ↔ i = id := by
      intro i
      constructor
      · intro hi
        exact (hplaced.own i hi).elim (fun h => h) (hkept i)
      · rintro rfl
        exact hplaced.holds
    refine ⟨⟨?_, ?_, ?_, ?_, hcounter, habove, ?_⟩, ?_, ?_⟩
    · intro n i
      show Holds (addDimension toSnbt c s.m).2 n i
        ↔ ∃ info, (addDimension toSnbt c s.m).2.dimensionList.lookup n = some info ∧ info.dimId = i
      by_cases hn : n = c.dimName
      · subst hn
        rw [hown, hlist, if_pos rfl]
        constructor
        · rintro rfl
          exact ⟨info, rfl, hid⟩
        · rintro ⟨info', hl, rfl⟩
          rw [← hid, Option.some.inj hl]
      · rw [heffect.others n i hn, hlist, if_neg hn]
        exact h.sync n i
    · intro n i hi
      by_cases hn : n = c.dimName
      · subst hn
        rw [(hown i).mp hi]
        exact hrange
      · exact h.range n i ((heffect.others n i hn).mp hi)
    · exact (unique_addDimension_iff toSnbt c h.unique h.claimed).mpr hs.free
    · exact claimed_addDimension toSnbt c h.claimed
    · intro n
      simp only [call, hs.saved, Bool.and_true, decide_eq_true_eq]
      split
      · rfl
      · next hsame =>
        rw [ne_eq, not_not] at hsame
        rw [h.file]
        by_cases hn : n = c.dimName
        · rw [hn, hsame]
        · rw [hlist, if_neg hn]
    · intro n i hi
      by_cases hn : n = c.dimName
      · subst hn
        exact (hown i).mpr (hkept i hi)
      · exact (heffect.others n i hn).mpr hi
    · intro i hi
      rw [hret i hi]
      exact hplaced.holds

end Call

/-! ## Runs -/

section Runs

variable {fromSnbt : String → Option N} {toSnbt : N → String}

theorem Settled.clean {s : Server N} (h : Settled s) {dimensionList : Table String StoredInfo}
    (hl : ∀ n, dimensionList.lookup n = s.file.lookup n) : Clean dimensionList where
  range n info hn := by
    rw [hl, h.file] at hn
    exact h.range n info.dimId ((h.sync n _).mpr ⟨info, hn, rfl⟩)
  distinct n n' info info' hn hn' hid := by
    rw [hl, h.file] at hn hn'
    exact h.unique n n' info.dimId ((h.sync n _).mpr ⟨info, hn, rfl⟩) ((h.sync n' _).mpr ⟨info', hn', hid.symm⟩)

/-- A step keeps the books, and every id on record, whether it is a call or a boot. -/
theorem settled_step {s t : Server N} {l : Label N} (h : Settled s) (hl : SaneStep s l)
    (hs : Step fromSnbt toSnbt s l t) : Settled t ∧ ∀ n i, Holds s.m n i → Holds t.m n i := by
  cases hs with
  | call c saved hout =>
    obtain ⟨hsettled, hkept, -⟩ := settled_call h (hl c saved rfl) hout
    exact ⟨hsettled, hkept⟩
  | boot dimensionList hfile =>
    have hsettled : Settled (boot fromSnbt dimensionList) := settled_boot fromSnbt (h.clean hfile)
    refine ⟨hsettled, fun n i hi => (hsettled.sync n i).mpr ?_⟩
    obtain ⟨info, hn, hid⟩ := (h.sync n i).mp hi
    refine ⟨info, ?_, hid⟩
    rw [← hsettled.file, boot, hfile, h.file, hn]

theorem kept_run {s u : Server N} {tr : List (Server N × Label N)} (h : Settled s)
    (hr : Run (Step fromSnbt toSnbt) s tr u) (hG : Meets SaneStep tr) {n : String} {i : Int} (hi : Holds s.m n i) :
    Settled u ∧ Holds u.m n i :=
  hr.invariant (fun t => Settled t ∧ Holds t.m n i) hG ⟨h, hi⟩ fun _ _ _ ht hl hs =>
    ⟨(settled_step ht.1 hl hs).1, (settled_step ht.1 hl hs).2 n i ht.2⟩

/-- A name keeps the id it was first given, over all later calls and boots: two calls for it that
return an id, with anything between them, return the same, and so does the file at the end. -/
theorem id_kept (fromSnbt : String → Option N) (toSnbt : N → String) {dimensionList : Table String StoredInfo}
    (h : Clean dimensionList) {pre mid suf : List (Server N × Label N)} {s s' u : Server N} {c c' : Call N}
    {saved saved' : Bool}
    (hr : Run (Step fromSnbt toSnbt) (boot fromSnbt dimensionList)
      (pre ++ (s, .call c saved) :: (mid ++ (s', .call c' saved') :: suf)) u)
    (hG : Meets SaneStep (pre ++ (s, .call c saved) :: (mid ++ (s', .call c' saved') :: suf)))
    (hname : c'.dimName = c.dimName) {i j : Int} (hi : (call toSnbt c saved s).1 = .returned i)
    (hj : (call toSnbt c' saved' s').1 = .returned j) :
    j = i ∧ ∃ info, u.file.lookup c.dimName = some info ∧ info.dimId = i := by
  rw [Runs.meets_append, Runs.meets_cons, Runs.meets_append, Runs.meets_cons] at hG
  obtain ⟨hpre, hc, hmid, hc', hsuf⟩ := hG
  obtain ⟨t, hrpre, hstep, hrest⟩ := hr.split_cons
  obtain ⟨t', hrmid, hstep', hrsuf⟩ := hrest.split_cons
  have hsettled : Settled s := hrpre.invariant Settled hpre (settled_boot fromSnbt h) fun _ _ _ ht hl hs =>
    (settled_step ht hl hs).1
  cases hstep with
  | call _ _ hout =>
    obtain ⟨hsettled₁, -, hret⟩ := settled_call hsettled (hc c saved rfl) hout
    obtain ⟨hsettled₂, hheld⟩ := kept_run hsettled₁ hrmid hmid (hret i hi)
    cases hstep' with
    | call _ _ hout' =>
      obtain ⟨hsettled₃, hkept', hret'⟩ := settled_call hsettled₂ (hc' c' saved' rfl) hout'
      have hheld' := hkept' _ _ hheld
      have hij : j = i := by
        have hj' := hret' j hj
        rw [hname] at hj'
        exact hsettled₃.inj hj' hheld'
      obtain ⟨hsettled₄, hend⟩ := kept_run hsettled₃ hrsuf hsuf hheld'
      obtain ⟨info, hl, hid⟩ := (hsettled₄.sync _ _).mp hend
      exact ⟨hij, info, by rw [hsettled₄.file, hl], hid⟩

end Runs

/-! ## An instance -/

/-- The engine gives "plots" an id of its own range and builds it. -/
def exampleCall : Call Unit := ⟨"plots", true, .ok (), some 1000, some 1000⟩

/-- No payload can be read back. -/
def noSnbt : String → Option Unit := fun _ => none

def emptySnbt : Unit → String := fun _ => ""

def exampleFirst : Server Unit := boot noSnbt ∅

def exampleCalled : Server Unit := (call emptySnbt exampleCall true exampleFirst).2

def exampleAgain : Server Unit := boot noSnbt exampleCalled.file

theorem file_exampleCalled {n : String} {info : StoredInfo} (h : exampleCalled.file.lookup n = some info) :
    n = "plots" ∧ info = ⟨1000, ""⟩ := by
  rw [show exampleCalled.file = AList.insert "plots" ⟨1000, ""⟩ ∅ from rfl, AList.lookup_insert_eq] at h
  split at h
  · next hn =>
    cases h
    exact ⟨hn, rfl⟩
  · cases h

theorem sane_example {s : Server Unit} (hheld : ∀ n i, Holds s.m n i → n = "plots" ∧ i = 1000)
    (hcounter : s.m.mNewDimensionId < 2147483647) : Sane s exampleCall true where
  saved := rfl
  range := by
    rintro i - ⟨⟩
    exact ⟨by decide, by decide⟩
  free := by
    rintro i - - n hn hi
    exact hn (hheld n i hi).1
  agrees := by
    rintro i j - ⟨⟩ hi
    exact (hheld _ j hi).2
  counter := hcounter

theorem clean_empty : Clean ∅ := ⟨by simp, by simp⟩

theorem sane_exampleFirst : Sane exampleFirst exampleCall true := by
  refine sane_example (fun n i hi => ?_) (by decide)
  obtain ⟨info, hl, -⟩ := ((settled_boot noSnbt clean_empty).sync n i).mp hi
  cases hl

theorem id_kept_reboot :
    (call emptySnbt exampleCall true exampleAgain).1 = .returned 1000
      ∧ ∃ info, (call emptySnbt exampleCall true exampleAgain).2.file.lookup "plots" = some info
        ∧ info.dimId = 1000 := by
  have hclean' : Clean exampleCalled.file := by
    refine ⟨fun n info h => ?_, fun n n' info info' h h' _ => ?_⟩
    · rw [(file_exampleCalled h).2]
      exact ⟨by decide, by decide⟩
    · rw [(file_exampleCalled h).1, (file_exampleCalled h').1]
  have hagain : Sane exampleAgain exampleCall true := by
    refine sane_example (fun n i hi => ?_) (by decide)
    obtain ⟨info, hl, rfl⟩ := ((settled_boot noSnbt hclean').sync n i).mp hi
    rw [← (settled_boot noSnbt hclean').file, boot] at hl
    exact ⟨(file_exampleCalled hl).1, by rw [(file_exampleCalled hl).2]⟩
  have hrun : Run (Step noSnbt emptySnbt) exampleFirst
      ([] ++ (exampleFirst, .call exampleCall true) :: ([(exampleCalled, .boot exampleCalled.file)]
        ++ [(exampleAgain, .call exampleCall true)])) (call emptySnbt exampleCall true exampleAgain).2 :=
    .cons (.call _ _ _ (by decide)) (.cons (.boot _ _ fun _ => rfl) (.single (.call _ _ _ (by decide))))
  have hsane : Meets SaneStep ([] ++ (exampleFirst, .call exampleCall true) ::
      ([(exampleCalled, .boot exampleCalled.file)] ++ [(exampleAgain, .call exampleCall true)])) := by
    rw [List.nil_append, List.singleton_append, Runs.meets_cons, Runs.meets_cons, Runs.meets_cons]
    refine ⟨?_, ?_, ?_, Runs.meets_nil⟩
    · rintro c saved ⟨⟩
      exact sane_exampleFirst
    · rintro c saved ⟨⟩
    · rintro c saved ⟨⟩
      exact hagain
  have hreturned : (call emptySnbt exampleCall true exampleAgain).1 = .returned 1000 := by decide
  exact ⟨hreturned, (id_kept noSnbt emptySnbt clean_empty hrun hsane rfl (by decide) hreturned).2⟩

end DimensionBoots
