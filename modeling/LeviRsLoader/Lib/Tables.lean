import Mathlib.Data.List.AList

/-!
# Finite tables

Hash maps keyed by identifiers, over Mathlib's association lists with distinct
keys: lookup, insertion and erasure are Mathlib's. Added here are the three
whole-table walks (erase every entry of a kind, collect their keys, count
them) and how they compose with the pointwise operations.
-/

/-- A finite map with one entry for each key. -/
abbrev Table (κ ν : Type*) := AList fun _ : κ => ν

namespace AList

variable {κ ν : Type*}

/-- Erase every entry that satisfies `p`. -/
def eraseIf (p : κ → ν → Bool) (t : Table κ ν) : Table κ ν where
  entries := t.entries.filter fun e => !p e.1 e.2
  nodupKeys := t.nodupKeys.sublist List.filter_sublist

/-- The keys of the entries that satisfy `p`, in the order of the walk. -/
def keysIf (p : κ → ν → Bool) (t : Table κ ν) : List κ :=
  (t.entries.filter fun e => p e.1 e.2).map Sigma.fst

/-- The number of entries that satisfy `p`. -/
def countIf (p : κ → ν → Bool) (t : Table κ ν) : Nat := t.entries.countP fun e => p e.1 e.2

variable (p q : κ → ν → Bool) (t : Table κ ν)

theorem nodup_keysIf : (t.keysIf p).Nodup :=
  t.keys_nodup.sublist (List.filter_sublist.map Sigma.fst)

theorem length_keysIf : (t.keysIf p).length = t.countIf p := by
  simp [keysIf, countIf, List.countP_eq_length_filter]

theorem countIf_eraseIf : (t.eraseIf q).countIf p = t.countIf fun k v => p k v && !q k v := by
  simp [countIf, eraseIf, List.countP_filter]

variable [DecidableEq κ] (k k' : κ) (v v' : ν)

theorem lookup_eq_some_iff {t : Table κ ν} {k : κ} {v : ν} :
    t.lookup k = some v ↔ (⟨k, v⟩ : Sigma fun _ : κ => ν) ∈ t.entries := AList.mem_lookup_iff

theorem mem_iff_lookup {t : Table κ ν} {k : κ} : k ∈ t ↔ ∃ v, t.lookup k = some v := by
  rw [← AList.lookup_isSome, Option.isSome_iff_exists]

/-- A walk that erases keeps exactly the entries the predicate spares. -/
theorem lookup_eraseIf_eq_some :
    (t.eraseIf p).lookup k = some v ↔ t.lookup k = some v ∧ p k v = false := by
  simp [lookup_eq_some_iff, eraseIf]

theorem lookup_eraseIf : (t.eraseIf p).lookup k = (t.lookup k).filter fun v => !p k v := by
  ext v
  simp [lookup_eraseIf_eq_some, Option.filter_eq_some_iff]

theorem mem_keysIf : k ∈ t.keysIf p ↔ ∃ v, t.lookup k = some v ∧ p k v = true := by
  simp only [keysIf, List.mem_map, List.mem_filter, Sigma.exists, lookup_eq_some_iff]
  constructor
  · rintro ⟨a, b, ⟨hm, hp⟩, rfl⟩
    exact ⟨b, hm, hp⟩
  · rintro ⟨b, hm, hp⟩
    exact ⟨k, b, ⟨hm, hp⟩, rfl⟩

theorem lookup_insert_eq : (t.insert k v).lookup k' = if k' = k then some v else t.lookup k' := by
  by_cases h : k' = k
  · subst h; simp
  · simp [h]

theorem lookup_erase_eq : (t.erase k).lookup k' = if k' = k then none else t.lookup k' := by
  by_cases h : k' = k
  · subst h; simp
  · simp [h]

theorem erase_of_notMem {t : Table κ ν} {k : κ} (h : k ∉ t) : t.erase k = t :=
  AList.ext (List.kerase_of_notMem_keys h)

theorem countIf_insert_of_notMem {t : Table κ ν} {k : κ} (h : k ∉ t) :
    (t.insert k v).countIf p = t.countIf p + if p k v then 1 else 0 := by
  rw [countIf, entries_insert_of_notMem h, List.countP_cons, countIf]

theorem countIf_erase_of_lookup {t : Table κ ν} {k : κ} {v : ν} (h : t.lookup k = some v) :
    t.countIf p = (t.erase k).countIf p + if p k v then 1 else 0 := by
  have hk : k ∈ t.entries.keys := AList.mem_keys.mp (mem_iff_lookup.mpr ⟨v, h⟩)
  obtain ⟨b, l₁, l₂, hn, he, hr⟩ := List.exists_of_kerase hk
  have hb : b = v := by
    have : t.lookup k = some b := lookup_eq_some_iff.mpr (by rw [he]; simp)
    rw [this] at h
    exact Option.some.inj h
  subst hb
  show List.countP _ t.entries = List.countP _ (t.entries.kerase k) + _
  rw [hr, he]
  simp only [List.countP_append, List.countP_cons]
  omega

theorem countIf_insert : (t.insert k v).countIf p = (t.erase k).countIf p + if p k v then 1 else 0 := by
  simp only [countIf, AList.entries_insert, List.countP_cons]
  rfl

/-- Overwriting an entry with one that counts as much keeps the number. -/
theorem countIf_insert_of_lookup {t : Table κ ν} {k : κ} {v : ν} (v' : ν) (h : t.lookup k = some v)
    (hp : p k v' = p k v) : (t.insert k v').countIf p = t.countIf p := by
  rw [countIf_insert, countIf_erase_of_lookup p h, hp]

theorem countIf_eq_zero : t.countIf p = 0 ↔ ∀ k v, t.lookup k = some v → p k v = false := by
  simp only [countIf, List.countP_eq_zero, lookup_eq_some_iff]
  constructor
  · intro h k v hm
    simpa using h ⟨k, v⟩ hm
  · rintro h ⟨k, v⟩ hm
    simpa using h k v hm

theorem countIf_congr {p q : κ → ν → Bool} {t : Table κ ν} (h : ∀ k v, t.lookup k = some v → p k v = q k v) :
    t.countIf p = t.countIf q := by
  apply List.countP_congr
  rintro ⟨k, v⟩ hm
  simp [h k v (lookup_eq_some_iff.mpr hm)]

/-- Distinct keys that all satisfy `p` are at most as many as the entries that do. -/
theorem length_le_countIf {l : List κ} (hl : l.Nodup)
    (h : ∀ k ∈ l, ∃ v, t.lookup k = some v ∧ p k v = true) : l.length ≤ t.countIf p := by
  rw [← length_keysIf]
  exact (List.subperm_of_subset hl fun k hk => (mem_keysIf p t k).mpr (h k hk)).length_le

end AList
