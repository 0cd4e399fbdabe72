import LeviRsLoader.Lib.Packing
import LeviRsLoader.PlotConfine
import Mathlib.Data.Set.Card

/-!
# Merge groups

What `groupRootLocked` answers, whatever has been asked before: the least plot
of the component, or nothing where the component is larger than the scan limit.
-/
namespace PlotGroups

open PlotConfine

/-! ## Keys -/

/-- `pk`, for coordinates that fit. -/
def pk (id : PlotXZ) : UInt64 := Packing.pack (Int32.ofInt id.x) (Int32.ofInt id.z)

def unpk (k : UInt64) : PlotXZ := ⟨(Packing.high k).toInt, (Packing.low k).toInt⟩

structure Fits (id : PlotXZ) : Prop where
  x : -2147483648 ≤ id.x ∧ id.x < 2147483648
  z : -2147483648 ≤ id.z ∧ id.z < 2147483648

/-- A plot is read back from its key, so it may stand for the key. -/
theorem unpk_pk {id : PlotXZ} (h : Fits id) : unpk (pk id) = id := by
  have hx := h.x
  have hz := h.z
  rw [unpk, pk, Packing.high_pack, Packing.low_pack, Int32.toInt_ofInt_of_le (by omega) (by omega),
    Int32.toInt_ofInt_of_le (by omega) (by omega)]

/-! ## Components -/

/-- The plots joined to `a`. -/
def component (d : Declared) (a : PlotXZ) : Set PlotXZ := {c | d.Joined a c}

theorem encard_le_iff {S : Set PlotXZ} {n : Nat} : S.encard ≤ n ↔ ∃ s : Finset PlotXZ, s.card ≤ n ∧ ∀ c ∈ S, c ∈ s := by
  constructor
  · intro h
    have hfin : S.Finite := Set.finite_of_encard_le_coe h
    refine ⟨hfin.toFinset, ?_, fun c hc => hfin.mem_toFinset.mpr hc⟩
    rw [hfin.encard_eq_coe_toFinset_card] at h
    exact_mod_cast h
  · rintro ⟨s, hcard, hs⟩
    calc S.encard ≤ (s : Set PlotXZ).encard := Set.encard_le_encard fun c hc => hs c hc
      _ = (s.card : ENat) := Set.encard_coe_eq_coe_finsetCard s
      _ ≤ n := by exact_mod_cast hcard

/-- The representative is the first of its group in the order of `PlotId`. -/
theorem groupRoot_least {g : DimGrid} {a r : PlotXZ} (h : groupRoot g a = some r) {c : PlotXZ} (hc : Linked g a c) :
    r.x < c.x ∨ r.x = c.x ∧ r.z ≤ c.z := by
  unfold groupRoot at h
  cases hs : Search.search kGroupScanLimit (edges g) a with
  | error seen =>
    rw [hs] at h
    cases h
  | ok ms =>
    rw [hs] at h
    obtain rfl := Option.some.inj h
    have hmem : c ∈ ms := ((Search.search_ok limit_pos hs).1 c).mpr hc
    have hle := (least_spec a ms).2 c (List.mem_cons_of_mem a hmem)
    rw [Bool.eq_false_iff, ne_eq, lessThan_iff] at hle
    omega

/-- The search succeeds exactly on the components within the limit. -/
theorem groupRoot_isSome_iff (g : DimGrid) (a : PlotXZ) :
    (∃ r, groupRoot g a = some r) ↔ (component g.declared a).encard ≤ kGroupScanLimit := by
  rw [encard_le_iff]
  constructor
  · rintro ⟨r, hr⟩
    obtain ⟨-, s, hcard, hs⟩ := groupRoot_some hr
    exact ⟨s, hcard, fun c hc => hs c ((linked_iff g a c).mpr hc)⟩
  · rintro ⟨s, hcard, hs⟩
    exact groupRoot_isSome hcard fun c hc => hs c ((linked_iff g a c).mp hc)

/-! ## Queries -/

/-- The grid with what earlier queries have memoised. -/
def afterQueries (earlier : List PlotXZ) (g : DimGrid) : DimGrid :=
  earlier.foldl (fun g id => (groupRootLocked id g).2) g

theorem afterQueries_spec (earlier : List PlotXZ) {g : DimGrid} (h : Memo g) :
    Same g (afterQueries earlier g) ∧ Memo (afterQueries earlier g) := by
  refine Runs.foldl_invariant (fun g' => Same g g' ∧ Memo g') ⟨.refl g, h⟩ ?_
  rintro g' id ⟨hsame, hmemo⟩
  obtain ⟨-, hsame', hmemo'⟩ := groupRootLocked_spec id hmemo
  exact ⟨hsame.trans hsame', hmemo'⟩

/-- For every grid, merge table, history of queries and plot: the walk is over after as many pops as the limit
allows members. A component within the limit has its least plot for an answer and a larger one has none, in both
cases from every member. -/
theorem groupRootLocked_canonical (plotSize roadWidth : Int) (merges : Table PlotXZ Nat) (earlier : List PlotXZ)
    (id : PlotXZ) :
    let g := afterQueries earlier ⟨plotSize, roadWidth, merges, ∅, ∅⟩
    let group := component ⟨plotSize, roadWidth, merges.lookup⟩ id
    (∀ n, Search.loop kGroupScanLimit (edges g) (kGroupScanLimit + n) ⟨{id}, [id], [id]⟩ =
      Search.loop kGroupScanLimit (edges g) kGroupScanLimit ⟨{id}, [id], [id]⟩) ∧
    (group.encard ≤ kGroupScanLimit → ∃ root ∈ group, (∀ c ∈ group, root.x < c.x ∨ root.x = c.x ∧ root.z ≤ c.z) ∧
      ∀ b ∈ group, (groupRootLocked b g).1 = some root) ∧
    (kGroupScanLimit < group.encard → ∀ b ∈ group, (groupRootLocked b g).1 = none) := by
  intro g group
  obtain ⟨hsame, hmemo⟩ := afterQueries_spec earlier
    (memo_of_empty (g := ⟨plotSize, roadWidth, merges, ∅, ∅⟩) rfl rfl)
  have hgroup : group = component g.declared id := by
    show component ⟨plotSize, roadWidth, merges.lookup⟩ id = component ⟨g.plotSize, g.roadWidth, g.merges.lookup⟩ id
    rw [hsame.plotSize, hsame.roadWidth, hsame.merges]
  have hmember : ∀ b ∈ group, (groupRootLocked b g).1 = groupRoot g id := by
    intro b hb
    rw [hgroup] at hb
    rw [(groupRootLocked_spec b hmemo).1, groupRoot_congr ((linked_iff g id b).mpr hb)]
  refine ⟨Search.search_stops limit_pos, fun hsmall => ?_, fun hlarge b hb => ?_⟩
  · rw [hgroup] at hsmall
    obtain ⟨root, hroot⟩ := (groupRoot_isSome_iff g id).mpr hsmall
    refine ⟨root, ?_, fun c hc => ?_, fun b hb => (hmember b hb).trans hroot⟩
    · rw [hgroup]
      exact (linked_iff g id root).mp (groupRoot_some hroot).1
    · rw [hgroup] at hc
      exact groupRoot_least hroot ((linked_iff g id c).mpr hc)
  · rw [hmember b hb]
    rw [hgroup] at hlarge
    cases hroot : groupRoot g id with
    | none => rfl
    | some root => exact absurd ((groupRoot_isSome_iff g id).mp ⟨root, hroot⟩) (not_le_of_gt hlarge)

end PlotGroups
