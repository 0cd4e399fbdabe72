import LeviRsLoader.Lib.Runs
import LeviRsLoader.Lib.Search
import LeviRsLoader.Lib.Tables
import LeviRsLoader.PlotLayout

/-!
# Plot confinement

The grids, merge tables and memoised group roots of `PlotConfine.cpp`. Plot
coordinates are integers away from the limits of int32, where `pk` packs them
without collision, so a plot is its own key.
-/
namespace PlotConfine

open PlotLayout (positiveMod positiveMod_eq_emod)

structure PlotXZ where
  x : Int
  z : Int
  deriving DecidableEq, Repr

structure DimGrid where
  plotSize : Int
  roadWidth : Int
  merges : Table PlotXZ Nat
  roots : Table PlotXZ PlotXZ
  oversized : Finset PlotXZ

def kGroupScanLimit : Nat := 4096

/-! ## Geometry -/

def floorDivLocal (value divisor : Int) : Int :=
  let q := value.tdiv divisor
  if value.tmod divisor ≠ 0 ∧ (value < 0) ≠ (divisor < 0) then q - 1 else q

/-- `kMergeNorth`, `kMergeEast`, `kMergeSouth`, `kMergeWest`. -/
def bitOf (dir : Fin 4) : Nat :=
  match dir with
  | 0 => 1
  | 1 => 2
  | 2 => 4
  | 3 => 8

def neighbourOf (id : PlotXZ) (dir : Fin 4) : PlotXZ :=
  match dir with
  | 0 => ⟨id.x, id.z - 1⟩
  | 1 => ⟨id.x + 1, id.z⟩
  | 2 => ⟨id.x, id.z + 1⟩
  | 3 => ⟨id.x - 1, id.z⟩

def claims (g : DimGrid) (id : PlotXZ) (dir : Fin 4) : Bool :=
  match g.merges.lookup id with
  | none => false
  | some mask => mask &&& bitOf dir != 0

/-- One side's claim is enough; addition on `Fin 4` is modulo 4, as in the source. -/
def connected (g : DimGrid) (a : PlotXZ) (dir : Fin 4) : Bool :=
  claims g a dir || claims g (neighbourOf a dir) (dir + 2)

def lessThan (a b : PlotXZ) : Bool := if a.x ≠ b.x then a.x < b.x else a.z < b.z

def dirs : List (Fin 4) := [0, 1, 2, 3]

/-- The neighbours the walk meets from `cur`, in the order of the directions. -/
def edges (g : DimGrid) (cur : PlotXZ) : List PlotXZ :=
  dirs.filterMap fun d => if connected g cur d then some (neighbourOf cur d) else none

/-- `best`, which the walk keeps up to date with every new member. -/
def least (id : PlotXZ) (members : List PlotXZ) : PlotXZ :=
  members.foldl (fun best nb => if lessThan nb best then nb else best) id

/-- The representative of the plot's merge group, or nothing for a group that is too large. -/
def groupRootLocked (id : PlotXZ) (g : DimGrid) : Option PlotXZ × DimGrid :=
  if id ∈ g.oversized then (none, g)
  else match g.roots.lookup id with
    | some root => (some root, g)
    | none =>
      if dirs.all fun d => !connected g id d then (some id, { g with roots := g.roots.insert id id })
      else match Search.search kGroupScanLimit (edges g) id with
        | .error seen => (none, { g with oversized := g.oversized ∪ seen })
        | .ok members =>
          let best := least id members
          (some best, { g with roots := members.foldl (fun t m => t.insert m best) g.roots })

/-- The plot a column belongs to, if any; a road between merged plots belongs to the one before it. -/
def owningPlotLocked (g : DimGrid) (x z : Int) : Option PlotXZ :=
  let cell := g.plotSize + g.roadWidth
  if cell ≤ 0 then none
  else
    let base : PlotXZ := ⟨floorDivLocal x cell, floorDivLocal z cell⟩
    let onRoadX := positiveMod x cell ≥ g.plotSize
    let onRoadZ := positiveMod z cell ≥ g.plotSize
    if ¬onRoadX ∧ ¬onRoadZ then some base
    else if onRoadX ∧ ¬onRoadZ then (if !connected g base 1 then none else some base)
    else if ¬onRoadX ∧ onRoadZ then (if !connected g base 2 then none else some base)
    else if !(connected g base 1 && connected g base 2 && connected g (neighbourOf base 1) 2 &&
        connected g (neighbourOf base 2) 1) then none
    else some base

/-! ## The interface -/

structure World where
  grids : Table Int DimGrid
  gGridCount : Int

def World.initial : World := ⟨∅, 0⟩

def clearPlotGrid (dimension : Int) (w : World) : World :=
  match w.grids.lookup dimension with
  | none => w
  | some _ => ⟨w.grids.erase dimension, w.gGridCount - 1⟩

/-- A change of the geometry clears what is memoised; the merges stay. -/
def DimGrid.resize (plotSize roadWidth : Int) (g : DimGrid) : DimGrid :=
  if g.plotSize ≠ plotSize ∨ g.roadWidth ≠ roadWidth then
    { g with plotSize, roadWidth, roots := ∅, oversized := ∅ }
  else g

def setPlotGrid (dimension plotSize roadWidth : Int) (w : World) : World :=
  if plotSize ≤ 0 then clearPlotGrid dimension w
  else
    let roadWidth := if roadWidth < 0 then 0 else roadWidth
    let plotSize := if plotSize > 512 then 512 else plotSize
    let roadWidth := if roadWidth > 64 then 64 else roadWidth
    match w.grids.lookup dimension with
    | none => ⟨w.grids.insert dimension (DimGrid.resize plotSize roadWidth ⟨0, 0, ∅, ∅, ∅⟩), w.gGridCount + 1⟩
    | some g => { w with grids := w.grids.insert dimension (g.resize plotSize roadWidth) }

/-- `g.merges[pk(x, z)] |= mask` over the low four bits of each entry's mask. -/
def addMerge (merges : Table PlotXZ Nat) (entry : Int × Int × Int) : Table PlotXZ Nat :=
  let mask := (entry.2.2 % 16).toNat
  if mask = 0 then merges
  else
    let key : PlotXZ := ⟨entry.1, entry.2.1⟩
    merges.insert key ((merges.lookup key).getD 0 ||| mask)

/-- The table replaces the one before; without a grid it is ignored. -/
def setPlotMerges (dimension : Int) (entries : List (Int × Int × Int)) (w : World) : World :=
  match w.grids.lookup dimension with
  | none => w
  | some g =>
    { w with
      grids := w.grids.insert dimension
        { g with merges := entries.foldl addMerge ∅, roots := ∅, oversized := ∅ } }

def hasPlotGrid (dimension : Int) (w : World) : Bool :=
  if w.gGridCount = 0 then false
  else match w.grids.lookup dimension with
    | none => false
    | some g => decide (g.plotSize > 0)

def owningPlot (dimension x z : Int) (w : World) : Option PlotXZ :=
  if w.gGridCount = 0 then none
  else match w.grids.lookup dimension with
    | none => none
    | some g => owningPlotLocked g x z

/-- The answer, and the grid with what the walks have memoised. -/
def sameAreaLocked (x₁ z₁ x₂ z₂ : Int) (g : DimGrid) : Bool × DimGrid :=
  match owningPlotLocked g x₁ z₁, owningPlotLocked g x₂ z₂ with
  | none, none => (true, g)
  | some _, none => (false, g)
  | none, some _ => (false, g)
  | some a, some b =>
    if a = b then (true, g)
    else match groupRootLocked a g with
      | (none, g) => (false, g)
      | (some ra, g) =>
        match groupRootLocked b g with
        | (none, g) => (false, g)
        | (some rb, g) => (ra == rb, g)

def sameArea (dimension x₁ z₁ x₂ z₂ : Int) (w : World) : Bool × World :=
  if w.gGridCount = 0 then (true, w)
  else match w.grids.lookup dimension with
    | none => (true, w)
    | some g =>
      let (answer, g) := sameAreaLocked x₁ z₁ x₂ z₂ g
      (answer, { w with grids := w.grids.insert dimension g })

/-! ## Edges -/

theorem neighbourOf_back (id : PlotXZ) (dir : Fin 4) : neighbourOf (neighbourOf id dir) (dir + 2) = id := by
  obtain ⟨x, z⟩ := id
  match dir with
  | 0 => simp [neighbourOf]
  | 1 => simp [neighbourOf]
  | 2 => simp [neighbourOf]
  | 3 => simp [neighbourOf]

/-- An edge is the same seen from either end. -/
theorem connected_back (g : DimGrid) (a : PlotXZ) (dir : Fin 4) :
    connected g (neighbourOf a dir) (dir + 2) = connected g a dir := by
  have hdir : dir + 2 + 2 = dir := by
    match dir with
    | 0 | 1 | 2 | 3 => rfl
  rw [connected, connected, neighbourOf_back, hdir, Bool.or_comm]

theorem mem_dirs (d : Fin 4) : d ∈ dirs := by
  match d with
  | 0 | 1 | 2 | 3 => decide

theorem mem_edges {g : DimGrid} {a b : PlotXZ} : b ∈ edges g a ↔ ∃ d, connected g a d = true ∧ b = neighbourOf a d := by
  simp only [edges, List.mem_filterMap, Option.ite_none_right_eq_some, Option.some.injEq]
  constructor
  · rintro ⟨d, _, hc, rfl⟩
    exact ⟨d, hc, rfl⟩
  · rintro ⟨d, hc, rfl⟩
    exact ⟨d, mem_dirs d, hc, rfl⟩

theorem edges_symm (g : DimGrid) (a b : PlotXZ) (h : b ∈ edges g a) : a ∈ edges g b := by
  obtain ⟨d, hc, rfl⟩ := mem_edges.mp h
  exact mem_edges.mpr ⟨d + 2, by rwa [connected_back], (neighbourOf_back a d).symm⟩

/-! ## The least member -/

theorem lessThan_iff (a b : PlotXZ) : lessThan a b = true ↔ a.x < b.x ∨ a.x = b.x ∧ a.z < b.z := by
  unfold lessThan
  by_cases h : a.x = b.x
  · simp [h]
  · simp [h]

theorem least_cons (id m : PlotXZ) (members : List PlotXZ) :
    least id (m :: members) = least (if lessThan m id then m else id) members := rfl

theorem least_spec (id : PlotXZ) (members : List PlotXZ) :
    least id members ∈ id :: members ∧ ∀ m ∈ id :: members, lessThan m (least id members) = false := by
  induction members generalizing id with
  | nil => simp [least, lessThan]
  | cons m members ih =>
    rw [least_cons]
    obtain ⟨hmem, hle⟩ := ih (if lessThan m id then m else id)
    constructor
    · rcases List.mem_cons.mp hmem with h | h
      · rw [h]
        split <;> simp
      · simp [h]
    · have hhead := hle _ List.mem_cons_self
      have hpair : lessThan id (least (if lessThan m id then m else id) members) = false ∧
          lessThan m (least (if lessThan m id then m else id) members) = false := by
        generalize least (if lessThan m id then m else id) members = r at hhead
        simp only [Bool.eq_false_iff, ne_eq, lessThan_iff] at hhead ⊢
        split at hhead
        · constructor <;> omega
        · constructor <;> omega
      intro n hn
      rcases List.mem_cons.mp hn with rfl | hn
      · exact hpair.1
      · rcases List.mem_cons.mp hn with rfl | hn
        · exact hpair.2
        · exact hle n (by simp [hn])

/-- The least member depends on the members alone. -/
theorem least_congr {a b : PlotXZ} {ms ms' : List PlotXZ} (ha : a ∈ ms) (hb : b ∈ ms') (h : ∀ c, c ∈ ms' ↔ c ∈ ms) :
    least a ms = least b ms' := by
  obtain ⟨hmem, hle⟩ := least_spec a ms
  obtain ⟨hmem', hle'⟩ := least_spec b ms'
  have hin : ∀ {d : PlotXZ} {l : List PlotXZ} {r : PlotXZ}, d ∈ l → r ∈ d :: l → r ∈ l := by
    intro d l r hd hr
    rcases List.mem_cons.mp hr with rfl | hr
    · exact hd
    · exact hr
  have h₁ := hle (least b ms') (List.mem_cons_of_mem _ ((h _).mp (hin hb hmem')))
  have h₂ := hle' (least a ms) (List.mem_cons_of_mem _ ((h _).mpr (hin ha hmem)))
  generalize least a ms = r at h₁ h₂
  generalize least b ms' = r' at h₁ h₂
  obtain ⟨x, z⟩ := r
  obtain ⟨x', z'⟩ := r'
  simp only [Bool.eq_false_iff, ne_eq, lessThan_iff] at h₁ h₂
  simp only [PlotXZ.mk.injEq]
  omega

/-! ## Group roots -/

/-- The representative with nothing memoised. -/
def groupRoot (g : DimGrid) (id : PlotXZ) : Option PlotXZ :=
  match Search.search kGroupScanLimit (edges g) id with
  | .error _ => none
  | .ok members => some (least id members)

theorem limit_pos : 0 < kGroupScanLimit := by decide

abbrev Linked (g : DimGrid) : PlotXZ → PlotXZ → Prop := Search.Conn (edges g)

theorem Linked.symm {g : DimGrid} {a b : PlotXZ} (h : Linked g a b) : Linked g b a := by
  have : Std.Symm fun x y => y ∈ edges g x := ⟨edges_symm g⟩
  exact symm_of (Linked g) h

/-- The representative is one of the group, which is small. -/
theorem groupRoot_some {g : DimGrid} {a r : PlotXZ} (h : groupRoot g a = some r) :
    Linked g a r ∧ ∃ s : Finset PlotXZ, s.card ≤ kGroupScanLimit ∧ ∀ c, Linked g a c → c ∈ s := by
  unfold groupRoot at h
  split at h
  · cases h
  · next ms hs =>
    cases h
    obtain ⟨hms, hsmall⟩ := Search.search_ok limit_pos hs
    constructor
    · rcases List.mem_cons.mp (least_spec a ms).1 with h | h
      · rw [h]
      · exact (hms _).mp h
    · exact ⟨ms.toFinset, (List.toFinset_card_le ms).trans hsmall,
        fun c hc => List.mem_toFinset.mpr ((hms c).mpr hc)⟩

theorem groupRoot_isSome {g : DimGrid} {a : PlotXZ} {s : Finset PlotXZ} (hs : s.card ≤ kGroupScanLimit)
    (h : ∀ c, Linked g a c → c ∈ s) : ∃ r, groupRoot g a = some r := by
  unfold groupRoot
  cases hsearch : Search.search kGroupScanLimit (edges g) a with
  | ok ms => exact ⟨_, rfl⟩
  | error seen =>
    obtain ⟨hseen, hcard⟩ := Search.search_error limit_pos hsearch
    have := Finset.card_le_card fun c hc => h c (hseen c hc)
    omega

theorem groupRoot_congr {g : DimGrid} {a b : PlotXZ} (h : Linked g a b) : groupRoot g a = groupRoot g b := by
  have hok : ∀ {a b : PlotXZ} {ms : List PlotXZ}, Linked g a b → Search.search kGroupScanLimit (edges g) a = .ok ms →
      groupRoot g a = groupRoot g b := by
    intro a b ms hab hs
    obtain ⟨ms', hs', hmem⟩ := Search.search_congr limit_pos (edges_symm g) hab hs
    have ha := ((Search.search_ok limit_pos hs).1 a).mpr .refl
    have hb := ((Search.search_ok limit_pos hs').1 b).mpr .refl
    simp only [groupRoot, hs, hs', least_congr ha hb hmem]
  cases hs : Search.search kGroupScanLimit (edges g) a with
  | ok ms => exact hok h hs
  | error seen =>
    cases hs' : Search.search kGroupScanLimit (edges g) b with
    | ok ms' => exact (hok h.symm hs').symm
    | error seen' => simp only [groupRoot, hs, hs']

/-- A plot with no edge is its own representative. -/
theorem groupRoot_isolated {g : DimGrid} {a : PlotXZ} (h : ∀ d, connected g a d = false) : groupRoot g a = some a := by
  have halone : ∀ c, Linked g a c → c = a := by
    intro c hc
    induction hc with
    | refl => rfl
    | tail _ hedge ih =>
      subst ih
      obtain ⟨d, hd, _⟩ := mem_edges.mp hedge
      rw [h d] at hd
      cases hd
  obtain ⟨r, hr⟩ := groupRoot_isSome (s := {a}) (by rw [Finset.card_singleton]; exact limit_pos)
    (fun c hc => by rw [halone c hc]; simp)
  rw [hr, halone r (groupRoot_some hr).1]

/-! ## What is memoised is right -/

/-- Every memoised root is the representative; a plot recorded as oversized has none. -/
structure Memo (g : DimGrid) : Prop where
  roots : ∀ k r, g.roots.lookup k = some r → groupRoot g k = some r
  oversized : ∀ k ∈ g.oversized, groupRoot g k = none

theorem memo_of_empty {g : DimGrid} (hr : g.roots = ∅) (ho : g.oversized = ∅) : Memo g := by
  constructor
  · intro k r h
    simp [hr] at h
  · intro k h
    simp [ho] at h

theorem lookup_foldl_insert (members : List PlotXZ) (best k : PlotXZ) (t : Table PlotXZ PlotXZ) :
    (members.foldl (fun t m => t.insert m best) t).lookup k = if k ∈ members then some best else t.lookup k := by
  induction members generalizing t with
  | nil => simp
  | cons m members ih =>
    rw [List.foldl_cons, ih, AList.lookup_insert_eq]
    by_cases hm : k ∈ members
    · simp [hm]
    · by_cases hk : k = m <;> simp [hm, hk]

/-- Two grids with the same geometry and merges, whatever they have memoised. -/
structure Same (g g' : DimGrid) : Prop where
  plotSize : g'.plotSize = g.plotSize
  roadWidth : g'.roadWidth = g.roadWidth
  merges : g'.merges = g.merges

theorem Same.refl (g : DimGrid) : Same g g := ⟨rfl, rfl, rfl⟩

theorem Same.trans {g g' g'' : DimGrid} (h : Same g g') (h' : Same g' g'') : Same g g'' :=
  ⟨h'.plotSize.trans h.plotSize, h'.roadWidth.trans h.roadWidth, h'.merges.trans h.merges⟩

theorem Same.connected {g g' : DimGrid} (h : Same g g') : connected g' = connected g := by
  funext a d
  simp only [PlotConfine.connected, claims, h.merges]

theorem Same.groupRoot {g g' : DimGrid} (h : Same g g') : groupRoot g' = groupRoot g := by
  have hedges : edges g' = edges g := by
    funext a
    simp only [edges, h.connected]
  funext id
  simp only [PlotConfine.groupRoot, hedges]

/-- The memo is invisible: the answer is the representative, and the memo stays right. -/
theorem groupRootLocked_spec (id : PlotXZ) {g : DimGrid} (h : Memo g) :
    (groupRootLocked id g).1 = groupRoot g id ∧ Same g (groupRootLocked id g).2 ∧ Memo (groupRootLocked id g).2 := by
  unfold groupRootLocked
  split
  · next hover => exact ⟨(h.oversized id hover).symm, .refl g, h⟩
  · split
    · next root hroot => exact ⟨(h.roots id root hroot).symm, .refl g, h⟩
    · split
      · next hiso =>
        have halone : groupRoot g id = some id := groupRoot_isolated fun d => by
          simpa using List.all_eq_true.mp hiso d (mem_dirs d)
        have hsame : Same g { g with roots := g.roots.insert id id } := ⟨rfl, rfl, rfl⟩
        refine ⟨halone.symm, hsame, ⟨fun k r hk => ?_, fun k hk => ?_⟩⟩
        · rw [hsame.groupRoot]
          rw [AList.lookup_insert_eq] at hk
          split at hk
          · next hkid =>
            cases hk
            rw [hkid, halone]
          · exact h.roots k r hk
        · rw [hsame.groupRoot]
          exact h.oversized k hk
      · split
        · next seen hsearch =>
          have hnone : groupRoot g id = none := by simp only [groupRoot, hsearch]
          have hsame : Same g { g with oversized := g.oversized ∪ seen } := ⟨rfl, rfl, rfl⟩
          refine ⟨hnone.symm, hsame, ⟨fun k r hk => ?_, fun k hk => ?_⟩⟩
          · rw [hsame.groupRoot]
            exact h.roots k r hk
          · rw [hsame.groupRoot]
            rcases Finset.mem_union.mp hk with hk | hk
            · exact h.oversized k hk
            · rw [← groupRoot_congr ((Search.search_error limit_pos hsearch).1 k hk), hnone]
        · next members hsearch =>
          have hsome : groupRoot g id = some (least id members) := by simp only [groupRoot, hsearch]
          have hsame : Same g { g with
              roots := members.foldl (fun t m => t.insert m (least id members)) g.roots } := ⟨rfl, rfl, rfl⟩
          refine ⟨hsome.symm, hsame, ⟨fun k r hk => ?_, fun k hk => ?_⟩⟩
          · rw [hsame.groupRoot]
            rw [lookup_foldl_insert] at hk
            split at hk
            · next hkm =>
              cases hk
              rw [← groupRoot_congr (((Search.search_ok limit_pos hsearch).1 k).mp hkm), hsome]
            · exact h.roots k r hk
          · rw [hsame.groupRoot]
            exact h.oversized k hk

/-! ## What the declarations mean -/

/-- What a dimension's current grid and merge table declare. -/
structure Declared where
  plotSize : Int
  roadWidth : Int
  mask : PlotXZ → Option Nat

def DimGrid.declared (g : DimGrid) : Declared := ⟨g.plotSize, g.roadWidth, g.merges.lookup⟩

/-- The plot claims the merge in this direction. -/
def Declared.Claims (d : Declared) (a : PlotXZ) (dir : Fin 4) : Prop := ∃ m, d.mask a = some m ∧ m &&& bitOf dir ≠ 0

/-- The plot and its neighbour are merged. -/
def Declared.Merged (d : Declared) (a : PlotXZ) (dir : Fin 4) : Prop :=
  d.Claims a dir ∨ d.Claims (neighbourOf a dir) (dir + 2)

/-- The column belongs to the plot: it lies on it, or on a road or crossing whose plots are all merged. -/
structure Declared.Owns (d : Declared) (x z : Int) (a : PlotXZ) : Prop where
  cell : 0 < d.plotSize + d.roadWidth
  base : a = ⟨x / (d.plotSize + d.roadWidth), z / (d.plotSize + d.roadWidth)⟩
  east : x % (d.plotSize + d.roadWidth) ≥ d.plotSize → d.Merged a 1
  south : z % (d.plotSize + d.roadWidth) ≥ d.plotSize → d.Merged a 2
  crossing : x % (d.plotSize + d.roadWidth) ≥ d.plotSize → z % (d.plotSize + d.roadWidth) ≥ d.plotSize →
    d.Merged (neighbourOf a 1) 2 ∧ d.Merged (neighbourOf a 2) 1

/-- The plots are joined by merges. -/
abbrev Declared.Joined (d : Declared) : PlotXZ → PlotXZ → Prop :=
  Relation.ReflTransGen fun a b => ∃ dir, d.Merged a dir ∧ b = neighbourOf a dir

/-- Joined, in a group of a size that is still walked. -/
def Declared.Group (d : Declared) (a b : PlotXZ) : Prop :=
  d.Joined a b ∧ ∃ s : Finset PlotXZ, s.card ≤ kGroupScanLimit ∧ ∀ c, d.Joined a c → c ∈ s

/-- One area: both on public road, or both on one plot or one group; everything where no grid is declared. -/
def SameArea (d : Option Declared) (p q : Int × Int) : Prop :=
  match d with
  | none => True
  | some d =>
    ((¬∃ a, d.Owns p.1 p.2 a) ∧ ¬∃ b, d.Owns q.1 q.2 b) ∨
      ∃ a b, d.Owns p.1 p.2 a ∧ d.Owns q.1 q.2 b ∧ (a = b ∨ d.Group a b)

theorem connected_iff (g : DimGrid) (a : PlotXZ) (dir : Fin 4) :
    connected g a dir = true ↔ g.declared.Merged a dir := by
  have hclaims : ∀ a dir, claims g a dir = true ↔ g.declared.Claims a dir := by
    intro a dir
    unfold claims
    split
    · next h => simp [Declared.Claims, DimGrid.declared, h]
    · next mask h => simp [Declared.Claims, DimGrid.declared, h]
  rw [connected, Bool.or_eq_true, hclaims, hclaims]
  rfl

theorem linked_iff (g : DimGrid) (a b : PlotXZ) : Linked g a b ↔ g.declared.Joined a b := by
  have : (fun x y => y ∈ edges g x) = fun a b => ∃ dir, g.declared.Merged a dir ∧ b = neighbourOf a dir := by
    funext a b
    simp only [mem_edges, connected_iff]
  rw [Linked, Search.Conn, this]

/-- C++ division truncates; corrected for negative values it is floor division. -/
theorem floorDivLocal_eq_ediv {value divisor : Int} (h : 0 < divisor) :
    floorDivLocal value divisor = value / divisor := by
  have hz : divisor.natAbs = divisor := Int.natAbs_of_nonneg h.le
  have hr := Int.emod_nonneg value (Int.ne_of_gt h)
  have hlt := Int.emod_lt_of_pos value h
  have hdvd : divisor ∣ value ↔ value % divisor = 0 := Int.dvd_iff_emod_eq_zero
  have hneg : (value < 0) ≠ (divisor < 0) ↔ value < 0 := by
    simp only [ne_eq, eq_iff_iff]
    omega
  simp only [floorDivLocal, hneg, Int.tdiv_eq_ediv, Int.tmod_eq_emod, Int.sign_eq_one_of_pos h, hdvd]
  split_ifs <;> omega

theorem owningPlotLocked_iff (g : DimGrid) (x z : Int) (a : PlotXZ) :
    owningPlotLocked g x z = some a ↔ g.declared.Owns x z a := by
  unfold owningPlotLocked
  by_cases hcell : g.plotSize + g.roadWidth ≤ 0
  · simp only [hcell, if_true]
    constructor
    · rintro ⟨⟩
    · intro h
      have := h.cell
      simp only [DimGrid.declared] at this
      omega
  · have hpos : 0 < g.plotSize + g.roadWidth := by omega
    simp only [hcell, if_false, floorDivLocal_eq_ediv hpos, positiveMod_eq_emod hpos]
    generalize hb : (⟨x / (g.plotSize + g.roadWidth), z / (g.plotSize + g.roadWidth)⟩ : PlotXZ) = base
    have howns : g.declared.Owns x z a ↔ a = base ∧
        (x % (g.plotSize + g.roadWidth) ≥ g.plotSize → connected g base 1 = true) ∧
        (z % (g.plotSize + g.roadWidth) ≥ g.plotSize → connected g base 2 = true) ∧
        (x % (g.plotSize + g.roadWidth) ≥ g.plotSize → z % (g.plotSize + g.roadWidth) ≥ g.plotSize →
          connected g (neighbourOf base 1) 2 = true ∧ connected g (neighbourOf base 2) 1 = true) := by
      simp only [connected_iff]
      constructor
      · rintro ⟨_, rfl, he, hs, hc⟩
        subst hb
        exact ⟨rfl, he, hs, hc⟩
      · rintro ⟨rfl, he, hs, hc⟩
        exact ⟨hpos, hb.symm, he, hs, hc⟩
    rw [howns]
    by_cases hx : x % (g.plotSize + g.roadWidth) ≥ g.plotSize <;>
      by_cases hz : z % (g.plotSize + g.roadWidth) ≥ g.plotSize <;>
      simp only [hx, hz, not_true_eq_false, not_false_eq_true, and_self, and_true, true_and, and_false, if_true,
        if_false, forall_const, false_implies, Bool.not_eq_true', Bool.and_eq_false_imp] <;>
      cases connected g base 1 <;> cases connected g base 2 <;> cases connected g (neighbourOf base 1) 2 <;>
      cases connected g (neighbourOf base 2) 1 <;> simp [eq_comm]

/-- Two plots have one representative exactly when they are a group. -/
theorem group_iff (g : DimGrid) (a b : PlotXZ) :
    (∃ r, groupRoot g a = some r ∧ groupRoot g b = some r) ↔ g.declared.Group a b := by
  simp only [Declared.Group, ← linked_iff]
  constructor
  · rintro ⟨r, ha, hb⟩
    obtain ⟨har, hsmall⟩ := groupRoot_some ha
    exact ⟨har.trans (groupRoot_some hb).1.symm, hsmall⟩
  · rintro ⟨hab, s, hcard, hs⟩
    obtain ⟨r, hr⟩ := groupRoot_isSome hcard hs
    exact ⟨r, hr, by rw [← groupRoot_congr hab, hr]⟩

theorem sameAreaLocked_spec (x₁ z₁ x₂ z₂ : Int) {g : DimGrid} (h : Memo g) :
    ((sameAreaLocked x₁ z₁ x₂ z₂ g).1 = true ↔ SameArea (some g.declared) (x₁, z₁) (x₂, z₂)) ∧
      Same g (sameAreaLocked x₁ z₁ x₂ z₂ g).2 ∧ Memo (sameAreaLocked x₁ z₁ x₂ z₂ g).2 := by
  have hown := owningPlotLocked_iff g
  unfold sameAreaLocked
  simp only [SameArea, ← hown]
  cases owningPlotLocked g x₁ z₁ with
  | none =>
    cases owningPlotLocked g x₂ z₂ with
    | none => exact ⟨by simp, .refl g, h⟩
    | some b => exact ⟨by simp, .refl g, h⟩
  | some a =>
    cases owningPlotLocked g x₂ z₂ with
    | none => exact ⟨by simp, .refl g, h⟩
    | some b =>
      have hgoal : ((¬∃ c, some a = some c) ∧ ¬∃ c, some b = some c) ∨
          (∃ c d, some a = some c ∧ some b = some d ∧ (c = d ∨ g.declared.Group c d)) ↔
          a = b ∨ ∃ r, groupRoot g a = some r ∧ groupRoot g b = some r := by
        simp [group_iff]
      rw [hgoal]
      by_cases hab : a = b
      · simp only [hab, if_true, true_or, and_self, true_and]
        exact ⟨.refl g, h⟩
      · simp only [hab, if_false, false_or]
        obtain ⟨ha, hsame, hmemo⟩ := groupRootLocked_spec a h
        generalize groupRootLocked a g = r at ha hsame hmemo
        obtain ⟨ra, g'⟩ := r
        simp only at ha hsame hmemo
        cases ra with
        | none => exact ⟨by simp [← ha], hsame, hmemo⟩
        | some ra =>
          simp only
          obtain ⟨hb, hsame', hmemo'⟩ := groupRootLocked_spec b hmemo
          rw [hsame.groupRoot] at hb
          generalize groupRootLocked b g' = r at hb hsame' hmemo'
          obtain ⟨rb, g''⟩ := r
          simp only at hb hsame' hmemo'
          cases rb with
          | none => exact ⟨by simp [← ha, ← hb], hsame.trans hsame', hmemo'⟩
          | some rb =>
            refine ⟨?_, hsame.trans hsame', hmemo'⟩
            rw [← ha, ← hb]
            constructor
            · intro hr
              exact ⟨ra, rfl, by rw [beq_iff_eq.mp hr]⟩
            · rintro ⟨r, hra, hrb⟩
              rw [Option.some.inj hra, Option.some.inj hrb]
              simp

/-! ## Runs -/

/-- The operations of the interface, the queries included. -/
inductive Op where
  | setPlotGrid (dimension plotSize roadWidth : Int)
  | clearPlotGrid (dimension : Int)
  | setPlotMerges (dimension : Int) (entries : List (Int × Int × Int))
  | owningPlot (dimension x z : Int)
  | sameArea (dimension x₁ z₁ x₂ z₂ : Int)
  deriving DecidableEq, Repr

def exec (w : World) (op : Op) : World :=
  match op with
  | .setPlotGrid dimension plotSize roadWidth => setPlotGrid dimension plotSize roadWidth w
  | .clearPlotGrid dimension => clearPlotGrid dimension w
  | .setPlotMerges dimension entries => setPlotMerges dimension entries w
  | .owningPlot _ _ _ => w
  | .sameArea dimension x₁ z₁ x₂ z₂ => (sameArea dimension x₁ z₁ x₂ z₂ w).2

def afterOps (ops : List Op) : World := ops.foldl exec World.initial

/-- What the interface has declared for a dimension. -/
def World.declared (w : World) (dimension : Int) : Option Declared := (w.grids.lookup dimension).map DimGrid.declared

/-- Every memo is right, and the counter of the lock-free path counts the grids. -/
structure Valid (w : World) : Prop where
  memo : ∀ dimension g, w.grids.lookup dimension = some g → Memo g
  count : w.gGridCount = w.grids.countIf fun _ _ => true

theorem valid_initial : Valid World.initial := by
  constructor
  · intro dimension g h
    simp [World.initial] at h
  · rfl

theorem Valid.replace {w : World} (h : Valid w) {dimension : Int} {g g' : DimGrid}
    (hl : w.grids.lookup dimension = some g) (hm : Memo g') :
    Valid { w with grids := w.grids.insert dimension g' } := by
  constructor
  · intro d g'' hl'
    rw [AList.lookup_insert_eq] at hl'
    split at hl'
    · cases hl'
      exact hm
    · exact h.memo d g'' hl'
  · simp only [AList.countIf_insert_of_lookup (fun _ _ => true) g' hl rfl]
    exact h.count

theorem Valid.clear {w : World} (h : Valid w) (dimension : Int) : Valid (clearPlotGrid dimension w) := by
  unfold clearPlotGrid
  split
  · exact h
  · next g hl =>
    constructor
    · intro d g' hl'
      simp only [AList.lookup_erase_eq] at hl'
      split at hl'
      · cases hl'
      · exact h.memo d g' hl'
    · have := AList.countIf_erase_of_lookup (fun _ _ => true) hl
      simp only [h.count, this]
      simp

theorem memo_resize (plotSize roadWidth : Int) {g : DimGrid} (h : Memo g) : Memo (g.resize plotSize roadWidth) := by
  unfold DimGrid.resize
  split
  · exact memo_of_empty rfl rfl
  · exact h

theorem valid_exec {w : World} (h : Valid w) (op : Op) : Valid (exec w op) := by
  cases op with
  | setPlotGrid dimension plotSize roadWidth =>
    simp only [exec, setPlotGrid]
    split
    · exact h.clear dimension
    · split
      · next hl =>
        constructor
        · intro d g hl'
          simp only [AList.lookup_insert_eq] at hl'
          split at hl'
          · cases hl'
            exact memo_resize _ _ (memo_of_empty rfl rfl)
          · exact h.memo d g hl'
        · have hnot : dimension ∉ w.grids := AList.lookup_eq_none.mp hl
          rw [AList.countIf_insert_of_notMem _ _ hnot, h.count]
          simp
      · next g hl => exact h.replace hl (memo_resize _ _ (h.memo _ _ hl))
  | clearPlotGrid dimension => exact h.clear dimension
  | setPlotMerges dimension entries =>
    simp only [exec, setPlotMerges]
    split
    · exact h
    · next g hl => exact h.replace hl (memo_of_empty rfl rfl)
  | owningPlot => exact h
  | sameArea dimension x₁ z₁ x₂ z₂ =>
    simp only [exec, sameArea]
    split
    · exact h
    · split
      · exact h
      · next g hl => exact h.replace hl (sameAreaLocked_spec _ _ _ _ (h.memo _ _ hl)).2.2

theorem valid_afterOps (ops : List Op) : Valid (afterOps ops) :=
  Runs.foldl_invariant Valid valid_initial fun _ op h => valid_exec h op

/-- The lock-free path is taken only when no dimension has a grid. -/
theorem Valid.lookup_of_zero {w : World} (h : Valid w) (h₀ : w.gGridCount = 0) (dimension : Int) :
    w.grids.lookup dimension = none := by
  have hzero : (w.grids.countIf fun _ _ => true) = 0 := by
    have := h.count
    omega
  cases hl : w.grids.lookup dimension with
  | none => rfl
  | some g => simpa using (AList.countIf_eq_zero _ _).mp hzero dimension g hl

theorem Valid.sameArea_iff {w : World} (h : Valid w) (dimension : Int) (p q : Int × Int) :
    (sameArea dimension p.1 p.2 q.1 q.2 w).1 = true ↔ SameArea (w.declared dimension) p q := by
  unfold sameArea
  split
  · next h₀ => simp [World.declared, h.lookup_of_zero h₀, SameArea]
  · split
    · next hl => simp [World.declared, hl, SameArea]
    · next g hl =>
      rw [World.declared, hl]
      exact (sameAreaLocked_spec _ _ _ _ (h.memo _ _ hl)).1

/-- A query changes nothing that is declared. -/
theorem declared_sameArea {w : World} (h : Valid w) (dimension x₁ z₁ x₂ z₂ d : Int) :
    (sameArea dimension x₁ z₁ x₂ z₂ w).2.declared d = w.declared d := by
  unfold sameArea
  split
  · rfl
  · split
    · rfl
    · next g hl =>
      have hsame := (sameAreaLocked_spec x₁ z₁ x₂ z₂ (h.memo _ _ hl)).2.1
      simp only [World.declared, AList.lookup_insert_eq]
      split
      · next hd =>
        rw [hd, hl]
        simp only [Option.map_some, DimGrid.declared, hsame.plotSize, hsame.roadWidth, hsame.merges]
      · rfl

/-! ## Areas are classes -/

theorem Declared.Merged.back {d : Declared} {a : PlotXZ} {dir : Fin 4} (h : d.Merged a dir) :
    d.Merged (neighbourOf a dir) (dir + 2) := by
  have hdir : dir + 2 + 2 = dir := by
    match dir with
    | 0 | 1 | 2 | 3 => rfl
  unfold Merged
  rw [neighbourOf_back, hdir]
  exact h.symm

theorem Declared.Joined.symm {d : Declared} {a b : PlotXZ} (h : d.Joined a b) : d.Joined b a := by
  induction h with
  | refl => exact .refl
  | tail _ hedge ih =>
    obtain ⟨dir, hm, rfl⟩ := hedge
    exact (Relation.ReflTransGen.single ⟨dir + 2, hm.back, (neighbourOf_back _ dir).symm⟩).trans ih

theorem Declared.Group.symm {d : Declared} {a b : PlotXZ} (h : d.Group a b) : d.Group b a := by
  obtain ⟨hj, s, hcard, hs⟩ := h
  exact ⟨Declared.Joined.symm hj, s, hcard, fun c hc => hs c (hj.trans hc)⟩

theorem Declared.Owns.unique {d : Declared} {x z : Int} {a b : PlotXZ} (h : d.Owns x z a) (h' : d.Owns x z b) : a = b :=
  h.base.trans h'.base.symm

theorem sameArea_equivalence (d : Option Declared) : Equivalence (SameArea d) := by
  cases d with
  | none => exact ⟨fun _ => trivial, fun _ => trivial, fun _ _ => trivial⟩
  | some d =>
    refine ⟨fun p => ?_, fun h => ?_, fun h h' => ?_⟩
    · by_cases hp : ∃ a, d.Owns p.1 p.2 a
      · obtain ⟨a, ha⟩ := hp
        exact .inr ⟨a, a, ha, ha, .inl rfl⟩
      · exact .inl ⟨hp, hp⟩
    · rcases h with ⟨hp, hq⟩ | ⟨a, b, ha, hb, hab⟩
      · exact .inl ⟨hq, hp⟩
      · exact .inr ⟨b, a, hb, ha, hab.imp Eq.symm Declared.Group.symm⟩
    · rcases h with ⟨hp, hq⟩ | ⟨a, b, ha, hb, hab⟩
      · rcases h' with ⟨_, hr⟩ | ⟨c, _, hc, _⟩
        · exact .inl ⟨hp, hr⟩
        · exact absurd ⟨c, hc⟩ hq
      · rcases h' with ⟨hq, _⟩ | ⟨b', c, hb', hc, hbc⟩
        · exact absurd ⟨b, hb⟩ hq
        · obtain rfl := hb.unique hb'
          refine .inr ⟨a, c, ha, hc, ?_⟩
          rcases hab with rfl | ⟨hj, s, hcard, hs⟩
          · exact hbc
          · rcases hbc with rfl | ⟨hj', _⟩
            · exact .inr ⟨hj, s, hcard, hs⟩
            · exact .inr ⟨hj.trans hj', s, hcard, hs⟩

/-- After any sequence of declarations and queries, `sameArea` answers what the
dimension's current grid and merges mean, and that is an equivalence on all
block positions. -/
theorem sameArea_declared (ops : List Op) (dimension : Int) :
    (∀ p q, (sameArea dimension p.1 p.2 q.1 q.2 (afterOps ops)).1 = true ↔
      SameArea ((afterOps ops).declared dimension) p q) ∧
    Equivalence fun p q : Int × Int => (sameArea dimension p.1 p.2 q.1 q.2 (afterOps ops)).1 = true := by
  have hiff := (valid_afterOps ops).sameArea_iff dimension
  refine ⟨hiff, ?_⟩
  simp only [hiff]
  exact sameArea_equivalence _

/-! ## Agreement with the terrain -/

open PlotLayout (Layout)

/-- Block coordinates are `int`s. -/
def IsInt32 (n : Int) : Prop := -2 ^ 31 ≤ n ∧ n < 2 ^ 31

/-- No merge is declared in the dimension. -/
def NoMerges (w : World) (dimension : Int) : Prop := ∀ d, w.declared dimension = some d → ∀ a, d.mask a = none

/-- `setPlotGrid`'s own sanitising of the two sizes. -/
theorem declared_setPlotGrid (dimension : Int) {plotSize : Int} (roadWidth : Int) (w : World) (hp : 0 < plotSize) :
    ∃ mask, (setPlotGrid dimension plotSize roadWidth w).declared dimension =
        some ⟨min plotSize 512, min (max roadWidth 0) 64, mask⟩ ∧
      (NoMerges w dimension → ∀ a, mask a = none) := by
  have hp' : ¬plotSize ≤ 0 := by omega
  have hsize : (if plotSize > 512 then 512 else plotSize) = min plotSize 512 := by omega
  have hroad : (if (if roadWidth < 0 then 0 else roadWidth) > 64 then 64 else if roadWidth < 0 then 0 else roadWidth) =
      min (max roadWidth 0) 64 := by omega
  have hresize : ∀ g : DimGrid, (g.resize (min plotSize 512) (min (max roadWidth 0) 64)).declared =
      ⟨min plotSize 512, min (max roadWidth 0) 64, g.merges.lookup⟩ := by
    intro g
    unfold DimGrid.resize
    split
    · rfl
    · next h =>
      simp only [not_or, ne_eq, not_not] at h
      simp only [DimGrid.declared, h.1, h.2]
  simp only [setPlotGrid, hp', if_false, hsize, hroad]
  cases hl : w.grids.lookup dimension with
  | none =>
    exact ⟨fun _ => none, by simp [World.declared, hresize], fun _ _ => rfl⟩
  | some g =>
    exact ⟨g.merges.lookup, by simp [World.declared, hresize],
      fun hm a => hm g.declared (by simp [World.declared, hl]) a⟩

/-- Without merges a column is on a plot or on the road, and nothing in between. -/
theorem owns_of_noMerges {d : Declared} (hm : ∀ a, d.mask a = none) (hcell : 0 < d.plotSize + d.roadWidth) (x z : Int) :
    (¬∃ a, d.Owns x z a) ↔
      x % (d.plotSize + d.roadWidth) ≥ d.plotSize ∨ z % (d.plotSize + d.roadWidth) ≥ d.plotSize := by
  have hmerged : ∀ a dir, ¬d.Merged a dir := by
    intro a dir h
    rcases h with ⟨m, h, _⟩ | ⟨m, h, _⟩
    · rw [hm] at h
      cases h
    · rw [hm] at h
      cases h
  constructor
  · intro h
    by_contra hroad
    exact h ⟨_, hcell, rfl, fun hx => absurd (.inl hx) hroad, fun hz => absurd (.inr hz) hroad,
      fun hx _ => absurd (.inl hx) hroad⟩
  · rintro (hx | hz) ⟨a, ha⟩
    · exact hmerged _ _ (ha.east hx)
    · exact hmerged _ _ (ha.south hz)

theorem owningPlot_none_iff {w : World} (h : Valid w) {dimension : Int} {d : Declared}
    (hd : w.declared dimension = some d) (x z : Int) : owningPlot dimension x z w = none ↔ ¬∃ a, d.Owns x z a := by
  obtain ⟨g, hl, rfl⟩ := Option.map_eq_some_iff.mp hd
  have hcount : w.gGridCount ≠ 0 := fun h₀ => by
    rw [h.lookup_of_zero h₀] at hl
    cases hl
  simp only [owningPlot, hcount, if_false, hl, ← owningPlotLocked_iff]
  cases owningPlotLocked g x z <;> simp

/-- Terrain and confinement, given the same raw sizes. -/
def RoadsAgree (w : World) (dimension : Int) (layout : Layout) : Prop :=
  ∀ x z, IsInt32 x → IsInt32 z → (layout.clamp.area x z = .road ↔
    owningPlot dimension x z (setPlotGrid dimension layout.plotSize layout.roadWidth w) = none)

theorem roadsAgree_iff {w : World} (h : Valid w) (dimension : Int) (layout : Layout) (hp : 0 < layout.plotSize)
    (hm : NoMerges w dimension) : RoadsAgree w dimension layout ↔ 4 ≤ layout.plotSize ∨ layout.roadWidth ≤ 0 := by
  obtain ⟨mask, hd, hmask⟩ := declared_setPlotGrid dimension layout.roadWidth w hp
  have hvalid : Valid (setPlotGrid dimension layout.plotSize layout.roadWidth w) :=
    valid_exec h (.setPlotGrid dimension layout.plotSize layout.roadWidth)
  have hsane := layout.sane_clamp
  have hsize : layout.clamp.plotSize = max 4 (min layout.plotSize 512) := by
    simp only [Layout.clamp]
    omega
  have hroad : layout.clamp.roadWidth = min (max layout.roadWidth 0) 64 := by
    simp only [Layout.clamp]
    omega
  have hkey : ∀ x z, (layout.clamp.area x z = .road ↔
      owningPlot dimension x z (setPlotGrid dimension layout.plotSize layout.roadWidth w) = none) ↔
      ((x % layout.clamp.cellSize ≥ layout.clamp.plotSize ∨ z % layout.clamp.cellSize ≥ layout.clamp.plotSize) ↔
        (x % (min layout.plotSize 512 + min (max layout.roadWidth 0) 64) ≥ min layout.plotSize 512 ∨
          z % (min layout.plotSize 512 + min (max layout.roadWidth 0) 64) ≥ min layout.plotSize 512)) := by
    intro x z
    rw [hsane.area_road, owningPlot_none_iff hvalid hd, owns_of_noMerges (hmask hm) (by simp only; omega)]
  simp only [RoadsAgree, hkey, Layout.cellSize, hsize, hroad]
  constructor
  · intro hagree
    by_contra hsmall
    -- the first road column of the confinement grid is still inside the widened plot
    have h₁ : layout.plotSize < 4 ∧ 0 < layout.roadWidth := by omega
    have hx := hagree layout.plotSize 0 (by unfold IsInt32; omega) (by unfold IsInt32; omega)
    have e₁ : min layout.plotSize 512 = layout.plotSize := by omega
    have e₂ : max 4 layout.plotSize = 4 := by omega
    have hr : 0 < min (max layout.roadWidth 0) 64 := by omega
    generalize min (max layout.roadWidth 0) 64 = r at hx hr
    have m₁ : layout.plotSize % (4 + r) = layout.plotSize := Int.emod_eq_of_lt (by omega) (by omega)
    have m₂ : layout.plotSize % (layout.plotSize + r) = layout.plotSize := Int.emod_eq_of_lt (by omega) (by omega)
    simp only [e₁, e₂, m₁, m₂, Int.zero_emod] at hx
    omega
  · intro hcond x z _ _
    rcases hcond with h₄ | h₀
    · have e : max 4 (min layout.plotSize 512) = min layout.plotSize 512 := by omega
      rw [e]
    · have e : min (max layout.roadWidth 0) 64 = 0 := by omega
      rw [e, Int.add_zero, Int.add_zero]
      have hlt : ∀ n m : Int, 0 < m → ¬n % m ≥ m := fun n m hm => by
        have := Int.emod_lt_of_pos n hm
        omega
      have hm₁ : 0 < max 4 (min layout.plotSize 512) := by omega
      have hm₂ : 0 < min layout.plotSize 512 := by omega
      simp only [hlt _ _ hm₁, hlt _ _ hm₂]

/-- For every raw size and road width given to both sides, with no merges, the
terrain and the grid agree on every column exactly when the plot size is at
least 4 or there is no road. -/
theorem road_agreement (ops : List Op) (dimension : Int) (layout : Layout) (hp : 0 < layout.plotSize)
    (hm : NoMerges (afterOps ops) dimension) :
    RoadsAgree (afterOps ops) dimension layout ↔ 4 ≤ layout.plotSize ∨ layout.roadWidth ≤ 0 :=
  roadsAgree_iff (valid_afterOps ops) dimension layout hp hm

theorem road_agreement_default :
    RoadsAgree (afterOps []) 3 Layout.default ↔ 4 ≤ Layout.default.plotSize ∨ Layout.default.roadWidth ≤ 0 :=
  road_agreement [] 3 Layout.default (by decide) (by
    intro d hd
    simp [afterOps, World.declared, World.initial] at hd)

/-- A plot of 3 blocks: the generator widens it to 4, the confinement does not. -/
theorem small_plot_disagrees :
    let layout := { Layout.default with plotSize := 3, roadWidth := 1 }
    layout.clamp.area 3 0 ≠ .road ∧ owningPlot 3 3 0 (setPlotGrid 3 3 1 (afterOps [])) = none ∧
      ¬RoadsAgree (afterOps []) 3 layout := by
  refine ⟨by decide, by decide, fun h => ?_⟩
  have := (h 3 0 (by simp [IsInt32]) (by simp [IsInt32])).mpr (by decide)
  exact absurd this (by decide)

end PlotConfine
