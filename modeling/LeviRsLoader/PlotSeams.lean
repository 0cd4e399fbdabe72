import LeviRsLoader.PlotGroups

/-!
# Squares, seams and crossings

Who owns a cell, said on the map: a plot square, the strips of road between two plots and the
crossings between four. A seam belongs to the plot before it as soon as all plots around it are
merged, and which of them is chosen makes no difference to `sameArea`.
-/
namespace PlotSeams

open PlotConfine PlotGroups

/-! ## The map -/

section Map

variable (d : Declared)

/-- The width of a plot and of the road after it. -/
abbrev cell : Int := d.plotSize + d.roadWidth

/-- The columns of plot `n` on one axis. -/
def InPlot (n v : Int) : Prop := n * cell d ≤ v ∧ v < n * cell d + d.plotSize

/-- The columns of the road between plot `n` and the next one. -/
def InRoad (n v : Int) : Prop := n * cell d + d.plotSize ≤ v ∧ v < (n + 1) * cell d

def Square (p : PlotXZ) (x z : Int) : Prop := InPlot d p.x x ∧ InPlot d p.z z

/-- The strip between a plot and its eastern neighbour. -/
def EastRoad (p : PlotXZ) (x z : Int) : Prop := InRoad d p.x x ∧ InPlot d p.z z

/-- The strip between a plot and its southern neighbour. -/
def SouthRoad (p : PlotXZ) (x z : Int) : Prop := InPlot d p.x x ∧ InRoad d p.z z

/-- Where the roads east and south of a plot meet. -/
def Crossing (p : PlotXZ) (x z : Int) : Prop := InRoad d p.x x ∧ InRoad d p.z z

/-- The plot with the road around it reaches over the column. -/
def Near (n v : Int) : Prop := n * cell d - d.roadWidth ≤ v ∧ v < n * cell d + d.plotSize + d.roadWidth

/-- The cell is one of the plot's own or of the road around it. -/
def Borders (p : PlotXZ) (x z : Int) : Prop := Near d p.x x ∧ Near d p.z z

/-- The four plots and the four edges around a crossing. -/
structure AllMerged (p : PlotXZ) : Prop where
  east : d.Merged p 1
  south : d.Merged p 2
  north_east : d.Merged (neighbourOf p 1) 2
  south_west : d.Merged (neighbourOf p 2) 1

end Map

section Axis

variable {d : Declared} {n v : Int}

theorem ediv_of_between (h : n * cell d ≤ v) (h' : v < (n + 1) * cell d) :
    v / cell d = n ∧ v % cell d = v - n * cell d := by
  have hsucc : (n + 1) * cell d = n * cell d + cell d := by rw [Int.add_mul, Int.one_mul]
  have hpos : 0 < cell d := by omega
  refine (Int.ediv_emod_unique hpos).mpr ⟨?_, by omega, by omega⟩
  rw [Int.mul_comm]
  omega

theorem InPlot.ediv (h : InPlot d n v) (hroad : 0 ≤ d.roadWidth) : v / cell d = n ∧ v % cell d < d.plotSize := by
  obtain ⟨hlo, hhi⟩ := h
  have hcell : cell d = d.plotSize + d.roadWidth := rfl
  have hsucc : (n + 1) * cell d = n * cell d + cell d := by rw [Int.add_mul, Int.one_mul]
  obtain ⟨hdiv, hmod⟩ := ediv_of_between hlo (by omega)
  exact ⟨hdiv, by omega⟩

theorem InRoad.ediv (h : InRoad d n v) (hplot : 0 < d.plotSize) : v / cell d = n ∧ d.plotSize ≤ v % cell d := by
  obtain ⟨hlo, hhi⟩ := h
  obtain ⟨hdiv, hmod⟩ := ediv_of_between (by omega) hhi
  exact ⟨hdiv, by omega⟩

/-- A plot reaches over the columns of its own stretch and of the road before it. -/
theorem Near.ediv (h : Near d n v) (hplot : 0 < d.plotSize) :
    n = v / cell d ∨ n = v / cell d + 1 ∧ d.plotSize ≤ v % cell d := by
  obtain ⟨hlo, hhi⟩ := h
  have hcell : cell d = d.plotSize + d.roadWidth := rfl
  have hsucc : (n + 1) * cell d = n * cell d + cell d := by rw [Int.add_mul, Int.one_mul]
  by_cases hown : n * cell d ≤ v
  · exact .inl (ediv_of_between hown (by omega)).1.symm
  · have hpred : (n - 1) * cell d = n * cell d - cell d := by rw [Int.sub_mul, Int.one_mul]
    have hpred' : (n - 1 + 1) * cell d = n * cell d := by rw [Int.sub_add_cancel]
    obtain ⟨hdiv, hmod⟩ := ediv_of_between (d := d) (n := n - 1) (v := v) (by omega) (by omega)
    exact .inr ⟨by omega, by omega⟩

/-- Plots and roads fill the axis. -/
theorem inPlot_or_inRoad (hcell : 0 < cell d) (v : Int) : InPlot d (v / cell d) v ∨ InRoad d (v / cell d) v := by
  have hmod := Int.emod_nonneg v (Int.ne_of_gt hcell)
  have hlt := Int.emod_lt_of_pos v hcell
  have hdiv := Int.mul_ediv_add_emod v (cell d)
  have hcomm : cell d * (v / cell d) = v / cell d * cell d := Int.mul_comm ..
  have hsucc : (v / cell d + 1) * cell d = v / cell d * cell d + cell d := by rw [Int.add_mul, Int.one_mul]
  by_cases hplot : v < v / cell d * cell d + d.plotSize
  · exact .inl ⟨by omega, hplot⟩
  · exact .inr ⟨by omega, by omega⟩

end Axis

/-! ## Owners -/

section Owners

variable {d : Declared} {p : PlotXZ} {x z : Int}

/-- What the owner rule says about the cells of one stretch. -/
theorem owns_iff (hplot : 0 < d.plotSize) (hroad : 0 ≤ d.roadWidth) (hx : x / cell d = p.x) (hz : z / cell d = p.z)
    (a : PlotXZ) :
    d.Owns x z a ↔ a = p ∧ (d.plotSize ≤ x % cell d → d.Merged p 1) ∧ (d.plotSize ≤ z % cell d → d.Merged p 2)
      ∧ (d.plotSize ≤ x % cell d → d.plotSize ≤ z % cell d →
        d.Merged (neighbourOf p 1) 2 ∧ d.Merged (neighbourOf p 2) 1) := by
  constructor
  · intro h
    have ha : a = p := by rw [h.base, hx, hz]
    subst ha
    exact ⟨rfl, h.east, h.south, h.crossing⟩
  · rintro ⟨rfl, heast, hsouth, hcrossing⟩
    exact ⟨by omega, by rw [hx, hz], heast, hsouth, hcrossing⟩

theorem owns_square (hplot : 0 < d.plotSize) (hroad : 0 ≤ d.roadWidth) (h : Square d p x z) (a : PlotXZ) :
    d.Owns x z a ↔ a = p := by
  obtain ⟨hx, hx'⟩ := h.1.ediv hroad
  obtain ⟨hz, hz'⟩ := h.2.ediv hroad
  rw [owns_iff hplot hroad hx hz, and_iff_left]
  exact ⟨fun hge => absurd hx' (Int.not_lt.mpr hge), fun hge => absurd hz' (Int.not_lt.mpr hge),
    fun hge => absurd hx' (Int.not_lt.mpr hge)⟩

theorem owns_eastRoad (hplot : 0 < d.plotSize) (hroad : 0 ≤ d.roadWidth) (h : EastRoad d p x z) (a : PlotXZ) :
    d.Owns x z a ↔ a = p ∧ d.Merged p 1 := by
  obtain ⟨hx, hx'⟩ := h.1.ediv hplot
  obtain ⟨hz, hz'⟩ := h.2.ediv hroad
  rw [owns_iff hplot hroad hx hz]
  constructor
  · rintro ⟨ha, heast, -⟩
    exact ⟨ha, heast hx'⟩
  · rintro ⟨ha, heast⟩
    exact ⟨ha, fun _ => heast, fun hge => absurd hz' (Int.not_lt.mpr hge), fun _ hge => absurd hz' (Int.not_lt.mpr hge)⟩

theorem owns_southRoad (hplot : 0 < d.plotSize) (hroad : 0 ≤ d.roadWidth) (h : SouthRoad d p x z) (a : PlotXZ) :
    d.Owns x z a ↔ a = p ∧ d.Merged p 2 := by
  obtain ⟨hx, hx'⟩ := h.1.ediv hroad
  obtain ⟨hz, hz'⟩ := h.2.ediv hplot
  rw [owns_iff hplot hroad hx hz]
  constructor
  · rintro ⟨ha, -, hsouth, -⟩
    exact ⟨ha, hsouth hz'⟩
  · rintro ⟨ha, hsouth⟩
    exact ⟨ha, fun hge => absurd hx' (Int.not_lt.mpr hge), fun _ => hsouth, fun hge => absurd hx' (Int.not_lt.mpr hge)⟩

theorem owns_crossing (hplot : 0 < d.plotSize) (hroad : 0 ≤ d.roadWidth) (h : Crossing d p x z) (a : PlotXZ) :
    d.Owns x z a ↔ a = p ∧ AllMerged d p := by
  obtain ⟨hx, hx'⟩ := h.1.ediv hplot
  obtain ⟨hz, hz'⟩ := h.2.ediv hplot
  rw [owns_iff hplot hroad hx hz]
  constructor
  · rintro ⟨ha, heast, hsouth, hcrossing⟩
    exact ⟨ha, heast hx', hsouth hz', (hcrossing hx' hz').1, (hcrossing hx' hz').2⟩
  · rintro ⟨ha, hall⟩
    exact ⟨ha, fun _ => hall.east, fun _ => hall.south, fun _ _ => ⟨hall.north_east, hall.south_west⟩⟩

end Owners

/-! ## The plots around a cell -/

section Around

variable {d : Declared} {a q : PlotXZ} {x z : Int}

theorem joined_neighbour {dir : Fin 4} (h : d.Merged a dir) : d.Joined a (neighbourOf a dir) :=
  .single ⟨dir, h, rfl⟩

/-- Whoever owns a cell is joined to every plot around it. -/
theorem joined_of_borders (hplot : 0 < d.plotSize) (hown : d.Owns x z a)
    (h : Borders d q x z) : d.Joined a q := by
  obtain ⟨qx, qz⟩ := q
  have hx : a.x = x / cell d := congrArg PlotXZ.x hown.base
  have hz : a.z = z / cell d := congrArg PlotXZ.z hown.base
  rcases h.1.ediv hplot with hqx | ⟨hqx, hge_x⟩ <;> rcases h.2.ediv hplot with hqz | ⟨hqz, hge_z⟩
  all_goals
    rw [← hx] at hqx
    rw [← hz] at hqz
    dsimp only at hqx hqz
    subst hqx hqz
  case inl.inl => exact .refl
  case inl.inr => exact joined_neighbour (hown.south hge_z)
  case inr.inl => exact joined_neighbour (hown.east hge_x)
  case inr.inr =>
    exact (joined_neighbour (hown.east hge_x)).trans (joined_neighbour (hown.crossing hge_x hge_z).1)

/-- In a group that is still walked, the cells of joined plots are one area. -/
theorem sameArea_of_joined {b : PlotXZ} {x' z' : Int} (hown : d.Owns x z a) (hown' : d.Owns x' z' b)
    (hjoined : d.Joined a b) (hsmall : (component d a).encard ≤ kGroupScanLimit) :
    SameArea (some d) (x, z) (x', z') := by
  obtain ⟨s, hcard, hs⟩ := encard_le_iff.mp hsmall
  exact .inr ⟨a, b, hown, hown', .inr ⟨hjoined, s, hcard, hs⟩⟩

theorem component_congr {b : PlotXZ} (h : d.Joined a b) : component d b = component d a := by
  ext c
  exact ⟨fun hc => h.trans hc, fun hc => (Declared.Joined.symm h).trans hc⟩

end Around

/-- In a world with this grid, `sameArea` answers what the declarations mean. -/
theorem sameArea_iff {g : DimGrid} (hmemo : Memo g) {w : World} {dimension : Int} (hcount : w.gGridCount ≠ 0)
    (hg : w.grids.lookup dimension = some g) (x₁ z₁ x₂ z₂ : Int) :
    (sameArea dimension x₁ z₁ x₂ z₂ w).1 = true ↔ SameArea (some g.declared) (x₁, z₁) (x₂, z₂) := by
  rw [← (sameAreaLocked_spec x₁ z₁ x₂ z₂ hmemo).1]
  simp only [sameArea, hcount, if_false, hg]

/-- Every cell is of one of the four kinds. Squares belong to their plots, seams to merged
plots alone, and an owned seam to the area of every plot around it. -/
theorem owningPlotLocked_seams (plotSize roadWidth : Int) (hplot : 0 < plotSize) (hroad : 0 ≤ roadWidth)
    (merges : Table PlotXZ Nat) (earlier : List PlotXZ) (x z : Int) :
    let d : Declared := ⟨plotSize, roadWidth, merges.lookup⟩
    let g := afterQueries earlier ⟨plotSize, roadWidth, merges, ∅, ∅⟩
    (∃ p, Square d p x z ∨ EastRoad d p x z ∨ SouthRoad d p x z ∨ Crossing d p x z)
    ∧ (∀ p, Square d p x z → owningPlotLocked g x z = some p)
    ∧ (∀ p, EastRoad d p x z → ((∃ a, owningPlotLocked g x z = some a) ↔ d.Merged p 1))
    ∧ (∀ p, SouthRoad d p x z → ((∃ a, owningPlotLocked g x z = some a) ↔ d.Merged p 2))
    ∧ (∀ p, Crossing d p x z → ((∃ a, owningPlotLocked g x z = some a) ↔ AllMerged d p))
    ∧ ∀ a q, owningPlotLocked g x z = some a → Borders d q x z → q ∈ component d a
      ∧ ((component d a).encard ≤ kGroupScanLimit → ∀ w dimension x' z', w.gGridCount ≠ 0 →
        w.grids.lookup dimension = some g → Square d q x' z' →
          (sameArea dimension x z x' z' w).1 = true ∧ (sameArea dimension x' z' x z w).1 = true) := by
  intro d g
  obtain ⟨hsame, hmemo⟩ := afterQueries_spec earlier (memo_of_empty (g := ⟨plotSize, roadWidth, merges, ∅, ∅⟩) rfl rfl)
  have hd : g.declared = d := by
    show (⟨g.plotSize, g.roadWidth, g.merges.lookup⟩ : Declared) = d
    rw [hsame.plotSize, hsame.roadWidth, hsame.merges]
  have hown (a : PlotXZ) (x z : Int) : owningPlotLocked g x z = some a ↔ d.Owns x z a := by
    rw [owningPlotLocked_iff, hd]
  have hseam {p : PlotXZ} {m : Prop} (h : ∀ a, d.Owns x z a ↔ a = p ∧ m) :
      (∃ a, owningPlotLocked g x z = some a) ↔ m := by
    simp only [hown, h, exists_eq_left]
  have hkind : ∃ p, Square d p x z ∨ EastRoad d p x z ∨ SouthRoad d p x z ∨ Crossing d p x z := by
    have hcell : 0 < cell d := Int.add_pos_of_pos_of_nonneg hplot hroad
    refine ⟨⟨x / cell d, z / cell d⟩, ?_⟩
    rcases inPlot_or_inRoad hcell x with hx | hx <;> rcases inPlot_or_inRoad hcell z with hz | hz
    · exact .inl ⟨hx, hz⟩
    · exact .inr (.inr (.inl ⟨hx, hz⟩))
    · exact .inr (.inl ⟨hx, hz⟩)
    · exact .inr (.inr (.inr ⟨hx, hz⟩))
  refine ⟨hkind, fun p hp => (hown ..).mpr ((owns_square hplot hroad hp p).mpr rfl),
    fun p hp => hseam (owns_eastRoad hplot hroad hp), fun p hp => hseam (owns_southRoad hplot hroad hp),
    fun p hp => hseam (owns_crossing hplot hroad hp), fun a q ha hq => ?_⟩
  rw [hown] at ha
  have hjoined := joined_of_borders hplot ha hq
  refine ⟨hjoined, fun hsmall w dimension x' z' hcount hg hsquare => ?_⟩
  have hq' : d.Owns x' z' q := (owns_square hplot hroad hsquare q).mpr rfl
  rw [sameArea_iff hmemo hcount hg, sameArea_iff hmemo hcount hg, hd]
  refine ⟨sameArea_of_joined ha hq' hjoined hsmall, sameArea_of_joined hq' ha (Declared.Joined.symm hjoined) ?_⟩
  rwa [component_congr hjoined]

/-- Four plots around one crossing, merged by what three of them claim: 2 is east, 4 is south. -/
def blockMerges : Table PlotXZ Nat :=
  (((∅ : Table PlotXZ Nat).insert ⟨0, 0⟩ 6).insert ⟨1, 0⟩ 4).insert ⟨0, 1⟩ 2

def blockPlots : Finset PlotXZ := {⟨0, 0⟩, ⟨1, 0⟩, ⟨0, 1⟩, ⟨1, 1⟩}

def blockGrid : DimGrid := ⟨32, 4, blockMerges, ∅, ∅⟩

/-- No merge leads out of the block. -/
theorem mem_blockPlots {c : PlotXZ} (h : c ∈ component blockGrid.declared ⟨0, 0⟩) : c ∈ blockPlots := by
  have hclosed : ∀ a ∈ blockPlots, ∀ dir, connected blockGrid a dir = true → neighbourOf a dir ∈ blockPlots := by
    decide
  induction h with
  | refl => decide
  | tail _ hedge ih =>
    obtain ⟨dir, hm, rfl⟩ := hedge
    exact hclosed _ ih dir ((connected_iff ..).mpr hm)

/-- On a grid of 32 and 4, the crossing at (33, 33) of four merged plots is owned, and is one area with
the square of the plot across it. -/
theorem owningPlotLocked_seams_block :
    (∃ a, owningPlotLocked (afterQueries [⟨0, 0⟩] blockGrid) 33 33 = some a) ∧
      ∀ w, w.gGridCount ≠ 0 → w.grids.lookup 3 = some (afterQueries [⟨0, 0⟩] blockGrid) →
        (sameArea 3 33 33 40 40 w).1 = true ∧ (sameArea 3 40 40 33 33 w).1 = true := by
  obtain ⟨-, -, -, -, hcrossing, harea⟩ :=
    owningPlotLocked_seams 32 4 (by decide) (by decide) blockMerges [⟨0, 0⟩] 33 33
  have hmerged (a : PlotXZ) (dir : Fin 4) (h : connected blockGrid a dir = true) : blockGrid.declared.Merged a dir :=
    (connected_iff ..).mp h
  have howned := (hcrossing ⟨0, 0⟩ ⟨⟨by decide, by decide⟩, ⟨by decide, by decide⟩⟩).mpr
    ⟨hmerged _ _ (by decide), hmerged _ _ (by decide), hmerged _ _ (by decide), hmerged _ _ (by decide)⟩
  refine ⟨howned, fun w hcount hg => ?_⟩
  obtain ⟨a, ha⟩ := howned
  have hjoined : blockGrid.declared.Joined a ⟨0, 0⟩ :=
    (harea a ⟨0, 0⟩ ha ⟨⟨by decide, by decide⟩, ⟨by decide, by decide⟩⟩).1
  have hsmall : (component blockGrid.declared a).encard ≤ kGroupScanLimit := by
    rw [← component_congr hjoined]
    exact encard_le_iff.mpr ⟨blockPlots, by decide, fun c hc => mem_blockPlots hc⟩
  exact (harea a ⟨1, 1⟩ ha ⟨⟨by decide, by decide⟩, ⟨by decide, by decide⟩⟩).2 hsmall w 3 40 40 hcount hg
    ⟨⟨by decide, by decide⟩, ⟨by decide, by decide⟩⟩

end PlotSeams
