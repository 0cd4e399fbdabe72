import Mathlib.Algebra.Order.Ring.Int
import Mathlib.Tactic.SplitIfs

/-!
# Layout of a plot world

`PlotLayout.h`: the parameters of a plot dimension, how they are sanitised,
and the classification of a block column by its offset in the grid cell.
-/
namespace PlotLayout

def kWorldMinY : Int := -512
def kWorldMaxY : Int := 320
def kBedrockY : Int := -64

/-- `kTotalHeight`; the dimension is 832 blocks high. -/
def kTotalHeight : Int := kWorldMaxY - kWorldMinY

structure Layout where
  plotSize : Int
  roadWidth : Int
  borderWidth : Int
  floorY : Int
  floorBlock : String
  fillBlock : String
  roadBlock : String
  borderBlock : String
  biome : String
  deriving DecidableEq, Repr

/-- The member initialisers. -/
def Layout.default : Layout where
  plotSize := 64
  roadWidth := 7
  borderWidth := 1
  floorY := 64
  floorBlock := "minecraft:grass_block"
  fillBlock := "minecraft:dirt"
  roadBlock := "minecraft:birch_planks"
  borderBlock := "minecraft:stone_block_slab"
  biome := "minecraft:plains"

def Layout.cellSize (l : Layout) : Int := l.plotSize + l.roadWidth

/-- A block or biome name, or its default when it is empty. -/
def orDefault (name fallback : String) : String := if name.isEmpty then fallback else name

/-- `borderWidth * 2` of a border width: an `int`, so it wraps. -/
def twice (borderWidth : Int) : Int := (borderWidth * 2).bmod 4294967296

/-- The clauses in the source's order; that of the border sees the clamped plot size. -/
def Layout.clamp (l : Layout) : Layout :=
  let plotSize := if l.plotSize < 4 then 4 else l.plotSize
  let plotSize := if plotSize > 512 then 512 else plotSize
  let roadWidth := if l.roadWidth < 0 then 0 else l.roadWidth
  let roadWidth := if roadWidth > 64 then 64 else roadWidth
  let borderWidth := if l.borderWidth < 0 then 0 else l.borderWidth
  let borderWidth := if twice borderWidth ≥ plotSize then 0 else borderWidth
  let floorY := if l.floorY ≤ kWorldMinY then kWorldMinY + 1 else l.floorY
  let floorY := if floorY ≥ kWorldMaxY - 1 then kWorldMaxY - 2 else floorY
  { plotSize, roadWidth, borderWidth, floorY,
    floorBlock := orDefault l.floorBlock Layout.default.floorBlock,
    fillBlock := orDefault l.fillBlock Layout.default.fillBlock,
    roadBlock := orDefault l.roadBlock Layout.default.roadBlock,
    borderBlock := orDefault l.borderBlock Layout.default.borderBlock,
    biome := orDefault l.biome Layout.default.biome }

inductive PlotArea1D where
  | plot
  | border
  | road
  deriving DecidableEq, Repr

/-- C++ `%` truncates, so a negative remainder is moved up. -/
def positiveMod (value modulus : Int) : Int :=
  let r := value.tmod modulus
  if r < 0 then r + modulus else r

def classify1D (offset : Int) (l : Layout) : PlotArea1D :=
  if offset ≥ l.plotSize then .road
  else if l.borderWidth > 0 ∧ (offset < l.borderWidth ∨ offset ≥ l.plotSize - l.borderWidth) then .border
  else .plot

def combine2D (x z : PlotArea1D) : PlotArea1D :=
  if x = .road ∨ z = .road then .road
  else if x = .plot ∧ z = .plot then .plot
  else .border

/-- The class of the column at world coordinates `(x, z)`. -/
def Layout.area (l : Layout) (x z : Int) : PlotArea1D :=
  combine2D (classify1D (positiveMod x l.cellSize) l) (classify1D (positiveMod z l.cellSize) l)

/-! ## What clamping leaves -/

/-- The numeric ranges of a sanitised layout, the border's as `clamp` tests it. -/
structure Layout.Sane (l : Layout) : Prop where
  plotSize : 4 ≤ l.plotSize ∧ l.plotSize ≤ 512
  roadWidth : 0 ≤ l.roadWidth ∧ l.roadWidth ≤ 64
  borderWidth : 0 ≤ l.borderWidth ∧ twice l.borderWidth < l.plotSize
  floorY : kWorldMinY < l.floorY ∧ l.floorY < kWorldMaxY - 1

theorem Layout.sane_clamp (l : Layout) : l.clamp.Sane := by
  constructor
  · simp only [clamp]
    split_ifs <;> omega
  · simp only [clamp]
    split_ifs <;> omega
  · have hzero : twice 0 = 0 := rfl
    simp only [clamp]
    split_ifs <;> omega
  · simp only [clamp, kWorldMinY, kWorldMaxY]
    split_ifs <;> omega

/-- A border is kept if its double, as an `int`, fits the plot. -/
theorem Layout.clamp_borderWidth (l : Layout) :
    l.clamp.borderWidth = if 0 ≤ l.borderWidth ∧ twice l.borderWidth < l.clamp.plotSize then l.borderWidth else 0 := by
  have hzero : twice 0 = 0 := rfl
  have hplot := l.sane_clamp.plotSize.1
  simp only [clamp] at hplot ⊢
  split_ifs <;> omega

theorem twice_of_lt {borderWidth : Int} (h₀ : 0 ≤ borderWidth) (h : borderWidth < 1073741824) :
    twice borderWidth = borderWidth * 2 := Int.bmod_eq_of_le (by omega) (by omega)

theorem twice_neg {borderWidth : Int} (h : 1073741824 ≤ borderWidth) (hlt : borderWidth < 2147483648) :
    twice borderWidth < 0 := by
  have hwrap : twice borderWidth = borderWidth * 2 - 4294967296 := by
    rw [twice, ← Int.sub_bmod_right, Int.bmod_eq_of_le (by omega) (by omega)]
    rfl
  omega

/-- A layout in range with no empty name is left as it is. -/
theorem Layout.clamp_of_sane {l : Layout} (h : l.Sane) (hf : l.floorBlock.isEmpty = false)
    (hi : l.fillBlock.isEmpty = false) (hr : l.roadBlock.isEmpty = false)
    (hb : l.borderBlock.isEmpty = false) (hm : l.biome.isEmpty = false) : l.clamp = l := by
  obtain ⟨⟨hp₁, hp₂⟩, ⟨hr₁, hr₂⟩, ⟨hb₁, hb₂⟩, ⟨hy₁, hy₂⟩⟩ := h
  have hplot : ¬l.plotSize < 4 ∧ ¬l.plotSize > 512 := ⟨by omega, by omega⟩
  have hroad : ¬l.roadWidth < 0 ∧ ¬l.roadWidth > 64 := ⟨by omega, by omega⟩
  have hborder : ¬l.borderWidth < 0 ∧ ¬twice l.borderWidth ≥ l.plotSize := ⟨by omega, by omega⟩
  have hfloor : ¬l.floorY ≤ kWorldMinY ∧ ¬l.floorY ≥ kWorldMaxY - 1 := ⟨by omega, by omega⟩
  simp only [clamp, orDefault, if_neg hplot.1, if_neg hplot.2, if_neg hroad.1, if_neg hroad.2,
    if_neg hborder.1, if_neg hborder.2, if_neg hfloor.1, if_neg hfloor.2, hf, hi, hr, hb, hm,
    Bool.false_eq_true, if_false]

theorem Layout.clamp_clamp (l : Layout) : l.clamp.clamp = l.clamp := by
  have hname : ∀ name fallback : String, fallback.isEmpty = false → (orDefault name fallback).isEmpty = false := by
    intro name fallback h
    unfold orDefault
    split
    · exact h
    · next hn => simpa using hn
  exact Layout.clamp_of_sane l.sane_clamp (hname _ _ (by decide)) (hname _ _ (by decide)) (hname _ _ (by decide))
    (hname _ _ (by decide)) (hname _ _ (by decide))

/-! ## The grid convention -/

theorem positiveMod_eq_emod {value modulus : Int} (h : 0 < modulus) : positiveMod value modulus = value % modulus := by
  have hr := Int.emod_nonneg value (Int.ne_of_gt h)
  have hlt := Int.emod_lt_of_pos value h
  simp only [positiveMod, Int.tmod_eq_emod]
  split <;> split <;> omega

/-- The convention of the header: the plot takes the low part of each cell, and
its border is what lies closer than `borderWidth` to its edge. -/
def Layout.documentedArea (l : Layout) (x z : Int) : PlotArea1D :=
  let ix := x % l.cellSize
  let iz := z % l.cellSize
  if ix ≥ l.plotSize ∨ iz ≥ l.plotSize then .road
  else if min (min ix (l.plotSize - 1 - ix)) (min iz (l.plotSize - 1 - iz)) < l.borderWidth then .border
  else .plot

theorem classify1D_road (offset : Int) (l : Layout) : classify1D offset l = .road ↔ offset ≥ l.plotSize := by
  unfold classify1D
  by_cases h : offset ≥ l.plotSize
  · simp [h]
  · simp only [h, if_false, iff_false]
    split <;> simp

theorem combine2D_road (x z : PlotArea1D) : combine2D x z = .road ↔ x = .road ∨ z = .road := by
  cases x <;> cases z <;> decide

theorem Layout.Sane.cell_pos {l : Layout} (h : l.Sane) : 0 < l.cellSize := by
  have := h.plotSize.1
  have := h.roadWidth.1
  unfold Layout.cellSize
  omega

/-- The two classifiers put together are the documented convention. -/
theorem Layout.Sane.area_eq {l : Layout} (h : l.Sane) (x z : Int) : l.area x z = l.documentedArea x z := by
  have hx := Int.emod_nonneg x (Int.ne_of_gt h.cell_pos)
  have hz := Int.emod_nonneg z (Int.ne_of_gt h.cell_pos)
  obtain ⟨hb, _⟩ := h.borderWidth
  simp only [Layout.area, positiveMod_eq_emod h.cell_pos, Layout.documentedArea]
  generalize x % l.cellSize = ix at *
  generalize z % l.cellSize = iz at *
  by_cases hroad : ix ≥ l.plotSize ∨ iz ≥ l.plotSize
  · rw [if_pos hroad, combine2D_road, classify1D_road, classify1D_road]
    exact hroad
  · rw [if_neg hroad]
    have hplot : ∀ i : Int, ¬i ≥ l.plotSize → 0 ≤ i →
        classify1D i l = if min i (l.plotSize - 1 - i) < l.borderWidth then .border else .plot := by
      intro i hi hi0
      simp only [classify1D, hi, if_false]
      congr 1
      simp only [eq_iff_iff]
      omega
    rw [hplot ix (by omega) hx, hplot iz (by omega) hz]
    generalize min ix (l.plotSize - 1 - ix) = dx
    generalize min iz (l.plotSize - 1 - iz) = dz
    by_cases h₁ : dx < l.borderWidth <;> by_cases h₂ : dz < l.borderWidth <;> simp [combine2D, h₁, h₂]

theorem Layout.Sane.area_road {l : Layout} (h : l.Sane) (x z : Int) :
    l.area x z = .road ↔ x % l.cellSize ≥ l.plotSize ∨ z % l.cellSize ≥ l.plotSize := by
  simp only [Layout.area, positiveMod_eq_emod h.cell_pos, combine2D_road, classify1D_road]

end PlotLayout
