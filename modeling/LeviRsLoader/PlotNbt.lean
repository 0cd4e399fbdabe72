import LeviRsLoader.PlotLayout
import LeviRsLoader.Lib.Tables
import LeviRsLoader.Lib.Utf8

/-!
# Plot layouts from and to NBT

The struct of `PlotLayout.h` in its own types: 32-bit integers whose arithmetic
wraps, and names that are any bytes. It is sanitised after it is read, and saved
with the dimension. The tags are the game's, so their casts are a parameter.
-/
namespace PlotNbt

open Utf8
open PlotLayout (Layout Layout.clamp kWorldMinY kWorldMaxY twice twice_of_lt twice_neg orDefault)

/-- The bytes of a `std::string`. -/
abbrev Name := List UInt8

def utf8 (s : String) : Name := encode s.toList

structure PlotLayout where
  plotSize : Int32
  roadWidth : Int32
  borderWidth : Int32
  floorY : Int32
  floorBlock : Name
  fillBlock : Name
  roadBlock : Name
  borderBlock : Name
  biome : Name
  deriving DecidableEq, Repr

def kMinY : Int32 := -512
def kMaxY : Int32 := 320

namespace PlotLayout

/-- The member initialisers. -/
def default : PlotLayout where
  plotSize := 64
  roadWidth := 7
  borderWidth := 1
  floorY := 64
  floorBlock := utf8 "minecraft:grass_block"
  fillBlock := utf8 "minecraft:dirt"
  roadBlock := utf8 "minecraft:birch_planks"
  borderBlock := utf8 "minecraft:stone_block_slab"
  biome := utf8 "minecraft:plains"

def nameOr (name fallback : Name) : Name := if name = [] then fallback else name

def clamp (l : PlotLayout) : PlotLayout :=
  let plotSize := if l.plotSize < 4 then 4 else l.plotSize
  let plotSize := if plotSize > 512 then 512 else plotSize
  let roadWidth := if l.roadWidth < 0 then 0 else l.roadWidth
  let roadWidth := if roadWidth > 64 then 64 else roadWidth
  let borderWidth := if l.borderWidth < 0 then 0 else l.borderWidth
  let borderWidth := if borderWidth * 2 ≥ plotSize then 0 else borderWidth
  -- the border stands on the floor, so one level above it is kept free
  let floorY := if l.floorY ≤ kMinY then kMinY + 1 else l.floorY
  let floorY := if floorY ≥ kMaxY - 1 then kMaxY - 2 else floorY
  { plotSize, roadWidth, borderWidth, floorY,
    floorBlock := nameOr l.floorBlock (utf8 "minecraft:grass_block"),
    fillBlock := nameOr l.fillBlock (utf8 "minecraft:dirt"),
    roadBlock := nameOr l.roadBlock (utf8 "minecraft:birch_planks"),
    borderBlock := nameOr l.borderBlock (utf8 "minecraft:stone_block_slab"),
    biome := nameOr l.biome (utf8 "minecraft:plains") }

end PlotLayout

/-! ## The tags -/

/-- A `CompoundTag`: its `mTags`. -/
abbrev CompoundTag (ν : Type) := Table String ν

/-- What the layout uses of `CompoundTagVariant`: the tags it assigns, and the
casts, which throw (`none`) on a tag of another kind. -/
structure Variant (ν : Type) where
  ofInt : Int32 → ν
  ofString : Name → ν
  toInt : ν → Option Int32
  toStringView : ν → Option Name

/-- A tag gives back what it was made from. -/
structure Variant.Lawful {ν : Type} (V : Variant ν) : Prop where
  toInt_ofInt : ∀ v, V.toInt (V.ofInt v) = some v
  toStringView_ofString : ∀ s, V.toStringView (V.ofString s) = some s

variable {ν : Type} (V : Variant ν)

def toNbt (l : PlotLayout) : CompoundTag ν :=
  let t : CompoundTag ν := ∅
  let t := t.insert "plotSize" (V.ofInt l.plotSize)
  let t := t.insert "roadWidth" (V.ofInt l.roadWidth)
  let t := t.insert "borderWidth" (V.ofInt l.borderWidth)
  let t := t.insert "floorY" (V.ofInt l.floorY)
  let t := t.insert "floorBlock" (V.ofString l.floorBlock)
  let t := t.insert "fillBlock" (V.ofString l.fillBlock)
  let t := t.insert "roadBlock" (V.ofString l.roadBlock)
  let t := t.insert "borderBlock" (V.ofString l.borderBlock)
  t.insert "biome" (V.ofString l.biome)

/-- The lambda `num` of `fromNbt`. -/
def num (t : CompoundTag ν) (key : String) (fallback : Int32) : Option Int32 :=
  match t.lookup key with
  | some v => V.toInt v
  | none => some fallback

/-- The lambda `str`: an empty name counts as missing. -/
def str (t : CompoundTag ν) (key : String) (fallback : Name) : Option Name :=
  match t.lookup key with
  | some v => (V.toStringView v).map fun sv => if sv = [] then fallback else sv
  | none => some fallback

def fromNbt (t : CompoundTag ν) : Option PlotLayout := do
  let l := PlotLayout.default
  let plotSize ← num V t "plotSize" l.plotSize
  let roadWidth ← num V t "roadWidth" l.roadWidth
  let borderWidth ← num V t "borderWidth" l.borderWidth
  let floorY ← num V t "floorY" l.floorY
  let floorBlock ← str V t "floorBlock" l.floorBlock
  let fillBlock ← str V t "fillBlock" l.fillBlock
  let roadBlock ← str V t "roadBlock" l.roadBlock
  let borderBlock ← str V t "borderBlock" l.borderBlock
  let biome ← str V t "biome" l.biome
  let l : PlotLayout :=
    { plotSize, roadWidth, borderWidth, floorY, floorBlock, fillBlock, roadBlock, borderBlock, biome }
  some l.clamp

/-- `parsed` is what `CompoundTag::fromSnbt` gives; a text that does not parse gives the defaults. -/
def fromSnbt (parsed : Option (CompoundTag ν)) : Option PlotLayout :=
  match parsed with
  | none => some PlotLayout.default.clamp
  | some tag => fromNbt V tag

/-! ## Against the layout of the generator -/

namespace PlotLayout

/-- The layout the generator is modelled over; `read` takes the bytes of a name to its text. -/
def layout (read : Name → String) (l : PlotLayout) : Layout where
  plotSize := l.plotSize.toInt
  roadWidth := l.roadWidth.toInt
  borderWidth := l.borderWidth.toInt
  floorY := l.floorY.toInt
  floorBlock := read l.floorBlock
  fillBlock := read l.fillBlock
  roadBlock := read l.roadBlock
  borderBlock := read l.borderBlock
  biome := read l.biome

/-- The two have the same measures. -/
structure Measures (l : PlotLayout) (L : Layout) : Prop where
  plotSize : l.plotSize.toInt = L.plotSize
  roadWidth : l.roadWidth.toInt = L.roadWidth
  borderWidth : l.borderWidth.toInt = L.borderWidth
  floorY : l.floorY.toInt = L.floorY

theorem measures_layout (read : Name → String) (l : PlotLayout) : l.Measures (l.layout read) := ⟨rfl, rfl, rfl, rfl⟩

theorem toInt_twice (borderWidth : Int32) : (borderWidth * 2).toInt = twice borderWidth.toInt :=
  Int32.toInt_mul borderWidth 2

/-- Clause by clause, the machine's clamp is that of the integers. -/
theorem Measures.clamp {l : PlotLayout} {L : Layout} (h : l.Measures L) : l.clamp.Measures L.clamp := by
  obtain ⟨hp, hr, hb, hy⟩ := h
  have hlit : (0 : Int32).toInt = 0 ∧ (4 : Int32).toInt = 4 ∧ (64 : Int32).toInt = 64 ∧ (512 : Int32).toInt = 512 :=
    ⟨rfl, rfl, rfl, rfl⟩
  refine ⟨?_, ?_, ?_, ?_⟩
  · simp only [PlotLayout.clamp, Layout.clamp, apply_ite Int32.toInt, Int32.lt_iff_toInt_lt, gt_iff_lt, hlit, hp]
  · simp only [PlotLayout.clamp, Layout.clamp, apply_ite Int32.toInt, Int32.lt_iff_toInt_lt, gt_iff_lt, hlit, hr]
  · simp only [PlotLayout.clamp, Layout.clamp, apply_ite Int32.toInt, Int32.lt_iff_toInt_lt, Int32.le_iff_toInt_le,
      gt_iff_lt, ge_iff_le, toInt_twice, hlit, hp, hb]
  · have hmin : kMinY.toInt = kWorldMinY ∧ (kMinY + 1).toInt = kWorldMinY + 1 := ⟨rfl, rfl⟩
    have hmax : (kMaxY - 1).toInt = kWorldMaxY - 1 ∧ (kMaxY - 2).toInt = kWorldMaxY - 2 := ⟨rfl, rfl⟩
    simp only [PlotLayout.clamp, Layout.clamp, apply_ite Int32.toInt, Int32.le_iff_toInt_le, ge_iff_le, hmin, hmax, hy]

/-- How names are read: only the empty one as the empty text, and UTF-8 as what it encodes. -/
structure Reads (read : Name → String) : Prop where
  isEmpty : ∀ b, (read b).isEmpty = decide (b = [])
  utf8 : ∀ s, read (utf8 s) = s

theorem Reads.nameOr {read : Name → String} (h : Reads read) (name : Name) (fallback : String) :
    read (nameOr name (PlotNbt.utf8 fallback)) = orDefault (read name) fallback := by
  unfold PlotLayout.nameOr orDefault
  rw [h.isEmpty]
  by_cases hname : name = []
  · rw [if_pos hname, if_pos (decide_eq_true hname), h.utf8]
  · rw [if_neg hname, if_neg (by simpa using hname)]

/-- The struct's clamp is the clamp of the layout the generator is modelled over. -/
theorem layout_clamp {read : Name → String} (h : Reads read) (l : PlotLayout) :
    l.clamp.layout read = (l.layout read).clamp := by
  obtain ⟨hp, hr, hb, hy⟩ := (measures_layout read l).clamp
  rw [layout, hp, hr, hb, hy]
  simp only [PlotLayout.clamp, Layout.clamp, h.nameOr]
  rfl

/-- UTF-8 where it is, and otherwise no name the game knows. -/
def readName (b : Name) : String :=
  match decode b with
  | some t => String.ofList t
  | none => "?"

theorem reads_readName : Reads readName where
  isEmpty b := by
    unfold readName
    split
    · next t ht =>
      obtain ⟨s, rfl⟩ := encode_of_decode ht
      rw [decode_encode] at ht
      obtain rfl := Option.some.inj ht
      rw [Bool.eq_iff_iff, String.isEmpty_iff, decide_eq_true_iff, encode_eq_nil, String.ofList_eq_empty_iff]
    · next hnone =>
      have hb : b ≠ [] := by
        rintro rfl
        exact absurd hnone (by decide)
      rw [decide_eq_false hb]
      rfl
  utf8 s := by
    rw [readName, PlotNbt.utf8, decode_encode]
    exact String.ofList_toList

/-! ## What clamping leaves -/

/-- The bounds of a sanitised layout; the floor has a level of the world on either side. -/
structure InRange (l : PlotLayout) : Prop where
  plotSize : 4 ≤ l.plotSize.toInt ∧ l.plotSize.toInt ≤ 512
  roadWidth : 0 ≤ l.roadWidth.toInt ∧ l.roadWidth.toInt ≤ 64
  borderWidth : 0 ≤ l.borderWidth.toInt
  floorY : kWorldMinY < l.floorY.toInt ∧ l.floorY.toInt + 1 < kWorldMaxY
  names : l.floorBlock ≠ [] ∧ l.fillBlock ≠ [] ∧ l.roadBlock ≠ [] ∧ l.borderBlock ≠ [] ∧ l.biome ≠ []

structure InBounds (l : PlotLayout) : Prop extends l.InRange where
  /-- The borders of the two sides do not meet. -/
  apart : 2 * l.borderWidth.toInt < l.plotSize.toInt

theorem nameOr_ne_nil (name : Name) {fallback : String} (h : fallback.toList ≠ []) :
    nameOr name (PlotNbt.utf8 fallback) ≠ [] := by
  unfold nameOr
  split
  · exact fun hnil => h (encode_eq_nil.mp hnil)
  · next hname => exact hname

theorem nameOr_of_ne_nil {name : Name} (fallback : Name) (h : name ≠ []) : nameOr name fallback = name := if_neg h

variable (l : PlotLayout)

theorem clamp_inRange : l.clamp.InRange := by
  have hsane := (l.layout readName).sane_clamp
  obtain ⟨hp, hr, hb, hy⟩ := (measures_layout readName l).clamp
  constructor
  · rw [hp]
    exact hsane.plotSize
  · rw [hr]
    exact hsane.roadWidth
  · rw [hb]
    exact hsane.borderWidth.1
  · rw [hy]
    have := hsane.floorY
    omega
  · exact ⟨nameOr_ne_nil _ (by decide), nameOr_ne_nil _ (by decide), nameOr_ne_nil _ (by decide),
      nameOr_ne_nil _ (by decide), nameOr_ne_nil _ (by decide)⟩

/-- Doubled, a border of 2^30 or more is negative, and no plot is too small for it. -/
theorem clamp_inBounds_iff : l.clamp.InBounds ↔ l.borderWidth.toInt < 1073741824 := by
  have hlt := Int32.toInt_lt l.borderWidth
  have hrange := l.clamp_inRange
  have hb := (measures_layout readName l).clamp.borderWidth
  rw [Layout.clamp_borderWidth, ← (measures_layout readName l).clamp.plotSize,
    ← (measures_layout readName l).borderWidth] at hb
  obtain ⟨hp₁, hp₂⟩ := hrange.plotSize
  have hapart : 2 * l.clamp.borderWidth.toInt < l.clamp.plotSize.toInt ↔ l.borderWidth.toInt < 1073741824 := by
    constructor
    · intro h
      by_contra hwide
      have hneg := twice_neg (Int.not_lt.mp hwide) hlt
      rw [if_pos ⟨by omega, by omega⟩] at hb
      omega
    · intro h
      rw [hb]
      split
      · next hkept =>
        rw [twice_of_lt hkept.1 h] at hkept
        omega
      · omega
  exact ⟨fun h => hapart.mp h.apart, fun h => ⟨hrange, hapart.mpr h⟩⟩

/-- The two layouts have the same measures as one, and the same names. -/
theorem eq_of_measures {l l' : PlotLayout} {L : Layout} (h : l.Measures L) (h' : l'.Measures L)
    (hf : l.floorBlock = l'.floorBlock) (hi : l.fillBlock = l'.fillBlock) (hr : l.roadBlock = l'.roadBlock)
    (hb : l.borderBlock = l'.borderBlock) (hm : l.biome = l'.biome) : l = l' := by
  have hp := Int32.toInt_inj.mp (h.plotSize.trans h'.plotSize.symm)
  have hw := Int32.toInt_inj.mp (h.roadWidth.trans h'.roadWidth.symm)
  have hd := Int32.toInt_inj.mp (h.borderWidth.trans h'.borderWidth.symm)
  have hy := Int32.toInt_inj.mp (h.floorY.trans h'.floorY.symm)
  cases l
  cases l'
  simp only [mk.injEq]
  exact ⟨hp, hw, hd, hy, hf, hi, hr, hb, hm⟩

theorem clamp_clamp : l.clamp.clamp = l.clamp := by
  have h := (measures_layout readName l).clamp
  have h' := h.clamp
  rw [Layout.clamp_clamp] at h'
  obtain ⟨hf, hi, hr, hb, hm⟩ := l.clamp_inRange.names
  exact eq_of_measures h' h (nameOr_of_ne_nil _ hf) (nameOr_of_ne_nil _ hi) (nameOr_of_ne_nil _ hr)
    (nameOr_of_ne_nil _ hb) (nameOr_of_ne_nil _ hm)

variable {l}

theorem InBounds.sane (h : l.InBounds) (read : Name → String) : (l.layout read).Sane where
  plotSize := h.plotSize
  roadWidth := h.roadWidth
  borderWidth := by
    have happart := h.apart
    have hplot := h.plotSize.2
    refine ⟨h.borderWidth, ?_⟩
    show twice l.borderWidth.toInt < l.plotSize.toInt
    rw [twice_of_lt h.borderWidth (by omega)]
    omega
  floorY := ⟨h.floorY.1, Int.lt_sub_right_of_add_lt h.floorY.2⟩

theorem InBounds.clamp_eq (h : l.InBounds) : l.clamp = l := by
  have hmeasures := measures_layout readName l
  have hclamp := hmeasures.clamp
  have hname : ∀ {b : Name}, b ≠ [] → (readName b).isEmpty = false := by
    intro b hb
    rw [reads_readName.isEmpty, decide_eq_false hb]
  obtain ⟨hf, hi, hr, hb, hm⟩ := h.names
  rw [Layout.clamp_of_sane (h.sane readName) (hname hf) (hname hi) (hname hr) (hname hb) (hname hm)] at hclamp
  exact eq_of_measures hclamp hmeasures (nameOr_of_ne_nil _ hf) (nameOr_of_ne_nil _ hi) (nameOr_of_ne_nil _ hr)
    (nameOr_of_ne_nil _ hb) (nameOr_of_ne_nil _ hm)

/-- A floor on the lowest level has nothing of the world under it, and goes up by one. -/
theorem clamp_of_bottom (h : ({ l with floorY := kMinY + 1 } : PlotLayout).InBounds) (hbottom : l.floorY = kMinY) :
    l.clamp = { l with floorY := kMinY + 1 } := by
  rw [← h.clamp_eq]
  simp only [PlotLayout.clamp, hbottom]
  rfl

end PlotLayout

/-! ## The round trip -/

variable {V}

theorem num_of_lookup (hV : V.Lawful) {t : CompoundTag ν} {key : String} {v : Int32}
    (h : t.lookup key = some (V.ofInt v)) (fallback : Int32) : num V t key fallback = some v := by
  rw [num, h]
  exact hV.toInt_ofInt v

theorem str_of_lookup (hV : V.Lawful) {t : CompoundTag ν} {key : String} {s : Name}
    (h : t.lookup key = some (V.ofString s)) (hs : s ≠ []) (fallback : Name) : str V t key fallback = some s := by
  rw [str, h]
  simp only [hV.toStringView_ofString, Option.map_some, if_neg hs]

theorem lookup_toNbt (l : PlotLayout) :
    ((toNbt V l).lookup "plotSize" = some (V.ofInt l.plotSize) ∧
      (toNbt V l).lookup "roadWidth" = some (V.ofInt l.roadWidth) ∧
      (toNbt V l).lookup "borderWidth" = some (V.ofInt l.borderWidth) ∧
      (toNbt V l).lookup "floorY" = some (V.ofInt l.floorY)) ∧
    (toNbt V l).lookup "floorBlock" = some (V.ofString l.floorBlock) ∧
      (toNbt V l).lookup "fillBlock" = some (V.ofString l.fillBlock) ∧
      (toNbt V l).lookup "roadBlock" = some (V.ofString l.roadBlock) ∧
      (toNbt V l).lookup "borderBlock" = some (V.ofString l.borderBlock) ∧
      (toNbt V l).lookup "biome" = some (V.ofString l.biome) := by
  simp only [toNbt, AList.lookup_insert, AList.lookup_insert_ne, ne_eq, String.reduceEq, not_false_eq_true, and_self]

/-- What was saved is read back, and sanitised again. -/
theorem fromNbt_toNbt (hV : V.Lawful) {l : PlotLayout} (h : l.InRange) : fromNbt V (toNbt V l) = some l.clamp := by
  obtain ⟨⟨hplot, hroad, hborder, hfloorY⟩, hfloor, hfill, hroadBlock, hborderBlock, hbiome⟩ := lookup_toNbt (V := V) l
  obtain ⟨hf, hi, hr, hb, hm⟩ := h.names
  simp only [fromNbt, num_of_lookup hV hplot, num_of_lookup hV hroad, num_of_lookup hV hborder,
    num_of_lookup hV hfloorY, str_of_lookup hV hfloor hf, str_of_lookup hV hfill hi, str_of_lookup hV hroadBlock hr,
    str_of_lookup hV hborderBlock hb, str_of_lookup hV hbiome hm, Option.bind_eq_bind, Option.bind_some]

theorem clamped_of_fromNbt {t : CompoundTag ν} {l : PlotLayout} (h : fromNbt V t = some l) :
    ∃ raw : PlotLayout, l = raw.clamp := by
  simp only [fromNbt, Option.bind_eq_bind, Option.bind_eq_some_iff, Option.some.injEq] at h
  obtain ⟨_, -, _, -, _, -, _, -, _, -, _, -, _, -, _, -, _, -, hl⟩ := h
  exact ⟨_, hl.symm⟩

/-- A world is reloaded with the layout it was created with, whatever that was read from. -/
theorem fromNbt_toNbt_of_fromSnbt (hV : V.Lawful) {parsed : Option (CompoundTag ν)} {l : PlotLayout}
    (h : fromSnbt V parsed = some l) : fromNbt V (toNbt V l) = some l := by
  have hclamped : ∃ raw : PlotLayout, l = raw.clamp := by
    cases parsed with
    | none => exact ⟨PlotLayout.default, (Option.some.inj h).symm⟩
    | some tag => exact clamped_of_fromNbt h
  obtain ⟨raw, rfl⟩ := hclamped
  rw [fromNbt_toNbt hV raw.clamp_inRange, raw.clamp_clamp]

/-! ## All of it, and when -/

/-- Clamping gives a layout in bounds, which it leaves alone and which survives
saving, exactly for a border below 2^30; only the bounds can fail. -/
theorem clamp_sanitises_iff (hV : V.Lawful) (l : PlotLayout) :
    (l.clamp.InBounds ∧ (l.InBounds → l.clamp = l) ∧ l.clamp.clamp = l.clamp ∧
      fromNbt V (toNbt V l.clamp) = some l.clamp ↔ l.borderWidth.toInt < 1073741824) ∧
    l.clamp.InRange ∧ (l.InBounds → l.clamp = l) ∧
    (({ l with floorY := kMinY + 1 } : PlotLayout).InBounds → l.floorY = kMinY →
      l.clamp = { l with floorY := kMinY + 1 }) ∧
    l.clamp.clamp = l.clamp ∧ fromNbt V (toNbt V l.clamp) = some l.clamp := by
  have htrip : fromNbt V (toNbt V l.clamp) = some l.clamp := by
    rw [fromNbt_toNbt hV l.clamp_inRange, l.clamp_clamp]
  refine ⟨?_, l.clamp_inRange, fun h => h.clamp_eq, PlotLayout.clamp_of_bottom, l.clamp_clamp, htrip⟩
  constructor
  · exact fun h => l.clamp_inBounds_iff.mp h.1
  · exact fun h => ⟨l.clamp_inBounds_iff.mpr h, fun h => h.clamp_eq, l.clamp_clamp, htrip⟩

/-- The tags a layout is saved as. -/
inductive Tag where
  | int (v : Int32)
  | string (s : Name)
  deriving DecidableEq

def tags : Variant Tag where
  ofInt := .int
  ofString := .string
  toInt
    | .int v => some v
    | .string _ => none
  toStringView
    | .int _ => none
    | .string s => some s

theorem tags_lawful : tags.Lawful := ⟨fun _ => rfl, fun _ => rfl⟩

/-- Plots below the least size, a road above the greatest and no floor block. -/
def rawLayout : PlotLayout := { PlotLayout.default with plotSize := 2, roadWidth := 100, floorBlock := [] }

theorem rawLayout_sanitised :
    rawLayout.clamp = { PlotLayout.default with plotSize := 4, roadWidth := 64 } ∧
      rawLayout.clamp.InBounds ∧ (rawLayout.InBounds → rawLayout.clamp = rawLayout) ∧
      rawLayout.clamp.clamp = rawLayout.clamp ∧ fromNbt tags (toNbt tags rawLayout.clamp) = some rawLayout.clamp :=
  ⟨by decide, (clamp_sanitises_iff tags_lawful rawLayout).1.mpr (by decide)⟩

def wideBorder : PlotLayout := { PlotLayout.default with borderWidth := 1073741824 }

/-- `{borderWidth: 1073741824}` is read, clamped and kept: a border wider than any plot. -/
theorem wide_border_survives :
    fromSnbt tags (some (AList.singleton "borderWidth" (.int 1073741824))) = some wideBorder.clamp ∧
      wideBorder.clamp = wideBorder ∧
      ¬∀ l : PlotLayout, l.clamp.InBounds ∧ (l.InBounds → l.clamp = l) ∧ l.clamp.clamp = l.clamp ∧
        fromNbt tags (toNbt tags l.clamp) = some l.clamp := by
  refine ⟨rfl, by decide, fun h => ?_⟩
  have hapart := (h wideBorder).1.apart
  exact absurd hapart (by decide)

end PlotNbt
