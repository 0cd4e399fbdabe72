import LeviRsLoader.Lib.Runs
import LeviRsLoader.PlotLayout
import Mathlib.Logic.Function.Basic

/-!
# The plot generator

`PlotGenerator::loadChunk` over its per-thread buffer. A write outside the
buffer is undefined behaviour, here no result; so a chunk that is generated at
all has stayed inside.
-/
namespace PlotGenerator

open PlotLayout

variable {B : Type}

def kChunkWidth : Nat := 16
def kColumns : Nat := kChunkWidth * kChunkWidth
def kBufferSize : Int := kColumns * kTotalHeight

/-- The chunk layout is XZY. -/
def bufferIndex (x : Nat) (yIdx : Int) (z : Nat) : Int := (x * kChunkWidth + z : Nat) * kTotalHeight + yIdx

/-- The per-thread buffer; `blocks` is a vector of `size` pointers, `owner` the generator it was filled for. -/
structure ThreadBuffer (B : Type) where
  size : Int
  blocks : Int → Option B
  owner : Option Nat

def ThreadBuffer.initial : ThreadBuffer B := ⟨0, fun _ => none, none⟩

/-- `buf.blocks[index] = block`. -/
def write (block : B) (index : Int) (buf : ThreadBuffer B) : Option (ThreadBuffer B) :=
  if 0 ≤ index ∧ index < buf.size then
    some { buf with blocks := Function.update buf.blocks index (some block) }
  else none

def fillLayer (block : B) (yIdx : Int) (buf : ThreadBuffer B) : Option (ThreadBuffer B) :=
  (List.range kColumns).foldlM (fun buf (i : Nat) => write block (yIdx + i * kTotalHeight) buf) buf

def fillRange (block : B) (fromIdx toIdxExclusive : Int) (buf : ThreadBuffer B) : Option (ThreadBuffer B) :=
  (List.range (toIdxExclusive - fromIdx).toNat).foldlM (fun buf (k : Nat) => fillLayer block (fromIdx + k) buf) buf

/-- The generator's members; `this` is its address. -/
structure Generator (B : Type) where
  this : Nat
  mLayout : Layout
  mAirBlock : B
  mBedrockBlock : B
  mFloorBlock : B
  mFillBlock : B
  mRoadBlock : B
  mBorderBlock : B
  mFloorIndexY : Int
  mBorderIndexY : Int

/-- `lookupBlock` gives the default state of a block id, `bedrock` is `VanillaBlockTypeIds::Bedrock()`. -/
def plotGenerator (lookupBlock : String → B) (bedrock : String) (this : Nat) (layout : Layout) : Generator B :=
  let mLayout := layout.clamp
  { this, mLayout,
    mAirBlock := lookupBlock "minecraft:air",
    mBedrockBlock := lookupBlock bedrock,
    mFloorBlock := lookupBlock mLayout.floorBlock,
    mFillBlock := lookupBlock mLayout.fillBlock,
    mRoadBlock := lookupBlock mLayout.roadBlock,
    mBorderBlock := lookupBlock mLayout.borderBlock,
    mFloorIndexY := mLayout.floorY - kWorldMinY,
    mBorderIndexY := mLayout.floorY - kWorldMinY + 1 }

def bedrockIdx : Int := kBedrockY - kWorldMinY

def refillStatic (g : Generator B) (buf : ThreadBuffer B) : Option (ThreadBuffer B) := do
  let buf ← fillRange g.mAirBlock 0 bedrockIdx buf
  let buf ← fillLayer g.mBedrockBlock bedrockIdx buf
  let buf ← fillRange g.mFillBlock (bedrockIdx + 1) g.mFloorIndexY buf
  fillRange g.mAirBlock g.mFloorIndexY kTotalHeight buf

/-- The buffer is allocated once and refilled whenever the generator changes. -/
def acquireBuffer (g : Generator B) (buf : ThreadBuffer B) : Option (ThreadBuffer B) :=
  let buf := if buf.size ≠ kBufferSize then ⟨kBufferSize, fun _ => none, none⟩ else buf
  if buf.owner ≠ some g.this then (refillStatic g buf).map fun buf => { buf with owner := some g.this }
  else some buf

/-- The overlay of one column. -/
def overlay (g : Generator B) (area : PlotArea1D) (x z : Nat) (buf : ThreadBuffer B) : Option (ThreadBuffer B) :=
  match area with
  | .road => write g.mRoadBlock (bufferIndex x g.mFloorIndexY z) buf
  | .border => write g.mBorderBlock (bufferIndex x g.mBorderIndexY z) buf
  | .plot => some buf

/-- The loop over the chunk at chunk coordinates `(cx, cz)`. -/
def overlayChunk (g : Generator B) (cx cz : Int) (buf : ThreadBuffer B) : Option (ThreadBuffer B) :=
  (List.range kChunkWidth).foldlM (fun buf (x : Nat) =>
    let ax := classify1D (positiveMod (cx * kChunkWidth + x) g.mLayout.cellSize) g.mLayout
    (List.range kChunkWidth).foldlM (fun buf (z : Nat) =>
      let az := classify1D (positiveMod (cz * kChunkWidth + z) g.mLayout.cellSize) g.mLayout
      overlay g (combine2D ax az) x z buf) buf) buf

/-- The buffer whose view `setBlockVolume` is given. -/
def loadChunk (g : Generator B) (cx cz : Int) (buf : ThreadBuffer B) : Option (ThreadBuffer B) := do
  let buf ← acquireBuffer g buf
  let buf ← fillLayer g.mFloorBlock g.mFloorIndexY buf
  let buf ← fillLayer g.mAirBlock g.mBorderIndexY buf
  overlayChunk g cx cz buf

/-- What the buffer holds for the `i`-th column at height index `y`. -/
def ThreadBuffer.at (buf : ThreadBuffer B) (i : Nat) (y : Int) : Option B := buf.blocks (i * kTotalHeight + y)

/-! ## The loops, column by column -/

/-- Two cells of the buffer are one only if column and height agree. -/
theorem cell_inj {i j : Nat} {y y' : Int} (hy : 0 ≤ y ∧ y < kTotalHeight) (hy' : 0 ≤ y' ∧ y' < kTotalHeight) :
    (i : Int) * kTotalHeight + y = j * kTotalHeight + y' ↔ i = j ∧ y = y' := by
  simp only [kTotalHeight, kWorldMaxY, kWorldMinY] at *
  omega

/-- A step that succeeds inside the buffer, and what it leaves in each cell. -/
structure Writes (buf buf' : ThreadBuffer B) (new : Nat → Int → Option B) : Prop where
  size : buf'.size = buf.size
  owner : buf'.owner = buf.owner
  at_eq : ∀ i < kColumns, ∀ y, 0 ≤ y → y < kTotalHeight → buf'.at i y = new i y

theorem write_cell (block : B) {i : Nat} {y : Int} {buf : ThreadBuffer B} (hs : buf.size = kBufferSize)
    (hi : i < kColumns) (hy : 0 ≤ y ∧ y < kTotalHeight) :
    ∃ buf', write block (i * kTotalHeight + y) buf = some buf' ∧
      Writes buf buf' fun i' y' => if i' = i ∧ y' = y then some block else buf.at i' y' := by
  have hin : 0 ≤ (i : Int) * kTotalHeight + y ∧ (i : Int) * kTotalHeight + y < buf.size := by
    simp only [hs, kBufferSize, kColumns, kChunkWidth, kTotalHeight, kWorldMaxY, kWorldMinY] at *
    omega
  refine ⟨_, if_pos hin, rfl, rfl, fun i' _ y' hy₀ hy₁ => ?_⟩
  simp only [ThreadBuffer.at, Function.update_apply, cell_inj ⟨hy₀, hy₁⟩ hy]

theorem Writes.trans {a b c : ThreadBuffer B} {new new' : Nat → Int → Option B} (h : Writes a b new)
    (h' : Writes b c new') (new'' : Nat → Int → Option B)
    (heq : ∀ i < kColumns, ∀ y, 0 ≤ y → y < kTotalHeight → b.at i y = new i y → new' i y = new'' i y) :
    Writes a c new'' := by
  refine ⟨h'.size.trans h.size, h'.owner.trans h.owner, fun i hi y hy₀ hy₁ => ?_⟩
  rw [h'.at_eq i hi y hy₀ hy₁]
  exact heq i hi y hy₀ hy₁ (h.at_eq i hi y hy₀ hy₁)

theorem Writes.refl (buf : ThreadBuffer B) {new : Nat → Int → Option B} (h : ∀ i y, new i y = buf.at i y) :
    Writes buf buf new := ⟨rfl, rfl, fun i _ y _ _ => (h i y).symm⟩

theorem fillLayer_cell (block : B) {y : Int} {buf : ThreadBuffer B} (hs : buf.size = kBufferSize)
    (hy : 0 ≤ y ∧ y < kTotalHeight) :
    ∃ buf', fillLayer block y buf = some buf' ∧
      Writes buf buf' fun i' y' => if y' = y then some block else buf.at i' y' := by
  -- after `n` turns the layer is filled in the first `n` columns
  obtain ⟨buf', hb, hw⟩ := Runs.foldlM_range (s := buf) (n := kColumns)
    (f := fun buf (i : Nat) => write block (y + i * kTotalHeight) buf)
    (fun n b => Writes buf b fun i' y' => if i' < n ∧ y' = y then some block else buf.at i' y')
    (.refl buf fun i' y' => by simp)
    (fun n hn b hw => by
      obtain ⟨b', hb', hw'⟩ := write_cell block (hw.size.trans hs) hn hy
      refine ⟨b', by rw [Int.add_comm]; exact hb', hw.trans hw' _ fun i' hi' y' _ _ hat => ?_⟩
      rw [hat]
      by_cases hi : i' = n
      · simp [hi]
      · have : i' < n + 1 ↔ i' < n := by omega
        simp [hi, this])
  refine ⟨buf', hb, hw.size, hw.owner, fun i' hi' y' hy₀ hy₁ => ?_⟩
  rw [hw.at_eq i' hi' y' hy₀ hy₁]
  simp [hi']

theorem fillRange_cell (block : B) (lo hi : Int) {buf : ThreadBuffer B} (hs : buf.size = kBufferSize)
    (hlo : 0 ≤ lo) (hhi : hi ≤ kTotalHeight) :
    ∃ buf', fillRange block lo hi buf = some buf' ∧
      Writes buf buf' fun i' y' => if lo ≤ y' ∧ y' < hi then some block else buf.at i' y' := by
  obtain ⟨buf', hb, hw⟩ := Runs.foldlM_range (s := buf) (n := (hi - lo).toNat)
    (f := fun buf (k : Nat) => fillLayer block (lo + k) buf)
    (fun n b => Writes buf b fun i' y' => if lo ≤ y' ∧ y' < lo + n then some block else buf.at i' y')
    (.refl buf fun i' y' => if_neg (by omega))
    (fun n hn b hw => by
      obtain ⟨b', hb', hw'⟩ := fillLayer_cell block (hw.size.trans hs) (y := lo + n) (by omega)
      refine ⟨b', hb', hw.trans hw' _ fun i' hi' y' _ _ hat => ?_⟩
      rw [hat]
      by_cases hy : y' = lo + n
      · simp [hy]
      · have : y' < lo + ((n + 1 : Nat) : Int) ↔ y' < lo + n := by omega
        simp only [hy, this, if_false])
  refine ⟨buf', hb, hw.size, hw.owner, fun i' hi' y' hy₀ hy₁ => ?_⟩
  rw [hw.at_eq i' hi' y' hy₀ hy₁]
  have : (lo ≤ y' ∧ y' < lo + ((hi - lo).toNat : Int)) ↔ lo ≤ y' ∧ y' < hi := by omega
  simp only [this]

/-! ## What a chunk holds -/

/-- The heights the constructor computes lie inside the buffer. -/
structure Generator.InRange (g : Generator B) : Prop where
  floor : 0 ≤ g.mFloorIndexY ∧ g.mFloorIndexY + 1 < kTotalHeight
  border : g.mBorderIndexY = g.mFloorIndexY + 1

theorem inRange_plotGenerator (lookupBlock : String → B) (bedrock : String) (this : Nat) (layout : Layout) :
    (plotGenerator lookupBlock bedrock this layout).InRange := by
  obtain ⟨h₁, h₂⟩ := layout.sane_clamp.floorY
  constructor
  · simp only [plotGenerator, kTotalHeight]
    omega
  · rfl

/-- The part that does not depend on the column, as the four fills leave it: the last one wins. -/
def Generator.static (g : Generator B) (y : Int) : B :=
  if g.mFloorIndexY ≤ y then g.mAirBlock
  else if bedrockIdx < y then g.mFillBlock
  else if y = bedrockIdx then g.mBedrockBlock
  else g.mAirBlock

theorem refillStatic_cell {g : Generator B} (hg : g.InRange) (buf : ThreadBuffer B) (hs : buf.size = kBufferSize) :
    ∃ buf', refillStatic g buf = some buf' ∧ Writes buf buf' fun _ y => some (g.static y) := by
  have hb : (0 : Int) ≤ bedrockIdx ∧ bedrockIdx < kTotalHeight := by decide
  have hf := hg.floor
  obtain ⟨b₁, h₁, w₁⟩ := fillRange_cell g.mAirBlock 0 bedrockIdx hs le_rfl (by omega)
  have hs₁ := w₁.size.trans hs
  obtain ⟨b₂, h₂, w₂⟩ := fillLayer_cell g.mBedrockBlock hs₁ (y := bedrockIdx) (by omega)
  have hs₂ := w₂.size.trans hs₁
  obtain ⟨b₃, h₃, w₃⟩ := fillRange_cell g.mFillBlock (bedrockIdx + 1) g.mFloorIndexY hs₂ (by omega) (by omega)
  have hs₃ := w₃.size.trans hs₂
  obtain ⟨b₄, h₄, w₄⟩ := fillRange_cell g.mAirBlock g.mFloorIndexY kTotalHeight hs₃ (by omega) (by omega)
  refine ⟨b₄, by simp [refillStatic, h₁, h₂, h₃, h₄], w₄.size.trans hs₃ |>.trans hs.symm,
    w₄.owner.trans (w₃.owner.trans (w₂.owner.trans w₁.owner)), fun i hi y hy₀ hy₁ => ?_⟩
  rw [w₄.at_eq i hi y hy₀ hy₁, w₃.at_eq i hi y hy₀ hy₁, w₂.at_eq i hi y hy₀ hy₁, w₁.at_eq i hi y hy₀ hy₁]
  by_cases c₁ : g.mFloorIndexY ≤ y
  · simp [Generator.static, c₁, hy₁]
  · by_cases c₂ : bedrockIdx < y
    · have : bedrockIdx + 1 ≤ y ∧ y < g.mFloorIndexY := by omega
      simp [Generator.static, c₁, c₂, this]
    · have c₂' : ¬bedrockIdx + 1 ≤ y := by omega
      by_cases c₃ : y = bedrockIdx
      · subst c₃
        simp [Generator.static, c₁]
      · have c₄ : y < bedrockIdx := by omega
        simp [Generator.static, c₁, c₂, c₂', c₃, c₄, hy₀]

/-- One cell of a column after the overlay of its class. -/
def Generator.top (g : Generator B) (area : PlotArea1D) (y : Int) (old : Option B) : Option B :=
  match area with
  | .road => if y = g.mFloorIndexY then some g.mRoadBlock else old
  | .border => if y = g.mBorderIndexY then some g.mBorderBlock else old
  | .plot => old

theorem overlay_cell {g : Generator B} (hg : g.InRange) (area : PlotArea1D) {x z : Nat} (hx : x < kChunkWidth)
    (hz : z < kChunkWidth) {buf : ThreadBuffer B} (hs : buf.size = kBufferSize) :
    ∃ buf', overlay g area x z buf = some buf' ∧ Writes buf buf' fun i y =>
      if i = x * kChunkWidth + z then g.top area y (buf.at i y) else buf.at i y := by
  have hf := hg.floor
  have hb := hg.border
  have hcol : x * kChunkWidth + z < kColumns := by
    simp only [kColumns, kChunkWidth] at *
    omega
  cases area with
  | road =>
    obtain ⟨b, h, w⟩ := write_cell g.mRoadBlock hs hcol (y := g.mFloorIndexY) (by omega)
    refine ⟨b, h, w.size, w.owner, fun i hi y hy₀ hy₁ => ?_⟩
    rw [w.at_eq i hi y hy₀ hy₁]
    by_cases hxz : i = x * kChunkWidth + z <;> simp [hxz, Generator.top]
  | border =>
    obtain ⟨b, h, w⟩ := write_cell g.mBorderBlock hs hcol (y := g.mBorderIndexY) (by omega)
    refine ⟨b, h, w.size, w.owner, fun i hi y hy₀ hy₁ => ?_⟩
    rw [w.at_eq i hi y hy₀ hy₁]
    by_cases hxz : i = x * kChunkWidth + z <;> simp [hxz, Generator.top]
  | plot => exact ⟨buf, rfl, .refl buf fun i y => by simp [Generator.top]⟩

/-- The class of the `i`-th column of a chunk. -/
def Generator.columnArea (g : Generator B) (cx cz : Int) (i : Nat) : PlotArea1D :=
  g.mLayout.area (cx * kChunkWidth + (i / kChunkWidth : Nat)) (cz * kChunkWidth + (i % kChunkWidth : Nat))

theorem overlayChunk_cell {g : Generator B} (hg : g.InRange) (cx cz : Int) {buf : ThreadBuffer B}
    (hs : buf.size = kBufferSize) :
    ∃ buf', overlayChunk g cx cz buf = some buf' ∧ Writes buf buf' fun i y =>
      g.top (g.columnArea cx cz i) y (buf.at i y) := by
  -- the outer loop has done the columns of the first `n` values of x, the inner one those of the first `m` of z
  obtain ⟨buf', hb, hw⟩ := Runs.foldlM_range (s := buf) (n := kChunkWidth)
    (f := fun buf (x : Nat) => (List.range kChunkWidth).foldlM (fun buf (z : Nat) =>
      overlay g (combine2D (classify1D (positiveMod (cx * kChunkWidth + x) g.mLayout.cellSize) g.mLayout)
        (classify1D (positiveMod (cz * kChunkWidth + z) g.mLayout.cellSize) g.mLayout)) x z buf) buf)
    (fun n b => Writes buf b fun i y =>
      if i / kChunkWidth < n then g.top (g.columnArea cx cz i) y (buf.at i y) else buf.at i y)
    (.refl buf fun i y => by simp)
    (fun n hn b hw => by
      obtain ⟨b', hb', hw'⟩ := Runs.foldlM_range (s := b) (n := kChunkWidth)
        (f := fun buf (z : Nat) =>
          overlay g (combine2D (classify1D (positiveMod (cx * kChunkWidth + n) g.mLayout.cellSize) g.mLayout)
            (classify1D (positiveMod (cz * kChunkWidth + z) g.mLayout.cellSize) g.mLayout)) n z buf)
        (fun m c => Writes b c fun i y =>
          if i / kChunkWidth = n ∧ i % kChunkWidth < m then g.top (g.columnArea cx cz i) y (b.at i y) else b.at i y)
        (.refl b fun i y => by simp)
        (fun m hm c hw' => by
          obtain ⟨c', hc', hw''⟩ := overlay_cell hg _ hn hm (hw'.size.trans (hw.size.trans hs))
          refine ⟨c', hc', hw'.trans hw'' _ fun i _ y _ _ hat => ?_⟩
          rw [hat]
          have hi : i = n * kChunkWidth + m ↔ i / kChunkWidth = n ∧ i % kChunkWidth = m := by
            simp only [kChunkWidth] at *
            omega
          by_cases hq : i / kChunkWidth = n
          · by_cases hr : i % kChunkWidth = m
            · have harea : g.columnArea cx cz i = combine2D
                  (classify1D (positiveMod (cx * kChunkWidth + n) g.mLayout.cellSize) g.mLayout)
                  (classify1D (positiveMod (cz * kChunkWidth + m) g.mLayout.cellSize) g.mLayout) := by
                simp only [Generator.columnArea, Layout.area, hq, hr]
              simp [hi, hq, hr, harea]
            · have : i % kChunkWidth < m + 1 ↔ i % kChunkWidth < m := by omega
              simp only [hi, hq, hr, this, and_false, if_false]
          · simp only [hi, hq, false_and, if_false])
      refine ⟨b', hb', hw.trans hw' _ fun i _ y _ _ hat => ?_⟩
      rw [hat]
      have hr : i % kChunkWidth < kChunkWidth := Nat.mod_lt _ (by decide)
      by_cases hq : i / kChunkWidth = n
      · simp [hq, hr]
      · have : i / kChunkWidth < n + 1 ↔ i / kChunkWidth < n := by omega
        simp only [hq, this, false_and, if_false])
  refine ⟨buf', hb, hw.size, hw.owner, fun i hi y hy₀ hy₁ => ?_⟩
  rw [hw.at_eq i hi y hy₀ hy₁, if_pos]
  simp only [kColumns, kChunkWidth] at *
  omega

/-- The block a chunk has in a column of the given class. -/
def Generator.block (g : Generator B) (area : PlotArea1D) (y : Int) : B :=
  if y = g.mBorderIndexY then (if area = .border then g.mBorderBlock else g.mAirBlock)
  else if y = g.mFloorIndexY then (if area = .road then g.mRoadBlock else g.mFloorBlock)
  else g.static y

/-- A buffer filled for the generator holds the static part, the two layers that vary aside. -/
def Ready (g : Generator B) (buf : ThreadBuffer B) : Prop :=
  buf.size = kBufferSize → buf.owner = some g.this → ∀ i < kColumns, ∀ y, 0 ≤ y → y < kTotalHeight →
    y ≠ g.mFloorIndexY → y ≠ g.mBorderIndexY → buf.at i y = some (g.static y)

theorem acquireBuffer_cell {g : Generator B} (hg : g.InRange) {buf : ThreadBuffer B} (hr : Ready g buf) :
    ∃ buf', acquireBuffer g buf = some buf' ∧ buf'.size = kBufferSize ∧ buf'.owner = some g.this ∧ Ready g buf' := by
  unfold acquireBuffer
  by_cases hs : buf.size = kBufferSize
  · by_cases ho : buf.owner = some g.this
    · exact ⟨buf, by simp [hs, ho], hs, ho, hr⟩
    · obtain ⟨b, hb, hw⟩ := refillStatic_cell hg buf hs
      refine ⟨{ b with owner := some g.this }, by simp [hs, ho, hb], hw.size.trans hs, rfl, ?_⟩
      intro _ _ i hi y hy₀ hy₁ _ _
      exact hw.at_eq i hi y hy₀ hy₁
  · obtain ⟨b, hb, hw⟩ := refillStatic_cell hg ⟨kBufferSize, fun _ => none, none⟩ rfl
    refine ⟨{ b with owner := some g.this }, by simp [hs, hb], hw.size, rfl, ?_⟩
    intro _ _ i hi y hy₀ hy₁ _ _
    exact hw.at_eq i hi y hy₀ hy₁

/-- One cell of a column after the two layer fills and the overlay: only these layers are written. -/
def Generator.layers (g : Generator B) (area : PlotArea1D) (y : Int) (old : Option B) : Option B :=
  if y = g.mBorderIndexY then some (if area = .border then g.mBorderBlock else g.mAirBlock)
  else if y = g.mFloorIndexY then some (if area = .road then g.mRoadBlock else g.mFloorBlock)
  else old

theorem loadChunk_layers {g : Generator B} (hg : g.InRange) (cx cz : Int) {buf b₀ : ThreadBuffer B}
    (h₀ : acquireBuffer g buf = some b₀) (hs₀ : b₀.size = kBufferSize) :
    ∃ buf', loadChunk g cx cz buf = some buf' ∧ Writes b₀ buf' fun i y =>
      g.layers (g.columnArea cx cz i) y (b₀.at i y) := by
  have hf := hg.floor
  have hborder := hg.border
  obtain ⟨b₁, h₁, w₁⟩ := fillLayer_cell g.mFloorBlock hs₀ (y := g.mFloorIndexY) (by omega)
  have hs₁ := w₁.size.trans hs₀
  obtain ⟨b₂, h₂, w₂⟩ := fillLayer_cell g.mAirBlock hs₁ (y := g.mBorderIndexY) (by omega)
  have hs₂ := w₂.size.trans hs₁
  obtain ⟨b₃, h₃, w₃⟩ := overlayChunk_cell hg cx cz hs₂
  have hrun : loadChunk g cx cz buf = some b₃ :=
    Option.bind_eq_some_iff.mpr ⟨b₀, h₀, Option.bind_eq_some_iff.mpr ⟨b₁, h₁,
      Option.bind_eq_some_iff.mpr ⟨b₂, h₂, h₃⟩⟩⟩
  refine ⟨b₃, hrun, w₃.size.trans (hs₂.trans hs₀.symm), w₃.owner.trans (w₂.owner.trans w₁.owner),
    fun i hi y hy₀ hy₁ => ?_⟩
  rw [w₃.at_eq i hi y hy₀ hy₁, w₂.at_eq i hi y hy₀ hy₁, w₁.at_eq i hi y hy₀ hy₁]
  have hne : g.mFloorIndexY ≠ g.mBorderIndexY := by omega
  by_cases c₁ : y = g.mBorderIndexY
  · subst c₁
    cases g.columnArea cx cz i <;> simp [Generator.top, Generator.layers, hne.symm]
  · by_cases c₂ : y = g.mFloorIndexY
    · subst c₂
      cases g.columnArea cx cz i <;> simp [Generator.top, Generator.layers, hne]
    · cases g.columnArea cx cz i <;> simp [Generator.top, Generator.layers, c₁, c₂]

theorem Generator.layers_of_ne {g : Generator B} (area : PlotArea1D) {y : Int} (old : Option B)
    (hf : y ≠ g.mFloorIndexY) (hb : y ≠ g.mBorderIndexY) : g.layers area y old = old := by
  rw [layers, if_neg hb, if_neg hf]

theorem Generator.block_of_ne {g : Generator B} (area : PlotArea1D) {y : Int} (hf : y ≠ g.mFloorIndexY)
    (hb : y ≠ g.mBorderIndexY) : g.block area y = g.static y := by rw [block, if_neg hb, if_neg hf]

/-- Over the static part the layers give the block of the column. -/
theorem Generator.layers_eq_block {g : Generator B} (area : PlotArea1D) {y : Int} {old : Option B}
    (h : y ≠ g.mFloorIndexY → y ≠ g.mBorderIndexY → old = some (g.static y)) :
    g.layers area y old = some (g.block area y) := by
  rw [layers, block]
  split_ifs with hb hab hf har
  · rfl
  · rfl
  · rfl
  · rfl
  · exact h hf hb

/-- A chunk is always generated, whatever the buffer was used for before, and
each of its cells holds the block of its column's class. -/
theorem loadChunk_cell {g : Generator B} (hg : g.InRange) (cx cz : Int) {buf : ThreadBuffer B} (hr : Ready g buf) :
    ∃ buf', loadChunk g cx cz buf = some buf' ∧ buf'.size = kBufferSize ∧ buf'.owner = some g.this ∧
      ∀ i < kColumns, ∀ y, 0 ≤ y → y < kTotalHeight →
        buf'.at i y = some (g.block (g.columnArea cx cz i) y) := by
  obtain ⟨b₀, h₀, hs₀, ho₀, hr₀⟩ := acquireBuffer_cell hg hr
  obtain ⟨buf', hload, hw⟩ := loadChunk_layers hg cx cz h₀ hs₀
  refine ⟨buf', hload, hw.size.trans hs₀, hw.owner.trans ho₀, fun i hi y hy₀ hy₁ => ?_⟩
  rw [hw.at_eq i hi y hy₀ hy₁]
  exact Generator.layers_eq_block _ (hr₀ hs₀ ho₀ i hi y hy₀ hy₁)

/-! ## The column law -/

/-- The blocks of a column by world height. -/
def column (buf : ThreadBuffer B) (x z : Nat) (y : Int) : Option B :=
  buf.blocks (bufferIndex x (y - kWorldMinY) z)

/-- What the header documents for a column of the given class. -/
structure ColumnLaw (g : Generator B) (area : PlotArea1D) (blockAt : Int → Option B) : Prop where
  bedrock : blockAt kBedrockY = some g.mBedrockBlock
  fill : ∀ y, kBedrockY < y → y < g.mLayout.floorY → blockAt y = some g.mFillBlock
  surface : blockAt g.mLayout.floorY = some (if area = .road then g.mRoadBlock else g.mFloorBlock)
  border : area = .border → blockAt (g.mLayout.floorY + 1) = some g.mBorderBlock
  air : ∀ y, kWorldMinY ≤ y → y < kWorldMaxY → y ≠ kBedrockY → ¬(kBedrockY < y ∧ y < g.mLayout.floorY) →
    y ≠ g.mLayout.floorY → ¬(y = g.mLayout.floorY + 1 ∧ area = .border) → blockAt y = some g.mAirBlock

/-- The block that a column with its floor at or below the bedrock level has at that level. -/
def Generator.overBedrock (g : Generator B) (area : PlotArea1D) : B :=
  if kBedrockY = g.mLayout.floorY then (if area = .road then g.mRoadBlock else g.mFloorBlock)
  else if kBedrockY = g.mLayout.floorY + 1 ∧ area = .border then g.mBorderBlock
  else g.mAirBlock

/-- The heights are those of the layout. -/
structure Generator.OfLayout (g : Generator B) : Prop where
  sane : g.mLayout.Sane
  floor : g.mFloorIndexY = g.mLayout.floorY - kWorldMinY
  border : g.mBorderIndexY = g.mFloorIndexY + 1

theorem ofLayout_plotGenerator (lookupBlock : String → B) (bedrock : String) (this : Nat) (layout : Layout) :
    (plotGenerator lookupBlock bedrock this layout).OfLayout := ⟨layout.sane_clamp, rfl, rfl⟩

/-- The block of a column, by its height in the world. -/
theorem Generator.OfLayout.block_eq {g : Generator B} (hg : g.OfLayout) (area : PlotArea1D) (y : Int) :
    g.block area (y - kWorldMinY) =
      if y = g.mLayout.floorY + 1 then (if area = .border then g.mBorderBlock else g.mAirBlock)
      else if y = g.mLayout.floorY then (if area = .road then g.mRoadBlock else g.mFloorBlock)
      else if g.mLayout.floorY ≤ y then g.mAirBlock
      else if kBedrockY < y then g.mFillBlock
      else if y = kBedrockY then g.mBedrockBlock
      else g.mAirBlock := by
  have hfloor := hg.floor
  have hborder := hg.border
  have e₁ : y - kWorldMinY = g.mBorderIndexY ↔ y = g.mLayout.floorY + 1 := by omega
  have e₂ : y - kWorldMinY = g.mFloorIndexY ↔ y = g.mLayout.floorY := by omega
  have e₃ : g.mFloorIndexY ≤ y - kWorldMinY ↔ g.mLayout.floorY ≤ y := by omega
  have e₄ : bedrockIdx < y - kWorldMinY ↔ kBedrockY < y := by
    unfold bedrockIdx
    omega
  have e₅ : y - kWorldMinY = bedrockIdx ↔ y = kBedrockY := by
    unfold bedrockIdx
    omega
  simp only [Generator.block, Generator.static, e₁, e₂, e₃, e₄, e₅]

theorem Generator.OfLayout.block_bedrock {g : Generator B} (hg : g.OfLayout) (area : PlotArea1D)
    (h : kBedrockY < g.mLayout.floorY) : g.block area (kBedrockY - kWorldMinY) = g.mBedrockBlock := by
  have h₁ : kBedrockY ≠ g.mLayout.floorY + 1 := by omega
  have h₂ : kBedrockY ≠ g.mLayout.floorY := by omega
  rw [hg.block_eq, if_neg h₁, if_neg h₂, if_neg (by omega), if_neg (by omega), if_pos rfl]

/-- A floor at or below the bedrock level takes its place. -/
theorem Generator.OfLayout.block_overBedrock {g : Generator B} (hg : g.OfLayout) (area : PlotArea1D)
    (h : ¬ kBedrockY < g.mLayout.floorY) : g.block area (kBedrockY - kWorldMinY) = g.overBedrock area := by
  rw [hg.block_eq]
  unfold Generator.overBedrock
  by_cases h₁ : kBedrockY = g.mLayout.floorY + 1
  · have : kBedrockY ≠ g.mLayout.floorY := by omega
    by_cases hab : area = .border <;> simp [h₁, hab]
  · by_cases h₂ : kBedrockY = g.mLayout.floorY
    · simp [← h₂]
    · have : g.mLayout.floorY ≤ kBedrockY := by omega
      simp [h₁, h₂, this]

/-- The blocks a generator puts in a column obey the law exactly when its floor
lies above the bedrock level, or what replaces the bedrock is bedrock again. -/
theorem columnLaw_iff {g : Generator B} (hg : g.OfLayout) (area : PlotArea1D) {blockAt : Int → Option B}
    (hb : ∀ y, kWorldMinY ≤ y → y < kWorldMaxY → blockAt y = some (g.block area (y - kWorldMinY))) :
    ColumnLaw g area blockAt ↔ kBedrockY < g.mLayout.floorY ∨ g.overBedrock area = g.mBedrockBlock := by
  obtain ⟨hy₁, hy₂⟩ := hg.sane.floorY
  have hin : kWorldMinY ≤ kBedrockY ∧ kBedrockY < kWorldMaxY := by decide
  have hmax : kWorldMinY < kWorldMaxY := by decide
  have hbed := hb _ hin.1 hin.2
  constructor
  · intro law
    by_cases h : kBedrockY < g.mLayout.floorY
    · exact .inl h
    · rw [hg.block_overBedrock area h] at hbed
      exact .inr (Option.some.inj (hbed.symm.trans law.bedrock))
  · intro hcond
    constructor
    · by_cases h : kBedrockY < g.mLayout.floorY
      · rw [hbed, hg.block_bedrock area h]
      · rw [hbed, hg.block_overBedrock area h, hcond.resolve_left h]
    · intro y h₁ h₂
      rw [hb y (by omega) (by omega), hg.block_eq, if_neg (by omega), if_neg (by omega), if_neg (by omega), if_pos h₁]
    · rw [hb _ (by omega) (by omega), hg.block_eq, if_neg (by omega), if_pos rfl]
    · intro hab
      rw [hb _ (by omega) (by omega), hg.block_eq, if_pos rfl, if_pos hab]
    · intro y h₁ h₂ hne hfill hsurf hbord
      rw [hb y h₁ h₂, hg.block_eq]
      by_cases c : y = g.mLayout.floorY + 1
      · have hab : area ≠ .border := fun h => hbord ⟨c, h⟩
        rw [if_pos c, if_neg hab]
      · rw [if_neg c, if_neg hsurf]
        by_cases hle : g.mLayout.floorY ≤ y
        · rw [if_pos hle]
        · rw [if_neg hle, if_neg (by omega), if_neg hne]

theorem ready_of_owner {g : Generator B} {buf : ThreadBuffer B} (h : buf.owner ≠ some g.this) : Ready g buf :=
  fun _ ho => absurd ho h

/-- The columns of a chunk generated over a buffer that is fresh or filled for the same generator. -/
theorem loadChunk_column {g : Generator B} (hg : g.OfLayout) (hr : g.InRange) (cx cz : Int) (buf : ThreadBuffer B)
    (hready : Ready g buf) :
    ∃ buf', loadChunk g cx cz buf = some buf' ∧ ∀ x < kChunkWidth, ∀ z < kChunkWidth,
      ∀ y, kWorldMinY ≤ y → y < kWorldMaxY → column buf' x z y =
        some (g.block (g.mLayout.documentedArea (cx * kChunkWidth + x) (cz * kChunkWidth + z)) (y - kWorldMinY)) := by
  obtain ⟨buf', hload, _, _, hcell⟩ := loadChunk_cell hr cx cz hready
  refine ⟨buf', hload, fun x hx z hz y hy₀ hy₁ => ?_⟩
  have hi : x * kChunkWidth + z < kColumns ∧ (x * kChunkWidth + z) / kChunkWidth = x ∧
      (x * kChunkWidth + z) % kChunkWidth = z := by
    simp only [kColumns, kChunkWidth] at *
    omega
  have hat := hcell _ hi.1 (y - kWorldMinY) (by omega) (by unfold kTotalHeight; omega)
  rw [Generator.columnArea, hi.2.1, hi.2.2, hg.sane.area_eq] at hat
  exact hat

/-- For every layout, chunk and column: generating over a fresh buffer stays
inside it, and the documented law holds of the column exactly when the floor
lies above the bedrock level, or what the column has at that level instead is
bedrock as well. -/
theorem generated_column_law (lookupBlock : String → B) (bedrock : String) (this : Nat) (layout : Layout)
    (cx cz : Int) (buf : ThreadBuffer B) :
    ∃ buf', loadChunk (plotGenerator lookupBlock bedrock this layout) cx cz { buf with owner := none } = some buf' ∧
      ∀ x < kChunkWidth, ∀ z < kChunkWidth,
        (ColumnLaw (plotGenerator lookupBlock bedrock this layout)
            (layout.clamp.documentedArea (cx * kChunkWidth + x) (cz * kChunkWidth + z)) (column buf' x z) ↔
          kBedrockY < layout.clamp.floorY ∨
          (plotGenerator lookupBlock bedrock this layout).overBedrock
            (layout.clamp.documentedArea (cx * kChunkWidth + x) (cz * kChunkWidth + z)) = lookupBlock bedrock) := by
  have hg := ofLayout_plotGenerator lookupBlock bedrock this layout
  obtain ⟨buf', hload, hcol⟩ := loadChunk_column hg (inRange_plotGenerator lookupBlock bedrock this layout) cx cz
    { buf with owner := none } (ready_of_owner (by simp))
  exact ⟨buf', hload, fun x hx z hz => columnLaw_iff hg _ (hcol x hx z hz)⟩

/-- `clamp` lets the floor down to the bedrock level, and there the grass takes the bedrock's place. -/
theorem floor_replaces_bedrock :
    let layout := { Layout.default with floorY := -64 }
    let g := plotGenerator id "minecraft:bedrock" 0 layout
    layout.clamp = layout ∧ ∃ buf', loadChunk g 0 0 ThreadBuffer.initial = some buf' ∧
      column buf' 0 0 kBedrockY = some "minecraft:grass_block" ∧
      ¬ColumnLaw g (g.mLayout.documentedArea 0 0) (column buf' 0 0) := by
  intro layout g
  obtain ⟨buf', hload, hcol⟩ := loadChunk_column (ofLayout_plotGenerator id "minecraft:bedrock" 0 layout)
    (inRange_plotGenerator id "minecraft:bedrock" 0 layout) 0 0 ThreadBuffer.initial
    (ready_of_owner (by simp [ThreadBuffer.initial]))
  have hgrass : column buf' 0 0 kBedrockY = some "minecraft:grass_block" := by
    rw [hcol 0 (by decide) 0 (by decide) kBedrockY (by decide) (by decide)]
    decide
  refine ⟨by decide, buf', hload, hgrass, fun law => ?_⟩
  have := law.bedrock
  rw [hgrass] at this
  exact absurd this (by decide)

/-! ## One thread, many chunks -/

/-- The buffer of a thread after it has generated a sequence of chunks, each
named by its generator's address and its coordinates. -/
def afterLoads (gens : Nat → Generator B) (loads : List (Nat × Int × Int)) : Option (ThreadBuffer B) :=
  loads.foldlM (fun buf l => loadChunk (gens l.1) l.2.1 l.2.2 buf) ThreadBuffer.initial

theorem ready_after_load {g g' : Generator B} {area : Nat → PlotArea1D} {buf : ThreadBuffer B}
    (ho : buf.owner = some g.this) (hgg : g'.this = g.this → g' = g)
    (hcell : ∀ i < kColumns, ∀ y, 0 ≤ y → y < kTotalHeight → buf.at i y = some (g.block (area i) y)) :
    Ready g' buf := by
  intro _ ho' i hi y hy₀ hy₁ hf hb
  have heq : g' = g := hgg (Option.some.inj (ho'.symm.trans ho))
  subst heq
  rw [hcell i hi y hy₀ hy₁, Generator.block_of_ne _ hf hb]

/-- However a thread interleaves the generators of several plot worlds, no
chunk sees anything of the ones before it. -/
theorem afterLoads_cell (gens : Nat → Generator B) (hthis : ∀ a, (gens a).this = a) (hin : ∀ a, (gens a).InRange)
    (loads : List (Nat × Int × Int)) :
    ∃ buf, afterLoads gens loads = some buf ∧ (∀ a, Ready (gens a) buf) ∧
      ∀ pre a cx cz, loads = pre ++ [(a, cx, cz)] → ∀ i < kColumns, ∀ y, 0 ≤ y → y < kTotalHeight →
        buf.at i y = some ((gens a).block ((gens a).columnArea cx cz i) y) := by
  induction loads using List.reverseRecOn with
  | nil =>
    refine ⟨ThreadBuffer.initial, rfl, fun a => ready_of_owner (by simp [ThreadBuffer.initial]), ?_⟩
    intro pre a cx cz h
    simp at h
  | append_singleton loads l ih =>
    obtain ⟨b, hb, hready, _⟩ := ih
    obtain ⟨a, cx, cz⟩ := l
    obtain ⟨b', hb', _, ho, hcell⟩ := loadChunk_cell (hin a) cx cz (hready a)
    have hrun : afterLoads gens (loads ++ [(a, cx, cz)]) = some b' := by
      rw [afterLoads, List.foldlM_append]
      exact Option.bind_eq_some_iff.mpr ⟨b, hb, Option.bind_eq_some_iff.mpr ⟨b', hb', rfl⟩⟩
    refine ⟨b', hrun, fun a' => ?_, fun pre a' cx' cz' h => ?_⟩
    · refine ready_after_load ho (fun h => ?_) hcell
      rw [hthis, hthis] at h
      rw [h]
    · obtain ⟨-, h⟩ := List.append_inj' h rfl
      simp only [List.cons.injEq, Prod.mk.injEq, and_true] at h
      obtain ⟨rfl, rfl, rfl⟩ := h
      exact hcell

end PlotGenerator
