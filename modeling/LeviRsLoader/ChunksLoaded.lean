import Mathlib.Data.Int.Order.Basic
import Mathlib.Tactic.SplitIfs

/-!
# Is this piece of land loaded

`api_level_chunks_loaded` of `GapFill.cpp` turns the rectangle of its caller into the centre
and the one radius that the engine's query takes.
-/
namespace ChunksLoaded

structure BlockPos where
  x : Int32
  y : Int32
  z : Int32
  deriving DecidableEq, Repr

/-- The arguments of the call. -/
structure Area where
  min_x : Int32
  min_z : Int32
  max_x : Int32
  max_z : Int32
  deriving DecidableEq, Repr

/-- The columns from `lo` to `hi` lie in the chunks `c` of one axis, sixteen columns each. -/
def Touches (lo hi c : Int) : Prop := ∃ v, lo ≤ v ∧ v ≤ hi ∧ v / 16 = c

/-- The engine's side: which chunks are loaded, and the query, which is true when every chunk
touched by the square within `r` of the centre is. -/
structure BlockSource where
  loaded : Int × Int → Bool
  hasChunksAt : BlockPos → Int32 → Bool → Bool
  hasChunksAt_iff : ∀ pos r ignoreClientChunk, 0 ≤ r.toInt → (hasChunksAt pos r ignoreClientChunk = true ↔
    ∀ c, Touches (pos.x.toInt - r.toInt) (pos.x.toInt + r.toInt) c.1 →
      Touches (pos.z.toInt - r.toInt) (pos.z.toInt + r.toInt) c.2 → loaded c = true)

def centre (area : Area) : BlockPos := ⟨(area.min_x + area.max_x) / 2, 0, (area.min_z + area.max_z) / 2⟩

/-- The radius after it has been shrunk by one. -/
def radius (area : Area) : Int32 :=
  let half_x := (area.max_x - area.min_x) / 2
  let half_z := (area.max_z - area.min_z) / 2
  let r := if half_x < half_z then half_x else half_z
  let r := if r > 0 then r - 1 else r
  if r < 0 then 0 else r

/-- `bs` is `none` where the dimension has no block source. -/
def api_level_chunks_loaded (bs : Option BlockSource) (area : Area) : Int32 :=
  match bs with
  | none => -1
  | some bs => if bs.hasChunksAt (centre area) (radius area) true then 1 else 0

/-- Every chunk the rectangle touches is loaded. -/
def BlockSource.AllLoaded (bs : BlockSource) (area : Area) : Prop :=
  ∀ c, Touches area.min_x.toInt area.max_x.toInt c.1 → Touches area.min_z.toInt area.max_z.toInt c.2 →
    bs.loaded c = true

/-- Corners in order, sums and differences inside `int32_t`. -/
structure Area.InRange (area : Area) : Prop where
  x : area.min_x ≤ area.max_x
  z : area.min_z ≤ area.max_z
  sum_x : -2147483648 ≤ area.min_x.toInt + area.max_x.toInt ∧ area.min_x.toInt + area.max_x.toInt < 2147483648
  sum_z : -2147483648 ≤ area.min_z.toInt + area.max_z.toInt ∧ area.min_z.toInt + area.max_z.toInt < 2147483648
  diff_x : area.max_x.toInt - area.min_x.toInt < 2147483648
  diff_z : area.max_z.toInt - area.min_z.toInt < 2147483648

/-! ## What the square leaves out -/

/-- Columns at either end of an axis that a square of half the shorter extent, less one, leaves
out: `extent` is that of the axis, `shorter` the smaller of the two. -/
def margin (extent shorter : Int) : Int := extent / 2 - max (shorter / 2 - 1) 0

/-- What stays out at the low end; halving towards zero moves the middle of an odd extent up
when it lies below zero. -/
def lowMargin (lo hi shorter : Int) : Int :=
  margin (hi - lo) shorter + if (hi - lo) % 2 = 1 ∧ lo + hi < 0 then 1 else 0

def highMargin (lo hi shorter : Int) : Int :=
  margin (hi - lo) shorter + if (hi - lo) % 2 = 1 ∧ 0 ≤ lo + hi then 1 else 0

/-- The margins of an axis lie in the chunks at its ends. -/
structure MarginsFit (lo hi shorter : Int) : Prop where
  low : lo % 16 + lowMargin lo hi shorter ≤ 15
  high : highMargin lo hi shorter ≤ hi % 16

/-- The smaller extent. -/
def Area.shorter (area : Area) : Int :=
  min (area.max_x.toInt - area.min_x.toInt) (area.max_z.toInt - area.min_z.toInt)

/-- On both axes. -/
structure Area.MarginsFit (area : Area) : Prop where
  x : ChunksLoaded.MarginsFit area.min_x.toInt area.max_x.toInt area.shorter
  z : ChunksLoaded.MarginsFit area.min_z.toInt area.max_z.toInt area.shorter

theorem touches_iff {lo hi : Int} (h : lo ≤ hi) (c : Int) : Touches lo hi c ↔ lo / 16 ≤ c ∧ c ≤ hi / 16 := by
  constructor
  · rintro ⟨v, hlo, hhi, rfl⟩
    omega
  · rintro ⟨hlo, hhi⟩
    by_cases hc : lo ≤ 16 * c
    · exact ⟨16 * c, hc, by omega, by omega⟩
    · exact ⟨lo, Int.le_refl lo, h, by omega⟩

/-! ## The numbers of the query -/

theorem tdiv_two (v : Int) : v.tdiv 2 = if v % 2 = 1 ∧ v < 0 then v / 2 + 1 else v / 2 := by
  have heven : (2 ∣ v) ↔ v % 2 = 0 := Int.dvd_iff_emod_eq_zero
  have hsign : Int.sign 2 = 1 := rfl
  simp only [Int.tdiv_eq_ediv, heven, hsign]
  split_ifs <;> omega

theorem toInt_half (v : Int32) : (v / 2).toInt = v.toInt.tdiv 2 := by
  have hlo := v.le_toInt
  have hhi := v.toInt_lt
  have htwo : (2 : Int32).toInt = 2 := rfl
  have htdiv := tdiv_two v.toInt
  rw [Int32.toInt_div, htwo, Int.bmod_eq_of_le]
  all_goals
    split_ifs at htdiv <;> omega

theorem toInt_middle {a b : Int32}
    (h : -2147483648 ≤ a.toInt + b.toInt ∧ a.toInt + b.toInt < 2147483648) :
    ((a + b) / 2).toInt = (a.toInt + b.toInt).tdiv 2 := by
  rw [toInt_half, Int32.toInt_add, Int.bmod_eq_of_le (by omega) (by omega)]

theorem toInt_halfExtent {a b : Int32} (h : a ≤ b) (hfit : b.toInt - a.toInt < 2147483648) :
    ((b - a) / 2).toInt = (b.toInt - a.toInt) / 2 := by
  have hle := Int32.le_iff_toInt_le.mp h
  rw [toInt_half, Int32.toInt_sub, Int.bmod_eq_of_le (by omega) (by omega), Int.tdiv_eq_ediv_of_nonneg (by omega)]

theorem toInt_smaller (a b : Int32) : (if a < b then a else b).toInt = min a.toInt b.toInt := by
  simp only [apply_ite Int32.toInt, Int32.lt_iff_toInt_lt]
  split_ifs <;> omega

theorem toInt_shrunk {r : Int32} (h : 0 ≤ r.toInt) :
    (if (if r > 0 then r - 1 else r) < 0 then 0 else if r > 0 then r - 1 else r).toInt = max (r.toInt - 1) 0 := by
  have hzero : (0 : Int32).toInt = 0 := rfl
  have hone : (1 : Int32).toInt = 1 := rfl
  have hhi := r.toInt_lt
  have hpred (hr : 0 < r.toInt) : (r - 1).toInt = r.toInt - 1 := by
    rw [Int32.toInt_sub, hone, Int.bmod_eq_of_le (by omega) (by omega)]
  by_cases hr : 0 < r.toInt
  · have hr' : r > 0 := Int32.lt_iff_toInt_lt.mpr hr
    have hge : ¬r - 1 < 0 := fun hlt => by
      have := Int32.lt_iff_toInt_lt.mp hlt
      rw [hpred hr, hzero] at this
      omega
    rw [if_pos hr', if_neg hge, hpred hr]
    omega
  · have hr' : ¬r > 0 := fun hlt => hr (Int32.lt_iff_toInt_lt.mp hlt)
    have hge : ¬r < 0 := fun hlt => by
      have := Int32.lt_iff_toInt_lt.mp hlt
      rw [hzero] at this
      omega
    rw [if_neg hr', if_neg hge]
    omega

theorem toInt_radius {area : Area} (h : area.InRange) : (radius area).toInt = max (area.shorter / 2 - 1) 0 := by
  have hx := Int32.le_iff_toInt_le.mp h.x
  have hz := Int32.le_iff_toInt_le.mp h.z
  have hhalf := toInt_smaller ((area.max_x - area.min_x) / 2) ((area.max_z - area.min_z) / 2)
  rw [toInt_halfExtent h.x h.diff_x, toInt_halfExtent h.z h.diff_z] at hhalf
  rw [radius, toInt_shrunk (by omega), hhalf, Area.shorter]
  omega

/-! ## When the answer is about the right chunks -/

/-- The ends of the square on one axis, between those of the rectangle. -/
theorem square_low (lo hi shorter : Int) :
    (lo + hi).tdiv 2 - max (shorter / 2 - 1) 0 = lo + lowMargin lo hi shorter := by
  rw [tdiv_two, lowMargin, margin]
  split_ifs <;> omega

theorem square_high (lo hi shorter : Int) :
    (lo + hi).tdiv 2 + max (shorter / 2 - 1) 0 = hi - highMargin lo hi shorter := by
  rw [tdiv_two, highMargin, margin]
  split_ifs <;> omega

section Axis

variable {lo hi shorter : Int}

/-- What is known of the axes of a rectangle. -/
structure Axis (lo hi shorter : Int) : Prop where
  order : lo ≤ hi
  nonneg : 0 ≤ shorter
  le : shorter ≤ hi - lo

theorem Axis.bounds (h : Axis lo hi shorter) :
    0 ≤ lowMargin lo hi shorter ∧ 0 ≤ highMargin lo hi shorter
      ∧ lo + lowMargin lo hi shorter ≤ hi - highMargin lo hi shorter := by
  obtain ⟨horder, hnonneg, hle⟩ := h
  simp only [lowMargin, highMargin, margin]
  split_ifs <;> omega

/-- The square never reaches into a chunk that the rectangle does not touch. -/
theorem Axis.touches_of_square (h : Axis lo hi shorter) {c : Int}
    (hc : Touches (lo + lowMargin lo hi shorter) (hi - highMargin lo hi shorter) c) : Touches lo hi c := by
  obtain ⟨hlow, hhigh, -⟩ := h.bounds
  obtain ⟨v, hlo, hhi, hv⟩ := hc
  exact ⟨v, by omega, by omega, hv⟩

theorem Axis.touches_of_fit (h : Axis lo hi shorter) (hfit : MarginsFit lo hi shorter) {c : Int}
    (hc : Touches lo hi c) : Touches (lo + lowMargin lo hi shorter) (hi - highMargin lo hi shorter) c := by
  obtain ⟨hlow, hhigh, hsquare⟩ := h.bounds
  have hlo := hfit.low
  have hhi := hfit.high
  rw [touches_iff h.order] at hc
  rw [touches_iff hsquare]
  omega

/-- A margin that does not fit leaves a chunk of the rectangle out. -/
theorem Axis.exists_left_out (h : Axis lo hi shorter) (hfit : ¬MarginsFit lo hi shorter) :
    ∃ c, Touches lo hi c ∧ ¬Touches (lo + lowMargin lo hi shorter) (hi - highMargin lo hi shorter) c := by
  obtain ⟨hlow, hhigh, hsquare⟩ := h.bounds
  by_cases hlo : lo % 16 + lowMargin lo hi shorter ≤ 15
  · have hhi : ¬highMargin lo hi shorter ≤ hi % 16 := fun hhi => hfit ⟨hlo, hhi⟩
    refine ⟨hi / 16, ⟨hi, h.order, Int.le_refl hi, rfl⟩, ?_⟩
    rw [touches_iff hsquare]
    omega
  · refine ⟨lo / 16, ⟨lo, Int.le_refl lo, h.order, rfl⟩, ?_⟩
    rw [touches_iff hsquare]
    omega

end Axis

theorem Area.InRange.axis_x {area : Area} (h : area.InRange) :
    Axis area.min_x.toInt area.max_x.toInt area.shorter := by
  have hx := Int32.le_iff_toInt_le.mp h.x
  have hz := Int32.le_iff_toInt_le.mp h.z
  refine ⟨hx, ?_, ?_⟩ <;> rw [Area.shorter] <;> omega

theorem Area.InRange.axis_z {area : Area} (h : area.InRange) :
    Axis area.min_z.toInt area.max_z.toInt area.shorter := by
  have hx := Int32.le_iff_toInt_le.mp h.x
  have hz := Int32.le_iff_toInt_le.mp h.z
  refine ⟨hz, ?_, ?_⟩ <;> rw [Area.shorter] <;> omega

/-- The chunks the query asks for. -/
def Asked (area : Area) (c : Int × Int) : Prop :=
  Touches (area.min_x.toInt + lowMargin area.min_x.toInt area.max_x.toInt area.shorter)
      (area.max_x.toInt - highMargin area.min_x.toInt area.max_x.toInt area.shorter) c.1
    ∧ Touches (area.min_z.toInt + lowMargin area.min_z.toInt area.max_z.toInt area.shorter)
      (area.max_z.toInt - highMargin area.min_z.toInt area.max_z.toInt area.shorter) c.2

theorem api_level_chunks_loaded_iff {area : Area} (h : area.InRange) (bs : BlockSource) :
    api_level_chunks_loaded (some bs) area = 1 ↔ ∀ c, Asked area c → bs.loaded c = true := by
  have hr := toInt_radius h
  have hquery := bs.hasChunksAt_iff (centre area) (radius area) true (by omega)
  simp only [hr, centre, toInt_middle h.sum_x, toInt_middle h.sum_z, square_low, square_high] at hquery
  have hone : api_level_chunks_loaded (some bs) area = 1 ↔ bs.hasChunksAt (centre area) (radius area) true = true := by
    rw [api_level_chunks_loaded]
    split_ifs with hask
    · exact ⟨fun _ => hask, fun _ => rfl⟩
    · exact ⟨fun hz => absurd hz (by decide), fun hask' => absurd hask' hask⟩
  rw [hone, centre, hquery]
  exact ⟨fun hall c hc => hall c hc.1 hc.2, fun hall c hx hz => hall c ⟨hx, hz⟩⟩

/-- The chunk indices of the columns from `lo` to `hi`. -/
def chunksBetween (lo hi : Int) : List Int :=
  (List.range (hi / 16 - lo / 16 + 1).toNat).map fun i : Nat => lo / 16 + (i : Int)

theorem mem_chunksBetween {lo hi : Int} (h : lo ≤ hi) (c : Int) : c ∈ chunksBetween lo hi ↔ Touches lo hi c := by
  rw [touches_iff h, chunksBetween, List.mem_map]
  constructor
  · rintro ⟨i, hi', rfl⟩
    have := List.mem_range.mp hi'
    omega
  · rintro ⟨hlo, hhi⟩
    exact ⟨(c - lo / 16).toNat, List.mem_range.mpr (by omega), by omega⟩

/-- The engine with exactly these chunks loaded. -/
def BlockSource.ofLoaded (loaded : Int × Int → Bool) : BlockSource where
  loaded := loaded
  hasChunksAt pos r _ :=
    (chunksBetween (pos.x.toInt - r.toInt) (pos.x.toInt + r.toInt)).all fun cx =>
      (chunksBetween (pos.z.toInt - r.toInt) (pos.z.toInt + r.toInt)).all fun cz => loaded (cx, cz)
  hasChunksAt_iff pos r _ hr := by
    simp only [List.all_eq_true]
    have hx : pos.x.toInt - r.toInt ≤ pos.x.toInt + r.toInt := by omega
    have hz : pos.z.toInt - r.toInt ≤ pos.z.toInt + r.toInt := by omega
    simp only [mem_chunksBetween hx, mem_chunksBetween hz, Prod.forall]
    exact ⟨fun h cx cz hcx hcz => h cx hcx cz hcz, fun h cx hcx cz hcz => h cx cz hcx hcz⟩

/-- The answer is 1 exactly when every chunk of the rectangle is loaded, for every set of
loaded chunks. -/
def AsksItsChunks (area : Area) : Prop :=
  ∀ bs : BlockSource, api_level_chunks_loaded (some bs) area = 1 ↔ bs.AllLoaded area

/-- Nothing outside is ever required; no chunk is left out exactly when the margins that the
square leaves at the ends of both axes stay within the chunks at these ends. -/
theorem chunks_loaded_iff {area : Area} (h : area.InRange) :
    AsksItsChunks area ↔ area.MarginsFit := by
  constructor
  · intro hasks
    by_contra hfit
    obtain ⟨c, hcx, hcz, hout⟩ : ∃ c : Int × Int, Touches area.min_x.toInt area.max_x.toInt c.1
        ∧ Touches area.min_z.toInt area.max_z.toInt c.2 ∧ ¬Asked area c := by
      by_cases hx : MarginsFit area.min_x.toInt area.max_x.toInt area.shorter
      · obtain ⟨cz, hcz, hout⟩ := h.axis_z.exists_left_out fun hz => hfit ⟨hx, hz⟩
        exact ⟨(area.min_x.toInt / 16, cz), ⟨_, Int.le_refl _, h.axis_x.order, rfl⟩, hcz, fun hask => hout hask.2⟩
      · obtain ⟨cx, hcx, hout⟩ := h.axis_x.exists_left_out hx
        exact ⟨(cx, area.min_z.toInt / 16), hcx, ⟨_, Int.le_refl _, h.axis_z.order, rfl⟩, fun hask => hout hask.1⟩
    -- everything but this one chunk is loaded
    have hyes : api_level_chunks_loaded (some (.ofLoaded fun c' => decide (c' ≠ c))) area = 1 :=
      (api_level_chunks_loaded_iff h _).mpr fun c' hask => decide_eq_true fun hc' => hout (hc' ▸ hask)
    exact of_decide_eq_true ((hasks _).mp hyes c hcx hcz) rfl
  · intro hfit bs
    rw [api_level_chunks_loaded_iff h]
    constructor
    · intro hall c hx hz
      exact hall c ⟨h.axis_x.touches_of_fit hfit.x hx, h.axis_z.touches_of_fit hfit.z hz⟩
    · intro hall c hask
      exact hall c (h.axis_x.touches_of_square hask.1) (h.axis_z.touches_of_square hask.2)

/-- One chunk from edge to edge. -/
theorem chunks_loaded_aligned : AsksItsChunks ⟨0, 0, 15, 15⟩ :=
  (chunks_loaded_iff ⟨by decide, by decide, by decide, by decide, by decide, by decide⟩).mpr
    ⟨⟨by decide, by decide⟩, ⟨by decide, by decide⟩⟩

/-- Four chunks in a row: the outer two are never asked for. -/
theorem row_of_chunks_missed : ¬∀ area : Area, area.InRange → AsksItsChunks area := by
  intro h
  have hrange : Area.InRange ⟨0, 0, 63, 15⟩ := ⟨by decide, by decide, by decide, by decide, by decide, by decide⟩
  have hyes : api_level_chunks_loaded (some (.ofLoaded fun c => decide (c ≠ (0, 0)))) ⟨0, 0, 63, 15⟩ = 1 := by decide
  have hall := (h _ hrange _).mp hyes (0, 0) ⟨0, by decide, by decide, rfl⟩ ⟨0, by decide, by decide, rfl⟩
  exact absurd hall (by decide)

end ChunksLoaded
