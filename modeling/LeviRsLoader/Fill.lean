import Mathlib.Order.Basic
import Mathlib.Tactic.SplitIfs

/-!
# Large fills

`split_box` of `fill.rs` cuts a box into slabs along y that the fill command accepts.
-/
namespace Fill

/-- `(i32, i32, i32)` -/
abbrev Corner := Int32 × Int32 × Int32

abbrev Box3D := Corner × Corner

def MAX_VOLUME : Int := 32768

/-- The loop of `split_box`; `push` is what a turn puts into `out`. The `i64` numbers stay far
inside their range. -/
def splitLoop (push : Int → Int → Box3D) (per : {n : Int // 1 ≤ n}) (y₁ y : Int) : List Box3D :=
  if y ≤ y₁ then
    let top := min (y + per.val - 1) y₁
    push y top :: splitLoop push per y₁ (top + 1)
  else []
termination_by (y₁ + 1 - y).toNat
decreasing_by
  have := per.property
  omega

/-- The corner with the least coordinates of the box between two corners. -/
def lower (a b : Corner) : Corner := (min a.1 b.1, min a.2.1 b.2.1, min a.2.2 b.2.2)

def upper (a b : Corner) : Corner := (max a.1 b.1, max a.2.1 b.2.1, max a.2.2 b.2.2)

def split_box (from' to' : Corner) : List Box3D :=
  let (x₀, y₀, z₀) := lower from' to'
  let (x₁, y₁, z₁) := upper from' to'
  let area := (x₁ - x₀ + 1).toInt * (z₁ - z₀ + 1).toInt
  if area ≤ 0 then []
  else
    let per := max (MAX_VOLUME.tdiv area) 1
    splitLoop (fun y top => ((x₀, Int32.ofInt y, z₀), (x₁, Int32.ofInt top, z₁))) ⟨per, Int.le_max_right _ _⟩
      y₁.toInt y₀.toInt

/-- The block at `p` belongs to the box. -/
def Box3D.Holds (b : Box3D) (p : Int × Int × Int) : Prop :=
  (b.1.1.toInt ≤ p.1 ∧ p.1 ≤ b.2.1.toInt) ∧ (b.1.2.1.toInt ≤ p.2.1 ∧ p.2.1 ≤ b.2.2.1.toInt)
    ∧ b.1.2.2.toInt ≤ p.2.2 ∧ p.2.2 ≤ b.2.2.2.toInt

/-- Blocks in one y layer. -/
def Box3D.layer (b : Box3D) : Int := (b.2.1.toInt - b.1.1.toInt + 1) * (b.2.2.2.toInt - b.1.2.2.toInt + 1)

def Box3D.volume (b : Box3D) : Int := b.layer * (b.2.2.1.toInt - b.1.2.1.toInt + 1)

/-- The box between two corners. -/
def boxOf (a b : Corner) : Box3D := (lower a b, upper a b)

/-- The extents in x and z that the code computes stay in `i32`. -/
structure ExtentsFit (b : Box3D) : Prop where
  x : b.2.1.toInt - b.1.1.toInt + 1 < 2147483648
  z : b.2.2.2.toInt - b.1.2.2.toInt + 1 < 2147483648

/-- Two corners of the box between `a` and `b` that lie opposite each other. -/
def Opposite (a b c d : Corner) : Prop :=
  (c.1 = a.1 ∧ d.1 = b.1 ∨ c.1 = b.1 ∧ d.1 = a.1)
    ∧ (c.2.1 = a.2.1 ∧ d.2.1 = b.2.1 ∨ c.2.1 = b.2.1 ∧ d.2.1 = a.2.1)
    ∧ (c.2.2 = a.2.2 ∧ d.2.2 = b.2.2 ∨ c.2.2 = b.2.2 ∧ d.2.2 = a.2.2)

/-! ## The loop -/

section Loop

variable {push : Int → Int → Box3D} {per : {n : Int // 1 ≤ n}} {y₁ : Int}

theorem splitLoop_of_le {y : Int} (h : y ≤ y₁) :
    splitLoop push per y₁ y
      = push y (min (y + per.val - 1) y₁) :: splitLoop push per y₁ (min (y + per.val - 1) y₁ + 1) := by
  rw [splitLoop, if_pos h]

theorem splitLoop_of_gt {y : Int} (h : ¬y ≤ y₁) : splitLoop push per y₁ y = [] := by
  rw [splitLoop, if_neg h]

/-- A piece: some layers of the box, at most `per` of them, from `y` up. -/
structure Slab (per y₁ y lo hi : Int) : Prop where
  start : y ≤ lo
  order : lo ≤ hi
  stop : hi ≤ y₁
  height : hi - lo + 1 ≤ per

variable (per) in
theorem slab_first {y : Int} (h : y ≤ y₁) : Slab per.val y₁ y y (min (y + per.val - 1) y₁) := by
  have hper := per.property
  exact ⟨Int.le_refl y, by omega, by omega, by omega⟩

theorem Slab.below {lo hi y y' : Int} (h : Slab per.val y₁ y' lo hi) (hy : y ≤ y') : Slab per.val y₁ y lo hi :=
  ⟨Int.le_trans hy h.start, h.order, h.stop, h.height⟩

theorem splitLoop_slab (y : Int) (b : Box3D) (h : b ∈ splitLoop push per y₁ y) :
    ∃ lo hi, b = push lo hi ∧ Slab per.val y₁ y lo hi := by
  induction y using splitLoop.induct per y₁ with
  | case1 y hy top ih =>
    have hfirst := slab_first per hy
    rw [splitLoop_of_le hy] at h
    rcases List.mem_cons.mp h with rfl | h
    · exact ⟨_, _, rfl, hfirst⟩
    · obtain ⟨lo, hi, hb, hslab⟩ := ih h
      exact ⟨lo, hi, hb, hslab.below (by omega)⟩
  | case2 y hy =>
    rw [splitLoop_of_gt hy] at h
    cases h

variable (push per) in
/-- Every layer is in a piece. -/
theorem splitLoop_cover (y t : Int) (hy : y ≤ t) (ht : t ≤ y₁) :
    ∃ lo hi, push lo hi ∈ splitLoop push per y₁ y ∧ Slab per.val y₁ y lo hi ∧ lo ≤ t ∧ t ≤ hi := by
  induction y using splitLoop.induct per y₁ with
  | case1 y hle top ih =>
    have hfirst := slab_first per hle
    rw [splitLoop_of_le hle]
    by_cases htop : t ≤ top
    · exact ⟨y, top, List.mem_cons_self, hfirst, hy, htop⟩
    · obtain ⟨lo, hi, hmem, hslab, hlo, hhi⟩ := ih (by omega)
      exact ⟨lo, hi, List.mem_cons_of_mem _ hmem, hslab.below (by omega), hlo, hhi⟩
  | case2 y hgt => exact absurd (Int.le_trans hy ht) hgt

/-- A later piece begins above the end of an earlier one. -/
theorem splitLoop_pairwise (R : Box3D → Box3D → Prop) (y : Int)
    (hR : ∀ lo hi lo' hi', Slab per.val y₁ y lo hi → Slab per.val y₁ y lo' hi' → hi < lo' →
      R (push lo hi) (push lo' hi')) :
    (splitLoop push per y₁ y).Pairwise R := by
  induction y using splitLoop.induct per y₁ with
  | case1 y hy top ih =>
    have hfirst := slab_first per hy
    have hnext : y ≤ top + 1 := by omega
    rw [splitLoop_of_le hy]
    refine List.Pairwise.cons (fun b hb => ?_)
      (ih fun lo hi lo' hi' h h' => hR lo hi lo' hi' (h.below hnext) (h'.below hnext))
    obtain ⟨lo, hi, rfl, hslab⟩ := splitLoop_slab _ b hb
    exact hR _ _ _ _ hfirst (hslab.below hnext) (Int.lt_of_add_one_le hslab.start)
  | case2 y hy =>
    rw [splitLoop_of_gt hy]
    exact List.Pairwise.nil

end Loop

/-! ## The pieces of a box -/

theorem toInt_min (a b : Int32) : (min a b).toInt = min a.toInt b.toInt := by
  show (if a ≤ b then a else b).toInt = _
  split_ifs with h
  · exact (Int.min_eq_left (Int32.le_iff_toInt_le.mp h)).symm
  · exact (Int.min_eq_right (Int.le_of_not_le fun h' => h (Int32.le_iff_toInt_le.mpr h'))).symm

theorem toInt_max (a b : Int32) : (max a b).toInt = max a.toInt b.toInt := by
  show (if a ≤ b then b else a).toInt = _
  split_ifs with h
  · exact (Int.max_eq_right (Int32.le_iff_toInt_le.mp h)).symm
  · exact (Int.max_eq_left (Int.le_of_not_le fun h' => h (Int32.le_iff_toInt_le.mpr h'))).symm

theorem boxOf_le (a b : Corner) :
    (boxOf a b).1.1.toInt ≤ (boxOf a b).2.1.toInt ∧ (boxOf a b).1.2.1.toInt ≤ (boxOf a b).2.2.1.toInt
      ∧ (boxOf a b).1.2.2.toInt ≤ (boxOf a b).2.2.2.toInt := by
  simp only [boxOf, lower, upper, toInt_min, toInt_max]
  omega

theorem toInt_extent {a b : Int32} (hle : a.toInt ≤ b.toInt) (hfit : b.toInt - a.toInt + 1 < 2147483648) :
    (b - a + 1).toInt = b.toInt - a.toInt + 1 := by
  have hone : (1 : Int32).toInt = 1 := rfl
  have hsub : (b.toInt - a.toInt).bmod (2 ^ 32) = b.toInt - a.toInt :=
    Int.bmod_eq_of_le (by omega) (by omega)
  rw [Int32.toInt_add, Int32.toInt_sub, hsub, hone, Int.bmod_eq_of_le (by omega) (by omega)]

/-- Layers a piece may have. -/
def Box3D.per (b : Box3D) : {n : Int // 1 ≤ n} := ⟨max (MAX_VOLUME.tdiv b.layer) 1, Int.le_max_right _ _⟩

/-- A slab of the box, from layer `lo` to layer `hi`. -/
def Box3D.slab (b : Box3D) (lo hi : Int) : Box3D :=
  ((b.1.1, Int32.ofInt lo, b.1.2.2), (b.2.1, Int32.ofInt hi, b.2.2.2))

theorem split_box_eq {a b : Corner} (h : ExtentsFit (boxOf a b)) :
    split_box a b
      = splitLoop (boxOf a b).slab (boxOf a b).per (boxOf a b).2.2.1.toInt (boxOf a b).1.2.1.toInt := by
  obtain ⟨hx, -, hz⟩ := boxOf_le a b
  have hlayer : ((upper a b).1 - (lower a b).1 + 1).toInt * ((upper a b).2.2 - (lower a b).2.2 + 1).toInt
      = (boxOf a b).layer := by
    rw [Box3D.layer, ← toInt_extent hx h.x, ← toInt_extent hz h.z]
    rfl
  have hpos : 0 < (boxOf a b).layer := Int.mul_pos (by omega) (by omega)
  simp only [split_box, hlayer, if_neg (Int.not_le.mpr hpos)]
  rfl

theorem layer_pos (a b : Corner) : 0 < (boxOf a b).layer := by
  obtain ⟨hx, -, hz⟩ := boxOf_le a b
  exact Int.mul_pos (by omega) (by omega)

/-- Layers of a slab of the box are layers of the box. -/
theorem toInt_slab {b : Box3D} {lo hi : Int} {n : Int} (h : Slab n b.2.2.1.toInt b.1.2.1.toInt lo hi) :
    (b.slab lo hi).1.2.1.toInt = lo ∧ (b.slab lo hi).2.2.1.toInt = hi := by
  have hfloor := b.1.2.1.le_toInt
  have hceil := b.2.2.1.toInt_lt
  have hstart := h.start
  have horder := h.order
  have hstop := h.stop
  exact ⟨Int32.toInt_ofInt_of_le (by omega) (by omega), Int32.toInt_ofInt_of_le (by omega) (by omega)⟩

theorem slab_volume {b : Box3D} {lo hi : Int} (hpos : 0 < b.layer)
    (h : Slab b.per.val b.2.2.1.toInt b.1.2.1.toInt lo hi) :
    (b.layer ≤ MAX_VOLUME → (b.slab lo hi).volume ≤ MAX_VOLUME) ∧ (MAX_VOLUME < b.layer → lo = hi) := by
  obtain ⟨hlo, hhi⟩ := toInt_slab h
  have hheight : hi - lo + 1 ≤ max (MAX_VOLUME.tdiv b.layer) 1 := h.height
  have horder := h.order
  constructor
  · intro hle
    have hdiv : 1 ≤ MAX_VOLUME.tdiv b.layer := by
      rw [Int.tdiv_eq_ediv_of_nonneg (by decide), Int.le_ediv_iff_mul_le hpos, Int.one_mul]
      exact hle
    have hfits : MAX_VOLUME.tdiv b.layer * b.layer ≤ MAX_VOLUME := by
      rw [Int.tdiv_eq_ediv_of_nonneg (by decide)]
      exact Int.ediv_mul_le _ (Int.ne_of_gt hpos)
    rw [Int.max_eq_left hdiv] at hheight
    calc (b.slab lo hi).volume = b.layer * (hi - lo + 1) := by rw [Box3D.volume, hlo, hhi]; rfl
      _ ≤ b.layer * MAX_VOLUME.tdiv b.layer := Int.mul_le_mul_of_nonneg_left hheight (Int.le_of_lt hpos)
      _ ≤ MAX_VOLUME := by rwa [Int.mul_comm]
  · intro hlt
    have hdiv : MAX_VOLUME.tdiv b.layer = 0 := Int.tdiv_eq_zero_of_lt (by decide) hlt
    rw [hdiv] at hheight
    omega

theorem split_box_slabs {a b : Corner} (h : ExtentsFit (boxOf a b)) (c : Box3D) (hc : c ∈ split_box a b) :
    ∃ lo hi, c = (boxOf a b).slab lo hi
      ∧ Slab (boxOf a b).per.val (boxOf a b).2.2.1.toInt (boxOf a b).1.2.1.toInt lo hi := by
  rw [split_box_eq h] at hc
  exact splitLoop_slab _ c hc

/-- A piece lies inside the box, and holds a block. -/
theorem slab_inside {b : Box3D} {lo hi n : Int} (h : Slab n b.2.2.1.toInt b.1.2.1.toInt lo hi)
    {p : Int × Int × Int} (hp : (b.slab lo hi).Holds p) : b.Holds p := by
  obtain ⟨hlo, hhi⟩ := toInt_slab h
  obtain ⟨hx, hy, hz⟩ := hp
  rw [hlo, hhi] at hy
  exact ⟨hx, ⟨Int.le_trans h.start hy.1, Int.le_trans hy.2 h.stop⟩, hz⟩

theorem lower_upper_of_opposite {a b c d : Corner} (h : Opposite a b c d) : boxOf c d = boxOf a b := by
  have hmin (x y : Int32) : min y x = min x y := by
    rw [← Int32.toInt_inj, toInt_min, toInt_min, Int.min_comm]
  have hmax (x y : Int32) : max y x = max x y := by
    rw [← Int32.toInt_inj, toInt_max, toInt_max, Int.max_comm]
  obtain ⟨hx, hy, hz⟩ := h
  simp only [boxOf, lower, upper]
  rcases hx with ⟨hx, hx'⟩ | ⟨hx, hx'⟩ <;> rcases hy with ⟨hy, hy'⟩ | ⟨hy, hy'⟩ <;>
    rcases hz with ⟨hz, hz'⟩ | ⟨hz, hz'⟩ <;> rw [hx, hx', hy, hy', hz, hz'] <;> simp only [hmin, hmax]

theorem split_box_opposite {a b c d : Corner} (h : Opposite a b c d) : split_box c d = split_box a b := by
  have hbox := lower_upper_of_opposite h
  have hlower : lower c d = lower a b := congrArg Prod.fst hbox
  have hupper : upper c d = upper a b := congrArg Prod.snd hbox
  simp only [split_box, hlower, hupper]

/-- One below the other, and so without a common block. -/
def Below (c d : Box3D) : Prop := c.2.2.1.toInt < d.1.2.1.toInt ∧ ∀ p, ¬(c.Holds p ∧ d.Holds p)

theorem split_box_ascending {a b : Corner} (h : ExtentsFit (boxOf a b)) : (split_box a b).Pairwise Below := by
  rw [split_box_eq h]
  refine splitLoop_pairwise Below _ fun lo hi lo' hi' hslab hslab' hlt => ?_
  obtain ⟨-, hhi⟩ := toInt_slab hslab
  obtain ⟨hlo', -⟩ := toInt_slab hslab'
  rw [Below, hhi, hlo']
  refine ⟨hlt, fun p ⟨hp, hp'⟩ => ?_⟩
  have htop := hp.2.1.2
  have hbottom := hp'.2.1.1
  rw [hhi] at htop
  rw [hlo'] at hbottom
  omega

theorem split_box_cover {a b : Corner} (h : ExtentsFit (boxOf a b)) (p : Int × Int × Int) (hp : (boxOf a b).Holds p) :
    ∃ c ∈ split_box a b, c.Holds p := by
  obtain ⟨hx, hy, hz⟩ := hp
  obtain ⟨lo, hi, hmem, hslab, hlo, hhi⟩ := splitLoop_cover (boxOf a b).slab (boxOf a b).per _ p.2.1 hy.1 hy.2
  obtain ⟨hlo', hhi'⟩ := toInt_slab hslab
  rw [split_box_eq h]
  exact ⟨_, hmem, hx, ⟨hlo'.trans_le hlo, hhi.trans_eq hhi'.symm⟩, hz⟩

/-- The boxes tile the given one in ascending slabs within the volume limit, whichever two
opposite corners name it; a layer above the limit is a box of its own. -/
theorem split_box_partition {a b : Corner} (h : ExtentsFit (boxOf a b)) :
    (split_box a b).Pairwise Below
    ∧ (∀ c ∈ split_box a b, (∃ p, c.Holds p) ∧ ∀ p, c.Holds p → (boxOf a b).Holds p)
    ∧ (∀ p, (boxOf a b).Holds p → ∃ c ∈ split_box a b, c.Holds p)
    ∧ (∀ c d, Opposite a b c d → split_box c d = split_box a b)
    ∧ ((boxOf a b).layer ≤ MAX_VOLUME → ∀ c ∈ split_box a b, c.volume ≤ MAX_VOLUME)
    ∧ (MAX_VOLUME < (boxOf a b).layer → ∀ c ∈ split_box a b, ∃ y, c = (boxOf a b).slab y y) := by
  refine ⟨split_box_ascending h, ?inside, split_box_cover h, fun c d => split_box_opposite, ?volume, ?layer⟩
  case inside =>
    intro c hc
    obtain ⟨lo, hi, rfl, hslab⟩ := split_box_slabs h c hc
    obtain ⟨hlo, hhi⟩ := toInt_slab hslab
    obtain ⟨hx, -, hz⟩ := boxOf_le a b
    refine ⟨⟨((boxOf a b).1.1.toInt, lo, (boxOf a b).1.2.2.toInt), ?_⟩, fun p => slab_inside hslab⟩
    exact ⟨⟨Int.le_refl _, hx⟩, ⟨Int.le_of_eq hlo, hslab.order.trans_eq hhi.symm⟩, Int.le_refl _, hz⟩
  case volume =>
    intro hle c hc
    obtain ⟨lo, hi, rfl, hslab⟩ := split_box_slabs h c hc
    exact (slab_volume (layer_pos a b) hslab).1 hle
  case layer =>
    intro hlt c hc
    obtain ⟨lo, hi, rfl, hslab⟩ := split_box_slabs h c hc
    obtain rfl := (slab_volume (layer_pos a b) hslab).2 hlt
    exact ⟨lo, rfl⟩

/-- A chunk from bottom to top, its corners the other way round. -/
theorem split_box_partition_chunk :
    ExtentsFit (boxOf (31, 320, 31) (0, -64, 0)) ∧ (split_box (31, 320, 31) (0, -64, 0)).Pairwise Below :=
  have hfit : ExtentsFit (boxOf (31, 320, 31) (0, -64, 0)) := ⟨by decide, by decide⟩
  ⟨hfit, (split_box_partition hfit).1⟩

end Fill
