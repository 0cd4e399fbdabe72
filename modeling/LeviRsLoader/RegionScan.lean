import LeviRsLoader.Fill
import LeviRsLoader.HookPositions
import Mathlib.Algebra.BigOperators.Group.List.Basic
import Mathlib.Algebra.GroupWithZero.Nat

/-!
# Region scans

`scan_region` lays out a grid of empty cells and hands it to the loader, which walks the blocks of the
region and then the actors of the level and calls a sink for each. The sinks find the cell by offsets
from the lower corner, in `i32`.
-/
namespace RegionScan

open Fill (Corner lower upper)
open HookCancel (r)
open HookPositions (Actor Box blockOf scanEntity)

/-! ## The grid -/

structure BlockInfo where
  name : String := ""
  snbt : String := ""

structure EntityInfo where
  kind : String
  snbt : String

structure Cell where
  block : BlockInfo := {}
  entities : List EntityInfo := []

structure ScanLayer where
  y : Int32
  cells : List (List Cell)

structure Scan where
  min : Corner
  max : Corner
  layers : List ScanLayer

/-- `as usize`: a negative number is far beyond the end of any vector. -/
def toUsize (v : Int32) : Nat := v.toInt64.toUInt64.toNat

/-- `lo..=hi`, and the values a C++ loop from `lo` to `hi` takes where `hi` is not the greatest `int`. -/
def rangeInclusive (lo hi : Int32) : List Int32 :=
  (List.range (hi.toInt + 1 - lo.toInt).toNat).map fun (i : Nat) => Int32.ofInt (lo.toInt + i)

def Scan.new (lo hi : Corner) : Scan :=
  let size_x := toUsize (Max.max (hi.1 - lo.1 + 1) 0)
  let size_z := toUsize (Max.max (hi.2.2 - lo.2.2 + 1) 0)
  { min := lo
    max := hi
    layers := (rangeInclusive lo.2.1 hi.2.1).map fun y =>
      ⟨y, List.replicate size_x (List.replicate size_z {})⟩ }

def Scan.cells (scan : Scan) : List Cell := scan.layers.flatMap fun l => l.cells.flatten

/-- An actor with what `save` writes of it. -/
structure Saved where
  actor : Actor
  snbt : List UInt8

structure World where
  levelReady : Bool
  /-- The type name and the serialized tag of each block, in a dimension that is there. -/
  blockSourceOf : Int32 → Option (Corner → List UInt8 × List UInt8)
  getRuntimeActorList : List (Option Saved)

/-- The block an actor is in. -/
def Saved.block (a : Saved) : Corner :=
  (blockOf a.actor.position.x, blockOf a.actor.position.y, blockOf a.actor.position.z)

/-- The extents stay in `i32`, and the loops end. -/
structure Fits (lo hi : Corner) : Prop where
  x : hi.1.toInt - lo.1.toInt < 2147483647
  y : hi.2.1.toInt - lo.2.1.toInt < 2147483648
  z : hi.2.2.toInt - lo.2.2.toInt < 2147483647
  top : hi.1.toInt < 2147483647 ∧ hi.2.1.toInt < 2147483647 ∧ hi.2.2.toInt < 2147483647

/-! ## Rows -/

section Rows

variable {α β : Type*} [DecidableEq α]

end Rows

section Range

variable {lo hi v : Int32}

/-- Below the upper bound the numbers of a range are themselves. -/
theorem toInt_of_lt {i : Nat} (h : i < (hi.toInt + 1 - lo.toInt).toNat) :
    (Int32.ofInt (lo.toInt + i)).toInt = lo.toInt + i := by
  have h₁ := Int32.le_toInt lo
  have h₂ := Int32.toInt_lt hi
  exact Int32.toInt_ofInt_of_le (by omega) (by omega)

theorem mem_rangeInclusive : v ∈ rangeInclusive lo hi ↔ lo ≤ v ∧ v ≤ hi := by
  rw [rangeInclusive, List.mem_map, Int32.le_iff_toInt_le, Int32.le_iff_toInt_le]
  constructor
  · rintro ⟨i, hi', rfl⟩
    rw [List.mem_range] at hi'
    rw [toInt_of_lt hi']
    omega
  · rintro ⟨h₁, h₂⟩
    refine ⟨(v.toInt - lo.toInt).toNat, List.mem_range.mpr (by omega), ?_⟩
    rw [show lo.toInt + ((v.toInt - lo.toInt).toNat : Int) = v.toInt by omega, Int32.ofInt_toInt]

theorem nodup_rangeInclusive (lo hi : Int32) : (rangeInclusive lo hi).Nodup := by
  refine (List.nodup_range).map_on fun i hi' j hj he => ?_
  have he' := congrArg Int32.toInt he
  rw [toInt_of_lt (List.mem_range.mp hi'), toInt_of_lt (List.mem_range.mp hj)] at he'
  omega

end Range

/-! ## The walk over a grid -/

section Grid

variable {lo hi : Corner} {g : Corner → Cell}

/-- The block lies between the corners. -/
def Inside (lo hi p : Corner) : Prop :=
  (lo.1 ≤ p.1 ∧ p.1 ≤ hi.1) ∧ (lo.2.1 ≤ p.2.1 ∧ p.2.1 ≤ hi.2.1) ∧ lo.2.2 ≤ p.2.2 ∧ p.2.2 ≤ hi.2.2

/-- `lo` is the lower corner, `hi` the upper one. -/
def Ordered (lo hi : Corner) : Prop := lo.1 ≤ hi.1 ∧ lo.2.1 ≤ hi.2.1 ∧ lo.2.2 ≤ hi.2.2

instance (lo hi p : Corner) : Decidable (Inside lo hi p) := inferInstanceAs (Decidable (_ ∧ _))

end Grid

/-! ## Exactness -/

section Exact

variable {w : World} {dim : Int32} {lo hi : Corner}

def exampleBlocks : Corner → List UInt8 × List UInt8 := fun _ => ([97, 105, 114], [])

/-- A level of air with one actor, half a block west of the origin. -/
def exampleWorld : World where
  levelReady := true
  blockSourceOf := fun _ => some exampleBlocks
  getRuntimeActorList := [none, some ⟨⟨[112, 105, 103], 7, false, ⟨-1 / 2, 0, 1 / 2⟩, 0⟩, [123, 125]⟩]

end Exact

end RegionScan
