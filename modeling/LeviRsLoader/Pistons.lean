import LeviRsLoader.DimensionRules
import LeviRsLoader.PlotConfine

/-!
# Piston confinement

`DimRulePistonHook`: the engine settles which blocks a piston moves, then every one of them has
to stay in the piston's own area. The check looks one step along the facing of the piston,
whichever way it is about to move.
-/
namespace Pistons

open DimensionRules (Rules anyRuleFor allowed refuses)
open PlotConfine

/-- `DimRule::PistonPush` -/
def PistonPush : Int32 := 7

/-- `DimRule::PistonCrossPlot` -/
def PistonCrossPlot : Int32 := 11

structure BlockPos where
  x : Int
  y : Int
  z : Int
  deriving DecidableEq, Repr

def BlockPos.add (p q : BlockPos) : BlockPos := ⟨p.x + q.x, p.y + q.y, p.z + q.z⟩

def BlockPos.sub (p q : BlockPos) : BlockPos := ⟨p.x - q.x, p.y - q.y, p.z - q.z⟩

/-- The piston as the hook finds it: `origin` is what the engine answers, and the list of
attached blocks is the one it has left. `getFacingDir` is `none` where the call throws. -/
structure PistonBlockActor where
  mPosition : BlockPos
  getFacingDir : Option BlockPos
  origin : Bool
  mAttachedBlocks : List BlockPos
  deriving DecidableEq, Repr

/-- The loop over the attached blocks, with the worlds its queries leave behind. -/
def checkLoop (dim : Int) (self facing : BlockPos) : List BlockPos → World → Bool × World
  | [], w => (true, w)
  | b :: blocks, w =>
    let (here, w) := sameArea dim self.x self.z b.x b.z w
    if !here then (false, w)
    else
      let (there, w) := sameArea dim self.x self.z (b.x + facing.x) (b.z + facing.z) w
      if !there then (false, w) else checkLoop dim self facing blocks w

/-- `true` lets the piston move. -/
def DimRulePistonHook (s : Rules) (dim : Int32) (piston : PistonBlockActor) (w : World) : Bool × World :=
  let managed := decide (0 ≤ dim) && anyRuleFor s dim
  if managed && !allowed s dim PistonPush true then (false, w)
  else if !piston.origin then (false, w)
  else if !managed || allowed s dim PistonCrossPlot true || !hasPlotGrid dim.toInt w then (true, w)
  else match piston.getFacingDir with
    | none => (false, w)
    | some facing => checkLoop dim.toInt piston.mPosition facing piston.mAttachedBlocks w

/-! ## What the hook should answer -/

/-- The cell is in the piston's area. -/
def InArea (dim : Int) (w : World) (self c : BlockPos) : Prop := (sameArea dim self.x self.z c.x c.z w).1 = true

inductive Motion where
  | extend | retract
  deriving DecidableEq, Repr

/-- Where the engine puts a moved block: along the facing when the piston extends, against it
when it pulls its blocks back. -/
def landing (motion : Motion) (facing b : BlockPos) : BlockPos :=
  match motion with
  | .extend => b.add facing
  | .retract => b.sub facing

/-- The motion the engine permits stays in the area: no block comes from outside, none leaves. -/
def Confined (dim : Int) (w : World) (piston : PistonBlockActor) (facing : BlockPos) (motion : Motion) : Prop :=
  piston.origin = true ∧ ∀ b ∈ piston.mAttachedBlocks,
    InArea dim w piston.mPosition b ∧ InArea dim w piston.mPosition (landing motion facing b)

/-- Every attached block is in the area where it stands. -/
def StandsInside (dim : Int) (w : World) (piston : PistonBlockActor) : Prop :=
  ∀ b ∈ piston.mAttachedBlocks, InArea dim w piston.mPosition b

/-- The cell a step ahead of every attached block is in the area. -/
def AheadInside (dim : Int) (w : World) (piston : PistonBlockActor) (facing : BlockPos) : Prop :=
  ∀ b ∈ piston.mAttachedBlocks, InArea dim w piston.mPosition (b.add facing)

/-- The cell a step behind every attached block is in the area. -/
def BehindInside (dim : Int) (w : World) (piston : PistonBlockActor) (facing : BlockPos) : Prop :=
  ∀ b ∈ piston.mAttachedBlocks, InArea dim w piston.mPosition (b.sub facing)

/-! ## The loop -/

theorem valid_sameArea {w : World} (h : Valid w) (dim x₁ z₁ x₂ z₂ : Int) : Valid (sameArea dim x₁ z₁ x₂ z₂ w).2 :=
  valid_exec h (.sameArea dim x₁ z₁ x₂ z₂)

/-- A query leaves every answer of the next one as it was. -/
theorem inArea_sameArea {w : World} (h : Valid w) (dim x₁ z₁ x₂ z₂ : Int) (self c : BlockPos) :
    InArea dim (sameArea dim x₁ z₁ x₂ z₂ w).2 self c ↔ InArea dim w self c := by
  rw [InArea, InArea, (valid_sameArea h ..).sameArea_iff dim (self.x, self.z) (c.x, c.z),
    h.sameArea_iff dim (self.x, self.z) (c.x, c.z), declared_sameArea h]

/-- The loop without the worlds in between. -/
theorem checkLoop_iff {w : World} (h : Valid w) (dim : Int) (self facing : BlockPos) (blocks : List BlockPos) :
    (checkLoop dim self facing blocks w).1 = true
      ↔ ∀ b ∈ blocks, InArea dim w self b ∧ InArea dim w self (b.add facing) := by
  induction blocks generalizing w with
  | nil => simp [checkLoop]
  | cons b blocks ih =>
    have hhere : InArea dim w self b ↔ (sameArea dim self.x self.z b.x b.z w).1 = true := Iff.rfl
    have hvalid := valid_sameArea h dim self.x self.z b.x b.z
    have hkeep := inArea_sameArea h dim self.x self.z b.x b.z self
    rw [List.forall_mem_cons, checkLoop, hhere]
    generalize sameArea dim self.x self.z b.x b.z w = r at hvalid hkeep ⊢
    obtain ⟨here, w'⟩ := r
    dsimp only at hvalid hkeep ⊢
    cases here with
    | false => simp
    | true =>
      have hthere : InArea dim w' self (b.add facing)
          ↔ (sameArea dim self.x self.z (b.x + facing.x) (b.z + facing.z) w').1 = true := Iff.rfl
      have hvalid' := valid_sameArea hvalid dim self.x self.z (b.x + facing.x) (b.z + facing.z)
      have hkeep' := inArea_sameArea hvalid dim self.x self.z (b.x + facing.x) (b.z + facing.z) self
      simp only [← hkeep, hthere]
      generalize sameArea dim self.x self.z (b.x + facing.x) (b.z + facing.z) w' = r at hvalid' hkeep' ⊢
      obtain ⟨there, w''⟩ := r
      dsimp only at hvalid' hkeep' ⊢
      cases there with
      | false => simp
      | true => simp only [Bool.not_true, Bool.false_eq_true, if_false, true_and, ih hvalid', hkeep']

/-! ## The hook -/

section Hook

variable {s : Rules} {dim : Int32} {piston : PistonBlockActor} {facing : BlockPos} {w : World}

/-- The rule denies crossing, the other one leaves pistons alone, and the dimension has a grid. -/
structure Watched (s : Rules) (dim : Int32) (w : World) : Prop where
  push : refuses s dim PistonPush = false
  cross : refuses s dim PistonCrossPlot = true
  grid : hasPlotGrid dim.toInt w = true

theorem hook_iff (h : Valid w) (hw : Watched s dim w) (hf : piston.getFacingDir = some facing) :
    (DimRulePistonHook s dim piston w).1 = true
      ↔ piston.origin = true ∧ StandsInside dim.toInt w piston ∧ AheadInside dim.toInt w piston facing := by
  obtain ⟨hpush, hcross, hgrid⟩ := hw
  simp only [refuses, Bool.and_eq_true, Bool.not_eq_true', decide_eq_true_eq] at hcross
  obtain ⟨⟨hdim, hany⟩, hcross⟩ := hcross
  have hallowed : allowed s dim PistonPush true = true := by
    simpa [refuses, hdim, hany] using hpush
  have hsplit : (∀ b ∈ piston.mAttachedBlocks, InArea dim.toInt w piston.mPosition b
      ∧ InArea dim.toInt w piston.mPosition (b.add facing))
      ↔ StandsInside dim.toInt w piston ∧ AheadInside dim.toInt w piston facing :=
    ⟨fun hall => ⟨fun b hb => (hall b hb).1, fun b hb => (hall b hb).2⟩,
      fun hall b hb => ⟨hall.1 b hb, hall.2 b hb⟩⟩
  cases horigin : piston.origin with
  | false => simp [DimRulePistonHook, hdim, hany, hallowed, horigin]
  | true =>
    simp only [DimRulePistonHook, hdim, hany, hallowed, hcross, horigin, hgrid, hf, decide_true, Bool.and_true,
      Bool.and_false, Bool.not_true, Bool.or_false, Bool.false_eq_true, if_false, true_and, checkLoop_iff h, hsplit]

theorem motion_confined_iff (motion : Motion) :
    Confined dim.toInt w piston facing motion ↔ piston.origin = true ∧ StandsInside dim.toInt w piston
      ∧ match motion with
        | .extend => AheadInside dim.toInt w piston facing
        | .retract => BehindInside dim.toInt w piston facing := by
  rw [Confined]
  refine and_congr_right fun _ => ?_
  cases motion with
  | extend =>
    exact ⟨fun hall => ⟨fun b hb => (hall b hb).1, fun b hb => (hall b hb).2⟩,
      fun hall b hb => ⟨hall.1 b hb, hall.2 b hb⟩⟩
  | retract =>
    exact ⟨fun hall => ⟨fun b hb => (hall b hb).1, fun b hb => (hall b hb).2⟩,
      fun hall b hb => ⟨hall.1 b hb, hall.2 b hb⟩⟩

/-- The hook is right about a piston that extends. One that retracts it judges by the cells
ahead of the blocks, which is right when they lie inside exactly when the cells behind do, or
when the motion is refused anyway. -/
theorem hook_confines_iff (ops : List Op) (hw : Watched s dim (afterOps ops)) (hf : piston.getFacingDir = some facing)
    (motion : Motion) :
    ((DimRulePistonHook s dim piston (afterOps ops)).1 = true ↔ Confined dim.toInt (afterOps ops) piston facing motion)
      ↔ motion = .extend ∨ piston.origin = false ∨ ¬StandsInside dim.toInt (afterOps ops) piston
        ∨ (AheadInside dim.toInt (afterOps ops) piston facing
          ↔ BehindInside dim.toInt (afterOps ops) piston facing) := by
  rw [hook_iff (valid_afterOps ops) hw hf, motion_confined_iff]
  cases motion with
  | extend => simp
  | retract =>
    cases piston.origin with
    | false => simp
    | true =>
      simp only [true_and, reduceCtorEq, false_or, Bool.true_eq_false]
      by_cases hstands : StandsInside dim.toInt (afterOps ops) piston
      · simp only [hstands, true_and, not_true_eq_false, false_or]
      · simp only [hstands, false_and, not_false_eq_true, true_or]

end Hook

/-- A grid of 32 and 4 in dimension 3, with crossing denied. -/
def exampleRules : Rules := DimensionRules.setDimensionRule {} 3 PistonCrossPlot false

def exampleOps : List Op := [.setPlotGrid 3 32 4]

/-- A sticky piston at (1, 64, 0) that faces east, with a row of slime on the ground beside it. -/
def examplePiston : PistonBlockActor :=
  ⟨⟨1, 64, 0⟩, some ⟨1, 0, 0⟩, true, [⟨3, 64, 0⟩, ⟨3, 64, 1⟩, ⟨2, 64, 1⟩, ⟨1, 64, 1⟩, ⟨0, 64, 1⟩]⟩

theorem exampleWatched : Watched exampleRules 3 (afterOps exampleOps) := ⟨by decide, by decide, by decide⟩

theorem hook_confines_extending :
    (DimRulePistonHook exampleRules 3 examplePiston (afterOps exampleOps)).1 = true
      ↔ Confined 3 (afterOps exampleOps) examplePiston ⟨1, 0, 0⟩ .extend :=
  (hook_confines_iff exampleOps exampleWatched rfl .extend).mpr (.inl rfl)

/-- Pulled back, the last block of the row leaves the plot, and the hook lets it. -/
theorem retraction_leaves_plot :
    ¬((DimRulePistonHook exampleRules 3 examplePiston (afterOps exampleOps)).1 = true
      ↔ Confined 3 (afterOps exampleOps) examplePiston ⟨1, 0, 0⟩ .retract) := by
  intro h
  have hpermits : (DimRulePistonHook exampleRules 3 examplePiston (afterOps exampleOps)).1 = true := by decide
  have hlast : (sameArea 3 1 0 (-1) 1 (afterOps exampleOps)).1 = true :=
    ((h.mp hpermits).2 ⟨0, 64, 1⟩ (by decide)).2
  exact absurd hlast (by decide)

end Pistons
