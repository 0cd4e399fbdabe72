import LeviRsLoader.DimensionRules
import LeviRsLoader.HookPositions
import LeviRsLoader.PlotConfine
import Mathlib.Algebra.Order.Ring.Unbundled.Rat

/-!
# Entity confinement

`PlotConfineActorMoveHook` sees every displacement the engine applies to an entity. Where it
would end in another area, only its vertical part is handed on. The engine may still cut what it
is handed short, at a collision, on each axis for itself. The sum of two floats is a parameter.
-/
namespace PlotEntities

open DimensionRules (Rules getDimensionRule reads)
open HookPositions (Vec3 blockOf InRange)
open PlotConfine (PlotXZ World Op Declared SameArea Valid hasPlotGrid sameArea)
open Runs (Run Meets)

/-- `DimRule::EntityCrossPlot` -/
def EntityCrossPlot : Int32 := 12

structure Actor where
  isPlayer : Bool
  getDimensionId : Int32
  hasPassenger : Bool
  isRemoved : Bool
  getPosition : Vec3
  getPosDelta : Vec3
  deriving DecidableEq

/-- The first `try` block: `isPlayerActor`, `dim`, `ridden` and `from`; `none` where a call throws. -/
def readActor (throws : Bool) (actor : Actor) : Option (Bool × Int32 × Bool × Vec3) :=
  if throws then none
  else if actor.isPlayer then some (true, -1, true, ⟨0, 0, 0⟩)
  else some (false, actor.getDimensionId, actor.hasPassenger || actor.isRemoved, actor.getPosition)

/-- What `origin` is given, and whether the horizontal velocity is cleared after it. -/
structure Handed where
  posDelta : Vec3
  stops : Bool
  deriving DecidableEq

def Handed.pass (posDelta : Vec3) : Handed := ⟨posDelta, false⟩

def Handed.clamped (posDelta : Vec3) : Handed := ⟨{ posDelta with x := 0, z := 0 }, true⟩

def PlotConfineActorMoveHook (plus : Rat → Rat → Rat) (s : Rules) (throws : Bool) (actor : Actor) (posDelta : Vec3)
    (w : World) : Handed × World :=
  if w.gGridCount = 0 then (.pass posDelta, w)
  else if posDelta.x = 0 ∧ posDelta.z = 0 then (.pass posDelta, w)
  else match readActor throws actor with
    | none => (.pass posDelta, w)
    | some (isPlayerActor, dim, ridden, from_) =>
      if isPlayerActor || ridden || decide (dim < 0) then (.pass posDelta, w)
      else
        let (hasRule, allowCross) := getDimensionRule s dim EntityCrossPlot (some true)
        if !hasRule || allowCross.getD true || !hasPlotGrid dim.toInt w then (.pass posDelta, w)
        else
          let fx := blockOf from_.x
          let fz := blockOf from_.z
          let tx := blockOf (plus from_.x posDelta.x)
          let tz := blockOf (plus from_.z posDelta.z)
          if fx = tx ∧ fz = tz then (.pass posDelta, w)
          else
            let (same, w) := sameArea dim.toInt fx.toInt fz.toInt tx.toInt tz.toInt w
            if same then (.pass posDelta, w) else (.clamped posDelta, w)

/-! ## The server around it -/

structure State where
  rules : Rules
  world : World
  actors : Nat → Actor

def State.initial (actors : Nat → Actor) : State := ⟨{}, World.initial, actors⟩

inductive Label where
  | rule (call : DimensionRules.Call)
  | grid (op : Op)
  /-- The engine moves an entity: `landed` and `velocity` are what `origin` leaves it with.
  `throws` and `locked` tell whether the first and the second `try` block give up. -/
  | move (i : Nat) (posDelta : Vec3) (throws locked : Bool) (landed velocity : Vec3)
  /-- Anything else that happens to an entity: it spawns, mounts, is teleported or removed. -/
  | elsewhere (i : Nat) (actor : Actor)

/-- The coordinate lies between the two, ends included. -/
def Between {α : Type*} [LE α] (a b c : α) : Prop := a ≤ c ∧ c ≤ b ∨ b ≤ c ∧ c ≤ a

/-- The engine applies each part of a displacement in full, or as far as a collision allows. -/
structure Lands (plus : Rat → Rat → Rat) (position posDelta landed : Vec3) : Prop where
  x : Between position.x (plus position.x posDelta.x) landed.x
  y : Between position.y (plus position.y posDelta.y) landed.y
  z : Between position.z (plus position.z posDelta.z) landed.z

/-- The actor after a move the hook has let through as `handed`. -/
def Actor.after (actor : Actor) (handed : Handed) (locked : Bool) (landed velocity : Vec3) : Actor :=
  { actor with
    getPosition := landed
    getPosDelta := if handed.stops && !locked then { velocity with x := 0, z := 0 } else velocity }

inductive Step (plus : Rat → Rat → Rat) : State → Label → State → Prop where
  | rule (s : State) (call : DimensionRules.Call) :
      Step plus s (.rule call) { s with rules := DimensionRules.exec s.rules call }
  | grid (s : State) (op : Op) : Step plus s (.grid op) { s with world := PlotConfine.exec s.world op }
  | move (s : State) (i : Nat) (posDelta : Vec3) (throws locked : Bool) (landed velocity : Vec3)
      {handed : Handed} {w : World}
      (hook : PlotConfineActorMoveHook plus s.rules throws (s.actors i) posDelta s.world = (handed, w))
      (lands : Lands plus (s.actors i).getPosition handed.posDelta landed) :
      Step plus s (.move i posDelta throws locked landed velocity)
        { s with
          world := w
          actors := Function.update s.actors i ((s.actors i).after handed locked landed velocity) }
  | elsewhere (s : State) (i : Nat) (actor : Actor) :
      Step plus s (.elsewhere i actor) { s with actors := Function.update s.actors i actor }

/-! ## What confinement means -/

/-- The column of blocks a position is in. -/
def column (p : Vec3) : Int × Int := ((blockOf p.x).toInt, (blockOf p.z).toInt)

/-- The column the hook expects the entity in. -/
def target (plus : Rat → Rat → Rat) (p posDelta : Vec3) : Int × Int :=
  ((blockOf (plus p.x posDelta.x)).toInt, (blockOf (plus p.z posDelta.z)).toInt)

/-- The server confines the entity, to the areas of the grid. -/
structure Managed (s : State) (i : Nat) (d : Declared) : Prop where
  player : (s.actors i).isPlayer = false
  passenger : (s.actors i).hasPassenger = false
  removed : (s.actors i).isRemoved = false
  dim : 0 ≤ (s.actors i).getDimensionId
  rule : reads s.rules (s.actors i).getDimensionId EntityCrossPlot = some false
  grid : s.world.declared (s.actors i).getDimensionId.toInt = some d

/-- Both ends of the displacement have block coordinates of 32 bits. -/
structure Fits (plus : Rat → Rat → Rat) (p posDelta : Vec3) : Prop where
  x : InRange p.x
  z : InRange p.z
  tx : InRange (plus p.x posDelta.x)
  tz : InRange (plus p.z posDelta.z)

/-- Where the displacement ends in the area it starts in, so does every one that is cut short. -/
def Clear (d : Declared) (p t : Int × Int) : Prop :=
  SameArea (some d) p t → ∀ x z, Between p.1 t.1 x → Between p.2 t.2 z → SameArea (some d) p (x, z)

/-! ## The hook -/

section Hook

variable {plus : Rat → Rat → Rat} {s : State} {i : Nat} {d d' : Declared} {throws : Bool} {posDelta : Vec3}

theorem Managed.unique (h : Managed s i d) (h' : Managed s i d') : d = d' :=
  Option.some.inj (h.grid.symm.trans h'.grid)

/-- A grid that is set has plots. -/
def Sized (w : World) : Prop := ∀ dimension g, w.grids.lookup dimension = some g → 0 < g.plotSize

theorem Sized.insert {w : World} (h : Sized w) {dimension : Int} {g : PlotConfine.DimGrid} (hg : 0 < g.plotSize)
    (n : Int) : Sized ⟨w.grids.insert dimension g, n⟩ := by
  intro d g' hl
  rw [AList.lookup_insert_eq] at hl
  split at hl
  · cases hl
    exact hg
  · exact h d g' hl

theorem Sized.erase {w : World} (h : Sized w) (dimension n : Int) : Sized ⟨w.grids.erase dimension, n⟩ := by
  intro d g' hl
  rw [AList.lookup_erase_eq] at hl
  split at hl
  · cases hl
  · exact h d g' hl

theorem Sized.clear {w : World} (h : Sized w) (dimension : Int) : Sized (PlotConfine.clearPlotGrid dimension w) := by
  unfold PlotConfine.clearPlotGrid
  split
  · exact h
  · exact h.erase dimension _

theorem plotSize_resize {plotSize : Int} (roadWidth : Int) (g : PlotConfine.DimGrid) :
    (g.resize plotSize roadWidth).plotSize = plotSize := by
  unfold PlotConfine.DimGrid.resize
  split
  · rfl
  · next h =>
    simp only [not_or, ne_eq, not_not] at h
    exact h.1

theorem sized_exec {w : World} (hv : Valid w) (h : Sized w) (op : Op) : Sized (PlotConfine.exec w op) := by
  cases op with
  | setPlotGrid dimension plotSize roadWidth =>
    simp only [PlotConfine.exec, PlotConfine.setPlotGrid]
    split
    · exact h.clear dimension
    · have hsize : 0 < if plotSize > 512 then 512 else plotSize := by omega
      split
      · exact h.insert (by rw [plotSize_resize]; exact hsize) _
      · exact h.insert (by rw [plotSize_resize]; exact hsize) _
  | clearPlotGrid dimension => exact h.clear dimension
  | setPlotMerges dimension entries =>
    simp only [PlotConfine.exec, PlotConfine.setPlotMerges]
    split
    · exact h
    · next g hl =>
      refine h.insert ?_ _
      exact h dimension g hl
  | owningPlot => exact h
  | sameArea dimension x₁ z₁ x₂ z₂ =>
    simp only [PlotConfine.exec, sameArea]
    split
    · exact h
    · split
      · exact h
      · next g hl =>
        refine h.insert ?_ _
        rw [(PlotConfine.sameAreaLocked_spec x₁ z₁ x₂ z₂ (hv.memo _ _ hl)).2.1.plotSize]
        exact h dimension g hl

theorem hasPlotGrid_iff {w : World} (hv : Valid w) (h : Sized w) (dimension : Int) :
    hasPlotGrid dimension w = true ↔ (w.declared dimension).isSome := by
  unfold hasPlotGrid
  split
  · next h₀ => simp [World.declared, hv.lookup_of_zero h₀]
  · split
    · next hl => simp [World.declared, hl]
    · next g hl => simp [World.declared, hl, h dimension g hl]

/-- The entity is confined, its state can be read, and the hook expects it in another area. -/
def Crosses (plus : Rat → Rat → Rat) (s : State) (i : Nat) (throws : Bool) (posDelta : Vec3) : Prop :=
  throws = false ∧ (posDelta.x ≠ 0 ∨ posDelta.z ≠ 0) ∧ ∃ d, Managed s i d ∧
    ¬SameArea (some d) (column (s.actors i).getPosition) (target plus (s.actors i).getPosition posDelta)

theorem rule_iff (r : Rules) (dim : Int32) :
    (!(getDimensionRule r dim EntityCrossPlot (some true)).1
      || (getDimensionRule r dim EntityCrossPlot (some true)).2.getD true) = false
      ↔ reads r dim EntityCrossPlot = some false := by
  rw [DimensionRules.reads_eq]
  unfold getDimensionRule
  cases r.rules.lookup (DimensionRules.key dim EntityCrossPlot) with
  | none => simp
  | some v => cases v <;> simp

theorem Managed.read (h : Managed s i d) : readActor false (s.actors i)
    = some (false, (s.actors i).getDimensionId, false, (s.actors i).getPosition) := by
  simp [readActor, h.player, h.passenger, h.removed]

theorem readActor_cases {actor : Actor} {isPlayerActor ridden : Bool} {dim : Int32} {from_ : Vec3}
    (hr : readActor throws actor = some (isPlayerActor, dim, ridden, from_))
    (hn : ¬(isPlayerActor || ridden || decide (dim < 0)) = true) :
    (throws = false ∧ actor.isPlayer = false ∧ actor.hasPassenger = false ∧ actor.isRemoved = false)
      ∧ 0 ≤ actor.getDimensionId ∧ dim = actor.getDimensionId ∧ from_ = actor.getPosition := by
  unfold readActor at hr
  split at hr
  · cases hr
  · next ht =>
    split at hr
    · cases hr
      simp at hn
    · next hp =>
      cases hr
      simp only [Bool.false_or, Bool.or_eq_true, decide_eq_true_eq, not_or, Bool.not_eq_true, Int32.not_lt] at hn hp ht
      exact ⟨⟨ht, hp, hn.1.1, hn.1.2⟩, hn.2, rfl, rfl⟩

/-- The hook lets everything through as it is, but for an entity that crosses. Of the grids it
changes at most what a query memoises. -/
theorem hook_cases (hv : Valid s.world) (hz : Sized s.world) {handed : Handed} {w : World}
    (h : PlotConfineActorMoveHook plus s.rules throws (s.actors i) posDelta s.world = (handed, w)) :
    (handed = .clamped posDelta ∧ Crosses plus s i throws posDelta
      ∨ handed = .pass posDelta ∧ ¬Crosses plus s i throws posDelta)
    ∧ ∃ op, w = PlotConfine.exec s.world op
      ∧ ∀ dimension, w.declared dimension = s.world.declared dimension := by
  have hpass : (Handed.pass posDelta, s.world) = (handed, w) → ¬Crosses plus s i throws posDelta →
      (handed = .clamped posDelta ∧ Crosses plus s i throws posDelta
        ∨ handed = .pass posDelta ∧ ¬Crosses plus s i throws posDelta)
      ∧ ∃ op, w = PlotConfine.exec s.world op
        ∧ ∀ dimension, w.declared dimension = s.world.declared dimension := by
    rintro ⟨rfl, rfl⟩ hn
    exact ⟨.inr ⟨rfl, hn⟩, .owningPlot 0 0 0, rfl, fun _ => rfl⟩
  unfold PlotConfineActorMoveHook at h
  split at h
  · next h₀ =>
    refine hpass h ?_
    rintro ⟨-, -, d, hm, -⟩
    have := hm.grid
    rw [World.declared, hv.lookup_of_zero h₀] at this
    cases this
  split at h
  · next hzero =>
    refine hpass h ?_
    rintro ⟨-, hne, -⟩
    exact hne.elim (fun hx => hx hzero.1) fun hz => hz hzero.2
  next hne =>
  split at h
  · next hr =>
    refine hpass h ?_
    rintro ⟨ht, -, d, hm, -⟩
    rw [ht, hm.read] at hr
    cases hr
  next isPlayerActor dim ridden from_ hr =>
  split at h
  · next hskip =>
    refine hpass h ?_
    rintro ⟨ht, -, d, hm, -⟩
    rw [ht, hm.read] at hr
    cases hr
    simp only [Bool.false_or, decide_eq_true_eq] at hskip
    exact absurd hskip (Int32.not_lt.mpr hm.dim)
  next hskip =>
  obtain ⟨⟨ht, hplayer, hpassenger, hremoved⟩, hdim, rfl, rfl⟩ := readActor_cases hr hskip
  dsimp only at h
  split at h
  · next hgate =>
    refine hpass h ?_
    rintro ⟨-, -, d, hm, -⟩
    have hrule := (rule_iff s.rules (s.actors i).getDimensionId).mpr hm.rule
    have hgrid := (hasPlotGrid_iff hv hz (s.actors i).getDimensionId.toInt).mpr (by rw [hm.grid]; rfl)
    rw [hrule, hgrid] at hgate
    cases hgate
  next hgate =>
  simp only [Bool.or_eq_true, Bool.not_eq_true', not_or, Bool.not_eq_false] at hgate
  have hrule := (rule_iff s.rules (s.actors i).getDimensionId).mp (by simp [hgate])
  obtain ⟨d, hd⟩ := Option.isSome_iff_exists.mp
    ((hasPlotGrid_iff hv hz (s.actors i).getDimensionId.toInt).mp hgate.2)
  have hm : Managed s i d := ⟨hplayer, hpassenger, hremoved, hdim, hrule, hd⟩
  have hcross : Crosses plus s i throws posDelta ↔ ¬SameArea (some d) (column (s.actors i).getPosition)
      (target plus (s.actors i).getPosition posDelta) := by
    constructor
    · rintro ⟨_, _, d', hm', hn⟩
      rwa [hm'.unique hm] at hn
    · intro hn
      exact ⟨ht, by tauto, d, hm, hn⟩
  split at h
  · next hstays =>
    refine hpass h ?_
    rw [hcross, not_not, column, target, ← hstays.1, ← hstays.2]
    exact (PlotConfine.sameArea_equivalence _).refl _
  · have hsame := hv.sameArea_iff (s.actors i).getDimensionId.toInt (column (s.actors i).getPosition)
      (target plus (s.actors i).getPosition posDelta)
    rw [hd] at hsame
    have hkeep := PlotConfine.declared_sameArea hv (s.actors i).getDimensionId.toInt
      (column (s.actors i).getPosition).1 (column (s.actors i).getPosition).2
      (target plus (s.actors i).getPosition posDelta).1 (target plus (s.actors i).getPosition posDelta).2
    split at h
    · next hyes =>
      obtain ⟨rfl, rfl⟩ := h
      exact ⟨.inr ⟨rfl, by rw [hcross, not_not]; exact hsame.mp hyes⟩, .sameArea .., rfl, hkeep⟩
    · next hno =>
      obtain ⟨rfl, rfl⟩ := h
      exact ⟨.inl ⟨rfl, hcross.mpr fun h => hno (hsame.mpr h)⟩, .sameArea .., rfl, hkeep⟩

end Hook

/-! ## Reachable states -/

section Runs

variable {plus : Rat → Rat → Rat}

/-- The memos are right and the grids have plots. -/
structure Sound (s : State) : Prop where
  valid : Valid s.world
  sized : Sized s.world

theorem Sound.initial (actors : Nat → Actor) : Sound (State.initial actors) :=
  ⟨PlotConfine.valid_initial, fun dimension g h => by simp [State.initial, World.initial] at h⟩

theorem Sound.step {s t : State} {l : Label} (h : Sound s) (hs : Step plus s l t) : Sound t := by
  cases hs with
  | rule call => exact ⟨h.valid, h.sized⟩
  | grid op => exact ⟨PlotConfine.valid_exec h.valid op, sized_exec h.valid h.sized op⟩
  | move i posDelta throws locked landed velocity hook lands =>
    obtain ⟨-, op, rfl, -⟩ := hook_cases h.valid h.sized hook
    exact ⟨PlotConfine.valid_exec h.valid op, sized_exec h.valid h.sized op⟩
  | elsewhere i actor => exact ⟨h.valid, h.sized⟩

theorem sound_of_run {actors : Nat → Actor} {tr : List (State × Label)} {s : State}
    (h : Run (Step plus) (State.initial actors) tr s) : Sound s :=
  h.invariant' Sound (.initial actors) fun _ _ _ hi hs => hi.step hs

/-! ## Columns -/

theorem floor_mono {p q : Rat} (h : p ≤ q) : p.floor ≤ q.floor := Rat.le_floor_iff.mpr (le_trans (Rat.floor_le p) h)

theorem between_floor {p q v : Rat} (hp : InRange p) (hq : InRange q) (h : Between p q v) :
    Between (blockOf p).toInt (blockOf q).toInt (blockOf v).toInt := by
  have hv : InRange v := by
    rcases h with ⟨h₁, h₂⟩ | ⟨h₁, h₂⟩
    · exact ⟨le_trans hp.1 h₁, lt_of_le_of_lt h₂ hq.2⟩
    · exact ⟨le_trans hq.1 h₁, lt_of_le_of_lt h₂ hp.2⟩
  rw [HookPositions.toInt_blockOf hp, HookPositions.toInt_blockOf hq, HookPositions.toInt_blockOf hv]
  exact h.imp (fun h => ⟨floor_mono h.1, floor_mono h.2⟩) fun h => ⟨floor_mono h.1, floor_mono h.2⟩

theorem Between.symm {α : Type*} [LE α] {a b c : α} (h : Between a b c) : Between b a c := Or.symm h

theorem between_left (a b : Rat) : Between a b a :=
  (le_total a b).imp (fun h => ⟨le_rfl, h⟩) fun h => ⟨h, le_rfl⟩

/-- Every block between two ends is that of some position between them. -/
theorem exists_between {p q : Rat} (hp : InRange p) (hq : InRange q) {n : Int}
    (h : Between (blockOf p).toInt (blockOf q).toInt n) : ∃ v, Between p q v ∧ (blockOf v).toInt = n := by
  rw [HookPositions.toInt_blockOf hp, HookPositions.toInt_blockOf hq] at h
  -- the lower end where it lies in the block, else the border of the block on that side
  have hup : ∀ {a b : Rat}, InRange a → InRange b → a.floor ≤ n → n ≤ b.floor →
      ∃ v, Between a b v ∧ (blockOf v).toInt = n := by
    intro a b ha hb han hnb
    by_cases hn : a.floor = n
    · exact ⟨a, between_left a b, by rw [HookPositions.toInt_blockOf ha, hn]⟩
    · have hnb' : (n : Rat) ≤ b := Rat.le_floor_iff.mp hnb
      have han' : a ≤ n := le_of_lt (Rat.floor_lt_iff.mp (by omega))
      refine ⟨n, .inl ⟨han', hnb'⟩, ?_⟩
      rw [HookPositions.toInt_blockOf ⟨le_trans ha.1 han', lt_of_le_of_lt hnb' hb.2⟩, Rat.floor_intCast]
  rcases h with ⟨h₁, h₂⟩ | ⟨h₁, h₂⟩
  · exact hup hp hq h₁ h₂
  · obtain ⟨v, hv, hn⟩ := hup hq hp h₁ h₂
    exact ⟨v, hv.symm, hn⟩

/-! ## One move -/

section Move

variable {s : State} {i : Nat} {d : Declared} {posDelta : Vec3}

/-- Where nothing is added the hook need not look whether the displacement is horizontal. -/
theorem crosses_iff (hplus : ∀ v, plus v 0 = v) (hm : Managed s i d) :
    Crosses plus s i false posDelta
      ↔ ¬SameArea (some d) (column (s.actors i).getPosition) (target plus (s.actors i).getPosition posDelta) := by
  constructor
  · rintro ⟨_, _, d', hm', hn⟩
    rwa [hm'.unique hm] at hn
  · intro hn
    refine ⟨rfl, ?_, d, hm, hn⟩
    by_contra hzero
    simp only [not_or, not_not] at hzero
    refine hn ?_
    rw [target, hzero.1, hzero.2, hplus, hplus]
    exact (PlotConfine.sameArea_equivalence _).refl _

theorem lands_column {p δ v : Vec3} (hf : Fits plus p δ) (h : Lands plus p δ v) :
    Between (column p).1 (target plus p δ).1 (column v).1 ∧ Between (column p).2 (target plus p δ).2 (column v).2 :=
  ⟨between_floor hf.x hf.tx h.x, between_floor hf.z hf.tz h.z⟩

/-- Handed nothing but its vertical part, a displacement keeps the column. -/
theorem clamped_column (hplus : ∀ v, plus v 0 = v) {p δ v : Vec3} (h : Lands plus p (Handed.clamped δ).posDelta v) :
    column v = column p := by
  have hsame : ∀ {a b : Rat}, Between a (plus a 0) b → b = a := by
    intro a b hb
    rw [hplus] at hb
    rcases hb with ⟨h₁, h₂⟩ | ⟨h₁, h₂⟩ <;> exact le_antisymm ‹_› ‹_›
  rw [column, column, hsame h.x, hsame h.z]

/-- A confined entity ends in its column, or between it and a target of its area. -/
theorem move_cases (hplus : ∀ v, plus v 0 = v) (h : Sound s) (hm : Managed s i d)
    (hf : Fits plus (s.actors i).getPosition posDelta) {t : State} {locked : Bool} {landed velocity : Vec3}
    (hs : Step plus s (.move i posDelta false locked landed velocity) t) :
    column landed = column (s.actors i).getPosition
      ∨ SameArea (some d) (column (s.actors i).getPosition) (target plus (s.actors i).getPosition posDelta)
        ∧ Between (column (s.actors i).getPosition).1 (target plus (s.actors i).getPosition posDelta).1
          (column landed).1
        ∧ Between (column (s.actors i).getPosition).2 (target plus (s.actors i).getPosition posDelta).2
          (column landed).2 := by
  cases hs with
  | move _ _ _ _ _ _ hook lands =>
    obtain ⟨⟨rfl, -⟩ | ⟨rfl, hn⟩, -⟩ := hook_cases h.valid h.sized hook
    · exact .inl (clamped_column hplus lands)
    · rw [crosses_iff hplus hm, not_not] at hn
      exact .inr ⟨hn, lands_column hf lands⟩

theorem move_stays (hplus : ∀ v, plus v 0 = v) (h : Sound s) (hm : Managed s i d)
    (hf : Fits plus (s.actors i).getPosition posDelta)
    (hc : Clear d (column (s.actors i).getPosition) (target plus (s.actors i).getPosition posDelta))
    {t : State} {locked : Bool} {landed velocity : Vec3}
    (hs : Step plus s (.move i posDelta false locked landed velocity) t) :
    SameArea (some d) (column (s.actors i).getPosition) (column landed) := by
  rcases move_cases hplus h hm hf hs with heq | ⟨hsame, hx, hz⟩
  · rw [heq]
    exact (PlotConfine.sameArea_equivalence _).refl _
  · exact hc hsame _ _ hx hz

/-- Applied in full, a move ends in the area, or is not let through. -/
theorem full_stays (hplus : ∀ v, plus v 0 = v) (h : Sound s) (hm : Managed s i d)
    (hf : Fits plus (s.actors i).getPosition posDelta) {t : State} {locked : Bool} {landed velocity : Vec3}
    (hfull : column landed = target plus (s.actors i).getPosition posDelta)
    (hs : Step plus s (.move i posDelta false locked landed velocity) t) :
    SameArea (some d) (column (s.actors i).getPosition) (column landed) := by
  rcases move_cases hplus h hm hf hs with heq | ⟨hsame, -, -⟩
  · rw [heq]
    exact (PlotConfine.sameArea_equivalence _).refl _
  · rw [hfull]
    exact hsame

/-- Any column between the two a collision may leave the entity in. -/
theorem move_reaches (hplus : ∀ v, plus v 0 = v) (h : Sound s) (hm : Managed s i d)
    (hf : Fits plus (s.actors i).getPosition posDelta)
    (hsame : SameArea (some d) (column (s.actors i).getPosition) (target plus (s.actors i).getPosition posDelta))
    {x z : Int} (hx : Between (column (s.actors i).getPosition).1 (target plus (s.actors i).getPosition posDelta).1 x)
    (hz : Between (column (s.actors i).getPosition).2 (target plus (s.actors i).getPosition posDelta).2 z) :
    ∃ t landed, Step plus s (.move i posDelta false false landed ⟨0, 0, 0⟩) t ∧ column landed = (x, z) := by
  obtain ⟨x', hbx, hx'⟩ := exists_between hf.x hf.tx hx
  obtain ⟨z', hbz, hz'⟩ := exists_between hf.z hf.tz hz
  obtain ⟨handed, w, hook⟩ : ∃ handed w, PlotConfineActorMoveHook plus s.rules false (s.actors i) posDelta s.world
      = (handed, w) := ⟨_, _, rfl⟩
  obtain ⟨⟨rfl, hcross⟩ | ⟨rfl, -⟩, -⟩ := hook_cases h.valid h.sized hook
  · exact absurd hsame ((crosses_iff hplus hm).mp hcross)
  · exact ⟨_, ⟨x', (s.actors i).getPosition.y, z'⟩, .move s i posDelta false false _ _ hook
      ⟨hbx, between_left _ _, hbz⟩, by rw [column, hx', hz']⟩

end Move

/-! ## Clear displacements -/

/-- One step along one axis has nothing in between. -/
theorem clear_of_step (d : Declared) {p t : Int × Int} (h : (t.1 - p.1).natAbs + (t.2 - p.2).natAbs ≤ 1) :
    Clear d p t := by
  intro hsame x z hx hz
  unfold Between at hx hz
  have hend : x = p.1 ∧ z = p.2 ∨ x = t.1 ∧ z = t.2 := by omega
  rcases hend with ⟨rfl, rfl⟩ | ⟨rfl, rfl⟩
  · exact (PlotConfine.sameArea_equivalence _).refl _
  · exact hsame

/-- The road column east of a plot's southern edge, and the one south of its eastern edge. -/
def eastOfCorner (d : Declared) (a : PlotXZ) : Int × Int :=
  (a.x * (d.plotSize + d.roadWidth) + d.plotSize, a.z * (d.plotSize + d.roadWidth) + d.plotSize - 1)

def southOfCorner (d : Declared) (a : PlotXZ) : Int × Int :=
  (a.x * (d.plotSize + d.roadWidth) + d.plotSize - 1, a.z * (d.plotSize + d.roadWidth) + d.plotSize)

/-- The plot's own corner, between the two. -/
def corner (d : Declared) (a : PlotXZ) : Int × Int := ((southOfCorner d a).1, (eastOfCorner d a).2)

theorem corner_open {d : Declared} (hmask : ∀ a, d.mask a = none) (hp : 0 < d.plotSize) (hr : 0 < d.roadWidth)
    (a : PlotXZ) : (¬∃ b, d.Owns (eastOfCorner d a).1 (eastOfCorner d a).2 b)
      ∧ (¬∃ b, d.Owns (southOfCorner d a).1 (southOfCorner d a).2 b)
      ∧ d.Owns (corner d a).1 (corner d a).2 a := by
  have hcell : 0 < d.plotSize + d.roadWidth := by omega
  have hmod : ∀ n k : Int, 0 ≤ k → k < d.plotSize + d.roadWidth →
      (n * (d.plotSize + d.roadWidth) + k) % (d.plotSize + d.roadWidth) = k := by
    intro n k h₀ h₁
    rw [Int.add_comm, Int.add_mul_emod_self_right, Int.emod_eq_of_lt h₀ h₁]
  have hdiv : ∀ n k : Int, 0 ≤ k → k < d.plotSize + d.roadWidth →
      (n * (d.plotSize + d.roadWidth) + k) / (d.plotSize + d.roadWidth) = n := by
    intro n k h₀ h₁
    rw [Int.add_comm, Int.add_mul_ediv_right _ _ (by omega), Int.ediv_eq_zero_of_lt h₀ h₁, Int.zero_add]
  refine ⟨?_, ?_, ?_⟩
  · refine (PlotConfine.owns_of_noMerges hmask hcell _ _).mpr (.inl ?_)
    rw [eastOfCorner, hmod _ _ (by omega) (by omega)]
  · refine (PlotConfine.owns_of_noMerges hmask hcell _ _).mpr (.inr ?_)
    rw [southOfCorner, hmod _ _ (by omega) (by omega)]
  · have hx := hmod a.x (d.plotSize - 1) (by omega) (by omega)
    have hz := hmod a.z (d.plotSize - 1) (by omega) (by omega)
    have hx' := hdiv a.x (d.plotSize - 1) (by omega) (by omega)
    have hz' := hdiv a.z (d.plotSize - 1) (by omega) (by omega)
    simp only [← Int.add_sub_assoc] at hx hz hx' hz'
    simp only [corner, southOfCorner, eastOfCorner]
    refine ⟨hcell, by rw [hx', hz'], fun h => ?_, fun h => ?_, fun h => ?_⟩
    · rw [hx] at h
      omega
    · rw [hz] at h
      omega
    · rw [hx] at h
      omega

/-! ## Runs -/

/-- Nothing but the hook decides where the entity goes in this step: it stays confined to one
grid, and a move of it can be read, has block coordinates and is applied in full or clear. -/
structure Held (plus : Rat → Rat → Rat) (i : Nat) (d : Declared) (s : State) (l : Label) : Prop where
  managed : Managed s i d
  move : ∀ posDelta throws locked landed velocity, l = .move i posDelta throws locked landed velocity →
    throws = false ∧ Fits plus (s.actors i).getPosition posDelta
      ∧ (column landed = target plus (s.actors i).getPosition posDelta
        ∨ Clear d (column (s.actors i).getPosition) (target plus (s.actors i).getPosition posDelta))
  elsewhere : ∀ actor, l ≠ .elsewhere i actor

theorem held_step (hplus : ∀ v, plus v 0 = v) {s t : State} {l : Label} {i : Nat} {d : Declared} (h : Sound s)
    (hheld : Held plus i d s l) (hs : Step plus s l t) :
    SameArea (some d) (column (s.actors i).getPosition) (column (t.actors i).getPosition) := by
  have hrefl := (PlotConfine.sameArea_equivalence (some d)).refl
  cases hs with
  | rule call => exact hrefl _
  | grid op => exact hrefl _
  | move j posDelta throws locked landed velocity hook lands =>
    by_cases hj : i = j
    · subst hj
      obtain ⟨rfl, hf, hfull⟩ := hheld.move _ _ _ _ _ rfl
      have hstep := Step.move s i posDelta false locked landed velocity hook lands
      dsimp only
      rw [Function.update_self]
      rcases hfull with hfull | hc
      · exact full_stays hplus h hheld.managed hf hfull hstep
      · exact move_stays hplus h hheld.managed hf hc hstep
    · dsimp only
      rw [Function.update_of_ne hj]
      exact hrefl _
  | elsewhere j actor =>
    have hj : i ≠ j := by
      rintro rfl
      exact hheld.elsewhere actor rfl
    dsimp only
    rw [Function.update_of_ne hj]
    exact hrefl _

/-- Whatever else happens between, an entity held by the hook never leaves its area. -/
theorem held_confined (plus : Rat → Rat → Rat) (hplus : ∀ v, plus v 0 = v) (actors : Nat → Actor)
    {tr tr' : List (State × Label)} {s u : State} (hr : Run (Step plus) (State.initial actors) tr s)
    (hr' : Run (Step plus) s tr' u) (i : Nat) (d : Declared) (hheld : Meets (Held plus i d) tr') :
    SameArea (some d) (column (s.actors i).getPosition) (column (u.actors i).getPosition) := by
  have harea := PlotConfine.sameArea_equivalence (some d)
  refine (hr'.invariant (fun t => Sound t ∧ SameArea (some d) (column (s.actors i).getPosition)
    (column (t.actors i).getPosition)) hheld ⟨sound_of_run hr, harea.refl _⟩ ?_).2
  rintro t l t' ⟨hsound, hsame⟩ hl hs
  exact ⟨hsound.step hs, harea.trans hsame (held_step hplus hsound hl hs)⟩

/-- Whatever has gone before, no outcome of a confined entity's move leaves its area exactly when
no column on the way does, or the hook takes the horizontal part away. -/
theorem move_safe_iff (plus : Rat → Rat → Rat) (hplus : ∀ v, plus v 0 = v) (actors : Nat → Actor)
    {tr : List (State × Label)} {s : State} (hr : Run (Step plus) (State.initial actors) tr s) (i : Nat)
    {d : Declared} (hm : Managed s i d) (posDelta : Vec3) (hf : Fits plus (s.actors i).getPosition posDelta) :
    (∀ t locked landed velocity, Step plus s (.move i posDelta false locked landed velocity) t →
        SameArea (some d) (column (s.actors i).getPosition) (column landed))
      ↔ Clear d (column (s.actors i).getPosition) (target plus (s.actors i).getPosition posDelta) := by
  have hsound := sound_of_run hr
  constructor
  · intro hall hsame x z hx hz
    obtain ⟨t, landed, hs, hcol⟩ := move_reaches hplus hsound hm hf hsame hx hz
    rw [← hcol]
    exact hall t false landed _ hs
  · intro hc t locked landed velocity hs
    exact move_stays hplus hsound hm hf hc hs

/-- In every grid without merges the move around a plot's corner, from one road column to the
other, is let through, and a collision may leave the entity in the plot. -/
theorem corner_entered (plus : Rat → Rat → Rat) (hplus : ∀ v, plus v 0 = v) (actors : Nat → Actor)
    {tr : List (State × Label)} {s : State} (hr : Run (Step plus) (State.initial actors) tr s) (i : Nat)
    {d : Declared} (hm : Managed s i d) (hmask : ∀ a, d.mask a = none) (hroad : 0 < d.roadWidth) (a : PlotXZ)
    (posDelta : Vec3) (hf : Fits plus (s.actors i).getPosition posDelta)
    (hfrom : column (s.actors i).getPosition = eastOfCorner d a)
    (hto : target plus (s.actors i).getPosition posDelta = southOfCorner d a) :
    (¬∃ b, d.Owns (column (s.actors i).getPosition).1 (column (s.actors i).getPosition).2 b)
      ∧ ∃ t landed, Step plus s (.move i posDelta false false landed ⟨0, 0, 0⟩) t
        ∧ d.Owns (column landed).1 (column landed).2 a := by
  have hsound := sound_of_run hr
  obtain ⟨g, hl, rfl⟩ := Option.map_eq_some_iff.mp hm.grid
  obtain ⟨heast, hsouth, howns⟩ := corner_open hmask (hsound.sized _ g hl) hroad a
  rw [hfrom]
  refine ⟨heast, ?_⟩
  have hsame : SameArea (some g.declared) (column (s.actors i).getPosition)
      (target plus (s.actors i).getPosition posDelta) := by
    rw [hfrom, hto]
    exact .inl ⟨heast, hsouth⟩
  have hx : Between (eastOfCorner g.declared a).1 (southOfCorner g.declared a).1 (corner g.declared a).1 := by
    unfold Between corner eastOfCorner southOfCorner
    dsimp only
    omega
  have hz : Between (eastOfCorner g.declared a).2 (southOfCorner g.declared a).2 (corner g.declared a).2 := by
    unfold Between corner eastOfCorner southOfCorner
    dsimp only
    omega
  rw [← hfrom, ← hto] at hx hz
  obtain ⟨t, landed, hs, hcol⟩ := move_reaches hplus hsound hm hf hsame hx hz
  exact ⟨t, landed, hs, by rw [hcol]; exact howns⟩

/-! ## An instance -/

/-- Crossing is denied in dimension 3, which has plots of 32 and roads of 4. -/
def exampleState (position : Vec3) : State :=
  ⟨DimensionRules.setDimensionRule {} 3 EntityCrossPlot false, PlotConfine.setPlotGrid 3 32 4 World.initial,
    fun _ => ⟨false, 3, false, false, position, ⟨0, 0, 0⟩⟩⟩

def exampleGrid : Declared := ⟨32, 4, fun _ => none⟩

theorem exampleRun (position : Vec3) :
    ∃ tr, Run (Step (· + ·)) (State.initial (exampleState position).actors) tr (exampleState position) :=
  ⟨_, .cons (.rule _ (.setDimensionRule 3 EntityCrossPlot false)) (.cons (.grid _ (.setPlotGrid 3 32 4)) (.nil _))⟩

theorem exampleManaged (position : Vec3) : Managed (exampleState position) 0 exampleGrid where
  player := rfl
  passenger := rfl
  removed := rfl
  dim := by show (0 : Int32) ≤ 3; decide
  rule := by rw [exampleState, DimensionRules.reads_set, if_pos ⟨rfl, rfl⟩]
  grid := by rfl

/-- In the last column before the road, on the way east. -/
def atBorder : Vec3 := ⟨63 / 2, 64, 1 / 2⟩

theorem held_confined_border : ∃ u, Run (Step (· + ·)) (exampleState atBorder)
      [(exampleState atBorder, .move 0 ⟨1, 0, 0⟩ false false atBorder ⟨1, 0, 0⟩)] u
    ∧ SameArea (some exampleGrid) (column atBorder) (column (u.actors 0).getPosition) := by
  obtain ⟨tr, hr⟩ := exampleRun atBorder
  have hr' : ∃ u, Run (Step (· + ·)) (exampleState atBorder)
      [(exampleState atBorder, .move 0 ⟨1, 0, 0⟩ false false atBorder ⟨1, 0, 0⟩)] u :=
    ⟨_, .single (.move _ 0 _ _ _ _ _ rfl ⟨between_left _ _, between_left _ _, between_left _ _⟩)⟩
  obtain ⟨u, hr'⟩ := hr'
  refine ⟨u, hr', held_confined (· + ·) Rat.add_zero _ hr hr' 0 exampleGrid ?_⟩
  rw [Runs.meets_cons]
  refine ⟨⟨exampleManaged atBorder, ?_, fun actor h => by cases h⟩, Runs.meets_nil⟩
  rintro posDelta throws locked landed velocity ⟨⟩
  refine ⟨rfl, ⟨by decide +kernel, by decide +kernel, by decide +kernel, by decide +kernel⟩,
    .inr (clear_of_step _ ?_)⟩
  decide +kernel

theorem move_safe_border :
    (∀ t locked landed velocity,
        Step (· + ·) (exampleState atBorder) (.move 0 ⟨1, 0, 0⟩ false locked landed velocity) t →
        SameArea (some exampleGrid) (column atBorder) (column landed))
      ↔ Clear exampleGrid (column atBorder) (target (· + ·) atBorder ⟨1, 0, 0⟩) := by
  obtain ⟨tr, hr⟩ := exampleRun atBorder
  exact move_safe_iff (· + ·) Rat.add_zero _ hr 0 (exampleManaged atBorder) ⟨1, 0, 0⟩
    ⟨by decide +kernel, by decide +kernel, by decide +kernel, by decide +kernel⟩

/-- Half a block east of the plot's corner, on the way south-west. -/
def atCorner : Vec3 := ⟨65 / 2, 64, 63 / 2⟩

theorem corner_entered_southWest :
    (¬∃ b, exampleGrid.Owns (column atCorner).1 (column atCorner).2 b)
      ∧ ∃ t landed, Step (· + ·) (exampleState atCorner) (.move 0 ⟨-1, 0, 1⟩ false false landed ⟨0, 0, 0⟩) t
        ∧ exampleGrid.Owns (column landed).1 (column landed).2 ⟨0, 0⟩ := by
  obtain ⟨tr, hr⟩ := exampleRun atCorner
  exact corner_entered (· + ·) Rat.add_zero _ hr 0 (exampleManaged atCorner) (fun _ => rfl) (by decide) ⟨0, 0⟩
    ⟨-1, 0, 1⟩ ⟨by decide +kernel, by decide +kernel, by decide +kernel, by decide +kernel⟩ (by decide +kernel)
    (by decide +kernel)

end Runs

end PlotEntities
