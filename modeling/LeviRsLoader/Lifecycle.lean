import LeviRsLoader.LaneAccount
import LeviRsLoader.Lib.Nesting
import LeviRsLoader.Load

/-!
# Loading, unloading and lane calls, nested

All of the loader on one thread. An instruction is a part of a call that does
not leave the loader; what foreign code stands between two of them, a mod's
entry point, a reference function or a lane's table, is an instruction of its
own, on top of which any call may be made.
-/
namespace Lifecycle

open LeviRs Lane Loader Nesting

/-! ## `Lane::with` -/

def isAlive (ref : LaneRef) (s : Lanes) : Bool :=
  match ref.alive with
  | none => false
  | some alive => (s.cell alive).flag != 0

/-- `BusyGuard::enter`. A thread has fewer than 2^32 calls on its stack, so the
count does not wrap. -/
def enter (cell : Option Nat) (s : Lanes) : Lanes :=
  match cell with
  | none => s
  | some a => { s with cells := s.cells.modify a fun c => { c with busy := c.busy + 1 } }

/-- `BusyGuard::drop` -/
def leave (cell : Option Nat) (s : Lanes) : Lanes :=
  match cell with
  | none => s
  | some a => { s with cells := s.cells.modify a fun c => { c with busy := c.busy - 1 } }

/-- Whether `Lane::with` comes to call `f`, and the tables then. -/
def laneWith (ref : LaneRef) (s : Lanes) : Bool × Lanes :=
  if !isAlive ref s || ref.vtable.isNone then (false, s)
  else
    let s' := enter ref.busy s
    if !isAlive ref s' then (false, leave ref.busy s') else (true, s')

theorem flag_enter (cell : Option Nat) (s : Lanes) (a : Nat) : ((enter cell s).cell a).flag = (s.cell a).flag := by
  cases cell with
  | none => rfl
  | some b =>
    rw [enter, cell_modify]
    split <;> rfl

theorem isAlive_enter (cell : Option Nat) (ref : LaneRef) (s : Lanes) : isAlive ref (enter cell s) = isAlive ref s := by
  unfold isAlive
  split
  · rfl
  · rw [flag_enter]

/-- On one thread the second look at the flag sees what the first one saw. -/
theorem laneWith_cases (ref : LaneRef) (s : Lanes) :
    laneWith ref s = (false, s) ∨ isAlive ref s = true ∧ laneWith ref s = (true, enter ref.busy s) := by
  unfold laneWith
  split
  · exact .inl rfl
  · next h =>
    have halive : isAlive ref s = true := by
      by_contra hc
      exact h (by simp [hc])
    exact .inr ⟨halive, by simp [isAlive_enter, halive]⟩

/-- Entering and leaving touch the cells alone. -/
theorem enter_eq (cell : Option Nat) (s : Lanes) : ∃ cells, enter cell s = { s with cells := cells } := by
  cases cell <;> exact ⟨_, rfl⟩

theorem leave_eq (cell : Option Nat) (s : Lanes) : ∃ cells, leave cell s = { s with cells := cells } := by
  cases cell <;> exact ⟨_, rfl⟩

theorem laneWith_eq (ref : LaneRef) (s : Lanes) : ∃ cells, (laneWith ref s).2 = { s with cells := cells } := by
  obtain h | ⟨_, h⟩ := laneWith_cases ref s
  · exact ⟨s.cells, by rw [h]⟩
  · rw [h]
    exact enter_eq ref.busy s

/-! ## The machine -/

/-- The registries, and the records handed out as `Lane`s so far. -/
structure World where
  loader : Loader.State
  handed : List LaneRef

def World.lane (w : World) : Lanes := w.loader.lane

def World.setLane (w : World) (s : Lanes) : World := { w with loader := { w.loader with lane := s } }

inductive Instr where
  | call (c : Call)
  | lane (i : LaneProtocol.Instr)
  | foreign
  | load (name : String) (m : ModId)
  | levi_rs_main (name : String) (m : ModId)
  | unloadCheck (name : String)
  | on_unload (name : String) (m : ModId)
  | muteCommands (m : ModId)
  | clearListeners (m : ModId)
  | sweep (w : Sweep) (m : ModId)
  | libFree (name : String) (m : ModId)
  | laneWith (ref : LaneRef)
  | inside (ref : LaneRef)

/-- Foreign code is running. -/
def Instr.opens : Instr → Bool
  | .foreign => true
  | .levi_rs_main _ _ => true
  | .on_unload _ _ => true
  | .inside _ => true
  | _ => false

inductive Op where
  | call (c : Call)
  | load (name : String) (m : ModId)
  | unload (name : String)
  | laneWith (ref : LaneRef)

/-- The lane functions run in parts, with calls into a provider in between. -/
def laneOp : Call → Option LaneProtocol.Op
  | .api_lane_publish live mod name desc => some (.publish live mod name desc)
  | .api_lane_unpublish mod pubId => some (.unpublish mod pubId)
  | .api_lane_acquire live mod name wantFingerprint out => some (.acquire live mod name wantFingerprint out)
  | .api_lane_release mod leaseId => some (.release mod leaseId)
  | _ => none

def callProgram (c : Call) : List Instr :=
  match laneOp c with
  | some o => (LaneProtocol.program o).map .lane
  | none => [.call c]

def program : Op → List Instr
  | .call c => callProgram c
  | .load name m => [.load name m]
  | .unload name => [.unloadCheck name]
  | .laneWith ref => [.laneWith ref]

/-- What `unload` finds before it asks the mod: the mod, or its error. -/
def unloadCheck (name : String) (s : Loader.State) : Except String ModId :=
  match s.mods.lookup name with
  | none => .error "mod not found"
  | some m =>
    match laneModBusyName m s.lane with
    | some busyLane =>
      .error ("'" ++ name ++ "' 现在不能卸载：车道 '" ++ busyLane ++
        "' 正停在调用中（多半是从这条车道自己的表项里触发了卸载）。等这次调用返回之后再试。")
    | none => .ok m

def onRustModGone (m : ModId) : List Instr :=
  [.sweep .scheduler m, .sweep .bus m, .sweep .services m] ++
    (LaneProtocol.program (.modGone m)).map .lane ++
    [.sweep .commands m, .sweep .forms m, .sweep .kvdb m, .sweep .hookEvents m, .sweep .packetHooks m,
      .sweep .money m]

/-- `unload` up to `lib.free()`, once the mod has agreed. -/
def teardown (m : ModId) : List Instr := [.muteCommands m, .clearListeners m] ++ onRustModGone m

/-- The answer to the check: nothing more to do, or the mod's own `on_unload`. -/
def afterCheck (name : String) : Except String ModId → List Instr
  | .error _ => []
  | .ok m => [.on_unload name m]

/-- The `Lane` a consumer makes of a record, whose size reaches up to `busy`. -/
def handOver (a : Acquired) : List LaneRef :=
  if a.code = LEVI_RS_LANE_OK then a.out.toList.filter fun ref => busyRefSize ≤ ref.struct_size else []

def handedBy (s : Lanes) : LaneProtocol.Instr → List LaneRef
  | .acquire live mod name want out => handOver (api_lane_acquire live mod name want out s)
  | _ => []

/-- A provider's reference function is foreign code. -/
def callee : LaneProtocol.Instr → List Instr
  | .retain _ _ => [.foreign]
  | .release _ => [.foreign]
  | _ => []

def afterWith (ref : LaneRef) (called : Bool) : List Instr := if called then [.inside ref] else []

inductive Exec (env : Env) : Instr → World → List Instr → World → Prop where
  | call (c : Call) (w : World) (h : laneOp c = none) :
      Exec env (.call c) w [] { w with loader := c.apply env w.loader }
  | lane {i : LaneProtocol.Instr} {w : World} {new : List LaneProtocol.Instr} {s : Lanes}
      (h : LaneProtocol.Exec i w.lane new s) :
      Exec env (.lane i) w (new.map .lane ++ callee i)
        { w.setLane s with handed := handedBy w.lane i ++ w.handed }
  | foreign (w : World) : Exec env .foreign w [] w
  | load_fails (name : String) (m : ModId) (w : World) :
      Exec env (.load name m) w [] { w with loader := (w.loader.makeRustMod m).dropRustMod m }
  | load (name : String) (m : ModId) (w : World) :
      Exec env (.load name m) w [.levi_rs_main name m] { w with loader := w.loader.makeRustMod m }
  | levi_rs_main (name : String) (m : ModId) (ok : Bool) (abi_version : UInt32) (w : World) :
      Exec env (.levi_rs_main name m) w [] { w with loader := (finishLoad name m ok abi_version w.loader).2 }
  | unloadCheck (name : String) (w : World) :
      Exec env (.unloadCheck name) w (afterCheck name (Lifecycle.unloadCheck name w.loader)) w
  | refuses (name : String) (m : ModId) (w : World) : Exec env (.on_unload name m) w [] w
  | on_unload (name : String) (m : ModId) (w : World) :
      Exec env (.on_unload name m) w (teardown m ++ [.libFree name m]) w
  | muteCommands (m : ModId) (w : World) :
      Exec env (.muteCommands m) w []
        { w with loader := { w.loader with commandsMuted := Function.update w.loader.commandsMuted m true } }
  | clearListeners (m : ModId) (w : World) :
      Exec env (.clearListeners m) w []
        { w with loader := { w.loader with events := Events.clearListeners m w.loader.events } }
  | sweep (v : Sweep) (m : ModId) (w : World) :
      Exec env (.sweep v m) w [] { w with loader := v.apply env m w.loader }
  | libFree_fails (name : String) (m : ModId) (w : World) : Exec env (.libFree name m) w [] w
  | libFree (name : String) (m : ModId) (w : World) :
      Exec env (.libFree name m) w []
        { w with loader := { w.loader with mods := w.loader.mods.erase name }.dropRustMod m }
  | laneWith (ref : LaneRef) (w : World) (h : ref ∈ w.handed) :
      Exec env (.laneWith ref) w (afterWith ref (Lifecycle.laneWith ref w.lane).1)
        (w.setLane (Lifecycle.laneWith ref w.lane).2)
  -- a panic of the table function drops the guard as well
  | inside (ref : LaneRef) (w : World) : Exec env (.inside ref) w [] (w.setLane (leave ref.busy w.lane))

abbrev State := Machine World Instr

abbrev Event := Interleave.Label Op Instr

abbrev LStep (env : Env) : State → Event → State → Prop := Nesting.Step Instr.opens program (Exec env)

/-- The loader as it starts up. -/
def start (hookEvents : List String) : State := ⟨⟨.initial hookEvents, []⟩, []⟩

/-! ## A mod with a lane, for the runs further on -/

def publishLane : Call := .api_lane_publish LaneProtocol.everyone (some 1) "a" (some LaneProtocol.exampleDesc)

/-- Mod 1, loaded as "p", with one lane published. -/
def provider : World where
  loader := (finishLoad "p" 1 true LEVI_RS_ABI_VERSION
    (publishLane.apply quietEnv ((Loader.State.initial hookNames).makeRustMod 1))).2
  handed := []

end Lifecycle
