import LeviRsLoader.RustMod
import LeviRsLoader.Nbt.Value

/-!
# Command bindings

`gCommands`, the shared bindings and the executors installed in the engine. A
binding outlives its table entry, so bindings are cells of a growing list and
the table and the executors refer to them by index. The engine itself is a
parameter of each registration: after how many of its overloads it throws.
-/
namespace Commands

open LeviRs Nbt

inductive ParamKind where
  | int | bool | float | dimension | string | enum | softEnum | actor | player | blockPos | vec3 | rawText
  | message | jsonValue | item | blockName | effect | actorType | command | relativeFloat | filePath
  deriving DecidableEq, Repr

structure ParamDecl where
  name : String
  kind : ParamKind
  enumName : String
  optional : Bool
  deriving DecidableEq, Repr

def kindFromString (s : String) : Option ParamKind :=
  if s = "int" then some .int
  else if s = "bool" then some .bool
  else if s = "float" then some .float
  else if s = "dimension" then some .dimension
  else if s = "string" then some .string
  else if s = "enum" then some .enum
  else if s = "soft_enum" then some .softEnum
  else if s = "actor" then some .actor
  else if s = "player" then some .player
  else if s = "block_pos" then some .blockPos
  else if s = "vec3" then some .vec3
  else if s = "raw_text" then some .rawText
  else if s = "message" then some .message
  else if s = "json" then some .jsonValue
  else if s = "item" then some .item
  else if s = "block_name" then some .blockName
  else if s = "effect" then some .effect
  else if s = "actor_type" then some .actorType
  else if s = "command" then some .command
  else if s = "relative_float" then some .relativeFloat
  else if s = "file_path" then some .filePath
  else none

/-- An entry of a compound tag. -/
def field (key : String) (map : List (String × NbtValue)) : Option NbtValue :=
  (map.find? fun e => e.1 == key).map Prod.snd

/-- The conversion of a tag to a string, which throws on any other tag. -/
def asString : NbtValue → Option String
  | .string s => some s
  | _ => none

/-- The conversion of a tag to an integer, which throws on a tag that is no number. -/
def asInt64 (F : Floats) : NbtValue → Option Int64
  | .byte v => some v.toInt64
  | .short v => some v.toInt64
  | .int v => some v.toInt64
  | .long v => some v
  | .float v => some (F.f32_as_i64 v)
  | .double v => some (F.f64_as_i64 v)
  | _ => none

/-- One declaration; `none` refuses the whole registration. -/
def decodeParam (F : Floats) (map : List (String × NbtValue)) (name kind : NbtValue) : Option ParamDecl := do
  let name ← asString name
  let kind ← kindFromString (← asString kind)
  let enumName ← match field "enum" map with
    | some v => asString v
    | none => some ""
  let optional ← match field "optional" map with
    | some v => (asInt64 F v).map (· != 0)
    | none => some false
  return ⟨name, kind, enumName, optional⟩

/-- The declarations of one overload. What is no compound, or lacks a name or a
kind, is passed over. -/
def decodeParams (F : Floats) : List NbtValue → Option (List ParamDecl)
  | [] => some []
  | .compound map :: rest => match field "name" map, field "kind" map with
    | some name, some kind => do
      let d ← decodeParam F map name kind
      let ds ← decodeParams F rest
      return d :: ds
    | _, _ => decodeParams F rest
  | _ :: rest => decodeParams F rest

/-- The overloads; what is no list is passed over. -/
def decodeLists (F : Floats) : List NbtValue → Option (List (List ParamDecl))
  | [] => some []
  | .list params :: rest => do
    let ds ← decodeParams F params
    let dss ← decodeLists F rest
    return ds :: dss
  | _ :: rest => decodeLists F rest

/-- The declaration `api_register_command_ex` gets, already read as a tag. -/
def decodeOverloads (F : Floats) (tag : Option NbtValue) : Option (List (List ParamDecl)) :=
  match tag with
  | some (.compound map) => match field "overloads" map with
    | some (.list overloads) => match decodeLists F overloads with
      | some [] => none
      | r => r
    | _ => none
  | _ => none

structure CommandBinding where
  mod : Option ModId
  cb : Option Ptr
  user : Ptr
  deriving DecidableEq, Repr

/-- What an executor makes of its arguments: the raw text, or the declared parameters. -/
inductive Overload where
  | raw
  | params (idx : Nat) (decls : List ParamDecl)
  deriving DecidableEq, Repr

structure Executor where
  binding : Nat
  cmdName : String
  overload : Overload
  deriving DecidableEq, Repr

structure Registry where
  gCommands : Table String Nat
  bindings : List CommandBinding
  executors : List Executor

def Registry.initial : Registry := ⟨∅, [], []⟩

def emptyBinding : CommandBinding := ⟨none, none, 0⟩

def Registry.binding (s : Registry) (b : Nat) : CommandBinding := s.bindings.getD b emptyBinding

/-- The binding and whether the name is new; `none` when another live mod has it. -/
def claimBinding (cmdName : String) (mod : ModId) (cb user : Ptr) (s : Registry) : Option (Nat × Bool) × Registry :=
  match s.gCommands.lookup cmdName with
  | none =>
    (some (s.bindings.length, true),
      { s with gCommands := s.gCommands.insert cmdName s.bindings.length,
               bindings := s.bindings ++ [⟨some mod, some cb, user⟩] })
  | some b =>
    if (s.binding b).mod = none ∨ (s.binding b).mod = some mod then
      (some (b, false), { s with bindings := s.bindings.set b ⟨some mod, some cb, user⟩ })
    else (none, s)

/-- The body the two registrations share. `throwsAt = some k`: the engine throws
with `k` executors of this call installed, before any where `k` is 0. -/
def registerOverloads (mod : Option ModId) (cmdName : String) (overloads : Option (List Overload))
    (cb : Option Ptr) (user : Ptr) (throwsAt : Option Nat) (s : Registry) : Bool × Registry :=
  match mod, cb, overloads with
  | some mod, some cb, some overloads => match claimBinding cmdName mod cb user s with
    | (none, s) => (false, s)
    | (some (_, false), s) => (true, s)
    | (some (b, true), s) =>
      let executors := overloads.map (Executor.mk b cmdName)
      match throwsAt with
      | none => (true, { s with executors := s.executors ++ executors })
      | some k =>
        if k < overloads.length then
          (false, { s with executors := s.executors ++ executors.take k, gCommands := s.gCommands.erase cmdName })
        else (true, { s with executors := s.executors ++ executors })
  | _, _, _ => (false, s)

def api_register_command (mod : Option ModId) (name : String) (cb : Option Ptr) (user : Ptr)
    (throwsAt : Option Nat) (s : Registry) : Bool × Registry :=
  registerOverloads mod name (some [.raw]) cb user throwsAt s

/-- The overloads of a declaration, numbered. -/
def numbered (overloads : List (List ParamDecl)) : List Overload := overloads.mapIdx fun idx decls => .params idx decls

def api_register_command_ex (F : Floats) (mod : Option ModId) (name : String) (overloads : Option NbtValue)
    (cb : Option Ptr) (user : Ptr) (throwsAt : Option Nat) (s : Registry) : Bool × Registry :=
  registerOverloads mod name ((decodeOverloads F overloads).map numbered) cb user throwsAt s

def clearBinding (mod : ModId) (bindings : List CommandBinding) (b : Nat) : List CommandBinding :=
  if (bindings.getD b emptyBinding).mod = some mod then bindings.set b emptyBinding else bindings

def commandsOnRustModGone (mod : ModId) (s : Registry) : Registry :=
  { s with bindings := (s.gCommands.entries.map fun e => e.2).foldl (clearBinding mod) s.bindings }

/-- The callback an executor calls, and the mod it belongs to. -/
def Executor.call (muted : ModId → Bool) (s : Registry) (e : Executor) : Option (ModId × Callback) :=
  match s.binding e.binding with
  | ⟨some mod, some cb, user⟩ => if muted mod then none else some (mod, ⟨cb, user⟩)
  | _ => none

/-! ## What a registration can do -/

/-- The binding a registration stores its callback in. -/
def claimed (mod : Option ModId) (cmdName : String) (overloads : Option (List Overload)) (cb : Option Ptr)
    (s : Registry) : Option Nat :=
  match mod, cb, overloads with
  | some mod, some cb, some _ => (claimBinding cmdName mod cb 0 s).1.map Prod.fst
  | _, _, _ => none

/-- A registration stores nothing, takes an old name over, or makes a new
binding; the new binding's name goes again when the engine throws. -/
inductive Effect (mod : Option ModId) (cmdName : String) (overloads : Option (List Overload))
    (cb : Option Ptr) (user : Ptr) (throwsAt : Option Nat) (s : Registry) : Option Nat → Bool × Registry → Prop where
  | refused : Effect mod cmdName overloads cb user throwsAt s none (false, s)
  | rebound (m : ModId) (fn : Ptr) (b : Nat) (hm : mod = some m) (hcb : cb = some fn)
      (hl : s.gCommands.lookup cmdName = some b) :
      Effect mod cmdName overloads cb user throwsAt s (some b)
        (true, { s with bindings := s.bindings.set b ⟨some m, some fn, user⟩ })
  | installed (m : ModId) (fn : Ptr) (ovls : List Overload) (hm : mod = some m) (hcb : cb = some fn)
      (ho : overloads = some ovls) (hl : s.gCommands.lookup cmdName = none) :
      Effect mod cmdName overloads cb user throwsAt s (some s.bindings.length)
        (true, ⟨s.gCommands.insert cmdName s.bindings.length, s.bindings ++ [⟨some m, some fn, user⟩],
          s.executors ++ ovls.map (Executor.mk s.bindings.length cmdName)⟩)
  | thrown (m : ModId) (fn : Ptr) (ovls : List Overload) (k : Nat) (hm : mod = some m) (hcb : cb = some fn)
      (ho : overloads = some ovls) (hl : s.gCommands.lookup cmdName = none) (hk : throwsAt = some k)
      (hlt : k < ovls.length) :
      Effect mod cmdName overloads cb user throwsAt s (some s.bindings.length)
        (false, ⟨(s.gCommands.insert cmdName s.bindings.length).erase cmdName,
          s.bindings ++ [⟨some m, some fn, user⟩],
          s.executors ++ (ovls.map (Executor.mk s.bindings.length cmdName)).take k⟩)

theorem registerOverloads_effect (mod : Option ModId) (cmdName : String) (overloads : Option (List Overload))
    (cb : Option Ptr) (user : Ptr) (throwsAt : Option Nat) (s : Registry) :
    Effect mod cmdName overloads cb user throwsAt s (claimed mod cmdName overloads cb s)
      (registerOverloads mod cmdName overloads cb user throwsAt s) := by
  cases mod with
  | none => exact .refused
  | some m =>
    cases cb with
    | none => exact .refused
    | some fn =>
      cases overloads with
      | none => exact .refused
      | some ovls =>
        cases hl : s.gCommands.lookup cmdName with
        | some b =>
          by_cases hb : (s.binding b).mod = none ∨ (s.binding b).mod = some m
          · simp only [claimed, registerOverloads, claimBinding, hl, if_pos hb, Option.map_some]
            exact .rebound m fn b rfl rfl hl
          · simp only [claimed, registerOverloads, claimBinding, hl, if_neg hb, Option.map_none]
            exact .refused
        | none =>
          simp only [claimed, registerOverloads, claimBinding, hl, Option.map_some]
          cases hk : throwsAt with
          | none => exact .installed m fn ovls rfl rfl rfl hl
          | some k =>
            dsimp only
            split
            · next hlt => exact .thrown m fn ovls k rfl rfl rfl hl rfl hlt
            · exact .installed m fn ovls rfl rfl rfl hl

/-! ## The sweep -/

theorem getD_clearBinding (mod : ModId) (bindings : List CommandBinding) (b b' : Nat) :
    (clearBinding mod bindings b).getD b' emptyBinding =
      if b' = b ∧ (bindings.getD b emptyBinding).mod = some mod then emptyBinding
      else bindings.getD b' emptyBinding := by
  unfold clearBinding
  by_cases hm : (bindings.getD b emptyBinding).mod = some mod
  · rw [if_pos hm]
    by_cases hb : b' = b
    · subst hb
      rw [if_pos ⟨rfl, hm⟩, List.getD_eq_getElem?_getD, List.getElem?_set]
      by_cases hlt : b' < bindings.length <;> simp [hlt]
    · rw [if_neg (by simp [hb]), List.getD_eq_getElem?_getD, List.getElem?_set_ne (Ne.symm hb),
        List.getD_eq_getElem?_getD]
  · rw [if_neg hm, if_neg fun h => hm h.2]

theorem getD_clearBindings (mod : ModId) (ids : List Nat) (bindings : List CommandBinding) (b : Nat) :
    (ids.foldl (clearBinding mod) bindings).getD b emptyBinding =
      if b ∈ ids ∧ (bindings.getD b emptyBinding).mod = some mod then emptyBinding
      else bindings.getD b emptyBinding := by
  induction ids generalizing bindings with
  | nil => simp
  | cons i ids ih =>
    have hone := getD_clearBinding mod bindings i b
    rw [List.foldl_cons, ih]
    by_cases hb : b = i
    · subst hb
      by_cases hm : (bindings.getD b emptyBinding).mod = some mod
      · rw [if_pos ⟨rfl, hm⟩] at hone
        rw [hone, ite_self, if_pos ⟨.head _, hm⟩]
      · rw [if_neg fun h => hm h.2] at hone
        rw [hone, if_neg fun h => hm h.2, if_neg fun h => hm h.2]
    · rw [if_neg fun h => hb h.1] at hone
      have hmem : b ∈ i :: ids ↔ b ∈ ids := by simp [hb]
      simp only [hone, hmem]

theorem length_clearBindings (mod : ModId) (ids : List Nat) (bindings : List CommandBinding) :
    (ids.foldl (clearBinding mod) bindings).length = bindings.length := by
  induction ids generalizing bindings with
  | nil => rfl
  | cons i ids ih =>
    rw [List.foldl_cons, ih]
    unfold clearBinding
    split
    · exact List.length_set
    · rfl

/-- The sweep empties the mod's bindings that still have a name. -/
theorem binding_commandsOnRustModGone (mod : ModId) {s : Registry} {name : String} {b : Nat}
    (hl : s.gCommands.lookup name = some b) :
    (commandsOnRustModGone mod s).binding b =
      if (s.binding b).mod = some mod then emptyBinding else s.binding b := by
  have hm : b ∈ s.gCommands.entries.map fun e => e.2 :=
    List.mem_map.mpr ⟨⟨name, b⟩, AList.lookup_eq_some_iff.mp hl, rfl⟩
  rw [Registry.binding, commandsOnRustModGone, getD_clearBindings]
  simp [hm, Registry.binding]

/-- A mod that is gone has no binding under any name. -/
theorem commandsOnRustModGone_spec (mod : ModId) (s : Registry) {name : String} {b : Nat}
    (hl : (commandsOnRustModGone mod s).gCommands.lookup name = some b) :
    ((commandsOnRustModGone mod s).binding b).mod ≠ some mod := by
  have hb := binding_commandsOnRustModGone mod (s := s) hl
  rw [hb]
  split
  · simp [emptyBinding]
  · next h => exact h

end Commands
