import LeviRsLoader.CommandRuns
import LeviRsLoader.NativeTexts

/-!
# Command events

The typed listeners of `ExecutingCommandEvent`. Each tells its subscriber who runs which command, in a text
put together by hand, and refuses the command if what the subscriber writes back says so. Who is no player
is not asked about.
-/
namespace CommandEvents

open Nbt Utf8 HookPayload CommandForms HookCancel
open NativeTexts (as_str)

/-- The part of LeviLamina that reads a written event back: the tags of a text, if it has any, and the
cast of a tag to a byte, `none` where that throws. -/
structure Engine where
  fromSnbt : String → Option (List (String × NbtValue))
  uchar : NbtValue → Option UInt8

/-- Who runs the command, as far as it is a player. -/
structure Player where
  realName : String
  xuid : String
  uuid : String

/-- The entity of the command's origin. -/
inductive Origin where
  | none
  | player (p : Player)
  | other

structure CommandContext where
  mOrigin : Origin
  mCommand : String

/-- Names of a player, all empty for any other origin. -/
def Origin.texts : Origin → Player
  | .player p => p
  | _ => ⟨"", "", ""⟩

def escaped (s : String) : List UInt8 := snbtEscape (encode s.toList)

def commandSnbt (idName : String) (p : Player) (command : String) : List UInt8 :=
  ascii "\x7b\"eventId\":\"" ++ ascii idName ++ ascii "\",\"name\":\"" ++ escaped p.realName ++
    ascii "\",\"command\":\"" ++ escaped command ++ ascii "\",\"_player\":\x7b\"name\":\"" ++ escaped p.realName ++
    ascii "\",\"xuid\":\"" ++ escaped p.xuid ++ ascii "\",\"uuid\":\"" ++ escaped p.uuid ++ ascii "\"\x7d\x7d"

/-- What a write-back makes of the veto: only a `cancelled` that is a byte other than 0 sets it. -/
def writeBack (E : Engine) (newSnbt : String) : Bool :=
  match E.fromSnbt newSnbt with
  | none => false
  | some tag => match (tag.lookup "cancelled").bind E.uchar with
    | none => false
    | some b => b != 0

/-- Whether the subscriber asks for the command to be refused. -/
def dispatchCommand (F : Floats) (E : Engine) (idName : String) (cb : Handler) (p : Player) (command : String) : Bool :=
  if p.realName.isEmpty then false
  else match event_trampoline F cb (commandSnbt idName p command) with
    | none => false
    | some reply => writeBack E reply

/-- The listeners of an `ExecutingCommandEvent`, one for each subscriber: whether the command is refused. -/
def executing (F : Floats) (E : Engine) (idName : String) (subs : List Handler) (ctx : CommandContext) : Bool :=
  subs.foldl (fun cancelled cb =>
    if dispatchCommand F E idName cb ctx.mOrigin.texts ctx.mCommand then true else cancelled) false

/-! ## Guards -/

/-- What a subscriber reads of the event: the player's name and the command. -/
def read (F : Floats) (raw : String) : Option (String × String) := do
  let v ← (NbtValue.parse F raw).toOption
  let name ← (get "name" v).bind as_str
  let command ← (get "command" v).bind as_str
  some (name, command)

/-- The subscriber that cancels what the predicate says of a player and a command. -/
def guard (F : Floats) (refuses : String → String → Bool) : Handler := fun raw =>
  match read F raw with
  | some (name, command) => if refuses name command then ⟨[.cancel], false⟩ else ⟨[], false⟩
  | none => ⟨[], false⟩

/-- LeviLamina reads what the Rust side writes of a compound, and a byte as a byte. -/
structure Engine.Reads (F : Floats) (E : Engine) : Prop where
  compound : ∀ map, (NbtValue.compound map).WF → (NbtValue.compound map).NoFloats →
    (NbtValue.compound map).NoSemicolonLists → E.fromSnbt ((NbtValue.compound map).to_snbt F) = some map
  byte : ∀ v, E.uchar (.byte v) = some v.toUInt8

/-! ## What is read -/

section Read

variable {F : Floats}

def textEntry (key s : String) : Entry := ⟨key, write_quoted s, .string s⟩

def playerEntries (p : Player) : List Entry :=
  [textEntry "name" p.realName, textEntry "xuid" p.xuid, textEntry "uuid" p.uuid]

def commandEntries (idName : String) (p : Player) (command : String) : List Entry :=
  [textEntry "eventId" idName, textEntry "name" p.realName, textEntry "command" command,
    ⟨"_player", bracedText (playerEntries p), .compound (mapOf (playerEntries p))⟩]

/-- The name of an event needs no escaping. -/
def PlainId (idName : String) : Prop := idName.toList.flatMap escapeChar = idName.toList

theorem commandSnbt_eq {idName : String} (hid : PlainId idName) (p : Player) (command : String) :
    commandSnbt idName p command = encode (bracedText (commandEntries idName p command)) := by
  have hopen : "\x7b\"eventId\":\"".toList = '{' :: (write_quoted "eventId" ++ [':', '"']) := by decide
  have hname : "\",\"name\":\"".toList = '"' :: ',' :: (write_quoted "name" ++ [':', '"']) := by decide
  have hcommand : "\",\"command\":\"".toList = '"' :: ',' :: (write_quoted "command" ++ [':', '"']) := by decide
  have hplayer : "\",\"_player\":\x7b\"name\":\"".toList =
      '"' :: ',' :: (write_quoted "_player" ++ ':' :: '{' :: (write_quoted "name" ++ [':', '"'])) := by decide
  have hxuid : "\",\"xuid\":\"".toList = '"' :: ',' :: (write_quoted "xuid" ++ [':', '"']) := by decide
  have huuid : "\",\"uuid\":\"".toList = '"' :: ',' :: (write_quoted "uuid" ++ [':', '"']) := by decide
  have hclose : "\"\x7d\x7d".toList = ['"', '}', '}'] := by decide
  have hquoted (t : String) : write_quoted t = '"' :: (t.toList.flatMap escapeChar ++ ['"']) := rfl
  have hidName : write_quoted idName = '"' :: (idName.toList ++ ['"']) := by rw [hquoted, hid]
  simp only [commandSnbt, escaped, ascii, snbtEscape_encode, ← encode_append, hopen, hname, hcommand, hplayer, hxuid,
    huuid, hclose, commandEntries, playerEntries, textEntry, bracedText, Entry.print, entryText, writeSep, hidName,
    hquoted p.realName, hquoted p.xuid, hquoted p.uuid, hquoted command, List.append_assoc, List.cons_append,
    List.nil_append, Bool.false_eq_true, ↓reduceIte]

/-- The event as the Rust side parses it. -/
def eventMap (idName : String) (p : Player) (command : String) : List (String × NbtValue) :=
  [("_player", .compound [("name", .string p.realName), ("uuid", .string p.uuid), ("xuid", .string p.xuid)]),
    ("command", .string command), ("eventId", .string idName), ("name", .string p.realName)]

theorem parse_commandSnbt {idName : String} (hid : PlainId idName) (p : Player) (command : String) :
    NbtValue.parse F (r (commandSnbt idName p command)) = .ok (.compound (eventMap idName p command)) := by
  have hmap : mapOf (commandEntries idName p command) = eventMap idName p command := by
    simp only [mapOf, commandEntries, playerEntries, textEntry, eventMap, List.foldl_cons, List.foldl_nil, insertEntry,
      String.reduceLT, String.reduceEq, ↓reduceIte]
  have hlen : 2 ≤ (bracedText (commandEntries idName p command)).length := by
    simp [bracedText]
  rw [commandSnbt_eq hid, ← hmap]
  refine NativeTexts.parse_braced 2 _ _ hlen fun n u hu => ?_
  simp only [List.mem_cons, List.not_mem_nil, or_false] at hu
  rcases hu with rfl | rfl | rfl | rfl
  · exact NativeTexts.reads_quoted (n + 1) idName
  · exact NativeTexts.reads_quoted (n + 1) p.realName
  · exact NativeTexts.reads_quoted (n + 1) command
  · refine reads_braced _ _ fun u hu => ?_
    simp only [List.mem_cons, List.not_mem_nil, or_false] at hu
    rcases hu with rfl | rfl | rfl
    · exact NativeTexts.reads_quoted n p.realName
    · exact NativeTexts.reads_quoted n p.xuid
    · exact NativeTexts.reads_quoted n p.uuid

/-- A subscriber reads the name and the command as they are. -/
theorem read_commandSnbt {idName : String} (hid : PlainId idName) (p : Player) (command : String) :
    read F (r (commandSnbt idName p command)) = some (p.realName, command) := by
  simp only [read, parse_commandSnbt hid, Except.toOption]
  simp [HookCancel.get, eventMap, List.lookup_cons, as_str]

/-- The event with the flag that `cancel` sets. -/
def cancelledMap (idName : String) (p : Player) (command : String) : List (String × NbtValue) :=
  insertEntry "cancelled" (.byte 1) (eventMap idName p command)

theorem cancelledMap_eq (idName : String) (p : Player) (command : String) : cancelledMap idName p command
    = [("_player", .compound [("name", .string p.realName), ("uuid", .string p.uuid), ("xuid", .string p.xuid)]),
      ("cancelled", .byte 1), ("command", .string command), ("eventId", .string idName),
      ("name", .string p.realName)] := by
  simp only [cancelledMap, eventMap, insertEntry, String.reduceLT, String.reduceEq, ↓reduceIte]

end Read

/-! ## What becomes of the command -/

section Guards

variable {F : Floats} {E : Engine}

/-- The write-back of `cancel` is one that LeviLamina reads as a veto. -/
theorem writeBack_cancelled (hE : E.Reads F) (idName : String) (p : Player) (command : String) :
    writeBack E ((NbtValue.compound (cancelledMap idName p command)).to_snbt F) = true := by
  have hread : E.fromSnbt ((NbtValue.compound (cancelledMap idName p command)).to_snbt F)
      = some (cancelledMap idName p command) := by
    rw [cancelledMap_eq]
    refine hE.compound _ ?_ ?_ ?_
    · simp only [NbtValue.WF, NbtValue.all, allEntries, sortedNode, List.map_cons, List.map_nil, Bool.and_true,
        Bool.and_eq_true]
      decide
    · simp [NbtValue.NoFloats, NbtValue.all, allEntries, noFloatNode]
    · simp [NbtValue.NoSemicolonLists, NbtValue.all, allEntries, noSemicolonNode]
  have hflag : (cancelledMap idName p command).lookup "cancelled" = some (.byte 1) := lookup_insertEntry _ _ _
  rw [writeBack, hread]
  simp only [hflag, Option.bind_some, hE.byte]
  decide

/-- A guard refuses exactly what its predicate says, whatever the command's text. -/
theorem dispatchCommand_guard (hE : E.Reads F) {idName : String} (hid : PlainId idName)
    (refuses : String → String → Bool) (p : Player) (command : String) :
    dispatchCommand F E idName (guard F refuses) p command = (!p.realName.isEmpty && refuses p.realName command) := by
  have hguard : guard F refuses (r (commandSnbt idName p command))
      = if refuses p.realName command then ⟨[.cancel], false⟩ else ⟨[], false⟩ := by
    rw [guard, read_commandSnbt hid]
  rw [dispatchCommand]
  split_ifs with hname
  · simp [hname]
  · rw [trampoline_written, hguard]
    cases hr : refuses p.realName command with
    | false => simp [HookCancel.written]
    | true =>
      have hwritten : HookCancel.written F (r (commandSnbt idName p command)) ⟨[.cancel], false⟩
          = some (.value (.compound (cancelledMap idName p command))) := by
        simp only [HookCancel.written, Bool.false_eq_true, if_false, List.foldl_cons, List.foldl_nil, rewrite,
          Option.map_none, Option.getD_none, parse_commandSnbt hid]
        rfl
      simp only [if_true, hwritten, Option.map_some, Written.snbt, writeBack_cancelled hE]
      simp [hname]

/-- A command is refused exactly when a player runs it and some guard's predicate says so of the
player's name and the command, as they are: no text of a command gets past a guard, or sets one off. -/
theorem executing_iff (hE : E.Reads F) {idName : String} (hid : PlainId idName)
    (guards : List (String → String → Bool)) (ctx : CommandContext) :
    executing F E idName (guards.map (guard F)) ctx = true
      ↔ ∃ p, ctx.mOrigin = .player p ∧ p.realName ≠ ""
        ∧ ∃ refuses ∈ guards, refuses p.realName ctx.mCommand = true := by
  rw [executing, foldl_flag, Bool.false_or, List.any_map, List.any_eq_true]
  simp only [Function.comp_apply, dispatchCommand_guard hE hid]
  cases ctx.mOrigin with
  | player p => simp [Origin.texts, and_left_comm]
  | none => simp [Origin.texts]
  | other => simp [Origin.texts]

end Guards

/-! ## An instance -/

/-- An engine that reads SNBT as the Rust side does. -/
def exampleEngine : Engine where
  fromSnbt text := match NbtValue.parse CommandRuns.noFloats text with
    | .ok (.compound map) => some map
    | _ => none
  uchar
    | .byte v => some v.toUInt8
    | _ => none

theorem reads_exampleEngine : exampleEngine.Reads CommandRuns.noFloats where
  compound map hw hf hs := by
    rw [exampleEngine]
    simp only [parse_to_snbt hw hf hs]
  byte _ := rfl

/-- Only "op" may run "stop". -/
def stopGuard : String → String → Bool := fun name command => command == "stop" && name != "op"

/-- A name that tries to end its string. -/
def exampleRun : CommandContext := ⟨.player ⟨"a\",cancelled:0b", "1", "u"⟩, "stop"⟩

theorem executing_iff_stop :
    executing CommandRuns.noFloats exampleEngine "ll::event::ExecutingCommandEvent"
        ([stopGuard].map (guard CommandRuns.noFloats)) exampleRun = true
      ↔ ∃ p, exampleRun.mOrigin = .player p ∧ p.realName ≠ ""
        ∧ ∃ refuses ∈ [stopGuard], refuses p.realName exampleRun.mCommand = true :=
  executing_iff reads_exampleEngine (by unfold PlainId; decide) [stopGuard] exampleRun

end CommandEvents
