import LeviRsLoader.CommandRuns
import LeviRsLoader.HookPayload

/-!
# The arguments of a command

What an executor passes to the callback in its binding: the raw text and the
origin's name, or a compound of the parameters its overload was declared with
and the origin as a compound. The executor stays as the first registration of
a name has made it, while later ones replace the callback.
-/
namespace CommandForms

open LeviRs Commands CommandRuns Runs Nbt Utf8 HookPayload

structure PlayerResult where
  name : List UInt8
  xuid : List UInt8
  uuid : List UInt8
  rawID : Int64

structure ActorResult where
  rawID : Int64
  typeName : List UInt8

/-- What the engine has parsed for a parameter. Entities that are gone, an
invalid message and null pointers are `none`. -/
inductive ParamValue where
  | int (v : Int32)
  | bool (v : Bool)
  | float (v : F32)
  | dimension (id : Int32)
  | string (v : List UInt8)
  | enum (name : List UInt8)
  | softEnum (v : List UInt8)
  | actor (results : List (Option ActorResult))
  | player (results : List (Option PlayerResult))
  | blockPos (x y z : Int32)
  | vec3 (x y z : F32)
  | rawText (v : List UInt8)
  | message (v : Option (List UInt8))
  | jsonValue (styled : List UInt8)
  | item (id aux : Int32) (name : List UInt8)
  | blockName (v : List UInt8)
  | effect (v : Option (Int32 × List UInt8))
  | actorType (fullName : Option (List UInt8))
  | command (present : Bool)
  | relativeFloat (offset : F32) (relative : Bool)
  | filePath (v : List UInt8)

def ParamValue.kind : ParamValue → ParamKind
  | .int _ => .int
  | .bool _ => .bool
  | .float _ => .float
  | .dimension _ => .dimension
  | .string _ => .string
  | .enum _ => .enum
  | .softEnum _ => .softEnum
  | .actor _ => .actor
  | .player _ => .player
  | .blockPos _ _ _ => .blockPos
  | .vec3 _ _ _ => .vec3
  | .rawText _ => .rawText
  | .message _ => .message
  | .jsonValue _ => .jsonValue
  | .item _ _ _ => .item
  | .blockName _ => .blockName
  | .effect _ => .effect
  | .actorType _ => .actorType
  | .command _ => .command
  | .relativeFloat _ _ => .relativeFloat
  | .filePath _ => .filePath

/-- What `rt` holds for each parameter that was given. -/
abbrev RuntimeCommand := String → Option ParamValue

structure CommandOrigin where
  /-- A player's real name, or else the origin's own. -/
  identity : List UInt8
  originType : Int32
  /-- The dimension and position of its entity. -/
  entity : Option (Int32 × F32 × F32 × F32)

/-! ## The texts -/

def quoted (v : List UInt8) : List UInt8 := byteOf '"' :: (snbtEscape v ++ [byteOf '"'])

/-- `if (s.back() == ',') s.pop_back()` -/
def dropComma (s : List UInt8) : List UInt8 := if s.getLast? = some (byteOf ',') then s.dropLast else s

def listText (items : List (List UInt8)) : List UInt8 :=
  dropComma (items.foldl (fun out item => out ++ item ++ ascii ",") (ascii "[")) ++ ascii "]"

def PlayerResult.text (p : PlayerResult) : List UInt8 :=
  ascii "\x7bname:" ++ quoted p.name ++ ascii ",xuid:" ++ quoted p.xuid ++ ascii ",uuid:" ++ quoted p.uuid ++
    ascii ",id:" ++ num p.rawID.toInt ++ ascii "l\x7d"

def ActorResult.text (a : ActorResult) : List UInt8 :=
  ascii "\x7bid:" ++ num a.rawID.toInt ++ ascii "l,type:" ++ quoted a.typeName ++ ascii "\x7d"

section Texts

-- `snbtNum` on floats
variable (snbtNum : F32 → List UInt8)

/-- The text `appendParsedParam` gives to `key`, where it calls it. -/
def ParamValue.text : ParamValue → Option (List UInt8)
  | .int v => some (num v.toInt)
  | .bool v => some (ascii (if v then "1b" else "0b"))
  | .float v => some (snbtNum v ++ ascii "f")
  | .dimension id => some (num id.toInt)
  | .string v | .softEnum v | .rawText v | .jsonValue v | .blockName v | .filePath v => some (quoted v)
  | .enum name => some (quoted name)
  | .actor results => some (listText ((results.filterMap id).map ActorResult.text))
  | .player results => some (listText ((results.filterMap id).map PlayerResult.text))
  | .blockPos x y z =>
    some (ascii "\x7bx:" ++ num x.toInt ++ ascii ",y:" ++ num y.toInt ++ ascii ",z:" ++ num z.toInt ++ ascii "\x7d")
  | .vec3 x y z =>
    some (ascii "\x7bx:" ++ snbtNum x ++ ascii "d,y:" ++ snbtNum y ++ ascii "d,z:" ++ snbtNum z ++ ascii "d\x7d")
  | .message v => v.map quoted
  | .item id aux name =>
    some (ascii "\x7bid:" ++ num id.toInt ++ ascii ",aux:" ++ num aux.toInt ++ ascii ",name:" ++ quoted name ++
      ascii "\x7d")
  | .effect v => v.map fun e => ascii "\x7bid:" ++ num e.1.toInt ++ ascii ",name:" ++ quoted e.2 ++ ascii "\x7d"
  | .actorType fullName => fullName.map quoted
  | .command present => if present then some (ascii "1b") else none
  | .relativeFloat offset relative =>
    some (ascii "\x7boffset:" ++ snbtNum offset ++ ascii "f,relative:" ++ ascii (if relative then "1b" else "0b") ++
      ascii "\x7d")

def keyText (name : String) (text : List UInt8) : List UInt8 := quoted (ascii name) ++ ascii ":" ++ text

def appendParsedParam (rt : RuntimeCommand) (out : List UInt8) (decl : ParamDecl) : List UInt8 :=
  match rt decl.name with
  | none => out
  | some p =>
    if p.kind = decl.kind then
      match p.text snbtNum with
      | some v => out ++ keyText decl.name v ++ ascii ","
      | none => out
    else out

def originSnbt (origin : CommandOrigin) : List UInt8 :=
  ascii "\x7bname:" ++ quoted origin.identity ++ ascii ",type:" ++ num origin.originType.toInt ++
    (match origin.entity with
      | none => []
      | some (dim, x, y, z) =>
        ascii ",dim:" ++ num dim.toInt ++ ascii ",x:" ++ snbtNum x ++ ascii ",y:" ++ snbtNum y ++ ascii ",z:" ++
          snbtNum z ++ ascii "d") ++
    ascii "\x7d"

/-- The text of the one parameter of `register_command`. -/
def rawArgs (rt : RuntimeCommand) : List UInt8 :=
  match rt "args" with
  | some (.rawText v) => v
  | _ => []

/-- The `args` and the `origin` that the executor passes on. -/
def arguments (overload : Overload) (rt : RuntimeCommand) (origin : CommandOrigin) : List UInt8 × List UInt8 :=
  match overload with
  | .raw => (rawArgs rt, origin.identity)
  | .params idx decls =>
    (dropComma (decls.foldl (appendParsedParam snbtNum rt) (ascii "\x7boverload:" ++ num idx ++ ascii ",args:\x7b")) ++
      ascii "\x7d\x7d", originSnbt snbtNum origin)

/-! ## What a registration promises -/

/-- An argument with its text, of the kind it is declared to be. -/
structure Argument where
  decl : ParamDecl
  value : ParamValue
  kind : value.kind = decl.kind
  text : List UInt8
  written : value.text snbtNum = some text

def Argument.entry (a : Argument snbtNum) : List UInt8 := keyText a.decl.name a.text

/-- The compound `{overload, args}`. -/
def compoundText (idx : Nat) (args : List (Argument snbtNum)) : List UInt8 :=
  ascii "\x7boverload:" ++ num idx ++ ascii ",args:\x7b" ++
    (ascii ",").intercalate (args.map (Argument.entry snbtNum)) ++ ascii "\x7d\x7d"

/-- The parameters are declared by the overload, with these kinds. -/
def Declares (decls : List ParamDecl) (d : ParamDecl) : Prop := ∃ d' ∈ decls, d'.name = d.name ∧ d'.kind = d.kind

/-- The form of arguments the registration asks for. -/
def Promised (F : Floats) (c : RegisterCall) (rt : RuntimeCommand) (origin : CommandOrigin)
    (passed : List UInt8 × List UInt8) : Prop :=
  match c with
  | .plain _ _ _ _ _ => passed = (rawArgs rt, origin.identity)
  | .ex _ _ overloads _ _ _ =>
    ∃ ovls idx decls args, decodeOverloads F overloads = some ovls ∧ ovls[idx]? = some decls ∧
      (∀ a ∈ args, Declares decls a.decl) ∧ passed = (compoundText snbtNum idx args, originSnbt snbtNum origin)

end Texts

/-! ## Keeping the promise -/

section Promise

variable {snbtNum : F32 → List UInt8} {F : Floats}

theorem flatMap_comma {α : Type} (c : UInt8) (f : α → List UInt8) (a : α) (l : List α) :
    ((a :: l).flatMap fun a => f a ++ [c]) = [c].intercalate ((a :: l).map f) ++ [c] := by
  induction l generalizing a with
  | nil => simp [List.intercalate]
  | cons b l ih =>
    rw [List.flatMap_cons, ih b]
    simp [List.intercalate]

variable (snbtNum) in
/-- The loop over the declarations appends what is given and declared. -/
theorem foldl_appendParsedParam (rt : RuntimeCommand) (decls : List ParamDecl) (out : List UInt8) :
    ∃ args : List (Argument snbtNum), (∀ a, a ∈ args ↔ a.decl ∈ decls ∧ rt a.decl.name = some a.value) ∧
      decls.foldl (appendParsedParam snbtNum rt) out = out ++ args.flatMap fun a => a.entry snbtNum ++ ascii "," := by
  induction decls generalizing out with
  | nil => exact ⟨[], by simp, by simp⟩
  | cons d decls ih =>
    obtain ⟨args, hargs, heq⟩ := ih (appendParsedParam snbtNum rt out d)
    have hskip : appendParsedParam snbtNum rt out d = out →
        (∀ a : Argument snbtNum, a.decl = d → rt d.name ≠ some a.value) → ∃ args : List (Argument snbtNum),
        (∀ a, a ∈ args ↔ a.decl ∈ d :: decls ∧ rt a.decl.name = some a.value) ∧
          (d :: decls).foldl (appendParsedParam snbtNum rt) out =
            out ++ args.flatMap fun a => a.entry snbtNum ++ ascii "," := by
      intro hsame hnone
      refine ⟨args, fun a => ?_, by rw [List.foldl_cons, heq, hsame]⟩
      rw [hargs, List.mem_cons, or_and_right, or_iff_right]
      rintro ⟨hd, hv⟩
      exact hnone a hd (hd ▸ hv)
    cases hp : rt d.name with
    | none => exact hskip (by simp [appendParsedParam, hp]) (by simp [hp])
    | some p =>
      by_cases hk : p.kind = d.kind
      · cases ht : p.text snbtNum with
        | none =>
          refine hskip (by simp [appendParsedParam, hp, ht]) fun a _ hv => ?_
          have hw := a.written
          rw [hp] at hv
          rw [← Option.some.inj hv, ht] at hw
          cases hw
        | some text =>
          refine ⟨⟨d, p, hk, text, ht⟩ :: args, fun a => ?_, ?_⟩
          · rw [List.mem_cons, List.mem_cons, hargs, or_and_right]
            refine or_congr ⟨?_, ?_⟩ Iff.rfl
            · rintro rfl
              exact ⟨rfl, hp⟩
            · rintro ⟨hd, hv⟩
              obtain ⟨decl, value, kind, text', written⟩ := a
              subst hd
              rw [hp] at hv
              cases hv
              rw [ht] at written
              cases written
              rfl
          · rw [List.foldl_cons, heq, appendParsedParam, hp]
            simp [hk, ht, Argument.entry]
      · refine hskip (by simp [appendParsedParam, hp, hk]) fun a hd hv => hk ?_
        rw [hp] at hv
        rw [Option.some.inj hv, a.kind, hd]

variable (snbtNum) in
theorem arguments_params (idx : Nat) (decls : List ParamDecl) (rt : RuntimeCommand) (origin : CommandOrigin) :
    ∃ args : List (Argument snbtNum), (∀ a, a ∈ args ↔ a.decl ∈ decls ∧ rt a.decl.name = some a.value) ∧
      arguments snbtNum (.params idx decls) rt origin = (compoundText snbtNum idx args, originSnbt snbtNum origin) := by
  obtain ⟨args, hargs, heq⟩ :=
    foldl_appendParsedParam snbtNum rt decls (ascii "\x7boverload:" ++ num idx ++ ascii ",args:\x7b")
  have hcomma : ascii "," = [byteOf ','] := by decide
  refine ⟨args, hargs, ?_⟩
  rw [arguments, heq, compoundText]
  cases args with
  | nil =>
    have hlast : ascii ",args:\x7b" = ascii ",args:" ++ [byteOf '{'] := by decide
    have hne : byteOf '{' ≠ byteOf ',' := by decide
    simp [dropComma, hlast, List.intercalate, hne, ← List.append_assoc]
  | cons a args =>
    rw [hcomma, flatMap_comma, ← List.append_assoc]
    simp [dropComma]

/-- The registration declares whatever the overload's executor may pass on. -/
def Accepts (F : Floats) (c : RegisterCall) (o : Overload) : Prop :=
  match o, c with
  | .raw, .plain _ _ _ _ _ => True
  | .params idx decls, .ex _ _ overloads _ _ _ =>
    ∃ ovls decls', decodeOverloads F overloads = some ovls ∧ ovls[idx]? = some decls' ∧ ∀ d ∈ decls, Declares decls' d
  | _, _ => False

theorem promised_of_accepts {c : RegisterCall} {o : Overload} (h : Accepts F c o) (rt : RuntimeCommand)
    (origin : CommandOrigin) : Promised snbtNum F c rt origin (arguments snbtNum o rt origin) := by
  cases o with
  | raw =>
    cases c with
    | plain => rfl
    | ex => exact absurd h id
  | params idx decls =>
    cases c with
    | plain => exact absurd h id
    | ex mod name overloads cb user throwsAt =>
      obtain ⟨ovls, decls', hovls, hidx, hdecls⟩ := h
      obtain ⟨args, hargs, heq⟩ := arguments_params snbtNum idx decls rt origin
      exact ⟨ovls, idx, decls', args, hovls, hidx, fun a ha => hdecls a.decl ((hargs a).mp ha).1, heq⟩

/-- A registration accepts the overloads it declares itself. -/
theorem accepts_own {c : RegisterCall} {ovls : List Overload} (h : c.overloads F = some ovls) {o : Overload}
    (ho : o ∈ ovls) : Accepts F c o := by
  cases c with
  | plain =>
    cases h
    rw [List.mem_singleton.mp ho]
    trivial
  | ex mod name overloads cb user throwsAt =>
    simp only [RegisterCall.overloads, Option.map_eq_some_iff] at h
    obtain ⟨decls, hdecls, rfl⟩ := h
    obtain ⟨idx, hidx, rfl⟩ := List.mem_mapIdx.mp ho
    exact ⟨decls, decls[idx], hdecls, List.getElem?_eq_getElem hidx, fun d hd => ⟨d, hd, rfl, rfl⟩⟩

end Promise

/-! ## Runs -/

section Run

variable (snbtNum : F32 → List UInt8) (F : Floats)

/-- The last registration to store its callback in the binding. -/
def LastStored (tr : List (State × Label)) (b : Nat) (s : State) (c : RegisterCall) : Prop :=
  ∃ pre suf, tr = pre ++ (s, .register c) :: suf ∧ Stores F b (s, .register c) ∧ ∀ e ∈ suf, ¬Stores F b e

/-- Whenever an executor calls the callback of a registration that returned
true, it passes what that registration asks for, whatever the engine has parsed. -/
def KeepsForm (tr : List (State × Label)) : Prop :=
  ∀ pre s i suf, tr = pre ++ (s, .invoke i) :: suf → ∀ e, s.reg.executors[i]? = some e →
    ∀ mod callback, e.call s.muted s.reg = some (mod, callback) →
      ∀ s₀ c, LastStored F pre e.binding s₀ c → (c.run F s₀.reg).1 = true →
        ∀ rt origin, Promised snbtNum F c rt origin (arguments snbtNum e.overload rt origin)

/-- A registration that takes a name over declares what the executors of that name pass on. -/
def SameInterface (s : State) (l : Label) : Prop :=
  ∀ c b, l = .register c → s.reg.gCommands.lookup c.name = some b →
    claimed c.mod c.name (c.overloads F) c.cb s.reg = some b →
    ∀ e ∈ s.reg.executors, e.binding = b → Accepts F c e.overload

/-- Bindings are numbered as they come, and whoever was the last to store in
one accepts what its executors pass on. -/
structure Fits (tr : List (State × Label)) (s : Registry) : Prop where
  named : ∀ name b, s.gCommands.lookup name = some b → b < s.bindings.length
  bound : ∀ e ∈ s.executors, e.binding < s.bindings.length
  accepts : ∀ e ∈ s.executors, ∀ s₀ c, LastStored F tr e.binding s₀ c → (c.run F s₀.reg).1 = true →
    Accepts F c e.overload

variable {snbtNum F}

theorem lastStored_iff_since {tr : List (State × Label)} {b : Nat} {s : State} {c : RegisterCall} :
    LastStored F tr b s c ↔ Since (fun e => e = (s, .register c) ∧ Stores F b e) (Stores F b) tr := by
  constructor
  · rintro ⟨pre, suf, htr, hs, hlater⟩
    exact ⟨pre, _, suf, htr, ⟨rfl, hs⟩, hlater⟩
  · rintro ⟨pre, _, suf, htr, ⟨rfl, hs⟩, hlater⟩
    exact ⟨pre, suf, htr, hs, hlater⟩

/-- The last registration is the one just made, if it stores there, or still the one before. -/
theorem LastStored.of_append {tr : List (State × Label)} {b : Nat} {s s₀ : State} {l : Label} {c : RegisterCall}
    (h : LastStored F (tr ++ [(s, l)]) b s₀ c) :
    (s = s₀ ∧ l = .register c ∧ Stores F b (s, l)) ∨ (¬Stores F b (s, l) ∧ LastStored F tr b s₀ c) := by
  rw [lastStored_iff_since, since_concat] at h
  rcases h with ⟨heq, hs⟩ | ⟨h, hn⟩
  · cases heq
    exact .inl ⟨rfl, rfl, hs⟩
  · exact .inr ⟨hn, lastStored_iff_since.mpr h⟩

/-- A step that stores nothing in the bindings of the executors keeps what they fit. -/
theorem LastStored.of_append_of_not {tr : List (State × Label)} {b : Nat} {s s₀ : State} {l : Label} {c : RegisterCall}
    (h : LastStored F (tr ++ [(s, l)]) b s₀ c) (hn : ¬Stores F b (s, l)) : LastStored F tr b s₀ c :=
  (h.of_append.resolve_left fun hx => hn hx.2.2).2

theorem Fits.other {tr : List (State × Label)} {s : State} (h : Fits F tr s.reg) {l : Label}
    (hl : ∀ c, l ≠ .register c) : Fits F (tr ++ [(s, l)]) s.reg :=
  ⟨h.named, h.bound, fun e he s₀ c hlast => h.accepts e he s₀ c (hlast.of_append_of_not (not_stores hl))⟩

/-- A new binding is one that no executor had before. -/
theorem Fits.fresh {tr : List (State × Label)} {s : State} (h : Fits F tr s.reg) {c : RegisterCall}
    (hclaimed : claimed c.mod c.name (c.overloads F) c.cb s.reg = some s.reg.bindings.length) (x : CommandBinding)
    {table : Table String Nat} {new : List Executor}
    (htable : ∀ name b, table.lookup name = some b → b = s.reg.bindings.length ∨ s.reg.gCommands.lookup name = some b)
    (hnew : ∀ e ∈ new, e.binding = s.reg.bindings.length ∧ ((c.run F s.reg).1 = true → Accepts F c e.overload)) :
    Fits F (tr ++ [(s, .register c)]) ⟨table, s.reg.bindings ++ [x], s.reg.executors ++ new⟩ := by
  refine ⟨fun name b hl => ?_, fun e he => ?_, fun e he s₀ c₀ hlast hok => ?_⟩
  · rw [List.length_append]
    rcases htable name b hl with rfl | hl
    · exact Nat.lt_succ_self _
    · exact Nat.lt_succ_of_lt (h.named name b hl)
  · rw [List.length_append]
    rcases List.mem_append.mp he with he | he
    · exact Nat.lt_succ_of_lt (h.bound e he)
    · rw [(hnew e he).1]
      exact Nat.lt_succ_self _
  · rcases List.mem_append.mp he with he | he
    · refine h.accepts e he s₀ c₀ (hlast.of_append_of_not ?_) hok
      rw [stores_register, hclaimed, Option.some.injEq]
      exact (Nat.ne_of_lt (h.bound e he)).symm
    · obtain ⟨rfl, hreg, -⟩ | ⟨hn, -⟩ := hlast.of_append
      · cases hreg
        exact (hnew e he).2 hok
      · rw [stores_register, hclaimed, (hnew e he).1] at hn
        exact absurd rfl hn

theorem Fits.register {tr : List (State × Label)} {s : State} (h : Fits F tr s.reg) (c : RegisterCall)
    (hsame : SameInterface F s (.register c)) : Fits F (tr ++ [(s, .register c)]) (c.run F s.reg).2 := by
  have heffect := registerOverloads_effect c.mod c.name (c.overloads F) c.cb c.user c.throwsAt s.reg
  rw [← c.run_eq] at heffect
  generalize hclaimed : claimed c.mod c.name (c.overloads F) c.cb s.reg = r at heffect
  generalize hrun : c.run F s.reg = result at heffect
  cases heffect with
  | refused =>
    refine ⟨h.named, h.bound, fun e he s₀ c₀ hlast => h.accepts e he s₀ c₀ (hlast.of_append_of_not ?_)⟩
    rw [stores_register, hclaimed]
    simp
  | rebound m fn b hm hcb hl =>
    refine ⟨by simpa using h.named, by simpa using h.bound, fun e he s₀ c₀ hlast hok => ?_⟩
    obtain ⟨-, hreg, hs⟩ | ⟨-, hlast⟩ := hlast.of_append
    · cases hreg
      rw [stores_register, hclaimed, Option.some.injEq] at hs
      exact hsame c b rfl hl hclaimed e he hs.symm
    · exact h.accepts e he s₀ c₀ hlast hok
  | installed m fn ovls hm hcb ho hl =>
    refine h.fresh hclaimed _ (fun name b hl' => ?_) (fun e he => ?_)
    · rw [AList.lookup_insert_eq] at hl'
      split at hl'
      · exact .inl (Option.some.inj hl').symm
      · exact .inr hl'
    · obtain ⟨o, ho', rfl⟩ := List.mem_map.mp he
      exact ⟨rfl, fun _ => accepts_own ho ho'⟩
  | thrown m fn ovls k hm hcb ho hl hk hlt =>
    refine h.fresh hclaimed _ (fun name b hl' => ?_) (fun e he => ?_)
    · rw [AList.lookup_erase_eq, AList.lookup_insert_eq] at hl'
      split at hl'
      · cases hl'
      · exact .inr hl'
    · obtain ⟨o, -, rfl⟩ := List.mem_map.mp (List.mem_of_mem_take he)
      refine ⟨rfl, fun hok => ?_⟩
      rw [hrun] at hok
      cases hok

theorem Fits.modGone {tr : List (State × Label)} {s : State} (h : Fits F tr s.reg) (mod : ModId) :
    Fits F (tr ++ [(s, .modGone mod)]) (commandsOnRustModGone mod s.reg) := by
  have hlength : (commandsOnRustModGone mod s.reg).bindings.length = s.reg.bindings.length :=
    length_clearBindings mod _ _
  refine ⟨fun name b hl => ?_, fun e he => ?_, fun e he s₀ c hlast => ?_⟩
  · rw [hlength]
    exact h.named name b hl
  · rw [hlength]
    exact h.bound e he
  · exact h.accepts e he s₀ c (hlast.of_append_of_not (not_stores (by simp)))

theorem fits_run {muted : ModId → Bool} {tr : List (State × Label)} {u : State}
    (h : Run (Step F) (start muted) tr u) (hG : Meets (SameInterface F) tr) : Fits F tr u.reg := by
  refine h.traceInvariant (fun tr s => Fits F tr s.reg) hG ?_ ?_
  · exact ⟨by simp [start, Registry.initial], by simp [start, Registry.initial], by simp [start, Registry.initial]⟩
  · intro pre s l t hs hg hstep
    cases hstep with
    | register c => exact hs.register c hg
    | invoke i => exact hs.other (by simp)
    | modGone mod => exact hs.modGone mod
    | setMuted mod muted => exact hs.other (by simp)

/-- In every run in which names are taken over with the interface they have,
callbacks get the arguments they were registered for. -/
theorem keepsForm_of_sameInterface {muted : ModId → Bool} {tr : List (State × Label)} {u : State}
    (h : Run (Step F) (start muted) tr u) (hG : Meets (SameInterface F) tr) : KeepsForm snbtNum F tr := by
  intro pre s i suf htr e he mod callback _ s₀ c hlast hok rt origin
  subst htr
  obtain ⟨_, hpre, _⟩ := h.split_cons
  have hfits := fits_run hpre ((meets_append _ _).mp hG).1
  exact promised_of_accepts (hfits.accepts e (List.mem_of_getElem? he) s₀ c hlast hok) rt origin

end Run

/-! ## Two variants under one name -/

/-- Floats without digits. -/
def noDigits : F32 → List UInt8 := fun _ => []

/-- `home` with one overload of one integer. -/
def homeEx : RegisterCall :=
  .ex (some 1) "home"
    (some (.compound [("overloads", .list [.list [.compound [("kind", .string "int"), ("name", .string "n")]]])]))
    (some 20) 21 none

def homePlain : RegisterCall := .plain (some 1) "home" (some 10) 11 none

/-- `first` is registered, then `second`, and the command is invoked. -/
def twice (first second : RegisterCall) : List (State × Label) :=
  let s₀ := start fun _ => false
  let s₁ : State := ⟨(first.run CommandRuns.noFloats s₀.reg).2, s₀.muted⟩
  let s₂ : State := ⟨(second.run CommandRuns.noFloats s₁.reg).2, s₁.muted⟩
  [(s₀, .register first), (s₁, .register second), (s₂, .invoke 0)]

theorem run_twice (first second : RegisterCall) :
    ∃ u, Run (Step CommandRuns.noFloats) (start fun _ => false) (twice first second) u :=
  ⟨_, .cons (.register _ _) (.cons (.register _ _) (.cons (.invoke _ _) (.nil _)))⟩

theorem keepsForm_twice : KeepsForm noDigits CommandRuns.noFloats (twice homeEx homeEx) := by
  obtain ⟨u, hrun⟩ := run_twice homeEx homeEx
  refine keepsForm_of_sameInterface hrun ?_
  intro entry hentry c b hl hlookup _ e he _
  simp only [twice, List.mem_cons, List.not_mem_nil, or_false] at hentry
  rcases hentry with rfl | rfl | rfl
  · cases hlookup
  · cases hl
    change e ∈ [⟨0, "home", .params 0 [⟨"n", .int, "", false⟩]⟩] at he
    have hown : homeEx.overloads CommandRuns.noFloats = some [.params 0 [⟨"n", .int, "", false⟩]] := rfl
    rw [List.mem_singleton.mp he]
    exact accepts_own hown List.mem_cons_self
  · cases hl

/-- The second registration returns true, and its callback gets the raw text of the first. -/
theorem rebound_gets_raw_text :
    ¬∀ snbtNum F muted tr u, Run (Step F) (start muted) tr u → KeepsForm snbtNum F tr := by
  intro h
  obtain ⟨u, hrun⟩ := run_twice homePlain homeEx
  have hlast : LastStored CommandRuns.noFloats ((twice homePlain homeEx).take 2) 0
      ⟨(homePlain.run CommandRuns.noFloats Registry.initial).2, fun _ => false⟩ homeEx :=
    ⟨(twice homePlain homeEx).take 1, [], rfl, stores_register.mpr rfl, by simp⟩
  have hpromised := h noDigits _ _ _ u hrun _ _ 0 [] rfl ⟨0, "home", .raw⟩ rfl 1 ⟨20, 21⟩ rfl _ homeEx hlast rfl
    (fun _ => none) ⟨[], 0, none⟩
  obtain ⟨ovls, idx, decls, args, -, -, -, hpassed⟩ := hpromised
  have hargs := congrArg Prod.fst hpassed
  have hopen : ascii "\x7boverload:" ≠ [] := by decide
  simp [arguments, rawArgs, compoundText, hopen] at hargs

end CommandForms
