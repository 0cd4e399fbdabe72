import LeviRsLoader.Nbt.Reading

/-!
# What a text says

The parser's grammar without its values: the tree of a text keeps every bare token as it stands.
Evaluating the tokens of the tree is the parser.
-/
namespace Nbt

open Utf8 Nbt.Parser

variable {α β σ : Type}

/-- What a call gives back, if it does. -/
def got : Except Fail α → Option α
  | .ok a => some a
  | .error _ => none

@[simp] theorem got_ok (a : α) : got (.ok a) = some a := rfl

@[simp] theorem got_error (e : Fail) : got (.error e : Except Fail α) = none := rfl

@[simp] theorem got_bind (r : Except Fail α) (f : α → Except Fail β) :
    got (r >>= f) = (got r).bind fun a => got (f a) := by
  cases r <;> rfl

theorem got_eq_some {r : Except Fail α} {a : α} : got r = some a ↔ r = .ok a := by
  cases r with
  | ok b => simp
  | error e => simp

/-! ## Items between commas -/

/-- What follows an item: a comma and more, or the closing bracket. -/
def sep (close : Char) (p : Parser) : Option (Bool × Parser) :=
  match p.skip_ws.bump with
  | (some b, p) => if b = byteOf ',' then some (true, p) else if b = byteOf close then some (false, p) else none
  | (none, _) => none

def sepLoop (close : Char) (item : Parser → Option (α × Parser)) : Nat → Parser → Option (List α × Parser)
  | 0, _ => none
  | n + 1, p =>
    (item p).bind fun (a, p) => (sep close p).bind fun (more, p) =>
      if more then (sepLoop close item n p).map fun (l, p) => (a :: l, p) else some ([a], p)

def sepList (close : Char) (item : Parser → Option (α × Parser)) (p : Parser) : Option (List α × Parser) :=
  let p := p.skip_ws
  if p.peek = some (byteOf close) then some ([], p.adv 1) else sepLoop close item (p.bytes.length + 1) p

/-- A loop that folds what it reads into an accumulator. -/
theorem fold_sepLoop (close : Char) (item : Parser → Option (α × Parser)) (act : σ → α → Option σ)
    (loop : Nat → σ → Parser → Option (σ × Parser)) (hzero : ∀ s p, loop 0 s p = none)
    (hsucc : ∀ n s p, loop (n + 1) s p =
      (item p).bind fun a => (act s a.1).bind fun s => (sep close a.2).bind fun b =>
        if b.1 then loop n s b.2 else some (s, b.2))
    (n : Nat) (s : σ) (p : Parser) :
    loop n s p = (sepLoop close item n p).bind fun r => (r.1.foldlM act s).map fun s => (s, r.2) := by
  induction n generalizing s p with
  | zero => rw [hzero, sepLoop, Option.bind_none]
  | succ n ih =>
    rw [hsucc, sepLoop, Option.bind_assoc]
    refine Option.bind_congr fun a _ => ?_
    obtain ⟨a, q⟩ := a
    dsimp only
    cases sep close q with
    | none => cases act s a <;> rfl
    | some b =>
      obtain ⟨more, r⟩ := b
      cases more with
      | false => cases hact : act s a <;> simp [hact]
      | true =>
        cases hact : act s a with
        | none =>
          cases hl : sepLoop close item n r with
          | none => simp [hl]
          | some l => simp [hl, hact]
        | some s' => simp [ih, hact, Option.bind_map]

/-! ## Trees -/

inductive Tree where
  | token (t : List Char)
  | quoted (s : String)
  | list (items : List Tree)
  | compound (entries : List (String × Tree))
  | array (kind : UInt8) (tokens : List (List Char))

namespace Tree

/-- Induction over a tree: lists and compounds come with the statement for what they hold. -/
@[elab_as_elim]
theorem induct {P : Tree → Prop} (token : ∀ t, P (.token t)) (quoted : ∀ s, P (.quoted s))
    (list : ∀ items, (∀ t ∈ items, P t) → P (.list items))
    (compound : ∀ entries, (∀ e ∈ entries, P e.2) → P (.compound entries))
    (array : ∀ kind tokens, P (.array kind tokens)) (t : Tree) : P t := by
  refine @Tree.rec P (fun items => ∀ t ∈ items, P t) (fun entries => ∀ e ∈ entries, P e.2) (fun e => P e.2)
    token quoted list compound array ?_ ?_ ?_ ?_ ?_ t
  · simp
  · intro t items ht hitems u hu
    rcases List.mem_cons.mp hu with rfl | hu
    · exact ht
    · exact hitems u hu
  · simp
  · intro e entries he hentries u hu
    rcases List.mem_cons.mp hu with rfl | hu
    · exact he
    · exact hentries u hu
  · intro key t ht
    exact ht

mutual

/-- The typed arrays of a tree, each with its letter and its tokens. -/
def arrays : Tree → List (UInt8 × List (List Char))
  | .token _ => []
  | .quoted _ => []
  | .list items => arraysOfItems items
  | .compound entries => arraysOfEntries entries
  | .array kind tokens => [(kind, tokens)]

def arraysOfItems : List Tree → List (UInt8 × List (List Char))
  | [] => []
  | t :: items => t.arrays ++ arraysOfItems items

def arraysOfEntries : List (String × Tree) → List (UInt8 × List (List Char))
  | [] => []
  | (_, t) :: entries => t.arrays ++ arraysOfEntries entries

end

theorem mem_arrays_list {a : UInt8 × List (List Char)} {items : List Tree} :
    a ∈ arrays (.list items) ↔ ∃ t ∈ items, a ∈ t.arrays := by
  rw [arrays]
  induction items with
  | nil => simp [arraysOfItems]
  | cons t items ih => simp [arraysOfItems, ih]

theorem mem_arrays_compound {a : UInt8 × List (List Char)} {entries : List (String × Tree)} :
    a ∈ arrays (.compound entries) ↔ ∃ e ∈ entries, a ∈ e.2.arrays := by
  rw [arrays]
  induction entries with
  | nil => simp [arraysOfEntries]
  | cons e entries ih =>
    obtain ⟨key, t⟩ := e
    simp [arraysOfEntries, ih]

theorem mem_arrays_array {a : UInt8 × List (List Char)} {kind : UInt8} {tokens : List (List Char)} :
    a ∈ arrays (.array kind tokens) ↔ a = (kind, tokens) := by
  rw [arrays, List.mem_singleton]

end Tree

/-- The letter of a typed array, when a semicolon follows it. -/
def arrayKind (p : Parser) : Option UInt8 := if p.bytes[p.pos + 1]? = some (byteOf ';') then p.peek else none

def token (p : Parser) : Option (List Char × Parser) := got (bare_token p.skip_ws)

def entry (tree : Parser → Option (Tree × Parser)) (p : Parser) : Option ((String × Tree) × Parser) :=
  (got (readKey p.skip_ws)).bind fun (key, p) => (got (p.skip_ws.expect ':')).bind fun p =>
    (tree p).map fun (t, p) => ((key, t), p)

def tree : Nat → Parser → Option (Tree × Parser)
  | 0, _ => none
  | n + 1, p =>
    let p := p.skip_ws
    p.peek.bind fun b =>
      if b = byteOf '{' then
        (sepList '}' (entry (tree n)) (p.adv 1)).map fun (entries, p) => (.compound entries, p)
      else if b = byteOf '[' then
        match arrayKind (p.adv 1) with
        | some kind => (sepList ']' token (p.adv 3)).map fun (tokens, p) => (.array kind tokens, p)
        | none => (sepList ']' (tree n) (p.adv 1)).map fun (items, p) => (.list items, p)
      else if b = byteOf '"' ∨ b = byteOf '\'' then (got (quoted_string p)).map fun (s, p) => (.quoted s, p)
      else (got (bare_token p)).map fun (t, p) => (.token t, p)

/-- The tree of a whole text. -/
def treeOf (text : String) : Option Tree :=
  let bytes := encode text.toList
  (tree (bytes.length + 1) (Parser.mk bytes 0).skip_ws).bind fun (t, p) =>
    if p.skip_ws.pos = p.bytes.length then some t else none

/-! ## Evaluating a tree -/

section

variable (F : Floats)

/-- The number an element of a typed array is taken for. -/
def elementOf (t : List Char) : Option Int64 := (tokenValue F t).as_i64 F

def pushToken (kind : UInt8) (acc : TypedAcc) (t : List Char) : Option TypedAcc :=
  (elementOf F t).bind (acc.push kind)

mutual

def Tree.eval : Tree → Option NbtValue
  | .token t => some (tokenValue F t)
  | .quoted s => some (.string s)
  | .list items => (evalItems [] items).map .list
  | .compound entries => (evalEntries [] entries).map .compound
  | .array kind tokens => (tokens.foldlM (pushToken F kind) ⟨[], [], []⟩).map fun acc => acc.value kind

def evalItems (vs : List NbtValue) : List Tree → Option (List NbtValue)
  | [] => some vs
  | t :: items => t.eval.bind fun v => evalItems (vs ++ [v]) items

def evalEntries (map : List (String × NbtValue)) : List (String × Tree) → Option (List (String × NbtValue))
  | [] => some map
  | (key, t) :: entries => t.eval.bind fun v => evalEntries (insertEntry key v map) entries

end

def pushItem (vs : List NbtValue) (t : Tree) : Option (List NbtValue) := (t.eval F).map fun v => vs ++ [v]

def pushEntry (map : List (String × NbtValue)) (e : String × Tree) : Option (List (String × NbtValue)) :=
  (e.2.eval F).map fun v => insertEntry e.1 v map

theorem evalItems_eq (vs : List NbtValue) (items : List Tree) :
    evalItems F vs items = items.foldlM (pushItem F) vs := by
  induction items generalizing vs with
  | nil => rfl
  | cons t items ih =>
    rw [evalItems, List.foldlM_cons, pushItem]
    cases t.eval F with
    | none => rfl
    | some v => exact ih _

theorem evalEntries_eq (map : List (String × NbtValue)) (entries : List (String × Tree)) :
    evalEntries F map entries = entries.foldlM (pushEntry F) map := by
  induction entries generalizing map with
  | nil => rfl
  | cons e entries ih =>
    obtain ⟨key, t⟩ := e
    rw [evalEntries, List.foldlM_cons, pushEntry]
    cases t.eval F with
    | none => rfl
    | some v => exact ih _

end

/-! ## The parser evaluates the tree -/

theorem skip_ws_skip_ws (p : Parser) : p.skip_ws.skip_ws = p.skip_ws := by
  have hrest : p.skip_ws.rest = p.rest.dropWhile isWs :=
    rest_adv_append List.takeWhile_append_dropWhile.symm
  apply skip_ws_of_head
  intro b hb
  have hnot := List.head?_dropWhile_not isWs p.rest
  rw [← hrest, Option.mem_def.mp hb] at hnot
  simpa using hnot

section

variable (F : Floats)

/-- The end of a loop's turn: on with a comma, or out with the bracket. -/
theorem got_sep (close : Char) (p : Parser) (more stop : Parser → Except Fail α) (msg : String) :
    got (match p.skip_ws.bump with
      | (some b, p) =>
        if b = byteOf ',' then more p else if b = byteOf close then stop p else .error (p.err msg)
      | (none, p) => .error (p.err msg)) =
      (sep close p).bind fun b => if b.1 then got (more b.2) else got (stop b.2) := by
  rw [sep]
  cases p.skip_ws.bump with
  | mk b q =>
    cases b with
    | none => rfl
    | some b =>
      dsimp only
      split
      next => rfl
      next =>
      split
      next => rfl
      next => rfl

theorem typedLoop_succ (kind : UInt8) (n : Nat) (acc : TypedAcc) (p : Parser) :
    got (typedLoop F kind (n + 1) acc p.skip_ws) =
      (token p).bind fun a => (pushToken F kind acc a.1).bind fun acc => (sep ']' a.2).bind fun b =>
        if b.1 then got (typedLoop F kind n acc b.2.skip_ws) else some (acc, b.2) := by
  rw [typedLoop, scalar, token]
  cases bare_token p.skip_ws with
  | error e => rfl
  | ok a =>
    obtain ⟨t, q⟩ := a
    simp only [ok_bind, got_ok, Option.bind_some, pushToken, elementOf]
    cases (tokenValue F t).as_i64 F with
    | none => rfl
    | some i =>
      dsimp only [Option.bind_some]
      cases acc.push kind i with
      | none => rfl
      | some acc =>
        dsimp only [Option.bind_some]
        exact got_sep ']' q _ _ _

/-- A call of the parser gives the value of the tree read there. -/
def Evaluates (value : Parser → Except Fail (NbtValue × Parser)) (tree : Parser → Option (Tree × Parser)) : Prop :=
  ∀ p, got (value p) = (tree p).bind fun a => (a.1.eval F).map fun v => (v, a.2)

variable {F} {value : Parser → Except Fail (NbtValue × Parser)} {tree : Parser → Option (Tree × Parser)}

theorem listLoop_succ (h : Evaluates F value tree) (n : Nat) (vs : List NbtValue) (p : Parser) :
    got (listLoop value (n + 1) vs p) =
      (tree p).bind fun a => (pushItem F vs a.1).bind fun vs => (sep ']' a.2).bind fun b =>
        if b.1 then got (listLoop value n vs b.2) else some (vs, b.2) := by
  rw [listLoop, got_bind, h p, Option.bind_assoc]
  refine Option.bind_congr fun a _ => ?_
  rw [pushItem]
  cases a.1.eval F with
  | none => rfl
  | some v =>
    simp only [Option.map_some, Option.bind_some]
    exact got_sep ']' a.2 _ _ _

theorem compoundLoop_succ (h : Evaluates F value tree) (n : Nat) (map : List (String × NbtValue)) (p : Parser) :
    got (compoundLoop value (n + 1) map p) =
      (entry tree p).bind fun a => (pushEntry F map a.1).bind fun map => (sep '}' a.2).bind fun b =>
        if b.1 then got (compoundLoop value n map b.2) else some (map, b.2) := by
  rw [compoundLoop, got_bind, entry, Option.bind_assoc]
  refine Option.bind_congr fun a _ => ?_
  obtain ⟨key, q⟩ := a
  dsimp only
  rw [got_bind, Option.bind_assoc]
  refine Option.bind_congr fun q _ => ?_
  rw [got_bind, h q, Option.bind_assoc, Option.bind_map]
  refine Option.bind_congr fun a _ => ?_
  simp only [Function.comp, pushEntry]
  cases a.1.eval F with
  | none => rfl
  | some v =>
    simp only [Option.map_some, Option.bind_some]
    exact got_sep '}' a.2 _ _ _

theorem typed_array_eq (kind : UInt8) (p : Parser) :
    got (typed_array F kind p) = (sepList ']' token p).bind fun a =>
      (Tree.eval F (.array kind a.1)).map fun v => (v, a.2) := by
  have hloop := fold_sepLoop ']' token (pushToken F kind)
    (fun n acc p => got (typedLoop F kind n acc p.skip_ws)) (fun _ _ => rfl) (typedLoop_succ F kind)
    (p.skip_ws.bytes.length + 1) ⟨[], [], []⟩ p.skip_ws
  rw [skip_ws_skip_ws] at hloop
  rw [typed_array, sepList]
  split
  next => rfl
  next =>
    dsimp only
    rw [got_bind, hloop, Option.bind_assoc]
    refine Option.bind_congr fun a _ => ?_
    rw [Tree.eval]
    cases a.1.foldlM (pushToken F kind) ⟨[], [], []⟩ <;> rfl

theorem list_eq (h : Evaluates F value tree) (p : Parser) :
    got (list value p) = (sepList ']' tree p).bind fun a =>
      (Tree.eval F (.list a.1)).map fun v => (v, a.2) := by
  have hloop := fold_sepLoop ']' tree (pushItem F)
    (fun n vs p => got (listLoop value n vs p)) (fun _ _ => rfl) (listLoop_succ h)
    (p.skip_ws.bytes.length + 1) [] p.skip_ws
  rw [list, sepList]
  split
  next => rfl
  next =>
    dsimp only
    rw [got_bind, hloop, Option.bind_assoc]
    refine Option.bind_congr fun a _ => ?_
    rw [Tree.eval, evalItems_eq]
    cases a.1.foldlM (pushItem F) [] <;> rfl

theorem compound_eq (h : Evaluates F value tree) {p : Parser} (hp : p.peek = some (byteOf '{')) :
    got (compound value p) = (sepList '}' (entry tree) (p.adv 1)).bind fun a =>
      (Tree.eval F (.compound a.1)).map fun v => (v, a.2) := by
  have hloop := fold_sepLoop '}' (entry tree) (pushEntry F)
    (fun n map p => got (compoundLoop value n map p)) (fun _ _ => rfl) (compoundLoop_succ h)
    ((p.adv 1).skip_ws.bytes.length + 1) [] (p.adv 1).skip_ws
  rw [compound, expect, if_pos hp, ok_bind, sepList]
  dsimp only
  split
  next => rfl
  next =>
    rw [got_bind, hloop, Option.bind_assoc]
    refine Option.bind_congr fun a _ => ?_
    rw [Tree.eval, evalEntries_eq]
    cases a.1.foldlM (pushEntry F) [] <;> rfl

theorem bracket_eq (h : Evaluates F value tree) {p : Parser} (hp : p.peek = some (byteOf '[')) :
    got (list_or_array F value p) =
      match arrayKind (p.adv 1) with
      | some kind => (sepList ']' token (p.adv 3)).bind fun a =>
          (Tree.eval F (.array kind a.1)).map fun v => (v, a.2)
      | none => (sepList ']' tree (p.adv 1)).bind fun a => (Tree.eval F (.list a.1)).map fun v => (v, a.2) := by
  rw [list_or_array, expect, if_pos hp, ok_bind, arrayKind]
  by_cases hlen : (p.adv 1).pos + 2 ≤ (p.adv 1).bytes.length
  · have hsemi := List.getElem?_eq_getElem (l := (p.adv 1).bytes) (i := (p.adv 1).pos + 1) (by omega)
    have hkind := List.getElem?_eq_getElem (l := (p.adv 1).bytes) (i := (p.adv 1).pos) (by omega)
    rw [if_pos hlen, index, hsemi, ok_bind, index, hkind, ok_bind, peek, hkind]
    simp only [Option.some.injEq]
    split
    next => exact typed_array_eq _ _
    next => exact list_eq h _
  · have hsemi : (p.adv 1).bytes[(p.adv 1).pos + 1]? = none := List.getElem?_eq_none (by omega)
    rw [if_neg hlen, hsemi, if_neg (by simp)]
    exact list_eq h _

theorem value_eq (n : Nat) : Evaluates F (Nbt.value F n) (Nbt.tree n) := by
  induction n with
  | zero => exact fun _ => rfl
  | succ n ih =>
    intro p
    rw [Nbt.value, Nbt.tree]
    cases hb : p.skip_ws.peek with
    | none => rfl
    | some b =>
      dsimp only [Option.bind_some]
      split
      next hc =>
        rw [compound_eq ih (hc ▸ hb), Option.bind_map]
        rfl
      next =>
      split
      next hc =>
        rw [bracket_eq ih (hc ▸ hb)]
        cases arrayKind (p.skip_ws.adv 1) with
        | some kind => rw [Option.bind_map]; rfl
        | none => rw [Option.bind_map]; rfl
      next =>
      split
      next =>
        rw [got_bind, Option.bind_map]
        rfl
      next =>
        rw [scalar, got_bind, Option.bind_map]
        rfl

/-- The parser gives a value if the text has a tree and the tree evaluates to it. -/
theorem parse_eq_eval (text : String) : got (NbtValue.parse F text) = (treeOf text).bind (Tree.eval F) := by
  rw [NbtValue.parse, parse_all, treeOf]
  dsimp only
  rw [got_bind, value_eq, Option.bind_assoc, Option.bind_assoc]
  refine Option.bind_congr fun a _ => ?_
  obtain ⟨t, p⟩ := a
  have hbytes : p.skip_ws.bytes = p.bytes := rfl
  cases heval : t.eval F with
  | none => split <;> simp [heval]
  | some v =>
    simp only [Option.map_some, Option.bind_some, hbytes]
    split
    next => exact heval.symm
    next => rfl

end

end Nbt
