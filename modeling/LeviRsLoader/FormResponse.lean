import LeviRsLoader.HookPayload
import LeviRsLoader.Lib.Tables

/-!
# The response to a form

What the engine reports for a form, the text `Forms.cpp` makes of it, and
`parse_response` of `gui/mod.rs`, which takes the text apart again. A choice
made in a dropdown or a step slider goes out twice, its index among the values
and its text among the texts.
-/
namespace Forms

open Nbt Utf8 HookCancel HookPayload

/-! ## The form -/

inductive ElementKind where
  | header
  | label
  | divider
  | input
  | toggle
  | dropdown
  | step_slider
  | slider
  | other
  deriving DecidableEq, Repr

/-- The kinds that hold a value, which need a name of their own. -/
def ElementKind.valued : ElementKind → Bool
  | .input | .toggle | .dropdown | .step_slider | .slider => true
  | _ => false

def ElementKind.choice : ElementKind → Bool
  | .dropdown | .step_slider => true
  | _ => false

/-- A compound of the spec's `elements`. -/
structure Element where
  kind : ElementKind
  name : List UInt8
  options : List (List UInt8)
  deriving DecidableEq, Repr

/-- The options of the dropdowns and step sliders, by name. -/
abbrev ChoiceTable := Table (List UInt8) (List (List UInt8))

/-- The turn of the loop of `sendCustom`: a choice without options is left off the form. -/
def addChoice (choices : ChoiceTable) (e : Element) : ChoiceTable :=
  if e.kind.choice then
    if e.options = [] then choices
    else if e.name ≠ [] then choices.insert e.name e.options
    else choices
  else choices

def choicesOf (elements : List Element) : ChoiceTable := elements.foldl addChoice ∅

/-! ## What the engine reports -/

/-- `ll::form::CustomFormElementResult` -/
inductive ElementResult where
  | monostate
  | uint64 (v : UInt64)
  | double (v : F64)
  | string (s : List UInt8)
  deriving DecidableEq, Repr

/-- The engine's map; its entries stand in the order of the walk. -/
abbrev CustomFormResult := Table (List UInt8) ElementResult

inductive ModalFormSelectedButton where
  | upper
  | lower
  deriving DecidableEq, Repr

/-- The code of a `FormCancelReason`, if there is one. -/
abbrev FormCancelReason := Option Int32

/-- The arguments of the closure that each of the three senders hands to the engine. -/
inductive Report where
  | simple (button : Int32) (reason : FormCancelReason)
  | custom (elements : List Element) (result : Option CustomFormResult) (reason : FormCancelReason)
  | modal (result : Option ModalFormSelectedButton) (reason : FormCancelReason)

/-! ## The text -/

def cancelledSnbt (reason : FormCancelReason) : List UInt8 :=
  ascii "\x7bcancelled:1b,reason:" ++ num (reason.getD (-1)).toInt ++ ascii "\x7d"

/-- `§` is two bytes, and the code after it is taken to be one. -/
def stripFormatCodes : List UInt8 → List UInt8
  | a :: b :: c :: s =>
    if a = 0xC2 ∧ b = 0xA7 then stripFormatCodes s else a :: stripFormatCodes (b :: c :: s)
  | s => s

def findOption (opts : List (List UInt8)) (text : List UInt8) : Option Nat :=
  (opts.findIdx? (· == text)).or (opts.findIdx? fun opt => stripFormatCodes opt == stripFormatCodes text)

structure SnbtObject where
  body : List UInt8

def SnbtObject.put (o : SnbtObject) (key rawValue : List UInt8) : SnbtObject :=
  ⟨(if o.body = [] then [] else o.body ++ ascii ",") ++ ascii "\"" ++ snbtEscape key ++ ascii "\":" ++ rawValue⟩

def SnbtObject.putString (o : SnbtObject) (key text : List UInt8) : SnbtObject :=
  o.put key (ascii "\"" ++ snbtEscape text ++ ascii "\"")

def SnbtObject.wrap (o : SnbtObject) : List UInt8 := ascii "\x7b" ++ o.body ++ ascii "\x7d"

/-- What the bridge does with doubles: prints them, and rounds one that is not negative to an index. -/
structure Doubles where
  snbtNum : F64 → List UInt8
  index : F64 → Option Nat

section

variable (D : Doubles)

/-- The index and the text that go out for a choice. -/
def choiceOf (options : List (List UInt8)) (value : ElementResult) : Option Nat × List UInt8 :=
  let (idx, text) : Option Nat × List UInt8 := match value with
    | .uint64 v => (some v.toNat, [])
    | .double d => (D.index d, [])
    | .string s => (findOption options s, s)
    | .monostate => (none, [])
  match idx with
  | none => (none, text)
  | some i =>
    match options[i]? with
    | some text => (some i, text)
    | none => (none, text)

/-- The turn of the callback's loop; the two objects are the values and the texts. -/
def addResult (choices : ChoiceTable) (o : SnbtObject × SnbtObject) (key : List UInt8) (value : ElementResult) :
    SnbtObject × SnbtObject :=
  match choices.lookup key with
  | some options =>
    ((match (choiceOf D options value).1 with
      | some i => o.1.put key (num i ++ ascii "l")
      | none => o.1),
      if (choiceOf D options value).2 ≠ [] then o.2.putString key (choiceOf D options value).2 else o.2)
  | none =>
    match value with
    | .uint64 v => (o.1.put key (num v.toNat ++ ascii "l"), o.2)
    | .double d => (o.1.put key (D.snbtNum d ++ ascii "d"), o.2)
    | .string s => (o.1.putString key s, o.2.putString key s)
    | .monostate => o

def customSnbt (choices : ChoiceTable) (result : CustomFormResult) : List UInt8 :=
  let o := result.entries.foldl (fun o e => addResult D choices o e.1 e.2) (⟨[]⟩, ⟨[]⟩)
  ascii "\x7bvalues:" ++ o.1.wrap ++ ascii ",texts:" ++ o.2.wrap ++ ascii "\x7d"

def Report.snbt : Report → List UInt8
  | .simple button reason =>
    if button < 0 then cancelledSnbt reason else ascii "\x7bbutton:" ++ num button.toInt ++ ascii "\x7d"
  | .custom elements result reason =>
    match result with
    | none => cancelledSnbt reason
    | some result => customSnbt D (choicesOf elements) result
  | .modal result reason =>
    match result with
    | none => cancelledSnbt reason
    | some .upper => ascii "\x7bbutton:\"upper\"\x7d"
    | some .lower => ascii "\x7bbutton:\"lower\"\x7d"

end

/-! ## The Rust side -/

inductive FormValue where
  | int (v : Int64)
  | float (v : F64)
  | text (v : String)
  | choice (index : Int64) (text : String)
  deriving DecidableEq

inductive FormResponse where
  | cancelled (reason : Int32)
  | button (index : UInt64)
  | custom (values : Table String FormValue)
  | modal (upper : Bool)

def as_compound : NbtValue → Option (List (String × NbtValue))
  | .compound map => some map
  | _ => none

def as_string : NbtValue → Option String
  | .string s => some s
  | _ => none

def text_of (texts : Option (List (String × NbtValue))) (key : String) : Option String :=
  (texts.bind fun t => t.lookup key).bind as_string

section

variable (F : Floats)

def formValue (text : Option String) : NbtValue → Option FormValue
  | .float f => some (.float (F.f32_as_f64 f))
  | .double f => some (.float f)
  | .string t => some (.text t)
  | other =>
    (other.as_i64 F).map fun i =>
      match text with
      | some text => .choice i text
      | none => .int i

def addValue (texts : Option (List (String × NbtValue))) (out : Table String FormValue) (e : String × NbtValue) :
    Table String FormValue :=
  match formValue F (text_of texts e.1) e.2 with
  | some fv => out.insert e.1 fv
  | none => out

def addText (out : Table String FormValue) (e : String × NbtValue) : Table String FormValue :=
  if (out.lookup e.1).isSome then out
  else
    match as_string e.2 with
    | some s => out.insert e.1 (.text s)
    | none => out

def parse_response (snbt : String) : FormResponse :=
  match NbtValue.parse F snbt with
  | .error _ => .cancelled (-1)
  | .ok v =>
    if ((get "cancelled" v).bind (as_bool F)).getD false then
      .cancelled (((get "reason" v).bind (NbtValue.as_i64 F)).getD (-1)).toInt32
    else
      match (get "values" v).bind as_compound with
      | some values =>
        let texts := (get "texts" v).bind as_compound
        .custom ((texts.getD []).foldl addText (values.foldl (addValue F texts) ∅))
      | none =>
        match get "button" v with
        | some (.string which) => .modal (which == "upper")
        | some other =>
          let i := (other.as_i64 F).getD 0
          .button (if i < 0 then 0 else i).toUInt64
        | none => .cancelled (-1)

end

/-! ## What is to arrive -/

/-- What the engine can report for an element that is on the form. -/
def Element.Reports (e : Element) : ElementResult → Prop
  | .monostate => True
  | .uint64 v => v.toNat < 9223372036854775808 ∧ (e.kind.choice = true → v.toNat < e.options.length)
  | .double _ => False
  | .string s => (∃ t, s = encode t) ∧ (e.kind.choice = true → e.options ≠ [])

/-- A form whose elements have names of their own, its texts UTF-8, and a result for it. -/
structure Possible (elements : List Element) (result : CustomFormResult) : Prop where
  unique : ((elements.filter fun e => e.kind.valued).map Element.name).Nodup
  name : ∀ e ∈ elements, ∃ t, e.name = encode t
  option : ∀ e ∈ elements, ∀ opt ∈ e.options, ∃ t, opt = encode t
  /-- No vector is longer. -/
  size : ∀ e ∈ elements, e.options.length < 9223372036854775808
  reports : ∀ key value, result.lookup key = some value → value ≠ .monostate →
    ∃ e ∈ elements, e.kind.valued = true ∧ e.name = key ∧ e.Reports value

def Report.Possible : Report → Prop
  | .custom elements (some result) _ => Forms.Possible elements result
  | _ => True

/-- The option a value stands for: the engine gives its index or its text. -/
def Element.chosen (e : Element) : ElementResult → Option Nat
  | .uint64 v => if e.kind.choice then some v.toNat else none
  | .string s => if e.kind.choice then findOption e.options s else none
  | _ => none

def Element.meaning (e : Element) (value : ElementResult) : Option FormValue :=
  match (e.chosen value).bind fun i => (e.options[i]?).map fun text => (i, text) with
  | some (i, text) => some (.choice (Int64.ofNat i) (r text))
  | none =>
    match value with
    | .monostate => none
    | .uint64 v => some (.int (Int64.ofNat v.toNat))
    | .double d => some (.float d)
    | .string s => some (.text (r s))

/-- What a value stands for under a name of the form. -/
def meaningOf (elements : List Element) (name : List UInt8) (value : ElementResult) : Option FormValue :=
  (elements.find? fun e => e.kind.valued && e.name == name).bind fun e => e.meaning value

/-- The response says what the engine reported. -/
def Survives (response : FormResponse) : Report → Prop
  | .simple button reason =>
    if button < 0 then response = .cancelled (reason.getD (-1))
    else response = .button (UInt64.ofNat button.toInt.toNat)
  | .custom _ none reason => response = .cancelled (reason.getD (-1))
  | .custom elements (some result) _ =>
    ∃ out, response = .custom out ∧
      ∀ key : String, out.lookup key =
        (result.lookup (encode key.toList)).bind (meaningOf elements (encode key.toList))
  | .modal none reason => response = .cancelled (reason.getD (-1))
  | .modal (some which) _ => response = .modal (which = .upper)

/-- A choice is told by a named element and has a text, and a named choice
element that does not tell one has no empty text. -/
def Element.Tells (e : Element) (value : ElementResult) : Prop :=
  e.kind.choice = true →
    match e.chosen value with
    | some i => e.name ≠ [] ∧ e.options[i]? ≠ some []
    | none => e.name = [] ∨ value ≠ .string []

def Report.Tells : Report → Prop
  | .custom elements (some result) _ =>
    ∀ e ∈ elements, ∀ value, result.lookup e.name = some value → e.Tells value
  | _ => True

end Forms
