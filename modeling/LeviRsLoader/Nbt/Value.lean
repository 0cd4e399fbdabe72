import LeviRsLoader.Lib.Decimal
import Mathlib.Data.List.Sort

/-!
# NBT values and their text

`NbtValue` is the Rust enum; a `BTreeMap` is the list of its entries in key
order. `write` is the SNBT writer. Floats are bit patterns and everything the
code does with them (formatting, parsing, conversion) is a parameter.
-/
namespace Nbt

/-- An `f32`, by its bits. -/
abbrev F32 := UInt32

/-- An `f64`, by its bits. -/
abbrev F64 := UInt64

/-- The standard library's operations on floats. -/
structure Floats where
  f32_as_f64 : F32 → F64
  f32_as_i64 : F32 → Int64
  f64_as_i64 : F64 → Int64
  write_float : F64 → List Char
  parse_f32 : List Char → Option F32
  parse_f64 : List Char → Option F64

inductive NbtValue where
  | byte (v : Int8)
  | short (v : Int16)
  | int (v : Int32)
  | long (v : Int64)
  | float (v : F32)
  | double (v : F64)
  | string (v : String)
  | list (items : List NbtValue)
  | compound (map : List (String × NbtValue))
  | byteArray (items : List Int8)
  | intArray (items : List Int32)
  | longArray (items : List Int64)
  deriving Inhabited

/-- `BTreeMap::insert`: entries stay in key order, an equal key is overwritten. -/
def insertEntry (k : String) (v : NbtValue) : List (String × NbtValue) → List (String × NbtValue)
  | [] => [(k, v)]
  | (k', v') :: m =>
    if k < k' then (k, v) :: (k', v') :: m
    else if k = k' then (k, v) :: m
    else (k', v') :: insertEntry k v m

/-! ## The writer -/

def escapeChar (c : Char) : List Char :=
  match c with
  | '"' => ['\\', '"']
  | '\\' => ['\\', '\\']
  | '\n' => ['\\', 'n']
  | '\r' => ['\\', 'r']
  | '\t' => ['\\', 't']
  | c => [c]

def write_quoted (s : String) : List Char := '"' :: (s.toList.flatMap escapeChar ++ ['"'])

def isBareChar (c : Char) : Bool := c.isAlphanum || c == '_' || c == '-' || c == '.' || c == '+'

def is_bare_key (key : String) : Bool := !key.toList.isEmpty && key.toList.all isBareChar

def writeKey (key : String) : List Char := if is_bare_key key then key.toList else write_quoted key

/-- The writer's loops: `f` on every element, with a comma before all but the first. -/
def writeSep {α : Type} (f : α → List Char) (first : Bool) : List α → List Char
  | [] => []
  | a :: l => (if first then [] else [',']) ++ f a ++ writeSep f false l

mutual

def NbtValue.write (F : Floats) : NbtValue → List Char
  | .byte v => Decimal.print v.toInt ++ ['b']
  | .short v => Decimal.print v.toInt ++ ['s']
  | .int v => Decimal.print v.toInt
  | .long v => Decimal.print v.toInt ++ ['L']
  | .float v => F.write_float (F.f32_as_f64 v) ++ ['f']
  | .double v => F.write_float v ++ ['d']
  | .string v => write_quoted v
  | .list items => '[' :: (writeItems F true items ++ [']'])
  | .compound map => '{' :: (writeEntries F true map ++ ['}'])
  | .byteArray items =>
    ['[', 'B', ';'] ++ writeSep (fun v => Decimal.print v.toInt ++ ['b']) true items ++ [']']
  | .intArray items => ['[', 'I', ';'] ++ writeSep (fun v => Decimal.print v.toInt) true items ++ [']']
  | .longArray items =>
    ['[', 'L', ';'] ++ writeSep (fun v => Decimal.print v.toInt ++ ['L']) true items ++ [']']

def writeItems (F : Floats) (first : Bool) : List NbtValue → List Char
  | [] => []
  | v :: items => (if first then [] else [',']) ++ v.write F ++ writeItems F false items

def writeEntries (F : Floats) (first : Bool) : List (String × NbtValue) → List Char
  | [] => []
  | (k, v) :: map =>
    (if first then [] else [',']) ++ (writeKey k ++ ':' :: v.write F) ++ writeEntries F false map

end

def NbtValue.to_snbt (F : Floats) (v : NbtValue) : String := String.ofList (v.write F)

theorem writeItems_eq (F : Floats) (first : Bool) (items : List NbtValue) :
    writeItems F first items = writeSep (NbtValue.write F) first items := by
  induction items generalizing first with
  | nil => rfl
  | cons v items ih => rw [writeItems, writeSep, ih]

theorem writeEntries_eq (F : Floats) (first : Bool) (map : List (String × NbtValue)) :
    writeEntries F first map = writeSep (fun e => writeKey e.1 ++ ':' :: e.2.write F) first map := by
  induction map generalizing first with
  | nil => rfl
  | cons e map ih => rw [writeEntries, writeSep, ih]

/-! ## Every node of a value -/

mutual

/-- `p` holds of the value and of every value inside it. -/
def NbtValue.all (p : NbtValue → Bool) : NbtValue → Bool
  | .list items => p (.list items) && allItems p items
  | .compound map => p (.compound map) && allEntries p map
  | .byte v => p (.byte v)
  | .short v => p (.short v)
  | .int v => p (.int v)
  | .long v => p (.long v)
  | .float v => p (.float v)
  | .double v => p (.double v)
  | .string v => p (.string v)
  | .byteArray items => p (.byteArray items)
  | .intArray items => p (.intArray items)
  | .longArray items => p (.longArray items)

def allItems (p : NbtValue → Bool) : List NbtValue → Bool
  | [] => true
  | v :: items => v.all p && allItems p items

def allEntries (p : NbtValue → Bool) : List (String × NbtValue) → Bool
  | [] => true
  | (_, v) :: map => v.all p && allEntries p map

end

theorem allItems_iff (p : NbtValue → Bool) (items : List NbtValue) :
    allItems p items = true ↔ ∀ v ∈ items, v.all p = true := by
  induction items with
  | nil => simp [allItems]
  | cons v items ih => simp [allItems, ih]

theorem allEntries_iff (p : NbtValue → Bool) (map : List (String × NbtValue)) :
    allEntries p map = true ↔ ∀ e ∈ map, e.2.all p = true := by
  induction map with
  | nil => simp [allEntries]
  | cons e map ih => simp [allEntries, ih]

/-- Induction over a value: the containers come with the statement for what they hold. -/
@[elab_as_elim]
theorem NbtValue.induct {P : NbtValue → Prop} (byte : ∀ v, P (.byte v)) (short : ∀ v, P (.short v))
    (int : ∀ v, P (.int v)) (long : ∀ v, P (.long v)) (float : ∀ v, P (.float v))
    (double : ∀ v, P (.double v)) (string : ∀ v, P (.string v))
    (list : ∀ items, (∀ v ∈ items, P v) → P (.list items))
    (compound : ∀ map, (∀ e ∈ map, P e.2) → P (.compound map))
    (byteArray : ∀ items, P (.byteArray items)) (intArray : ∀ items, P (.intArray items))
    (longArray : ∀ items, P (.longArray items)) (v : NbtValue) : P v := by
  refine @NbtValue.rec P (fun items => ∀ v ∈ items, P v) (fun map => ∀ e ∈ map, P e.2) (fun e => P e.2)
    byte short int long float double string list compound byteArray intArray longArray
    ?_ ?_ ?_ ?_ ?_ v
  · simp
  · intro v items hv hitems u hu
    rcases List.mem_cons.mp hu with rfl | hu
    · exact hv
    · exact hitems u hu
  · simp
  · intro e map he hmap u hu
    rcases List.mem_cons.mp hu with rfl | hu
    · exact he
    · exact hmap u hu
  · intro k v hv
    exact hv

/-! ## Conditions on a value -/

/-- The keys of a map node are those of a `BTreeMap`: distinct and in order. -/
def sortedNode : NbtValue → Bool
  | .compound map => decide ((map.map Prod.fst).Pairwise (· < ·))
  | _ => true

def noFloatNode : NbtValue → Bool
  | .float _ => false
  | .double _ => false
  | _ => true

/-- No list node starts with a string whose first character is a semicolon. -/
def noSemicolonNode : NbtValue → Bool
  | .list (.string s :: _) => s.toList.head? != some ';'
  | _ => true

/-- Well-formed as the Rust type is: every compound is a map. -/
def NbtValue.WF (v : NbtValue) : Prop := v.all sortedNode = true

def NbtValue.NoFloats (v : NbtValue) : Prop := v.all noFloatNode = true

def NbtValue.NoSemicolonLists (v : NbtValue) : Prop := v.all noSemicolonNode = true

instance (v : NbtValue) : Decidable v.WF := inferInstanceAs (Decidable (_ = true))

instance (v : NbtValue) : Decidable v.NoFloats := inferInstanceAs (Decidable (_ = true))

instance (v : NbtValue) : Decidable v.NoSemicolonLists := inferInstanceAs (Decidable (_ = true))

end Nbt
