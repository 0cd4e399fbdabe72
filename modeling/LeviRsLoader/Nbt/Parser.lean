import LeviRsLoader.Lib.Utf8
import LeviRsLoader.Nbt.Value

/-!
# The SNBT parser

The recursive-descent parser over bytes and a position. The parser state is
passed along; a call ends in a value, in an error text, or in a panic where an
index, a slice or an `unwrap` would be out of range. Each loop, and the
recursion of `value`, counts down a fuel that `parse_all` sets above the
length of the input.
-/
namespace Nbt

open Utf8

inductive Fail where
  | error (msg : String)
  | panic
  | fuel
  deriving DecidableEq, Repr

structure Parser where
  bytes : List UInt8
  pos : Nat
  deriving DecidableEq, Repr

namespace Parser

def err (p : Parser) (msg : String) : Fail := .error ("snbt: " ++ msg ++ " at byte " ++ toString p.pos)

def adv (p : Parser) (n : Nat) : Parser := { p with pos := p.pos + n }

/-- What is left to read. -/
def rest (p : Parser) : List UInt8 := p.bytes.drop p.pos

def peek (p : Parser) : Option UInt8 := p.bytes[p.pos]?

def bump (p : Parser) : Option UInt8 × Parser :=
  match p.peek with
  | none => (none, p)
  | some b => (some b, p.adv 1)

def isWs (b : UInt8) : Bool := b == byteOf ' ' || b == byteOf '\t' || b == byteOf '\r' || b == byteOf '\n'

def skip_ws (p : Parser) : Parser := p.adv (p.rest.takeWhile isWs).length

def expect (p : Parser) (c : Char) : Except Fail Parser :=
  if p.peek = some (byteOf c) then .ok (p.adv 1) else .error (p.err ("expected '" ++ String.singleton c ++ "'"))

/-- `bytes[i]` -/
def index (p : Parser) (i : Nat) : Except Fail UInt8 :=
  match p.bytes[i]? with
  | some b => .ok b
  | none => .error .panic

/-- `&bytes[a..b]` -/
def slice (p : Parser) (a b : Nat) : Except Fail (List UInt8) :=
  if a ≤ b ∧ b ≤ p.bytes.length then .ok ((p.bytes.drop a).take (b - a)) else .error .panic

/-- `std::str::from_utf8`, with the parser's error. -/
def from_utf8 (p : Parser) (msg : String) (chunk : List UInt8) : Except Fail (List Char) :=
  match decode chunk with
  | some t => .ok t
  | none => .error (p.err msg)

end Parser

def utf8_len (first : UInt8) : Nat :=
  if 0xF0 ≤ first.toNat then 4
  else if 0xE0 ≤ first.toNat then 3
  else if 0xC0 ≤ first.toNat then 2
  else 1

/-- `b as char` -/
def asChar (b : UInt8) : Char := Char.ofNat b.toNat

/-! ## Scalars -/

def quotedLoop (quote : UInt8) : Nat → List Char → Parser → Except Fail (String × Parser)
  | 0, _, _ => .error .fuel
  | n + 1, out, p =>
    match p.bump with
    | (none, p) => .error (p.err "unterminated string")
    | (some b, p) =>
      if b = quote then .ok (String.ofList out, p)
      else if b = byteOf '\\' then
        match p.bump with
        | (none, p) => .error (p.err "unterminated escape")
        | (some c, p) =>
          if c = byteOf 'n' then quotedLoop quote n (out ++ ['\n']) p
          else if c = byteOf 'r' then quotedLoop quote n (out ++ ['\r']) p
          else if c = byteOf 't' then quotedLoop quote n (out ++ ['\t']) p
          else if c = byteOf '"' ∨ c = byteOf '\'' ∨ c = byteOf '\\' then
            quotedLoop quote n (out ++ [asChar c]) p
          else quotedLoop quote n (out ++ ['\\', asChar c]) p
      else if b.toNat < 0x80 then quotedLoop quote n (out ++ [asChar b]) p
      else do
        let start := p.pos - 1
        let stop := min (start + utf8_len b) p.bytes.length
        let chunk ← p.slice start stop
        let t ← p.from_utf8 "invalid UTF-8 in string" chunk
        quotedLoop quote n (out ++ t) { p with pos := stop }

def quoted_string (p : Parser) : Except Fail (String × Parser) :=
  match p.bump with
  | (none, _) => .error .panic
  | (some quote, p) => quotedLoop quote (p.bytes.length + 1) [] p

def isBareByte (b : UInt8) : Bool :=
  (48 ≤ b.toNat && b.toNat ≤ 57) || (65 ≤ b.toNat && b.toNat ≤ 90) || (97 ≤ b.toNat && b.toNat ≤ 122) ||
  b == byteOf '_' || b == byteOf '-' || b == byteOf '.' || b == byteOf '+'

def bare_token (p : Parser) : Except Fail (List Char × Parser) := do
  let q := p.adv (p.rest.takeWhile isBareByte).length
  if q.pos = p.pos then .error (q.err "expected a token")
  else
    let chunk ← q.slice p.pos q.pos
    let t ← q.from_utf8 "invalid UTF-8" chunk
    .ok (t, q)

def eq_ignore_ascii_case (s t : List Char) : Bool := s.map Char.toLower == t.map Char.toLower

def isNumericBody (body : List Char) : Bool :=
  !body.isEmpty &&
  body.all (fun b => b.isDigit || b == '-' || b == '+' || b == '.' || b == 'e' || b == 'E') &&
  body.any Char.isDigit

def parse_i8 (body : List Char) : Option Int8 := (Decimal.parse (-128) 127 body).map Int8.ofInt

def parse_i16 (body : List Char) : Option Int16 := (Decimal.parse (-32768) 32767 body).map Int16.ofInt

def parse_i32 (body : List Char) : Option Int32 :=
  (Decimal.parse (-2147483648) 2147483647 body).map Int32.ofInt

def parse_i64 (body : List Char) : Option Int64 :=
  (Decimal.parse (-9223372036854775808) 9223372036854775807 body).map Int64.ofInt

/-- The suffix letters, lowered. -/
def suffixOf (c : Char) : Option Char :=
  if ['b', 'B', 's', 'S', 'l', 'L', 'f', 'F', 'd', 'D'].contains c then some c.toLower else none

/-- The numeric reading of a token, if it has one. -/
def numericOf (F : Floats) (body : List Char) : Option Char → Option NbtValue
  | some 'b' => (parse_i8 body).map .byte
  | some 's' => (parse_i16 body).map .short
  | some 'l' => (parse_i64 body).map .long
  | some 'f' => (F.parse_f32 body).map .float
  | some 'd' => (F.parse_f64 body).map .double
  | none =>
    if body.any fun c => c == '.' || c == 'e' || c == 'E' then (F.parse_f64 body).map .double
    else
      match parse_i32 body with
      | some v => some (.int v)
      | none => (parse_i64 body).map .long
  | _ => none

/-- What a bare token denotes: a boolean, a number, or itself as a string. -/
def tokenValue (F : Floats) (token : List Char) : NbtValue :=
  if eq_ignore_ascii_case token "true".toList then .byte 1
  else if eq_ignore_ascii_case token "false".toList then .byte 0
  else
    let suffix := token.getLast?.bind suffixOf
    let body := if suffix.isSome then token.dropLast else token
    if isNumericBody body then (numericOf F body suffix).getD (.string (String.ofList token))
    else .string (String.ofList token)

def scalar (F : Floats) (p : Parser) : Except Fail (NbtValue × Parser) := do
  let (token, p) ← bare_token p
  .ok (tokenValue F token, p)

def NbtValue.as_i64 (F : Floats) : NbtValue → Option Int64
  | .byte v => some v.toInt64
  | .short v => some v.toInt64
  | .int v => some v.toInt64
  | .long v => some v
  | .float v => some (F.f32_as_i64 v)
  | .double v => some (F.f64_as_i64 v)
  | _ => none

/-! ## Containers -/

/-- The three vectors `typed_array` fills; the kind decides which one. -/
structure TypedAcc where
  bytes_ : List Int8
  ints : List Int32
  longs : List Int64

def TypedAcc.push (acc : TypedAcc) (kind : UInt8) (n : Int64) : Option TypedAcc :=
  if kind = byteOf 'B' then some { acc with bytes_ := acc.bytes_ ++ [n.toInt8] }
  else if kind = byteOf 'I' then some { acc with ints := acc.ints ++ [n.toInt32] }
  else if kind = byteOf 'L' then some { acc with longs := acc.longs ++ [n] }
  else none

def TypedAcc.value (acc : TypedAcc) (kind : UInt8) : NbtValue :=
  if kind = byteOf 'B' then .byteArray acc.bytes_
  else if kind = byteOf 'I' then .intArray acc.ints
  else .longArray acc.longs

def typedLoop (F : Floats) (kind : UInt8) : Nat → TypedAcc → Parser → Except Fail (TypedAcc × Parser)
  | 0, _, _ => .error .fuel
  | n + 1, acc, p => do
    let (v, p) ← scalar F p
    match v.as_i64 F with
    | none => .error (p.err "non-numeric element in typed array")
    | some i =>
      match acc.push kind i with
      | none => .error (p.err "unknown typed-array kind")
      | some acc =>
        match p.skip_ws.bump with
        | (some b, p) =>
          if b = byteOf ',' then typedLoop F kind n acc p.skip_ws
          else if b = byteOf ']' then .ok (acc, p)
          else .error (p.err "expected ',' or ']' in typed array")
        | (none, p) => .error (p.err "expected ',' or ']' in typed array")

def typed_array (F : Floats) (kind : UInt8) (p : Parser) : Except Fail (NbtValue × Parser) := do
  let p := p.skip_ws
  if p.peek = some (byteOf ']') then .ok ((TypedAcc.mk [] [] []).value kind, p.adv 1)
  else
    let (acc, p) ← typedLoop F kind (p.bytes.length + 1) ⟨[], [], []⟩ p
    .ok (acc.value kind, p)

section

variable (F : Floats) (value : Parser → Except Fail (NbtValue × Parser))

def listLoop : Nat → List NbtValue → Parser → Except Fail (List NbtValue × Parser)
  | 0, _, _ => .error .fuel
  | n + 1, items, p => do
    let (v, p) ← value p
    let items := items ++ [v]
    match p.skip_ws.bump with
    | (some b, p) =>
      if b = byteOf ',' then listLoop n items p
      else if b = byteOf ']' then .ok (items, p)
      else .error (p.err "expected ',' or ']' in list")
    | (none, p) => .error (p.err "expected ',' or ']' in list")

def list (p : Parser) : Except Fail (NbtValue × Parser) := do
  let p := p.skip_ws
  if p.peek = some (byteOf ']') then .ok (.list [], p.adv 1)
  else
    let (items, p) ← listLoop value (p.bytes.length + 1) [] p
    .ok (.list items, p)

def list_or_array (p : Parser) : Except Fail (NbtValue × Parser) := do
  let p ← p.expect '['
  if p.pos + 2 ≤ p.bytes.length then
    let semi ← p.index (p.pos + 1)
    if semi = byteOf ';' then
      let kind ← p.index p.pos
      typed_array F kind (p.adv 2)
    else list value p
  else list value p

def readKey (p : Parser) : Except Fail (String × Parser) :=
  if p.peek = some (byteOf '"') ∨ p.peek = some (byteOf '\'') then quoted_string p
  else do
    let (t, p) ← bare_token p
    .ok (String.ofList t, p)

def compoundLoop :
    Nat → List (String × NbtValue) → Parser → Except Fail (List (String × NbtValue) × Parser)
  | 0, _, _ => .error .fuel
  | n + 1, map, p => do
    let (key, p) ← readKey p.skip_ws
    let p ← p.skip_ws.expect ':'
    let (v, p) ← value p
    let map := insertEntry key v map
    match p.skip_ws.bump with
    | (some b, p) =>
      if b = byteOf ',' then compoundLoop n map p
      else if b = byteOf '}' then .ok (map, p)
      else .error (p.err "expected ',' or '\x7d' in compound")
    | (none, p) => .error (p.err "expected ',' or '\x7d' in compound")

def compound (p : Parser) : Except Fail (NbtValue × Parser) := do
  let p ← p.expect '{'
  let p := p.skip_ws
  if p.peek = some (byteOf '}') then .ok (.compound [], p.adv 1)
  else
    let (map, p) ← compoundLoop value (p.bytes.length + 1) [] p
    .ok (.compound map, p)

end

def value (F : Floats) : Nat → Parser → Except Fail (NbtValue × Parser)
  | 0, _ => .error .fuel
  | n + 1, p =>
    let p := p.skip_ws
    match p.peek with
    | none => .error (p.err "unexpected end of input")
    | some b =>
      if b = byteOf '{' then compound (value F n) p
      else if b = byteOf '[' then list_or_array F (value F n) p
      else if b = byteOf '"' ∨ b = byteOf '\'' then do
        let (s, p) ← quoted_string p
        .ok (.string s, p)
      else scalar F p

def parse_all (F : Floats) (text : String) : Except Fail NbtValue := do
  let bytes := encode text.toList
  let (v, p) ← value F (bytes.length + 1) (Parser.mk bytes 0).skip_ws
  let p := p.skip_ws
  if p.pos = p.bytes.length then .ok v
  else .error (.error ("snbt: trailing input at byte " ++ toString p.pos))

def NbtValue.parse (F : Floats) (text : String) : Except Fail NbtValue := parse_all F text

end Nbt
