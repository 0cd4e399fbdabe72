import Mathlib.Data.List.Basic
import Mathlib.Data.Option.Basic
import Mathlib.Tactic.IntervalCases

/-!
# Strict JSON

A reader for the JSON grammar as it is standardised: no control character
stands in a string, no comma before a closing bracket, nothing but white space
after the value. How a numeral becomes a number is a parameter, and so is the
number of containers that may be open at once. The members of an object are
kept in key order, the last of equal keys.
-/
namespace Json

inductive Value (α : Type) where
  | null
  | bool (b : Bool)
  | number (x : α)
  | string (s : String)
  | array (items : List (Value α))
  | object (members : List (String × Value α))

variable {α : Type}

namespace Value

def asArray : Value α → Option (List (Value α))
  | .array items => some items
  | _ => none

def asString : Value α → Option String
  | .string s => some s
  | _ => none

def get (key : String) : Value α → Option (Value α)
  | .object members => members.lookup key
  | _ => none

end Value

def insertMember (k : String) (v : Value α) : List (String × Value α) → List (String × Value α)
  | [] => [(k, v)]
  | (k', v') :: m =>
    if k < k' then (k, v) :: (k', v') :: m
    else if k = k' then (k, v) :: m
    else (k', v') :: insertMember k v m

/-! ## The reader -/

def isWs (c : Char) : Bool := c == ' ' || c == '\t' || c == '\n' || c == '\r'

def skipWs (s : List Char) : List Char := s.dropWhile isWs

def expect (c : Char) : List Char → Option (List Char)
  | [] => none
  | d :: s => if d = c then some s else none

def literal (word : List Char) (v : Value α) (s : List Char) : Option (Value α × List Char) :=
  if word.isPrefixOf s then some (v, s.drop word.length) else none

def hexDigit (c : Char) : Option Nat :=
  if '0' ≤ c ∧ c ≤ '9' then some (c.toNat - 48)
  else if 'a' ≤ c ∧ c ≤ 'f' then some (c.toNat - 87)
  else if 'A' ≤ c ∧ c ≤ 'F' then some (c.toNat - 55)
  else none

/-- Four hexadecimal digits. -/
def hex4 : List Char → Option (Nat × List Char)
  | a :: b :: c :: d :: s => do
    let a ← hexDigit a
    let b ← hexDigit b
    let c ← hexDigit c
    let d ← hexDigit d
    some (((a * 16 + b) * 16 + c) * 16 + d, s)
  | _ => none

/-- A code unit, with the second one of a surrogate pair. -/
def unicodeEscape (s : List Char) : Option (Char × List Char) := do
  let (high, s) ← hex4 s
  if 0xD800 ≤ high ∧ high < 0xDC00 then
    let s ← expect '\\' s
    let s ← expect 'u' s
    let (low, s) ← hex4 s
    if 0xDC00 ≤ low ∧ low < 0xE000 then
      some (Char.ofNat (0x10000 + (high - 0xD800) * 0x400 + (low - 0xDC00)), s)
    else none
  else if 0xDC00 ≤ high ∧ high < 0xE000 then none
  else some (Char.ofNat high, s)

def simpleEscape (c : Char) : Option Char :=
  match c with
  | '"' => some '"'
  | '\\' => some '\\'
  | '/' => some '/'
  | 'b' => some '\x08'
  | 'f' => some '\x0c'
  | 'n' => some '\n'
  | 'r' => some '\r'
  | 't' => some '\t'
  | _ => none

def escape : List Char → Option (Char × List Char)
  | [] => none
  | c :: s => if c = 'u' then unicodeEscape s else (simpleEscape c).map (·, s)

/-- The characters up to the closing quote. -/
def stringLoop : Nat → List Char → Option (List Char × List Char)
  | 0, _ => none
  | _ + 1, [] => none
  | n + 1, c :: s =>
    if c = '"' then some ([], s)
    else if c = '\\' then do
      let (x, s) ← escape s
      let (t, s) ← stringLoop n s
      some (x :: t, s)
    else if c.toNat < 0x20 then none
    else do
      let (t, s) ← stringLoop n s
      some (c :: t, s)

def string (s : List Char) : Option (String × List Char) :=
  (stringLoop (s.length + 1) s).map fun p => (String.ofList p.1, p.2)

def digits (s : List Char) : Option (List Char × List Char) :=
  if (s.takeWhile Char.isDigit).isEmpty then none else some (s.takeWhile Char.isDigit, s.dropWhile Char.isDigit)

/-- The sign that may stand there, one of `signs`. -/
def sign (signs s : List Char) : List Char × List Char :=
  match s with
  | [] => ([], [])
  | c :: s => if c ∈ signs then ([c], s) else ([], c :: s)

def fraction (s : List Char) : Option (List Char × List Char) :=
  match expect '.' s with
  | some s => (digits s).map fun p => ('.' :: p.1, p.2)
  | none => some ([], s)

def exponent (s : List Char) : Option (List Char × List Char) :=
  match (expect 'e' s).or (expect 'E' s) with
  | some s => (digits (sign ['+', '-'] s).2).map fun p => ('e' :: (sign ['+', '-'] s).1 ++ p.1, p.2)
  | none => some ([], s)

def numeral (s : List Char) : Option (List Char × List Char) := do
  let (minus, s) := sign ['-'] s
  let (int, s) ← digits s
  if 1 < int.length ∧ int.head? = some '0' then none
  else
    let (frac, s) ← fraction s
    let (exp, s) ← exponent s
    some (minus ++ int ++ frac ++ exp, s)

section

variable (value : List Char → Option (Value α × List Char))

def elements : Nat → List Char → Option (List (Value α) × List Char)
  | 0, _ => none
  | n + 1, s => do
    let (v, s) ← value s
    let s := skipWs s
    match expect ',' s with
    | some s =>
      let (vs, s) ← elements n s
      some (v :: vs, s)
    | none =>
      let s ← expect ']' s
      some ([v], s)

def array (s : List Char) : Option (Value α × List Char) :=
  match expect ']' (skipWs s) with
  | some s => some (.array [], s)
  | none => (elements value (s.length + 1) s).map fun p => (.array p.1, p.2)

def members : Nat → List (String × Value α) → List Char → Option (List (String × Value α) × List Char)
  | 0, _, _ => none
  | n + 1, map, s => do
    let s ← expect '"' (skipWs s)
    let (k, s) ← string s
    let s ← expect ':' (skipWs s)
    let (v, s) ← value s
    let s := skipWs s
    match expect ',' s with
    | some s => members n (insertMember k v map) s
    | none =>
      let s ← expect '}' s
      some (insertMember k v map, s)

def object (s : List Char) : Option (Value α × List Char) :=
  match expect '}' (skipWs s) with
  | some s => some (.object [], s)
  | none => (members value (s.length + 1) [] s).map fun p => (.object p.1, p.2)

end

variable (number : List Char → Option α)

/-- A value; the containers open around it and it are fewer than the depth. -/
def value : Nat → List Char → Option (Value α × List Char)
  | 0, _ => none
  | depth + 1, s =>
    match skipWs s with
    | [] => none
    | c :: s =>
      if c = '"' then (string s).map fun p => (.string p.1, p.2)
      else if c = '[' then if depth = 0 then none else array (value depth) s
      else if c = '{' then if depth = 0 then none else object (value depth) s
      else if c = 't' then literal "true".toList (.bool true) (c :: s)
      else if c = 'f' then literal "false".toList (.bool false) (c :: s)
      else if c = 'n' then literal "null".toList .null (c :: s)
      else do
        let (text, s) ← numeral (c :: s)
        let x ← number text
        some (.number x, s)

/-- The value of a whole text. -/
def read (depth : Nat) (text : String) : Option (Value α) := do
  let (v, s) ← value number depth text.toList
  if (skipWs s).isEmpty then some v else none

/-! ## Reading what a writer printed -/

section Strings

theorem stringLoop_escape {e c : Char} (h : simpleEscape e = some c) (n : Nat) (t : List Char) :
    stringLoop (n + 1) ('\\' :: e :: t) = (stringLoop n t).map fun p => (c :: p.1, p.2) := by
  have hu : e ≠ 'u' := by
    rintro rfl
    cases h
  rw [stringLoop, if_neg (by decide), if_pos rfl, escape, if_neg hu, h]
  simp only [Option.map_some, Option.bind_eq_bind, Option.bind_some]
  cases stringLoop n t <;> rfl

theorem stringLoop_unicode {s t : List Char} {c : Char} (h : unicodeEscape s = some (c, t)) (n : Nat) :
    stringLoop (n + 1) ('\\' :: 'u' :: s) = (stringLoop n t).map fun p => (c :: p.1, p.2) := by
  rw [stringLoop, if_neg (by decide), if_pos rfl, escape, if_pos rfl, h]
  simp only [Option.bind_eq_bind, Option.bind_some]
  cases stringLoop n t <;> rfl

theorem stringLoop_plain {c : Char} (hq : c ≠ '"') (hb : c ≠ '\\') (n : Nat) (t : List Char) :
    stringLoop (n + 1) (c :: t) = if c.toNat < 0x20 then none else (stringLoop n t).map fun p => (c :: p.1, p.2) := by
  rw [stringLoop, if_neg hq, if_neg hb]
  cases stringLoop n t <;> rfl

variable {esc : Char → List Char} {good : Char → Bool}

/-- A way to print characters between quotes, and the characters it prints so
that they are read back; any other breaks the string. -/
structure Escapes (esc : Char → List Char) (good : Char → Bool) : Prop where
  ne_nil : ∀ c, esc c ≠ []
  reads : ∀ c n t, stringLoop (n + 1) (esc c ++ t) =
    if good c then (stringLoop n t).map fun p => (c :: p.1, p.2) else none

theorem stringLoop_escaped (h : Escapes esc good) (s r : List Char) {n : Nat} (hn : s.length < n) :
    stringLoop n (s.flatMap esc ++ '"' :: r) = if s.all good then some (s, r) else none := by
  induction s generalizing n with
  | nil =>
    obtain ⟨n, rfl⟩ : ∃ m, n = m + 1 := ⟨n - 1, by simp at hn; omega⟩
    rfl
  | cons c s ih =>
    obtain ⟨n, rfl⟩ : ∃ m, n = m + 1 := ⟨n - 1, by omega⟩
    rw [List.flatMap_cons, List.append_assoc, h.reads, ih (by simp at hn; omega), List.all_cons]
    cases good c <;> cases s.all good <;> rfl

theorem length_le_escaped (h : Escapes esc good) (s : List Char) : s.length ≤ (s.flatMap esc).length := by
  induction s with
  | nil => simp
  | cons c s ih =>
    have := List.length_pos_of_ne_nil (h.ne_nil c)
    rw [List.flatMap_cons, List.length_append, List.length_cons]
    omega

theorem string_escaped (h : Escapes esc good) (s r : List Char) :
    string (s.flatMap esc ++ '"' :: r) = if s.all good then some (String.ofList s, r) else none := by
  rw [string, stringLoop_escaped h]
  · split <;> rfl
  · have := length_le_escaped h s
    rw [List.length_append, List.length_cons]
    omega

theorem value_string (number : List Char → Option α) (h : Escapes esc good) (depth : Nat) (s r : List Char) :
    value number (depth + 1) ('"' :: (s.flatMap esc ++ '"' :: r)) =
      if s.all good then some (.string (String.ofList s), r) else none := by
  have hws : skipWs ('"' :: (s.flatMap esc ++ '"' :: r)) = '"' :: (s.flatMap esc ++ '"' :: r) := rfl
  rw [value, hws]
  simp only [if_true, string_escaped h]
  split <;> rfl

end Strings

section Numerals

theorem toDigits_head {n : Nat} (hn : 0 < n) : (Nat.toDigits 10 n).head? ≠ some '0' := by
  induction n using Nat.strongRecOn with
  | ind n ih =>
    by_cases hlt : n < 10
    · rw [Nat.toDigits_of_lt_base hlt]
      interval_cases n <;> decide
    · have hrest : (Nat.toDigits 10 (n / 10)).head? ≠ some '0' := ih (n / 10) (by omega) (by omega)
      rw [Nat.toDigits_of_base_le (by decide) (Nat.le_of_not_lt hlt), List.head?_append]
      obtain ⟨c, t, hc⟩ := List.exists_cons_of_ne_nil (Nat.toDigits_ne_nil (n := n / 10) (b := 10))
      rw [hc] at hrest ⊢
      exact hrest

/-- A natural number is read to the end of its digits. -/
theorem numeral_toDigits (n : Nat) {c : Char} (hd : c.isDigit = false) (hc : c ∉ ['.', 'e', 'E']) (t : List Char) :
    numeral (Nat.toDigits 10 n ++ c :: t) = some (Nat.toDigits 10 n, c :: t) := by
  have hall : ∀ x ∈ Nat.toDigits 10 n, x.isDigit = true := fun x hx =>
    Nat.isDigit_of_mem_toDigits (by decide) (by decide) hx
  have hne : Nat.toDigits 10 n ≠ [] := Nat.toDigits_ne_nil
  have hzero : ¬(1 < (Nat.toDigits 10 n).length ∧ (Nat.toDigits 10 n).head? = some '0') := by
    rintro ⟨hlen, hhead⟩
    rcases Nat.eq_zero_or_pos n with rfl | hn
    · exact absurd hlen (by decide)
    · exact toDigits_head hn hhead
  have hsign : sign ['-'] (Nat.toDigits 10 n ++ c :: t) = ([], Nat.toDigits 10 n ++ c :: t) := by
    obtain ⟨x, l, hx⟩ := List.exists_cons_of_ne_nil hne
    have hdash : x ≠ '-' := by
      rintro rfl
      exact absurd (hall '-' (by rw [hx]; exact List.mem_cons_self)) (by decide)
    rw [hx, List.cons_append, sign, if_neg (by simpa using hdash)]
  have htake : (Nat.toDigits 10 n ++ c :: t).takeWhile Char.isDigit = Nat.toDigits 10 n := by
    rw [List.takeWhile_append_of_pos hall, List.takeWhile_cons_of_neg (by simp [hd]), List.append_nil]
  have hdrop : (Nat.toDigits 10 n ++ c :: t).dropWhile Char.isDigit = c :: t := by
    rw [List.dropWhile_append_of_pos hall, List.dropWhile_cons_of_neg (by simp [hd])]
  have hdigits : digits (Nat.toDigits 10 n ++ c :: t) = some (Nat.toDigits 10 n, c :: t) := by
    rw [digits, htake, hdrop, if_neg (by simp)]
  simp only [List.mem_cons, List.not_mem_nil, or_false, not_or] at hc
  obtain ⟨hdot, he, hE⟩ := hc
  have hfraction : fraction (c :: t) = some ([], c :: t) := by
    simp [fraction, expect, hdot]
  have hexponent : exponent (c :: t) = some ([], c :: t) := by
    simp [exponent, expect, he, hE]
  simp [numeral, hsign, hdigits, hzero, hfraction, hexponent]

/-- The value of a natural number that something follows. -/
theorem value_toDigits (number : List Char → Option α) (depth n : Nat) {c : Char} (hd : c.isDigit = false)
    (hc : c ∉ ['.', 'e', 'E']) (t : List Char) :
    value number (depth + 1) (Nat.toDigits 10 n ++ c :: t)
      = (number (Nat.toDigits 10 n)).map fun x => (.number x, c :: t) := by
  obtain ⟨x, l, hx⟩ := List.exists_cons_of_ne_nil (Nat.toDigits_ne_nil (n := n) (b := 10))
  have hdigit : x.isDigit = true :=
    Nat.isDigit_of_mem_toDigits (by decide) (by decide) (hx ▸ List.mem_cons_self)
  have hnumeral := numeral_toDigits n hd hc t
  have hother {y : Char} (hy : y.isDigit = false) : x ≠ y := by
    rintro rfl
    rw [hdigit] at hy
    cases hy
  have hws : isWs x = false := by
    simp [isWs, hother (y := ' ') rfl, hother (y := '\t') rfl, hother (y := '\n') rfl, hother (y := '\r') rfl]
  have hskip : skipWs (x :: (l ++ c :: t)) = x :: (l ++ c :: t) := List.dropWhile_cons_of_neg (by simp [hws])
  rw [hx, List.cons_append] at hnumeral ⊢
  rw [value, hskip]
  simp only [hother (y := '"') rfl, hother (y := '[') rfl, hother (y := '{') rfl, hother (y := 't') rfl,
    hother (y := 'f') rfl, hother (y := 'n') rfl, if_false, hnumeral, Option.bind_eq_bind, Option.bind_some]
  cases number (x :: l) <;> rfl

end Numerals

theorem value_array (number : List Char → Option α) (depth : Nat) (s : List Char) :
    value number (depth + 2) ('[' :: s) = array (value number (depth + 1)) s := by
  have hws : skipWs ('[' :: s) = '[' :: s := rfl
  rw [value, hws]
  rfl

theorem value_object (number : List Char → Option α) (depth : Nat) (s : List Char) :
    value number (depth + 2) ('{' :: s) = object (value number (depth + 1)) s := by
  have hws : skipWs ('{' :: s) = '{' :: s := rfl
  rw [value, hws]
  rfl

section Containers

variable {value : List Char → Option (Value α × List Char)} {ι : Type} {print : ι → List Char}
  {val : ι → Option (Value α)} {key : ι → String}

/-- Items with commas between them, some of which may not be readable. -/
theorem elements_items (u : ι) (l : List ι) (hl : ∀ w ∈ u :: l, ∀ t, value (print w ++ t) = (val w).map (·, t))
    {n : Nat} (hn : l.length < n) (r : List Char) :
    elements value n (print u ++ (l.flatMap fun w => ',' :: print w) ++ ']' :: r) =
      ((u :: l).mapM val).map (·, r) := by
  induction l generalizing u n with
  | nil =>
    obtain ⟨n, rfl⟩ : ∃ m, n = m + 1 := ⟨n - 1, by omega⟩
    rw [List.flatMap_nil, List.append_nil, elements, hl u (.head _)]
    cases hv : val u with
    | none => simp [hv]
    | some v =>
      have hws : skipWs (']' :: r) = ']' :: r := rfl
      simp [hv, hws, expect]
  | cons w l ih =>
    obtain ⟨n, rfl⟩ : ∃ m, n = m + 1 := ⟨n - 1, by omega⟩
    have hrec := ih w (fun x hx => hl x (.tail _ hx)) (n := n) (by simp at hn; omega)
    rw [List.append_assoc, List.flatMap_cons, elements, hl u (.head _), List.mapM_cons]
    cases hv : val u with
    | none => simp
    | some v =>
      have hws (t : List Char) : skipWs (',' :: t) = ',' :: t := rfl
      simp only [Option.map_some, Option.bind_eq_bind, Option.bind_some, List.cons_append, List.append_assoc, hws,
        expect, if_true]
      rw [← List.append_assoc, hrec]
      cases (w :: l).mapM val <;> rfl

theorem length_le_items (f : ι → List Char) (l : List ι) : l.length ≤ (l.flatMap fun w => ',' :: f w).length := by
  induction l with
  | nil => simp
  | cons w l ih =>
    rw [List.flatMap_cons, List.length_append, List.length_cons, List.length_cons]
    omega

/-- Items in brackets, the first of which starts like one. -/
theorem array_items (u : ι) (l : List ι) (hhead : ∃ c t, print u = c :: t ∧ isWs c = false ∧ c ≠ ']')
    (hl : ∀ w ∈ u :: l, ∀ t, value (print w ++ t) = (val w).map (·, t)) (r : List Char) :
    array value (print u ++ (l.flatMap fun w => ',' :: print w) ++ ']' :: r) =
      ((u :: l).mapM val).map fun vs => (.array vs, r) := by
  obtain ⟨c, t, hc, hws, hne⟩ := hhead
  have hopen : expect ']' (skipWs (print u ++ (l.flatMap fun w => ',' :: print w) ++ ']' :: r)) = none := by
    simp [hc, skipWs, hws, expect, hne]
  have hlen := length_le_items print l
  rw [array, hopen]
  simp only []
  rw [elements_items u l hl (by simp only [List.length_append]; omega), Option.map_map]
  rfl

/-- Members under plain keys with commas between them. A value need only be read where the object goes on
or ends after it. -/
theorem members_delimited (u : ι) (l : List ι) (map : List (String × Value α))
    (hkey : ∀ w ∈ u :: l, ∀ t, string ((key w).toList ++ '"' :: t) = some (key w, t))
    (hl : ∀ w ∈ u :: l, ∀ c t, c = ',' ∨ c = '}' → value (print w ++ c :: t) = (val w).map (·, c :: t)) {n : Nat}
    (hn : l.length < n) (r : List Char) :
    members value n map
        ('"' :: ((key u).toList ++ '"' :: ':' :: print u) ++
          (l.flatMap fun w => ',' :: '"' :: ((key w).toList ++ '"' :: ':' :: print w)) ++ '}' :: r) =
      ((u :: l).foldlM (fun map w => (val w).map fun v => insertMember (key w) v map) map).map (·, r) := by
  have hquote (t : List Char) : skipWs ('"' :: t) = '"' :: t := rfl
  have hcolon (t : List Char) : skipWs (':' :: t) = ':' :: t := rfl
  have hcomma (t : List Char) : skipWs (',' :: t) = ',' :: t := rfl
  have hclose : skipWs ('}' :: r) = '}' :: r := rfl
  induction l generalizing u n map with
  | nil =>
    obtain ⟨n, rfl⟩ : ∃ m, n = m + 1 := ⟨n - 1, by omega⟩
    simp only [List.flatMap_nil, List.append_nil, List.cons_append, List.append_assoc, members, hquote, expect, if_true,
      Option.bind_eq_bind, Option.bind_some, hkey u (.head _), hcolon, hl u (.head _) _ _ (.inr rfl), List.foldlM_cons,
      List.foldlM_nil]
    cases hv : val u with
    | none => rfl
    | some v => simp [hclose]
  | cons w l ih =>
    obtain ⟨n, rfl⟩ : ∃ m, n = m + 1 := ⟨n - 1, by omega⟩
    simp only [List.flatMap_cons, List.cons_append, List.append_assoc, members, hquote, expect, if_true,
      Option.bind_eq_bind, Option.bind_some, hkey u (.head _), hcolon, hl u (.head _) _ _ (.inl rfl)]
    cases hv : val u with
    | none => simp [hv]
    | some v =>
      have hrec := ih w (insertMember (key u) v map) (fun x hx => hkey x (.tail _ hx)) (fun x hx => hl x (.tail _ hx))
        (n := n) (by simp at hn; omega)
      simp only [Option.map_some, Option.bind_some, hcomma, if_true, List.foldlM_cons, hv, Option.bind_eq_bind]
      simpa using hrec

/-- Members in braces, which a value may need to end. -/
theorem object_delimited (u : ι) (l : List ι)
    (hkey : ∀ w ∈ u :: l, ∀ t, string ((key w).toList ++ '"' :: t) = some (key w, t))
    (hl : ∀ w ∈ u :: l, ∀ c t, c = ',' ∨ c = '}' → value (print w ++ c :: t) = (val w).map (·, c :: t))
    (r : List Char) :
    object value
        ('"' :: ((key u).toList ++ '"' :: ':' :: print u) ++
          (l.flatMap fun w => ',' :: '"' :: ((key w).toList ++ '"' :: ':' :: print w)) ++ '}' :: r) =
      ((u :: l).foldlM (fun map w => (val w).map fun v => insertMember (key w) v map) []).map
        fun m => (.object m, r) := by
  have hopen (t : List Char) : expect '}' (skipWs ('"' :: t)) = none := rfl
  have hlen := length_le_items (fun w => '"' :: ((key w).toList ++ '"' :: ':' :: print w)) l
  rw [object]
  simp only [List.cons_append, hopen]
  rw [← List.cons_append, ← List.cons_append,
    members_delimited u l [] hkey hl (by simp only [List.length_append, List.length_cons]; omega), Option.map_map]
  rfl

/-- Members in braces. -/
theorem object_fields (u : ι) (l : List ι)
    (hkey : ∀ w ∈ u :: l, ∀ t, string ((key w).toList ++ '"' :: t) = some (key w, t))
    (hl : ∀ w ∈ u :: l, ∀ t, value (print w ++ t) = (val w).map (·, t)) (r : List Char) :
    object value
        ('"' :: ((key u).toList ++ '"' :: ':' :: print u) ++
          (l.flatMap fun w => ',' :: '"' :: ((key w).toList ++ '"' :: ':' :: print w)) ++ '}' :: r) =
      ((u :: l).foldlM (fun map w => (val w).map fun v => insertMember (key w) v map) []).map
        fun m => (.object m, r) :=
  object_delimited u l hkey (fun w hw c t _ => hl w hw (c :: t)) r

end Containers

end Json
