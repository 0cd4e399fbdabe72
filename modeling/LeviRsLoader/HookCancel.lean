import LeviRsLoader.Lib.Infix
import LeviRsLoader.Nbt.RoundTrip

/-!
# Cancelling a bridge-hook event

`dispatchHookEventCancellable` of `HookEvents.cpp` with the Rust side it talks
to: `EventRef` and `event_trampoline` of `event/mod.rs`, `r` of `rt/ffi.rs`.
The reply is searched as text, so the question is which replies hold one of the
searched texts and which of them mean a cancelled event.
-/
namespace HookCancel

open Nbt Utf8

/-! ## The Rust side -/

/-- The text the bytes hold, cut at the first one that is not UTF-8. -/
def r (raw : List UInt8) : String :=
  String.ofList (((List.range (raw.length + 1)).reverse.findSome? fun n => decode (raw.take n)).getD [])

def get (key : String) : NbtValue → Option NbtValue
  | .compound map => map.lookup key
  | _ => none

/-- The value with the entry, `none` if it is no compound. -/
def insert (key : String) (value : NbtValue) : NbtValue → Option NbtValue
  | .compound map => some (.compound (insertEntry key value map))
  | _ => none

def as_bool (F : Floats) (v : NbtValue) : Option Bool := (v.as_i64 F).map fun i => i ≠ 0

/-- `str::contains`, and `std::string::find` of one text in another. -/
def contains (text pat : String) : Bool := decide (pat.toList <:+: text.toList)

/-- `str::replace`, with the number of characters of a replaced match still to skip. -/
def replaceLoop (pat new : List Char) : Nat → List Char → List Char
  | _, [] => []
  | skip + 1, _ :: t => replaceLoop pat new skip t
  | 0, c :: t =>
    if pat.isPrefixOf (c :: t) then new ++ replaceLoop pat new (pat.length - 1) t
    else c :: replaceLoop pat new 0 t

def replace (text pat new : String) : String := String.ofList (replaceLoop pat.toList new.toList 0 text.toList)

structure EventRef where
  snbt : String
  replacement : Option String
  deriving DecidableEq

namespace EventRef

def current (ev : EventRef) : String := ev.replacement.getD ev.snbt

def value (F : Floats) (ev : EventRef) : Except Fail NbtValue := NbtValue.parse F ev.current

def set_snbt (snbt : String) (ev : EventRef) : EventRef := { ev with replacement := some snbt }

def set_value (F : Floats) (value : NbtValue) (ev : EventRef) : EventRef :=
  { ev with replacement := some (value.to_snbt F) }

/-- The part of `cancel` for a text that is no compound. -/
def cancelText (ev : EventRef) : EventRef :=
  if contains ev.current "cancelled:0b" then
    { ev with replacement := some (replace ev.current "cancelled:0b" "cancelled:1b") }
  else ev

def cancel (F : Floats) (ev : EventRef) : EventRef :=
  match ev.value F with
  | .error _ => ev.cancelText
  | .ok v => match insert "cancelled" (.byte 1) v with
    | some v => { ev with replacement := some (v.to_snbt F) }
    | none => ev.cancelText

end EventRef

/-- An edit a handler makes through its `EventRef`. -/
inductive Edit where
  | set_snbt (snbt : String)
  | set_value (value : NbtValue)
  | cancel

def EventRef.edit (F : Floats) (ev : EventRef) : Edit → EventRef
  | .set_snbt snbt => ev.set_snbt snbt
  | .set_value value => ev.set_value F value
  | .cancel => ev.cancel F

/-- A run of a handler on an event: the edits it makes in turn and whether it panics. -/
structure Handled where
  edits : List Edit
  panicked : Bool

abbrev Handler := String → Handled

/-- What is written back, if anything. -/
def event_trampoline (F : Floats) (handler : Handler) (snbt : List UInt8) : Option String :=
  let handled := handler (r snbt)
  if handled.panicked then none
  else (handled.edits.foldl (EventRef.edit F) ⟨r snbt, none⟩).replacement

/-! ## The C++ side -/

def searched (reply : String) : Bool :=
  contains reply "cancelled:1b" || contains reply "\"cancelled\":1" || contains reply "cancelled:1 "

def dispatchHookEventCancellable (F : Floats) (subs : List Handler) (snbt : List UInt8) : Bool :=
  subs.foldl (fun cancelled sub =>
    let reply := (event_trampoline F sub snbt).getD ""
    if searched reply then true else cancelled) false

theorem foldl_flag {α : Type} (p : α → Bool) (l : List α) (flag : Bool) :
    l.foldl (fun flag a => if p a then true else flag) flag = (flag || l.any p) := by
  induction l generalizing flag with
  | nil => simp
  | cons a l ih =>
    rw [List.foldl_cons, ih, List.any_cons]
    cases p a <;> simp

theorem dispatch_iff (F : Floats) (subs : List Handler) (snbt : List UInt8) :
    dispatchHookEventCancellable F subs snbt = true ↔
      ∃ sub ∈ subs, ∃ reply, event_trampoline F sub snbt = some reply ∧ searched reply = true := by
  have hreply (sub : Handler) : searched ((event_trampoline F sub snbt).getD "") = true ↔
      ∃ reply, event_trampoline F sub snbt = some reply ∧ searched reply = true := by
    cases event_trampoline F sub snbt with
    | none => simp [show searched "" = false by decide]
    | some reply => simp
  rw [dispatchHookEventCancellable, foldl_flag, Bool.false_or, List.any_eq_true]
  simp only [hreply]

/-! ## What a handler means -/

/-- What a handler last wrote: a text of its own, or a value. -/
inductive Written where
  | text (snbt : String)
  | value (v : NbtValue)

def Written.snbt (F : Floats) : Written → String
  | .text snbt => snbt
  | .value v => v.to_snbt F

/-- The write-back after an edit of the event `snbt`. Cancelling a compound sets
its flag; any other text only has its `cancelled:0b` replaced, if it holds one. -/
def rewrite (F : Floats) (snbt : String) (w : Option Written) : Edit → Option Written
  | .set_snbt text => some (.text text)
  | .set_value v => some (.value v)
  | .cancel =>
    let current := (w.map (Written.snbt F)).getD snbt
    match NbtValue.parse F current with
    | .ok (.compound map) => some (.value (.compound (insertEntry "cancelled" (.byte 1) map)))
    | _ =>
      if contains current "cancelled:0b" then some (.text (replace current "cancelled:0b" "cancelled:1b")) else w

def written (F : Floats) (snbt : String) (handled : Handled) : Option Written :=
  if handled.panicked then none else handled.edits.foldl (rewrite F snbt) none

theorem edit_rewrite (F : Floats) (snbt : String) (w : Option Written) (e : Edit) :
    EventRef.edit F ⟨snbt, w.map (Written.snbt F)⟩ e = ⟨snbt, (rewrite F snbt w e).map (Written.snbt F)⟩ := by
  cases e with
  | set_snbt text => rfl
  | set_value v => rfl
  | cancel =>
    have htext (hw : rewrite F snbt w .cancel = if contains ((w.map (Written.snbt F)).getD snbt) "cancelled:0b"
        then some (.text (replace ((w.map (Written.snbt F)).getD snbt) "cancelled:0b" "cancelled:1b")) else w) :
        EventRef.cancelText ⟨snbt, w.map (Written.snbt F)⟩
          = ⟨snbt, (rewrite F snbt w .cancel).map (Written.snbt F)⟩ := by
      rw [hw, EventRef.cancelText, EventRef.current]
      split <;> rfl
    rw [EventRef.edit, EventRef.cancel, EventRef.value, EventRef.current]
    cases hp : NbtValue.parse F ((w.map (Written.snbt F)).getD snbt) with
    | error e => exact htext (by simp only [rewrite, hp])
    | ok v =>
      cases v with
      | compound map => simp only [rewrite, hp, insert, Option.map_some, Written.snbt]
      | _ => exact htext (by simp only [rewrite, hp])

/-- The bytes a handler writes back print what it last wrote. -/
theorem trampoline_written (F : Floats) (sub : Handler) (snbt : List UInt8) :
    event_trampoline F sub snbt = (written F (r snbt) (sub (r snbt))).map (Written.snbt F) := by
  have hfold (edits : List Edit) (w : Option Written) :
      edits.foldl (EventRef.edit F) ⟨r snbt, w.map (Written.snbt F)⟩
        = ⟨r snbt, (edits.foldl (rewrite F (r snbt)) w).map (Written.snbt F)⟩ := by
    induction edits generalizing w with
    | nil => rfl
    | cons e edits ih => rw [List.foldl_cons, edit_rewrite, ih, List.foldl_cons]
  rw [event_trampoline, written]
  split
  · rfl
  · exact congrArg EventRef.replacement (hfold _ none)

/-! ## Where a printed value holds a searched text -/

section

variable (F : Floats) (left right : List Char)

mutual

/-- `left`, a colon and `right` are in a string or a key of the value, or the
colon is that of an entry, at any depth. -/
def marks : NbtValue → Bool
  | .string s => decide ((left ++ ':' :: right) <:+: write_quoted s)
  | .list items => marksItems items
  | .compound map => marksEntries map
  | .float v => decide ((left ++ ':' :: right) <:+: NbtValue.write F (.float v))
  | .double v => decide ((left ++ ':' :: right) <:+: NbtValue.write F (.double v))
  | .byte _ | .short _ | .int _ | .long _ | .byteArray _ | .intArray _ | .longArray _ => false

def marksItems : List NbtValue → Bool
  | [] => false
  | v :: items => marks v || marksItems items

def marksEntries : List (String × NbtValue) → Bool
  | [] => false
  | (k, v) :: map =>
    decide ((left ++ ':' :: right) <:+: writeKey k) || decide (left <:+ writeKey k ∧ right <+: NbtValue.write F v)
      || marks v || marksEntries map

end

end

theorem mem_writeSep {α : Type} {f : α → List Char} {c : Char} {l : List α} {first : Bool}
    (h : c ∈ writeSep f first l) : c = ',' ∨ ∃ a ∈ l, c ∈ f a := by
  induction l generalizing first with
  | nil => cases h
  | cons a l ih =>
    simp only [writeSep, List.mem_append] at h
    rcases h with (h | h) | h
    · cases first with
      | true => cases h
      | false => exact .inl (List.mem_singleton.mp h)
    · exact .inr ⟨a, .head l, h⟩
    · rcases ih h with rfl | ⟨b, hb, hc⟩
      · exact .inl rfl
      · exact .inr ⟨b, .tail a hb, hc⟩

theorem numeral_bare (v : Int) (suffix : List Char) (h : suffix.all isBareChar = true) :
    (Decimal.print v ++ suffix).all isBareChar = true := by
  rw [List.all_append, print_bare, h]
  rfl

theorem not_infix_numeral {left right s : List Char} (hs : s.all isBareChar = true) :
    ¬(left ++ ':' :: right) <:+: s := by
  refine Infix.not_infix_of_not_mem (c := ':') (by simp) fun hc => ?_
  exact absurd (List.all_eq_true.mp hs ':' hc) (by decide)

theorem not_infix_typed {α : Type} {left right : List Char} {f : α → List Char}
    (hf : ∀ a, (f a).all isBareChar = true) {kind : Char} (hkind : kind ≠ ':') (l : List α) :
    ¬(left ++ ':' :: right) <:+: (['[', kind, ';'] ++ writeSep f true l ++ [']']) := by
  refine Infix.not_infix_of_not_mem (c := ':') (by simp) fun hc => ?_
  have hsep : ':' ∈ writeSep f true l := by simpa [hkind.symm] using hc
  rcases mem_writeSep hsep with hc | ⟨a, -, ha⟩
  · exact absurd hc (by decide)
  · exact absurd (List.all_eq_true.mp (hf a) ':' ha) (by decide)

/-- No separator of the writer is in either half. -/
def Separable (left right : List Char) : Prop := ∀ c ∈ [',', ':', '[', ']', '{', '}'], c ∉ left ∧ c ∉ right

instance (left right : List Char) : Decidable (Separable left right) :=
  List.decidableBAll _ [',', ':', '[', ']', '{', '}']

section

variable {F : Floats} {left right : List Char} (hsep : Separable left right)

include hsep

theorem Separable.notMem {c : Char} (hc : c ∈ [',', '[', ']', '{', '}']) : c ∉ left ++ ':' :: right := by
  have hcolon : c ≠ ':' := by
    rintro rfl
    exact absurd hc (by decide)
  have hsub : [',', '[', ']', '{', '}'].Sublist [',', ':', '[', ']', '{', '}'] := by decide
  have hmem : c ∈ [',', ':', '[', ']', '{', '}'] := hsub.subset hc
  simp [hsep c hmem, hcolon]

theorem infix_writeSep {α : Type} (f : α → List Char) (l : List α) (first : Bool) :
    (left ++ ':' :: right) <:+: writeSep f first l ↔ ∃ a ∈ l, (left ++ ':' :: right) <:+: f a := by
  have hne : left ++ ':' :: right ≠ [] := by simp
  have hcomma := hsep.notMem (c := ',') (by decide)
  induction l generalizing first with
  | nil => simp [writeSep]
  | cons a l ih =>
    have htrue : (left ++ ':' :: right) <:+: writeSep f true (a :: l) ↔
        ∃ b ∈ a :: l, (left ++ ':' :: right) <:+: f b := by
      rw [writeSep_true_cons]
      cases l with
      | nil => simp [writeSep]
      | cons b l =>
        rw [writeSep_false_cons, Infix.infix_separated hne hcomma]
        exact (or_congr_right (ih true)).trans (by simp)
    cases first with
    | true => exact htrue
    | false => rw [writeSep_false_cons, Infix.infix_cons_separated hne hcomma, htrue]

omit hsep in
theorem marksItems_iff (items : List NbtValue) :
    marksItems F left right items = true ↔ ∃ v ∈ items, marks F left right v = true := by
  induction items with
  | nil => simp [marksItems]
  | cons v items ih => simp [marksItems, ih]

omit hsep in
theorem marksEntries_iff (map : List (String × NbtValue)) :
    marksEntries F left right map = true ↔ ∃ e ∈ map, (left ++ ':' :: right) <:+: writeKey e.1 ∨
      (left <:+ writeKey e.1 ∧ right <+: e.2.write F) ∨ marks F left right e.2 = true := by
  induction map with
  | nil => simp [marksEntries]
  | cons e map ih => simp [marksEntries, ih, or_assoc]

/-- A printed value holds the searched text exactly where `marks` says. -/
theorem infix_write (v : NbtValue) :
    (left ++ ':' :: right) <:+: v.write F ↔ marks F left right v = true := by
  have hne : left ++ ':' :: right ≠ [] := by simp
  have hcut {c : Char} (hc : c ∈ [',', '[', ']', '{', '}']) := hsep.notMem hc
  have hcolon := hsep ':' (by decide)
  induction v using NbtValue.induct with
  | byte v => exact iff_of_false (not_infix_numeral (numeral_bare v.toInt ['b'] rfl)) Bool.false_ne_true
  | short v => exact iff_of_false (not_infix_numeral (numeral_bare v.toInt ['s'] rfl)) Bool.false_ne_true
  | int v => exact iff_of_false (not_infix_numeral (print_bare v.toInt)) Bool.false_ne_true
  | long v => exact iff_of_false (not_infix_numeral (numeral_bare v.toInt ['L'] rfl)) Bool.false_ne_true
  | float v => simp only [marks, decide_eq_true_eq]
  | double v => simp only [marks, decide_eq_true_eq]
  | string v => simp only [marks, NbtValue.write, decide_eq_true_eq]
  | list items ih =>
    rw [NbtValue.write, writeItems_eq, Infix.infix_cons_separated hne (hcut (by decide)),
      Infix.infix_concat_separated hne (hcut (by decide)), infix_writeSep hsep, marks, marksItems_iff]
    exact exists_congr fun v => and_congr_right (ih v)
  | compound map ih =>
    rw [NbtValue.write, writeEntries_eq, Infix.infix_cons_separated hne (hcut (by decide)),
      Infix.infix_concat_separated hne (hcut (by decide)), infix_writeSep hsep, marks, marksEntries_iff]
    refine exists_congr fun e => and_congr_right fun he => ?_
    have hvalue : (left ++ ':' :: right) <:+: e.2.write F ↔ marks F left right e.2 = true := ih e he
    rw [Infix.infix_across hcolon.1 hcolon.2, hvalue]
    exact or_congr_right or_comm
  | byteArray items =>
    have hf (v : Int8) := numeral_bare v.toInt ['b'] rfl
    rw [NbtValue.write, marks]
    exact iff_of_false (not_infix_typed hf (by decide) items) Bool.false_ne_true
  | intArray items =>
    have hf (v : Int32) := print_bare v.toInt
    rw [NbtValue.write, marks]
    exact iff_of_false (not_infix_typed hf (by decide) items) Bool.false_ne_true
  | longArray items =>
    have hf (v : Int64) := numeral_bare v.toInt ['L'] rfl
    rw [NbtValue.write, marks]
    exact iff_of_false (not_infix_typed hf (by decide) items) Bool.false_ne_true

end

/-! ## When the search and the flag agree -/

section

variable (F : Floats)

/-- The value holds one of the three searched texts. -/
def marked (v : NbtValue) : Bool :=
  marks F "cancelled".toList "1b".toList v || marks F "\"cancelled\"".toList "1".toList v
    || marks F "cancelled".toList "1 ".toList v

/-- A compound whose entry `cancelled` reads as true. -/
def flagged (v : NbtValue) : Bool := (get "cancelled" v).bind (as_bool F) == some true

def Written.marked : Written → Bool
  | .text snbt => searched snbt
  | .value v => HookCancel.marked F v

def Written.flagged : Written → Bool
  | .text snbt => match NbtValue.parse F snbt with
    | .ok v => HookCancel.flagged F v
    | .error _ => false
  | .value v => HookCancel.flagged F v

variable {F}

theorem searched_to_snbt (v : NbtValue) : searched (v.to_snbt F) = marked F v := by
  have h (pat : String) (left right : List Char) (hpat : pat.toList = left ++ ':' :: right)
      (hsep : Separable left right) : contains (v.to_snbt F) pat = marks F left right v := by
    rw [Bool.eq_iff_iff, ← infix_write hsep, contains, decide_eq_true_iff, hpat, NbtValue.to_snbt,
      String.toList_ofList]
  have hbyte := h "cancelled:1b" "cancelled".toList "1b".toList (by decide) (by decide)
  have hquoted := h "\"cancelled\":1" "\"cancelled\"".toList "1".toList (by decide) (by decide)
  have hblank := h "cancelled:1 " "cancelled".toList "1 ".toList (by decide) (by decide)
  rw [searched, marked, hbyte, hquoted, hblank]

theorem searched_snbt (w : Written) : searched (w.snbt F) = w.marked F := by
  cases w with
  | text snbt => rfl
  | value v => exact searched_to_snbt v

/-- A flag that is the byte 1 is found. -/
theorem marked_of_byte {map : List (String × NbtValue)} (h : map.lookup "cancelled" = some (.byte 1)) :
    marked F (.compound map) = true := by
  have hkey : "cancelled".toList <:+ writeKey "cancelled" := by decide
  have hval : "1b".toList <+: NbtValue.write F (.byte 1) := by
    rw [NbtValue.write]
    decide
  have hmarks : marks F "cancelled".toList "1b".toList (.compound map) = true := by
    rw [marks, marksEntries_iff]
    obtain ⟨before, after, rfl, -⟩ := List.lookup_eq_some_iff.mp h
    exact ⟨("cancelled", .byte 1), by simp, .inr (.inl ⟨hkey, hval⟩)⟩
  rw [marked, hmarks]
  rfl

theorem lookup_insertEntry (k : String) (v : NbtValue) (map : List (String × NbtValue)) :
    (insertEntry k v map).lookup k = some v := by
  induction map with
  | nil => simp [insertEntry]
  | cons e map ih =>
    obtain ⟨k', v'⟩ := e
    rw [insertEntry]
    by_cases hlt : k < k'
    · simp [hlt]
    · by_cases heq : k = k'
      · simp [heq]
      · have hbeq : (k == k') = false := by simpa using heq
        simp only [hlt, heq, if_false, List.lookup_cons, hbeq, ih]

/-- Cancelling a compound writes a flag that is both true and found. -/
theorem cancelled_compound (map : List (String × NbtValue)) :
    marked F (.compound (insertEntry "cancelled" (.byte 1) map)) = true ∧
      flagged F (.compound (insertEntry "cancelled" (.byte 1) map)) = true := by
  have hflag := lookup_insertEntry "cancelled" (.byte 1) map
  refine ⟨marked_of_byte hflag, ?_⟩
  rw [flagged, get, hflag]
  rfl

end

/-- Every other text `cancel` replaced holds the searched one. -/
theorem contains_replaceLoop {pat new : List Char} (hpat : pat ≠ []) (text : List Char) (h : pat <:+: text) :
    new <:+: replaceLoop pat new 0 text := by
  induction text with
  | nil => exact absurd (List.infix_nil.mp h) hpat
  | cons c text ih =>
    rw [replaceLoop]
    by_cases hp : pat.isPrefixOf (c :: text) = true
    · rw [if_pos hp]
      exact (List.prefix_append _ _).isInfix
    · rw [if_neg hp]
      rcases List.infix_cons_iff.mp h with hprefix | hrest
      · exact absurd (List.isPrefixOf_iff_prefix.mpr hprefix) hp
      · exact (ih hrest).trans (List.suffix_cons _ _).isInfix

theorem contains_replace {text pat new : String} (hpat : pat.toList ≠ []) (h : contains text pat = true) :
    contains (replace text pat new) new = true := by
  rw [contains, decide_eq_true_iff, replace, String.toList_ofList]
  exact contains_replaceLoop hpat _ (of_decide_eq_true h)

section

variable (F : Floats) (payload : List UInt8)

/-- The last write-back of a subscriber, as far as it returns. -/
def lastWrite (sub : Handler) : Option Written := written F (r payload) (sub (r payload))

/-- It means a cancelled event and holds a searched text. -/
def Tells (sub : Handler) : Prop :=
  ∃ w, lastWrite F payload sub = some w ∧ w.marked F = true ∧ w.flagged F = true

/-- It holds a searched text and does not mean a cancelled event. -/
def Strays (sub : Handler) : Prop :=
  ∃ w, lastWrite F payload sub = some w ∧ w.marked F = true ∧ ¬w.flagged F = true

/-- It means a cancelled event and holds no searched text. -/
def Hides (sub : Handler) : Prop :=
  ∃ w, lastWrite F payload sub = some w ∧ ¬w.marked F = true ∧ w.flagged F = true

/-- The subscriber returns and its last edit is `cancel`. -/
def EndsInCancel (sub : Handler) : Prop :=
  (sub (r payload)).panicked = false ∧ ∃ edits, (sub (r payload)).edits = edits ++ [.cancel]

/-- Its last edit is `cancel`, which had nothing to set or to replace. -/
def Fails (sub : Handler) : Prop :=
  EndsInCancel payload sub ∧ ∀ w, lastWrite F payload sub = some w → ¬w.marked F = true

variable {F payload}

/-- Cancelling a text that is a compound tells. -/
theorem tells_of_cancel {sub : Handler} {edits : List Edit} {map : List (String × NbtValue)}
    (hreturns : (sub (r payload)).panicked = false) (hedits : (sub (r payload)).edits = edits ++ [.cancel])
    (hmap : NbtValue.parse F (((edits.foldl (rewrite F (r payload)) none).map (Written.snbt F)).getD (r payload))
      = .ok (.compound map)) : Tells F payload sub := by
  have hwrite : lastWrite F payload sub = some (.value (.compound (insertEntry "cancelled" (.byte 1) map))) := by
    rw [lastWrite, written, hreturns, hedits, List.foldl_append]
    simp only [Bool.false_eq_true, if_false, List.foldl_cons, List.foldl_nil, rewrite, hmap]
  exact ⟨_, hwrite, cancelled_compound map⟩

/-- Cancelling any other text is found only through its `cancelled:0b`. -/
theorem marked_of_cancelText {snbt : String} {w : Option Written}
    (hparse : ∀ map, NbtValue.parse F ((w.map (Written.snbt F)).getD snbt) ≠ .ok (.compound map))
    (hflag : contains ((w.map (Written.snbt F)).getD snbt) "cancelled:0b" = true) :
    ∃ w', rewrite F snbt w .cancel = some w' ∧ w'.marked F = true := by
  have hwrite : rewrite F snbt w .cancel =
      some (.text (replace ((w.map (Written.snbt F)).getD snbt) "cancelled:0b" "cancelled:1b")) := by
    rw [rewrite]
    split
    · next map hmap => exact absurd hmap (hparse map)
    · rw [if_pos hflag]
  refine ⟨_, hwrite, ?_⟩
  rw [Written.marked, searched, contains_replace (by decide) hflag]
  rfl

variable (F payload)

/-- The law: the event is cancelled exactly when some write-back is a compound
whose `cancelled` is true, and whenever a subscriber ends in `cancel`. -/
structure Faithful (subs : List Handler) : Prop where
  flagged : dispatchHookEventCancellable F subs payload = true ↔
    ∃ sub ∈ subs, ∃ w, lastWrite F payload sub = some w ∧ w.flagged F = true
  cancel : (∃ sub ∈ subs, EndsInCancel payload sub) → dispatchHookEventCancellable F subs payload = true

variable {F payload}

theorem dispatch_marked (subs : List Handler) :
    dispatchHookEventCancellable F subs payload = true ↔
      ∃ sub ∈ subs, ∃ w, lastWrite F payload sub = some w ∧ w.marked F = true := by
  rw [dispatch_iff]
  refine exists_congr fun sub => and_congr_right fun _ => ?_
  rw [trampoline_written]
  constructor
  · rintro ⟨reply, hreply, hs⟩
    obtain ⟨w, hw, rfl⟩ := Option.map_eq_some_iff.mp hreply
    exact ⟨w, hw, by rwa [← searched_snbt]⟩
  · rintro ⟨w, hw, hm⟩
    exact ⟨w.snbt F, by rw [← lastWrite, hw, Option.map_some], by rwa [searched_snbt]⟩

theorem Tells.of_marked {sub : Handler} {w : Written} (hw : lastWrite F payload sub = some w)
    (hm : w.marked F = true) : Tells F payload sub ∨ Strays F payload sub := by
  by_cases hf : w.flagged F = true
  · exact .inl ⟨w, hw, hm, hf⟩
  · exact .inr ⟨w, hw, hm, hf⟩

theorem Tells.of_flagged {sub : Handler} {w : Written} (hw : lastWrite F payload sub = some w)
    (hf : w.flagged F = true) : Tells F payload sub ∨ Hides F payload sub := by
  by_cases hm : w.marked F = true
  · exact .inl ⟨w, hw, hm, hf⟩
  · exact .inr ⟨w, hw, hm, hf⟩

/-- Some write-back is found and some means a cancelled event. -/
theorem Faithful.of_both {subs : List Handler}
    (hm : ∃ sub ∈ subs, ∃ w, lastWrite F payload sub = some w ∧ w.marked F = true)
    (hf : ∃ sub ∈ subs, ∃ w, lastWrite F payload sub = some w ∧ w.flagged F = true) : Faithful F payload subs where
  flagged := iff_of_true ((dispatch_marked subs).mpr hm) hf
  cancel _ := (dispatch_marked subs).mpr hm

/-- The law holds exactly if some subscriber tells, or a stray text and a hidden
flag make up for each other, or there is neither and no `cancel` fails. -/
theorem faithful_iff (F : Floats) (payload : List UInt8) (subs : List Handler) :
    Faithful F payload subs ↔
      (∃ sub ∈ subs, Tells F payload sub) ∨
      ((∃ sub ∈ subs, Strays F payload sub) ∧ ∃ sub ∈ subs, Hides F payload sub) ∨
      ∀ sub ∈ subs, ¬Strays F payload sub ∧ ¬Hides F payload sub ∧ ¬Fails F payload sub := by
  constructor
  · intro h
    by_cases hd : dispatchHookEventCancellable F subs payload = true
    · obtain ⟨sub, hsub, w, hw, hm⟩ := (dispatch_marked subs).mp hd
      obtain ⟨sub', hsub', w', hw', hf⟩ := h.flagged.mp hd
      rcases Tells.of_marked hw hm with ht | hs
      · exact .inl ⟨sub, hsub, ht⟩
      · rcases Tells.of_flagged hw' hf with ht | hh
        · exact .inl ⟨sub', hsub', ht⟩
        · exact .inr (.inl ⟨⟨sub, hsub, hs⟩, ⟨sub', hsub', hh⟩⟩)
    · refine .inr (.inr fun sub hsub => ⟨?_, ?_, ?_⟩)
      · rintro ⟨w, hw, hm, -⟩
        exact hd ((dispatch_marked subs).mpr ⟨sub, hsub, w, hw, hm⟩)
      · rintro ⟨w, hw, -, hf⟩
        exact hd (h.flagged.mpr ⟨sub, hsub, w, hw, hf⟩)
      · rintro ⟨he, -⟩
        exact hd (h.cancel ⟨sub, hsub, he⟩)
  · rintro (⟨sub, hsub, w, hw, hm, hf⟩ | ⟨⟨sub, hsub, w, hw, hm, -⟩, ⟨sub', hsub', w', hw', -, hf⟩⟩ | h)
    · exact .of_both ⟨sub, hsub, w, hw, hm⟩ ⟨sub, hsub, w, hw, hf⟩
    · exact .of_both ⟨sub, hsub, w, hw, hm⟩ ⟨sub', hsub', w', hw', hf⟩
    · constructor
      · rw [dispatch_marked]
        constructor
        · rintro ⟨sub, hsub, w, hw, hm⟩
          rcases Tells.of_marked hw hm with ⟨w, hw, -, hf⟩ | hs
          · exact ⟨sub, hsub, w, hw, hf⟩
          · exact absurd hs (h sub hsub).1
        · rintro ⟨sub, hsub, w, hw, hf⟩
          rcases Tells.of_flagged hw hf with ⟨w, hw, hm, -⟩ | hh
          · exact ⟨sub, hsub, w, hw, hm⟩
          · exact absurd hh (h sub hsub).2.1
      · rintro ⟨sub, hsub, he⟩
        rw [dispatch_marked]
        by_contra hnone
        exact (h sub hsub).2.2 ⟨he, fun w hw hm => hnone ⟨sub, hsub, w, hw, hm⟩⟩

end

end HookCancel
