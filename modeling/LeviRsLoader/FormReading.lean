import LeviRsLoader.FormResponse
import LeviRsLoader.Lib.Runs

/-!
# Reading a response back

The text of a response is taken apart as two compounds, one entry for every
value and one for every text, and what arrives under a name is put together
from the two. It is what the engine reported unless the text of a choice is
empty or its element has no name.
-/
namespace Forms

open Nbt Utf8 Parser HookCancel HookPayload

/-! ## Entries -/

section Text

/-- The object holds the entries, as the bridge prints them. -/
def Holds (o : SnbtObject) (l : List Entry) : Prop := o.body = encode (writeSep Entry.print true l)

theorem holds_nil : Holds ⟨[]⟩ [] := rfl

theorem writeSep_concat (l : List Entry) (e : Entry) :
    writeSep Entry.print true (l ++ [e]) =
      (if l = [] then [] else writeSep Entry.print true l ++ [',']) ++ e.print := by
  have hfalse (l : List Entry) :
      writeSep Entry.print false (l ++ [e]) = writeSep Entry.print false l ++ ',' :: e.print := by
    induction l with
    | nil => simp [writeSep]
    | cons u l ih => simp [writeSep_false_cons, writeSep_true_cons, ih]
  cases l with
  | nil => simp [writeSep]
  | cons u l => simp [writeSep_true_cons, hfalse]

theorem Holds.body_eq_nil {o : SnbtObject} {l : List Entry} (h : Holds o l) : o.body = [] ↔ l = [] := by
  constructor
  · intro ho
    have hlen := length_le_encode (writeSep Entry.print true l)
    rw [← h, ho, List.length_nil, Nat.le_zero, List.length_eq_zero_iff] at hlen
    cases l with
    | nil => rfl
    | cons e l =>
      obtain ⟨c, t, hc, -⟩ := print_head e
      rw [writeSep_true_cons, hc] at hlen
      cases hlen
  · rintro rfl
    exact h

theorem Holds.put {o : SnbtObject} {l : List Entry} (h : Holds o l) (key : String) (text : List Char)
    (v : NbtValue) : Holds (o.put (encode key.toList) (encode text)) (l ++ [⟨key, text, v⟩]) := by
  have hprint : ascii "\"" ++ (snbtEscape (encode key.toList) ++ (ascii "\":" ++ encode text)) =
      encode (Entry.mk key text v).print := by
    rw [snbtEscape_encode, Entry.print, entryText, write_quoted, ascii, ascii, ← encode_append, ← encode_append,
      ← encode_append]
    simp
  have hsep : (if o.body = [] then [] else o.body ++ ascii ",") =
      encode (if l = [] then [] else writeSep Entry.print true l ++ [',']) := by
    simp only [h.body_eq_nil]
    split_ifs
    · rfl
    · rw [h, encode_append]
      rfl
  simp only [Holds, SnbtObject.put, writeSep_concat, List.append_assoc]
  rw [hprint, hsep, encode_append]

theorem Holds.putString {o : SnbtObject} {l : List Entry} (h : Holds o l) (key : String) (t : List Char) :
    Holds (o.putString (encode key.toList) (encode t))
      (l ++ [⟨key, write_quoted (String.ofList t), .string (String.ofList t)⟩]) := by
  have htext : ascii "\"" ++ snbtEscape (encode t) ++ ascii "\"" = encode (write_quoted (String.ofList t)) := by
    rw [snbtEscape_encode, write_quoted, ascii, ← encode_append, ← encode_append]
    simp
  rw [SnbtObject.putString, htext]
  exact h.put key _ _

theorem Holds.wrap {o : SnbtObject} {l : List Entry} (h : Holds o l) : o.wrap = encode (bracedText l) := by
  rw [SnbtObject.wrap, h, ascii, ascii, ← encode_append, ← encode_append, bracedText]
  simp

end Text

section Entries

variable {F : Floats} {D : Doubles} {choices : ChoiceTable} {key : List UInt8} {value : ElementResult}

/-- The entry of a report among the values. -/
def valueEntry (D : Doubles) (choices : ChoiceTable) (key : List UInt8) (value : ElementResult) : Option Entry :=
  match choices.lookup key with
  | some options =>
    (choiceOf D options value).1.map fun i : Nat => ⟨r key, Decimal.print i ++ ['l'], .long (Int64.ofNat i)⟩
  | none =>
    match value with
    | .uint64 v => some ⟨r key, Decimal.print v.toNat ++ ['l'], .long (Int64.ofNat v.toNat)⟩
    | .string s => some ⟨r key, write_quoted (r s), .string (r s)⟩
    | _ => none

/-- The text that goes out for a report. -/
def textOf (D : Doubles) (choices : ChoiceTable) (key : List UInt8) (value : ElementResult) : Option (List UInt8) :=
  match choices.lookup key with
  | some options => if (choiceOf D options value).2 ≠ [] then some (choiceOf D options value).2 else none
  | none =>
    match value with
    | .string s => some s
    | _ => none

def textEntry (D : Doubles) (choices : ChoiceTable) (key : List UInt8) (value : ElementResult) : Option Entry :=
  (textOf D choices key value).map fun s => ⟨r key, write_quoted (r s), .string (r s)⟩

/-- A report without doubles whose texts are UTF-8 and whose numbers are an `i64`'s. -/
structure Readable (choices : ChoiceTable) (key : List UInt8) (value : ElementResult) : Prop where
  name : value ≠ .monostate → ∃ t, key = encode t
  number : ∀ v, value = .uint64 v → v.toNat < 9223372036854775808
  double : ∀ d, value ≠ .double d
  string : ∀ s, value = .string s → ∃ t, s = encode t
  size : ∀ options, choices.lookup key = some options → options.length < 9223372036854775808
  option : ∀ options, choices.lookup key = some options → ∀ opt ∈ options, ∃ t, opt = encode t

theorem findOption_lt {opts : List (List UInt8)} {text : List UInt8} {i : Nat} (h : findOption opts text = some i) :
    i < opts.length := by
  rw [findOption, Option.or_eq_some_iff] at h
  rcases h with h | ⟨-, h⟩
  · exact (List.findIdx?_eq_some_iff_getElem.mp h).1
  · exact (List.findIdx?_eq_some_iff_getElem.mp h).1

/-- An index goes out with the text of its option, or the reported text goes out alone. -/
theorem choiceOf_cases (options : List (List UInt8)) (hd : ∀ d, value ≠ .double d) :
    (∃ i text, options[i]? = some text ∧ choiceOf D options value = (some i, text)) ∨
      ∃ text, choiceOf D options value = (none, text) ∧ (text = [] ∨ value = .string text) := by
  cases value with
  | monostate => exact .inr ⟨[], rfl, .inl rfl⟩
  | uint64 v =>
    cases h : options[v.toNat]? with
    | some text => exact .inl ⟨v.toNat, text, h, by simp [choiceOf, h]⟩
    | none => exact .inr ⟨[], by simp [choiceOf, h], .inl rfl⟩
  | double d => exact absurd rfl (hd d)
  | string s =>
    cases hf : findOption options s with
    | none => exact .inr ⟨s, by simp [choiceOf, hf], .inr rfl⟩
    | some i =>
      have hlt := findOption_lt hf
      have hi : options[i]? = some options[i] := List.getElem?_eq_getElem hlt
      exact .inl ⟨i, _, hi, by simp [choiceOf, hf, hi]⟩

theorem choiceOf_text (hr : Readable choices key value) {options : List (List UInt8)}
    (hc : choices.lookup key = some options) : ∃ t, (choiceOf D options value).2 = encode t := by
  rcases choiceOf_cases options hr.double with ⟨i, text, hi, h⟩ | ⟨text, h, rfl | hv⟩
  · rw [h]
    exact hr.option options hc text (List.mem_of_getElem? hi)
  · rw [h]
    exact ⟨[], rfl⟩
  · rw [h]
    exact hr.string text hv

theorem textOf_utf8 (hr : Readable choices key value) {s : List UInt8} (h : textOf D choices key value = some s) :
    ∃ t, s = encode t := by
  unfold textOf at h
  split at h
  · next options hc =>
    split_ifs at h
    cases h
    exact choiceOf_text hr hc
  · split at h
    · cases h
      exact hr.string _ rfl
    · cases h

/-- A turn of the loop adds the entries of the report to the two objects. -/
theorem addResult_holds (hr : Readable choices key value) {o : SnbtObject × SnbtObject} {vs ts : List Entry}
    (hv : Holds o.1 vs) (ht : Holds o.2 ts) :
    Holds (addResult D choices o key value).1 (vs ++ (valueEntry D choices key value).toList) ∧
      Holds (addResult D choices o key value).2 (ts ++ (textEntry D choices key value).toList) := by
  by_cases hm : value = .monostate
  · subst hm
    cases hc : choices.lookup key <;> simp [addResult, valueEntry, textEntry, textOf, choiceOf, hc, hv, ht]
  obtain ⟨k, rfl⟩ := hr.name hm
  have hk : r (encode k) = String.ofList k := r_encode k
  have hlong (i : Nat) : num i ++ ascii "l" = encode (Decimal.print i ++ ['l']) := (encode_append _ _).symm
  cases hc : choices.lookup (encode k) with
  | some options =>
    obtain ⟨t, hs⟩ := choiceOf_text (D := D) hr hc
    simp only [addResult, valueEntry, textEntry, textOf, hc, hk]
    constructor
    · cases (choiceOf D options value).1 with
      | some i =>
        simp only [hlong]
        simpa using hv.put (String.ofList k) (Decimal.print i ++ ['l']) (.long (Int64.ofNat i))
      | none => simpa using hv
    · split_ifs
      · rw [hs]
        simpa [r_encode] using ht.putString (String.ofList k) t
      · simpa using ht
  | none =>
    cases value with
    | monostate => exact absurd rfl hm
    | double d => exact absurd rfl (hr.double d)
    | uint64 v =>
      simp only [addResult, valueEntry, textEntry, textOf, hc, hk, hlong]
      refine ⟨?_, by simpa using ht⟩
      simpa using hv.put (String.ofList k) (Decimal.print v.toNat ++ ['l']) (.long (Int64.ofNat v.toNat))
    | string s =>
      obtain ⟨t, rfl⟩ := hr.string s rfl
      simp only [addResult, valueEntry, textEntry, textOf, hc, hk, Option.map_some, r_encode]
      exact ⟨by simpa using hv.putString (String.ofList k) t, by simpa using ht.putString (String.ofList k) t⟩

/-- The entries of a list of reports. -/
def entriesOf (f : List UInt8 → ElementResult → Option Entry)
    (items : List (Sigma fun _ : List UInt8 => ElementResult)) : List Entry := items.filterMap fun e => f e.1 e.2

theorem entriesOf_cons (f : List UInt8 → ElementResult → Option Entry) (e : Sigma fun _ : List UInt8 => ElementResult)
    (items : List (Sigma fun _ : List UInt8 => ElementResult)) :
    entriesOf f (e :: items) = (f e.1 e.2).toList ++ entriesOf f items := by
  cases h : f e.1 e.2 <;> simp [entriesOf, h]

theorem addResults_holds {items : List (Sigma fun _ : List UInt8 => ElementResult)}
    (hr : ∀ e ∈ items, Readable choices e.1 e.2) {o : SnbtObject × SnbtObject} {vs ts : List Entry}
    (hv : Holds o.1 vs) (ht : Holds o.2 ts) :
    Holds (items.foldl (fun o e => addResult D choices o e.1 e.2) o).1 (vs ++ entriesOf (valueEntry D choices) items) ∧
      Holds (items.foldl (fun o e => addResult D choices o e.1 e.2) o).2
        (ts ++ entriesOf (textEntry D choices) items) := by
  induction items generalizing o vs ts with
  | nil => simpa [entriesOf] using ⟨hv, ht⟩
  | cons e items ih =>
    obtain ⟨hv', ht'⟩ := addResult_holds (D := D) (hr e (.head _)) hv ht
    have hrec := ih (fun u hu => hr u (.tail _ hu)) hv' ht'
    simpa only [List.foldl_cons, entriesOf_cons, List.append_assoc] using hrec

end Entries

/-! ## The compounds -/

section Compounds

variable {F : Floats}

theorem reads_long (n : Nat) (v : Int64) : ReadsText (value F (n + 1)) (Decimal.print v.toInt ++ ['l']) (.long v) := by
  rw [← tokenValue_long (c := 'l') rfl v]
  exact reads_token n (numeral_bare _ ['l'] rfl) (by simp)

theorem reads_long_ofNat (n : Nat) {i : Nat} (h : i < 9223372036854775808) :
    ReadsText (value F (n + 1)) (Decimal.print i ++ ['l']) (.long (Int64.ofNat i)) := by
  have := reads_long (F := F) n (Int64.ofNat i)
  rwa [Int64.toInt_ofNat_of_lt h] at this

/-- An entry under a key of the bridge's own, printed without quotes. -/
def Entry.printBare (e : Entry) : List Char := writeKey e.key ++ ':' :: e.text

def bareText (l : List Entry) : List Char := '{' :: (writeSep Entry.printBare true l ++ ['}'])

theorem reads_bareText {n : Nat} (e : Entry) (l : List Entry)
    (hl : ∀ u ∈ e :: l, ReadsText (value F n) u.text u.value) :
    ReadsText (value F (n + 1)) (bareText (e :: l)) (.compound (mapOf (e :: l))) := by
  refine reads_printed e l ?_ fun u hu => ?_
  · obtain ⟨c, t, hc, hcb⟩ := writeKey_head e.key
    exact ⟨c, t ++ ':' :: e.text, by rw [Entry.printBare, hc]; rfl, .inr (.inr hcb)⟩
  · exact readsEntry (fun _ _ h => ⟨skip_ws_key u.key h, readKey_write u.key h⟩) (hl u hu)

/-- Entries in braces, none of them included. -/
theorem reads_bracedText {n : Nat} (l : List Entry) (hl : ∀ u ∈ l, ReadsText (value F n) u.text u.value) :
    ReadsText (value F (n + 1)) (bracedText l) (.compound (mapOf l)) := by
  cases l with
  | nil =>
    intro p t h hd
    have hopen : p.rest = encode ('{' :: '}' :: t) := h
    rw [value_of_head n (by decide) (by decide) hopen, if_pos rfl]
    exact compound_write (F := F) [] (by simp) .nil hopen
  | cons e l => exact reads_braced e l hl

/-- A text in braces parses as the compound of its entries, with fuel for what they nest. -/
theorem parse_bareText_of_le (d : Nat) (e : Entry) (l : List Entry) (hd : d ≤ (bareText (e :: l)).length)
    (hl : ∀ n, ∀ u ∈ e :: l, ReadsText (value F (n + d)) u.text u.value) :
    NbtValue.parse F (r (encode (bareText (e :: l)))) = .ok (.compound (mapOf (e :: l))) := by
  have hlen : d ≤ (encode (bareText (e :: l))).length := Nat.le_trans hd (length_le_encode _)
  obtain ⟨n, hn⟩ : ∃ n, (encode (bareText (e :: l))).length = n + d := ⟨_, (Nat.sub_add_cancel hlen).symm⟩
  rw [r_encode]
  refine parse_of_reads (by simp [bareText, isWsChar]) ?_
  rw [hn]
  exact reads_bareText e l (hl n)

theorem parse_bareText (e : Entry) (l : List Entry)
    (hl : ∀ n, ∀ u ∈ e :: l, ReadsText (value F (n + 2)) u.text u.value) :
    NbtValue.parse F (r (encode (bareText (e :: l)))) = .ok (.compound (mapOf (e :: l))) :=
  parse_bareText_of_le 2 e l (by simp [bareText]) hl

end Compounds

/-! ## The response to a custom form -/

section Custom

variable {F : Floats} {D : Doubles} {choices : ChoiceTable} {key : List UInt8} {res : ElementResult}
  {result : CustomFormResult}

theorem valueEntry_eq_some (hr : Readable choices key res) {e : Entry} (h : valueEntry D choices key res = some e) :
    key = encode e.key.toList ∧ ∀ n, ReadsText (value F (n + 1)) e.text e.value := by
  have hkey (hm : res ≠ .monostate) (he : e.key = r key) : key = encode e.key.toList := by
    obtain ⟨t, rfl⟩ := hr.name hm
    rw [he, r_encode, String.toList_ofList]
  cases hc : choices.lookup key with
  | some options =>
    simp only [valueEntry, hc] at h
    obtain ⟨i, hi, rfl⟩ := Option.map_eq_some_iff.mp h
    rcases choiceOf_cases (D := D) options hr.double with ⟨j, text, ht, hchoice⟩ | ⟨text, hchoice, -⟩
    · rw [hchoice] at hi
      obtain rfl : j = i := Option.some.inj hi
      have hlt : j < options.length := (List.getElem?_eq_some_iff.mp ht).1
      refine ⟨hkey ?_ rfl, fun n => reads_long_ofNat n (Nat.lt_trans hlt (hr.size options hc))⟩
      rintro rfl
      cases hchoice
    · rw [hchoice] at hi
      cases hi
  | none =>
    simp only [valueEntry, hc] at h
    cases res with
    | monostate => cases h
    | double d => cases h
    | uint64 v =>
      cases h
      exact ⟨hkey (by simp) rfl, fun n => reads_long_ofNat n (hr.number v rfl)⟩
    | string s =>
      cases h
      obtain ⟨t, rfl⟩ := hr.string s rfl
      refine ⟨hkey (by simp) rfl, fun n => ?_⟩
      dsimp only
      rw [r_encode]
      exact reads_text n t

theorem textEntry_eq_some (hr : Readable choices key res) {e : Entry} (h : textEntry D choices key res = some e) :
    key = encode e.key.toList ∧ ∀ n, ReadsText (value F (n + 1)) e.text e.value := by
  obtain ⟨s, hs, rfl⟩ := Option.map_eq_some_iff.mp h
  obtain ⟨t, rfl⟩ := textOf_utf8 hr hs
  have hm : res ≠ .monostate := by
    rintro rfl
    unfold textOf at hs
    split at hs <;> cases hs
  obtain ⟨k, rfl⟩ := hr.name hm
  dsimp only
  rw [r_encode, r_encode, String.toList_ofList]
  exact ⟨rfl, fun n => reads_text n t⟩

/-- The compounds a response is read as. -/
def valuesOf (D : Doubles) (choices : ChoiceTable) (result : CustomFormResult) : List Entry :=
  entriesOf (valueEntry D choices) result.entries

def textsOf (D : Doubles) (choices : ChoiceTable) (result : CustomFormResult) : List Entry :=
  entriesOf (textEntry D choices) result.entries

/-- The two entries of a response, each with a compound of its own. -/
def valuesEntry (D : Doubles) (choices : ChoiceTable) (result : CustomFormResult) : Entry :=
  ⟨"values", bracedText (valuesOf D choices result), .compound (mapOf (valuesOf D choices result))⟩

def textsEntry (D : Doubles) (choices : ChoiceTable) (result : CustomFormResult) : Entry :=
  ⟨"texts", bracedText (textsOf D choices result), .compound (mapOf (textsOf D choices result))⟩

theorem customSnbt_eq (hr : ∀ e ∈ result.entries, Readable choices e.1 e.2) :
    customSnbt D choices result = encode (bareText [valuesEntry D choices result, textsEntry D choices result]) := by
  obtain ⟨hv, ht⟩ := addResults_holds (D := D) (o := (⟨[]⟩, ⟨[]⟩)) hr holds_nil holds_nil
  have hvalues : writeKey "values" = "values".toList := rfl
  have htexts : writeKey "texts" = "texts".toList := rfl
  rw [List.nil_append] at hv ht
  simp only [customSnbt, hv.wrap, ht.wrap, ascii, ← encode_append, bareText, writeSep_true_cons, writeSep_false_cons,
    Entry.printBare, valuesEntry, textsEntry, hvalues, htexts]
  simp [valuesOf, textsOf, writeSep]

theorem reads_entriesOf {f : List UInt8 → ElementResult → Option Entry} {n : Nat}
    (hf : ∀ e ∈ result.entries, ∀ u, f e.1 e.2 = some u → ReadsText (value F n) u.text u.value) :
    ∀ u ∈ entriesOf f result.entries, ReadsText (value F n) u.text u.value := by
  intro u hu
  obtain ⟨e, he, hu⟩ := List.mem_filterMap.mp hu
  exact hf e he u hu

theorem parse_customSnbt (hr : ∀ e ∈ result.entries, Readable choices e.1 e.2) :
    NbtValue.parse F (r (customSnbt D choices result)) =
      .ok (.compound (mapOf [valuesEntry D choices result, textsEntry D choices result])) := by
  rw [customSnbt_eq hr]
  refine parse_bareText _ _ fun n u hu => ?_
  rcases List.mem_cons.mp hu with rfl | hu
  · exact reads_bracedText _ (reads_entriesOf fun e he u h => (valueEntry_eq_some (hr e he) h).2 n)
  · obtain rfl := List.mem_singleton.mp hu
    exact reads_bracedText _ (reads_entriesOf fun e he u h => (textEntry_eq_some (hr e he) h).2 n)

end Custom

/-! ## Maps -/

section Maps

variable {F : Floats}

theorem encode_injective {s t : List Char} (h : encode s = encode t) : s = t := by
  have := congrArg decode h
  rwa [decode_encode, decode_encode, Option.some.injEq] at this

theorem mapOf_sorted (l : List Entry) : (mapOf l).Pairwise fun a b => a.1 < b.1 :=
  Runs.foldl_invariant (fun map : List (String × NbtValue) => map.Pairwise fun a b => a.1 < b.1) .nil
    fun _ (e : Entry) h => insertEntry_sorted e.key e.value h

section Pair

variable {a b : Entry} (key : String)

theorem get_first (ha : a.key = key) (hb : key ≠ b.key) :
    HookCancel.get key (.compound (mapOf [a, b])) = some a.value := by
  subst ha
  exact (lookup_insertEntry_of_ne hb _ _).trans (lookup_insertEntry _ _ _)

theorem get_second (hb : b.key = key) : HookCancel.get key (.compound (mapOf [a, b])) = some b.value := by
  subst hb
  exact lookup_insertEntry _ _ _

theorem get_neither (ha : key ≠ a.key) (hb : key ≠ b.key) : HookCancel.get key (.compound (mapOf [a, b])) = none :=
  (lookup_insertEntry_of_ne hb _ _).trans (lookup_insertEntry_of_ne ha _ _)

end Pair

/-- What stands under a key is what the report of that name gives. -/
theorem lookup_entriesOf {f : List UInt8 → ElementResult → Option Entry}
    {items : List (Sigma fun _ : List UInt8 => ElementResult)}
    (hf : ∀ e ∈ items, ∀ u, f e.1 e.2 = some u → e.1 = encode u.key.toList) (hn : items.NodupKeys) (key : String) :
    (mapOf (entriesOf f items)).lookup key =
      ((items.dlookup (encode key.toList)).bind (f (encode key.toList))).map Entry.value := by
  suffices ∀ map, ((entriesOf f items).foldl (fun map e => insertEntry e.key e.value map) map).lookup key =
      (((items.dlookup (encode key.toList)).bind (f (encode key.toList))).map Entry.value).or (map.lookup key) by
    simpa [mapOf] using this []
  induction items with
  | nil => simp [entriesOf]
  | cons e items ih =>
    intro map
    obtain ⟨hnot, hn⟩ := List.nodupKeys_cons.mp hn
    have hrec := ih (fun u hu => hf u (.tail _ hu)) hn
    rw [entriesOf_cons, List.foldl_append, hrec]
    obtain ⟨name, res⟩ := e
    by_cases hk : name = encode key.toList
    · subst hk
      rw [List.dlookup_eq_none.mpr hnot, List.dlookup_cons_eq]
      cases hfe : f (encode key.toList) res with
      | none => simp [hfe]
      | some u =>
        have hu := encode_injective (hf _ (.head _) u hfe)
        obtain rfl : key = u.key := String.toList_injective hu
        simp [hfe, lookup_insertEntry]
    · rw [List.dlookup_cons_ne _ _ (Ne.symm hk)]
      cases hfe : f name res with
      | none => rfl
      | some u =>
        have hne : key ≠ u.key := by
          rintro rfl
          exact hk (hf _ (.head _) u hfe)
        simp [lookup_insertEntry_of_ne hne]

/-- In a map a later entry has another key. -/
theorem lookup_eq_none_of_sorted {e : String × NbtValue} {l : List (String × NbtValue)}
    (h : ∀ u ∈ l, e.1 < u.1) : l.lookup e.1 = none := by
  refine List.lookup_eq_none_iff.mpr fun u hu => ?_
  rw [bne_iff_ne]
  intro heq
  exact String.lt_irrefl _ (heq ▸ h u hu)

theorem lookup_addValues (texts : Option (List (String × NbtValue))) {values : List (String × NbtValue)}
    (hs : values.Pairwise fun a b => a.1 < b.1) (out : Table String FormValue) (key : String) :
    (values.foldl (addValue F texts) out).lookup key =
      ((values.lookup key).bind (formValue F (text_of texts key))).or (out.lookup key) := by
  induction hs generalizing out with
  | nil => simp
  | @cons e values he _ ih =>
    rw [List.foldl_cons, ih]
    obtain ⟨k, v⟩ := e
    by_cases hk : key = k
    · subst hk
      rw [lookup_eq_none_of_sorted he, List.lookup_cons_self, addValue]
      cases hv : formValue F (text_of texts key) v <;> simp [hv]
    · rw [List.lookup_cons, beq_eq_false_iff_ne.mpr hk, addValue]
      cases formValue F (text_of texts k) v <;> simp [hk]

theorem lookup_addTexts {texts : List (String × NbtValue)} (hs : texts.Pairwise fun a b => a.1 < b.1)
    (out : Table String FormValue) (key : String) :
    (texts.foldl addText out).lookup key =
      (out.lookup key).or (((texts.lookup key).bind as_string).map .text) := by
  induction hs generalizing out with
  | nil => simp
  | @cons e texts he _ ih =>
    rw [List.foldl_cons, ih]
    obtain ⟨k, v⟩ := e
    by_cases hk : key = k
    · subst hk
      rw [lookup_eq_none_of_sorted he, List.lookup_cons_self, addText]
      cases hout : out.lookup key <;> cases hv : as_string v <;> simp [hout, hv]
    · rw [List.lookup_cons, beq_eq_false_iff_ne.mpr hk, addText]
      cases out.lookup k <;> cases as_string v <;> simp [hk]

end Maps

/-! ## What arrives -/

section Arrived

variable {F : Floats} {D : Doubles} {choices : ChoiceTable} {result : CustomFormResult}

/-- What the Rust side finds under the name of a report. -/
def arrived (D : Doubles) (choices : ChoiceTable) (key : List UInt8) (value : ElementResult) : Option FormValue :=
  match choices.lookup key with
  | some options =>
    match choiceOf D options value with
    | (some i, text) => if text = [] then some (.int (Int64.ofNat i)) else some (.choice (Int64.ofNat i) (r text))
    | (none, text) => if text = [] then none else some (.text (r text))
  | none =>
    match value with
    | .uint64 v => some (.int (Int64.ofNat v.toNat))
    | .string s => some (.text (r s))
    | _ => none

/-- The decoder puts the value and the text of a report together again. -/
theorem arrived_eq (key : List UInt8) (value : ElementResult) :
    ((((valueEntry D choices key value).map Entry.value).bind
        (formValue F (((textEntry D choices key value).map Entry.value).bind as_string))).or
      ((((textEntry D choices key value).map Entry.value).bind as_string).map .text)) =
      arrived D choices key value := by
  cases hc : choices.lookup key with
  | some options =>
    obtain ⟨⟨idx, text⟩, hchoice⟩ : ∃ c, choiceOf D options value = c := ⟨_, rfl⟩
    by_cases ht : text = []
    · cases idx <;> simp [valueEntry, textEntry, textOf, arrived, hc, hchoice, ht, formValue, NbtValue.as_i64]
    · cases idx <;>
        simp [valueEntry, textEntry, textOf, arrived, hc, hchoice, ht, formValue, NbtValue.as_i64, as_string]
  | none =>
    cases value <;> simp [valueEntry, textEntry, textOf, arrived, hc, formValue, NbtValue.as_i64, as_string]

/-- The response to a custom form, name by name. -/
theorem parse_response_customSnbt (hr : ∀ e ∈ result.entries, Readable choices e.1 e.2) :
    ∃ out, parse_response F (r (customSnbt D choices result)) = .custom out ∧
      ∀ key : String, out.lookup key =
        (result.lookup (encode key.toList)).bind (arrived D choices (encode key.toList)) := by
  refine ⟨(mapOf (textsOf D choices result)).foldl addText
    ((mapOf (valuesOf D choices result)).foldl (addValue F (some (mapOf (textsOf D choices result)))) ∅), ?_,
    fun key => ?_⟩
  · have hvt : ("values" : String) ≠ "texts" := by decide
    have hcv : ("cancelled" : String) ≠ "values" := by decide
    have hct : ("cancelled" : String) ≠ "texts" := by decide
    rw [parse_response, parse_customSnbt hr]
    dsimp only
    rw [get_neither "cancelled" hcv hct, get_first "values" rfl hvt, get_second "texts" rfl]
    rfl
  · have hvalue : (mapOf (valuesOf D choices result)).lookup key =
        ((result.lookup (encode key.toList)).bind (valueEntry D choices (encode key.toList))).map Entry.value :=
      lookup_entriesOf (fun e he u h => (valueEntry_eq_some (F := F) (hr e he) h).1) result.nodupKeys key
    have htext : (mapOf (textsOf D choices result)).lookup key =
        ((result.lookup (encode key.toList)).bind (textEntry D choices (encode key.toList))).map Entry.value :=
      lookup_entriesOf (fun e he u h => (textEntry_eq_some (F := F) (hr e he) h).1) result.nodupKeys key
    rw [lookup_addTexts (mapOf_sorted _), lookup_addValues _ (mapOf_sorted _), text_of, Option.bind_some, hvalue, htext,
      AList.lookup_empty, Option.or_none]
    cases result.lookup (encode key.toList) with
    | none => rfl
    | some value => exact arrived_eq _ value

end Arrived

/-! ## What was reported -/

section Reported

variable {F : Floats} {D : Doubles} {elements : List Element} {e : Element} {value : ElementResult}

theorem valued_of_choice (h : e.kind.choice = true) : e.kind.valued = true := by
  cases hk : e.kind <;> rw [hk] at h <;> first | rfl | cases h

theorem eq_of_name_eq (hu : ((elements.filter fun e => e.kind.valued).map Element.name).Nodup) {u : Element}
    (he : e ∈ elements) (hv : e.kind.valued = true) (hu' : u ∈ elements) (huv : u.kind.valued = true)
    (hn : u.name = e.name) : u = e :=
  List.inj_on_of_nodup_map hu (List.mem_filter.mpr ⟨hu', huv⟩) (List.mem_filter.mpr ⟨he, hv⟩) hn

/-- The element goes into the table. -/
def Element.Listed (e : Element) (name : List UInt8) (options : List (List UInt8)) : Prop :=
  e.kind.choice = true ∧ e.name = name ∧ e.options = options ∧ name ≠ [] ∧ options ≠ []

theorem lookup_addChoice (choices : ChoiceTable) (e : Element) {name : List UInt8} {options : List (List UInt8)}
    (hn : e.kind.choice = true → e.name = name → choices.lookup name = none) :
    (addChoice choices e).lookup name = some options ↔
      choices.lookup name = some options ∨ e.Listed name options := by
  by_cases hlisted : e.kind.choice = true ∧ e.options ≠ [] ∧ e.name ≠ []
  · obtain ⟨hchoice, hopts, hname⟩ := hlisted
    rw [addChoice, if_pos hchoice, if_neg hopts, if_pos hname, AList.lookup_insert_eq]
    by_cases heq : name = e.name
    · subst heq
      simp only [if_true, hn hchoice rfl, Element.Listed, hchoice, Option.some.injEq, true_and, reduceCtorEq, false_or]
      constructor
      · rintro rfl
        exact ⟨rfl, hname, hopts⟩
      · exact fun h => h.1
    · simp [Element.Listed, heq, Ne.symm heq]
  · have hsame : addChoice choices e = choices := by
      unfold addChoice
      split_ifs with h₁ h₂ h₃
      · rfl
      · exact absurd ⟨h₁, h₂, h₃⟩ hlisted
      · rfl
      · rfl
    have hnot : ¬e.Listed name options := by
      rintro ⟨hchoice, rfl, rfl, hname, hopts⟩
      exact hlisted ⟨hchoice, hopts, hname⟩
    rw [hsame, or_iff_left hnot]

/-- The table holds the choices with a name and with options. -/
theorem lookup_choicesOf (hu : ((elements.filter fun e => e.kind.valued).map Element.name).Nodup)
    {name : List UInt8} {options : List (List UInt8)} :
    (choicesOf elements).lookup name = some options ↔ ∃ e ∈ elements, e.Listed name options := by
  induction elements using List.reverseRecOn generalizing options with
  | nil => simp [choicesOf]
  | append_singleton l u ih =>
    have hadd : choicesOf (l ++ [u]) = addChoice (choicesOf l) u := by simp [choicesOf]
    rw [List.filter_append, List.map_append, List.nodup_append] at hu
    obtain ⟨hl, -, hdisjoint⟩ := hu
    rw [hadd, lookup_addChoice, ih hl]
    · simp only [List.mem_append, List.mem_singleton, or_and_right, exists_or, exists_eq_left]
    · intro hchoice hname
      refine Option.eq_none_iff_forall_ne_some.mpr fun options hlookup => ?_
      obtain ⟨e, he, hec, hen, -⟩ := (ih hl).mp hlookup
      -- two valued elements of one name
      refine hdisjoint e.name ?_ u.name ?_ (hen.trans hname.symm)
      · exact List.mem_map_of_mem (List.mem_filter.mpr ⟨he, valued_of_choice hec⟩)
      · exact List.mem_map_of_mem (List.mem_filter.mpr ⟨List.mem_singleton_self u, valued_of_choice hchoice⟩)

/-- The option a reported value stands for is one of the element's. -/
theorem chosen_lt (hrep : e.Reports value) {i : Nat} (h : e.chosen value = some i) : i < e.options.length := by
  cases value with
  | monostate => cases h
  | double d => cases h
  | uint64 v =>
    simp only [Element.chosen] at h
    split_ifs at h with hc
    cases h
    exact hrep.2 hc
  | string s =>
    simp only [Element.chosen] at h
    split_ifs at h with hc
    exact findOption_lt h

theorem meaning_of_chosen {i : Nat} {text : List UInt8} (h : e.chosen value = some i) (ht : e.options[i]? = some text) :
    e.meaning value = some (.choice (Int64.ofNat i) (r text)) := by
  simp [Element.meaning, h, ht]

/-- Without a choice a value stands for itself, as it does without a table. -/
theorem meaning_of_not_chosen (hrep : e.Reports value) (h : e.chosen value = none) {choices : ChoiceTable}
    {name : List UInt8} (hl : choices.lookup name = none) : arrived D choices name value = e.meaning value := by
  cases value with
  | double d => exact absurd hrep id
  | monostate => simp [Element.meaning, h, arrived, hl]
  | uint64 v => simp [Element.meaning, h, arrived, hl]
  | string s => simp [Element.meaning, h, arrived, hl]

/-- An element that is not in the table: what it reports arrives unless it is a choice. -/
theorem arrived_iff_of_unlisted (hrep : e.Reports value) {choices : ChoiceTable} {name : List UInt8}
    (hl : choices.lookup name = none) : arrived D choices name value = e.meaning value ↔ e.chosen value = none := by
  constructor
  · intro h
    by_contra hc
    obtain ⟨i, hi⟩ := Option.ne_none_iff_exists'.mp hc
    rw [meaning_of_chosen hi (List.getElem?_eq_getElem (chosen_lt hrep hi))] at h
    cases value <;> simp [arrived, hl] at h
  · intro h
    exact meaning_of_not_chosen hrep h hl

/-- An element in the table: a choice arrives with its text, and a text alone, unless it is empty. -/
theorem arrived_iff_of_listed (hc : e.kind.choice = true) (hrep : e.Reports value) {choices : ChoiceTable}
    {name : List UInt8} (hl : choices.lookup name = some e.options) :
    arrived D choices name value = e.meaning value ↔
      match e.chosen value with
      | some i => e.options[i]? ≠ some []
      | none => value ≠ .string [] := by
  cases hi : e.chosen value with
  | some i =>
    have hlt := chosen_lt hrep hi
    have ht : e.options[i]? = some e.options[i] := List.getElem?_eq_getElem hlt
    have hchoice : choiceOf D e.options value = (some i, e.options[i]) := by
      cases value with
      | monostate => cases hi
      | double d => cases hi
      | uint64 v =>
        simp only [Element.chosen, hc, if_true, Option.some.injEq] at hi
        subst hi
        simp [choiceOf, ht]
      | string s =>
        simp only [Element.chosen, hc, if_true] at hi
        simp [choiceOf, hi, ht]
    rw [meaning_of_chosen hi ht]
    simp only [arrived, hl, hchoice, ht]
    by_cases htext : e.options[i] = [] <;> simp [htext]
  | none =>
    cases value with
    | monostate => simp [Element.meaning, hi, arrived, hl, choiceOf]
    | double d => exact absurd hrep id
    | uint64 v => simp [Element.chosen, hc] at hi
    | string s =>
      have hf : findOption e.options s = none := by simpa [Element.chosen, hc] using hi
      have hchoice : choiceOf D e.options (.string s) = (none, s) := by simp [choiceOf, hf]
      have hmeaning : e.meaning (.string s) = some (.text (r s)) := by simp [Element.meaning, hi]
      simp only [arrived, hl, hchoice, hmeaning]
      by_cases hs : s = [] <;> simp [hs]

theorem choice_of_chosen {i : Nat} (h : e.chosen value = some i) : e.kind.choice = true := by
  cases hc : e.kind.choice with
  | true => rfl
  | false => cases value <;> simp [Element.chosen, hc] at h

/-- What arrives is what the engine reported exactly where the element tells it. -/
theorem arrived_iff (hu : ((elements.filter fun e => e.kind.valued).map Element.name).Nodup) (he : e ∈ elements)
    (hv : e.kind.valued = true) (hrep : e.Reports value) :
    arrived D (choicesOf elements) e.name value = e.meaning value ↔ e.Tells value := by
  by_cases hlisted : e.Listed e.name e.options
  · have hl := (lookup_choicesOf hu).mpr ⟨e, he, hlisted⟩
    obtain ⟨hc, -, -, hname, -⟩ := hlisted
    rw [arrived_iff_of_listed hc hrep hl, Element.Tells]
    cases e.chosen value <;> simp [hc, hname]
  · have hl : (choicesOf elements).lookup e.name = none := by
      refine Option.eq_none_iff_forall_ne_some.mpr fun options hlookup => ?_
      obtain ⟨u, hmem, hul⟩ := (lookup_choicesOf hu).mp hlookup
      obtain rfl := eq_of_name_eq hu he hv hmem (valued_of_choice hul.1) hul.2.1
      obtain ⟨-, -, rfl, -, -⟩ := id hul
      exact hlisted hul
    rw [arrived_iff_of_unlisted hrep hl]
    constructor
    · intro hchosen hc
      rw [hchosen]
      by_cases hname : e.name = []
      · exact .inl hname
      · right
        rintro rfl
        exact hlisted ⟨hc, rfl, rfl, hname, hrep.2 hc⟩
    · intro htells
      cases hchosen : e.chosen value with
      | none => rfl
      | some i =>
        have hc := choice_of_chosen hchosen
        have hone := htells hc
        rw [hchosen] at hone
        have hopts : e.options ≠ [] := List.ne_nil_of_length_pos (Nat.zero_lt_of_lt (chosen_lt hrep hchosen))
        exact absurd ⟨hc, rfl, rfl, hone.1, hopts⟩ hlisted

end Reported

/-! ## The other forms -/

section Fixed

variable {F : Floats}

theorem reads_int (n : Nat) (v : Int32) : ReadsText (value F (n + 1)) (Decimal.print v.toInt) (.int v) := by
  rw [← tokenValue_int v]
  exact reads_token n (print_bare _) (Decimal.print_ne_nil _)

theorem parse_response_cancelled (reason : FormCancelReason) :
    parse_response F (r (cancelledSnbt reason)) = .cancelled (reason.getD (-1)) := by
  have htext : cancelledSnbt reason = encode (bareText [⟨"cancelled", ['1', 'b'], .byte 1⟩,
      ⟨"reason", Decimal.print (reason.getD (-1)).toInt, .int (reason.getD (-1))⟩]) := by
    have hcancelled : writeKey "cancelled" = "cancelled".toList := rfl
    have hreason : writeKey "reason" = "reason".toList := rfl
    simp only [cancelledSnbt, ascii, num, ← encode_append, bareText, writeSep_true_cons, writeSep_false_cons,
      Entry.printBare, hcancelled, hreason]
    simp [writeSep]
  have hbyte (n : Nat) : ReadsText (value F (n + 1)) ['1', 'b'] (.byte 1) := by
    have : tokenValue F ['1', 'b'] = .byte 1 := tokenValue_byte 1
    rw [← this]
    exact reads_token n (by decide) (by simp)
  have hcr : ("cancelled" : String) ≠ "reason" := by decide
  rw [parse_response, htext, parse_bareText]
  · dsimp only
    rw [get_first "cancelled" rfl hcr, get_second "reason" rfl]
    simp [as_bool, NbtValue.as_i64]
  · intro n u hu
    simp only [List.mem_cons, List.not_mem_nil, or_false] at hu
    rcases hu with rfl | rfl
    · exact hbyte (n + 1)
    · exact reads_int (n + 1) _

/-- The text of a response that names a button, by its number or by its side. -/
theorem parse_button {text : List Char} {v : NbtValue} (hread : ∀ n, ReadsText (value F (n + 1)) text v) :
    NbtValue.parse F (r (ascii "\x7bbutton:" ++ encode text ++ ascii "\x7d")) = .ok (.compound [("button", v)]) := by
  have htext : ascii "\x7bbutton:" ++ encode text ++ ascii "\x7d" = encode (bareText [⟨"button", text, v⟩]) := by
    have hbutton : writeKey "button" = "button".toList := rfl
    simp only [ascii, ← encode_append, bareText, writeSep_true_cons, Entry.printBare, hbutton]
    simp [writeSep]
  rw [htext, parse_bareText]
  · rfl
  · intro n u hu
    obtain rfl := List.mem_singleton.mp hu
    exact hread (n + 1)

theorem toUInt64_of_nonneg {v : Int32} (h : ¬v < 0) :
    (if v.toInt64 < 0 then 0 else v.toInt64).toUInt64 = UInt64.ofNat v.toInt.toNat := by
  have hnonneg : 0 ≤ v.toInt := by
    rw [Int32.lt_iff_toInt_lt] at h
    exact Int.not_lt.mp h
  have hle : (0 : Int64) ≤ v.toInt64 := by
    rw [Int64.le_iff_toInt_le, Int32.toInt_toInt64]
    exact hnonneg
  rw [if_neg (Int64.not_lt.mpr hle), ← UInt64.toNat_inj, Int64.toNat_toUInt64_of_le hle]
  have hlt : v.toInt.toNat < UInt64.size := by
    have hbound := v.toInt_lt
    have hsize : UInt64.size = 18446744073709551616 := rfl
    omega
  rw [UInt64.toNat_ofNat_of_lt' hlt, Int64.toNatClampNeg, Int32.toInt_toInt64]

theorem parse_response_button {button : Int32} (h : ¬button < 0) :
    parse_response F (r (ascii "\x7bbutton:" ++ num button.toInt ++ ascii "\x7d")) =
      .button (UInt64.ofNat button.toInt.toNat) := by
  rw [parse_response, num, parse_button fun n => reads_int n button, ← toUInt64_of_nonneg h]
  rfl

theorem parse_response_modal (D : Doubles) (which : ModalFormSelectedButton) (reason : FormCancelReason) :
    parse_response F (r (Report.snbt D (.modal (some which) reason))) = .modal (which = .upper) := by
  have htext : Report.snbt D (.modal (some which) reason) =
      ascii "\x7bbutton:" ++ encode (write_quoted (if which = .upper then "upper" else "lower")) ++ ascii "\x7d" := by
    cases which <;> rfl
  have hread (side : String) (n : Nat) : ReadsText (value F (n + 1)) (write_quoted side) (.string side) := by
    have := reads_text (F := F) n side.toList
    rwa [String.ofList_toList] at this
  rw [parse_response, htext, parse_button (hread _)]
  cases which <;> rfl

end Fixed

section Survival

variable {elements : List Element} {result : CustomFormResult}

/-- Every entry of a possible result can be read. -/
theorem Possible.readable (hp : Possible elements result) :
    ∀ e ∈ result.entries, Readable (choicesOf elements) e.1 e.2 := by
  rintro ⟨key, value⟩ he
  have hreports := hp.reports key value (AList.lookup_eq_some_iff.mpr he)
  have hoptions {options : List (List UInt8)} (h : (choicesOf elements).lookup key = some options) :
      ∃ u ∈ elements, u.options = options := by
    obtain ⟨u, hu, -, -, ho, -⟩ := (lookup_choicesOf hp.unique).mp h
    exact ⟨u, hu, ho⟩
  refine ⟨?_, ?_, ?_, ?_, ?_, ?_⟩
  · intro hm
    obtain ⟨u, hu, -, rfl, -⟩ := hreports hm
    exact hp.name u hu
  · rintro v rfl
    obtain ⟨u, -, -, -, hrep⟩ := hreports (by simp)
    exact hrep.1
  · rintro d rfl
    obtain ⟨u, -, -, -, hrep⟩ := hreports (by simp)
    exact hrep
  · rintro s rfl
    obtain ⟨u, -, -, -, hrep⟩ := hreports (by simp)
    exact hrep.1
  · intro options h
    obtain ⟨u, hu, rfl⟩ := hoptions h
    exact hp.size u hu
  · intro options h
    obtain ⟨u, hu, rfl⟩ := hoptions h
    exact hp.option u hu

theorem meaningOf_eq (hp : Possible elements result) {e : Element} (he : e ∈ elements) (hv : e.kind.valued = true)
    (value : ElementResult) : meaningOf elements e.name value = e.meaning value := by
  obtain ⟨u, hu⟩ : ∃ u, elements.find? (fun u => u.kind.valued && u.name == e.name) = some u := by
    rw [← Option.isSome_iff_exists, List.find?_isSome]
    exact ⟨e, he, by simp [hv]⟩
  have hprop := List.find?_some hu
  simp only [Bool.and_eq_true, beq_iff_eq] at hprop
  obtain rfl := eq_of_name_eq hp.unique he hv (List.mem_of_find?_eq_some hu) hprop.1 hprop.2
  rw [meaningOf, hu, Option.bind_some]

theorem Possible.reports_of_lookup (hp : Possible elements result) {e : Element} (he : e ∈ elements)
    (hv : e.kind.valued = true) {value : ElementResult} (hl : result.lookup e.name = some value) : e.Reports value := by
  by_cases hm : value = .monostate
  · subst hm
    trivial
  · obtain ⟨u, hu, huv, hn, hrep⟩ := hp.reports _ _ hl hm
    obtain rfl := eq_of_name_eq hp.unique he hv hu huv hn
    exact hrep

/-- No value arrives as no value. -/
theorem arrived_monostate (D : Doubles) (name : List UInt8) :
    arrived D (choicesOf elements) name .monostate = meaningOf elements name .monostate := by
  have hmeaning (e : Element) : e.meaning .monostate = none := rfl
  have hnone : meaningOf elements name .monostate = none := by simp [meaningOf, hmeaning]
  rw [hnone]
  cases h : (choicesOf elements).lookup name <;> simp [arrived, h, choiceOf]

/-- The response to a custom form says what was reported where the choices are told. -/
theorem survives_custom_iff (F : Floats) (D : Doubles) (hp : Possible elements result) (reason : FormCancelReason) :
    Survives (parse_response F (r (customSnbt D (choicesOf elements) result))) (.custom elements (some result) reason) ↔
      ∀ e ∈ elements, ∀ value, result.lookup e.name = some value → e.Tells value := by
  obtain ⟨out, hout, hlookup⟩ := parse_response_customSnbt (F := F) (D := D) hp.readable
  have hsame : Survives (parse_response F (r (customSnbt D (choicesOf elements) result)))
      (.custom elements (some result) reason) ↔
      ∀ (key : String) (value : ElementResult), result.lookup (encode key.toList) = some value →
        arrived D (choicesOf elements) (encode key.toList) value = meaningOf elements (encode key.toList) value := by
    rw [hout]
    constructor
    · rintro ⟨out', heq, hout'⟩ key value hv
      cases heq
      have := (hlookup key).symm.trans (hout' key)
      rwa [hv, Option.bind_some, Option.bind_some] at this
    · intro h
      refine ⟨out, rfl, fun key => ?_⟩
      rw [hlookup]
      cases hv : result.lookup (encode key.toList) with
      | none => rfl
      | some value => exact h key value hv
  rw [hsame]
  constructor
  · intro h e he value hl hc
    have hv := valued_of_choice hc
    obtain ⟨t, ht⟩ := hp.name e he
    have hkey := h (String.ofList t) value (by rw [String.toList_ofList, ← ht, hl])
    rw [String.toList_ofList, ← ht, meaningOf_eq hp he hv] at hkey
    exact (arrived_iff hp.unique he hv (hp.reports_of_lookup he hv hl)).mp hkey hc
  · intro h key value hl
    by_cases hm : value = .monostate
    · subst hm
      exact arrived_monostate D _
    · obtain ⟨e, he, hv, hn, hrep⟩ := hp.reports _ _ hl hm
      rw [← hn] at hl ⊢
      rw [meaningOf_eq hp he hv]
      exact (arrived_iff hp.unique he hv hrep).mpr (h e he value hl)

/-- What the engine reports for a form arrives as it was reported exactly when
every choice is told by a named element and has a text, and no named choice
element reports an empty text that is none of its options. -/
theorem survives_iff_tells (F : Floats) (D : Doubles) (report : Report) (hp : report.Possible) :
    Survives (parse_response F (r (report.snbt D))) report ↔ report.Tells := by
  cases report with
  | simple button reason =>
    refine iff_of_true ?_ trivial
    rw [Report.snbt, Survives]
    split_ifs with h
    · exact parse_response_cancelled reason
    · exact parse_response_button h
  | custom elements result reason =>
    cases result with
    | none => exact iff_of_true (parse_response_cancelled reason) trivial
    | some result => exact survives_custom_iff F D hp reason
  | modal result reason =>
    refine iff_of_true ?_ trivial
    cases result with
    | none => exact parse_response_cancelled reason
    | some which => exact parse_response_modal D which reason

end Survival

/-! ## A choice without a text -/

/-- One dropdown, and the option its player has chosen. -/
def oneDropdown (options : List (List UInt8)) : List Element := [⟨.dropdown, encode ['d'], options⟩]

def chose (v : UInt64) : CustomFormResult := AList.insert (encode ['d']) (.uint64 v) ∅

def noDoubles : Doubles := ⟨fun _ => [], fun _ => none⟩

theorem possible_chose {options : List (List UInt8)} {v : UInt64} (hsize : options.length < 9223372036854775808)
    (ho : ∀ opt ∈ options, ∃ t, opt = encode t) (hv : v.toNat < options.length) :
    Possible (oneDropdown options) (chose v) where
  unique := List.nodup_singleton _
  name e he := by
    obtain rfl := List.mem_singleton.mp he
    exact ⟨_, rfl⟩
  option e he := by
    obtain rfl := List.mem_singleton.mp he
    exact ho
  size e he := by
    obtain rfl := List.mem_singleton.mp he
    exact hsize
  reports key value hl hm := by
    rw [chose, AList.lookup_insert_eq] at hl
    split_ifs at hl with hk
    · cases hl
      exact ⟨_, List.mem_singleton_self _, rfl, hk.symm, Nat.lt_trans hv hsize, fun _ => hv⟩
    · cases hl

def pickSecond : Report := .custom (oneDropdown [encode ['a'], encode ['b']]) (some (chose 1)) none

theorem survives_pickSecond : Survives (parse_response noFloats (r (pickSecond.snbt noDoubles))) pickSecond := by
  have hp : pickSecond.Possible := by
    refine possible_chose (by decide) (fun opt hopt => ?_) (by decide)
    simp only [List.mem_cons, List.not_mem_nil, or_false] at hopt
    rcases hopt with rfl | rfl <;> exact ⟨_, rfl⟩
  refine (survives_iff_tells noFloats noDoubles pickSecond hp).mpr fun e he value hl => ?_
  obtain rfl := List.mem_singleton.mp he
  have hv : value = .uint64 1 := (Option.some.inj ((AList.lookup_insert _).symm.trans hl)).symm
  subst hv
  exact fun _ => ⟨by decide, by decide⟩

/-- The one option of a dropdown has no text; its index arrives as a plain number. -/
theorem empty_option_arrives_as_int :
    ¬∀ (F : Floats) (D : Doubles) (report : Report), report.Possible →
      Survives (parse_response F (r (report.snbt D))) report := by
  intro h
  have hp : Possible (oneDropdown [[]]) (chose 0) :=
    possible_chose (by decide) (fun opt hopt => ⟨[], List.mem_singleton.mp hopt⟩) (by decide)
  have hsurvives := h noFloats noDoubles (.custom (oneDropdown [[]]) (some (chose 0)) none) hp
  have htells := (survives_custom_iff noFloats noDoubles hp none).mp hsurvives _ (List.mem_singleton_self _)
    (.uint64 0) (AList.lookup_insert _) rfl
  exact htells.2 rfl

end Forms
