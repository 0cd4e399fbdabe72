import LeviRsLoader.CommandForms
import LeviRsLoader.FormReading

/-!
# Reading the arguments of a command back

Strings escaped by `snbtEscape`, numbers printed by `snbtNum` and the compound
the executor puts together of them, read by the SNBT parser of the Rust side:
every parameter arrives under its name and as what the engine parsed.
-/
namespace CommandForms

open Commands Nbt Utf8 Parser HookCancel HookPayload
open Forms (bareText Entry.printBare reads_int reads_long reads_bareText reads_bracedText)

/-! ## Numbers -/

section Numbers

variable {F : Floats}

/-- A number printed without a suffix: an int where it fits one. -/
def bareNumber (v : Int64) : NbtValue :=
  if -2147483648 ≤ v.toInt ∧ v.toInt ≤ 2147483647 then .int (Int32.ofInt v.toInt) else .long v

theorem as_i64_bareNumber (F : Floats) (v : Int64) : (bareNumber v).as_i64 F = some v := by
  unfold bareNumber
  split_ifs with h
  · have hv : (Int32.ofInt v.toInt).toInt = v.toInt := Int32.toInt_ofInt_of_le (by omega) (by omega)
    rw [NbtValue.as_i64, Option.some.injEq, ← Int64.toInt_inj, Int32.toInt_toInt64, hv]
  · rfl

theorem tokenValue_bare (v : Int64) : tokenValue F (Decimal.print v.toInt) = bareNumber v := by
  have h := tokenValue_numeral (F := F) v.toInt [] (.inl rfl)
  rw [List.append_nil] at h
  have hlong := Decimal.parse_print (-9223372036854775808) 9223372036854775807 (v := v.toInt)
    v.le_toInt (Int.le_of_lt_add_one v.toInt_lt)
  rw [h, bareNumber]
  split_ifs with hv
  · have hint := Decimal.parse_print (-2147483648) 2147483647 hv.1 hv.2
    simp [numericOf, print_any_dot, parse_i32, hint]
  · have hint : Decimal.parse (-2147483648) 2147483647 (Decimal.print v.toInt) = none := by
      rw [Decimal.parse, Decimal.parseInt_print, Option.filter_some, if_neg (by simpa using hv)]
    simp [numericOf, print_any_dot, parse_i32, parse_i64, hint, hlong]

theorem reads_bare (n : Nat) (v : Int64) : ReadsText (value F (n + 1)) (Decimal.print v.toInt) (bareNumber v) := by
  rw [← tokenValue_bare v]
  exact reads_token n (print_bare _) (Decimal.print_ne_nil _)

theorem reads_flag (n : Nat) (v : Bool) :
    ReadsText (value F (n + 1)) (if v then ['1', 'b'] else ['0', 'b']) (.byte (if v then 1 else 0)) := by
  have h1 : tokenValue F ['1', 'b'] = .byte 1 := tokenValue_byte 1
  have h0 : tokenValue F ['0', 'b'] = .byte 0 := tokenValue_byte 0
  cases v with
  | true => exact h1 ▸ reads_token n (by decide) (by simp)
  | false => exact h0 ▸ reads_token n (by decide) (by simp)

end Numbers

/-! ## Texts and lists -/

section Texts

variable {F : Floats}

theorem quoted_encode (t : List Char) : quoted (encode t) = encode (write_quoted (String.ofList t)) := by
  rw [quoted, snbtEscape_encode, write_quoted, String.toList_ofList, encode_cons_ascii (c := '"') rfl, encode_append]
  rfl

variable {ι : Type} {print : ι → List Char}

theorem intercalate_encode (l : List ι) :
    (ascii ",").intercalate (l.map fun u => encode (print u)) = encode (writeSep print true l) := by
  cases l with
  | nil => rfl
  | cons a l =>
    induction l generalizing a with
    | nil => simp [List.intercalate, writeSep]
    | cons b l ih =>
      have hb := ih b
      rw [List.map_cons] at hb
      rw [List.map_cons, List.map_cons, List.intercalate_cons_cons, hb, writeSep_true_cons print a,
        writeSep_false_cons, ascii, ← encode_append, ← encode_append]
      simp

/-- Items followed by commas, the last one taken away again, in brackets. -/
theorem listText_encode (l : List ι) :
    listText (l.map fun u => encode (print u)) = encode ('[' :: (writeSep print true l ++ [']'])) := by
  have hcomma : ascii "," = [byteOf ','] := by decide
  have hfold (items : List (List UInt8)) (out : List UInt8) :
      items.foldl (fun out item => out ++ item ++ ascii ",") out = out ++ items.flatMap fun i => i ++ ascii "," := by
    induction items generalizing out with
    | nil => simp
    | cons i items ih =>
      rw [List.foldl_cons, ih, List.flatMap_cons, List.append_assoc, List.append_assoc, List.append_assoc]
  have hdrop : dropComma (ascii "[" ++ (l.map fun u => encode (print u)).flatMap fun i => i ++ ascii ",") =
      ascii "[" ++ encode (writeSep print true l) := by
    rw [← intercalate_encode]
    cases l with
    | nil =>
      have hopen : dropComma (ascii "[") = ascii "[" := by decide
      simpa using hopen
    | cons a l =>
      rw [List.map_cons, hcomma, flatMap_comma, ← List.append_assoc]
      simp [dropComma, Function.comp_def]
  rw [listText, hfold, hdrop, ascii, ascii, ← encode_append, ← encode_append]
  simp

/-- Compounds in brackets are read as a list. -/
theorem reads_listText {n : Nat} (l : List ι) {val : ι → NbtValue}
    (hprint : ∀ u ∈ l, ∃ c t, print u = '{' :: c :: t ∧ c ≠ ';')
    (hl : ∀ u ∈ l, ReadsText (value F n) (print u) (val u)) :
    ReadsText (value F (n + 1)) ('[' :: (writeSep print true l ++ [']'])) (.list (l.map val)) := by
  intro p t h hd
  have hopen : p.rest = encode ('[' :: (writeSep print true l ++ ']' :: t)) := by
    rw [h]
    simp
  have hrest := Parser.rest_adv_char rfl hopen
  have hhead : ∀ u ∈ l, ∃ c t, print u = c :: t ∧ (c = '{' ∨ c = '[' ∨ c = '"' ∨ isBareChar c = true) := by
    intro u hu
    obtain ⟨c, t, hc, -⟩ := hprint u hu
    exact ⟨'{', c :: t, hc, .inl rfl⟩
  rw [value_of_head n (by decide) (by decide) hopen, if_neg (by decide), if_pos rfl,
    list_or_array_list F (value F n) hopen, list_items l hhead hl hrest, adv_cons (c := '[') rfl]
  -- no semicolon stands where a typed array has one
  intro a s has _
  cases l with
  | nil =>
    obtain rfl := (List.cons.inj has).2
    exact hd.not_semi
  | cons u l =>
    obtain ⟨c, t, hc, hne⟩ := hprint u List.mem_cons_self
    rw [writeSep_true_cons, hc] at has
    rw [← (List.cons.inj has).2]
    simpa using hne

end Texts

/-! ## Parameters -/

/-- The compound a selected player stands for. -/
def PlayerResult.meaning (p : PlayerResult) : NbtValue :=
  .compound [("id", .long p.rawID), ("name", .string (r p.name)), ("uuid", .string (r p.uuid)),
    ("xuid", .string (r p.xuid))]

def ActorResult.meaning (a : ActorResult) : NbtValue :=
  .compound [("id", .long a.rawID), ("type", .string (r a.typeName))]

/-- The value a parameter stands for, where it is given and no float. -/
def ParamValue.meaning : ParamValue → Option NbtValue
  | .int v | .dimension v => some (.int v)
  | .bool v => some (.byte (if v then 1 else 0))
  | .string v | .softEnum v | .rawText v | .jsonValue v | .blockName v | .filePath v | .enum v => some (.string (r v))
  | .actor results => some (.list ((results.filterMap id).map ActorResult.meaning))
  | .player results => some (.list ((results.filterMap id).map PlayerResult.meaning))
  | .blockPos x y z => some (.compound [("x", .int x), ("y", .int y), ("z", .int z)])
  | .message v | .actorType v => v.map fun t => .string (r t)
  | .item id aux name => some (.compound [("aux", .int aux), ("id", .int id), ("name", .string (r name))])
  | .effect v => v.map fun e => .compound [("id", .int e.1), ("name", .string (r e.2))]
  | .command present => if present then some (.byte 1) else none
  | .float _ | .vec3 _ _ _ | .relativeFloat _ _ => none

def IsUtf8 (v : List UInt8) : Prop := ∃ t, v = encode t

/-- No float is printed and the texts are UTF-8. -/
def ParamValue.Plain : ParamValue → Prop
  | .int _ | .bool _ | .dimension _ | .blockPos _ _ _ | .command _ => True
  | .string v | .softEnum v | .rawText v | .jsonValue v | .blockName v | .filePath v | .enum v => IsUtf8 v
  | .actor results => ∀ a ∈ results.filterMap id, IsUtf8 a.typeName
  | .player results => ∀ p ∈ results.filterMap id, IsUtf8 p.name ∧ IsUtf8 p.xuid ∧ IsUtf8 p.uuid
  | .message v | .actorType v => ∀ t ∈ v, IsUtf8 t
  | .item _ _ name => IsUtf8 name
  | .effect v => ∀ e ∈ v, IsUtf8 e.2
  | .float _ | .vec3 _ _ _ | .relativeFloat _ _ => False

section Params

variable {F : Floats}

/-- The bytes are a text that is read as the value, whatever is left of the fuel. -/
def ReadAs (F : Floats) (k : Nat) (bytes : List UInt8) (v : NbtValue) : Prop :=
  ∃ text, bytes = encode text ∧ ∀ n, ReadsText (value F (n + k)) text v

theorem readAs_quoted {v : List UInt8} (hv : IsUtf8 v) : ReadAs F 1 (quoted v) (.string (r v)) := by
  obtain ⟨t, rfl⟩ := hv
  refine ⟨_, quoted_encode t, fun n => ?_⟩
  rw [r_encode]
  exact reads_text n t

theorem ReadAs.mono {k k' : Nat} {bytes : List UInt8} {v : NbtValue} (h : ReadAs F k bytes v) (hk : k ≤ k') :
    ReadAs F k' bytes v := by
  obtain ⟨text, hb, hr⟩ := h
  obtain ⟨d, rfl⟩ := Nat.exists_eq_add_of_le hk
  exact ⟨text, hb, fun n => by rw [show n + (k + d) = n + d + k by omega]; exact hr (n + d)⟩

theorem readAs_int (v : Int32) : ReadAs F 1 (num v.toInt) (.int v) := ⟨_, rfl, fun n => reads_int n v⟩

theorem readAs_flag (v : Bool) : ReadAs F 1 (ascii (if v then "1b" else "0b")) (.byte (if v then 1 else 0)) := by
  refine ⟨if v then ['1', 'b'] else ['0', 'b'], ?_, fun n => reads_flag n v⟩
  cases v <;> rfl

/-- Entries of the bridge's own keys in braces. -/
theorem readAs_bareText (e : Entry) (l : List Entry)
    (hl : ∀ u ∈ e :: l, ∀ n, ReadsText (value F (n + 1)) u.text u.value) :
    ReadAs F 2 (encode (bareText (e :: l))) (.compound (mapOf (e :: l))) :=
  ⟨_, rfl, fun n => reads_bareText e l fun u hu => hl u hu n⟩

theorem bareText_head (e : Entry) (l : List Entry) : ∃ c t, bareText (e :: l) = '{' :: c :: t ∧ c ≠ ';' := by
  obtain ⟨c, t, hc, hcb⟩ := writeKey_head e.key
  refine ⟨c, _, by rw [bareText, writeSep_true_cons, Entry.printBare, hc]; rfl, ?_⟩
  rintro rfl
  exact absurd hcb (by decide)

def quotedEntry (key : String) (v : List UInt8) : Entry := ⟨key, write_quoted (r v), .string (r v)⟩

def intEntry (key : String) (v : Int32) : Entry := ⟨key, Decimal.print v.toInt, .int v⟩

def longEntry (key : String) (v : Int64) : Entry := ⟨key, Decimal.print v.toInt ++ ['l'], .long v⟩

theorem reads_quotedEntry (key : String) (v : List UInt8) (n : Nat) :
    ReadsText (value F (n + 1)) (quotedEntry key v).text (quotedEntry key v).value := by
  have := reads_text (F := F) n (r v).toList
  rwa [String.ofList_toList] at this

/-- The bytes are a compound of these fields, the first of which is there. -/
structure Fields (F : Floats) (bytes : List UInt8) (meaning : NbtValue) (e : Entry) (l : List Entry) : Prop where
  text : bytes = encode (bareText (e :: l))
  map : meaning = .compound (mapOf (e :: l))
  reads : ∀ u ∈ e :: l, ∀ n, ReadsText (value F (n + 1)) u.text u.value

theorem Fields.readAs {bytes : List UInt8} {meaning : NbtValue} {e : Entry} {l : List Entry}
    (h : Fields F bytes meaning e l) : ReadAs F 2 bytes meaning := by
  rw [h.text, h.map]
  exact readAs_bareText e l h.reads

/-- The bridge's own keys need no quotes. -/
theorem writeKey_own {key : String}
    (h : key ∈ ["args", "aux", "id", "name", "overload", "type", "uuid", "x", "xuid", "y", "z"]) :
    writeKey key = key.toList := by
  simp only [List.mem_cons, List.not_mem_nil, or_false] at h
  rcases h with rfl | rfl | rfl | rfl | rfl | rfl | rfl | rfl | rfl | rfl | rfl <;> rfl

theorem quoted_eq {v : List UInt8} (hv : IsUtf8 v) : quoted v = encode (write_quoted (r v)) := by
  obtain ⟨t, rfl⟩ := hv
  rw [quoted_encode, r_encode]

theorem fields_player {p : PlayerResult} (hn : IsUtf8 p.name) (hx : IsUtf8 p.xuid) (hu : IsUtf8 p.uuid) :
    Fields F p.text p.meaning (quotedEntry "name" p.name)
      [quotedEntry "xuid" p.xuid, quotedEntry "uuid" p.uuid, longEntry "id" p.rawID] where
  text := by
    simp (disch := decide) only [PlayerResult.text, quoted_eq hn, quoted_eq hx, quoted_eq hu, ascii, num,
      ← encode_append, bareText, writeSep_true_cons, writeSep_false_cons, Entry.printBare, quotedEntry, longEntry,
      writeKey_own]
    simp [writeSep]
  map := by simp only [PlayerResult.meaning, mapOf, quotedEntry, longEntry, List.foldl_cons, List.foldl_nil,
    insertEntry, String.reduceLT, String.reduceEq, ↓reduceIte]
  reads := by
    simp only [List.mem_cons, List.not_mem_nil, or_false, forall_eq_or_imp, forall_eq]
    exact ⟨reads_quotedEntry _ _, reads_quotedEntry _ _, reads_quotedEntry _ _, fun n => reads_long n p.rawID⟩

theorem fields_actor {a : ActorResult} (hn : IsUtf8 a.typeName) :
    Fields F a.text a.meaning (longEntry "id" a.rawID) [quotedEntry "type" a.typeName] where
  text := by
    simp (disch := decide) only [ActorResult.text, quoted_eq hn, ascii, num, ← encode_append, bareText,
      writeSep_true_cons, writeSep_false_cons, Entry.printBare, quotedEntry, longEntry, writeKey_own]
    simp [writeSep]
  map := by simp only [ActorResult.meaning, mapOf, quotedEntry, longEntry, List.foldl_cons, List.foldl_nil, insertEntry,
    String.reduceLT, String.reduceEq, ↓reduceIte]
  reads := by
    simp only [List.mem_cons, List.not_mem_nil, or_false, forall_eq_or_imp, forall_eq]
    exact ⟨fun n => reads_long n a.rawID, reads_quotedEntry _ _⟩

theorem fields_blockPos (x y z : Int32) :
    Fields F (ascii "\x7bx:" ++ num x.toInt ++ ascii ",y:" ++ num y.toInt ++ ascii ",z:" ++ num z.toInt ++ ascii "\x7d")
      (.compound [("x", .int x), ("y", .int y), ("z", .int z)]) (intEntry "x" x) [intEntry "y" y, intEntry "z" z] where
  text := by
    simp (disch := decide) only [ascii, num, ← encode_append, bareText, writeSep_true_cons, writeSep_false_cons,
      Entry.printBare, intEntry, writeKey_own]
    simp [writeSep]
  map := by simp only [mapOf, intEntry, List.foldl_cons, List.foldl_nil, insertEntry, String.reduceLT, String.reduceEq,
    ↓reduceIte]
  reads := by
    simp only [List.mem_cons, List.not_mem_nil, or_false, forall_eq_or_imp, forall_eq]
    exact ⟨fun n => reads_int n x, fun n => reads_int n y, fun n => reads_int n z⟩

theorem fields_item (id aux : Int32) {name : List UInt8} (hn : IsUtf8 name) :
    Fields F (ascii "\x7bid:" ++ num id.toInt ++ ascii ",aux:" ++ num aux.toInt ++ ascii ",name:" ++ quoted name ++
        ascii "\x7d")
      (.compound [("aux", .int aux), ("id", .int id), ("name", .string (r name))]) (intEntry "id" id)
      [intEntry "aux" aux, quotedEntry "name" name] where
  text := by
    simp (disch := decide) only [quoted_eq hn, ascii, num, ← encode_append, bareText, writeSep_true_cons,
      writeSep_false_cons, Entry.printBare, intEntry, quotedEntry, writeKey_own]
    simp [writeSep]
  map := by simp only [mapOf, intEntry, quotedEntry, List.foldl_cons, List.foldl_nil, insertEntry, String.reduceLT,
    String.reduceEq, ↓reduceIte]
  reads := by
    simp only [List.mem_cons, List.not_mem_nil, or_false, forall_eq_or_imp, forall_eq]
    exact ⟨fun n => reads_int n id, fun n => reads_int n aux, reads_quotedEntry _ _⟩

theorem fields_effect (id : Int32) {name : List UInt8} (hn : IsUtf8 name) :
    Fields F (ascii "\x7bid:" ++ num id.toInt ++ ascii ",name:" ++ quoted name ++ ascii "\x7d")
      (.compound [("id", .int id), ("name", .string (r name))]) (intEntry "id" id) [quotedEntry "name" name] where
  text := by
    simp (disch := decide) only [quoted_eq hn, ascii, num, ← encode_append, bareText, writeSep_true_cons,
      writeSep_false_cons, Entry.printBare, intEntry, quotedEntry, writeKey_own]
    simp [writeSep]
  map := by simp only [mapOf, intEntry, quotedEntry, List.foldl_cons, List.foldl_nil, insertEntry, String.reduceLT,
    String.reduceEq, ↓reduceIte]
  reads := by
    simp only [List.mem_cons, List.not_mem_nil, or_false, forall_eq_or_imp, forall_eq]
    exact ⟨fun n => reads_int n id, reads_quotedEntry _ _⟩

/-- A list of such compounds. -/
theorem readAs_listText {ι : Type} (l : List ι) {bytes : ι → List UInt8} {meaning : ι → NbtValue}
    (hl : ∀ u ∈ l, ∃ e es, Fields F (bytes u) (meaning u) e es) :
    ReadAs F 3 (listText (l.map bytes)) (.list (l.map meaning)) := by
  -- the characters behind the bytes, item by item
  have htexts : ∃ texts : List (List Char × NbtValue), l.map bytes = texts.map (fun u => encode u.1) ∧
      l.map meaning = texts.map Prod.snd ∧ ∀ u ∈ texts, (∃ c t, u.1 = '{' :: c :: t ∧ c ≠ ';') ∧
        ∀ n, ReadsText (value F (n + 2)) u.1 u.2 := by
    induction l with
    | nil => exact ⟨[], rfl, rfl, by simp⟩
    | cons u l ih =>
      obtain ⟨texts, hb, hm, ht⟩ := ih fun w hw => hl w (.tail _ hw)
      obtain ⟨e, es, hf⟩ := hl u (.head _)
      refine ⟨(bareText (e :: es), .compound (mapOf (e :: es))) :: texts, ?_, ?_, ?_⟩
      · rw [List.map_cons, List.map_cons, hb, hf.text]
      · rw [List.map_cons, List.map_cons, hm, hf.map]
      · rw [List.forall_mem_cons]
        exact ⟨⟨bareText_head e es, fun n => reads_bareText e es fun w hw => hf.reads w hw n⟩, ht⟩
  obtain ⟨texts, hb, hm, ht⟩ := htexts
  rw [hb, hm, listText_encode]
  exact ⟨_, rfl, fun n => reads_listText texts (fun u hu => (ht u hu).1) fun u hu => (ht u hu).2 n⟩

variable (snbtNum : F32 → List UInt8)

/-- A plain parameter has a text where it has a meaning, and the text is read as that. -/
theorem text_of_plain {p : ParamValue} (hp : p.Plain) :
    p.text snbtNum = none ∧ p.meaning = none ∨
      ∃ bytes v, p.text snbtNum = some bytes ∧ p.meaning = some v ∧ ReadAs F 3 bytes v := by
  have hsome {bytes : List UInt8} {v : NbtValue} {k : Nat} (h : ReadAs F k bytes v) (hk : k ≤ 3) :
      ∃ bytes' v', some bytes = some bytes' ∧ some v = some v' ∧ ReadAs F 3 bytes' v' :=
    ⟨_, _, rfl, rfl, h.mono hk⟩
  cases p with
  | int v | dimension v => exact .inr (hsome (readAs_int v) (by decide))
  | bool v => exact .inr (hsome (readAs_flag v) (by decide))
  | string v | softEnum v | rawText v | jsonValue v | blockName v | filePath v | enum v =>
    exact .inr (hsome (readAs_quoted hp) (by decide))
  | actor results => exact .inr (hsome (readAs_listText _ fun a ha => ⟨_, _, fields_actor (hp a ha)⟩) (by decide))
  | player results =>
    refine .inr (hsome (readAs_listText _ fun p hm => ?_) (by decide))
    obtain ⟨hn, hx, hu⟩ := hp p hm
    exact ⟨_, _, fields_player hn hx hu⟩
  | blockPos x y z => exact .inr (hsome (fields_blockPos x y z).readAs (by decide))
  | message v | actorType v =>
    cases v with
    | none => exact .inl ⟨rfl, rfl⟩
    | some t => exact .inr (hsome (readAs_quoted (hp t rfl)) (by decide))
  | item id aux name => exact .inr (hsome (fields_item id aux hp).readAs (by decide))
  | effect v =>
    cases v with
    | none => exact .inl ⟨rfl, rfl⟩
    | some e => exact .inr (hsome (fields_effect e.1 (hp e rfl)).readAs (by decide))
  | command present =>
    cases present with
    | false => exact .inl ⟨rfl, rfl⟩
    | true => exact .inr (hsome (readAs_flag true) (by decide))
  | float v => exact absurd hp id
  | vec3 x y z => exact absurd hp id
  | relativeFloat offset relative => exact absurd hp id

end Params

/-! ## The compound of the executor -/

/-- What a parameter's name is to mean: what the engine parsed for it, if the
overload declares it as such. -/
def intended (decls : List ParamDecl) (rt : RuntimeCommand) (name : String) : Option NbtValue :=
  (rt name).bind fun p => if ∃ d ∈ decls, d.name = name ∧ d.kind = p.kind then p.meaning else none

section Compound

variable {F : Floats} {snbtNum : F32 → List UInt8}

/-- Where the entries under a key all say the same, the map says that. -/
theorem lookup_mapOf {l : List Entry} {key : String} {v : Option NbtValue}
    (hsame : ∀ u ∈ l, u.key = key → some u.value = v) (hsome : v.isSome → ∃ u ∈ l, u.key = key) :
    (mapOf l).lookup key = v := by
  suffices ∀ l : List Entry, (∀ u ∈ l, u.key = key → some u.value = v) →
      (mapOf l).lookup key = if ∃ u ∈ l, u.key = key then v else none by
    rw [this l hsame]
    split_ifs with h
    · rfl
    · cases v with
      | none => rfl
      | some v => exact absurd (hsome rfl) h
  intro l hsame
  induction l using List.reverseRecOn with
  | nil => simp [mapOf]
  | append_singleton l e ih =>
    have hmap : mapOf (l ++ [e]) = insertEntry e.key e.value (mapOf l) := by simp [mapOf]
    have hl := ih fun u hu => hsame u (by simp [hu])
    rw [hmap]
    by_cases he : e.key = key
    · subst he
      rw [lookup_insertEntry, if_pos ⟨e, by simp, rfl⟩]
      exact hsame e (by simp) rfl
    · rw [lookup_insertEntry_of_ne (Ne.symm he), hl]
      simp [he, or_and_right, exists_or]

/-- The entries of the arguments, as texts. -/
theorem entries_of_arguments (args : List (Argument snbtNum)) (hplain : ∀ a ∈ args, a.value.Plain) :
    ∃ entries : List Entry, args.map (Argument.entry snbtNum) = entries.map (fun u => encode u.print) ∧
      (args.map fun a => (a.decl.name, a.value.meaning)) = (entries.map fun u => (u.key, some u.value)) ∧
      ∀ u ∈ entries, ∀ n, ReadsText (value F (n + 3)) u.text u.value := by
  induction args with
  | nil => exact ⟨[], rfl, rfl, by simp⟩
  | cons a args ih =>
    obtain ⟨entries, hb, hm, hr⟩ := ih fun b hb => hplain b (.tail _ hb)
    obtain ⟨hnone, -⟩ | ⟨bytes, v, hbytes, hv, text, htext, hread⟩ :=
      text_of_plain (F := F) snbtNum (hplain a (.head _))
    · rw [a.written] at hnone
      cases hnone
    · rw [a.written] at hbytes
      cases hbytes
      refine ⟨⟨a.decl.name, text, v⟩ :: entries, ?_, ?_, ?_⟩
      · rw [List.map_cons, List.map_cons, hb, Argument.entry, keyText, ascii, ascii, quoted_encode, htext,
          String.ofList_toList, ← encode_append, ← encode_append, Entry.print, entryText]
        simp
      · rw [List.map_cons, List.map_cons, hm, hv]
      · rw [List.forall_mem_cons]
        exact ⟨hread, hr⟩

/-- The two entries of the compound. -/
def overloadEntry (idx : Nat) : Entry := ⟨"overload", Decimal.print idx, bareNumber (Int64.ofNat idx)⟩

def argsEntry (entries : List Entry) : Entry := ⟨"args", bracedText entries, .compound (mapOf entries)⟩

theorem compoundText_eq (idx : Nat) {args : List (Argument snbtNum)} {entries : List Entry}
    (h : args.map (Argument.entry snbtNum) = entries.map fun u => encode u.print) :
    compoundText snbtNum idx args = encode (bareText [overloadEntry idx, argsEntry entries]) := by
  rw [compoundText, h, intercalate_encode]
  simp (disch := decide) only [ascii, num, ← encode_append, bareText, bracedText, writeSep_true_cons,
    writeSep_false_cons, Entry.printBare, overloadEntry, argsEntry, writeKey_own]
  simp [writeSep]

theorem reads_overloadEntry (n : Nat) {idx : Nat} (h : idx < 9223372036854775808) :
    ReadsText (value F (n + 1)) (overloadEntry idx).text (overloadEntry idx).value := by
  have hv : (Int64.ofNat idx).toInt = idx := Int64.toInt_ofNat_of_lt h
  have := reads_bare (F := F) n (Int64.ofNat idx)
  rwa [hv] at this

variable (snbtNum) in
/-- The compound is read as the index and the intended map, and nothing else. -/
theorem parse_arguments {idx : Nat} (hidx : idx < 9223372036854775808) (decls : List ParamDecl) (rt : RuntimeCommand)
    (origin : CommandOrigin) (hplain : ∀ d ∈ decls, ∀ p, rt d.name = some p → p.kind = d.kind → p.Plain) :
    ∃ map, NbtValue.parse F (r (arguments snbtNum (.params idx decls) rt origin).1) =
        .ok (.compound [("args", .compound map), ("overload", bareNumber (Int64.ofNat idx))]) ∧
      (map.Pairwise fun a b => a.1 < b.1) ∧ ∀ key, map.lookup key = intended decls rt key := by
  obtain ⟨args, hargs, heq⟩ := arguments_params snbtNum idx decls rt origin
  have hvalue {a : Argument snbtNum} (ha : a ∈ args) : a.value.Plain := by
    obtain ⟨hd, hv⟩ := (hargs a).mp ha
    exact hplain a.decl hd a.value hv a.kind
  obtain ⟨entries, hb, hm, hr⟩ := entries_of_arguments (F := F) args fun a ha => hvalue ha
  refine ⟨mapOf entries, ?_, Forms.mapOf_sorted entries, fun key => lookup_mapOf (fun u hu hkey => ?_) fun hsome => ?_⟩
  · rw [heq, compoundText_eq idx hb, Forms.parse_bareText_of_le 4]
    · simp only [mapOf, overloadEntry, argsEntry, List.foldl_cons, List.foldl_nil, insertEntry, String.reduceLT,
        ↓reduceIte]
    · simp (disch := decide) only [bareText, writeSep_true_cons, Entry.printBare, overloadEntry, writeKey_own]
      simp
    · intro n u hu
      simp only [List.mem_cons, List.not_mem_nil, or_false] at hu
      rcases hu with rfl | rfl
      · exact reads_overloadEntry (n + 3) hidx
      · exact reads_bracedText entries fun u hu => hr u hu n
  · -- an entry is an argument, and an argument is declared and given
    have hmem : (u.key, some u.value) ∈ args.map fun a => (a.decl.name, a.value.meaning) := by
      rw [hm]
      exact List.mem_map.mpr ⟨u, hu, rfl⟩
    obtain ⟨a, ha, hau⟩ := List.mem_map.mp hmem
    obtain ⟨hname, hmeaning⟩ := Prod.mk.inj hau
    obtain ⟨hd, hv⟩ := (hargs a).mp ha
    rw [hname, hkey] at hv
    rw [intended, hv, Option.bind_some, if_pos ⟨a.decl, hd, hname.trans hkey, a.kind.symm⟩, hmeaning]
  · obtain ⟨v, hv⟩ := Option.isSome_iff_exists.mp hsome
    obtain ⟨p, hp, hif⟩ := Option.bind_eq_some_iff.mp hv
    split_ifs at hif with hd
    obtain ⟨d, hd, rfl, hk⟩ := hd
    obtain ⟨-, hnone⟩ | ⟨bytes, -, hbytes, -, -⟩ := text_of_plain (F := F) snbtNum (hplain d hd p hp hk.symm)
    · rw [hif] at hnone
      cases hnone
    · have ha := (hargs ⟨d, p, hk.symm, bytes, hbytes⟩).mpr ⟨hd, hp⟩
      have hmem := List.mem_map_of_mem (f := fun a => (a.decl.name, a.value.meaning)) ha
      rw [hm] at hmem
      obtain ⟨u, hu, hue⟩ := List.mem_map.mp hmem
      exact ⟨u, hu, (Prod.mk.inj hue).1⟩

theorem parse_quoted (F : Floats) (s : String) : NbtValue.parse F (r (quoted (encode s.toList))) = .ok (.string s) := by
  rw [quoted_encode, r_encode, String.ofList_toList]
  refine parse_of_reads (by simp [write_quoted, isWsChar]) ?_
  have := reads_text (F := F) (encode (write_quoted s)).length s.toList
  rwa [String.ofList_toList] at this

/-- A text of bare characters is read as its token. -/
theorem parse_token (F : Floats) {token : List Char} (hb : token.all isBareChar = true) (hne : token ≠ []) :
    NbtValue.parse F (r (encode token)) = .ok (tokenValue F token) := by
  rw [r_encode]
  refine parse_of_reads (fun c hc => ?_) (reads_token _ hb hne)
  exact isWsChar_of_isBareChar (List.all_eq_true.mp hb c (List.mem_of_mem_head? hc))

/-- An escaped text in quotes is the text, a printed number the number, and the
compound of a command's arguments the index and the intended map. -/
theorem arguments_mean_themselves (F : Floats) (snbtNum : F32 → List UInt8) :
    (∀ s : String, NbtValue.parse F (r (quoted (encode s.toList))) = .ok (.string s)) ∧
    (∀ v : Int64, (∃ u, NbtValue.parse F (r (num v.toInt)) = .ok u ∧ u.as_i64 F = some v) ∧
      NbtValue.parse F (r (num v.toInt ++ ascii "l")) = .ok (.long v)) ∧
    ∀ idx < 9223372036854775808, ∀ (decls : List ParamDecl) (rt : RuntimeCommand) (origin : CommandOrigin),
      (∀ d ∈ decls, ∀ p, rt d.name = some p → p.kind = d.kind → p.Plain) →
      ∃ overload map, NbtValue.parse F (r (arguments snbtNum (.params idx decls) rt origin).1) =
          .ok (.compound [("args", .compound map), ("overload", overload)]) ∧
        overload.as_i64 F = some (Int64.ofNat idx) ∧ (map.Pairwise fun a b => a.1 < b.1) ∧
        ∀ key, map.lookup key = intended decls rt key := by
  refine ⟨parse_quoted F, fun v => ⟨⟨bareNumber v, ?_, as_i64_bareNumber F v⟩, ?_⟩,
    fun idx hidx decls rt origin hplain => ?_⟩
  · rw [num, parse_token F (print_bare _) (Decimal.print_ne_nil _), tokenValue_bare]
  · have hl : num v.toInt ++ ascii "l" = encode (Decimal.print v.toInt ++ ['l']) := (encode_append _ _).symm
    rw [hl, parse_token F (numeral_bare _ ['l'] rfl) (by simp), tokenValue_long rfl]
  · obtain ⟨map, hparse, hsorted, hlookup⟩ := parse_arguments (F := F) snbtNum hidx decls rt origin hplain
    exact ⟨_, map, hparse, as_i64_bareNumber F _, hsorted, hlookup⟩

end Compound

/-! ## A text that looks like a field -/

/-- `say` with a text that goes on as a field would. -/
def sayDecls : List ParamDecl := [⟨"text", .string, "", false⟩]

def sayText : String := "hi\",count:9b,x:\""

def sayRt : RuntimeCommand := fun name => if name = "text" then some (.string (encode sayText.toList)) else none

theorem arguments_mean_themselves_say : ∃ overload map,
    NbtValue.parse noFloats (r (arguments noDigits (.params 2 sayDecls) sayRt ⟨[], 0, none⟩).1) =
      .ok (.compound [("args", .compound map), ("overload", overload)]) ∧
    map.lookup "text" = some (.string sayText) ∧ map.lookup "count" = none := by
  obtain ⟨-, -, hcompound⟩ := arguments_mean_themselves noFloats noDigits
  obtain ⟨overload, map, hparse, -, -, hlookup⟩ := hcompound 2 (by decide) sayDecls sayRt ⟨[], 0, none⟩ (by
    intro d hd p hp _
    obtain rfl := List.mem_singleton.mp hd
    cases hp
    exact ⟨_, rfl⟩)
  refine ⟨overload, map, hparse, ?_, ?_⟩
  · have htext : intended sayDecls sayRt "text" = some (.string (r (encode sayText.toList))) := rfl
    rw [hlookup, htext, r_encode, String.ofList_toList]
  · rw [hlookup]
    rfl

end CommandForms
