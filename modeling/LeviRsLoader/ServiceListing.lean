import LeviRsLoader.HookPayload
import LeviRsLoader.Lib.Json
import LeviRsLoader.ServiceRuns

/-!
# Listing the services

`api_service_list` puts a JSON text together with the escaper made for SNBT,
and `service.rs` reads it with a strict JSON parser. The two agree on every
name without control characters, but for the three the escaper knows.
-/
namespace ServiceListing

open LeviRs Services ServiceRuns Utf8 HookCancel HookPayload Runs

/-- What a `std::string_view` made of `c_str()` covers. -/
def cStr (s : List UInt8) : List UInt8 := s.takeWhile fun b => b ≠ 0

section List_

-- `RustMod::getName`, a text from the manifest
variable (getName : ModId → String)

def entryText (name owner : List UInt8) : List UInt8 :=
  ascii "\x7b\"name\":\"" ++ snbtEscape name ++ ascii "\",\"mod\":\"" ++ snbtEscape owner ++ ascii "\"\x7d"

/-- One round of the loop over `gByName`: the text so far, and whether it is the first. -/
def listOne (s : Registry) (acc : List UInt8 × Bool) (e : Sigma fun _ : String => Nat) : List UInt8 × Bool :=
  match s.gServices.lookup e.2 with
  | none => acc
  | some svc =>
    ((if acc.2 then acc.1 else acc.1 ++ ascii ",") ++
      entryText (encode e.1.toList) (cStr (encode (getName svc.mod).toList)), false)

def api_service_list (s : Registry) : List UInt8 :=
  (s.gByName.entries.foldl (listOne getName s) (ascii "[", true)).1 ++ ascii "]"

def list_json (s : Registry) : String := r (api_service_list getName s)

end List_

/-- `service::exists` on the text of the list. -/
def exists_ {α : Type} (from_str : String → Option (Json.Value α)) (name text : String) : Bool :=
  (((from_str text).bind Json.Value.asArray).map fun a =>
    a.any fun s => decide ((s.get "name").bind Json.Value.asString = some name)).getD false

/-! ## The text -/

/-- A text up to the character that ends a C string. -/
def cut (t : String) : String := String.ofList (t.toList.takeWhile fun c => c ≠ '\x00')

theorem cStr_encode (t : List Char) : cStr (encode t) = encode (t.takeWhile fun c => c ≠ '\x00') := by
  induction t with
  | nil => rfl
  | cons c t ih =>
    by_cases hc : c = '\x00'
    · subst hc
      rfl
    · have hb : ∀ b ∈ String.utf8EncodeChar c, b ≠ 0 := by
        rintro b hm rfl
        exact hc ((byteOf_mem_encodeChar (d := '\x00') rfl).mp hm)
      rw [encode_cons, cStr, List.takeWhile_append_of_pos (by simpa using hb),
        List.takeWhile_cons_of_pos (by simpa using hc), encode_cons, ← ih]
      rfl

/-- The characters of an entry, between its braces. -/
def entryChars (p : String × String) : List Char :=
  '"' :: ("name".toList ++ '"' :: ':' :: Nbt.write_quoted p.1) ++
    ',' :: '"' :: ("mod".toList ++ '"' :: ':' :: Nbt.write_quoted p.2)

def printEntry (p : String × String) : List Char := '{' :: (entryChars p ++ ['}'])

/-- The characters of the whole list. -/
def listChars : List (String × String) → List Char
  | [] => ['[', ']']
  | p :: l => '[' :: (printEntry p ++ (l.flatMap fun p => ',' :: printEntry p) ++ [']'])

theorem entryText_encode (name owner : String) :
    entryText (encode name.toList) (cStr (encode owner.toList)) = encode (printEntry (name, cut owner)) := by
  simp only [entryText, cStr_encode, ascii, snbtEscape_encode, ← encode_append, printEntry, entryChars,
    Nbt.write_quoted, cut]
  simp

section Text

variable (getName : ModId → String) (s : Registry)

/-- The services in the order of the walk, as they are printed. -/
def printed : List (String × String) :=
  s.gByName.entries.filterMap fun e => (s.gServices.lookup e.2).map fun svc => (e.1, cut (getName svc.mod))

theorem foldl_listOne (es : List (Sigma fun _ : String => Nat)) (out : List UInt8) :
    (es.foldl (listOne getName s) (out, false)).1 = out ++ encode ((es.filterMap fun e =>
      (s.gServices.lookup e.2).map fun svc => (e.1, cut (getName svc.mod))).flatMap fun p => ',' :: printEntry p) := by
  induction es generalizing out with
  | nil => simp
  | cons e es ih =>
    rw [List.foldl_cons, listOne]
    cases hl : s.gServices.lookup e.2 with
    | none => simpa [hl] using ih out
    | some svc =>
      have hcomma : ascii "," = encode [','] := rfl
      simp [hl, ih, entryText_encode, hcomma, ← encode_append]

theorem list_json_eq : list_json getName s = String.ofList (listChars (printed getName s)) := by
  have hopen : ascii "[" = encode ['['] := rfl
  have hclose : ascii "]" = encode [']'] := rfl
  suffices api_service_list getName s = encode (listChars (printed getName s)) by rw [list_json, this, r_encode]
  rw [api_service_list, printed]
  induction s.gByName.entries with
  | nil => rfl
  | cons e es ih =>
    rw [List.foldl_cons, listOne]
    cases hl : s.gServices.lookup e.2 with
    | none => simpa [hl] using ih
    | some svc =>
      simp only [if_true, foldl_listOne, entryText_encode, hopen, hclose, List.filterMap_cons, hl, Option.map_some,
        listChars, ← encode_append]
      simp

end Text

/-! ## Reading it -/

/-- What the escaper makes of the character may stand in a JSON string. -/
def sayable (c : Char) : Bool := 0x20 ≤ c.toNat || c == '\n' || c == '\r' || c == '\t'

/-- No control character but the three the escaper knows. -/
def Sayable (t : String) : Prop := ∀ c ∈ t.toList, sayable c = true

theorem sayable_iff (t : String) : t.toList.all sayable = true ↔ Sayable t := List.all_eq_true

instance (t : String) : Decidable (Sayable t) := decidable_of_iff _ (sayable_iff t)

/-- The escapes of SNBT are escapes of JSON. -/
theorem escapes_escapeChar : Json.Escapes Nbt.escapeChar sayable where
  ne_nil c := by
    rcases Nbt.escapeChar_cases c with ⟨e, he, -, -⟩ | ⟨he, -, -⟩ <;> simp [he]
  reads c n t := by
    by_cases hspecial : c ∈ ['"', '\\', '\n', '\r', '\t']
    · simp only [List.mem_cons, List.not_mem_nil, or_false] at hspecial
      rcases hspecial with rfl | rfl | rfl | rfl | rfl <;> exact Json.stringLoop_escape rfl n t
    · simp only [List.mem_cons, List.not_mem_nil, or_false, not_or] at hspecial
      obtain ⟨hq, hb, hn, hr, ht⟩ := hspecial
      have hcopy : Nbt.escapeChar c = [c] := by simp [Nbt.escapeChar]
      have hsay : sayable c = decide (0x20 ≤ c.toNat) := by
        rw [sayable, beq_eq_false_iff_ne.mpr hn, beq_eq_false_iff_ne.mpr hr, beq_eq_false_iff_ne.mpr ht, Bool.or_false,
          Bool.or_false, Bool.or_false]
      rw [hcopy, List.singleton_append, Json.stringLoop_plain hq hb, hsay]
      by_cases hc : c.toNat < 0x20
      · simp [hc]
      · simp [hc, Nat.not_lt.mp hc]

section Reading

variable {α : Type}

/-- The object an entry stands for, its keys in order. -/
def entryValue (p : String × String) : Json.Value α := .object [("mod", .string p.2), ("name", .string p.1)]

def listing (l : List (String × String)) : Json.Value α := .array (l.map entryValue)

/-- A field of an entry, if its text may be said. -/
def fieldValue (f : String × String) : Option (Json.Value α) := if Sayable f.2 then some (.string f.2) else none

def Clean (p : String × String) : Prop := Sayable p.1 ∧ Sayable p.2

instance (p : String × String) : Decidable (Clean p) := inferInstanceAs (Decidable (_ ∧ _))

def readEntry (p : String × String) : Option (Json.Value α) := if Clean p then some (entryValue p) else none

theorem value_write_quoted (number : List Char → Option α) (depth : Nat) (f : String × String) (t : List Char) :
    Json.value number (depth + 1) (Nbt.write_quoted f.2 ++ t) = (fieldValue f).map (·, t) := by
  have htext : Nbt.write_quoted f.2 ++ t = '"' :: (f.2.toList.flatMap Nbt.escapeChar ++ '"' :: t) := by
    simp [Nbt.write_quoted]
  rw [htext, Json.value_string number escapes_escapeChar]
  simp only [sayable_iff, String.ofList_toList, fieldValue]
  split_ifs <;> rfl

theorem value_printEntry (number : List Char → Option α) (depth : Nat) (p : String × String) (t : List Char) :
    Json.value number (depth + 2) (printEntry p ++ t) = (readEntry p).map (·, t) := by
  have htext : printEntry p ++ t = '{' :: ('"' :: ("name".toList ++ '"' :: ':' :: Nbt.write_quoted p.1) ++
      ([("mod", p.2)].flatMap fun f => ',' :: '"' :: (f.1.toList ++ '"' :: ':' :: Nbt.write_quoted f.2)) ++
        '}' :: t) := by
    simp [printEntry, entryChars]
  have hkey : ∀ f ∈ [("name", p.1), ("mod", p.2)], ∀ t, Json.string (f.1.toList ++ '"' :: t) = some (f.1, t) := by
    simp only [List.mem_cons, List.not_mem_nil, or_false, forall_eq_or_imp, forall_eq]
    exact ⟨fun t => rfl, fun t => rfl⟩
  have hobject := Json.object_fields ("name", p.1) [("mod", p.2)] hkey
    (fun f _ t => value_write_quoted number depth f t) t
  rw [htext, Json.value_object number depth, hobject]
  by_cases h₁ : Sayable p.1
  · by_cases h₂ : Sayable p.2
    · simp only [fieldValue, readEntry, Clean, entryValue, h₁, h₂, and_self, List.foldlM_cons,
        List.foldlM_nil, Option.map_some, Option.pure_def, Option.bind_eq_bind, Option.bind_some, Json.insertMember,
        String.reduceLT, ↓reduceIte]
    · simp [fieldValue, readEntry, Clean, h₁, h₂]
  · simp [fieldValue, readEntry, Clean, h₁]

theorem mapM_readEntry (l : List (String × String)) :
    l.mapM (readEntry : _ → Option (Json.Value α)) =
      if ∀ p ∈ l, Clean p then some (l.map entryValue) else none := by
  induction l with
  | nil => rfl
  | cons p l ih =>
    rw [List.mapM_cons, ih, readEntry]
    by_cases hp : Clean p
    · by_cases hl : ∀ q ∈ l, Clean q
      · rw [if_pos hp, if_pos hl, if_pos (List.forall_mem_cons.mpr ⟨hp, hl⟩)]
        rfl
      · rw [if_pos hp, if_neg hl, if_neg fun h => hl (List.forall_mem_cons.mp h).2]
        rfl
    · rw [if_neg hp, if_neg fun h => hp (List.forall_mem_cons.mp h).1]
      rfl

/-- The list is read whole when every text in it may be said, else not at all. -/
theorem read_listChars (number : List Char → Option α) (depth : Nat) (l : List (String × String)) :
    Json.read number (depth + 3) (String.ofList (listChars l)) =
      if ∀ p ∈ l, Clean p then some (listing l) else none := by
  rw [Json.read, String.toList_ofList]
  cases l with
  | nil =>
    rw [listChars, Json.value_array number (depth + 1)]
    rfl
  | cons p l =>
    have harray := Json.array_items p l ⟨'{', _, rfl, rfl, by decide⟩
      (fun q _ t => value_printEntry number depth q t) []
    rw [listChars, Json.value_array number (depth + 1), harray, mapM_readEntry]
    split_ifs <;> rfl

end Reading

/-! ## The list and the registry -/

section Agree

variable {α : Type} {from_str : String → Option (Json.Value α)} {getName : ModId → String} {s : Registry}

/-- The list decodes to the registered pairs, each once, and `exists` finds the registered names. -/
structure Agrees (from_str : String → Option (Json.Value α)) (getName : ModId → String) (s : Registry) : Prop where
  decodes : ∃ l : List (String × String), from_str (list_json getName s) = some (listing l) ∧ l.Nodup ∧
    ∀ name owner, (name, owner) ∈ l ↔
      ∃ id svc, s.gServices.lookup id = some svc ∧ svc.name = name ∧ getName svc.mod = owner
  finds : ∀ name, exists_ from_str name (list_json getName s) = true ↔
    ∃ id svc, s.gServices.lookup id = some svc ∧ svc.name = name

theorem cut_of_sayable {t : String} (h : Sayable t) : cut t = t := by
  have htake : t.toList.takeWhile (fun c => c ≠ '\x00') = t.toList := by
    rw [List.takeWhile_eq_self_iff]
    intro c hc
    have hs := h c hc
    simp only [ne_eq, decide_eq_true_eq]
    rintro rfl
    exact absurd hs (by decide)
  rw [cut, htake, String.ofList_toList]

theorem listing_injective : Function.Injective (listing (α := α)) := by
  intro l l' h
  have hmap : l.map entryValue = l'.map (entryValue (α := α)) := Json.Value.array.inj h
  refine List.map_injective_iff.mpr (fun p q hpq => ?_) hmap
  simpa [entryValue, Prod.ext_iff, and_comm] using hpq

theorem mem_printed (hs : Sound s) (name owner : String) :
    (name, owner) ∈ printed getName s ↔
      ∃ id svc, s.gServices.lookup id = some svc ∧ svc.name = name ∧ cut (getName svc.mod) = owner := by
  simp only [printed, List.mem_filterMap, Option.map_eq_some_iff, Sigma.exists, ← AList.lookup_eq_some_iff]
  constructor
  · rintro ⟨name', id, hn, svc, hl, he⟩
    obtain ⟨rfl, rfl⟩ := Prod.mk.inj he
    obtain ⟨svc', hl', hname⟩ := (hs.paired _ _).mp hn
    rw [hl] at hl'
    cases hl'
    exact ⟨id, svc, hl, hname, rfl⟩
  · rintro ⟨id, svc, hl, rfl, rfl⟩
    exact ⟨_, id, (hs.paired _ _).mpr ⟨svc, hl, rfl⟩, svc, hl, rfl⟩

theorem nodup_printed (getName : ModId → String) (s : Registry) : (printed getName s).Nodup := by
  have hkeys := List.nodupKeys_iff_pairwise.mp s.gByName.nodupKeys
  refine List.Pairwise.filterMap _ (fun e e' hne p hp p' hp' => ?_) hkeys
  obtain ⟨-, -, rfl⟩ := Option.map_eq_some_iff.mp hp
  obtain ⟨-, -, rfl⟩ := Option.map_eq_some_iff.mp hp'
  exact fun h => hne (Prod.mk.inj h).1

theorem exists_listing {text : String} {l : List (String × String)} (h : from_str text = some (listing l))
    (name : String) : exists_ from_str name text = true ↔ ∃ owner, (name, owner) ∈ l := by
  have hget (p : String × String) : (entryValue (α := α) p).get "name" = some (.string p.1) := rfl
  simp [exists_, h, listing, Json.Value.asArray, hget, Json.Value.asString]

variable {number : List Char → Option α}

theorem read_list_json (hstrict : ∀ text, from_str text = Json.read number 128 text) (getName : ModId → String)
    (s : Registry) :
    from_str (list_json getName s) =
      if ∀ p ∈ printed getName s, Clean p then some (listing (printed getName s)) else none := by
  rw [hstrict, list_json_eq, read_listChars number 125]

/-- The list agrees with the registry exactly when no name of a service or of
its mod holds a control character other than the three that are escaped. -/
theorem agrees_iff_of_sound (hs : Sound s) (hstrict : ∀ text, from_str text = Json.read number 128 text) :
    Agrees from_str getName s ↔
      ∀ id svc, s.gServices.lookup id = some svc → Sayable svc.name ∧ Sayable (getName svc.mod) := by
  have hread := read_list_json hstrict getName s
  constructor
  · rintro ⟨⟨l, hl, -, hmem⟩, -⟩ id svc hlookup
    rw [hread] at hl
    split_ifs at hl with hclean
    obtain rfl := listing_injective (Option.some.inj hl)
    exact hclean _ ((hmem _ _).mpr ⟨id, svc, hlookup, rfl, rfl⟩)
  · intro h
    have hcut {id : Nat} {svc : Service} (hl : s.gServices.lookup id = some svc) :
        cut (getName svc.mod) = getName svc.mod := cut_of_sayable (h id svc hl).2
    have hclean : ∀ p ∈ printed getName s, Clean p := by
      rintro ⟨name, owner⟩ hp
      obtain ⟨id, svc, hl, rfl, rfl⟩ := (mem_printed hs name owner).mp hp
      rw [hcut hl]
      exact h id svc hl
    rw [if_pos hclean] at hread
    refine ⟨⟨_, hread, nodup_printed getName s, fun name owner => ?_⟩, fun name => ?_⟩
    · rw [mem_printed hs]
      constructor
      · rintro ⟨id, svc, hl, hn, ho⟩
        exact ⟨id, svc, hl, hn, hcut hl ▸ ho⟩
      · rintro ⟨id, svc, hl, hn, ho⟩
        exact ⟨id, svc, hl, hn, (hcut hl).trans ho⟩
    · rw [exists_listing hread]
      simp only [mem_printed hs]
      constructor
      · rintro ⟨-, id, svc, hl, hn, -⟩
        exact ⟨id, svc, hl, hn⟩
      · rintro ⟨id, svc, hl, hn⟩
        exact ⟨_, id, svc, hl, hn, rfl⟩

/-- The same in every state a run of the registry reaches. -/
theorem agrees_iff (hstrict : ∀ text, from_str text = Json.read number 128 text) (getName : ModId → String)
    {alive : ModId → Bool} {tr : List (State × Label)} {u : State} (h : Run Step (initial alive) tr u) :
    Agrees from_str getName u.registry ↔
      ∀ id svc, u.registry.gServices.lookup id = some svc → Sayable svc.name ∧ Sayable (getName svc.mod) :=
  agrees_iff_of_sound (lookup_iff_since h).1.registry hstrict

end Agree

/-- The strict reader itself, without numbers. -/
def strictReader : String → Option (Json.Value Empty) := Json.read (fun _ => none) 128

theorem strictReader_eq (text : String) : strictReader text = Json.read (fun _ => none) 128 text := rfl

theorem agrees_iff_plotCan : Agrees strictReader (fun _ => "plots") plotCan.registry := by
  refine (agrees_iff strictReader_eq _ run_plotCan).mpr fun id svc hl => ?_
  have hsvc : svc = ⟨1, "plot:can", ⟨7, 9⟩⟩ := by
    change (Services.addService _ _).gServices.lookup id = some svc at hl
    rw [lookup_addService] at hl
    split at hl
    · exact (Option.some.inj hl).symm
    · cases hl
  subst hsvc
  exact ⟨by decide, by decide⟩

/-! ## A name with a bell -/

/-- A second mod registers a name that ends in a control character. -/
def ding : State :=
  { plotCan with registry := addService ⟨2, "ding\x07", ⟨8, 0⟩⟩ plotCan.registry }

theorem run_ding : Run Step (initial fun _ => true)
    [(initial fun _ => true, .register 0 (some 1) "plot:can" (some 7) 9 1),
      (plotCan, .register 0 (some 2) "ding\x07" (some 8) 0 2)] ding :=
  .cons (.register trivial rfl) (.cons (.register trivial rfl) (.nil _))

/-- Both services are registered and neither is found. -/
theorem bell_hides_every_service :
    ¬∀ (getName : ModId → String) (alive : ModId → Bool) (tr : List (State × Label)) (u : State),
      Run Step (initial alive) tr u → Agrees strictReader getName u.registry := by
  intro h
  have hfinds := ((h (fun _ => "plots") _ _ _ run_ding).finds "plot:can").mpr ⟨1, ⟨1, "plot:can", ⟨7, 9⟩⟩, rfl, rfl⟩
  have hnone : strictReader (list_json (fun _ => "plots") ding.registry) = none := by
    rw [read_list_json strictReader_eq, if_neg]
    intro hclean
    have hmem : ("ding\x07", "plots") ∈ printed (fun _ => "plots") ding.registry := by decide
    exact absurd (hclean _ hmem).1 (by decide)
  rw [exists_, hnone] at hfinds
  cases hfinds

end ServiceListing
