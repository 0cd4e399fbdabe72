import LeviRsLoader.LaneTables
import LeviRsLoader.ServiceListing

/-!
# Listing the lanes

`api_lane_list` puts a JSON text together with an escaper of its own, one that knows every control character.
What the Rust side is given reads as strict JSON, whatever the lanes and the mods are called.
-/
namespace LaneListing

open LeviRs Utf8 Lane LaneTables HookCancel

/-- `%0*llx` -/
def hex (width n : Nat) : List Char :=
  List.replicate (width - (Nat.toDigits 16 n).length) '0' ++ Nat.toDigits 16 n

def escapeByte (c : UInt8) : List UInt8 :=
  if c = byteOf '"' then ascii "\\\""
  else if c = byteOf '\\' then ascii "\\\\"
  else if c = byteOf '\n' then ascii "\\n"
  else if c = byteOf '\r' then ascii "\\r"
  else if c = byteOf '\t' then ascii "\\t"
  else if c < 0x20 then ascii "\\u" ++ encode (hex 4 c.toNat)
  else [c]

def jsonEscape (s : List UInt8) : List UInt8 := s.flatMap escapeByte

section Lists

-- `RustMod::getName`, a text from the manifest
variable (getName : ModId → String) (s : Lanes)

def laneText (lane : LaneEntry) : List UInt8 :=
  ascii "\x7b\"name\":\"" ++ jsonEscape (encode lane.name.toList) ++ ascii "\",\"mod\":\"" ++
    jsonEscape (encode (getName lane.mod).toList) ++ ascii "\",\"fingerprint\":\"" ++
    encode ('0' :: 'x' :: hex 16 lane.desc.fingerprint.toNat) ++ ascii "\",\"protocol\":" ++
    encode (Nat.toDigits 10 lane.desc.protocol.toNat) ++ ascii ",\"leases\":" ++ encode (Nat.toDigits 10 lane.leases) ++
    ascii ",\"alive\":" ++ ascii (if (s.cell lane.alive).flag ≠ 0 then "true" else "false") ++ ascii "\x7d"

/-- One round of the loop: the text so far, and whether it is the first. -/
def listOne (acc : List UInt8 × Bool) (e : Sigma fun _ : Nat => LaneEntry) : List UInt8 × Bool :=
  ((if acc.2 then acc.1 else acc.1 ++ ascii ",") ++ laneText getName s e.2, false)

/-- What the sink is given, when the map is walked in this order. -/
def api_lane_list (walk : List (Sigma fun _ : Nat => LaneEntry)) : List UInt8 :=
  (walk.foldl (listOne getName s) (ascii "[", true)).1 ++ ascii "]"

def list_json (walk : List (Sigma fun _ : Nat => LaneEntry)) : String := r (api_lane_list getName s walk)

end Lists

/-! ## The escaper -/

/-- What becomes of a character. -/
def escapeChar (c : Char) : List Char :=
  if c = '"' then ['\\', '"']
  else if c = '\\' then ['\\', '\\']
  else if c = '\n' then ['\\', 'n']
  else if c = '\r' then ['\\', 'r']
  else if c = '\t' then ['\\', 't']
  else if c.toNat < 0x20 then '\\' :: 'u' :: hex 4 c.toNat
  else [c]

theorem jsonEscape_encode (s : List Char) : jsonEscape (encode s) = encode (s.flatMap escapeChar) := by
  refine flatMap_encode (fun b hb => ?_) (fun c hc => ?_) (fun c hc => ?_) s
  · have hne {c : Char} (hc : isAscii c = true) : b ≠ byteOf c := Nbt.lead_ne_byteOf hb hc
    have hlow : ¬b < 0x20 := by
      rw [UInt8.lt_iff_toNat_lt]
      exact Nat.not_lt.mpr (Nat.le_trans (by decide) hb)
    simp [escapeByte, hne (c := '"') rfl, hne (c := '\\') rfl, hne (c := '\n') rfl, hne (c := '\r') rfl,
      hne (c := '\t') rfl, hlow]
  · have hlow : byteOf c < 0x20 ↔ c.toNat < 0x20 := by
      rw [UInt8.lt_iff_toNat_lt, byteOf_toNat hc]
      rfl
    have heq {d : Char} (hd : isAscii d = true) : byteOf c = byteOf d ↔ c = d := byteOf_inj hc hd
    unfold escapeByte escapeChar
    simp only [heq (d := '"') rfl, heq (d := '\\') rfl, heq (d := '\n') rfl, heq (d := '\r') rfl,
      heq (d := '\t') rfl, hlow, byteOf_toNat hc]
    split_ifs
    · rfl
    · rfl
    · rfl
    · rfl
    · rfl
    · rfl
    · rw [encode_cons_ascii hc]
      rfl
  · have hne {d : Char} (hd : isAscii d = true) : c ≠ d := by
      rintro rfl
      rw [hc] at hd
      cases hd
    have hlow : ¬c.toNat < 0x20 := by
      simp only [isAscii, decide_eq_false_iff_not] at hc
      omega
    simp [escapeChar, hne (d := '"') rfl, hne (d := '\\') rfl, hne (d := '\n') rfl, hne (d := '\r') rfl,
      hne (d := '\t') rfl, hlow]

theorem hex_control {c : Char} (hc : c.toNat < 0x20) (t : List Char) :
    Json.unicodeEscape (hex 4 c.toNat ++ t) = some (c, t) := by
  have hall : ∀ k < 32, ∀ t, Json.unicodeEscape (hex 4 k ++ t) = some (Char.ofNat k, t) := by
    intro k hk t
    interval_cases k <;> rfl
  have hread := hall c.toNat hc t
  rwa [Char.ofNat_toNat] at hread

/-- Every character comes back from a JSON string. -/
theorem escapes_escapeChar : Json.Escapes escapeChar (fun _ => true) where
  ne_nil c := by
    unfold escapeChar
    split_ifs
    all_goals simp
  reads c n t := by
    rw [if_pos rfl]
    unfold escapeChar
    split_ifs with hq hb hn hr ht hc
    · subst hq
      exact Json.stringLoop_escape rfl n t
    · subst hb
      exact Json.stringLoop_escape rfl n t
    · subst hn
      exact Json.stringLoop_escape rfl n t
    · subst hr
      exact Json.stringLoop_escape rfl n t
    · subst ht
      exact Json.stringLoop_escape rfl n t
    · exact Json.stringLoop_unicode (hex_control hc t) n
    · rw [List.singleton_append, Json.stringLoop_plain hq hb, if_neg hc]

/-- The digits of a fingerprint need no escaping. -/
theorem escape_hex (width n : Nat) : ('0' :: 'x' :: hex width n).flatMap escapeChar = '0' :: 'x' :: hex width n := by
  have hdigit : ∀ d < 16, escapeChar (Nat.digitChar d) = [Nat.digitChar d] := by decide
  have hdigits : ∀ n : Nat, (Nat.toDigits 16 n).flatMap escapeChar = Nat.toDigits 16 n := by
    intro n
    induction n using Nat.strongRecOn with
    | ind n ih =>
      by_cases hlt : n < 16
      · rw [Nat.toDigits_of_lt_base hlt, List.flatMap_singleton, hdigit n hlt]
      · rw [Nat.toDigits_of_base_le (by decide) (Nat.le_of_not_lt hlt), List.flatMap_append, ih _ (by omega),
          List.flatMap_singleton, hdigit _ (Nat.mod_lt _ (by decide))]
  have hzeros : ∀ k : Nat, (List.replicate k '0').flatMap escapeChar = List.replicate k '0' := by
    intro k
    induction k with
    | zero => rfl
    | succ k ih =>
      rw [List.replicate_succ, List.flatMap_cons, ih]
      rfl
  have hx : escapeChar 'x' = ['x'] := rfl
  have h0 : escapeChar '0' = ['0'] := rfl
  rw [List.flatMap_cons, List.flatMap_cons, hex, List.flatMap_append, hzeros, hdigits, hx, h0]
  rfl

/-! ## The text -/

/-- What the list says of a lane. -/
structure Listed where
  name : String
  mod : String
  fingerprint : UInt64
  protocol : UInt32
  leases : Nat
  alive : Bool
  deriving DecidableEq

def listed (getName : ModId → String) (s : Lanes) (lane : LaneEntry) : Listed :=
  ⟨lane.name, getName lane.mod, lane.desc.fingerprint, lane.desc.protocol, lane.leases,
    decide ((s.cell lane.alive).flag ≠ 0)⟩

def quoted (t : List Char) : List Char := '"' :: (t.flatMap escapeChar ++ ['"'])

/-- The texts of the entry's fields under their keys. -/
def fields (x : Listed) : List (String × List Char) :=
  [("mod", quoted x.mod.toList), ("fingerprint", quoted ('0' :: 'x' :: hex 16 x.fingerprint.toNat)),
    ("protocol", Nat.toDigits 10 x.protocol.toNat), ("leases", Nat.toDigits 10 x.leases),
    ("alive", (if x.alive then "true" else "false").toList)]

def printEntry (x : Listed) : List Char :=
  '{' :: ('"' :: ("name".toList ++ '"' :: ':' :: quoted x.name.toList) ++
    ((fields x).flatMap fun f => ',' :: '"' :: (f.1.toList ++ '"' :: ':' :: f.2)) ++ ['}'])

def listChars : List Listed → List Char
  | [] => ['[', ']']
  | x :: l => '[' :: (printEntry x ++ (l.flatMap fun x => ',' :: printEntry x) ++ [']'])

section Text

variable (getName : ModId → String) (s : Lanes)

theorem laneText_eq (lane : LaneEntry) : laneText getName s lane = encode (printEntry (listed getName s lane)) := by
  have hname : "\x7b\"name\":\"".toList = '{' :: '"' :: ("name".toList ++ ['"', ':', '"']) := by decide
  have hmod : "\",\"mod\":\"".toList = '"' :: ',' :: '"' :: ("mod".toList ++ ['"', ':', '"']) := by decide
  have hprint : "\",\"fingerprint\":\"".toList = '"' :: ',' :: '"' :: ("fingerprint".toList ++ ['"', ':', '"']) := by
    decide
  have hprotocol : "\",\"protocol\":".toList = '"' :: ',' :: '"' :: ("protocol".toList ++ ['"', ':']) := by decide
  have hleases : ",\"leases\":".toList = ',' :: '"' :: ("leases".toList ++ ['"', ':']) := by decide
  have halive : ",\"alive\":".toList = ',' :: '"' :: ("alive".toList ++ ['"', ':']) := by decide
  have hclose : "\x7d".toList = ['}'] := by decide
  have hhex (n : Nat) : quoted ('0' :: 'x' :: hex 16 n) = '"' :: ('0' :: 'x' :: hex 16 n ++ ['"']) := by
    rw [quoted, escape_hex]
  simp only [printEntry, fields, listed, hhex]
  simp only [laneText, ascii, jsonEscape_encode, ← encode_append, hname, hmod, hprint, hprotocol, hleases, halive,
    hclose, quoted, List.flatMap_cons, List.flatMap_nil, List.append_assoc, List.cons_append, List.nil_append,
    List.append_nil, decide_eq_true_eq]

theorem foldl_listOne (walk : List (Sigma fun _ : Nat => LaneEntry)) (out : List UInt8) :
    (walk.foldl (listOne getName s) (out, false)).1
      = out ++ encode ((walk.map fun e => listed getName s e.2).flatMap fun x => ',' :: printEntry x) := by
  induction walk generalizing out with
  | nil => simp
  | cons e walk ih =>
    have hcomma : ascii "," = encode [','] := rfl
    rw [List.foldl_cons, listOne]
    simp [ih, laneText_eq, hcomma, ← encode_append]

theorem list_json_eq (walk : List (Sigma fun _ : Nat => LaneEntry)) :
    list_json getName s walk = String.ofList (listChars (walk.map fun e => listed getName s e.2)) := by
  have hopen : ascii "[" = encode ['['] := rfl
  have hclose : ascii "]" = encode [']'] := rfl
  suffices api_lane_list getName s walk = encode (listChars (walk.map fun e => listed getName s e.2)) by
    rw [list_json, this, HookPayload.r_encode]
  cases walk with
  | nil => rfl
  | cons e walk =>
    rw [api_lane_list, List.foldl_cons, listOne]
    simp only [if_true, foldl_listOne, laneText_eq, hopen, hclose, List.map_cons, listChars, ← encode_append]
    simp

end Text

/-! ## Reading it -/

section Reading

variable {α : Type}

/-- The object that stands for a lane, its keys in order. -/
def entryValue (ofNat : Nat → α) (x : Listed) : Json.Value α :=
  .object [("alive", .bool x.alive),
    ("fingerprint", .string (String.ofList ('0' :: 'x' :: hex 16 x.fingerprint.toNat))),
    ("leases", .number (ofNat x.leases)), ("mod", .string x.mod), ("name", .string x.name),
    ("protocol", .number (ofNat x.protocol.toNat))]

variable {number : List Char → Option α} {ofNat : Nat → α}

theorem value_quoted (depth : Nat) (t : List Char) (rest : List Char) :
    Json.value number (depth + 1) (quoted t ++ rest) = some (.string (String.ofList t), rest) := by
  have htext : quoted t ++ rest = '"' :: (t.flatMap escapeChar ++ '"' :: rest) := by simp [quoted]
  rw [htext, Json.value_string number escapes_escapeChar, if_pos (by simp)]

/-- A reader of the numerals of natural numbers. -/
def ReadsNat (number : List Char → Option α) (ofNat : Nat → α) : Prop :=
  ∀ n, number (Nat.toDigits 10 n) = some (ofNat n)

theorem value_alive (depth : Nat) (b : Bool) (rest : List Char) :
    Json.value number (depth + 1) ((if b then "true" else "false").toList ++ rest) = some (.bool b, rest) := by
  cases b <;> rfl

theorem value_nat (hnum : ReadsNat number ofNat) (depth n : Nat) {c : Char} (hc : c = ',' ∨ c = '}') (t : List Char) :
    Json.value number (depth + 1) (Nat.toDigits 10 n ++ c :: t) = some (.number (ofNat n), c :: t) := by
  have hd : c.isDigit = false ∧ c ∉ ['.', 'e', 'E'] := by rcases hc with rfl | rfl <;> decide
  rw [Json.value_toDigits number depth n hd.1 hd.2, hnum]
  rfl

theorem value_printEntry (hnum : ReadsNat number ofNat) (depth : Nat) (x : Listed) (t : List Char) :
    Json.value number (depth + 2) (printEntry x ++ t) = some (entryValue ofNat x, t) := by
  have htext : printEntry x ++ t = '{' :: ('"' :: ("name".toList ++ '"' :: ':' :: quoted x.name.toList) ++
      ((fields x).flatMap fun f => ',' :: '"' :: (f.1.toList ++ '"' :: ':' :: f.2)) ++ '}' :: t) := by
    simp [printEntry]
  have hkey : ∀ f ∈ ("name", quoted x.name.toList) :: fields x, ∀ t,
      Json.string (f.1.toList ++ '"' :: t) = some (f.1, t) := by
    simp only [fields, List.mem_cons, List.not_mem_nil, or_false, forall_eq_or_imp, forall_eq]
    exact ⟨fun t => rfl, fun t => rfl, fun t => rfl, fun t => rfl, fun t => rfl, fun t => rfl⟩
  have hread : ∀ f ∈ ("name", quoted x.name.toList) :: fields x, ∀ c t, c = ',' ∨ c = '}' →
      Json.value number (depth + 1) (f.2 ++ c :: t) = ((entryValue ofNat x).get f.1).map (·, c :: t) := by
    intro f hf c t hc
    simp only [fields, List.mem_cons, List.not_mem_nil, or_false] at hf
    rcases hf with rfl | rfl | rfl | rfl | rfl | rfl
    · rw [value_quoted, String.ofList_toList]
      rfl
    · rw [value_quoted, String.ofList_toList]
      rfl
    · rw [value_quoted]
      rfl
    · rw [value_nat hnum depth _ hc]
      rfl
    · rw [value_nat hnum depth _ hc]
      rfl
    · rw [value_alive]
      rfl
  have hmembers : ((("name", quoted x.name.toList) :: fields x).foldlM (fun map w =>
      ((entryValue ofNat x).get w.1).map fun v => Json.insertMember w.1 v map) []).map Json.Value.object
        = some (entryValue ofNat x) := by
    have hname : (entryValue ofNat x).get "name" = some (.string x.name) := rfl
    have hmod : (entryValue ofNat x).get "mod" = some (.string x.mod) := rfl
    have hprint : (entryValue ofNat x).get "fingerprint"
      = some (.string (String.ofList ('0' :: 'x' :: hex 16 x.fingerprint.toNat))) := rfl
    have hprotocol : (entryValue ofNat x).get "protocol" = some (.number (ofNat x.protocol.toNat)) := rfl
    have hleases : (entryValue ofNat x).get "leases" = some (.number (ofNat x.leases)) := rfl
    have halive : (entryValue ofNat x).get "alive" = some (.bool x.alive) := rfl
    simp only [fields, List.foldlM_cons, List.foldlM_nil, hname, hmod, hprint, hprotocol, hleases, halive,
      Option.map_some, Option.pure_def, Option.bind_eq_bind, Option.bind_some, Json.insertMember, String.reduceLT,
      ↓reduceIte]
    rfl
  rw [htext, Json.value_object number depth, Json.object_delimited _ _ hkey hread]
  obtain ⟨m, hm, hobject⟩ := Option.map_eq_some_iff.mp hmembers
  rw [hm, Option.map_some, hobject]

/-- The list is read whole. -/
theorem read_listChars (hnum : ReadsNat number ofNat) (depth : Nat) (l : List Listed) :
    Json.read number (depth + 3) (String.ofList (listChars l)) = some (.array (l.map (entryValue ofNat))) := by
  rw [Json.read, String.toList_ofList]
  cases l with
  | nil =>
    rw [listChars, Json.value_array number (depth + 1)]
    rfl
  | cons x l =>
    let val (y : Listed) : Option (Json.Value α) := some (entryValue ofNat y)
    have hitems : ∀ y ∈ x :: l, ∀ t, Json.value number (depth + 2) (printEntry y ++ t) = (val y).map (·, t) :=
      fun y _ t => value_printEntry hnum depth y t
    have hall : (x :: l).mapM val = some ((x :: l).map (entryValue ofNat)) := List.mapM_pure
    have harray := Json.array_items x l ⟨'{', _, rfl, rfl, by decide⟩ hitems []
    rw [listChars, Json.value_array number (depth + 1), harray, hall]
    rfl

end Reading

/-! ## The list in every run -/

section InRuns

open LaneProtocol Runs Interleave

variable {α : Type} {number : List Char → Option α} {ofNat : Nat → α} {from_str : String → Option (Json.Value α)}

/-- A lane in the table is said to be alive, with as many leases as the table of leases holds. -/
theorem listed_intact {s : Lanes} (h : Intact s) (getName : ModId → String) {laneId : Nat} {lane : LaneEntry}
    (hl : s.gLanes.lookup laneId = some lane) : listed getName s lane
      = ⟨lane.name, getName lane.mod, lane.desc.fingerprint, lane.desc.protocol, s.leasesOn laneId, true⟩ := by
  have hcell : laneId = lane.alive + 1 := h.cell laneId lane hl
  have hlt : lane.alive < s.cells.length := by
    have hnext := h.laneId_lt hl
    rw [h.next] at hnext
    omega
  have hflag : (s.cell lane.alive).flag = 1 := by
    rw [h.lit lane.alive hlt, ← hcell, hl]
    rfl
  rw [listed, h.leases laneId lane hl, hflag]
  rfl

/-- In every run, whatever the lanes and the mods are called and in whatever order the map is walked: the
list is strict JSON, and says of each lane in the table, once, what the tables say. -/
theorem lanes_listed (hnum : ReadsNat number ofNat) (hstrict : ∀ text, from_str text = Json.read number 128 text)
    (getName : ModId → String) {tr : List (Thread × Event)} {p : Thread} (h : Run TStep initial tr p)
    {walk : List (Sigma fun _ : Nat => LaneEntry)} (hwalk : walk.Perm p.state.gLanes.entries) :
    ∃ l : List Listed, from_str (list_json getName p.state walk) = some (.array (l.map (entryValue ofNat)))
      ∧ (l.map Listed.name).Nodup
      ∧ ∀ x, x ∈ l ↔ ∃ laneId lane, p.state.gLanes.lookup laneId = some lane ∧ x = ⟨lane.name, getName lane.mod,
          lane.desc.fingerprint, lane.desc.protocol, p.state.leasesOn laneId, true⟩ := by
  have hintact := (handed_run h).intact
  have hmem (e : Sigma fun _ : Nat => LaneEntry) : e ∈ walk ↔ p.state.gLanes.lookup e.1 = some e.2 := by
    rw [hwalk.mem_iff, AList.lookup_eq_some_iff]
  refine ⟨walk.map fun e => listed getName p.state e.2, ?_, ?_, fun x => ?_⟩
  · rw [hstrict, list_json_eq, read_listChars hnum 125]
  · -- a name leads to one lane
    have hkeys : walk.Nodup := hwalk.nodup_iff.mpr p.state.gLanes.nodupKeys.nodup
    rw [List.map_map]
    refine List.Nodup.map_on (fun e he e' he' hsame => ?_) hkeys
    have hl := (hmem e).mp he
    have hl' := (hmem e').mp he'
    have hname : e.2.name = e'.2.name := hsame
    have hid : e.1 = e'.1 := by
      have h₁ := (hintact.named e.2.name e.1).mpr ⟨_, hl, rfl⟩
      have h₂ := (hintact.named e.2.name e'.1).mpr ⟨_, hl', hname.symm⟩
      rw [h₁] at h₂
      exact Option.some.inj h₂
    rw [hid, hl'] at hl
    exact Sigma.ext hid (heq_of_eq (Option.some.inj hl).symm)
  · rw [List.mem_map]
    constructor
    · rintro ⟨e, he, rfl⟩
      exact ⟨e.1, e.2, (hmem e).mp he, listed_intact hintact getName ((hmem e).mp he)⟩
    · rintro ⟨laneId, lane, hl, rfl⟩
      exact ⟨⟨laneId, lane⟩, (hmem ⟨laneId, lane⟩).mpr hl, listed_intact hintact getName hl⟩

/-- A strict reader that keeps natural numbers. -/
def natReader : String → Option (Json.Value Nat) := Json.read (fun ds => some (Nat.ofDigitChars 10 ds 0)) 128

theorem readsNat_natReader : ReadsNat (fun ds => some (Nat.ofDigitChars 10 ds 0)) id := fun _ =>
  congrArg some Nat.ofDigitChars_ten_toDigits

/-- A mod whose name holds a bell. -/
theorem lanes_listed_bell :
    ∃ l : List Listed, natReader (list_json (fun _ => "plots\x07") callbackEnd.state callbackEnd.state.gLanes.entries)
        = some (.array (l.map (entryValue id)))
      ∧ (l.map Listed.name).Nodup
      ∧ ∀ x, x ∈ l ↔ ∃ laneId lane, callbackEnd.state.gLanes.lookup laneId = some lane ∧ x = ⟨lane.name, "plots\x07",
          lane.desc.fingerprint, lane.desc.protocol, callbackEnd.state.leasesOn laneId, true⟩ :=
  lanes_listed readsNat_natReader (fun _ => rfl) (fun _ => "plots\x07") run_callback (List.Perm.refl _)

end InRuns

end LaneListing
