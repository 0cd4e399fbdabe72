import LeviRsLoader.HookCancel
import LeviRsLoader.Nbt.Literal

/-!
# The payloads of the cancellable hooks

Each hook puts its payload together by hand: quoted keys, numbers, and texts
escaped byte by byte by `snbtEscape` of `Common.cpp`. A payload whose texts are
UTF-8 is read back as a compound.
-/
namespace HookPayload

open Nbt Utf8 Parser HookCancel

def escapeByte (c : UInt8) : List UInt8 :=
  if c = byteOf '"' ∨ c = byteOf '\\' then [byteOf '\\', c]
  else if c = byteOf '\n' then [byteOf '\\', byteOf 'n']
  else if c = byteOf '\r' then [byteOf '\\', byteOf 'r']
  else if c = byteOf '\t' then [byteOf '\\', byteOf 't']
  else [c]

def snbtEscape (s : List UInt8) : List UInt8 := s.flatMap escapeByte

/-- `snbtNum` of an integer. -/
def num (v : Int) : List UInt8 := encode (Decimal.print v)

/-- The kinds of values the hooks print. -/
inductive Field where
  | num (v : Int32)
  | long (v : Int64)
  | flag (v : Bool)
  | bool (v : Bool)
  | text (raw : List UInt8)

def Field.bytes : Field → List UInt8
  | .num v => encode (Decimal.print v.toInt)
  | .long v => encode (Decimal.print v.toInt ++ ['L'])
  | .flag v => encode [if v then '1' else '0']
  | .bool v => encode (if v then "true" else "false").toList
  | .text raw => byteOf '"' :: (snbtEscape raw ++ [byteOf '"'])

structure PlayerTexts where
  name : List UInt8
  xuid : List UInt8
  uuid : List UInt8
  deriving DecidableEq

structure Place where
  x : Int32
  y : Int32
  z : Int32
  dim : Int32

def Place.fields (at_ : Place) : List (String × Field) :=
  [("x", .num at_.x), ("y", .num at_.y), ("z", .num at_.z), ("dim", .num at_.dim)]

def entry (key : String) (value : List UInt8) : List UInt8 := encode ('"' :: (key.toList ++ ['"', ':'])) ++ value

/-- Entries in braces, the first without a comma. -/
def braced (first : List UInt8) (rest : List (List UInt8)) : List UInt8 :=
  encode ['{'] ++ first ++ rest.flatMap (fun e => encode [','] ++ e) ++ encode ['}']

def playerTexts (p : PlayerTexts) : List UInt8 :=
  braced (entry "name" (Field.text p.name).bytes)
    [entry "xuid" (Field.text p.xuid).bytes, entry "uuid" (Field.text p.uuid).bytes]

/-- The shape all the hooks share. -/
def hookSnbt (eventId : String) (fields : List (String × Field)) (p : PlayerTexts) : List UInt8 :=
  braced (entry "eventId" (Field.text (encode eventId.toList)).bytes)
    (fields.map (fun f => entry f.1 f.2.bytes) ++ [entry "_player" (playerTexts p)])

def playerDropItemEvent (at_ : Place) (randomly viaUi : Bool) (item : List UInt8) (p : PlayerTexts) : List UInt8 :=
  hookSnbt "PlayerDropItemEvent"
    (at_.fields ++ [("randomly", .flag randomly), ("viaInventoryUi", .flag viaUi), ("item", .text item)]) p

def playerInteractEntityEvent (at_ : Place) (targetIsPlayer : Bool) (target item : List UInt8) (p : PlayerTexts) :
    List UInt8 :=
  hookSnbt "PlayerInteractEntityEvent"
    (at_.fields ++ [("targetIsPlayer", .flag targetIsPlayer), ("target", .text target), ("item", .text item)]) p

def playerPushEntityEvent (at_ : Place) (target : List UInt8) (p : PlayerTexts) : List UInt8 :=
  hookSnbt "PlayerPushEntityEvent" (at_.fields ++ [("target", .text target)]) p

def playerTakeEntityEvent (at_ : Place) (entity : List UInt8) (entityId : Int64) (isItem : Bool) (item : List UInt8)
    (p : PlayerTexts) : List UInt8 :=
  hookSnbt "PlayerTakeEntityEvent"
    (at_.fields ++ [("entity", .text entity), ("entityId", .long entityId), ("isItemActor", .bool isItem),
      ("item", .text item)]) p

def playerSpawnProjectileEvent (at_ : Place) (projectile : List UInt8) (p : PlayerTexts) : List UInt8 :=
  hookSnbt "PlayerSpawnProjectileEvent" (at_.fields ++ [("projectile", .text projectile)]) p

def playerRideEvent (at_ : Place) (vehicle : List UInt8) (p : PlayerTexts) : List UInt8 :=
  hookSnbt "PlayerRideEvent" (at_.fields ++ [("vehicle", .text vehicle)]) p

/-- `kind` is a name of the bridge's own and needs no escaping. -/
def playerStepOnPressurePlateEvent (at_ : Place) (kind : String) (p : PlayerTexts) : List UInt8 :=
  hookSnbt "PlayerStepOnPressurePlateEvent" (at_.fields ++ [("kind", .text (encode kind.toList))]) p

def playerOpenContainerEvent (at_ : Place) (containerType : Int32) (p : PlayerTexts) : List UInt8 :=
  hookSnbt "PlayerOpenContainerEvent" (at_.fields ++ [("containerType", .num containerType)]) p

def playerUseItemOnEvent (at_ : Place) (face : Int32) (isFirstEvent : Bool) (item : List UInt8) (p : PlayerTexts) :
    List UInt8 :=
  hookSnbt "PlayerUseItemOnEvent"
    (at_.fields ++ [("face", .num face), ("isFirstEvent", .flag isFirstEvent), ("item", .text item)]) p

def playerChangeGameModeEvent (at_ : Place) (old new : Int32) (p : PlayerTexts) : List UInt8 :=
  hookSnbt "PlayerChangeGameModeEvent" (at_.fields ++ [("from", .num old), ("to", .num new)]) p

def playerAttackTargetEvent (at_ : Place) (targetIsPlayer : Bool) (target : List UInt8) (cause : Int32)
    (p : PlayerTexts) : List UInt8 :=
  hookSnbt "PlayerAttackTargetEvent"
    (at_.fields ++ [("targetIsPlayer", .flag targetIsPlayer), ("target", .text target), ("cause", .num cause)]) p

/-! ## Reading a payload -/

section

variable {F : Floats} {val : Parser → Except Fail (NbtValue × Parser)} {p : Parser}

/-- `val` reads the text whole as `v`, whatever delimiter follows. -/
def ReadsText (val : Parser → Except Fail (NbtValue × Parser)) (text : List Char) (v : NbtValue) : Prop :=
  ∀ (p : Parser) (r : List Char), p.rest = encode (text ++ r) → Delim r →
    val p = .ok (v, p.adv (encode text).length)

/-- The text of an entry with a quoted key. -/
def entryText (key : String) (text : List Char) : List Char := write_quoted key ++ ':' :: text

theorem readsEntry_quoted (key : String) {text : List Char} {v : NbtValue} (hv : ReadsText val text v) :
    ReadsEntry val (entryText key text) key v := by
  refine readsEntry (fun p t h => ?_) hv
  have hquote : p.rest = encode ('"' :: (key.toList.flatMap escapeChar ++ '"' :: ':' :: t)) := by
    rw [h, write_quoted]
    simp
  refine ⟨skip_ws_text hquote (by simp [isWsChar]), ?_⟩
  rw [readKey, if_pos (.inl (peek_char (by decide) hquote))]
  exact quoted_string_literal key h

/-- An entry of a payload: its key, the text of its value and the value it reads as. -/
structure Entry where
  key : String
  text : List Char
  value : NbtValue

def Entry.print (e : Entry) : List Char := entryText e.key e.text

/-- The map the parser builds of the entries. -/
def mapOf (l : List Entry) : List (String × NbtValue) := l.foldl (fun map e => insertEntry e.key e.value map) []

/-- The text of the entries in braces. -/
def bracedText (l : List Entry) : List Char := '{' :: (writeSep Entry.print true l ++ ['}'])

theorem print_head (e : Entry) :
    ∃ c t, e.print = c :: t ∧ (c = '{' ∨ c = '[' ∨ c = '"' ∨ isBareChar c = true) :=
  ⟨'"', _, rfl, .inr (.inr (.inl rfl))⟩

/-- Entries printed in braces, with bare or with quoted keys. -/
theorem reads_printed {print : Entry → List Char} {n : Nat} (e : Entry) (l : List Entry)
    (hhead : ∃ c t, print e = c :: t ∧ (c = '{' ∨ c = '[' ∨ c = '"' ∨ isBareChar c = true))
    (hl : ∀ u ∈ e :: l, Nbt.ReadsEntry (value F n) (print u) u.key u.value) :
    ReadsText (value F (n + 1)) ('{' :: (writeSep print true (e :: l) ++ ['}'])) (.compound (mapOf (e :: l))) := by
  intro p r h hd
  have hopen : p.rest = encode ('{' :: (writeSep print true (e :: l) ++ '}' :: r)) := by
    rw [h]
    simp
  rw [value_of_head n (by decide) (by decide) hopen, if_pos rfl]
  exact compound_entries e l hhead hl hopen

theorem reads_braced {n : Nat} (e : Entry) (l : List Entry)
    (hl : ∀ u ∈ e :: l, ReadsText (value F n) u.text u.value) :
    ReadsText (value F (n + 1)) (bracedText (e :: l)) (.compound (mapOf (e :: l))) :=
  reads_printed e l (print_head e) fun u hu => readsEntry_quoted u.key (hl u hu)

theorem reads_text (n : Nat) (s : List Char) :
    ReadsText (value F (n + 1)) (write_quoted (String.ofList s)) (.string (String.ofList s)) :=
  fun _ _ h _ => value_string _ n h

theorem reads_token (n : Nat) {token : List Char} (hb : token.all isBareChar = true) (hne : token ≠ []) :
    ReadsText (value F (n + 1)) token (tokenValue F token) :=
  fun _ _ h hd => value_token hb hne n h hd

end

/-! ## Payloads of UTF-8 texts -/

theorem escapeByte_high {b : UInt8} (hb : 128 ≤ b.toNat) : escapeByte b = [b] := by
  have hne {c : Char} (hc : isAscii c = true) : b ≠ byteOf c := lead_ne_byteOf hb hc
  simp [escapeByte, hne (c := '"') rfl, hne (c := '\\') rfl, hne (c := '\n') rfl, hne (c := '\r') rfl,
    hne (c := '\t') rfl]

/-- Escaping the bytes of a character escapes the character. -/
theorem escapeByte_encode (c : Char) : (String.utf8EncodeChar c).flatMap escapeByte = encode (escapeChar c) := by
  cases hc : isAscii c with
  | true =>
    rw [encodeChar_ascii hc, List.flatMap_singleton]
    by_cases hspecial : c ∈ ['"', '\\', '\n', '\r', '\t']
    · simp only [List.mem_cons, List.not_mem_nil, or_false] at hspecial
      rcases hspecial with rfl | rfl | rfl | rfl | rfl <;> decide
    · simp only [List.mem_cons, List.not_mem_nil, or_false, not_or] at hspecial
      obtain ⟨hq, hb, hn, hr, ht⟩ := hspecial
      have hcopy : escapeChar c = [c] := by simp [escapeChar]
      rw [hcopy, encode_cons_ascii hc]
      simp [escapeByte, byteOf_inj hc, hq, hb, hn, hr, ht, isAscii]
  | false =>
    have hne {d : Char} (hd : isAscii d = true) : c ≠ d := by
      rintro rfl
      rw [hc] at hd
      cases hd
    have hcopy : escapeChar c = [c] := by
      simp [escapeChar, hne (d := '"') rfl, hne (d := '\\') rfl, hne (d := '\n') rfl, hne (d := '\r') rfl,
        hne (d := '\t') rfl]
    obtain ⟨b, t, hbt, ht, hlead⟩ := encodeChar_lead hc
    have hb : 128 ≤ b.toNat := by omega
    have hrest : t.flatMap escapeByte = t := by
      clear hbt hlead
      induction t with
      | nil => rfl
      | cons x t ih =>
        rw [List.flatMap_cons, escapeByte_high (ht x (.head t)), ih fun y hy => ht y (.tail x hy)]
        rfl
    rw [hcopy, encode_cons, hbt, List.flatMap_cons, escapeByte_high hb, hrest]
    simp

theorem snbtEscape_encode (s : List Char) : snbtEscape (encode s) = encode (s.flatMap escapeChar) := by
  induction s with
  | nil => rfl
  | cons c s ih =>
    rw [encode_cons, snbtEscape, List.flatMap_append, escapeByte_encode, List.flatMap_cons, encode_append, ← ih]
    rfl

/-- The texts of the field are UTF-8. -/
def Field.Valid : Field → Prop
  | .text raw => ∃ s, raw = encode s
  | _ => True

/-- A valid field prints as a text that is read back. -/
theorem reads_field (F : Floats) (n : Nat) {f : Field} (hf : f.Valid) :
    ∃ text v, f.bytes = encode text ∧ ReadsText (value F (n + 1)) text v := by
  cases f with
  | num v => exact ⟨_, _, rfl, reads_token n (print_bare _) (Decimal.print_ne_nil _)⟩
  | long v => exact ⟨_, _, rfl, reads_token n (numeral_bare _ ['L'] rfl) (by simp)⟩
  | flag v => cases v <;> exact ⟨_, _, rfl, reads_token n (by decide) (by decide)⟩
  | bool v => cases v <;> exact ⟨_, _, rfl, reads_token n (by decide) (by decide)⟩
  | text raw =>
    obtain ⟨s, rfl⟩ := hf
    refine ⟨_, _, ?_, reads_text n s⟩
    rw [Field.bytes, snbtEscape_encode, write_quoted, String.toList_ofList, encode_cons_ascii (c := '"') rfl,
      encode_append]
    rfl

/-- An entry whose key needs no escaping. -/
theorem entry_print {key : String} (hkey : key.toList.flatMap escapeChar = key.toList) (text : List Char)
    (v : NbtValue) : entry key (encode text) = encode (Entry.mk key text v).print := by
  rw [entry, Entry.print, entryText, write_quoted, hkey, ← encode_append]
  simp

theorem braced_print (e : Entry) (l : List Entry) :
    braced (encode e.print) (l.map fun u => encode u.print) = encode (bracedText (e :: l)) := by
  have htail (l : List Entry) : (l.map fun u => encode u.print).flatMap (fun b => encode [','] ++ b)
      = encode (writeSep Entry.print false l) := by
    induction l with
    | nil => rfl
    | cons u l ih =>
      have hcomma (s t : List Char) : encode (',' :: (s ++ t)) = encode [','] ++ encode s ++ encode t := by
        rw [← encode_append, ← encode_append]
        rfl
      rw [List.map_cons, List.flatMap_cons, ih, writeSep_false_cons, writeSep_true_cons, hcomma]
  rw [braced, htail, bracedText, writeSep_true_cons]
  simp [← encode_append]

/-- A key that needs no escaping and the bytes of a value that is read back. -/
structure ReadsEntry (F : Floats) (n : Nat) (e : String × List UInt8) : Prop where
  key : e.1.toList.flatMap escapeChar = e.1.toList
  value : ∃ text v, e.2 = encode text ∧ ReadsText (value F n) text v

theorem ReadsEntry.field (F : Floats) (n : Nat) {key : String} {f : Field}
    (hkey : key.toList.flatMap escapeChar = key.toList) (hf : f.Valid) : ReadsEntry F (n + 1) (key, f.bytes) :=
  ⟨hkey, reads_field F n hf⟩

theorem print_of_entries {F : Floats} {n : Nat} (l : List (String × List UInt8)) (h : ∀ u ∈ l, ReadsEntry F n u) :
    ∃ entries : List Entry, l.map (fun u => entry u.1 u.2) = entries.map (fun u => encode u.print) ∧
      ∀ u ∈ entries, ReadsText (value F n) u.text u.value := by
  induction l with
  | nil => exact ⟨[], rfl, by simp⟩
  | cons u l ih =>
    obtain ⟨entries, hl, hreads⟩ := ih fun w hw => h w (.tail u hw)
    obtain ⟨text, v, hbytes, hread⟩ := (h u (.head _)).value
    refine ⟨⟨u.1, text, v⟩ :: entries, ?_, ?_⟩
    · rw [List.map_cons, List.map_cons, hl, hbytes, entry_print (h u (.head _)).key text v]
    · intro w hw
      cases hw with
      | head => exact hread
      | tail _ hw => exact hreads w hw

/-- Entries in braces are read as a compound. -/
theorem reads_entries {F : Floats} {n : Nat} (u : String × List UInt8) (l : List (String × List UInt8))
    (h : ∀ w ∈ u :: l, ReadsEntry F n w) :
    ∃ text map, braced (entry u.1 u.2) (l.map fun w => entry w.1 w.2) = encode ('{' :: text) ∧
      ReadsText (value F (n + 1)) ('{' :: text) (.compound map) := by
  obtain ⟨entries, hprint, hreads⟩ := print_of_entries (u :: l) h
  cases entries with
  | nil => cases hprint
  | cons e entries =>
    obtain ⟨hfirst, hrest⟩ := List.cons.inj hprint
    refine ⟨_, _, ?_, reads_braced e entries hreads⟩
    have hfirst : entry u.1 u.2 = encode e.print := hfirst
    rw [hfirst, hrest, braced_print]
    rfl

/-- The three texts of the player are UTF-8. -/
structure PlayerTexts.Valid (p : PlayerTexts) : Prop where
  name : ∃ s, p.name = encode s
  xuid : ∃ s, p.xuid = encode s
  uuid : ∃ s, p.uuid = encode s

/-- A field under a key that needs no escaping, its text UTF-8. -/
structure PlainField (f : String × Field) : Prop where
  key : f.1.toList.flatMap escapeChar = f.1.toList
  value : f.2.Valid

theorem reads_playerTexts (F : Floats) (n : Nat) {p : PlayerTexts} (hp : p.Valid) :
    ReadsEntry F (n + 2) ("_player", playerTexts p) := by
  have hl : ∀ u ∈ [("name", (Field.text p.name).bytes), ("xuid", (Field.text p.xuid).bytes),
      ("uuid", (Field.text p.uuid).bytes)], ReadsEntry F (n + 1) u := by
    simp only [List.mem_cons, List.not_mem_nil, or_false, forall_eq_or_imp, forall_eq]
    exact ⟨.field F n (by decide) hp.name, .field F n (by decide) hp.xuid, .field F n (by decide) hp.uuid⟩
  obtain ⟨text, map, htext, hreads⟩ := reads_entries _ _ hl
  have hkey : "_player".toList.flatMap escapeChar = "_player".toList := by decide
  exact ⟨hkey, _, _, htext, hreads⟩

theorem reads_hookSnbt (F : Floats) (n : Nat) (eventId : String) {fields : List (String × Field)} {p : PlayerTexts}
    (hfields : ∀ f ∈ fields, PlainField f) (hp : p.Valid) :
    ∃ text map, hookSnbt eventId fields p = encode ('{' :: text) ∧
      ReadsText (value F (n + 3)) ('{' :: text) (.compound map) := by
  have hl : ∀ u ∈ ("eventId", (Field.text (encode eventId.toList)).bytes) ::
      (fields.map (fun f => (f.1, f.2.bytes)) ++ [("_player", playerTexts p)]), ReadsEntry F (n + 2) u := by
    intro u hu
    simp only [List.mem_cons, List.mem_append, List.mem_map, List.not_mem_nil, or_false] at hu
    rcases hu with rfl | ⟨f, hf, rfl⟩ | rfl
    · exact .field F (n + 1) (by decide) ⟨_, rfl⟩
    · exact .field F (n + 1) (hfields f hf).key (hfields f hf).value
    · exact reads_playerTexts F n hp
  obtain ⟨text, map, htext, hreads⟩ := reads_entries _ _ hl
  refine ⟨text, map, ?_, hreads⟩
  rw [← htext, hookSnbt, List.map_append, List.map_map]
  rfl

theorem r_encode (t : List Char) : r (encode t) = String.ofList t := by
  have hlast : (List.range ((encode t).length + 1)).reverse.findSome? (fun n => decode ((encode t).take n))
      = some t := by
    rw [List.range_succ, List.reverse_append, List.reverse_singleton, List.singleton_append,
      List.findSome?_cons_of_isSome]
    · rw [List.take_length, decode_encode]
    · rw [List.take_length, decode_encode]
      rfl
  rw [r, hlast, Option.getD_some]

/-- What `value` reads whole is what the text parses as. -/
theorem parse_of_reads {F : Floats} {text : List Char} {v : NbtValue} (hhead : ∀ c ∈ text.head?, isWsChar c = false)
    (hreads : ReadsText (value F ((encode text).length + 1)) text v) :
    NbtValue.parse F (String.ofList text) = .ok v := by
  have hrest : (Parser.mk (encode text) 0).rest = encode (text ++ []) := by simp [rest]
  have hws : (Parser.mk (encode text) 0).skip_ws = Parser.mk (encode text) 0 := by
    refine skip_ws_text hrest ?_
    simpa using hhead
  have hend : ((Parser.mk (encode text) 0).adv (encode text).length).skip_ws =
      (Parser.mk (encode text) 0).adv (encode text).length := by
    apply skip_ws_of_head
    simp [rest, adv]
  rw [NbtValue.parse, parse_all, String.toList_ofList]
  simp only [hws, hreads _ [] hrest (by simp [Delim]), ok_bind, hend, adv_pos, adv_bytes, Nat.zero_add, if_true]

/-- A hook's payload whose texts are UTF-8 is read by the Rust side as a compound. -/
theorem parse_hookSnbt (F : Floats) (eventId : String) {fields : List (String × Field)} {p : PlayerTexts}
    (hfields : ∀ f ∈ fields, PlainField f) (hp : p.Valid) :
    ∃ map, NbtValue.parse F (r (hookSnbt eventId fields p)) = .ok (.compound map) := by
  have hlen : 2 ≤ (hookSnbt eventId fields p).length := by
    have hone (c : Char) (hc : isAscii c = true) : (encode [c]).length = 1 := by
      rw [encode_cons_ascii hc]
      rfl
    simp only [hookSnbt, braced, List.length_append, hone '{' rfl, hone '}' rfl]
    omega
  obtain ⟨n, hn⟩ : ∃ n, (hookSnbt eventId fields p).length + 1 = n + 3 :=
    ⟨(hookSnbt eventId fields p).length - 2, by omega⟩
  obtain ⟨text, map, htext, hreads⟩ := reads_hookSnbt F n eventId hfields hp
  refine ⟨map, ?_⟩
  rw [htext] at hn ⊢
  rw [r_encode]
  exact parse_of_reads (by simp [isWsChar]) (hn ▸ hreads)

/-- On a payload of UTF-8 texts a subscriber whose one edit is `cancel` cancels. -/
theorem cancel_hookSnbt (F : Floats) (eventId : String) {fields : List (String × Field)} {p : PlayerTexts}
    (hfields : ∀ f ∈ fields, PlainField f) (hp : p.Valid) {sub : Handler}
    (hsub : sub (r (hookSnbt eventId fields p)) = ⟨[.cancel], false⟩) : Tells F (hookSnbt eventId fields p) sub := by
  obtain ⟨map, hmap⟩ := parse_hookSnbt F eventId hfields hp
  have hedits : (sub (r (hookSnbt eventId fields p))).edits = [] ++ [.cancel] := by rw [hsub, List.nil_append]
  refine tells_of_cancel (by rw [hsub]) hedits (?_ : _ = Except.ok (NbtValue.compound map))
  rw [List.foldl_nil, Option.map_none, Option.getD_none]
  exact hmap

/-! ## A name that cancels -/

/-- A player opens a chest; the name holds a searched text. -/
def strayPayload : List UInt8 :=
  playerOpenContainerEvent ⟨1, 2, 3, 0⟩ 0
    ⟨encode "cancelled:1b".toList, encode "2535".toList, encode "00-01".toList⟩

/-- The event of that payload with its `dim` changed. -/
def strayEvent : NbtValue :=
  .compound [("_player",
      .compound [("name", .string "cancelled:1b"), ("uuid", .string "00-01"), ("xuid", .string "2535")]),
    ("containerType", .int 0), ("dim", .int 1), ("eventId", .string "PlayerOpenContainerEvent"), ("x", .int 1),
    ("y", .int 2), ("z", .int 3)]

/-- Nobody cancels and the chest stays shut. -/
theorem stray_name_cancels : ¬Faithful noFloats strayPayload [fun _ => ⟨[.set_value strayEvent], false⟩] := by
  intro h
  have hwrite :
      lastWrite noFloats strayPayload (fun _ => ⟨[.set_value strayEvent], false⟩) = some (.value strayEvent) := rfl
  have hmarked : marked noFloats strayEvent = true := by decide
  have hflagged : ¬flagged noFloats strayEvent = true := by decide
  obtain ⟨sub, hsub, w, hw, hf⟩ := h.flagged.mp ((dispatch_marked _).mpr ⟨_, .head _, _, hwrite, hmarked⟩)
  rw [List.mem_singleton] at hsub
  subst hsub
  rw [hwrite] at hw
  cases hw
  exact hflagged hf

end HookPayload
