import Mathlib.Data.List.Sort
import LeviRsLoader.Lib.Tables
import LeviRsLoader.Lib.Merge

/-!
# Event data and its write-back

The dynamic listener of `Events.cpp` and `enrichEventData` of `Common.cpp`:
a listener gets an enriched snapshot of the event's data as text, and what it
writes back is merged into the data. The tags are the game's own type, so what
the bridge asks of a tag is a parameter.
-/
namespace EventWriteBack

/-- A `CompoundTag`: its `mTags`. -/
abbrev CompoundTag (ν : Type) := Table String ν

/-- What the bridge uses of `CompoundTagVariant`. -/
structure Variant (ν : Type) where
  /-- `is_object` and `get<CompoundTag>` -/
  asObject : ν → Option (CompoundTag ν)
  /-- `is_string` and the view of it -/
  asString : ν → Option String
  /-- `is_number` and its cast -/
  asNumber : ν → Option Int64
  object : List (String × ν) → ν
  ofString : String → ν
  ofInt : Int32 → ν

/-- `toSnbt` and `fromSnbt`: a text is read back as the tag it was printed from. -/
structure Snbt (τ ν : Type) where
  toSnbt : CompoundTag ν → τ
  fromSnbt : τ → Option (CompoundTag ν)
  fromSnbt_toSnbt : ∀ tag, fromSnbt (toSnbt tag) = some tag

variable {τ ν : Type}

/-- The entries as a `std::map` lists them, by key. -/
def CompoundTag.inOrder (tag : CompoundTag ν) : List (Sigma fun _ : String => ν) :=
  tag.entries.insertionSort fun e e' => e.1 ≤ e'.1

/-! ## Enrichment -/

structure Player where
  realName : String
  xuid : String
  uuid : String
  /-- the position, rounded down -/
  x : Int32
  y : Int32
  z : Int32
  dimensionId : Int32
  deriving DecidableEq

structure ActorDefinitionIdentifier where
  mFullName : String
  mNamespace : String
  mIdentifier : String
  deriving DecidableEq

/-- What lies behind the pointers an event carries: the players who are online,
and an identifier at every address. -/
structure Game where
  livePlayers : UInt64 → Option Player
  identifiers : UInt64 → ActorDefinitionIdentifier

def findPointerOfType (V : Variant ν) (data : CompoundTag ν) (typeName : String) : UInt64 :=
  let pointer (value : ν) : Option UInt64 := do
    let obj ← V.asObject value
    let typeVar ← obj.lookup "_type_"
    let ptrVar ← obj.lookup "_pointer_"
    let type ← V.asString typeVar
    if type ≠ typeName then none
    else (V.asNumber ptrVar).map Int64.toUInt64
  (data.inOrder.findSome? fun e => pointer e.2).getD 0

def findPlayerPointer (V : Variant ν) (data : CompoundTag ν) : UInt64 := findPointerOfType V data "Player"

def playerTag (V : Variant ν) (player : Player) : ν :=
  V.object [("name", V.ofString player.realName), ("xuid", V.ofString player.xuid), ("uuid", V.ofString player.uuid),
    ("pos", V.object [("x", V.ofInt player.x), ("y", V.ofInt player.y), ("z", V.ofInt player.z)])]

def identifierTag (V : Variant ν) (id : ActorDefinitionIdentifier) : ν :=
  V.object [("full", V.ofString id.mFullName), ("namespace", V.ofString id.mNamespace),
    ("name", V.ofString id.mIdentifier)]

/-- The player's part: `_player`, and `dim` where the event has none. -/
def enrichPlayer (V : Variant ν) (player : Player) (copy : CompoundTag ν) : CompoundTag ν :=
  let copy := copy.insert "_player" (playerTag V player)
  if "dim" ∈ copy then copy else copy.insert "dim" (V.ofInt player.dimensionId)

/-- The tag `enrichEventData` prints. -/
def enriched (V : Variant ν) (game : Game) (data : CompoundTag ν) : CompoundTag ν :=
  let addr := findPlayerPointer V data
  let copy := if addr = 0 then data else match game.livePlayers addr with
    | none => data
    | some player => enrichPlayer V player data
  let addr := findPointerOfType V data "ActorDefinitionIdentifier"
  if addr ≥ 0x10000 ∧ addr &&& 0x7 = 0 then
    copy.insert "_identifier" (identifierTag V (game.identifiers addr))
  else copy

def enrichEventData (S : Snbt τ ν) (V : Variant ν) (game : Game) (data : CompoundTag ν) : τ :=
  S.toSnbt (enriched V game data)

/-- The keys the bridge adds to a snapshot. -/
def enrichmentKeys : List String := ["_player", "dim", "_identifier"]

theorem lookup_enrichPlayer (V : Variant ν) (player : Player) (data : CompoundTag ν) {k : String}
    (hplayer : k ≠ "_player") (hdim : k ≠ "dim" ∨ k ∈ data) :
    (enrichPlayer V player data).lookup k = data.lookup k := by
  have hkeep : (data.insert "_player" (playerTag V player)).lookup k = data.lookup k :=
    AList.lookup_insert_ne hplayer
  rw [enrichPlayer]
  split
  · exact hkeep
  · next hnot =>
    have hk : k ≠ "dim" := by
      cases hdim with
      | inl hk => exact hk
      | inr hmem =>
        rintro rfl
        exact hnot ((AList.mem_insert _).mpr (.inr hmem))
    rw [AList.lookup_insert_ne hk, hkeep]

/-- A snapshot shows the event as it is, but for the bridge's own keys; a `dim`
of the event's own stays. -/
theorem lookup_enriched (V : Variant ν) (game : Game) (data : CompoundTag ν) {k : String}
    (h : k ∉ enrichmentKeys ∨ k = "dim" ∧ k ∈ data) : (enriched V game data).lookup k = data.lookup k := by
  have hplayer : k ≠ "_player" := by
    rintro rfl
    simp [enrichmentKeys] at h
  have hid : k ≠ "_identifier" := by
    rintro rfl
    simp [enrichmentKeys] at h
  have hdim : k ≠ "dim" ∨ k ∈ data := by
    cases h with
    | inl h => exact .inl fun hk => h (by simp [enrichmentKeys, hk])
    | inr h => exact .inr h.2
  have hcopy : (if findPlayerPointer V data = 0 then data else match game.livePlayers (findPlayerPointer V data) with
      | none => data
      | some player => enrichPlayer V player data).lookup k = data.lookup k := by
    split
    · rfl
    · split
      · rfl
      · exact lookup_enrichPlayer V _ data hplayer hdim
  rw [enriched]
  split
  · rw [AList.lookup_insert_ne hid, hcopy]
  · exact hcopy

/-! ## Write-back -/

/-- The two loops of the write sink. -/
def mergeWriteBack [DecidableEq ν] (base edited data : CompoundTag ν) : CompoundTag ν :=
  let written := edited.inOrder.foldl
    (fun data e => if base.lookup e.1 = some e.2 then data else data.insert e.1 e.2) data
  base.inOrder.foldl (fun data e => if e.1 ∈ edited then data else data.erase e.1) written

/-- The write sink: `snapshot` is the text the listener was given. -/
def writeBack [DecidableEq ν] (S : Snbt τ ν) (snapshot newSnbt : τ) (data : CompoundTag ν) : CompoundTag ν :=
  match S.fromSnbt newSnbt with
  | none => data
  | some edited => match S.fromSnbt snapshot with
    | none => edited
    | some base => mergeWriteBack base edited data

/-! ### The write-back is a three-way merge -/

theorem inOrder_perm (tag : CompoundTag ν) : tag.inOrder.Perm tag.entries := List.perm_insertionSort _ _

theorem nodupKeys_inOrder (tag : CompoundTag ν) : tag.inOrder.NodupKeys :=
  (List.perm_nodupKeys (inOrder_perm tag)).mpr tag.nodupKeys

theorem dlookup_inOrder (tag : CompoundTag ν) (k : String) : tag.inOrder.dlookup k = tag.lookup k :=
  List.perm_dlookup k (nodupKeys_inOrder tag) (inOrder_perm tag)

theorem mem_keys_inOrder (tag : CompoundTag ν) (k : String) : k ∈ tag.inOrder.keys ↔ tag.lookup k ≠ none := by
  rw [← dlookup_inOrder, ne_eq, List.dlookup_eq_none, not_not]

/-- The first loop: a key of the list is written unless the base holds the same there. -/
theorem lookup_written [DecidableEq ν] (base : CompoundTag ν) (l : List (Sigma fun _ : String => ν)) (hl : l.NodupKeys)
    (data : CompoundTag ν) (k : String) :
    (l.foldl (fun data e => if base.lookup e.1 = some e.2 then data else data.insert e.1 e.2) data).lookup k =
      match l.dlookup k with
      | none => data.lookup k
      | some v => if base.lookup k = some v then data.lookup k else some v := by
  induction l generalizing data with
  | nil => rfl
  | cons e l ih =>
    obtain ⟨k', v'⟩ := e
    have hnot : k' ∉ l.keys := List.notMem_keys_of_nodupKeys_cons hl
    rw [List.foldl_cons, ih (List.nodupKeys_of_nodupKeys_cons hl)]
    by_cases hk : k = k'
    · subst hk
      rw [List.dlookup_eq_none.mpr hnot, List.dlookup_cons_eq]
      by_cases hb : base.lookup k = some v'
      · simp only [hb, if_true]
      · simp only [hb, if_false, AList.lookup_insert]
    · have hkeep : (if base.lookup k' = some v' then data else data.insert k' v').lookup k = data.lookup k := by
        split
        · rfl
        · exact AList.lookup_insert_ne hk
      rw [List.dlookup_cons_ne _ _ hk, hkeep]

/-- The second loop: the keys of the list that the edit does not hold are gone. -/
theorem lookup_erased (edited : CompoundTag ν) (l : List (Sigma fun _ : String => ν)) (data : CompoundTag ν)
    (k : String) :
    (l.foldl (fun data e => if e.1 ∈ edited then data else data.erase e.1) data).lookup k =
      if k ∈ l.keys ∧ edited.lookup k = none then none else data.lookup k := by
  induction l generalizing data with
  | nil => simp
  | cons e l ih =>
    obtain ⟨k', v'⟩ := e
    rw [List.foldl_cons, ih]
    simp only [List.keys_cons, List.mem_cons]
    by_cases hgone : edited.lookup k = none
    · by_cases hk : k = k'
      · subst hk
        have hnot : k ∉ edited := AList.lookup_eq_none.mp hgone
        simp [hgone, hnot]
      · have hkeep : (if k' ∈ edited then data else data.erase k').lookup k = data.lookup k := by
          split
          · rfl
          · exact AList.lookup_erase_ne hk
        simp [hgone, hk, hkeep]
    · have hkeep : (if k' ∈ edited then data else data.erase k').lookup k = data.lookup k := by
        split
        · rfl
        · next hnot =>
          refine AList.lookup_erase_ne ?_
          rintro rfl
          exact hgone (AList.lookup_eq_none.mpr hnot)
      simp [hgone, hkeep]

/-- The write sink merges key by key. -/
theorem lookup_mergeWriteBack [DecidableEq ν] (base edited data : CompoundTag ν) (k : String) :
    (mergeWriteBack base edited data).lookup k
      = Merge.merge (base.lookup ·) (edited.lookup ·) (data.lookup ·) k := by
  rw [mergeWriteBack, lookup_erased, lookup_written _ _ (nodupKeys_inOrder edited), dlookup_inOrder]
  simp only [mem_keys_inOrder, Merge.merge]
  cases he : edited.lookup k with
  | none =>
    cases hb : base.lookup k with
    | none => simp
    | some v => simp
  | some v =>
    by_cases hb : base.lookup k = some v
    · simp [hb]
    · simp [hb, Ne.symm hb]

/-! ## Sequences of listeners -/

/-- A listener on its turn: which live map its snapshot shows (0 for the one it
finds, otherwise that many maps earlier), what the game holds then, and its reply. -/
structure Listener (τ : Type) where
  age : Nat
  game : Game
  reply : τ → τ

/-- A turn of a run. `snapshot` is the tag the listener got as text, `edited` the
tag it wrote back, its snapshot where the reply is no tag. -/
structure Turn (ν : Type) where
  snapshot : CompoundTag ν
  edited : CompoundTag ν
  before : CompoundTag ν
  after : CompoundTag ν

section

variable [DecidableEq ν] (S : Snbt τ ν) (V : Variant ν)

def turn (earlier : List (CompoundTag ν)) (live : CompoundTag ν) (l : Listener τ) : Turn ν :=
  let shown := (live :: earlier).getD l.age live
  let snbt := enrichEventData S V l.game shown
  let snapshot := enriched V l.game shown
  ⟨snapshot, (S.fromSnbt (l.reply snbt)).getD snapshot, live, writeBack S snbt (l.reply snbt) live⟩

/-- The turns of a sequence of listeners; `earlier` are the live maps so far, the latest first. -/
def turns (earlier : List (CompoundTag ν)) (live : CompoundTag ν) : List (Listener τ) → List (Turn ν)
  | [] => []
  | l :: ls =>
    let t := turn S V earlier live l
    t :: turns (live :: earlier) t.after ls

def finalMap (live : CompoundTag ν) (ts : List (Turn ν)) : CompoundTag ν := ts.foldl (fun _ t => t.after) live

def Turn.edit (t : Turn ν) : Merge.Edit String (Option ν) := ⟨(t.snapshot.lookup ·), (t.edited.lookup ·)⟩

/-- The listener's tag differs from its own snapshot at the key. -/
def Turn.changes (t : Turn ν) (k : String) : Bool := t.edit.changes k

variable {S V}

theorem writeBack_snapshot (snapshot : CompoundTag ν) (newSnbt : τ) (live : CompoundTag ν) (k : String) :
    (writeBack S (S.toSnbt snapshot) newSnbt live).lookup k =
      Merge.merge (snapshot.lookup ·) (((S.fromSnbt newSnbt).getD snapshot).lookup ·) (live.lookup ·) k := by
  rw [writeBack, S.fromSnbt_toSnbt]
  cases S.fromSnbt newSnbt with
  | none =>
    rw [Option.getD_none, Merge.merge_self]
  | some edited => exact lookup_mergeWriteBack snapshot edited live k

/-- On its turn a listener merges its edit into the live map it finds. -/
theorem turn_after (earlier : List (CompoundTag ν)) (live : CompoundTag ν) (l : Listener τ) (k : String) :
    (turn S V earlier live l).after.lookup k = (turn S V earlier live l).edit.apply (live.lookup ·) k :=
  writeBack_snapshot _ _ live k

theorem mem_turns {ls : List (Listener τ)} {earlier : List (CompoundTag ν)} {live : CompoundTag ν} {t : Turn ν}
    (h : t ∈ turns S V earlier live ls) : ∀ k, t.after.lookup k = t.edit.apply (t.before.lookup ·) k := by
  induction ls generalizing earlier live with
  | nil => cases h
  | cons l ls ih =>
    cases h with
    | head => exact turn_after earlier live l
    | tail _ h => exact ih h

/-- The final map is the fold of the edits over the original. -/
theorem finalMap_lookup (ls : List (Listener τ)) (earlier : List (CompoundTag ν)) (live : CompoundTag ν) (k : String) :
    (finalMap live (turns S V earlier live ls)).lookup k
      = ((turns S V earlier live ls).map Turn.edit).foldl Merge.Edit.apply (live.lookup ·) k := by
  induction ls generalizing earlier live with
  | nil => rfl
  | cons l ls ih =>
    have hafter : (turn S V earlier live l).edit.apply (live.lookup ·)
        = fun k => (turn S V earlier live l).after.lookup k :=
      funext fun k => (turn_after earlier live l k).symm
    rw [turns, List.map_cons, List.foldl_cons, hafter]
    exact ih (live :: earlier) (turn S V earlier live l).after

theorem changes_iff (t : Turn ν) (k : String) : t.changes k = true ↔ t.edited.lookup k ≠ t.snapshot.lookup k :=
  decide_eq_true_iff

theorem after_of_changed {ls : List (Listener τ)} {live : CompoundTag ν} {t : Turn ν} (h : t ∈ turns S V [] live ls)
    {k : String} (hk : t.edited.lookup k ≠ t.snapshot.lookup k) : t.after.lookup k = t.edited.lookup k := by
  rw [mem_turns h]
  exact Merge.apply_changed ((changes_iff t k).mpr hk) _

theorem after_of_unchanged {ls : List (Listener τ)} {live : CompoundTag ν} {t : Turn ν} (h : t ∈ turns S V [] live ls)
    {k : String} (hk : t.edited.lookup k = t.snapshot.lookup k) : t.after.lookup k = t.before.lookup k := by
  rw [mem_turns h]
  exact Merge.apply_unchanged (fun hc => (changes_iff t k).mp hc hk) _

theorem find_last_edit (ts : List (Turn ν)) (k : String) :
    (ts.map Turn.edit).reverse.find? (fun e => e.changes k)
      = (ts.reverse.find? fun t => t.changes k).map Turn.edit := by
  rw [← List.map_reverse, List.find?_map]
  rfl

/-- A key ends with the value of the last listener that changed it, or the original one. -/
theorem finalMap_last (ls : List (Listener τ)) (earlier : List (CompoundTag ν)) (live : CompoundTag ν) (k : String) :
    (finalMap live (turns S V earlier live ls)).lookup k =
      match (turns S V earlier live ls).reverse.find? fun t => t.changes k with
      | some t => t.edited.lookup k
      | none => live.lookup k := by
  rw [finalMap_lookup, Merge.foldl_apply, find_last_edit]
  cases (turns S V earlier live ls).reverse.find? fun t => t.changes k with
  | none => rfl
  | some t => rfl

theorem changed_of_new {ls : List (Listener τ)} {live : CompoundTag ν} {k : String} (hk : k ∉ live)
    (h : k ∈ finalMap live (turns S V [] live ls)) :
    ∃ t ∈ turns S V [] live ls, t.edited.lookup k ≠ t.snapshot.lookup k := by
  obtain ⟨v, hv⟩ := AList.mem_iff_lookup.mp h
  rw [finalMap_last] at hv
  cases hf : (turns S V [] live ls).reverse.find? fun t => t.changes k with
  | none =>
    rw [hf] at hv
    exact absurd (AList.mem_iff_lookup.mpr ⟨v, hv⟩) hk
  | some t =>
    have hc := List.find?_some hf
    exact ⟨t, List.mem_reverse.mp (List.mem_of_find?_eq_some hf), (changes_iff t k).mp hc⟩

theorem writeBack_comm {snapshot edited snapshot' edited' : CompoundTag ν}
    (h : ∀ k, edited.lookup k = snapshot.lookup k ∨ edited'.lookup k = snapshot'.lookup k) (live : CompoundTag ν)
    (k : String) :
    (writeBack S (S.toSnbt snapshot') (S.toSnbt edited')
        (writeBack S (S.toSnbt snapshot) (S.toSnbt edited) live)).lookup k =
      (writeBack S (S.toSnbt snapshot) (S.toSnbt edited)
        (writeBack S (S.toSnbt snapshot') (S.toSnbt edited') live)).lookup k := by
  let e : Merge.Edit String (Option ν) := ⟨(snapshot.lookup ·), (edited.lookup ·)⟩
  let e' : Merge.Edit String (Option ν) := ⟨(snapshot'.lookup ·), (edited'.lookup ·)⟩
  have hdisjoint : ∀ k, ¬(e.changes k = true ∧ e'.changes k = true) := by
    rintro k ⟨hk, hk'⟩
    cases h k with
    | inl heq => exact of_decide_eq_true hk heq
    | inr heq => exact of_decide_eq_true hk' heq
  simp only [writeBack_snapshot, S.fromSnbt_toSnbt, Option.getD_some]
  exact congrFun (Merge.apply_comm hdisjoint (live.lookup ·)) k

theorem writeBack_unedited (game : Game) (shown live : CompoundTag ν) (k : String) :
    (writeBack S (enrichEventData S V game shown) (enrichEventData S V game shown) live).lookup k = live.lookup k := by
  rw [enrichEventData, writeBack_snapshot, S.fromSnbt_toSnbt, Option.getD_some, Merge.merge_self]

end

/-- What a listener changed relative to its own snapshot is written, the rest
stays live; the last to change a key decides it, and a key the event lacks, as
the bridge's own, gets in only by a listener that changed it. Write-backs that
change no key in common commute and an unedited one does nothing. -/
theorem eventWriteBack_merges [DecidableEq ν] (S : Snbt τ ν) (V : Variant ν) (live : CompoundTag ν) :
    (∀ ls : List (Listener τ),
      (∀ t ∈ turns S V [] live ls, ∀ k,
        (t.edited.lookup k ≠ t.snapshot.lookup k → t.after.lookup k = t.edited.lookup k) ∧
        (t.edited.lookup k = t.snapshot.lookup k → t.after.lookup k = t.before.lookup k)) ∧
      (∀ k, (finalMap live (turns S V [] live ls)).lookup k =
        match (turns S V [] live ls).reverse.find? fun t => t.changes k with
        | some t => t.edited.lookup k
        | none => live.lookup k) ∧
      ∀ k, k ∉ live → k ∈ finalMap live (turns S V [] live ls) →
        ∃ t ∈ turns S V [] live ls, t.edited.lookup k ≠ t.snapshot.lookup k) ∧
    (∀ snapshot edited snapshot' edited' : CompoundTag ν,
      (∀ k, edited.lookup k = snapshot.lookup k ∨ edited'.lookup k = snapshot'.lookup k) →
      ∀ k, (writeBack S (S.toSnbt snapshot') (S.toSnbt edited')
          (writeBack S (S.toSnbt snapshot) (S.toSnbt edited) live)).lookup k =
        (writeBack S (S.toSnbt snapshot) (S.toSnbt edited)
          (writeBack S (S.toSnbt snapshot') (S.toSnbt edited') live)).lookup k) ∧
    ∀ (game : Game) (shown : CompoundTag ν),
      ∀ k, (writeBack S (enrichEventData S V game shown) (enrichEventData S V game shown) live).lookup k
        = live.lookup k := by
  refine ⟨?_, ?_, ?_⟩
  · intro ls
    refine ⟨?_, finalMap_last ls [] live, ?_⟩
    · intro t ht k
      exact ⟨after_of_changed ht, after_of_unchanged ht⟩
    · intro k hk
      exact changed_of_new hk
  · intro snapshot edited snapshot' edited' h
    exact writeBack_comm h live
  · intro game shown
    exact writeBack_unedited game shown live

/-- Tags that are plain strings, printed as they are. -/
def plainSnbt : Snbt (CompoundTag String) String := ⟨id, some, fun _ => rfl⟩

def plainVariant : Variant String := ⟨fun _ => none, some, fun _ => none, fun _ => "", id, fun _ => ""⟩

def emptyGame : Game := ⟨fun _ => none, fun _ => ⟨"", "", ""⟩⟩

def chatEvent : CompoundTag String := ((∅ : CompoundTag String).insert "message" "original").insert "cancelled" "0"

/-- The first edits the message; the second, from a snapshot older than that, cancels. -/
def twoMods : List (Listener (CompoundTag String)) :=
  [⟨0, emptyGame, fun snbt => snbt.insert "message" "edited by A"⟩,
    ⟨1, emptyGame, fun snbt => snbt.insert "cancelled" "1"⟩]

theorem eventWriteBack_merges_stale :
    (finalMap chatEvent (turns plainSnbt plainVariant [] chatEvent twoMods)).lookup "message" = some "edited by A" ∧
      (finalMap chatEvent (turns plainSnbt plainVariant [] chatEvent twoMods)).lookup "cancelled" = some "1" := by
  have hlast := ((eventWriteBack_merges plainSnbt plainVariant chatEvent).1 twoMods).2.1
  rw [hlast, hlast]
  decide

end EventWriteBack
