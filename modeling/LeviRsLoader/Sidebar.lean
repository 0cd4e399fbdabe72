import LeviRsLoader.CommandForms

/-!
# Sidebars

A board goes over as one text, `objective`, `title` and then every line, each after a newline; the native
side splits it again and sends the packets of a board that one player sees. Every row is an entry of the
client's scoreboard under a number of its own, in a range that the name of the objective chooses.
-/
namespace Sidebar

open Utf8

/-! ## The Rust side -/

def hasNewline (text : String) : Bool := decide ('\n' ∈ text.toList)

def payloadText (objective title : String) (lines : List String) : String :=
  lines.foldl (fun text line => text.push '\n' ++ line) (objective.push '\n' ++ title)

/-- The text that `set_sidebar` hands over, or what it objects to. -/
def payload (objective title : String) (lines : List String) : Except String String :=
  if objective.isEmpty || hasNewline objective || hasNewline title then
    .error "sidebar: objective/title must be one line"
  else if lines.any hasNewline then .error "sidebar: a line may not contain a newline"
  else .ok (payloadText objective title lines)

/-! ## The native side -/

/-- The search for the next newline, `line` being what it has passed. -/
def splitFrom (line : List UInt8) : List UInt8 → List (List UInt8)
  | [] => [line]
  | b :: text => if b = byteOf '\n' then line :: splitFrom [] text else splitFrom (line ++ [b]) text

def splitLines (text : List UInt8) : List (List UInt8) := splitFrom [] text

/-- FNV-1a, cut down to 18 bits. -/
def objectiveSlotHash (name : List UInt8) : UInt32 :=
  name.foldl (fun h c => (h ^^^ c.toUInt32) * 16777619) 2166136261 &&& 0x3FFFF

inductive MinecraftPacketIds where
  | RemoveObjective
  | SetDisplayObjective
  | SetScore

inductive ObjectiveSortOrder where
  | Ascending
  | Descending
  deriving DecidableEq

inductive ScorePacketType where
  | Change
  | Remove
  deriving DecidableEq

/-- An entry of a `SetScorePacket` for a `FakePlayer`. -/
structure ScorePacketInfo where
  mRawID : Int64
  mObjectiveName : List UInt8
  mScoreValue : Int32
  mFakePlayerName : List UInt8
  deriving DecidableEq

inductive Packet where
  | removeObjective (mObjectiveName : List UInt8)
  | setDisplayObjective (mDisplaySlotName mObjectiveName mObjectiveDisplayName mCriteriaName : List UInt8)
      (mSortOrder : ObjectiveSortOrder)
  | setScore (mType : ScorePacketType) (mScoreInfo : List ScorePacketInfo)

def kSidebarIdBase (objective : List UInt8) : Int64 :=
  0x40000000 + Int64.ofNat (objectiveSlotHash objective).toNat * 4096

/-- The loop over the lines, from the line `i` of the text on and down from `score`. -/
def infosFrom (objective : List UInt8) : Nat → Int32 → List (List UInt8) → List ScorePacketInfo
  | _, _, [] => []
  | i, score, line :: lines =>
    ⟨kSidebarIdBase objective + Int64.ofNat (i - 1), objective, score, if line.isEmpty then ascii " " else line⟩
      :: infosFrom objective (i + 1) (score - 1) lines

def infos (objective : List UInt8) (lines : List (List UInt8)) : List ScorePacketInfo :=
  infosFrom objective 2 (Int32.ofNat lines.length) lines

/-- `LEVI_RS_PACT_SIDEBAR_SET`; `created` tells which packets `createPacket` makes. -/
def sidebarSet (created : MinecraftPacketIds → Bool) (sarg : List UInt8) : Bool × List Packet :=
  match splitLines sarg with
  | objective :: title :: lines =>
    if objective.isEmpty then (false, [])
    else
      let gone := if created .RemoveObjective then [.removeObjective objective] else []
      if !created .SetDisplayObjective then (false, gone)
      else
        let shown := gone ++ [.setDisplayObjective (ascii "sidebar") objective title (ascii "dummy") .Descending]
        if lines.isEmpty then (true, shown)
        else if !created .SetScore then (false, shown)
        else (true, shown ++ [.setScore .Change (infos objective lines)])
  | _ => (false, [])

/-- The call of a mod for a player who is there: its result, and the packets the player is sent. -/
def set_sidebar (created : MinecraftPacketIds → Bool) (objective title : String) (lines : List String) :
    Except String Unit × List Packet :=
  match payload objective title lines with
  | .error e => (.error e, [])
  | .ok text =>
    match sidebarSet created (encode text.toList) with
    | (true, sent) => (.ok (), sent)
    | (false, sent) => (.error "player offline or action unsupported", sent)

/-! ## What is split again -/

section Split

theorem splitFrom_last {line : List UInt8} (h : byteOf '\n' ∉ line) (passed : List UInt8) :
    splitFrom passed line = [passed ++ line] := by
  induction line generalizing passed with
  | nil => rw [splitFrom, List.append_nil]
  | cons b line ih =>
    rw [List.mem_cons, not_or] at h
    rw [splitFrom, if_neg (Ne.symm h.1), ih h.2, List.append_assoc]
    rfl

theorem splitFrom_append {line : List UInt8} (h : byteOf '\n' ∉ line) (passed rest : List UInt8) :
    splitFrom passed (line ++ byteOf '\n' :: rest) = (passed ++ line) :: splitLines rest := by
  induction line generalizing passed with
  | nil => rw [List.nil_append, splitFrom, if_pos rfl, List.append_nil, splitLines]
  | cons b line ih =>
    rw [List.mem_cons, not_or] at h
    rw [List.cons_append, splitFrom, if_neg (Ne.symm h.1), ih h.2, List.append_assoc]
    rfl

theorem newline_notMem {t : List Char} (h : '\n' ∉ t) : byteOf '\n' ∉ encode t := by
  induction t with
  | nil => simp
  | cons c t ih =>
    rw [List.mem_cons, not_or] at h
    rw [encode_cons, List.mem_append, byteOf_mem_encodeChar rfl, not_or]
    exact ⟨fun hc => h.1 hc.symm, ih h.2⟩

/-- The text of the lines, the first without a newline before it. -/
def joined (first : String) (lines : List String) : List Char :=
  first.toList ++ lines.flatMap fun l => '\n' :: l.toList

theorem splitLines_joined {first : String} {lines : List String} (hf : '\n' ∉ first.toList)
    (hl : ∀ l ∈ lines, '\n' ∉ l.toList) :
    splitLines (encode (joined first lines)) = encode first.toList :: lines.map fun l => encode l.toList := by
  induction lines generalizing first with
  | nil =>
    rw [joined, List.flatMap_nil, List.append_nil, splitLines, splitFrom_last (newline_notMem hf)]
    rfl
  | cons l lines ih =>
    have hrest : joined first (l :: lines) = first.toList ++ '\n' :: joined l lines := by
      simp [joined]
    rw [hrest, encode_append, encode_cons_ascii rfl, splitLines, splitFrom_append (newline_notMem hf),
      ih (hl l List.mem_cons_self) fun l' hl' => hl l' (List.mem_cons_of_mem _ hl')]
    rfl

theorem toList_foldl (text : String) (lines : List String) :
    (lines.foldl (fun text line => text.push '\n' ++ line) text).toList = joined text lines := by
  induction lines generalizing text with
  | nil => simp [joined]
  | cons l lines ih =>
    rw [List.foldl_cons, ih]
    simp [joined, String.toList_append, String.toList_push]

/-- Everything is one line, and the objective is not empty. -/
structure Plain (objective title : String) (lines : List String) : Prop where
  nonempty : objective ≠ ""
  objective : '\n' ∉ objective.toList
  title : '\n' ∉ title.toList
  lines : ∀ l ∈ lines, '\n' ∉ l.toList

theorem payload_ok {objective title : String} {lines : List String} (h : Plain objective title lines) :
    payload objective title lines = .ok (payloadText objective title lines) := by
  rw [payload, if_neg, if_neg]
  · simpa [hasNewline] using h.lines
  · simp [hasNewline, h.nonempty, h.objective, h.title]

theorem payload_error {objective title : String} {lines : List String} (h : ¬Plain objective title lines) :
    ∃ e, payload objective title lines = .error e := by
  unfold payload
  split_ifs with hhead hlines
  · exact ⟨_, rfl⟩
  · exact ⟨_, rfl⟩
  · simp only [hasNewline, Bool.or_eq_true, String.isEmpty_iff, decide_eq_true_eq, not_or] at hhead
    simp only [hasNewline, List.any_eq_true, decide_eq_true_eq, not_exists, not_and] at hlines
    exact absurd ⟨hhead.1.1, hhead.1.2, hhead.2, hlines⟩ h

/-- The native side gets back what was put together. -/
theorem splitLines_payloadText {objective title : String} {lines : List String} (h : Plain objective title lines) :
    splitLines (encode (payloadText objective title lines).toList)
      = encode objective.toList :: encode title.toList :: lines.map fun l => encode l.toList := by
  have htext : (payloadText objective title lines).toList = joined objective (title :: lines) :=
    toList_foldl objective (title :: lines)
  rw [htext, splitLines_joined h.objective]
  · rfl
  · intro l hl
    rcases List.mem_cons.mp hl with rfl | hl
    · exact h.title
    · exact h.lines l hl

end Split

/-! ## The rows -/

section Rows

variable {objective : List UInt8} {lines : List (List UInt8)}

/-- The name of a row; an empty line becomes a blank. -/
def rowName (line : List UInt8) : List UInt8 := if line.isEmpty then ascii " " else line

theorem objectiveSlotHash_lt (objective : List UInt8) : (objectiveSlotHash objective).toNat < 262144 := by
  rw [objectiveSlotHash, UInt32.toNat_and]
  exact Nat.lt_succ_of_le Nat.and_le_right

theorem toInt_kSidebarIdBase (objective : List UInt8) :
    (kSidebarIdBase objective).toInt = 0x40000000 + (objectiveSlotHash objective).toNat * 4096 := by
  have hlt := objectiveSlotHash_lt objective
  have hslot : (Int64.ofNat (objectiveSlotHash objective).toNat).toInt = (objectiveSlotHash objective).toNat :=
    Int64.toInt_ofNat_of_lt (by omega)
  have hmul : (Int64.ofNat (objectiveSlotHash objective).toNat * 4096).toInt
      = (objectiveSlotHash objective).toNat * 4096 := by
    rw [Int64.toInt_mul, hslot]
    exact Int.bmod_eq_of_le (by simp; omega) (by simp; omega)
  rw [kSidebarIdBase, Int64.toInt_add, hmul]
  exact Int.bmod_eq_of_le (by simp; omega) (by simp; omega)

variable (objective) in
theorem length_infosFrom (i : Nat) (score : Int32) : (infosFrom objective i score lines).length = lines.length := by
  induction lines generalizing i score with
  | nil => rfl
  | cons line lines ih => rw [infosFrom, List.length_cons, ih, List.length_cons]

/-- The row of the line `k`, counted from 0. -/
theorem getElem?_infosFrom {k : Nat} {line : List UInt8} (h : lines[k]? = some line) (i : Nat) (score : Int32) :
    (infosFrom objective i score lines)[k]?
      = some ⟨kSidebarIdBase objective + Int64.ofNat (i + k - 1), objective, score - Int32.ofNat k, rowName line⟩ := by
  induction lines generalizing k i score with
  | nil => cases h
  | cons first lines ih =>
    cases k with
    | zero =>
      cases h
      simp [infosFrom, rowName]
    | succ k =>
      rw [List.getElem?_cons_succ] at h
      have hscore : score - 1 - Int32.ofNat k = score - Int32.ofNat (k + 1) := by
        rw [Int32.ofNat_add, Int32.sub_sub, Int32.add_comm]
        rfl
      rw [infosFrom, List.getElem?_cons_succ, ih h, hscore, show i + 1 + k = i + (k + 1) by omega]

/-- The row of the line `k` of a board of `n`: the scores go down, so the lines stand in their order. -/
structure IsRow (objective line : List UInt8) (n k : Nat) (row : ScorePacketInfo) : Prop where
  id : row.mRawID.toInt = 0x40000000 + (objectiveSlotHash objective).toNat * 4096 + (k + 1)
  objective : row.mObjectiveName = objective
  score : row.mScoreValue.toInt = n - k
  name : row.mFakePlayerName = rowName line

variable (objective) in
theorem getElem?_infos (hlen : lines.length < 2147483648) {k : Nat} {line : List UInt8} (h : lines[k]? = some line) :
    ∃ row, (infos objective lines)[k]? = some row ∧ IsRow objective line lines.length k row := by
  have hlt := objectiveSlotHash_lt objective
  have hk : k < lines.length := (List.getElem?_eq_some_iff.mp h).1
  refine ⟨_, getElem?_infosFrom h 2 _, ?_, rfl, ?_, rfl⟩
  · have hrow : (Int64.ofNat (2 + k - 1)).toInt = k + 1 := by
      rw [Int64.toInt_ofNat_of_lt (by omega)]
      omega
    dsimp only
    rw [Int64.toInt_add, toInt_kSidebarIdBase, hrow]
    exact Int.bmod_eq_of_le (by omega) (by omega)
  · dsimp only
    rw [Int32.toInt_sub, Int32.toInt_ofNat_of_lt (by omega), Int32.toInt_ofNat_of_lt (by omega)]
    exact Int.bmod_eq_of_le (by omega) (by omega)

theorem mem_infos (hlen : lines.length < 2147483648) {row : ScorePacketInfo} (h : row ∈ infos objective lines) :
    ∃ k line, k < lines.length ∧ IsRow objective line lines.length k row := by
  obtain ⟨k, hk⟩ := List.mem_iff_getElem?.mp h
  have hlt : k < lines.length := by
    rw [← length_infosFrom objective 2 (Int32.ofNat lines.length)]
    exact (List.getElem?_eq_some_iff.mp hk).1
  obtain ⟨row', hrow', hrow⟩ := getElem?_infos objective hlen (List.getElem?_eq_getElem hlt)
  rw [hk] at hrow'
  cases hrow'
  exact ⟨k, lines[k], hlt, hrow⟩

end Rows

/-! ## What a player is sent -/

/-- A board is refused before anything is sent or sent whole: the old board is taken down, the new one is
put up, and then come its rows, one for each line and in the order of the lines. -/
theorem sidebar_shown {created : MinecraftPacketIds → Bool} (hc : ∀ p, created p = true) (objective title : String)
    {lines : List String} (hlen : lines.length < 2147483648) :
    (¬Plain objective title lines → ∃ e, set_sidebar created objective title lines = (.error e, []))
      ∧ (Plain objective title lines → ∃ rows : List ScorePacketInfo,
        set_sidebar created objective title lines = (.ok (),
            [.removeObjective (encode objective.toList),
              .setDisplayObjective (ascii "sidebar") (encode objective.toList) (encode title.toList) (ascii "dummy")
                .Descending] ++ if lines = [] then [] else [.setScore .Change rows])
          ∧ rows.length = lines.length
          ∧ ∀ k line, lines[k]? = some line → ∃ row, rows[k]? = some row
            ∧ IsRow (encode objective.toList) (encode line.toList) lines.length k row) := by
  refine ⟨fun h => ?_, fun h => ?_⟩
  · obtain ⟨e, he⟩ := payload_error h
    exact ⟨e, by rw [set_sidebar, he]⟩
  · have hne : (encode objective.toList).isEmpty = false := by
      rw [List.isEmpty_eq_false_iff, ne_eq, encode_eq_nil, String.toList_eq_nil_iff]
      exact h.nonempty
    refine ⟨infos (encode objective.toList) (lines.map fun l => encode l.toList), ?_, ?_, fun k line hk => ?_⟩
    · simp only [set_sidebar, payload_ok h, sidebarSet, splitLines_payloadText h, hne, hc]
      cases lines with
      | nil => rfl
      | cons l lines => simp
    · rw [infos, length_infosFrom, List.length_map]
    · have hk' : (lines.map fun l => encode l.toList)[k]? = some (encode line.toList) := by
        rw [List.getElem?_map, hk]
        rfl
      have hrow := getElem?_infos (encode objective.toList) (by simpa using hlen) hk'
      rwa [List.length_map] at hrow

/-- Boards of at most 4096 lines share a row number exactly when the names of their objectives fall
into one slot, and no row has a number outside the range kept for them. -/
theorem boards_apart {objective objective' : List UInt8} {lines lines' : List (List UInt8)} (hne : lines ≠ [])
    (hne' : lines' ≠ []) (hlen : lines.length ≤ 4096) (hlen' : lines'.length ≤ 4096) :
    ((∀ row ∈ infos objective lines, ∀ row' ∈ infos objective' lines', row.mRawID ≠ row'.mRawID)
        ↔ objectiveSlotHash objective ≠ objectiveSlotHash objective')
      ∧ ∀ row ∈ infos objective lines, 0x40000000 < row.mRawID.toInt ∧ row.mRawID.toInt ≤ 0x80000000 := by
  have hlt := objectiveSlotHash_lt objective
  refine ⟨⟨fun h hslot => ?_, fun h row hrow row' hrow' hid => ?_⟩, fun row hrow => ?_⟩
  · -- the first rows have the first number of the slot
    obtain ⟨line, rest, rfl⟩ := List.exists_cons_of_ne_nil hne
    obtain ⟨line', rest', rfl⟩ := List.exists_cons_of_ne_nil hne'
    have hfirst : (line :: rest)[0]? = some line := rfl
    have hfirst' : (line' :: rest')[0]? = some line' := rfl
    obtain ⟨row, hrow, hr⟩ := getElem?_infos objective (Nat.lt_of_le_of_lt hlen (by decide)) hfirst
    obtain ⟨row', hrow', hr'⟩ := getElem?_infos objective' (Nat.lt_of_le_of_lt hlen' (by decide)) hfirst'
    refine h row (List.mem_of_getElem? hrow) row' (List.mem_of_getElem? hrow') (Int64.toInt_inj.mp ?_)
    rw [hr.id, hr'.id, hslot]
  · obtain ⟨k, _, hk, hr⟩ := mem_infos (Nat.lt_of_le_of_lt hlen (by decide)) hrow
    obtain ⟨k', _, hk', hr'⟩ := mem_infos (Nat.lt_of_le_of_lt hlen' (by decide)) hrow'
    have hsame := congrArg Int64.toInt hid
    rw [hr.id, hr'.id] at hsame
    exact h (UInt32.toNat_inj.mp (by omega))
  · obtain ⟨k, _, hk, hr⟩ := mem_infos (Nat.lt_of_le_of_lt hlen (by decide)) hrow
    rw [hr.id]
    omega

/-! ## Instances -/

theorem sidebar_shown_empty_line :
    (¬Plain "board" "Title" ["a", ""] → ∃ e, set_sidebar (fun _ => true) "board" "Title" ["a", ""] = (.error e, []))
      ∧ (Plain "board" "Title" ["a", ""] → ∃ rows : List ScorePacketInfo,
        set_sidebar (fun _ => true) "board" "Title" ["a", ""] = (.ok (),
            [.removeObjective (encode "board".toList),
              .setDisplayObjective (ascii "sidebar") (encode "board".toList) (encode "Title".toList) (ascii "dummy")
                .Descending] ++ if ["a", ""] = [] then [] else [.setScore .Change rows])
          ∧ rows.length = 2
          ∧ ∀ k line, ["a", ""][k]? = some line → ∃ row, rows[k]? = some row
            ∧ IsRow (encode "board".toList) (encode line.toList) 2 k row) :=
  sidebar_shown (fun _ => rfl) "board" "Title" (by decide)

theorem boards_apart_lobby :
    ((∀ row ∈ infos (ascii "lobby") [[97]], ∀ row' ∈ infos (ascii "bedwars") [[98], [99]], row.mRawID ≠ row'.mRawID)
        ↔ objectiveSlotHash (ascii "lobby") ≠ objectiveSlotHash (ascii "bedwars"))
      ∧ ∀ row ∈ infos (ascii "lobby") [[97]], 0x40000000 < row.mRawID.toInt ∧ row.mRawID.toInt ≤ 0x80000000 :=
  boards_apart (by decide) (by decide) (by decide) (by decide)

end Sidebar
