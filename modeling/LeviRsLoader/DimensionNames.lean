import LeviRsLoader.DimensionBoots

/-!
# Names and ids of dimensions

Mods speak of ids, the engine of names. `dimensionSelector` asks the ledger, the engine's map and the
list for the name of an id, `api_md_get_dimension_id` the map and the list for the id of a name. A boot
loses the ledger and the map; the file keeps the list.
-/
namespace DimensionNames

open DimensionLedger DimensionIds DimensionBoots
open DimensionFailure (DimensionMap Manager Written api_md_get_dimension_id impl_addDimension written_publish)
open Runs (Run Meets)

variable {N : Type}

/-- The tables of the process, and `dimension_config.json`. -/
structure World (N : Type) where
  m : Manager N
  file : Table String StoredInfo

/-- Without the engine's map. -/
def World.server (w : World N) : Server N := ⟨w.m.impl, w.file⟩

def dimensionSelector (dim : Int) (m : Manager N) : String :=
  if dim = 0 then "overworld"
  else if dim = 1 then "nether"
  else if dim = 2 then "the_end"
  else if dim < 0 then ""
  else if dimensionNameOf dim m.impl.ledger ≠ "" then dimensionNameOf dim m.impl.ledger
  else
    match m.dimensionMap.mLeft.lookup dim with
    | some name => name
    | none =>
      match m.impl.dimensionList.entries.find? fun e => e.2.dimId = dim with
      | some e => e.1
      | none => ""

/-- What a call finds in the engine. An instance is what its own id says. -/
structure Engine where
  level : Bool
  /-- The dimensions `getDimension` answers with. -/
  getDimension : Int → Bool
  getOrCreateByName : String → Option Int
  /-- `getOrCreateDimension` by id, which knows the dimensions of the game. -/
  getOrCreateDimension : Int → Bool

/-- The id of the dimension whose blocks a caller gets. -/
def blockSourceOf (E : Engine) (dimId : Int) (m : Manager N) : Option Int :=
  if !E.level then none
  else if E.getDimension dimId then some dimId
  else if 3 ≤ dimId then
    if dimensionNameOf dimId m.impl.ledger = "" then none
    else E.getOrCreateByName (dimensionNameOf dimId m.impl.ledger)
  else if dimensionSelector dimId m = "" then none
  else if E.getOrCreateDimension dimId then some dimId
  else none

/-- Where the player is sent, if anywhere; `player` is whether `resolvePlayer` finds one. -/
def api_player_teleport (E : Engine) (player : Bool) (dim : Int) (m : Manager N) : Option Int :=
  if !player then none
  else
    let name := dimensionSelector dim m
    if name = "" then none
    else if 3 ≤ dim ∧ E.getOrCreateByName name ≠ some dim then none
    else if (blockSourceOf E dim m).isNone then none
    else some dim

/-! ## Runs -/

def boot (fromSnbt : String → Option N) (dimensionList : Table String StoredInfo) (dimensionMap : DimensionMap)
    (undefined : Int) : World N :=
  ⟨⟨customDimensionManager fromSnbt dimensionList, dimensionMap, undefined⟩, dimensionList⟩

/-- `addDimension` with both tables, and the file as in `DimensionBoots.call`. -/
def call (toSnbt : N → String) (c : Call N) (saved : Bool) (w : World N) : Outcome × World N :=
  let r := w.m.addDimension toSnbt c
  let written := decide (r.2.impl.dimensionList.lookup c.dimName ≠ w.m.impl.dimensionList.lookup c.dimName)
  (r.1, ⟨r.2, if written && saved then r.2.impl.dimensionList else w.file⟩)

inductive Label (N : Type) where
  | call (c : Call N) (saved : Bool)
  /-- The next boot: the file as it is read, and the engine's map as it starts. -/
  | boot (dimensionList : Table String StoredInfo) (dimensionMap : DimensionMap) (undefined : Int)

inductive Step (fromSnbt : String → Option N) (toSnbt : N → String) : World N → Label N → World N → Prop where
  | call (w : World N) (c : Call N) (saved : Bool) (h : (call toSnbt c saved w).1 ≠ .hangs) :
      Step fromSnbt toSnbt w (.call c saved) (call toSnbt c saved w).2
  | boot (w : World N) (dimensionList : Table String StoredInfo) (dimensionMap : DimensionMap) (undefined : Int)
      (h : ∀ n, dimensionList.lookup n = w.file.lookup n) :
      Step fromSnbt toSnbt w (.boot dimensionList dimensionMap undefined)
        (boot fromSnbt dimensionList dimensionMap undefined)

/-- A name that `api_md_get_dimension_id` looks up. -/
def Custom (n : String) : Prop := n ≠ "" ∧ n ≠ "overworld" ∧ n ≠ "nether" ∧ n ≠ "the_end"

/-- The engine's map as it starts: the dimensions of the game and no others. -/
structure Vanilla (dimensionMap : DimensionMap) : Prop where
  left : ∀ i, 3 ≤ i → dimensionMap.mLeft.lookup i = none
  right : ∀ n, Custom n → dimensionMap.mRight.lookup n = none

def SaneStep (w : World N) : Label N → Prop
  | .call c saved => Sane w.server c saved
  | .boot _ dimensionMap _ => Vanilla dimensionMap

theorem server_call (toSnbt : N → String) (c : Call N) (saved : Bool) (w : World N) :
    (call toSnbt c saved w).1 = (DimensionBoots.call toSnbt c saved w.server).1
      ∧ (call toSnbt c saved w).2.server = (DimensionBoots.call toSnbt c saved w.server).2 := by
  obtain ⟨hout, himpl⟩ := impl_addDimension toSnbt c w.m
  refine ⟨hout, ?_⟩
  simp only [World.server, call, DimensionBoots.call, himpl]
  rfl

/-! ## What has to hold -/

/-- Beside the books: wherever a custom dimension is named, the name has the id. -/
structure Named (w : World N) : Prop where
  settled : Settled w.server
  ledgerById : ∀ i n, w.m.impl.ledger.ledgerById.lookup i = some n → i = -1 ∨ Holds w.m.impl n i
  mLeft : ∀ i n, 3 ≤ i → w.m.dimensionMap.mLeft.lookup i = some n → Holds w.m.impl n i
  mRight : ∀ n i, Custom n → w.m.dimensionMap.mRight.lookup n = some i → Holds w.m.impl n i

theorem ledger_loadEntry (fromSnbt : String → Option N) (s : Int × Impl N) (name : String) (info : StoredInfo) :
    (loadEntry fromSnbt s name info).2.ledger = s.2.ledger := by
  obtain ⟨highest, m⟩ := s
  simp only [loadEntry]
  split
  · rfl
  · split
    · rfl
    · split <;> rfl

/-- The constructor leaves the ledger empty. -/
theorem ledger_customDimensionManager (fromSnbt : String → Option N) (dimensionList : Table String StoredInfo) :
    (customDimensionManager fromSnbt dimensionList).ledger = .initial := by
  have hfold : ∀ (es : List (Σ _ : String, StoredInfo)) (s : Int × Impl N),
      (es.foldl (fun s e => loadEntry fromSnbt s e.1 e.2) s).2.ledger = s.2.ledger := by
    intro es
    induction es with
    | nil => exact fun _ => rfl
    | cons e es ih => exact fun s => (ih _).trans (ledger_loadEntry fromSnbt s e.1 e.2)
  exact hfold _ _

theorem named_boot (fromSnbt : String → Option N) {dimensionList : Table String StoredInfo} (h : Clean dimensionList)
    {dimensionMap : DimensionMap} (hv : Vanilla dimensionMap) (undefined : Int) :
    Named (boot fromSnbt dimensionList dimensionMap undefined) where
  settled := settled_boot fromSnbt h
  ledgerById i n hl := by
    have : (boot fromSnbt dimensionList dimensionMap undefined).m.impl.ledger = .initial :=
      ledger_customDimensionManager fromSnbt dimensionList
    rw [this] at hl
    cases hl
  mLeft i n hi hl := by
    have : dimensionMap.mLeft.lookup i = some n := hl
    rw [hv.left i hi] at this
    cases this
  mRight n i hn hl := by
    have : dimensionMap.mRight.lookup n = some i := hl
    rw [hv.right n hn] at this
    cases this

/-! ## One call -/

section Call

variable {toSnbt : N → String} {c : Call N}

/-- A call never comes back, changes nothing, or writes every table; the ledger has the id unless the
engine's instance has another. -/
theorem addDimension_written (toSnbt : N → String) (c : Call N) (m : Manager N) :
    (m.addDimension toSnbt c).1 = .hangs ∨ (m.addDimension toSnbt c).2 = m
      ∨ ∃ id shown, Written c.dimName id shown m (m.addDimension toSnbt c).2 ∧ (shown = id ∨ shown = -1) := by
  unfold Manager.addDimension
  split
  · exact .inr (.inl rfl)
  · dsimp only
    split
    · exact .inr (.inl rfl)
    · next info m₁ hprep =>
      split
      · exact .inl rfl
      · next info' m₂ hassign =>
        have hw := written_publish toSnbt hprep hassign
        refine .inr (.inr ⟨info'.id, ?_⟩)
        simp only [Manager.verify, DimensionIds.verify]
        split
        · exact ⟨info'.id, hw, .inl rfl⟩
        · split
          · exact ⟨-1, hw.rollback, .inr rfl⟩
          · exact ⟨info'.id, hw, .inl rfl⟩

theorem named_call {w : World N} {saved : Bool} (h : Named w) (hs : Sane w.server c saved)
    (hout : (call toSnbt c saved w).1 ≠ .hangs) : Named (call toSnbt c saved w).2 := by
  obtain ⟨hsame, hserver⟩ := server_call toSnbt c saved w
  have hout' : (DimensionBoots.call toSnbt c saved w.server).1 ≠ .hangs := by rwa [← hsame]
  obtain ⟨hsettled, hkept, -⟩ := settled_call h.settled hs hout'
  rw [← hserver] at hsettled hkept
  have hkept : ∀ n i, Holds w.m.impl n i → Holds (w.m.addDimension toSnbt c).2.impl n i := hkept
  rcases addDimension_written toSnbt c w.m with hhang | hm | ⟨id, shown, hw, hshown⟩
  · exact absurd hhang hout
  · have hm : (call toSnbt c saved w).2.m = w.m := hm
    refine ⟨hsettled, ?_, ?_, ?_⟩
    all_goals rw [hm]
    · exact h.ledgerById
    · exact h.mLeft
    · exact h.mRight
  · have hown : Holds (w.m.addDimension toSnbt c).2.impl c.dimName id := by
      obtain ⟨info, hid, hl⟩ := hw.customDimensionMap
      exact .inl ⟨info, by rw [hl, if_pos rfl], hid⟩
    refine ⟨hsettled, fun i n hl => ?_, fun i n hi hl => ?_, fun n i hn hl => ?_⟩
    · have hl : (w.m.addDimension toSnbt c).2.impl.ledger.ledgerById.lookup i = some n := hl
      rw [hw.ledgerById] at hl
      split_ifs at hl with hi ho
      · cases hl
        rcases hshown with rfl | rfl
        · rw [hi]
          exact .inr hown
        · exact .inl hi
      · exact (h.ledgerById i n hl).imp_right (hkept n i)
    · have hl : (w.m.addDimension toSnbt c).2.dimensionMap.mLeft.lookup i = some n := hl
      rw [hw.mLeft] at hl
      split_ifs at hl with hid ho
      · cases hl
        rw [hid]
        exact hown
      · exact hkept n i (h.mLeft i n hi hl)
    · have hl : (w.m.addDimension toSnbt c).2.dimensionMap.mRight.lookup n = some i := hl
      rw [hw.mRight] at hl
      split_ifs at hl with hname
      · cases hl
        rw [hname]
        exact hown
      · exact hkept n i (h.mRight n i hn hl)

end Call

/-! ## The two directions -/

section Resolved

variable {w : World N} {i : Int} {n : String}

/-- An id has the name it is given, or no name at all. -/
theorem selector_cases (h : Named w) (hi : 3 ≤ i) :
    Holds w.m.impl (dimensionSelector i w.m) i
      ∨ dimensionSelector i w.m = "" ∧ ∀ n, ¬Holds w.m.impl n i := by
  rw [dimensionSelector, if_neg (by omega), if_neg (by omega), if_neg (by omega), if_neg (by omega)]
  split
  · next hledger =>
    cases hl : w.m.impl.ledger.ledgerById.lookup i with
    | none => exact absurd (by rw [dimensionNameOf, hl]; rfl) hledger
    | some name =>
      rw [dimensionNameOf, hl]
      exact .inl ((h.ledgerById i name hl).resolve_left (by omega))
  · split
    · next name hl => exact .inl (h.mLeft i name hi hl)
    · split
      · next e he =>
        refine .inl ((h.settled.sync e.1 i).mpr ⟨e.2, ?_, by simpa using List.find?_some he⟩)
        exact AList.lookup_eq_some_iff.mpr (List.mem_of_find?_eq_some he)
      · next hnone =>
        refine .inr ⟨rfl, fun n hn => ?_⟩
        obtain ⟨info, hl, hid⟩ := (h.settled.sync n i).mp hn
        rw [List.find?_eq_none] at hnone
        exact hnone ⟨n, info⟩ (AList.lookup_eq_some_iff.mp hl) (by simpa using hid)

theorem selector_iff (h : Named w) (hi : 3 ≤ i) (hn : n ≠ "") :
    dimensionSelector i w.m = n ↔ Holds w.m.impl n i := by
  rcases selector_cases h hi with hheld | ⟨hempty, hnone⟩
  · constructor
    · rintro rfl
      exact hheld
    · exact fun hin => h.settled.unique _ _ i hheld hin
  · rw [hempty]
    exact ⟨fun he => absurd he.symm hn, fun hin => absurd hin (hnone n)⟩

/-- A name has the id it is given, or no id at all. -/
theorem get_dimension_id_cases (h : Named w) (hn : Custom n) :
    Holds w.m.impl n (api_md_get_dimension_id n w.m)
      ∨ api_md_get_dimension_id n w.m = -1 ∧ ∀ i, ¬Holds w.m.impl n i := by
  have hlisted : ∀ info, w.m.impl.dimensionList.lookup n = some info → Holds w.m.impl n info.dimId :=
    fun info hl => (h.settled.sync n _).mpr ⟨info, hl, rfl⟩
  have hmissing : w.m.impl.dimensionList.lookup n = none → ∀ i, ¬Holds w.m.impl n i := by
    intro hl i hin
    obtain ⟨info, hl', -⟩ := (h.settled.sync n i).mp hin
    have hl' : w.m.impl.dimensionList.lookup n = some info := hl'
    rw [hl] at hl'
    cases hl'
  rw [api_md_get_dimension_id, if_neg hn.1, if_neg hn.2.1, if_neg hn.2.2.1, if_neg hn.2.2.2]
  cases hr : w.m.dimensionMap.mRight.lookup n with
  | none =>
    cases hl : w.m.impl.dimensionList.lookup n with
    | none => exact .inr ⟨rfl, hmissing hl⟩
    | some info => exact .inl (hlisted info hl)
  | some id =>
    dsimp only
    split
    · exact .inl (h.mRight n id hn hr)
    · cases hl : w.m.impl.dimensionList.lookup n with
      | none => exact .inr ⟨rfl, hmissing hl⟩
      | some info => exact .inl (hlisted info hl)

theorem get_dimension_id_iff (h : Named w) (hn : Custom n) (hi : i ≠ -1) :
    api_md_get_dimension_id n w.m = i ↔ Holds w.m.impl n i := by
  rcases get_dimension_id_cases h hn with hheld | ⟨hmissing, hnone⟩
  · constructor
    · rintro rfl
      exact hheld
    · exact fun hin => h.settled.inj hheld hin
  · rw [hmissing]
    exact ⟨fun he => absurd he.symm hi, fun hin => absurd hin (hnone i)⟩

/-- With the right instance at hand, all that is missing is the dimension itself or the ledger's word for it. -/
theorem blockSourceOf_isSome_iff (h : Named w) (hi : 3 ≤ i) (hn : n ≠ "") (hheld : Holds w.m.impl n i) {E : Engine}
    (hE : E.getOrCreateByName n = some i) :
    (blockSourceOf E i w.m).isSome ↔
      E.level = true ∧ (E.getDimension i = true ∨ w.m.impl.ledger.ledgerById.lookup i = some n) := by
  have hledger : ∀ n', w.m.impl.ledger.ledgerById.lookup i = some n' → n' = n := fun n' hl =>
    h.settled.unique _ _ i ((h.ledgerById i n' hl).resolve_left (by omega)) hheld
  unfold blockSourceOf dimensionNameOf
  cases E.level with
  | false => simp
  | true =>
    cases E.getDimension i with
    | true => simp
    | false =>
      simp only [Bool.not_true, Bool.false_eq_true, if_false, if_pos hi, true_and, false_or]
      cases hl : w.m.impl.ledger.ledgerById.lookup i with
      | none => simp
      | some n' =>
        obtain rfl := hledger n' hl
        simp [hn, hE]

/-- The file has the ids. -/
theorem holds_iff_file (h : Settled w.server) :
    Holds w.m.impl n i ↔ ∃ info, w.file.lookup n = some info ∧ info.dimId = i := by
  have hfile : w.file.lookup n = w.m.impl.dimensionList.lookup n := h.file n
  rw [hfile]
  exact h.sync n i

end Resolved

/-! ## Over a run -/

section Runs

variable {fromSnbt : String → Option N} {toSnbt : N → String}

theorem named_step {w w' : World N} {l : Label N} (h : Named w) (hl : SaneStep w l)
    (hs : Step fromSnbt toSnbt w l w') : Named w' := by
  cases hs with
  | call c saved hout => exact named_call h hl hout
  | boot dimensionList dimensionMap undefined hfile => exact named_boot fromSnbt (h.settled.clean hfile) hl undefined

theorem named_run {dimensionList : Table String StoredInfo} (h : Clean dimensionList) {dimensionMap : DimensionMap}
    (hv : Vanilla dimensionMap) {undefined : Int} {tr : List (World N × Label N)} {u : World N}
    (hr : Run (Step fromSnbt toSnbt) (boot fromSnbt dimensionList dimensionMap undefined) tr u)
    (hG : Meets SaneStep tr) : Named u :=
  hr.invariant Named hG (named_boot fromSnbt h hv undefined) fun _ _ _ ht hl hs => named_step ht hl hs

/-- Wherever a run of boots and calls stands, and whatever has thrown in it: the name of an id and the id
of a name are those of the file, so that each leads back to the other. -/
theorem names_resolve (fromSnbt : String → Option N) (toSnbt : N → String) {dimensionList : Table String StoredInfo}
    (h : Clean dimensionList) {dimensionMap : DimensionMap} (hv : Vanilla dimensionMap) {undefined : Int}
    {tr : List (World N × Label N)} {u : World N}
    (hr : Run (Step fromSnbt toSnbt) (boot fromSnbt dimensionList dimensionMap undefined) tr u)
    (hG : Meets SaneStep tr) :
    (∀ i n, 3 ≤ i → n ≠ "" →
      (dimensionSelector i u.m = n ↔ ∃ info, u.file.lookup n = some info ∧ info.dimId = i))
      ∧ ∀ n i, Custom n → i ≠ -1 →
        (api_md_get_dimension_id n u.m = i ↔ ∃ info, u.file.lookup n = some info ∧ info.dimId = i) := by
  have hu := named_run h hv hr hG
  constructor
  · intro i n hi hn
    rw [selector_iff hu hi hn, holds_iff_file hu.settled]
  · intro n i hn hi
    rw [get_dimension_id_iff hu hn hi, holds_iff_file hu.settled]

/-- A player is sent to a custom dimension and to no other than the one asked for, exactly when the file
has a name for the id, the engine's instance of that name has the id, and the dimension is there already or
the ledger has the name. -/
theorem teleport_iff (fromSnbt : String → Option N) (toSnbt : N → String) {dimensionList : Table String StoredInfo}
    (h : Clean dimensionList) {dimensionMap : DimensionMap} (hv : Vanilla dimensionMap) {undefined : Int}
    {tr : List (World N × Label N)} {u : World N}
    (hr : Run (Step fromSnbt toSnbt) (boot fromSnbt dimensionList dimensionMap undefined) tr u)
    (hG : Meets SaneStep tr) (E : Engine) (player : Bool) {dim : Int} (hd : 3 ≤ dim) (d : Int) :
    api_player_teleport E player dim u.m = some d ↔
      d = dim ∧ player = true ∧ E.level = true ∧ ∃ n, n ≠ ""
        ∧ (∃ info, u.file.lookup n = some info ∧ info.dimId = dim) ∧ E.getOrCreateByName n = some dim
        ∧ (E.getDimension dim = true ∨ u.m.impl.ledger.ledgerById.lookup dim = some n) := by
  have hu := named_run h hv hr hG
  unfold api_player_teleport
  cases player with
  | false => simp
  | true =>
    simp only [Bool.not_true, Bool.false_eq_true, if_false, hd, true_and]
    constructor
    · intro hsent
      split_ifs at hsent with hnamed hinstance hblocks
      cases hsent
      rw [not_not] at hinstance
      rw [Bool.not_eq_true, Option.isNone_eq_false_iff] at hblocks
      have hheld := (selector_iff hu hd hnamed).mp rfl
      obtain ⟨hlevel, hthere⟩ := (blockSourceOf_isSome_iff hu hd hnamed hheld hinstance).mp hblocks
      exact ⟨rfl, hlevel, _, hnamed, (holds_iff_file hu.settled).mp hheld, hinstance, hthere⟩
    · rintro ⟨rfl, hlevel, n, hn, hfile, hinstance, hthere⟩
      have hheld := (holds_iff_file hu.settled).mpr hfile
      have hblocks := (blockSourceOf_isSome_iff hu hd hn hheld hinstance).mpr ⟨hlevel, hthere⟩
      rw [(selector_iff hu hd hn).mpr hheld, if_neg hn, if_neg (not_not.mpr hinstance), if_neg]
      rw [Bool.not_eq_true, Option.isNone_eq_false_iff]
      exact hblocks

end Runs

/-! ## An instance -/

/-- The engine's map with the dimensions of the game. -/
def gameMap : DimensionMap :=
  ⟨((∅ : Table Int String).insert 0 "overworld").insert 1 "nether" |>.insert 2 "the_end",
    ((∅ : Table String Int).insert "overworld" 0).insert "nether" 1 |>.insert "the_end" 2⟩

theorem vanilla_gameMap : Vanilla gameMap where
  left i hi := by
    have h (j : Int) (hj : j < 3) : i ≠ j := by omega
    rw [gameMap, AList.lookup_insert_ne (h 2 (by decide)), AList.lookup_insert_ne (h 1 (by decide)),
      AList.lookup_insert_ne (h 0 (by decide))]
    rfl
  right n hn := by
    rw [gameMap, AList.lookup_insert_ne hn.2.2.2, AList.lookup_insert_ne hn.2.2.1, AList.lookup_insert_ne hn.2.1]
    rfl

def exampleWorld : World Unit := boot noSnbt ∅ gameMap 3

def exampleNamed : World Unit := (call emptySnbt exampleCall true exampleWorld).2

theorem step_exampleNamed : Step noSnbt emptySnbt exampleWorld (.call exampleCall true) exampleNamed :=
  .call _ _ _ (by decide)

theorem sane_exampleWorld : SaneStep exampleWorld (.call exampleCall true) := sane_exampleFirst

/-- The next boot, which has the list and nothing else. -/
def exampleRebooted : World Unit := boot noSnbt exampleNamed.file gameMap 3

theorem names_resolve_rebooted :
    dimensionSelector 1000 exampleRebooted.m = "plots" ∧ api_md_get_dimension_id "plots" exampleRebooted.m = 1000 := by
  have hrun : Run (Step noSnbt emptySnbt) exampleWorld
      [(exampleWorld, .call exampleCall true), (exampleNamed, .boot exampleNamed.file gameMap 3)] exampleRebooted :=
    .cons step_exampleNamed (.single (.boot _ _ _ _ fun _ => rfl))
  have hsane : Meets SaneStep
      [(exampleWorld, Label.call exampleCall true), (exampleNamed, .boot exampleNamed.file gameMap 3)] := by
    rw [Runs.meets_cons, Runs.meets_cons]
    exact ⟨sane_exampleWorld, vanilla_gameMap, Runs.meets_nil⟩
  have hfile : ∃ info, exampleRebooted.file.lookup "plots" = some info ∧ info.dimId = 1000 := ⟨⟨1000, ""⟩, rfl, rfl⟩
  obtain ⟨hselector, hid⟩ := names_resolve noSnbt emptySnbt clean_empty vanilla_gameMap hrun hsane
  exact ⟨(hselector 1000 "plots" (by decide) (by decide)).mpr hfile,
    (hid "plots" 1000 (by unfold Custom; decide) (by decide)).mpr hfile⟩

/-- The engine builds "plots" with the id it gave it. -/
def exampleEngine : Engine := ⟨true, fun _ => false, fun n => if n = "plots" then some 1000 else none, fun _ => false⟩

/-- Nobody has been in the dimension yet; the ledger has it. -/
theorem teleport_iff_plots : api_player_teleport exampleEngine true 1000 exampleNamed.m = some 1000 := by
  have hsane : Meets SaneStep [(exampleWorld, Label.call exampleCall true)] := by
    rw [Runs.meets_cons]
    exact ⟨sane_exampleWorld, Runs.meets_nil⟩
  refine (teleport_iff noSnbt emptySnbt clean_empty vanilla_gameMap (.single step_exampleNamed) hsane exampleEngine true
    (by decide) 1000).mpr ⟨rfl, rfl, rfl, "plots", by decide, ⟨⟨1000, ""⟩, rfl, rfl⟩, rfl, .inr rfl⟩

end DimensionNames
