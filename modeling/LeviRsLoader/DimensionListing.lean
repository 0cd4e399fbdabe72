import LeviRsLoader.CommandRuns
import LeviRsLoader.DimensionBoots
import LeviRsLoader.NativeTexts

/-!
# The list of dimensions

`api_md_list_dimensions` writes one object for each entry of `dimensionList`, and `list_dimensions`
reads them back on the Rust side.
-/
namespace DimensionListing

open Nbt Utf8 HookPayload CommandForms DimensionIds DimensionBoots
open HookCancel (r get)
open NativeTexts (as_str number)

def dimensionLine (name : String) (info : StoredInfo) : List UInt8 :=
  ascii "\x7b\"name\":\"" ++ snbtEscape (encode name.toList) ++ ascii "\",\"dim\":" ++ num info.dimId ++
    ascii ",\"snbt\":\"" ++ snbtEscape (encode info.sNbt.toList) ++ ascii "\"\x7d"

/-- What the sink is given. -/
def api_md_list_dimensions (dimensionList : Table String StoredInfo) : List (List UInt8) :=
  dimensionList.entries.map fun e => dimensionLine e.1 e.2

structure ExistingDimension where
  name : String
  dim : Int32
  snbt : String
  deriving DecidableEq, Repr

/-- `i32::try_from` -/
def i32_try_from (v : Int64) : Option Int32 :=
  if -2147483648 ≤ v.toInt ∧ v.toInt ≤ 2147483647 then some (Int32.ofInt v.toInt) else none

/-- The closure of `filter_map`. -/
def existing (F : Floats) (raw : String) : Option ExistingDimension := do
  let v ← (NbtValue.parse F raw).toOption
  let name ← (get "name" v).bind as_str
  let dim ← (get "dim" v).bind (NbtValue.as_i64 F)
  let dim ← i32_try_from dim
  some ⟨name, dim, ((get "snbt" v).bind as_str).getD ""⟩

def list_dimensions (F : Floats) (lines : List (List UInt8)) : List ExistingDimension :=
  lines.filterMap fun raw => existing F (r raw)

/-! ## One line -/

section Line

variable {F : Floats}

def lineEntries (name : String) (info : StoredInfo) : List Entry :=
  [⟨"name", write_quoted name, .string name⟩, ⟨"dim", Decimal.print info.dimId, number info.dimId⟩,
    ⟨"snbt", write_quoted info.sNbt, .string info.sNbt⟩]

theorem dimensionLine_eq (name : String) (info : StoredInfo) :
    dimensionLine name info = encode (bracedText (lineEntries name info)) := by
  have hname : "\x7b\"name\":\"".toList = '{' :: (write_quoted "name" ++ [':', '"']) := by decide
  have hdim : "\",\"dim\":".toList = '"' :: ',' :: (write_quoted "dim" ++ [':']) := by decide
  have hsnbt : ",\"snbt\":\"".toList = ',' :: (write_quoted "snbt" ++ [':', '"']) := by decide
  have hclose : "\"\x7d".toList = ['"', '}'] := by decide
  have hquoted (t : String) : write_quoted t = '"' :: (t.toList.flatMap escapeChar ++ ['"']) := rfl
  simp only [dimensionLine, ascii, num, snbtEscape_encode, ← encode_append, hname, hdim, hsnbt, hclose, lineEntries,
    bracedText, Entry.print, entryText, writeSep, hquoted name, hquoted info.sNbt, List.append_assoc, List.cons_append,
    List.nil_append, Bool.false_eq_true, ↓reduceIte]

theorem mapOf_lineEntries (name : String) (info : StoredInfo) : mapOf (lineEntries name info)
    = [("dim", number info.dimId), ("name", .string name), ("snbt", .string info.sNbt)] := by
  simp only [mapOf, lineEntries, List.foldl_cons, List.foldl_nil, insertEntry, String.reduceLT, String.reduceEq,
    ↓reduceIte]

theorem parse_line (name : String) (info : StoredInfo) : NbtValue.parse F (r (dimensionLine name info))
    = .ok (.compound [("dim", number info.dimId), ("name", .string name), ("snbt", .string info.sNbt)]) := by
  rw [dimensionLine_eq, ← mapOf_lineEntries]
  refine NativeTexts.parse_braced 1 _ _ (by simp [bracedText]) fun n u hu => ?_
  simp only [List.mem_cons, List.not_mem_nil, or_false] at hu
  rcases hu with rfl | rfl | rfl
  · exact NativeTexts.reads_quoted n name
  · exact NativeTexts.reads_number n info.dimId
  · exact NativeTexts.reads_quoted n info.sNbt

/-- A stored id that is an `int` comes back as it is. -/
theorem existing_line (name : String) {info : StoredInfo} (h : -2147483648 ≤ info.dimId ∧ info.dimId ≤ 2147483647) :
    existing F (r (dimensionLine name info)) = some ⟨name, Int32.ofInt info.dimId, info.sNbt⟩ := by
  have hdim : i32_try_from (Int32.ofInt info.dimId).toInt64 = some (Int32.ofInt info.dimId) := by
    rw [i32_try_from, Int32.toInt_toInt64, Int32.ofInt_toInt,
      if_pos ⟨Int32.le_toInt _, Int.le_of_lt_add_one (Int32.toInt_lt _)⟩]
  simp only [existing, parse_line, Except.toOption, number, if_pos h]
  simp [HookCancel.get, List.lookup_cons, as_str, NbtValue.as_i64, hdim]

end Line

/-! ## The whole list -/

section List

variable {F : Floats}

/-- Every stored id is an `int`. -/
def IntIds (dimensionList : Table String StoredInfo) : Prop :=
  ∀ n info, dimensionList.lookup n = some info → -2147483648 ≤ info.dimId ∧ info.dimId ≤ 2147483647

/-- The entry as the Rust side should see it. -/
def listed (e : Σ _ : String, StoredInfo) : ExistingDimension := ⟨e.1, Int32.ofInt e.2.dimId, e.2.sNbt⟩

theorem list_dimensions_eq {dimensionList : Table String StoredInfo} (h : IntIds dimensionList) :
    list_dimensions F (api_md_list_dimensions dimensionList) = dimensionList.entries.map listed := by
  rw [list_dimensions, api_md_list_dimensions, List.filterMap_map, ← List.filterMap_eq_map]
  refine List.filterMap_congr fun e he => ?_
  exact existing_line e.1 (h e.1 e.2 (AList.lookup_eq_some_iff.mpr he))

theorem settled_intIds {N : Type} {s : Server N} (h : Settled s) : IntIds s.m.dimensionList := by
  intro n info hl
  have := h.range n info.dimId ((h.sync n _).mpr ⟨info, hl, rfl⟩)
  unfold InRange at this
  omega

/-- At any point of any run of boots and calls, what a mod is listed are the names that have an
id, each once and with its own, and no id twice. -/
theorem dimensions_listed (F : Floats) {N : Type} (fromSnbt : String → Option N) (toSnbt : N → String)
    {dimensionList : Table String StoredInfo} (h : Clean dimensionList) {tr : List (Server N × Label N)}
    {u : Server N} (hr : Runs.Run (Step fromSnbt toSnbt) (boot fromSnbt dimensionList) tr u)
    (hG : Runs.Meets SaneStep tr) :
    (∀ n i, Holds u.m n i
        ↔ ∃ e ∈ list_dimensions F (api_md_list_dimensions u.m.dimensionList), e.name = n ∧ e.dim.toInt = i)
      ∧ ((list_dimensions F (api_md_list_dimensions u.m.dimensionList)).map ExistingDimension.name).Nodup
      ∧ ((list_dimensions F (api_md_list_dimensions u.m.dimensionList)).map ExistingDimension.dim).Nodup := by
  have hu : Settled u := hr.invariant Settled hG (settled_boot fromSnbt h) fun _ _ _ ht hl hs =>
    (settled_step ht hl hs).1
  have hint := settled_intIds hu
  have hdim : ∀ e ∈ u.m.dimensionList.entries, (listed e).dim.toInt = e.2.dimId := by
    intro e he
    have := hint e.1 e.2 (AList.lookup_eq_some_iff.mpr he)
    exact Int32.toInt_ofInt_of_le (by omega) (by omega)
  rw [list_dimensions_eq hint]
  refine ⟨fun n i => ?_, ?_, ?_⟩
  · rw [hu.sync]
    constructor
    · rintro ⟨info, hl, rfl⟩
      have he := AList.lookup_eq_some_iff.mp hl
      exact ⟨_, List.mem_map_of_mem he, rfl, hdim _ he⟩
    · rintro ⟨_, hin, rfl, rfl⟩
      obtain ⟨e, he, rfl⟩ := List.mem_map.mp hin
      exact ⟨e.2, AList.lookup_eq_some_iff.mpr he, (hdim e he).symm⟩
  · rw [List.map_map]
    exact u.m.dimensionList.nodupKeys
  · rw [List.map_map]
    refine List.Nodup.map_on (fun e he e' he' hsame => ?_) u.m.dimensionList.nodupKeys.nodup
    have hl := AList.lookup_eq_some_iff.mpr he
    have hl' := AList.lookup_eq_some_iff.mpr he'
    have hid : e.2.dimId = e'.2.dimId := by
      rw [← hdim e he, ← hdim e' he']
      exact congrArg Int32.toInt hsame
    have hname : e.1 = e'.1 :=
      hu.unique _ _ e.2.dimId ((hu.sync _ _).mpr ⟨_, hl, rfl⟩) ((hu.sync _ _).mpr ⟨_, hl', hid.symm⟩)
    rw [hname, hl'] at hl
    exact Sigma.ext hname (heq_of_eq (Option.some.inj hl).symm)

end List

/-! ## An instance -/

/-- A file with a dimension whose payload cannot be read back. -/
def oldFile : Table String StoredInfo := AList.insert "old" ⟨1001, "?"⟩ ∅

theorem lookup_oldFile {n : String} {info : StoredInfo} (h : oldFile.lookup n = some info) :
    n = "old" ∧ info = ⟨1001, "?"⟩ := by
  rw [oldFile, AList.lookup_insert_eq] at h
  split at h
  · next hn =>
    cases h
    exact ⟨hn, rfl⟩
  · cases h

theorem clean_oldFile : Clean oldFile := by
  refine ⟨fun n info h => ?_, fun n n' info info' h h' _ => ?_⟩
  · rw [(lookup_oldFile h).2]
    exact ⟨by decide, by decide⟩
  · rw [(lookup_oldFile h).1, (lookup_oldFile h').1]

def oldBooted : Server Unit := boot noSnbt oldFile

/-- The old dimension, and the one of `exampleCall` beside it. -/
def bothListed : Server Unit := (call emptySnbt exampleCall true oldBooted).2

theorem sane_oldBooted : Sane oldBooted exampleCall true := by
  have hsettled := settled_boot noSnbt clean_oldFile
  have hheld : ∀ n i, Holds oldBooted.m n i → n = "old" ∧ i = 1001 := by
    intro n i hi
    obtain ⟨info, hl, rfl⟩ := (hsettled.sync n i).mp hi
    rw [← hsettled.file] at hl
    exact ⟨(lookup_oldFile hl).1, by rw [(lookup_oldFile hl).2]⟩
  refine ⟨rfl, ?_, ?_, ?_, by decide⟩
  · rintro i - ⟨⟩
    exact ⟨by decide, by decide⟩
  · rintro i - ⟨⟩ n - hi
    exact absurd (hheld n 1000 hi).2 (by decide)
  · intro i j _ _ hj
    exact absurd (hheld _ j hj).1 (by decide)

theorem dimensions_listed_called :
    (∀ n i, Holds bothListed.m n i
        ↔ ∃ e ∈ list_dimensions CommandRuns.noFloats (api_md_list_dimensions bothListed.m.dimensionList),
          e.name = n ∧ e.dim.toInt = i)
      ∧ ((list_dimensions CommandRuns.noFloats
          (api_md_list_dimensions bothListed.m.dimensionList)).map ExistingDimension.name).Nodup
      ∧ ((list_dimensions CommandRuns.noFloats
          (api_md_list_dimensions bothListed.m.dimensionList)).map ExistingDimension.dim).Nodup := by
  have hrun : Runs.Run (Step noSnbt emptySnbt) oldBooted [(oldBooted, .call exampleCall true)] bothListed :=
    .single (.call _ _ _ (by decide))
  refine dimensions_listed CommandRuns.noFloats noSnbt emptySnbt clean_oldFile hrun ?_
  rw [Runs.meets_cons]
  refine ⟨?_, Runs.meets_nil⟩
  rintro c saved ⟨⟩
  exact sane_oldBooted

end DimensionListing
