import LeviRsLoader.Lib.Runs
import LeviRsLoader.Lib.WinPath
import LeviRsLoader.RustMod

/-!
# The key-value store registry

`confinedPath` decides which database a mod may open, `api_kvdb_open` enters
it in `gKvDbs`, and close and unload take it out. A path is its text; that the
engine can construct a database at a path is a parameter, since it decides
only whether an entry is made.
-/
namespace KvDb

open WinPath LeviRs

structure KvEntry where
  mod : ModId
  db : Text
  deriving DecidableEq, Repr

structure Registry where
  gKvDbs : Table Nat KvEntry
  gNextKvId : Nat

def Registry.initial : Registry := ⟨∅, 1⟩

/-- Confine `rel` under the mod's data directory; empty on escape attempts. -/
def confinedPath (dataDir rel : Text) : Text :=
  if rel = [] then []
  else if isAbsolute rel then []
  else if (elements rel).any (· == dotdot) then []
  else append dataDir rel

/-- The handle (`none` for null), what is logged, and the registry after.
`constructs` says whether the database constructor returns. -/
def api_kvdb_open (getDataDir : ModId → Text) (constructs : Text → Bool → Bool) (mod : Option ModId)
    (path : Text) (createIfMissing : Bool) (s : Registry) : Option Nat × List (ModId × String) × Registry :=
  match mod with
  | none => (none, [], s)
  | some m =>
    let full := confinedPath (getDataDir m) path
    if full = [] then
      (none, [(m, "kvdb_open: path must be relative and stay inside the mod data dir")], s)
    else if constructs full createIfMissing then
      (some s.gNextKvId, [], ⟨s.gKvDbs.insert s.gNextKvId ⟨m, full⟩, s.gNextKvId + 1⟩)
    else (none, [(m, "kvdb_open: failed to open '" ++ String.ofList path ++ "'")], s)

def api_kvdb_close (h : Nat) (s : Registry) : Registry := { s with gKvDbs := s.gKvDbs.erase h }

def kvdbOnRustModGone (mod : ModId) (s : Registry) : Registry :=
  { s with gKvDbs := s.gKvDbs.eraseIf fun _ e => e.mod == mod }

/-! ## Confinement -/

/-- What a non-empty result must satisfy. -/
def Confined (dataDir rel : Text) : Prop :=
  confinedPath dataDir rel ≠ [] → Inside dataDir (confinedPath dataDir rel)

/-- The paths `confinedPath` turns away. -/
def Refused (rel : Text) : Prop := rel = [] ∨ isAbsolute rel = true ∨ dotdot ∈ elements rel

/-- No root-directory, and no root-name but the directory's own. -/
def Relative (dataDir rel : Text) : Prop :=
  hasRootDirectory rel = false ∧ (rootName rel = [] ∨ rootName rel = rootName dataDir)

/-- Rooted, but its names happen to start with those of the directory. -/
def RestatesDir (dataDir rel : Text) : Prop :=
  rootName rel = [] ∧ hasRootDirectory rel = true ∧
    rootName (rootName dataDir ++ rel) = rootName dataDir ∧ names dataDir <+: names rel

theorem confinedPath_of_refused {dataDir rel : Text} (h : Refused rel) : confinedPath dataDir rel = [] := by
  by_cases he : rel = []
  · simp [confinedPath, he]
  · by_cases ha : isAbsolute rel = true
    · simp [confinedPath, ha]
    · have hd : dotdot ∈ elements rel := (h.resolve_left he).resolve_left ha
      simp [confinedPath, hd]

theorem confinedPath_of_not_refused {dataDir rel : Text} (h : ¬ Refused rel) :
    confinedPath dataDir rel = append dataDir rel := by
  simp only [Refused, not_or] at h
  simp [confinedPath, h.1, h.2.1, h.2.2]

theorem append_ne_nil {a b : Text} (hb : b ≠ []) : append a b ≠ [] := by
  have hrel : rootName b = [] → relText b ≠ [] := by
    intro hn hr
    have := rootName_append_relText b
    rw [hn, hr] at this
    exact hb this.symm
  rw [append]
  split_ifs with h₁ h₂ h₃ h₄
  · exact hb
  · intro he
    have := (List.append_eq_nil_iff.mp he).2
    simp [hasRootDirectory, this, startsWithSlash] at h₂
  · simp
  · -- `a` has no relative text and at most a drive; `b` brings its own or shares `a`'s root-name
    intro he
    obtain ⟨ha, hr⟩ := List.append_eq_nil_iff.mp he
    apply hrel _ hr
    by_contra hn
    have : rootName a = rootName b := by
      by_contra hne
      exact h₁ (by simp [hn, hne])
    rw [ha] at this
    exact hn this.symm
  · intro he
    have ha := (List.append_eq_nil_iff.mp he).1
    subst ha
    exact h₃ rfl
  · simp

/-- A path that is not refused and names another root replaces the directory. -/
theorem append_other_root {d b : Text} (hn : rootName b ≠ []) (h : rootName b ≠ rootName d) :
    append d b = b := by
  have : (rootName d != rootName b) = true := by simpa using Ne.symm h
  simp [append, hn, this]

theorem append_rooted {d b : Text} (hn : rootName b = []) (hd : hasRootDirectory b = true) :
    append d b = rootName d ++ b := by
  have hb : relText b = b := by
    have := rootName_append_relText b
    rwa [hn, List.nil_append] at this
  simp [append, isAbsolute, hn, hd, hb]

/-- A rooted path without a root-name stays inside only by restating the directory. -/
theorem inside_rooted_iff {d b : Text} (hn : rootName b = []) (hr : hasRootDirectory b = true)
    (hdd : dotdot ∉ names b) : Inside d (append d b) ↔ RestatesDir d b := by
  have hb : relText b = b := by
    have := rootName_append_relText b
    rwa [hn, List.nil_append] at this
  have hrel : rootName (rootName d ++ b) = rootName d → relText (rootName d ++ b) = relText b := by
    intro h
    have := rootName_append_relText (rootName d ++ b)
    rw [h] at this
    rw [hb]
    exact List.append_cancel_left this
  rw [append_rooted hn hr, RestatesDir]
  constructor
  · rintro ⟨h, -, rest, hrest, -⟩
    refine ⟨hn, hr, h, rest, ?_⟩
    rw [← hrest, names, names, hrel h]
  · rintro ⟨-, -, h, rest, hrest⟩
    refine ⟨h, ?_, rest, ?_, ?_⟩
    · rw [hasRootDirectory, hrel h]
      exact hr
    · rw [names, hrel h]
      exact hrest.symm
    · intro hm
      exact hdd (hrest ▸ List.mem_append_right _ hm)

/-- The sandbox check confines a path exactly when the path is refused, is
relative on the directory's own root, or restates the directory. -/
theorem confined_iff {dataDir rel : Text} (hdir : isAbsolute dataDir = true) :
    Confined dataDir rel ↔ Refused rel ∨ Relative dataDir rel ∨ RestatesDir dataDir rel := by
  by_cases href : Refused rel
  · simp [Confined, confinedPath_of_refused href, href]
  have hne : rel ≠ [] := fun h => href (.inl h)
  have habs : isAbsolute rel = false := by
    cases h : isAbsolute rel with
    | true => exact absurd (.inr (.inl h)) href
    | false => rfl
  have hdd : dotdot ∉ names rel := fun h => href (.inr (.inr (dotdot_mem_elements h)))
  have hc : Confined dataDir rel ↔ Inside dataDir (append dataDir rel) := by
    simp [Confined, confinedPath_of_not_refused href, append_ne_nil hne]
  rw [hc]
  simp only [href, false_or]
  by_cases hn : rootName rel = []
  · cases hr : hasRootDirectory rel with
    | true =>
      rw [inside_rooted_iff hn hr hdd]
      simp [Relative, hr]
    | false =>
      have hrel : Relative dataDir rel := ⟨hr, .inl hn⟩
      obtain ⟨h₁, h₂, h₃⟩ := append_relative hdir hr hrel.2
      simp only [hrel, true_or, iff_true]
      exact ⟨h₁, h₂, names rel, h₃, hdd⟩
  · have hr : hasRootDirectory rel = false := by
      simpa [isAbsolute, hn] using habs
    have hres : ¬ RestatesDir dataDir rel := fun h => hn h.1
    by_cases hsame : rootName rel = rootName dataDir
    · have hrel : Relative dataDir rel := ⟨hr, .inr hsame⟩
      obtain ⟨h₁, h₂, h₃⟩ := append_relative hdir hr hrel.2
      simp only [hrel, true_or, iff_true]
      exact ⟨h₁, h₂, names rel, h₃, hdd⟩
    · have hrel : ¬ Relative dataDir rel := fun h => h.2.elim hn hsame
      simp only [hrel, hres, or_false, iff_false]
      rw [append_other_root hn hsame]
      intro h
      exact hsame h.1

/-- A file name under a directory on drive C is confined to it. -/
theorem confined_iff_witness :
    Confined "C:\\bds\\plugins\\m\\data".toList "db/players".toList ↔
      Refused "db/players".toList ∨ Relative "C:\\bds\\plugins\\m\\data".toList "db/players".toList ∨
        RestatesDir "C:\\bds\\plugins\\m\\data".toList "db/players".toList :=
  confined_iff (by decide)

/-- A drive-relative path replaces the data directory. -/
theorem driveRelative_escapes :
    ¬ ∀ dataDir rel, isAbsolute dataDir = true → Confined dataDir rel := by
  intro h
  obtain ⟨hroot, -⟩ := h "C:\\data".toList "D:foo".toList (by decide) (by decide)
  exact absurd hroot (by decide)

/-! ## Every open database -/

inductive KvOp where
  | openDb (mod : Option ModId) (path : Text) (createIfMissing : Bool)
  | close (h : Nat)
  | modGone (mod : ModId)

section Run

variable (getDataDir : ModId → Text) (constructs : Text → Bool → Bool)

def KvOp.apply : KvOp → Registry → Registry
  | .openDb mod path c, s => (api_kvdb_open getDataDir constructs mod path c s).2.2
  | .close h, s => api_kvdb_close h s
  | .modGone mod, s => kvdbOnRustModGone mod s

def kvStep (s : Registry) (op : KvOp) (t : Registry) : Prop := t = op.apply getDataDir constructs s

/-- Opening either leaves the registry alone or enters one confined path under a fresh id. -/
theorem api_kvdb_open_cases (mod : Option ModId) (path : Text) (c : Bool) (s : Registry) :
    (api_kvdb_open getDataDir constructs mod path c s).2.2 = s ∨
    ∃ m, mod = some m ∧ confinedPath (getDataDir m) path ≠ [] ∧
      (api_kvdb_open getDataDir constructs mod path c s).1 = some s.gNextKvId ∧
      (api_kvdb_open getDataDir constructs mod path c s).2.2 =
        ⟨s.gKvDbs.insert s.gNextKvId ⟨m, confinedPath (getDataDir m) path⟩, s.gNextKvId + 1⟩ := by
  cases mod with
  | none => exact .inl rfl
  | some m =>
    by_cases hf : confinedPath (getDataDir m) path = []
    · left; simp [api_kvdb_open, hf]
    · by_cases hc : constructs (confinedPath (getDataDir m) path) c = true
      · right; exact ⟨m, rfl, hf, by simp [api_kvdb_open, hf, hc], by simp [api_kvdb_open, hf, hc]⟩
      · left; simp [api_kvdb_open, hf, hc]

/-- A handle given out names an entry of the mod that asked. -/
theorem lookup_opened {mod : Option ModId} {path : Text} {c : Bool} {s : Registry} {id : Nat}
    (h : (api_kvdb_open getDataDir constructs mod path c s).1 = some id) :
    ∃ e, (api_kvdb_open getDataDir constructs mod path c s).2.2.gKvDbs.lookup id = some e ∧ mod = some e.mod := by
  cases mod with
  | none => cases h
  | some m =>
    simp only [api_kvdb_open] at h ⊢
    split at h
    · cases h
    · next hf =>
      split at h
      · next hc =>
        cases h
        rw [if_neg hf, if_pos hc]
        exact ⟨_, AList.lookup_insert _, rfl⟩
      · cases h

theorem lookup_close {h : Nat} {s : Registry} {id : Nat} {e : KvEntry}
    (hl : (api_kvdb_close h s).gKvDbs.lookup id = some e) : s.gKvDbs.lookup id = some e := by
  rw [api_kvdb_close, AList.lookup_erase_eq] at hl
  split at hl
  · cases hl
  · exact hl

/-- The sweep leaves exactly the databases of other mods. -/
theorem lookup_kvdbOnRustModGone (mod : ModId) (s : Registry) (id : Nat) (e : KvEntry) :
    (kvdbOnRustModGone mod s).gKvDbs.lookup id = some e ↔ s.gKvDbs.lookup id = some e ∧ e.mod ≠ mod := by
  simp [kvdbOnRustModGone, AList.lookup_eraseIf_eq_some]

/-- Every open database lies inside its mod's data directory. -/
def AllInside (s : Registry) : Prop :=
  ∀ id e, s.gKvDbs.lookup id = some e → Inside (getDataDir e.mod) e.db

def ConfinedOp (_ : Registry) : KvOp → Prop
  | .openDb (some m) path _ => Confined (getDataDir m) path
  | _ => True

theorem allInside_step {s t : Registry} {op : KvOp} (hs : AllInside getDataDir s)
    (hg : ConfinedOp getDataDir s op) (h : kvStep getDataDir constructs s op t) : AllInside getDataDir t := by
  rw [kvStep] at h
  subst h
  intro id e he
  cases op with
  | openDb mod path c =>
    rcases api_kvdb_open_cases getDataDir constructs mod path c s with h | ⟨m, rfl, hne, _, h⟩
    · rw [KvOp.apply, h] at he
      exact hs id e he
    · rw [KvOp.apply, h, AList.lookup_insert_eq] at he
      split at he
      · obtain rfl := Option.some.inj he
        exact hg hne
      · exact hs id e he
  | close h => exact hs id e (lookup_close he)
  | modGone mod => exact hs id e ((lookup_kvdbOnRustModGone mod s id e).mp he).1

/-- In every run that opens only confined paths, every open database is inside. -/
theorem allInside_run {tr : List (Registry × KvOp)} {t : Registry}
    (h : Runs.Run (kvStep getDataDir constructs) Registry.initial tr t)
    (hg : Runs.Meets (ConfinedOp getDataDir) tr) : AllInside getDataDir t := by
  refine h.invariant (AllInside getDataDir) hg ?_ fun s op t hs hop hst =>
    allInside_step getDataDir constructs hs hop hst
  intro id e he
  simp [Registry.initial] at he

end Run

end KvDb
