import LeviRsLoader.Lib.Runs
import LeviRsLoader.Lib.Tables

/-!
# The ledger of custom dimensions

`ledgerByName` and `ledgerById` of `NativeDimensions.cpp`, the two directions
of one correspondence, and the deserialisation hook that trusts the second.
-/
namespace DimensionLedger

structure Ledger where
  ledgerByName : Table String Int
  ledgerById : Table Int String

def Ledger.initial : Ledger := ⟨∅, ∅⟩

/-- The reverse entry of the name's old id goes; the name's new id overwrites whatever it pointed to. -/
def rememberDimension (name : String) (id : Int) (s : Ledger) : Ledger :=
  let byId :=
    match s.ledgerByName.lookup name with
    | some old => if old ≠ id then s.ledgerById.erase old else s.ledgerById
    | none => s.ledgerById
  ⟨s.ledgerByName.insert name id, byId.insert id name⟩

def dimensionNameOf (id : Int) (s : Ledger) : String := (s.ledgerById.lookup id).getD ""

def dimensionIdOf (name : String) (s : Ledger) : Int := (s.ledgerByName.lookup name).getD (-1)

/-- What `VanillaDimensionsFromSerializedIntHook` answers. -/
inductive Deserialized where
  | origin
  | dimension (id : Int)
  | undefined
  deriving DecidableEq, Repr

/-- `dim` is the stored integer, or nothing when it could not be read; `mLeft`
tells which ids the vanilla map holds. -/
def fromSerializedInt (mLeft : Int → Bool) (dim : Option Int) (s : Ledger) : Deserialized :=
  match dim with
  | none => .origin
  | some value =>
    if 0 ≤ value ∧ value ≤ 2 then .origin
    else if dimensionNameOf value s ≠ "" then .dimension value
    else if mLeft value then .dimension value
    else .undefined

/-! ## The two directions after a call -/

@[simp] theorem lookup_byName (name n : String) (id : Int) (s : Ledger) :
    (rememberDimension name id s).ledgerByName.lookup n =
      if n = name then some id else s.ledgerByName.lookup n := AList.lookup_insert_eq _ _ _ _

@[simp] theorem lookup_byId (name : String) (id i : Int) (s : Ledger) :
    (rememberDimension name id s).ledgerById.lookup i =
      if i = id then some name
      else if s.ledgerByName.lookup name = some i then none else s.ledgerById.lookup i := by
  simp only [rememberDimension, AList.lookup_insert_eq]
  by_cases hi : i = id
  · simp [hi]
  · simp only [hi, if_false]
    cases hn : s.ledgerByName.lookup name with
    | none => simp
    | some old =>
      by_cases ho : old = id
      · subst ho
        simp [Ne.symm hi]
      · by_cases hio : i = old
        · subst hio
          simp [ho]
        · simp [ho, hio, Ne.symm hio]

/-- The two tables are inverse to each other on the ids in use; -1 stands for no id. -/
def Inverse (s : Ledger) : Prop :=
  ∀ n i, (s.ledgerByName.lookup n = some i ∧ i ≠ -1) ↔ s.ledgerById.lookup i = some n

theorem inverse_initial : Inverse Ledger.initial := by
  intro n i
  simp [Ledger.initial]

theorem Inverse.nameOf_neg_one {s : Ledger} (h : Inverse s) : dimensionNameOf (-1) s = "" := by
  cases hl : s.ledgerById.lookup (-1) with
  | none => simp [dimensionNameOf, hl]
  | some n => exact absurd rfl ((h n (-1)).mpr hl).2

/-- In terms of the two getters: the empty text is what an unknown id gives, so it names nothing. -/
theorem Inverse.getters {s : Ledger} (h : Inverse s) (n : String) (i : Int) (hn : n ≠ "") :
    (dimensionIdOf n s = i ∧ i ≠ -1) ↔ dimensionNameOf i s = n := by
  have hid : (dimensionIdOf n s = i ∧ i ≠ -1) ↔ (s.ledgerByName.lookup n = some i ∧ i ≠ -1) := by
    simp only [dimensionIdOf]
    cases s.ledgerByName.lookup n with
    | none => simp; omega
    | some j => simp
  have hname : dimensionNameOf i s = n ↔ s.ledgerById.lookup i = some n := by
    simp only [dimensionNameOf]
    cases s.ledgerById.lookup i with
    | none => simpa using hn.symm
    | some m => simp
  rw [hid, hname]
  exact h n i

/-- A call keeps the tables inverse exactly when its id is a real one that no other name has. -/
theorem inverse_rememberDimension {name : String} {id : Int} {s : Ledger} (h : Inverse s) :
    Inverse (rememberDimension name id s) ↔
      id ≠ -1 ∧ ∀ n, n ≠ name → s.ledgerByName.lookup n ≠ some id := by
  constructor
  · intro h'
    have hid : id ≠ -1 := ((h' name id).mpr (by simp)).2
    refine ⟨hid, fun n hn hl => hn ?_⟩
    have := (h' n id).mp ⟨by simp [hn, hl], hid⟩
    simpa using this.symm
  · rintro ⟨hid, hfresh⟩ n i
    rw [lookup_byName, lookup_byId]
    by_cases hi : i = id
    · subst hi
      by_cases hn : n = name
      · simp [hn, hid]
      · simp [hn, hfresh n hn, Ne.symm hn]
    · by_cases hn : n = name
      · subst hn
        -- the name's old id, if it had one, has lost its reverse entry
        by_cases ho : s.ledgerByName.lookup n = some i
        · simp [hi, ho, Ne.symm hi]
        · have : s.ledgerById.lookup i ≠ some n := fun hl => ho ((h n i).mpr hl).1
          simp [hi, ho, Ne.symm hi, this]
      · by_cases ho : s.ledgerByName.lookup name = some i
        · have : ¬(s.ledgerByName.lookup n = some i ∧ i ≠ -1) := by
            rintro ⟨hl, hne⟩
            have h₁ := (h n i).mp ⟨hl, hne⟩
            have h₂ := (h name i).mp ⟨ho, hne⟩
            exact hn (Option.some.inj (h₁.symm.trans h₂))
          simpa [hi, hn, ho] using this
        · simpa [hi, hn, ho] using h n i

/-! ## Sequences of calls -/

/-- The ledger after a sequence of calls, each a name and an id. -/
def afterCalls (calls : List (String × Int)) : Ledger :=
  calls.foldl (fun s c => rememberDimension c.1 c.2 s) Ledger.initial

theorem afterCalls_append (calls : List (String × Int)) (c : String × Int) :
    afterCalls (calls ++ [c]) = rememberDimension c.1 c.2 (afterCalls calls) := by
  simp [afterCalls]

/-- The id that the last call for the name gave it. -/
def lastBinding (calls : List (String × Int)) (n : String) : Option Int :=
  (calls.reverse.find? fun c => c.1 == n).map Prod.snd

theorem lookup_afterCalls (calls : List (String × Int)) (n : String) :
    (afterCalls calls).ledgerByName.lookup n = lastBinding calls n := by
  induction calls using List.reverseRecOn with
  | nil => simp [afterCalls, lastBinding, Ledger.initial]
  | append_singleton calls c ih =>
    rw [afterCalls_append, lookup_byName, ih]
    by_cases hn : c.1 = n
    · simp [lastBinding, hn]
    · have hb : (c.1 == n) = false := by simpa using hn
      simp [lastBinding, hb, Ne.symm hn]

/-- What holds after a call: the directions are inverse, the call's binding is
in force, and -1 names nothing. -/
structure Bijective (name : String) (id : Int) (s : Ledger) : Prop where
  tables : Inverse s
  getters : ∀ n i, n ≠ "" → ((dimensionIdOf n s = i ∧ i ≠ -1) ↔ dimensionNameOf i s = n)
  inForce : dimensionIdOf name s = id ∧ (id ≠ -1 → dimensionNameOf id s = name)
  negOne : dimensionNameOf (-1) s = ""

theorem bijective_rememberDimension (name : String) (id : Int) (s : Ledger) :
    Bijective name id (rememberDimension name id s) ↔ Inverse (rememberDimension name id s) := by
  constructor
  · exact Bijective.tables
  · intro h
    exact ⟨h, h.getters, ⟨by simp [dimensionIdOf], by simp [dimensionNameOf]⟩, h.nameOf_neg_one⟩

/-- The ledger is a bijection after every call exactly when no call gives the
id -1 and none gives an id that is the last binding of another name. -/
theorem bijective_afterCalls_iff (calls : List (String × Int)) :
    (∀ pre c suf, calls = pre ++ c :: suf → Bijective c.1 c.2 (afterCalls (pre ++ [c]))) ↔
      ∀ pre c suf, calls = pre ++ c :: suf →
        c.2 ≠ -1 ∧ ∀ n, n ≠ c.1 → lastBinding pre n ≠ some c.2 := by
  have hrun := Runs.foldl_forall_iff (l := calls) Inverse
    (fun s c => c.2 ≠ -1 ∧ ∀ n, n ≠ c.1 → s.ledgerByName.lookup n ≠ some c.2) inverse_initial
    (fun s c h => inverse_rememberDimension h)
  have hlaw : ∀ pre c, Bijective c.1 c.2 (afterCalls (pre ++ [c])) ↔ Inverse (afterCalls (pre ++ [c])) := by
    intro pre c
    rw [afterCalls_append]
    exact bijective_rememberDimension _ _ _
  have hbind : ∀ pre n, (pre.foldl (fun s c => rememberDimension c.1 c.2 s) Ledger.initial).ledgerByName.lookup n =
      lastBinding pre n := lookup_afterCalls
  simp only [hbind] at hrun
  simp only [hlaw]
  exact hrun

/-- An id bound to a second name keeps answering for the first, and the
rollback call makes -1 the id of a name. -/
theorem not_bijective_afterCalls :
    ¬(∀ pre c suf, [("a", 3), ("b", 3)] = pre ++ c :: suf → Bijective c.1 c.2 (afterCalls (pre ++ [c]))) ∧
    dimensionIdOf "a" (afterCalls [("a", 3), ("b", 3)]) = 3 ∧
    dimensionNameOf 3 (afterCalls [("a", 3), ("b", 3)]) = "b" ∧
    dimensionNameOf (-1) (afterCalls [("a", 3), ("a", -1)]) = "a" := by
  refine ⟨fun h => ?_, by decide, by decide, by decide⟩
  have := (h [("a", 3)] ("b", 3) [] rfl).getters "a" 3 (by decide)
  exact absurd this (by decide)

/-! ## The hook -/

/-- While the tables are inverse, the hook takes an id of its own range exactly
when some name has it or the vanilla map does. -/
theorem fromSerializedInt_dimension {mLeft : Int → Bool} {value : Int} {s : Ledger} (h : Inverse s)
    (hv : ¬(0 ≤ value ∧ value ≤ 2)) :
    fromSerializedInt mLeft (some value) s = .dimension value ↔
      (∃ n, n ≠ "" ∧ dimensionIdOf n s = value ∧ value ≠ -1) ∨ mLeft value = true := by
  simp only [fromSerializedInt, hv, if_false]
  by_cases hn : dimensionNameOf value s = ""
  · have hnone : ¬∃ n, n ≠ "" ∧ dimensionIdOf n s = value ∧ value ≠ -1 := by
      rintro ⟨n, hne, hid⟩
      exact hne (((h.getters n value hne).mp hid).symm.trans hn)
    by_cases hm : mLeft value <;> simp [hn, hm, hnone]
  · have := (h.getters _ value hn).mpr rfl
    simp only [ne_eq, hn, not_false_eq_true, if_true, true_iff]
    exact .inl ⟨_, hn, this⟩

end DimensionLedger
