import LeviRsLoader.Lib.Closure
import LeviRsLoader.Lib.Kahn
import LeviRsLoader.Lib.Tables
import Mathlib.Data.List.Sort

/-!
# Dependents

`loadedDependencyMap` and `dependentsOf` of `ModControl.cpp`: who needs a mod,
in the order in which they have to be unloaded.
-/
namespace Dependents

/-- `ll::mod::Manifest`. -/
structure Manifest where
  name : String
  /-- The names of the dependencies. -/
  dependencies : Option (List String)
  deriving DecidableEq, Repr

/-- The order in which a hash container is walked, whatever that is. -/
structure HashOrder where
  walk : List String → List String
  perm : ∀ l, (walk l).Perm l

/-- One order for each container that `dependentsOf` walks. -/
structure HashOrders where
  deps : HashOrder
  affected : HashOrder
  indeg : HashOrder

def listed (t : Table String (List String)) (name : String) : List String := (t.lookup name).getD []

def absorb (out : Table String (List String)) (mod : Manifest) : Table String (List String) :=
  out.insert mod.name (listed out mod.name ++ mod.dependencies.getD [])

/-- The mods of the registry and of our own manager; a mod in both is absorbed twice. -/
def loadedDependencyMap (registry own : List Manifest) : Table String (List String) :=
  own.foldl absorb (registry.foldl absorb ∅)

/-- Reverse edges: dependency to those depending on it. -/
def dependedBy (order : HashOrder) (deps : Table String (List String)) : Table String (List String) :=
  (order.walk deps.keys).foldl
    (fun t mod => (listed deps mod).foldl (fun t d => t.insert d (listed t d ++ [mod])) t) ∅

/-- Nothing is answered by a loop that runs out of fuel. -/
def dependentsOf (orders : HashOrders) (deps : Table String (List String)) (name : String) : Option (List String) :=
  match Closure.closure (listed (dependedBy orders.deps deps)) (deps.keys.length + 1) name with
  | none => none
  | some affected =>
    let walk := orders.affected.walk affected
    let indeg := Kahn.indegrees (listed deps) affected walk
    let ready := ((orders.indeg.walk walk).filter fun d => indeg d = 0).insertionSort (· ≤ ·)
    Kahn.order (listed deps) affected walk ready.reverse affected.length

/-! ## Edges -/

/-- A loaded mod declares the dependency. -/
def Depends (mods : List Manifest) (m d : String) : Prop :=
  ∃ mod ∈ mods, mod.name = m ∧ d ∈ mod.dependencies.getD []

@[simp] theorem listed_empty (n : String) : listed ∅ n = [] := rfl

theorem mem_keys_of_mem_listed {t : Table String (List String)} {m d : String} (h : d ∈ listed t m) : m ∈ t.keys := by
  rw [← AList.mem_keys, ← AList.lookup_isSome]
  cases hl : t.lookup m with
  | none => simp [listed, hl] at h
  | some l => rfl

theorem mem_listed_insert {t : Table String (List String)} {k n d : String} {l : List String} :
    d ∈ listed (t.insert k (listed t k ++ l)) n ↔ d ∈ listed t n ∨ (n = k ∧ d ∈ l) := by
  unfold listed
  rw [AList.lookup_insert_eq]
  by_cases hn : n = k
  · subst hn
    simp
  · simp [hn]

theorem mem_foldl_absorb (mods : List Manifest) (out : Table String (List String)) (m d : String) :
    d ∈ listed (mods.foldl absorb out) m ↔ d ∈ listed out m ∨ Depends mods m d := by
  induction mods generalizing out with
  | nil => simp [Depends]
  | cons mod mods ih =>
    rw [List.foldl_cons, ih, absorb, mem_listed_insert, or_assoc]
    simp [Depends, eq_comm]

theorem mem_loadedDependencyMap (registry own : List Manifest) (m d : String) :
    d ∈ listed (loadedDependencyMap registry own) m ↔ Depends (registry ++ own) m d := by
  rw [loadedDependencyMap, mem_foldl_absorb, mem_foldl_absorb]
  simp only [listed_empty, List.not_mem_nil, false_or, Depends, List.mem_append]
  constructor
  · rintro (⟨mod, hm, h⟩ | ⟨mod, hm, h⟩)
    · exact ⟨mod, .inl hm, h⟩
    · exact ⟨mod, .inr hm, h⟩
  · rintro ⟨mod, hm | hm, h⟩
    · exact .inl ⟨mod, hm, h⟩
    · exact .inr ⟨mod, hm, h⟩

theorem mem_foldl_push (l : List String) (mod : String) (t : Table String (List String)) (m d : String) :
    m ∈ listed (l.foldl (fun t d => t.insert d (listed t d ++ [mod])) t) d ↔ m ∈ listed t d ∨ (m = mod ∧ d ∈ l) := by
  induction l generalizing t with
  | nil => simp
  | cons b l ih =>
    rw [List.foldl_cons, ih, mem_listed_insert, or_assoc]
    simp only [List.mem_cons, List.not_mem_nil, or_false]
    tauto

theorem mem_foldl_turn (deps : Table String (List String)) (mods : List String) (t : Table String (List String))
    (m d : String) :
    m ∈ listed (mods.foldl
      (fun t mod => (listed deps mod).foldl (fun t d => t.insert d (listed t d ++ [mod])) t) t) d ↔
      m ∈ listed t d ∨ (m ∈ mods ∧ d ∈ listed deps m) := by
  induction mods generalizing t with
  | nil => simp
  | cons mod mods ih =>
    rw [List.foldl_cons, ih, mem_foldl_push, or_assoc, List.mem_cons]
    refine or_congr_right ?_
    constructor
    · rintro (⟨rfl, hd⟩ | ⟨hm, hd⟩)
      · exact ⟨.inl rfl, hd⟩
      · exact ⟨.inr hm, hd⟩
    · rintro ⟨rfl | hm, hd⟩
      · exact .inl ⟨rfl, hd⟩
      · exact .inr ⟨hm, hd⟩

/-- The reverse edges are the edges turned round. -/
theorem mem_dependedBy (order : HashOrder) (deps : Table String (List String)) (m d : String) :
    m ∈ listed (dependedBy order deps) d ↔ d ∈ listed deps m := by
  rw [dependedBy, mem_foldl_turn, (order.perm _).mem_iff, listed_empty]
  simp only [List.not_mem_nil, false_or]
  rw [and_iff_right_iff_imp]
  exact mem_keys_of_mem_listed

/-! ## Dependents -/

/-- The dependencies among the mods of a list. -/
def Among (mods : List Manifest) (r : List String) (m d : String) : Prop := m ∈ r ∧ d ∈ r ∧ Depends mods m d

theorem reach_dependedBy (order : HashOrder) (registry own : List Manifest) (name m : String) :
    Closure.Reach (listed (dependedBy order (loadedDependencyMap registry own))) name m ↔
      Relation.ReflTransGen (Depends (registry ++ own)) m name := by
  have hedge : (fun x y => y ∈ listed (dependedBy order (loadedDependencyMap registry own)) x) =
      Function.swap (Depends (registry ++ own)) := by
    funext x y
    rw [mem_dependedBy, mem_loadedDependencyMap]
  rw [Closure.Reach, hedge, Relation.reflTransGen_swap]

/-- What `dependentsOf` owes its callers: each mod that transitively depends on
the target once, and, unless they depend on each other in a circle, every one
of them before what it depends on. -/
structure Lists (mods : List Manifest) (name : String) (r : List String) : Prop where
  nodup : r.Nodup
  mem : ∀ m, m ∈ r ↔ m ≠ name ∧ Relation.TransGen (Depends mods) m name
  ordered : (∀ m, ¬ Relation.TransGen (Among mods r) m m) →
    ∀ m d, Relation.TransGen (Among mods r) m d → r.idxOf m < r.idxOf d

/-- Only who depends on whom matters. -/
theorem Lists.congr {mods mods' : List Manifest} {name : String} {r : List String} (h : Lists mods name r)
    (he : Depends mods = Depends mods') : Lists mods' name r := by
  have hamong : Among mods r = Among mods' r := by
    funext m d
    rw [Among, Among, he]
  exact ⟨h.nodup, he ▸ h.mem, hamong ▸ h.ordered⟩

theorem exists_dependentsOf (orders : HashOrders) (registry own : List Manifest) (name : String) :
    ∃ r, dependentsOf orders (loadedDependencyMap registry own) name = some r ∧ Lists (registry ++ own) name r := by
  have hverts : ∀ d, ∀ m ∈ listed (dependedBy orders.deps (loadedDependencyMap registry own)) d,
      m ∈ (loadedDependencyMap registry own).keys := by
    intro d m hm
    rw [mem_dependedBy] at hm
    exact mem_keys_of_mem_listed hm
  obtain ⟨affected, haffected, hnodup, hmem⟩ := Closure.closure_spec hverts name (Nat.lt_succ_self _)
  have hready : ∀ p : String → Bool,
      (((orders.indeg.walk (orders.affected.walk affected)).filter p).insertionSort (· ≤ ·)).reverse.Perm
        (affected.filter p) := by
    intro p
    have hwalk := (orders.indeg.perm _).trans (orders.affected.perm affected)
    exact ((List.reverse_perm _).trans (List.perm_insertionSort (· ≤ ·) _)).trans (hwalk.filter p)
  obtain ⟨r, hr, hperm, horder⟩ := Kahn.order_spec (listed (loadedDependencyMap registry own)) hnodup
    (orders.affected.perm affected) (hready _) le_rfl
  have hwithin : Kahn.Within (listed (loadedDependencyMap registry own)) affected = Among (registry ++ own) r := by
    funext m d
    rw [Kahn.Within, Among, hperm.mem_iff, hperm.mem_iff, mem_loadedDependencyMap]
  refine ⟨r, by rw [dependentsOf, haffected]; exact hr, hperm.nodup_iff.mpr hnodup, fun m => ?_, fun ha => ?_⟩
  · rw [hperm.mem_iff, hmem, reach_dependedBy, Relation.reflTransGen_iff_eq_or_transGen]
    constructor
    · rintro ⟨hne, he | h⟩
      · exact absurd he.symm hne
      · exact ⟨hne, h⟩
    · rintro ⟨hne, h⟩
      exact ⟨hne, .inr h⟩
  · rw [← hwithin]
    exact horder (by rw [Kahn.Acyclic, hwithin]; exact ha)

/-- The search ends with an answer, whatever the graph. -/
theorem dependentsOf_spec (orders : HashOrders) (registry own : List Manifest) (name : String) :
    ∃ r, dependentsOf orders (loadedDependencyMap registry own) name = some r ∧ r.Nodup ∧
      (∀ m, m ∈ r ↔ m ≠ name ∧ Relation.TransGen (Depends (registry ++ own)) m name) ∧
      ((∀ m, ¬ Relation.TransGen (Among (registry ++ own) r) m m) →
        ∀ m d, Relation.TransGen (Among (registry ++ own) r) m d → r.idxOf m < r.idxOf d) := by
  obtain ⟨r, hr, h⟩ := exists_dependentsOf orders registry own name
  exact ⟨r, hr, h.nodup, h.mem, h.ordered⟩

end Dependents
