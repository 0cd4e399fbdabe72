import Mathlib.Data.List.Induction

/-!
# Three-way merge

Writers that share a function, each with its own base: what a writer changed
relative to its base is written, the rest is left as it is. A finite map is the
case of values in an `Option`.
-/
namespace Merge

variable {κ α : Type*} [DecidableEq α]

/-- `edited` against `base`, written over `live`. -/
def merge (base edited live : κ → α) : κ → α := fun k => if edited k = base k then live k else edited k

/-- A write: what the writer started from and what it made of it. -/
structure Edit (κ α : Type*) where
  base : κ → α
  edited : κ → α

def Edit.changes (e : Edit κ α) (k : κ) : Bool := e.edited k ≠ e.base k

def Edit.apply (live : κ → α) (e : Edit κ α) : κ → α := merge e.base e.edited live

theorem apply_changed {e : Edit κ α} {k : κ} (h : e.changes k = true) (live : κ → α) :
    e.apply live k = e.edited k := if_neg (of_decide_eq_true h)

theorem apply_unchanged {e : Edit κ α} {k : κ} (h : ¬e.changes k = true) (live : κ → α) :
    e.apply live k = live k := by
  refine if_pos ?_
  by_contra hne
  exact h (decide_eq_true hne)

theorem merge_self (base live : κ → α) : merge base base live = live := by
  funext k
  exact if_pos rfl

/-- Writes that change no key in common can be made in either order. -/
theorem apply_comm {e e' : Edit κ α} (h : ∀ k, ¬(e.changes k = true ∧ e'.changes k = true)) (live : κ → α) :
    e'.apply (e.apply live) = e.apply (e'.apply live) := by
  funext k
  by_cases hk : e.changes k = true
  · have hk' : ¬e'.changes k = true := fun hk' => h k ⟨hk, hk'⟩
    rw [apply_unchanged hk', apply_changed hk, apply_changed hk]
  · rw [apply_unchanged hk]
    by_cases hk' : e'.changes k = true
    · rw [apply_changed hk', apply_changed hk']
    · rw [apply_unchanged hk', apply_unchanged hk', apply_unchanged hk]

/-- After any writes a key holds what the last one to change it made of it. -/
theorem foldl_apply (edits : List (Edit κ α)) (live : κ → α) (k : κ) :
    edits.foldl Edit.apply live k = match edits.reverse.find? fun e => e.changes k with
      | some e => e.edited k
      | none => live k := by
  induction edits using List.reverseRecOn with
  | nil => rfl
  | append_singleton edits e ih =>
    rw [List.foldl_append, List.reverse_append, List.reverse_singleton, List.singleton_append]
    by_cases hk : e.changes k = true
    · have hlast : (e :: edits.reverse).find? (fun e => e.changes k) = some e := List.find?_cons_of_pos hk
      rw [hlast]
      exact apply_changed hk _
    · have hlast : (e :: edits.reverse).find? (fun e => e.changes k) = edits.reverse.find? fun e => e.changes k :=
        List.find?_cons_of_neg hk
      rw [hlast, ← ih]
      exact apply_unchanged hk _

end Merge
