import LeviRsLoader.Lib.Runs
import Mathlib.Algebra.BigOperators.Group.List.Basic
import Mathlib.Algebra.GroupWithZero.Nat

/-!
# Nested calls on a clock

Calls enter and leave in stack order and the clock never goes back. Seen from any moment on, what is
spent in calls of one kind is at most what is spent in calls of another kind, where each of the first
runs inside one of the second and not inside one of its own; and no kind that does not nest in itself
spends more than the time that has passed.
-/
namespace Spans

open Runs

variable {κ : Type*}

structure Span (κ : Type*) where
  kind : κ
  entered : Nat

structure Calls (κ : Type*) where
  stack : List (Span κ)
  clock : Nat

inductive Event (κ : Type*) where
  | enter (k : κ) (now : Nat)
  | leave (now : Nat)
  | pass (now : Nat)

inductive Step : Calls κ → Event κ → Calls κ → Prop where
  | enter {stack : List (Span κ)} {clock now : Nat} (k : κ) (h : clock ≤ now) :
      Step ⟨stack, clock⟩ (.enter k now) ⟨⟨k, now⟩ :: stack, now⟩
  | leave {f : Span κ} {rest : List (Span κ)} {clock now : Nat} (h : clock ≤ now) :
      Step ⟨f :: rest, clock⟩ (.leave now) ⟨rest, now⟩
  | pass {stack : List (Span κ)} {clock now : Nat} (h : clock ≤ now) : Step ⟨stack, clock⟩ (.pass now) ⟨stack, now⟩

/-- How much of the call lies after `t` when the clock shows `now`. -/
def Span.after (t now : Nat) (f : Span κ) : Nat := now - max f.entered t

/-- A call of `k` is entered inside a call of `o` and outside any of `k`. -/
def Inside (k o : κ) (c : Calls κ) : Event κ → Prop
  | .enter k' _ => k' = k → (∃ f ∈ c.stack, f.kind = o) ∧ ∀ f ∈ c.stack, f.kind ≠ k
  | _ => True

/-- A call of `k` is entered outside any of `k`. -/
def Single (k : κ) (c : Calls κ) : Event κ → Prop
  | .enter k' _ => k' = k → ∀ f ∈ c.stack, f.kind ≠ k
  | _ => True

theorem Step.clock_le {c c' : Calls κ} {e : Event κ} (h : Step c e c') : c.clock ≤ c'.clock := by
  cases h with
  | enter k h => exact h
  | leave h => exact h
  | pass h => exact h

/-- No running call is from the future. -/
def Entered (c : Calls κ) : Prop := ∀ f ∈ c.stack, f.entered ≤ c.clock

theorem Entered.step {c c' : Calls κ} {e : Event κ} (hc : Entered c) (h : Step c e c') : Entered c' := by
  intro f hf
  cases h with
  | enter k h =>
    rcases List.mem_cons.mp hf with rfl | hf
    · exact Nat.le_refl _
    · exact Nat.le_trans (hc f hf) h
  | leave h => exact Nat.le_trans (hc f (.tail _ hf)) h
  | pass h => exact Nat.le_trans (hc f hf) h

variable [DecidableEq κ]

/-- The same for the calls of `k` that are running. -/
def running (k : κ) (t : Nat) (c : Calls κ) : Nat :=
  (c.stack.map fun f => if f.kind = k then f.after t c.clock else 0).sum

/-- And for the call that ends with the event, if it is one of `k`. -/
def ended (k : κ) (t : Nat) (e : Calls κ × Event κ) : Nat :=
  match e.2, e.1.stack with
  | .leave now, f :: _ => if f.kind = k then f.after t now else 0
  | _, _ => 0

/-- What is spent in calls of `k` after `t`. -/
def spent (k : κ) (t : Nat) (tr : List (Calls κ × Event κ)) (c : Calls κ) : Nat :=
  (tr.map (ended k t)).sum + running k t c

def count (k : κ) (stack : List (Span κ)) : Nat := stack.countP fun f => decide (f.kind = k)

variable {k o : κ} {t : Nat} {tr : List (Calls κ × Event κ)} {c c' : Calls κ} {e : Event κ}

@[simp] theorem count_nil : count k [] = 0 := rfl

@[simp] theorem count_cons (f : Span κ) (stack : List (Span κ)) :
    count k (f :: stack) = count k stack + if f.kind = k then 1 else 0 := by
  simp [count, List.countP_cons]

theorem count_eq_zero {stack : List (Span κ)} (h : ∀ f ∈ stack, f.kind ≠ k) : count k stack = 0 := by
  rw [count, List.countP_eq_zero]
  simpa using h

theorem count_pos {stack : List (Span κ)} (h : ∃ f ∈ stack, f.kind = k) : 0 < count k stack := by
  rw [count, List.countP_pos_iff]
  simpa using h

/-! ## The clock moves on -/

/-- Every running call grows by the same amount. -/
theorem running_of_le {stack : List (Span κ)} {clock now : Nat} (hc : Entered ⟨stack, clock⟩) (h : clock ≤ now) :
    running k t ⟨stack, now⟩ = running k t ⟨stack, clock⟩ + count k stack * ((now - t) - (clock - t)) := by
  induction stack with
  | nil => simp [running]
  | cons f stack ih =>
    have hf : f.entered ≤ clock := hc f (.head _)
    have hrest := ih fun g hg => hc g (.tail _ hg)
    simp only [running] at hrest ⊢
    rw [List.map_cons, List.sum_cons, List.map_cons, List.sum_cons, hrest, count_cons]
    split_ifs with hk
    · have hgrow : f.after t now = f.after t clock + ((now - t) - (clock - t)) := by
        unfold Span.after
        omega
      rw [hgrow, Nat.add_mul, Nat.one_mul]
      omega
    · rw [Nat.zero_add, Nat.zero_add, Nat.add_zero]

/-- A step lets the running calls grow; what it enters or ends changes nothing. -/
theorem spent_concat (hc : Entered c) (h : Step c e c') :
    spent k t (tr ++ [(c, e)]) c' = spent k t tr c + count k c.stack * ((c'.clock - t) - (c.clock - t)) := by
  rw [spent, List.map_append, List.sum_append, List.map_singleton, List.sum_singleton, spent]
  cases h with
  | @enter stack clock now k' h =>
    have hzero : now - max now t = 0 := by omega
    have hnew : running k t ⟨⟨k', now⟩ :: stack, now⟩ = running k t ⟨stack, now⟩ := by
      simp [running, Span.after, hzero]
    have hend : ended k t (⟨stack, clock⟩, .enter k' now) = 0 := rfl
    rw [hnew, running_of_le hc h, hend, Nat.add_zero, Nat.add_assoc]
  | @leave f rest clock now h =>
    have hend : ended k t (⟨f :: rest, clock⟩, .leave now) + running k t ⟨rest, now⟩ =
        running k t ⟨f :: rest, now⟩ := by
      simp [ended, running]
    rw [Nat.add_assoc, hend, running_of_le hc h, Nat.add_assoc]
  | @pass stack clock now h =>
    have hend : ended k t (⟨stack, clock⟩, .pass now) = 0 := rfl
    rw [running_of_le hc h, hend, Nat.add_zero, Nat.add_assoc]

/-! ## How deep a kind can nest -/

/-- At every depth there are no more calls of `k` than `bound` says. -/
def Within (k : κ) (bound : List (Span κ) → Nat) (c : Calls κ) : Prop := ∀ l, l <:+ c.stack → count k l ≤ bound l

theorem Within.step {bound : List (Span κ) → Nat} (hc : Within k bound c) (h : Step c e c')
    (henter : ∀ k' now, e = .enter k' now → count k (⟨k', now⟩ :: c.stack) ≤ bound (⟨k', now⟩ :: c.stack)) :
    Within k bound c' := by
  intro l hl
  cases h with
  | enter k' h =>
    rcases List.suffix_cons_iff.mp hl with rfl | hl
    · exact henter k' _ rfl
    · exact hc l hl
  | leave h => exact hc l (hl.trans (List.suffix_cons _ _))
  | pass h => exact hc l hl

theorem Single.within (hs : Single k c e) (hc : Within k (fun _ => 1) c) (h : Step c e c') :
    Within k (fun _ => 1) c' := by
  refine hc.step h fun k' now he => ?_
  subst he
  rw [count_cons]
  split_ifs with hk
  · exact Nat.le_of_eq (congrArg (· + 1) (count_eq_zero (hs hk)))
  · exact hc _ List.suffix_rfl

theorem Inside.within (hs : Inside k o c e) (hc : Within k (count o) c) (h : Step c e c') : Within k (count o) c' := by
  refine hc.step h fun k' now he => ?_
  subst he
  rw [count_cons, count_cons]
  split_ifs with hk
  · obtain ⟨ho, hnone⟩ := hs hk
    have hpos := count_pos ho
    rw [count_eq_zero hnone]
    omega
  · obtain ⟨ho, hnone⟩ := hs hk
    have hpos := count_pos ho
    rw [count_eq_zero hnone]
    omega
  · exact Nat.le_succ_of_le (hc _ List.suffix_rfl)
  · exact hc _ List.suffix_rfl

/-! ## Comparing times -/

/-- A kind that does not nest in itself spends no more than the time that has passed. -/
theorem spent_le_clock {clock : Nat} (h : Run Step ⟨[], clock⟩ tr c) (hs : Meets (Single k) tr) (t : Nat) :
    spent k t tr c ≤ c.clock - t := by
  refine (h.traceInvariant (fun tr c => Entered c ∧ Within k (fun _ => 1) c ∧ spent k t tr c ≤ c.clock - t) hs
    ⟨by simp [Entered], ?_, by simp [spent, running]⟩ ?_).2.2
  · intro l hl
    rw [List.suffix_nil.mp hl]
    exact Nat.zero_le 1
  · intro tr c e c' ⟨hc, hw, hle⟩ hs hstep
    refine ⟨hc.step hstep, hs.within hw hstep, ?_⟩
    have hclock := hstep.clock_le
    have hone : count k c.stack ≤ 1 := hw _ List.suffix_rfl
    have hgrow := Nat.mul_le_mul_right ((c'.clock - t) - (c.clock - t)) hone
    rw [spent_concat hc hstep]
    omega

/-- Calls of `k` that run inside calls of `o` spend no more than these. -/
theorem spent_le_spent {clock : Nat} (h : Run Step ⟨[], clock⟩ tr c) (hs : Meets (Inside k o) tr) (t : Nat) :
    spent k t tr c ≤ spent o t tr c := by
  refine (h.traceInvariant (fun tr c => Entered c ∧ Within k (count o) c ∧ spent k t tr c ≤ spent o t tr c) hs
    ⟨by simp [Entered], ?_, by simp [spent, running]⟩ ?_).2.2
  · intro l hl
    rw [List.suffix_nil.mp hl]
    exact Nat.zero_le _
  · intro tr c e c' ⟨hc, hw, hle⟩ hs hstep
    refine ⟨hc.step hstep, hs.within hw hstep, ?_⟩
    have hgrow := Nat.mul_le_mul_right ((c'.clock - t) - (c.clock - t)) (hw _ List.suffix_rfl)
    rw [spent_concat hc hstep, spent_concat hc hstep]
    omega

end Spans
