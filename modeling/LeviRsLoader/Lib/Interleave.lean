import LeviRsLoader.Lib.Runs

/-!
# Interleavings over one shared state

Operations started at any time become threads, each a list of instructions
still to run. An instruction is one atomic step on the shared state and may put
further instructions in front of its own thread. Invariants speak of the
instructions of all threads as one list in no particular order, so the rule at
the end leaves no thread to pick.
-/
namespace Interleave

open Runs

variable {σ ι ω : Type*}

structure Pool (σ ι : Type*) where
  shared : σ
  threads : List (List ι)

/-- Everything still to run. -/
def Pool.pending (p : Pool σ ι) : List ι := p.threads.flatten

def Pool.Quiescent (p : Pool σ ι) : Prop := p.pending = []

inductive Label (ω ι : Type*) where
  | start (o : ω)
  | exec (i : ι)

/-- `prog` gives an operation's first instructions, `exec` what running one
instruction does: the instructions put in front of its thread and the state after. -/
inductive Step (prog : ω → List ι) (exec : ι → σ → List ι → σ → Prop) :
    Pool σ ι → Label ω ι → Pool σ ι → Prop where
  | start (p : Pool σ ι) (o : ω) : Step prog exec p (.start o) ⟨p.shared, prog o :: p.threads⟩
  | exec {s s' : σ} {i : ι} {new rest : List ι} {before after : List (List ι)} (h : exec i s new s') :
      Step prog exec ⟨s, before ++ (i :: rest) :: after⟩ (.exec i) ⟨s', before ++ (new ++ rest) :: after⟩

variable {prog : ω → List ι} {exec : ι → σ → List ι → σ → Prop}

/-- Running the thread started last. -/
theorem Step.head {s s' : σ} {i : ι} {new rest : List ι} {after : List (List ι)} (h : exec i s new s') :
    Step prog exec ⟨s, (i :: rest) :: after⟩ (.exec i) ⟨s', (new ++ rest) :: after⟩ :=
  @Step.exec _ _ _ prog exec _ _ _ _ _ [] _ h

/-- A step takes one pending instruction out and puts its successors in. -/
theorem Step.exec_pending {p p' : Pool σ ι} {i : ι} (h : Step prog exec p (.exec i) p') :
    ∃ new others, exec i p.shared new p'.shared ∧ p.pending.Perm (i :: others) ∧
      p'.pending.Perm (new ++ others) := by
  cases h with
  | @exec s s' i new rest before after h =>
    refine ⟨new, before.flatten ++ (rest ++ after.flatten), h, ?_, ?_⟩
    · simp [Pool.pending]
    · have : (before.flatten ++ (new ++ (rest ++ after.flatten))).Perm
          (new ++ (before.flatten ++ (rest ++ after.flatten))) := by
        rw [← List.append_assoc, ← List.append_assoc new]
        exact List.perm_append_comm.append_right _
      simpa [Pool.pending] using this

/-- The invariant rule: start with no threads, let an operation's instructions
join the pending ones, replace one pending instruction by its successors. -/
theorem pool_invariant (I : List (Pool σ ι × Label ω ι) → σ → List ι → Prop)
    {G : Pool σ ι → Label ω ι → Prop} {s₀ : σ} {p : Pool σ ι} {tr : List (Pool σ ι × Label ω ι)}
    (h : Run (Step prog exec) ⟨s₀, []⟩ tr p) (hG : Meets G tr) (h₀ : I [] s₀ [])
    (hperm : ∀ tr s l l', List.Perm l l' → I tr s l → I tr s l')
    (hstart : ∀ tr p o, I tr p.shared p.pending → I (tr ++ [(p, .start o)]) p.shared (prog o ++ p.pending))
    (hexec : ∀ tr p i new s' others, p.pending.Perm (i :: others) → G p (.exec i) →
      I tr p.shared (i :: others) → exec i p.shared new s' →
      I (tr ++ [(p, .exec i)]) s' (new ++ others)) :
    I tr p.shared p.pending := by
  refine h.traceInvariant (fun tr p => I tr p.shared p.pending) hG h₀ ?_
  intro pre q l q' hq hl hs
  cases l with
  | start o =>
    cases hs
    simpa [Pool.pending] using hstart pre q o hq
  | exec i =>
    obtain ⟨new, others, hx, hp, hp'⟩ := hs.exec_pending
    have := hexec pre q i new q'.shared others hp hl (hperm _ _ _ _ hp hq) hx
    exact hperm _ _ _ _ hp'.symm this

/-- Instructions of one kind are counted by two kinds that cover it. -/
theorem countP_le_add {p q r : ι → Bool} {l : List ι}
    (h : ∀ x ∈ l, p x = true → q x = true ∨ r x = true) : l.countP p ≤ l.countP q + l.countP r := by
  induction l with
  | nil => simp
  | cons x l ih =>
    have hx := h x (by simp)
    have := ih fun y hy => h y (List.mem_cons_of_mem x hy)
    simp only [List.countP_cons]
    cases hp : p x with
    | false => simp; omega
    | true =>
      rcases hx hp with hq | hr
      · simp [hq]; omega
      · simp [hr]; omega

end Interleave
