import LeviRsLoader.Lib.Interleave

/-!
# Nested calls

One thread, its instructions on a stack. Some instructions stand for foreign
code that is running; only with such an instruction on top, or with nothing to
run, may an operation be started, and it then runs before what lies below. A
nested run is one of the interleavings of the same operations, also when it is
seen only through a part of its instructions and of its state.
-/
namespace Nesting

open Runs Interleave

variable {σ ι ω : Type*}

structure Machine (σ ι : Type*) where
  state : σ
  stack : List ι

/-- `opens` tells the instructions that stand for foreign code. -/
inductive Step (opens : ι → Bool) (prog : ω → List ι) (exec : ι → σ → List ι → σ → Prop) :
    Machine σ ι → Label ω ι → Machine σ ι → Prop where
  | start (s : σ) (stack : List ι) (o : ω) (h : ∀ i ∈ stack.head?, opens i = true) :
      Step opens prog exec ⟨s, stack⟩ (.start o) ⟨s, prog o ++ stack⟩
  | exec {s s' : σ} {i : ι} {new : List ι} (rest : List ι) (h : exec i s new s') :
      Step opens prog exec ⟨s, i :: rest⟩ (.exec i) ⟨s', new ++ rest⟩

variable {opens : ι → Bool} {prog : ω → List ι} {exec : ι → σ → List ι → σ → Prop}

/-- The instruction that runs is the one on top. -/
theorem Step.top {p p' : Machine σ ι} {i : ι} (h : Step opens prog exec p (.exec i) p') :
    ∃ new rest, p.stack = i :: rest ∧ exec i p.state new p'.state ∧ p'.stack = new ++ rest := by
  cases h with
  | exec rest h => exact ⟨_, rest, rfl, h, rfl⟩

/-- Where an element stands in an append: in the second part, or in the first. -/
theorem append_eq_append_cons {l l' pre post : List ι} {x : ι} (h : l ++ l' = pre ++ x :: post) :
    (∃ p, pre = l ++ p ∧ l' = p ++ x :: post) ∨ ∃ q, l = pre ++ x :: q := by
  obtain ⟨p, hp, hl'⟩ | ⟨q, hl, hq⟩ := List.append_eq_append_iff.mp h
  · exact .inl ⟨p, hp, hl'⟩
  · cases q with
    | nil =>
      rw [List.append_nil] at hl
      exact .inl ⟨[], by simp [hl], by simpa using hq.symm⟩
    | cons y q =>
      obtain ⟨rfl, -⟩ := List.cons_eq_cons.mp hq
      exact .inr ⟨q, hl⟩

/-- The invariant rule: an operation may start only on top of foreign code. -/
theorem nested_invariant (I : σ → List ι → Prop) {G : Machine σ ι → Label ω ι → Prop} {p q : Machine σ ι}
    {tr : List (Machine σ ι × Label ω ι)} (h : Run (Step opens prog exec) p tr q) (hG : Meets G tr)
    (h₀ : I p.state p.stack)
    (hstart : ∀ s stack o, (∀ i ∈ stack.head?, opens i = true) → I s stack → I s (prog o ++ stack))
    (hexec : ∀ s i rest new s', G ⟨s, i :: rest⟩ (.exec i) → I s (i :: rest) → exec i s new s' →
      I s' (new ++ rest)) : I q.state q.stack := by
  refine h.invariant (fun p => I p.state p.stack) hG h₀ fun p l q hp hg hs => ?_
  cases hs with
  | start s stack o hopen => exact hstart s stack o hopen hp
  | exec rest hx => exact hexec _ _ rest _ _ hg hp hx

/-! ## A part of a nested run is an interleaving -/

section Projection

variable {σ' ι' ω' : Type*} {prog' : ω' → List ι'} {exec' : ι' → σ' → List ι' → σ' → Prop}
  {f : ι → Option ι'} {g : σ → σ'}

/-- `f` and `g` keep a part of the instructions and of the state: what is kept
runs as `exec'` says, what is not leaves the kept state alone, and kept
instructions turn up as successors of a kept one or as a whole operation. -/
structure Projection (prog : ω → List ι) (exec : ι → σ → List ι → σ → Prop) (prog' : ω' → List ι')
    (exec' : ι' → σ' → List ι' → σ' → Prop) (f : ι → Option ι') (g : σ → σ') : Prop where
  start : ∀ o, (prog o).filterMap f = [] ∨ ∃ o', (prog o).filterMap f = prog' o'
  seen : ∀ {i i' s new s'}, f i = some i' → exec i s new s' → exec' i' (g s) (new.filterMap f) (g s')
  unseen : ∀ {i s new s'}, f i = none → exec i s new s' →
    g s' = g s ∧ (new.filterMap f = [] ∨ ∃ o', new.filterMap f = prog' o')

/-- What the projection shows of a step. -/
def view (f : ι → Option ι') (g : σ → σ') (e : Machine σ ι × Label ω ι) : Option (σ' × List ι' × ι') :=
  match e.2 with
  | .start _ => none
  | .exec i => (f i).map fun i' => (g e.1.state, e.1.stack.filterMap f, i')

/-- The same for a step of the interleaving. -/
def poolView (e : Pool σ' ι' × Label ω' ι') : Option (σ' × List ι' × ι') :=
  match e.2 with
  | .start _ => none
  | .exec i' => some (e.1.shared, e.1.pending, i')

/-- The pool holds what the projection shows of the machine. -/
def Shows (f : ι → Option ι') (g : σ → σ') (m : Machine σ ι) (p : Pool σ' ι') : Prop :=
  p.shared = g m.state ∧ p.pending = m.stack.filterMap f

/-- New instructions of a whole operation, or none, are a start of the pool or no step. -/
theorem Shows.started (exec' : ι' → σ' → List ι' → σ' → Prop) {new stack : List ι} {s s' : σ} {p : Pool σ' ι'}
    (hp : Shows f g ⟨s, stack⟩ p) (hg : g s' = g s) (hnew : new.filterMap f = [] ∨ ∃ o', new.filterMap f = prog' o') :
    ∃ tr' p', Run (Interleave.Step prog' exec') p tr' p' ∧ Shows f g ⟨s', new ++ stack⟩ p' ∧
      tr'.filterMap poolView = [] := by
  obtain ⟨hshared, hpending⟩ := hp
  rcases hnew with hnew | ⟨o', hnew⟩
  · exact ⟨[], p, .nil p, ⟨hshared.trans hg.symm, by simpa [hnew] using hpending⟩, rfl⟩
  · refine ⟨[(p, .start o')], ⟨p.shared, prog' o' :: p.threads⟩, .single (.start p o'), ?_, rfl⟩
    refine ⟨hshared.trans hg.symm, ?_⟩
    rw [List.filterMap_append, hnew]
    simpa [Pool.pending] using hpending

/-- A kept instruction on top is the first one some thread has still to run. -/
theorem Shows.ran (prog' : ω' → List ι') {i : ι} {i' : ι'} {rest new : List ι} {s s' : σ} {p : Pool σ' ι'}
    (hp : Shows f g ⟨s, i :: rest⟩ p) (hi : f i = some i') (hx : exec' i' (g s) (new.filterMap f) (g s')) :
    ∃ p', Interleave.Step prog' exec' p (.exec i') p' ∧ Shows f g ⟨s', new ++ rest⟩ p' := by
  obtain ⟨shared, threads⟩ := p
  obtain ⟨hshared, hpending⟩ := hp
  dsimp only at hshared hpending
  subst hshared
  rw [List.filterMap_cons_some hi, Pool.pending] at hpending
  obtain ⟨before, tail, after, hthreads, hbefore, htail⟩ := List.flatten_eq_cons_iff.mp hpending
  dsimp only at hthreads
  subst hthreads
  refine ⟨_, .exec hx, rfl, ?_⟩
  have hnil : before.flatten = [] := List.flatten_eq_nil_iff.mpr hbefore
  simp [Pool.pending, hnil, htail]

/-- The simulation: a run of the machine, seen through the projection, is a run of the pool. -/
theorem Projection.run (P : Projection prog exec prog' exec' f g) {m m' : Machine σ ι}
    {tr : List (Machine σ ι × Label ω ι)} (h : Run (Step opens prog exec) m tr m') {p : Pool σ' ι'}
    (hp : Shows f g m p) :
    ∃ tr' p', Run (Interleave.Step prog' exec') p tr' p' ∧ Shows f g m' p' ∧
      tr'.filterMap poolView = tr.filterMap (view f g) := by
  induction h generalizing p with
  | nil m => exact ⟨[], p, .nil p, hp, rfl⟩
  | cons hs _ ih =>
    cases hs with
    | start s stack o =>
      obtain ⟨tr₁, p₁, hrun₁, hp₁, hview₁⟩ := hp.started exec' rfl (P.start o)
      obtain ⟨tr₂, p₂, hrun₂, hp₂, hview₂⟩ := ih hp₁
      refine ⟨tr₁ ++ tr₂, p₂, hrun₁.append hrun₂, hp₂, ?_⟩
      rw [List.filterMap_append, hview₁, hview₂]
      rfl
    | @exec s s' i new rest hx =>
      cases hi : f i with
      | none =>
        obtain ⟨hg, hnew⟩ := P.unseen hi hx
        have hrest : Shows f g ⟨s, rest⟩ p := by simpa [Shows, hi] using hp
        obtain ⟨tr₁, p₁, hrun₁, hp₁, hview₁⟩ := hrest.started exec' hg hnew
        obtain ⟨tr₂, p₂, hrun₂, hp₂, hview₂⟩ := ih hp₁
        refine ⟨tr₁ ++ tr₂, p₂, hrun₁.append hrun₂, hp₂, ?_⟩
        rw [List.filterMap_append, hview₁, hview₂, List.filterMap_cons_none]
        · rfl
        · simp [view, hi]
      | some i' =>
        obtain ⟨p₁, hstep, hp₁⟩ := hp.ran prog' hi (P.seen hi hx)
        obtain ⟨tr₂, p₂, hrun₂, hp₂, hview₂⟩ := ih hp₁
        refine ⟨(p, .exec i') :: tr₂, p₂, .cons hstep hrun₂, hp₂, ?_⟩
        have hone : view f g ((⟨s, i :: rest⟩, .exec i) : Machine σ ι × Label ω ι) =
            some (p.shared, p.pending, i') := by
          rw [hp.1, hp.2]
          simp [view, hi]
        rw [List.filterMap_cons_some hone, ← hview₂]
        rfl

end Projection

end Nesting
