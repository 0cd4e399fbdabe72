import Mathlib.Algebra.Group.Defs
import Mathlib.Data.List.Basic
import Mathlib.Data.List.Induction

/-!
# Runs of a labelled step relation

A run keeps, for every step, the state the step started from and its label, so
a property of the moment a step is taken is a property of one entry of the
trace. The three induction rules below are the only ones the rest of the
development uses: one for invariants of the state, one for invariants that
also mention the trace so far, one for books that balance. At the end stand lists of keys given out from a
counter, rules for a deterministic run, which is a fold, and machines that answer their inputs.
-/
namespace Runs

variable {σ ℓ : Type*}

/-- The finite runs of `step`: the trace lists each label with the state before it. -/
inductive Run (step : σ → ℓ → σ → Prop) : σ → List (σ × ℓ) → σ → Prop where
  | nil (s : σ) : Run step s [] s
  | cons {s t u : σ} {l : ℓ} {tr : List (σ × ℓ)} (h : step s l t) (r : Run step t tr u) :
      Run step s ((s, l) :: tr) u

/-- A state some run from `init` ends in. -/
def Reachable (step : σ → ℓ → σ → Prop) (init s : σ) : Prop := ∃ tr, Run step init tr s

/-- Every step of the trace is taken in a state, and under a label, that meets `G`. -/
def Meets (G : σ → ℓ → Prop) (tr : List (σ × ℓ)) : Prop := ∀ e ∈ tr, G e.1 e.2

variable {step : σ → ℓ → σ → Prop} {G : σ → ℓ → Prop}

@[simp] theorem meets_nil : Meets G [] := by simp [Meets]

@[simp] theorem meets_cons (e : σ × ℓ) (tr : List (σ × ℓ)) :
    Meets G (e :: tr) ↔ G e.1 e.2 ∧ Meets G tr := by simp [Meets]

@[simp] theorem meets_append (tr tr' : List (σ × ℓ)) :
    Meets G (tr ++ tr') ↔ Meets G tr ∧ Meets G tr' := by
  simp only [Meets, List.mem_append]
  constructor
  · intro h
    exact ⟨fun e he => h e (.inl he), fun e he => h e (.inr he)⟩
  · rintro ⟨h, h'⟩ e (he | he)
    · exact h e he
    · exact h' e he

theorem Run.single {s t : σ} {l : ℓ} (h : step s l t) : Run step s [(s, l)] t := .cons h (.nil t)

theorem Run.append {s t u : σ} {tr tr' : List (σ × ℓ)} (h : Run step s tr t) (h' : Run step t tr' u) :
    Run step s (tr ++ tr') u := by
  induction h with
  | nil s => exact h'
  | cons hs _ ih => exact .cons hs (ih h')

/-- A run whose trace is an append passes through a state between the two parts. -/
theorem Run.split {s u : σ} {tr tr' : List (σ × ℓ)} (h : Run step s (tr ++ tr') u) :
    ∃ t, Run step s tr t ∧ Run step t tr' u := by
  induction tr generalizing s with
  | nil => exact ⟨s, .nil s, h⟩
  | cons e tr ih =>
    cases h with
    | cons hs r =>
      obtain ⟨t, ht, ht'⟩ := ih r
      exact ⟨t, .cons hs ht, ht'⟩

/-- The entry between two parts of a trace is a step from the state it names. -/
theorem Run.split_cons {s u : σ} {e : σ × ℓ} {tr tr' : List (σ × ℓ)} (h : Run step s (tr ++ e :: tr') u) :
    ∃ t, Run step s tr e.1 ∧ step e.1 e.2 t ∧ Run step t tr' u := by
  obtain ⟨t, ht, ht'⟩ := h.split
  cases ht' with
  | cons hs r => exact ⟨_, ht, hs, r⟩

/-- Where every step is a step of another relation, seen through two maps, every run is a run of it. -/
theorem Run.map {σ' ℓ' : Type*} {step' : σ' → ℓ' → σ' → Prop} {s u : σ} {tr : List (σ × ℓ)} (h : Run step s tr u)
    (f : σ → σ') (g : ℓ → ℓ') (hstep : ∀ s l t, step s l t → step' (f s) (g l) (f t)) :
    Run step' (f s) (tr.map fun e => (f e.1, g e.2)) (f u) := by
  induction h with
  | nil s => exact .nil (f s)
  | cons hs _ ih => exact .cons (hstep _ _ _ hs) ih

/-- An invariant that every guarded step keeps holds at the end of every run
whose steps meet the guard. -/
theorem Run.invariant (I : σ → Prop) {s u : σ} {tr : List (σ × ℓ)} (h : Run step s tr u)
    (hG : Meets G tr) (h₀ : I s) (hstep : ∀ s l t, I s → G s l → step s l t → I t) : I u := by
  induction h with
  | nil s => exact h₀
  | cons hs _ ih =>
    rw [meets_cons] at hG
    exact ih hG.2 (hstep _ _ _ h₀ hG.1 hs)

/-- The same rule for an invariant that also speaks of the trace so far. -/
theorem Run.traceInvariant (I : List (σ × ℓ) → σ → Prop) {s u : σ} {tr : List (σ × ℓ)}
    (h : Run step s tr u) (hG : Meets G tr) (h₀ : I [] s)
    (hstep : ∀ pre s l t, I pre s → G s l → step s l t → I (pre ++ [(s, l)]) t) : I tr u := by
  suffices ∀ pre, I pre s → I (pre ++ tr) u by simpa using this [] h₀
  clear h₀
  induction h with
  | nil s => intro pre hp; simpa using hp
  | @cons s t u l tr hs _ ih =>
    intro pre hp
    rw [meets_cons] at hG
    have := ih hG.2 (pre ++ [(s, l)]) (hstep _ _ _ _ hp hG.1 hs)
    simpa using this

/-- The unguarded form of `Run.invariant`. -/
theorem Run.invariant' (I : σ → Prop) {s u : σ} {tr : List (σ × ℓ)} (h : Run step s tr u)
    (h₀ : I s) (hstep : ∀ s l t, I s → step s l t → I t) : I u :=
  h.invariant (G := fun _ _ => True) I (by simp [Meets]) h₀ (fun s l t hi _ hs => hstep s l t hi hs)

/-- What an invariant and one step give at a step holds at every entry of the trace. -/
theorem Run.forall_entries (I : σ → Prop) (Φ : σ → ℓ → Prop) {s u : σ} {tr : List (σ × ℓ)}
    (h : Run step s tr u) (hG : Meets G tr) (h₀ : I s)
    (hstep : ∀ s l t, I s → G s l → step s l t → I t)
    (hΦ : ∀ s l t, I s → G s l → step s l t → Φ s l) : ∀ e ∈ tr, Φ e.1 e.2 := by
  induction h with
  | nil s => simp
  | cons hs _ ih =>
    rw [meets_cons] at hG
    intro e he
    rcases List.mem_cons.mp he with rfl | he
    · exact hΦ _ _ _ h₀ hG.1 hs
    · exact ih hG.2 (hstep _ _ _ h₀ hG.1 hs) e he

/-- The books of a run balance when those of every step do: what is paid out and what is still
held is what was held before and has come in. -/
theorem Run.account {M : Type*} [AddCommMonoid M] (I : σ → Prop) (held : σ → M) (paid got : σ → ℓ → M)
    {s u : σ} {tr : List (σ × ℓ)} (h : Run step s tr u) (hG : Meets G tr) (h₀ : I s)
    (hstep : ∀ s l t, I s → G s l → step s l t → I t ∧ paid s l + held t = held s + got s l) :
    I u ∧ (tr.map fun e => paid e.1 e.2).sum + held u = held s + (tr.map fun e => got e.1 e.2).sum := by
  induction h with
  | nil s => exact ⟨h₀, by simp only [List.map_nil, List.sum_nil, zero_add, add_zero]⟩
  | @cons s t u l tr hs _ ih =>
    rw [meets_cons] at hG
    obtain ⟨hI, hbalance⟩ := hstep s l t h₀ hG.1 hs
    obtain ⟨hI', hrest⟩ := ih hG.2 hI
    refine ⟨hI', ?_⟩
    rw [List.map_cons, List.map_cons, List.sum_cons, List.sum_cons, add_assoc, hrest, ← add_assoc, hbalance, add_assoc]

theorem Reachable.refl (s : σ) : Reachable step s s := ⟨[], .nil s⟩

theorem Reachable.tail {s t u : σ} {l : ℓ} (h : Reachable step s t) (h' : step t l u) :
    Reachable step s u := by
  obtain ⟨tr, hr⟩ := h
  exact ⟨tr ++ [(t, l)], hr.append (.single h')⟩

/-- An inductive invariant holds in every reachable state. -/
theorem Reachable.invariant (I : σ → Prop) {s u : σ} (h : Reachable step s u) (h₀ : I s)
    (hstep : ∀ s l t, I s → step s l t → I t) : I u := by
  obtain ⟨tr, hr⟩ := h
  exact hr.invariant' I h₀ hstep

/-! ## Guarded reachability -/

/-- Some run whose steps meet the guard leads from the one state to the other. -/
def Reaches (step : σ → ℓ → σ → Prop) (G : σ → ℓ → Prop) (s t : σ) : Prop := ∃ tr, Run step s tr t ∧ Meets G tr

theorem Reaches.refl (s : σ) : Reaches step G s s := ⟨[], .nil s, meets_nil⟩

theorem Reaches.head {s t u : σ} {l : ℓ} (h : step s l t) (hG : G s l) (h' : Reaches step G t u) :
    Reaches step G s u := by
  obtain ⟨tr, hr, hm⟩ := h'
  exact ⟨(s, l) :: tr, .cons h hr, (meets_cons _ _).mpr ⟨hG, hm⟩⟩

theorem Reaches.trans {s t u : σ} (h : Reaches step G s t) (h' : Reaches step G t u) : Reaches step G s u := by
  obtain ⟨tr, hr, hm⟩ := h
  obtain ⟨tr', hr', hm'⟩ := h'
  exact ⟨tr ++ tr', hr.append hr', (meets_append tr tr').mpr ⟨hm, hm'⟩⟩

/-! ## Traces that grow at the end -/

section Concat

variable {α : Type*} {p Stop : α → Prop} {l : List α} {x : α}

/-- Some element starts it, and none after that one stops it. -/
def Since (p Stop : α → Prop) (l : List α) : Prop := ∃ pre a suf, l = pre ++ a :: suf ∧ p a ∧ ∀ b ∈ suf, ¬Stop b

theorem not_since_nil : ¬Since p Stop [] := by
  rintro ⟨pre, a, suf, hl, -, -⟩
  simp at hl

theorem since_concat : Since p Stop (l ++ [x]) ↔ p x ∨ Since p Stop l ∧ ¬Stop x := by
  constructor
  · rintro ⟨pre, a, suf, hl, ha, hsuf⟩
    induction suf using List.reverseRecOn with
    | nil =>
      obtain ⟨-, hx⟩ := List.append_inj' hl rfl
      obtain rfl := List.singleton_inj.mp hx
      exact .inl ha
    | append_singleton suf b =>
      rw [← List.cons_append, ← List.append_assoc] at hl
      obtain ⟨rfl, hx⟩ := List.append_inj' hl rfl
      obtain rfl := List.singleton_inj.mp hx
      exact .inr ⟨⟨pre, a, suf, rfl, ha, fun b hb => hsuf b (by simp [hb])⟩, hsuf x (by simp)⟩
  · rintro (hx | ⟨⟨pre, a, suf, rfl, ha, hsuf⟩, hx⟩)
    · exact ⟨l, x, [], rfl, hx, by simp⟩
    · refine ⟨pre, a, suf ++ [x], by simp, ha, fun b hb => ?_⟩
      rcases List.mem_append.mp hb with hb | hb
      · exact hsuf b hb
      · exact List.mem_singleton.mp hb ▸ hx

theorem Since.mono {q Stop' : α → Prop} (h : Since p Stop l) (hp : ∀ a, p a → q a) (hs : ∀ a, Stop' a → Stop a) :
    Since q Stop' l := by
  obtain ⟨pre, a, suf, rfl, ha, hsuf⟩ := h
  exact ⟨pre, a, suf, rfl, hp a ha, fun b hb hn => hsuf b hb (hs b hn)⟩

/-- Where `q` starts nothing that `p` does not start or that stops `p`, what
stops `q` has not happened to `p` either. -/
theorem Since.inter {q Stop' : α → Prop} (h : Since p Stop l) (h' : Since q Stop' l) (hq : ∀ a, q a → p a ∨ Stop a) :
    Since p (fun a => Stop a ∨ Stop' a) l := by
  induction l using List.reverseRecOn with
  | nil => exact absurd h not_since_nil
  | append_singleton l x ih =>
    rw [since_concat]
    rcases since_concat.mp h with hx | ⟨h, hn⟩
    · exact .inl hx
    · rcases since_concat.mp h' with hx' | ⟨h', hn'⟩
      · exact .inl ((hq x hx').resolve_right hn)
      · exact .inr ⟨ih h h', not_or.mpr ⟨hn, hn'⟩⟩

theorem countP_concat_le_one {p : α → Bool} (h : l.countP p ≤ 1) (hx : p x → ∀ a ∈ l, ¬p a) :
    (l ++ [x]).countP p ≤ 1 := by
  rw [List.countP_append, List.countP_singleton]
  split_ifs with hp
  · have : l.countP p = 0 := List.countP_eq_zero.mpr (hx hp)
    omega
  · exact h

/-- What happens at most once happens at one entry only. -/
theorem eq_of_countP_le_one {p : α → Bool} (h : l.countP p ≤ 1) {a b : α} (ha : a ∈ l) (hb : b ∈ l)
    (hpa : p a) (hpb : p b) : a = b := by
  rw [List.countP_eq_length_filter] at h
  have hma : a ∈ l.filter p := List.mem_filter.mpr ⟨ha, hpa⟩
  have hmb : b ∈ l.filter p := List.mem_filter.mpr ⟨hb, hpb⟩
  match hl : l.filter p with
  | [] => rw [hl] at hma; exact absurd hma List.not_mem_nil
  | [c] =>
    rw [hl] at hma hmb
    rw [List.mem_singleton.mp hma, List.mem_singleton.mp hmb]
  | _ :: _ :: _ => rw [hl] at h; simp at h

end Concat

/-! ## Keys from a counter -/

section Numbered

variable {α : Type*} {l : List (Nat × α)} {n n' : Nat}

/-- No key twice, and all of them below the next one. -/
structure Numbered (l : List (Nat × α)) (n : Nat) : Prop where
  once : (l.map Prod.fst).Nodup
  lt : ∀ x ∈ l, x.1 < n

theorem numbered_nil (n : Nat) : Numbered ([] : List (Nat × α)) n := ⟨List.nodup_nil, by simp⟩

theorem Numbered.mono (h : Numbered l n) (hn : n ≤ n') : Numbered l n' :=
  ⟨h.once, fun x hx => Nat.lt_of_lt_of_le (h.lt x hx) hn⟩

theorem Numbered.concat (h : Numbered l n) (a : α) : Numbered (l ++ [(n, a)]) (n + 1) where
  once := by
    rw [List.map_append, List.map_singleton, List.nodup_append]
    refine ⟨h.once, by simp, fun k hk k' hk' => ?_⟩
    obtain ⟨x, hx, rfl⟩ := List.mem_map.mp hk
    rw [List.mem_singleton.mp hk']
    exact Nat.ne_of_lt (h.lt x hx)
  lt x hx := by
    rcases List.mem_append.mp hx with hx | hx
    · exact Nat.lt_succ_of_lt (h.lt x hx)
    · rw [List.mem_singleton.mp hx]
      exact Nat.lt_succ_self n

end Numbered

/-! ## Folds -/

section Fold

variable {α : Type*} {f : σ → α → σ} {l : List α} {s : σ}

theorem foldl_invariant (I : σ → Prop) (h₀ : I s) (hstep : ∀ s a, I s → I (f s a)) : I (l.foldl f s) := by
  induction l generalizing s with
  | nil => exact h₀
  | cons a l ih => exact ih (hstep s a h₀)

/-- What is false at the start and true at the end has been switched on by some
element and not off again since. -/
theorem exists_last_switch (P : σ → Prop) (h₀ : ¬P s) (h₁ : P (l.foldl f s)) :
    ∃ pre a suf, l = pre ++ a :: suf ∧ ¬P (pre.foldl f s) ∧
      ∀ mid rest, suf = mid ++ rest → P ((pre ++ a :: mid).foldl f s) := by
  induction l using List.reverseRecOn with
  | nil => exact absurd h₁ h₀
  | append_singleton l x ih =>
    by_cases hl : P (l.foldl f s)
    · obtain ⟨pre, a, suf, rfl, hpre, hmid⟩ := ih hl
      refine ⟨pre, a, suf ++ [x], by simp, hpre, fun mid rest hsuf => ?_⟩
      induction rest using List.reverseRecOn with
      | nil =>
        rw [List.append_nil] at hsuf
        rw [← hsuf]
        simpa using h₁
      | append_singleton rest y =>
        rw [← List.append_assoc] at hsuf
        exact hmid mid rest (List.append_inj_left' hsuf rfl)
    · refine ⟨l, x, [], rfl, hl, fun mid rest hsuf => ?_⟩
      obtain ⟨rfl, -⟩ := List.append_eq_nil_iff.mp hsuf.symm
      exact h₁

/-- Where a step does `Φ` and keeps the invariant exactly when it meets `C`,
every step of a run does exactly when every step meets `C`. -/
theorem foldl_forall_and_iff (I : σ → Prop) (Φ C : σ → α → Prop) (h₀ : I s)
    (hstep : ∀ s a, I s → (Φ s a ∧ I (f s a) ↔ C s a)) :
    (∀ pre a suf, l = pre ++ a :: suf → Φ (pre.foldl f s) a ∧ I ((pre ++ [a]).foldl f s)) ↔
      ∀ pre a suf, l = pre ++ a :: suf → C (pre.foldl f s) a := by
  induction l generalizing s with
  | nil => simp
  | cons b l ih =>
    constructor
    · intro h pre a suf hl
      have hb : Φ s b ∧ I (f s b) := h [] b l rfl
      cases pre with
      | nil =>
        obtain ⟨rfl, -⟩ := List.cons.inj hl
        exact (hstep s b h₀).mp hb
      | cons c pre =>
        obtain ⟨rfl, htail⟩ := List.cons.inj hl
        refine (ih hb.2).mp (fun pre a suf hl => ?_) pre a suf htail
        exact h (b :: pre) a suf (by rw [hl]; rfl)
    · intro h pre a suf hl
      have hb : Φ s b ∧ I (f s b) := (hstep s b h₀).mpr (h [] b l rfl)
      cases pre with
      | nil =>
        obtain ⟨rfl, -⟩ := List.cons.inj hl
        exact hb
      | cons c pre =>
        obtain ⟨rfl, htail⟩ := List.cons.inj hl
        refine (ih hb.2).mpr (fun pre a suf hl => ?_) pre a suf htail
        exact h (b :: pre) a suf (by rw [hl]; rfl)

/-- The same where the invariant is kept whenever `C` is met and is not part of
what is asked of a step. -/
theorem foldl_forall_iff_of_kept (I : σ → Prop) (Φ C : σ → α → Prop) (h₀ : I s)
    (hstep : ∀ s a, I s → (Φ s a ↔ C s a)) (hkeep : ∀ s a, I s → C s a → I (f s a)) :
    (∀ pre a suf, l = pre ++ a :: suf → Φ (pre.foldl f s) a) ↔
      ∀ pre a suf, l = pre ++ a :: suf → C (pre.foldl f s) a := by
  have hboth := foldl_forall_and_iff (f := f) (l := l) I Φ C h₀ fun s a hs =>
    ⟨fun h => (hstep s a hs).mp h.1, fun h => ⟨(hstep s a hs).mpr h, hkeep s a hs h⟩⟩
  refine ⟨fun h => ?_, fun h pre a suf hl => (hboth.mpr h pre a suf hl).1⟩
  suffices ∀ pre suf, l = pre ++ suf → I (pre.foldl f s) from
    fun pre a suf hl => (hstep _ a (this pre (a :: suf) hl)).mp (h pre a suf hl)
  intro pre
  induction pre using List.reverseRecOn with
  | nil => exact fun _ _ => h₀
  | append_singleton pre a ih =>
    intro suf hl
    rw [List.append_assoc, List.singleton_append] at hl
    rw [List.foldl_append]
    exact hkeep _ a (ih _ hl) ((hstep _ a (ih _ hl)).mp (h pre a suf hl))

theorem foldl_forall_iff (I : σ → Prop) (C : σ → α → Prop) (h₀ : I s)
    (hstep : ∀ s a, I s → (I (f s a) ↔ C s a)) :
    (∀ pre a suf, l = pre ++ a :: suf → I ((pre ++ [a]).foldl f s)) ↔
      ∀ pre a suf, l = pre ++ a :: suf → C (pre.foldl f s) a := by
  simpa using foldl_forall_and_iff I (fun _ _ => True) C h₀ (by simpa using hstep)

/-- A counted loop that may fail: if every turn succeeds and moves the
invariant on by one, the whole loop succeeds. -/
theorem foldlM_range (I : Nat → σ → Prop) {f : σ → Nat → Option σ} {n : Nat} (h₀ : I 0 s)
    (hstep : ∀ k < n, ∀ t, I k t → ∃ t', f t k = some t' ∧ I (k + 1) t') :
    ∃ t, (List.range n).foldlM f s = some t ∧ I n t := by
  induction n with
  | zero => exact ⟨s, rfl, h₀⟩
  | succ n ih =>
    obtain ⟨t, ht, hI⟩ := ih fun k hk => hstep k (by omega)
    obtain ⟨t', ht', hI'⟩ := hstep n (by omega) t hI
    exact ⟨t', by rw [List.range_succ, List.foldlM_append, ht]; simpa using ht', hI'⟩

end Fold

/-! ## Machines that answer -/

section Answers

variable {τ α ρ : Type*}

/-- The answers of a machine to a list of inputs, and the state after them. -/
def answers (f : σ → α → ρ × σ) (s : σ) : List α → List ρ × σ
  | [] => ([], s)
  | a :: l =>
    let r := f s a
    let rest := answers f r.2 l
    (r.1 :: rest.1, rest.2)

/-- Every input meets the guard in the state it arrives in. -/
def Admits (f : σ → α → ρ × σ) (G : σ → α → Prop) (s : σ) : List α → Prop
  | [] => True
  | a :: l => G s a ∧ Admits f G (f s a).2 l

theorem admits_of_forall {f : σ → α → ρ × σ} {G : α → Prop} {s : σ} {l : List α} (h : ∀ a ∈ l, G a) :
    Admits f (fun _ => G) s l := by
  induction l generalizing s with
  | nil => trivial
  | cons a l ih => exact ⟨h a List.mem_cons_self, ih fun b hb => h b (List.mem_cons_of_mem a hb)⟩

/-- Two machines that answer one guarded input alike, and stay related, answer every run alike. -/
theorem answers_eq {f : σ → α → ρ × σ} {g : τ → α → ρ × τ} {G : σ → α → Prop} (R : σ → τ → Prop)
    (hstep : ∀ s t a, R s t → G s a → (f s a).1 = (g t a).1 ∧ R (f s a).2 (g t a).2)
    {l : List α} {s : σ} {t : τ} (h : R s t) (hG : Admits f G s l) :
    (answers f s l).1 = (answers g t l).1 ∧ R (answers f s l).2 (answers g t l).2 := by
  induction l generalizing s t with
  | nil => exact ⟨rfl, h⟩
  | cons a l ih =>
    obtain ⟨hanswer, hnext⟩ := hstep s t a h hG.1
    obtain ⟨hrest, hend⟩ := ih hnext hG.2
    exact ⟨congrArg₂ List.cons hanswer hrest, hend⟩

end Answers

end Runs
