import LeviRsLoader.Lib.Runs
import Mathlib.Data.List.Induction

/-!
# Nested dispatch of callbacks

A dispatcher takes a snapshot of the tickets a request is for and calls them
one after another, skipping those that are no longer acceptable at their turn.
While a callback runs, foreign code may operate on the registry or start
another dispatch, so the dispatches in progress form a stack. What happens in
one dispatch is read off the trace: its events are those of its own depth.
-/
namespace Dispatch

open Runs

variable {ρ κ α ω β γ : Type*}

/-- Registry `ρ`, requests `κ`, tickets `α`, operations `ω`, replies `β`,
accumulator `γ`. -/
structure Dispatcher (ρ κ α ω β γ : Type*) where
  admits : κ → ρ → Bool
  opened : κ → ρ → ρ
  snapshot : κ → ρ → List α
  accepts : κ → ρ → α → Bool
  start : κ → γ
  absorb : κ → γ → β → γ
  stops : κ → β → Bool
  closed : κ → ρ → ρ
  apply : ω → ρ → ρ

/-- A dispatch in progress: the callback now running, the tickets ahead. -/
structure Frame (κ α γ : Type*) where
  request : κ
  running : Option α
  ahead : List α
  acc : γ

structure State (ρ κ α γ : Type*) where
  reg : ρ
  stack : List (Frame κ α γ)

inductive Label (κ α ω β γ : Type*) where
  | begin (k : κ)
  | op (o : ω)
  | enter (a : α)
  | skip (a : α)
  | leave (b : β)
  | finish (c : γ)

/-- Foreign code is in control: no dispatch at all, or a callback on top. -/
def InMod : List (Frame κ α γ) → Prop
  | [] => True
  | f :: _ => f.running.isSome

inductive Step (D : Dispatcher ρ κ α ω β γ) : State ρ κ α γ → Label κ α ω β γ → State ρ κ α γ → Prop where
  | begin {reg : ρ} {stack : List (Frame κ α γ)} {k : κ} (hm : InMod stack) (hk : D.admits k reg = true) :
      Step D ⟨reg, stack⟩ (.begin k) ⟨D.opened k reg, ⟨k, none, D.snapshot k reg, D.start k⟩ :: stack⟩
  | refuse {reg : ρ} {stack : List (Frame κ α γ)} {k : κ} (hm : InMod stack) (hk : D.admits k reg = false) :
      Step D ⟨reg, stack⟩ (.begin k) ⟨reg, stack⟩
  | op {reg : ρ} {stack : List (Frame κ α γ)} {o : ω} (hm : InMod stack) :
      Step D ⟨reg, stack⟩ (.op o) ⟨D.apply o reg, stack⟩
  | enter {reg : ρ} {stack : List (Frame κ α γ)} {k : κ} {a : α} {as : List α} {c : γ}
      (ha : D.accepts k reg a = true) :
      Step D ⟨reg, ⟨k, none, a :: as, c⟩ :: stack⟩ (.enter a) ⟨reg, ⟨k, some a, as, c⟩ :: stack⟩
  | skip {reg : ρ} {stack : List (Frame κ α γ)} {k : κ} {a : α} {as : List α} {c : γ}
      (ha : D.accepts k reg a = false) :
      Step D ⟨reg, ⟨k, none, a :: as, c⟩ :: stack⟩ (.skip a) ⟨reg, ⟨k, none, as, c⟩ :: stack⟩
  | leave {reg : ρ} {stack : List (Frame κ α γ)} {k : κ} {a : α} {as : List α} {c : γ} (b : β) :
      Step D ⟨reg, ⟨k, some a, as, c⟩ :: stack⟩ (.leave b)
        ⟨reg, ⟨k, none, if D.stops k b then [] else as, D.absorb k c b⟩ :: stack⟩
  | finish {reg : ρ} {stack : List (Frame κ α γ)} {k : κ} {c : γ} :
      Step D ⟨reg, ⟨k, none, [], c⟩ :: stack⟩ (.finish c) ⟨D.closed k reg, stack⟩

abbrev Trace (ρ κ α ω β γ : Type*) := List (State ρ κ α γ × Label κ α ω β γ)

variable {D : Dispatcher ρ κ α ω β γ}

/-! ## Invariants of the registry -/

/-- Every operation and both ends of a dispatch keep `P`. -/
structure Keeps (D : Dispatcher ρ κ α ω β γ) (P : ρ → Prop) : Prop where
  opened : ∀ k r, P r → P (D.opened k r)
  closed : ∀ k r, P r → P (D.closed k r)
  apply : ∀ o r, P r → P (D.apply o r)

theorem Keeps.step {P : ρ → Prop} (hP : Keeps D P) {s t : State ρ κ α γ} {l : Label κ α ω β γ}
    (h : Step D s l t) (hs : P s.reg) : P t.reg := by
  cases h with
  | begin => exact hP.opened _ _ hs
  | op => exact hP.apply _ _ hs
  | finish => exact hP.closed _ _ hs
  | _ => exact hs

theorem Keeps.run {P : ρ → Prop} (hP : Keeps D P) {s u : State ρ κ α γ} {tr : Trace ρ κ α ω β γ}
    (h : Run (Step D) s tr u) (h₀ : P s.reg) : P u.reg :=
  h.invariant' (fun s => P s.reg) h₀ fun _ _ _ hs hstep => hP.step hstep hs

/-! ## Dispatchers that do not look again -/

section Listed

variable (listed : ρ → α → Prop)

/-- The entry takes the ticket out of the registry. -/
def Removes (D : Dispatcher ρ κ α ω β γ) (a : α) (e : State ρ κ α γ × Label κ α ω β γ) : Prop :=
  ∃ o, e.2 = .op o ∧ listed e.1.reg a ∧ ¬listed (D.apply o e.1.reg) a

/-- An operation takes no ticket out that a dispatch in progress still has ahead. -/
def Spares (D : Dispatcher ρ κ α ω β γ) (s : State ρ κ α γ) (l : Label κ α ω β γ) : Prop :=
  ∀ o, l = .op o → ∀ f ∈ s.stack, ∀ a ∈ f.ahead, listed s.reg a → listed (D.apply o s.reg) a

variable {listed}

/-- In a run of sparing steps every ticket ahead is still in the registry. -/
theorem ahead_listed (hsnap : ∀ k r, ∀ a ∈ D.snapshot k r, listed r a)
    (hopened : ∀ k r a, listed r a → listed (D.opened k r) a)
    (hclosed : ∀ k r a, listed r a → listed (D.closed k r) a)
    {r₀ : ρ} {u : State ρ κ α γ} {tr : Trace ρ κ α ω β γ} (h : Run (Step D) ⟨r₀, []⟩ tr u)
    (hG : Meets (Spares listed D) tr) : ∀ f ∈ u.stack, ∀ a ∈ f.ahead, listed u.reg a := by
  refine h.invariant (fun s => ∀ f ∈ s.stack, ∀ a ∈ f.ahead, listed s.reg a) hG (by simp) ?_
  intro s l t hs hg hstep
  cases hstep with
  | begin =>
    intro f hf a ha
    rcases List.mem_cons.mp hf with rfl | hf
    · exact hopened _ _ _ (hsnap _ _ a ha)
    · exact hopened _ _ _ (hs f hf a ha)
  | refuse => exact hs
  | op =>
    intro f hf a ha
    exact hg _ rfl f hf a ha (hs f hf a ha)
  | enter =>
    intro f hf a ha
    rcases List.mem_cons.mp hf with rfl | hf
    · exact hs _ (.head _) a (List.mem_cons_of_mem _ ha)
    · exact hs f (List.mem_cons_of_mem _ hf) a ha
  | skip =>
    intro f hf a ha
    rcases List.mem_cons.mp hf with rfl | hf
    · exact hs _ (.head _) a (List.mem_cons_of_mem _ ha)
    · exact hs f (List.mem_cons_of_mem _ hf) a ha
  | @leave reg stack k a' as c b =>
    intro f hf a ha
    rcases List.mem_cons.mp hf with rfl | hf
    · have : a ∈ as := by
        dsimp only at ha
        split at ha
        · cases ha
        · exact ha
      exact hs _ (.head _) a this
    · exact hs f (List.mem_cons_of_mem _ hf) a ha
  | finish =>
    intro f hf a ha
    exact hclosed _ _ _ (hs f (List.mem_cons_of_mem _ hf) a ha)

/-- A ticket taken out stays out, where a registry never lists a ticket it
already knows a second time. -/
theorem removed_stays {P : ρ → Prop} (hP : Keeps D P) {known : ρ → α → Prop}
    (hlisted : ∀ r a, P r → listed r a → known r a)
    (hout : ∀ a, Keeps D fun r => known r a ∧ ¬listed r a) (hknown : ∀ a, Keeps D fun r => known r a)
    {s u : State ρ κ α γ} {tr : Trace ρ κ α ω β γ} (h : Run (Step D) s tr u) (h₀ : P s.reg) {a : α}
    (hr : ∃ e ∈ tr, Removes listed D a e) : ¬listed u.reg a := by
  obtain ⟨⟨⟨reg, stack⟩, l⟩, he, o, rfl, hin, hgone⟩ := hr
  obtain ⟨pre, suf, rfl⟩ := List.append_of_mem he
  obtain ⟨t, hpre, hstep, hrun⟩ := h.split_cons
  have ht : known t.reg a ∧ ¬listed t.reg a := by
    refine ⟨(hknown a).step hstep (hlisted reg a (hP.run hpre h₀) hin), ?_⟩
    cases hstep with
    | op => exact hgone
  exact ((hout a).run hrun ht).2

/-- No ticket is entered after it has been taken out. -/
def NoDeadCall (listed : ρ → α → Prop) (D : Dispatcher ρ κ α ω β γ) (tr : Trace ρ κ α ω β γ) : Prop :=
  ∀ pre s a suf, tr = pre ++ (s, .enter a) :: suf → ¬∃ e ∈ pre, Removes listed D a e

theorem noDeadCall {P : ρ → Prop} (hP : Keeps D P) {known : ρ → α → Prop}
    (hlisted : ∀ r a, P r → listed r a → known r a)
    (hout : ∀ a, Keeps D fun r => known r a ∧ ¬listed r a) (hknown : ∀ a, Keeps D fun r => known r a)
    (hsnap : ∀ k r, ∀ a ∈ D.snapshot k r, listed r a)
    (hopened : ∀ k r a, listed r a → listed (D.opened k r) a)
    (hclosed : ∀ k r a, listed r a → listed (D.closed k r) a)
    {r₀ : ρ} {u : State ρ κ α γ} {tr : Trace ρ κ α ω β γ} (h : Run (Step D) ⟨r₀, []⟩ tr u) (h₀ : P r₀)
    (hG : Meets (Spares listed D) tr) : NoDeadCall listed D tr := by
  intro pre s a suf htr hr
  subst htr
  obtain ⟨t, hpre, hstep, _⟩ := h.split_cons
  have hahead := ahead_listed hsnap hopened hclosed hpre ((meets_append _ _).mp hG).1
  refine removed_stays hP hlisted hout hknown hpre h₀ hr ?_
  cases hstep with
  | enter => exact hahead _ (.head _) a (.head _)

end Listed

/-! ## One dispatch among the nested ones -/

def Label.turn : Label κ α ω β γ → Option α
  | .enter a => some a
  | .skip a => some a
  | _ => none

def Label.entry : Label κ α ω β γ → Option α
  | .enter a => some a
  | _ => none

def Label.reply : Label κ α ω β γ → Option β
  | .leave b => some b
  | _ => none

/-- The events of a kind that belong to the dispatch begun at depth `d`. -/
def atLevel {δ : Type*} (d : Nat) (f : Label κ α ω β γ → Option δ) (tr : Trace ρ κ α ω β γ) : List δ :=
  tr.filterMap fun e => if e.1.stack.length = d + 1 then f e.2 else none

/-- The tickets whose turn came. -/
def turns (d : Nat) (tr : Trace ρ κ α ω β γ) : List α := atLevel d Label.turn tr

/-- The tickets called. -/
def entered (d : Nat) (tr : Trace ρ κ α ω β γ) : List α := atLevel d Label.entry tr

/-- What the calls replied. -/
def replies (d : Nat) (tr : Trace ρ κ α ω β γ) : List β := atLevel d Label.reply tr

/-- The dispatch begun at depth `d` goes on throughout. -/
def Within (d : Nat) (tr : Trace ρ κ α ω β γ) : Prop := ∀ e ∈ tr, d < e.1.stack.length

theorem atLevel_append {δ : Type*} (d : Nat) (f : Label κ α ω β γ → Option δ) (tr : Trace ρ κ α ω β γ)
    (e : State ρ κ α γ × Label κ α ω β γ) :
    atLevel d f (tr ++ [e]) = atLevel d f tr ++ if e.1.stack.length = d + 1 then (f e.2).toList else [] := by
  unfold atLevel
  rw [List.filterMap_append]
  congr 1
  split <;> cases h : f e.2 <;> simp [*]

theorem atLevel_quiet {δ : Type*} {d : Nat} {f : Label κ α ω β γ → Option δ} {tr : Trace ρ κ α ω β γ}
    {e : State ρ κ α γ × Label κ α ω β γ} (h : e.1.stack.length ≠ d + 1 ∨ f e.2 = none) :
    atLevel d f (tr ++ [e]) = atLevel d f tr := by
  rw [atLevel_append]
  rcases h with h | h
  · rw [if_neg h, List.append_nil]
  · simp [h]

theorem mem_atLevel {δ : Type*} {d : Nat} {f : Label κ α ω β γ → Option δ} {tr : Trace ρ κ α ω β γ} {x : δ} :
    x ∈ atLevel d f tr ↔ ∃ e ∈ tr, e.1.stack.length = d + 1 ∧ f e.2 = some x := by
  unfold atLevel
  rw [List.mem_filterMap]
  constructor
  · intro ⟨e, he, hx⟩
    split at hx
    · next hd => exact ⟨e, he, hd, hx⟩
    · cases hx
  · intro ⟨e, he, hd, hx⟩
    exact ⟨e, he, by rw [if_pos hd]; exact hx⟩

theorem mem_entered {d : Nat} {tr : Trace ρ κ α ω β γ} {a : α} :
    a ∈ entered d tr ↔ ∃ e ∈ tr, e.1.stack.length = d + 1 ∧ e.2 = .enter a := by
  have hentry : ∀ l : Label κ α ω β γ, l.entry = some a ↔ l = .enter a := fun l => by
    cases l <;> simp [Label.entry]
  simp only [entered, mem_atLevel, hentry]

/-- A ticket whose turn came was called or passed over. -/
theorem mem_turns {d : Nat} {tr : Trace ρ κ α ω β γ} {a : α} :
    a ∈ turns d tr ↔ a ∈ entered d tr ∨ ∃ e ∈ tr, e.1.stack.length = d + 1 ∧ e.2 = .skip a := by
  have hturn : ∀ l : Label κ α ω β γ, l.turn = some a ↔ l = .enter a ∨ l = .skip a := fun l => by
    cases l <;> simp [Label.turn]
  simp only [mem_entered, turns, mem_atLevel, hturn]
  constructor
  · intro ⟨e, he, hd, h⟩
    exact h.imp (fun h => ⟨e, he, hd, h⟩) fun h => ⟨e, he, hd, h⟩
  · rintro (⟨e, he, hd, h⟩ | ⟨e, he, hd, h⟩)
    · exact ⟨e, he, hd, .inl h⟩
    · exact ⟨e, he, hd, .inr h⟩

/-- Of the tickets whose turn came some were called, in the same order. -/
theorem entered_sublist (d : Nat) (tr : Trace ρ κ α ω β γ) : (entered d tr).Sublist (turns d tr) := by
  unfold entered turns
  induction tr using List.reverseRecOn with
  | nil => exact .refl _
  | append_singleton tr e ih =>
    rw [atLevel_append, atLevel_append]
    refine ih.append ?_
    split
    · cases e.2 <;> simp [Label.entry, Label.turn]
    · exact .refl _

/-- A dispatch of request `k` that goes on, or has just ended, over the stack `base`. -/
structure Ongoing (D : Dispatcher ρ κ α ω β γ) (k : κ) (ids : List α) (c₀ : γ) (base : List (Frame κ α γ))
    (tr : Trace ρ κ α ω β γ) (above : List (Frame κ α γ)) (f : Frame κ α γ) : Prop where
  request : f.request = k
  nested : above ≠ [] → f.running.isSome
  acc : f.acc = (replies base.length tr).foldl (D.absorb k) c₀
  rest : ids = turns base.length tr ++ f.ahead
  balance : (replies base.length tr).length + f.running.toList.length = (entered base.length tr).length
  accepted : ∀ e ∈ tr, e.1.stack.length = base.length + 1 → ∀ a, e.2 = .enter a → D.accepts k e.1.reg a = true
  refused : ∀ e ∈ tr, e.1.stack.length = base.length + 1 → ∀ a, e.2 = .skip a → D.accepts k e.1.reg a = false

/-- A step taken above the dispatch adds nothing to its level. -/
theorem Ongoing.above {k : κ} {ids : List α} {c₀ : γ} {base : List (Frame κ α γ)} {tr : Trace ρ κ α ω β γ}
    {above above' : List (Frame κ α γ)} {f : Frame κ α γ} (h : Ongoing D k ids c₀ base tr above f)
    {e : State ρ κ α γ × Label κ α ω β γ} (he : e.1.stack.length ≠ base.length + 1 ∨
      (e.2.turn = none ∧ e.2.entry = none ∧ e.2.reply = none)) (hn : above' ≠ [] → f.running.isSome) :
    Ongoing D k ids c₀ base (tr ++ [e]) above' f := by
  have h₁ : turns base.length (tr ++ [e]) = turns base.length tr := atLevel_quiet (he.imp_right fun h => h.1)
  have h₂ : entered base.length (tr ++ [e]) = entered base.length tr :=
    atLevel_quiet (he.imp_right fun h => h.2.1)
  have h₃ : replies base.length (tr ++ [e]) = replies base.length tr :=
    atLevel_quiet (he.imp_right fun h => h.2.2)
  have hturn : e.1.stack.length = base.length + 1 → e.2.turn = none :=
    fun hd => (he.resolve_left fun hne => hne hd).1
  refine ⟨h.request, hn, by rw [h₃]; exact h.acc, by rw [h₁]; exact h.rest, by rw [h₂, h₃]; exact h.balance, ?_, ?_⟩
  · refine List.forall_mem_append.mpr ⟨h.accepted, List.forall_mem_singleton.mpr fun hd a hl => ?_⟩
    have := hturn hd
    rw [hl] at this
    cases this
  · refine List.forall_mem_append.mpr ⟨h.refused, List.forall_mem_singleton.mpr fun hd a hl => ?_⟩
    have := hturn hd
    rw [hl] at this
    cases this

section Level

variable {k k' : κ} {ids as : List α} {c₀ c : γ} {base : List (Frame κ α γ)} {tr : Trace ρ κ α ω β γ} {a : α}
  {reg : ρ}

/-- Calling the next ticket keeps the account of the dispatch. -/
theorem Ongoing.enter (h : Ongoing D k ids c₀ base tr [] ⟨k', none, a :: as, c⟩) (ha : D.accepts k' reg a = true) :
    Ongoing D k ids c₀ base (tr ++ [(⟨reg, ⟨k', none, a :: as, c⟩ :: base⟩, .enter a)]) [] ⟨k', some a, as, c⟩ := by
  have hlen : (Frame.mk k' none (a :: as) c :: base).length = base.length + 1 := rfl
  refine ⟨h.request, by simp, ?_, ?_, ?_, ?_, ?_⟩
  · rw [replies, atLevel_quiet (.inr rfl)]
    exact h.acc
  · rw [turns, atLevel_append, if_pos hlen]
    simpa [turns, Label.turn] using h.rest
  · have := h.balance
    rw [replies, atLevel_quiet (.inr rfl), entered, atLevel_append, if_pos hlen]
    simpa [replies, entered, Label.entry] using this
  · refine List.forall_mem_append.mpr ⟨h.accepted, List.forall_mem_singleton.mpr fun _ b hl => ?_⟩
    cases hl
    exact h.request ▸ ha
  · refine List.forall_mem_append.mpr ⟨h.refused, List.forall_mem_singleton.mpr fun _ b hl => ?_⟩
    cases hl

/-- So does passing it over. -/
theorem Ongoing.skip (h : Ongoing D k ids c₀ base tr [] ⟨k', none, a :: as, c⟩) (ha : D.accepts k' reg a = false) :
    Ongoing D k ids c₀ base (tr ++ [(⟨reg, ⟨k', none, a :: as, c⟩ :: base⟩, .skip a)]) [] ⟨k', none, as, c⟩ := by
  have hlen : (Frame.mk k' none (a :: as) c :: base).length = base.length + 1 := rfl
  refine ⟨h.request, by simp, ?_, ?_, ?_, ?_, ?_⟩
  · rw [replies, atLevel_quiet (.inr rfl)]
    exact h.acc
  · rw [turns, atLevel_append, if_pos hlen]
    simpa [turns, Label.turn] using h.rest
  · have := h.balance
    rw [replies, atLevel_quiet (.inr rfl), entered, atLevel_quiet (.inr rfl)]
    exact this
  · refine List.forall_mem_append.mpr ⟨h.accepted, List.forall_mem_singleton.mpr fun _ b hl => ?_⟩
    cases hl
  · refine List.forall_mem_append.mpr ⟨h.refused, List.forall_mem_singleton.mpr fun _ b hl => ?_⟩
    cases hl
    exact h.request ▸ ha

/-- And so does a reply that does not stop it. -/
theorem Ongoing.leave {b : β} (hb : D.stops k' b = false) (h : Ongoing D k ids c₀ base tr [] ⟨k', some a, as, c⟩) :
    Ongoing D k ids c₀ base (tr ++ [(⟨reg, ⟨k', some a, as, c⟩ :: base⟩, .leave b)]) []
      ⟨k', none, if D.stops k' b then [] else as, D.absorb k' c b⟩ := by
  have hlen : (Frame.mk k' (some a) as c :: base).length = base.length + 1 := rfl
  refine ⟨h.request, by simp, ?_, ?_, ?_, ?_, ?_⟩
  · have hk : k' = k := h.request
    have hc : c = (replies base.length tr).foldl (D.absorb k) c₀ := h.acc
    rw [replies, atLevel_append, if_pos hlen]
    simp only [Label.reply, Option.toList, List.foldl_append, List.foldl_cons, List.foldl_nil]
    rw [← replies, ← hc, hk]
  · rw [turns, atLevel_quiet (.inr rfl)]
    simpa [turns, hb] using h.rest
  · have := h.balance
    rw [entered, atLevel_quiet (.inr rfl), replies, atLevel_append, if_pos hlen]
    simpa [replies, entered, Label.reply] using this
  · refine List.forall_mem_append.mpr ⟨h.accepted, List.forall_mem_singleton.mpr fun _ x hl => ?_⟩
    cases hl
  · refine List.forall_mem_append.mpr ⟨h.refused, List.forall_mem_singleton.mpr fun _ x hl => ?_⟩
    cases hl

end Level

/-- A step changes the stack at its top only. -/
theorem Step.stack_eq {s t : State ρ κ α γ} {l : Label κ α ω β γ} (h : Step D s l t) {g : Frame κ α γ}
    {rest : List (Frame κ α γ)} (hs : s.stack = g :: rest) : ∃ top, t.stack = top ++ rest := by
  cases h with
  | begin =>
    cases hs
    exact ⟨[_, g], rfl⟩
  | refuse => exact ⟨[g], hs⟩
  | op => exact ⟨[g], hs⟩
  | enter =>
    cases hs
    exact ⟨[_], rfl⟩
  | skip =>
    cases hs
    exact ⟨[_], rfl⟩
  | leave =>
    cases hs
    exact ⟨[_], rfl⟩
  | finish =>
    cases hs
    exact ⟨[], rfl⟩

/-- The step lemma: a dispatch none of whose replies stops it goes on, until its stack is popped. -/
theorem Ongoing.step (hstops : ∀ k b, D.stops k b = false) {k : κ} {ids : List α} {c₀ : γ}
    {base above : List (Frame κ α γ)} {f : Frame κ α γ} {tr : Trace ρ κ α ω β γ} {q q' : State ρ κ α γ}
    {l : Label κ α ω β γ} (h : Ongoing D k ids c₀ base tr above f) (hq : q.stack = above ++ f :: base)
    (hs : Step D q l q') (hd : base.length < q'.stack.length) :
    ∃ above' f', q'.stack = above' ++ f' :: base ∧ Ongoing D k ids c₀ base (tr ++ [(q, l)]) above' f' := by
  cases above with
  | cons g gs =>
    obtain ⟨top, ht⟩ := hs.stack_eq hq
    refine ⟨top ++ gs, f, by simpa using ht, h.above (.inl ?_) fun _ => h.nested (by simp)⟩
    simp only [hq, List.cons_append, List.length_cons, List.length_append]
    omega
  | nil =>
    rw [List.nil_append] at hq
    cases hs with
    | begin hm =>
      subst hq
      exact ⟨[_], f, rfl, h.above (.inr ⟨rfl, rfl, rfl⟩) fun _ => hm⟩
    | refuse =>
      subst hq
      exact ⟨[], f, rfl, h.above (.inr ⟨rfl, rfl, rfl⟩) h.nested⟩
    | op =>
      subst hq
      exact ⟨[], f, rfl, h.above (.inr ⟨rfl, rfl, rfl⟩) h.nested⟩
    | enter ha =>
      cases hq
      exact ⟨[], _, rfl, h.enter ha⟩
    | skip ha =>
      cases hq
      exact ⟨[], _, rfl, h.skip ha⟩
    | leave =>
      cases hq
      exact ⟨[], _, rfl, h.leave (hstops _ _)⟩
    | finish =>
      cases hq
      exact absurd hd (Nat.lt_irrefl _)

/-- The run lemma: what a dispatch has done so far, from its first step on. -/
theorem ongoing_run (hstops : ∀ k b, D.stops k b = false) {r : ρ} {k : κ} {ids : List α} {c₀ : γ}
    {base : List (Frame κ α γ)} {tr : Trace ρ κ α ω β γ} {q : State ρ κ α γ}
    (h : Run (Step D) ⟨r, ⟨k, none, ids, c₀⟩ :: base⟩ tr q) (hw : Within base.length tr)
    (hd : base.length < q.stack.length) :
    ∃ above f, q.stack = above ++ f :: base ∧ Ongoing D k ids c₀ base tr above f := by
  induction tr using List.reverseRecOn generalizing q with
  | nil =>
    cases h
    exact ⟨[], _, rfl, rfl, by simp, rfl, by simp [turns, atLevel], rfl, by simp, by simp⟩
  | append_singleton tr e ih =>
    obtain ⟨t, hpre, hstep, hnil⟩ := h.split_cons
    cases hnil
    obtain ⟨above, f, hf, ho⟩ := ih hpre (fun x hx => hw x (List.mem_append_left _ hx))
      (hw e (by simp))
    exact ho.step hstops hf hstep hd

/-- A dispatch from its first step to its last. -/
structure Complete (D : Dispatcher ρ κ α ω β γ) (d : Nat) (k : κ) (ids : List α) (c₀ c : γ)
    (tr : Trace ρ κ α ω β γ) : Prop where
  acc : c = (replies d tr).foldl (D.absorb k) c₀
  turns : ids = turns d tr
  balance : (replies d tr).length = (entered d tr).length
  accepted : ∀ e ∈ tr, e.1.stack.length = d + 1 → ∀ a, e.2 = .enter a → D.accepts k e.1.reg a = true
  refused : ∀ e ∈ tr, e.1.stack.length = d + 1 → ∀ a, e.2 = .skip a → D.accepts k e.1.reg a = false

/-- A completed dispatch has gone through its whole snapshot, and left the stack as it found it. -/
theorem complete_of_run (hstops : ∀ k b, D.stops k b = false) {s q t : State ρ κ α γ} {k : κ} {c : γ}
    {mid : Trace ρ κ α ω β γ} (h : Run (Step D) s ((s, .begin k) :: mid) q) (hk : D.admits k s.reg = true)
    (hw : Within s.stack.length mid) (hd : q.stack.length = s.stack.length + 1) (hf : Step D q (.finish c) t) :
    Complete D s.stack.length k (D.snapshot k s.reg) (D.start k) c mid ∧ t.stack = s.stack ∧
      t.reg = D.closed k q.reg := by
  cases h with
  | cons hb hrun =>
    cases hb with
    | refuse hm hk' =>
      rw [hk] at hk'
      cases hk'
    | begin =>
      obtain ⟨above, f, hstack, ho⟩ := ongoing_run hstops hrun hw (hd ▸ Nat.lt_succ_self _)
      have habove : above = [] := by
        rw [hstack, List.length_append, List.length_cons] at hd
        exact List.eq_nil_of_length_eq_zero (by dsimp only at hd; omega)
      subst habove
      cases hf with
      | @finish reg stack k' c =>
        cases hstack
        have hk' : k' = k := ho.request
        refine ⟨⟨ho.acc, by simpa using ho.rest, by simpa using ho.balance, ho.accepted, ho.refused⟩, rfl, ?_⟩
        rw [hk']

end Dispatch
