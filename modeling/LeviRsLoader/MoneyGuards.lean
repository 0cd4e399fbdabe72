import LeviRsLoader.Lib.Runs
import LeviRsLoader.Money
import Mathlib.Logic.Function.Basic

/-!
# Guards of the money listeners

`money/listen.rs`: a mod keeps one callback before and one after a change. The
callback is out of its slot while it runs, and goes back if nothing has been
stored there meanwhile; dropping a guard empties the slot, whoever registered
last. The loader calls the trampoline that was handed in last, of whatever mod.
-/
namespace Money

open LeviRs Runs

/-- A registration, its callback and its guard: the slot of a mod and a number of its own. -/
structure Registration where
  mod : ModId
  slot : Slot
  id : Nat
  deriving DecidableEq, Repr

/-- A trampoline that is running a callback. The code keeps no note of `dropped`:
that a guard of the slot has been dropped during the call. -/
structure Call where
  id : Nat
  dropped : Bool
  deriving DecidableEq, Repr

/-- `BEFORE_SLOT` or `AFTER_SLOT` of a mod, with its running trampolines, the innermost first. -/
structure Cell where
  slot : Option Nat
  calls : List Call
  deriving DecidableEq, Repr

/-- `*slot = Some(..)` -/
def Cell.store (id : Nat) (c : Cell) : Cell := { c with slot := some id }

/-- `*slot = None` -/
def Cell.clear (c : Cell) : Cell := ⟨none, c.calls.map fun call => { call with dropped := true }⟩

/-- `slot.take()`, and the call if there was a callback. -/
def Cell.take (c : Cell) : Cell :=
  match c.slot with
  | some id => ⟨none, ⟨id, false⟩ :: c.calls⟩
  | none => c

/-- The innermost call is over: `if slot.is_none() { *slot = Some(cb) }`. -/
def Cell.putBack (c : Cell) : Cell :=
  match c.calls with
  | [] => c
  | call :: calls => ⟨c.slot.or (some call.id), calls⟩

structure State where
  cells : ModId → Slot → Cell
  /-- Whose trampoline the loader has been given. -/
  listening : Slot → Option ModId
  /-- The guards that have not been dropped. -/
  guards : List Registration
  registered : Nat

def State.initial : State := ⟨fun _ _ => ⟨none, []⟩, fun _ => none, [], 0⟩

def State.setCell (s : State) (m : ModId) (k : Slot) (f : Cell → Cell) : State :=
  { s with cells := Function.update s.cells m (Function.update (s.cells m) k (f (s.cells m k))) }

/-- `on_before` and `on_after` differ in the slot alone. -/
def register (k : Slot) (m : ModId) (s : State) : State :=
  { s.setCell m k (Cell.store s.registered) with
    listening := Function.update s.listening k (some m),
    guards := ⟨m, k, s.registered⟩ :: s.guards,
    registered := s.registered + 1 }

def on_before : ModId → State → State := register .before

def on_after : ModId → State → State := register .after

/-- `Drop` of `BeforeGuard` and of `AfterGuard`. -/
def dropGuard (x : Registration) (s : State) : State :=
  { s.setCell x.mod x.slot Cell.clear with guards := s.guards.erase x }

/-- The first half of `before_trampoline` and of `after_trampoline`, if the loader has one to call. -/
def raise (k : Slot) (s : State) : State :=
  match s.listening k with
  | some m => s.setCell m k Cell.take
  | none => s

/-- The second half. -/
def finish (k : Slot) (m : ModId) (s : State) : State := s.setCell m k Cell.putBack

inductive Label where
  | on_before (m : ModId)
  | on_after (m : ModId)
  | drop (x : Registration)
  | event (k : Slot)
  | finish (m : ModId) (k : Slot)

inductive Step : State → Label → State → Prop where
  | on_before (s : State) (m : ModId) : Step s (.on_before m) (on_before m s)
  | on_after (s : State) (m : ModId) : Step s (.on_after m) (on_after m s)
  | drop (s : State) (x : Registration) (hx : x ∈ s.guards) : Step s (.drop x) (dropGuard x s)
  | event (s : State) (k : Slot) : Step s (.event k) (raise k s)
  | finish (s : State) (m : ModId) (k : Slot) (hc : (s.cells m k).calls ≠ []) :
      Step s (.finish m k) (finish k m s)

/-! ## What a run is asked -/

/-- The callback an event invokes. -/
def invoked (s : State) : Label → Option Registration
  | .event k => (s.listening k).bind fun m => (s.cells m k).slot.map fun id => ⟨m, k, id⟩
  | _ => none

/-- The slot a step registers a callback for, and the mod that does. -/
def registers : Label → Option (Slot × ModId)
  | .on_before m => some (.before, m)
  | .on_after m => some (.after, m)
  | _ => none

/-- The entry is the registration. -/
def Makes (x : Registration) (e : State × Label) : Prop := registers e.2 = some (x.slot, x.mod) ∧ e.1.registered = x.id

/-- A later registration of the kind takes its place, whatever mod makes it. -/
def Replaces (x : Registration) (e : State × Label) : Prop := ∃ m, registers e.2 = some (x.slot, m)

/-- A guard of the registration's slot is dropped, its own or another. -/
def Empties (x : Registration) (e : State × Label) : Prop := ∃ y, e.2 = .drop y ∧ y.mod = x.mod ∧ y.slot = x.slot

/-- A callback is invoked only while its own guard has not been dropped and no
later registration has replaced it. -/
def InvokedOwn (tr : List (State × Label)) : Prop :=
  ∀ pre e suf x, tr = pre ++ e :: suf → invoked e.1 e.2 = some x →
    (∀ e' ∈ pre, e'.2 ≠ .drop x) ∧ Since (Makes x) (Replaces x) pre

/-- Guards own their slot. -/
structure OwnSlot (tr : List (State × Label)) : Prop where
  invoked_own : InvokedOwn tr
  /-- A drop leaves a later registration alone. -/
  drop_own : ∀ e ∈ tr, ∀ x id, e.2 = .drop x → (e.1.cells x.mod x.slot).slot = some id → x.id < id →
    ((dropGuard x e.1).cells x.mod x.slot).slot = some id

/-- A registration is the last of its kind, and no guard of its slot has been dropped since. -/
def Last (tr : List (State × Label)) (x : Registration) : Prop :=
  Since (Makes x) (fun e => Replaces x e ∨ Empties x e) tr

/-- Guards share their slot: a drop takes whatever is registered in it, and
nothing that is registered afterwards. -/
structure ShareSlot (tr : List (State × Label)) : Prop where
  invoked_own : InvokedOwn tr
  /-- An event invokes the callback registered last, unless a guard of its slot
  has been dropped since or it is running already. -/
  invoked_iff : ∀ pre s k suf, tr = pre ++ (s, .event k) :: suf → ∀ x : Registration,
    invoked s (.event k) = some x ↔
      x.slot = k ∧ Last pre x ∧ ∀ call ∈ (s.cells x.mod x.slot).calls, call.id ≠ x.id

/-- No callback goes back into a slot that was emptied during its call. -/
def Undisturbed (s : State) : Label → Prop
  | .finish m k => ∀ call ∈ (s.cells m k).calls.head?, (s.cells m k).slot = none → call.dropped = false
  | _ => True

/-! ## One slot -/

/-- The slot holds the callback that is in force, or some call of it does; `n` numbers are given out. -/
structure Cell.Keeps (c : Cell) (inForce : Nat → Prop) (n : Nat) : Prop where
  slot : ∀ id, c.slot = some id → inForce id
  found : ∀ id, inForce id → c.slot = some id ∨ ∃ call ∈ c.calls, call.id = id
  /-- The innermost call goes back only where its callback is still in force. -/
  top : ∀ call ∈ c.calls.head?, call.dropped = false → c.slot = none → inForce call.id
  out : ∀ id, c.slot = some id → ∀ call ∈ c.calls, call.id ≠ id
  nodup : (c.calls.map Call.id).Nodup
  unique : ∀ id id', inForce id → inForce id' → id = id'
  inForce_lt : ∀ id, inForce id → id < n
  call_lt : ∀ call ∈ c.calls, call.id < n

section Cell

variable {c : Cell} {inForce : Nat → Prop} {n : Nat}

theorem Cell.Keeps.mono (h : c.Keeps inForce n) {n' : Nat} (hn : n ≤ n') : c.Keeps inForce n' :=
  { h with
    inForce_lt := fun id hid => Nat.lt_of_lt_of_le (h.inForce_lt id hid) hn
    call_lt := fun call hc => Nat.lt_of_lt_of_le (h.call_lt call hc) hn }

theorem Cell.Keeps.congr (h : c.Keeps inForce n) {inForce' : Nat → Prop} (hi : ∀ id, inForce' id ↔ inForce id) :
    c.Keeps inForce' n := by
  obtain rfl : inForce' = inForce := funext fun id => propext (hi id)
  exact h

theorem Cell.Keeps.store (h : c.Keeps inForce n) : (c.store n).Keeps (· = n) (n + 1) where
  slot id hs := (Option.some.inj hs).symm
  found id hid := .inl (congrArg some hid.symm)
  top call _ _ hs := (nomatch hs)
  out id hs call hc := by
    obtain rfl : n = id := Option.some.inj hs
    exact Nat.ne_of_lt (h.call_lt call hc)
  nodup := h.nodup
  unique id id' hid hid' := hid.trans hid'.symm
  inForce_lt id hid := hid ▸ Nat.lt_succ_self n
  call_lt call hc := Nat.lt_succ_of_lt (h.call_lt call hc)

theorem Cell.Keeps.clear (h : c.Keeps inForce n) : c.clear.Keeps (fun _ => False) n where
  slot id hs := (nomatch hs)
  found id hid := hid.elim
  top call hc hd _ := by
    simp only [Cell.clear, List.head?_map, Option.mem_def, Option.map_eq_some_iff] at hc
    obtain ⟨call, -, rfl⟩ := hc
    cases hd
  out id hs := (nomatch hs)
  nodup := by simpa [Cell.clear, Function.comp_def] using h.nodup
  unique id id' hid := hid.elim
  inForce_lt id hid := hid.elim
  call_lt call hc := by
    obtain ⟨call', hc', rfl⟩ := List.mem_map.mp hc
    exact h.call_lt call' hc'

theorem Cell.Keeps.take (h : c.Keeps inForce n) : c.take.Keeps inForce n := by
  obtain ⟨slot, calls⟩ := c
  cases slot with
  | none => exact h
  | some id =>
    have hid : inForce id := h.slot id rfl
    exact
      { slot := fun id hs => (nomatch hs)
        found := fun id' hid' => .inr ⟨⟨id, false⟩, .head _, h.unique id id' hid hid'⟩
        top := fun call hc _ _ => by
          obtain rfl : ⟨id, false⟩ = call := Option.some.inj hc
          exact hid
        out := fun id hs => (nomatch hs)
        nodup := by
          refine List.nodup_cons.mpr ⟨fun hm => ?_, h.nodup⟩
          obtain ⟨call, hc, heq⟩ := List.mem_map.mp hm
          exact h.out id rfl call hc heq
        unique := h.unique
        inForce_lt := h.inForce_lt
        call_lt := fun call hc => by
          rcases List.mem_cons.mp hc with rfl | hc
          · exact h.inForce_lt id hid
          · exact h.call_lt call hc }

theorem Cell.Keeps.putBack (h : c.Keeps inForce n)
    (hu : ∀ call ∈ c.calls.head?, c.slot = none → call.dropped = false) : c.putBack.Keeps inForce n := by
  obtain ⟨slot, calls⟩ := c
  cases calls with
  | nil => exact h
  | cons call calls =>
    have hnodup := List.nodup_cons.mp h.nodup
    cases slot with
    | some id =>
      -- something has been stored during the call
      exact
        { slot := h.slot
          found := fun id' hid' => .inl (congrArg some (h.unique id id' (h.slot id rfl) hid'))
          top := fun call _ _ hs => (nomatch hs)
          out := fun id hs call hc => h.out id hs call (.tail _ hc)
          nodup := hnodup.2
          unique := h.unique
          inForce_lt := h.inForce_lt
          call_lt := fun call hc => h.call_lt call (.tail _ hc) }
    | none =>
      have hcall : inForce call.id := h.top call rfl (hu call rfl rfl) rfl
      exact
        { slot := fun id hs => by
            obtain rfl : call.id = id := Option.some.inj hs
            exact hcall
          found := fun id' hid' => .inl (congrArg some (h.unique call.id id' hcall hid'))
          top := fun call _ _ hs => (nomatch hs)
          out := fun id hs call' hc heq => by
            obtain rfl : call.id = id := Option.some.inj hs
            exact hnodup.1 (heq ▸ List.mem_map_of_mem hc)
          nodup := hnodup.2
          unique := h.unique
          inForce_lt := h.inForce_lt
          call_lt := fun call hc => h.call_lt call (.tail _ hc) }

end Cell

/-! ## Every slot, over a run -/

/-- A registration of the same mod and kind, or a drop, ends what was in force in the slot. -/
def Ends (x : Registration) (e : State × Label) : Prop := registers e.2 = some (x.slot, x.mod) ∨ Empties x e

/-- Registered, and nothing has ended it since. -/
def InForce (tr : List (State × Label)) (m : ModId) (k : Slot) (id : Nat) : Prop :=
  Since (Makes ⟨m, k, id⟩) (Ends ⟨m, k, id⟩) tr

structure Account (tr : List (State × Label)) (s : State) : Prop where
  listening : ∀ k m, s.listening k = some m ↔
    Since (fun e => registers e.2 = some (k, m)) (fun e => ∃ m', registers e.2 = some (k, m')) tr
  cell : ∀ m k, (s.cells m k).Keeps (InForce tr m k) s.registered

section Account

variable {tr : List (State × Label)} {s u : State} {l : Label} {m m' : ModId} {k k' : Slot} {f : Cell → Cell}

@[simp] theorem setCell_self : (s.setCell m k f).cells m k = f (s.cells m k) := by simp [State.setCell]

theorem setCell_of_ne (h : (k', m') ≠ (k, m)) : (s.setCell m k f).cells m' k' = s.cells m' k' := by
  simp only [State.setCell]
  by_cases hm : m' = m
  · subst hm
    have hk : k' ≠ k := fun hk => h (by rw [hk])
    simp [hk]
  · simp [hm]

/-- What a step does. -/
theorem Step.kinds (h : Step s l u) :
    (∃ k m, registers l = some (k, m) ∧ u = register k m s) ∨ (∃ x, l = .drop x ∧ u = dropGuard x s) ∨
      (∃ k, l = .event k ∧ u = raise k s) ∨ ∃ m k, l = .finish m k ∧ u = Money.finish k m s := by
  cases h with
  | on_before m => exact .inl ⟨.before, m, rfl, rfl⟩
  | on_after m => exact .inl ⟨.after, m, rfl, rfl⟩
  | drop x hx => exact .inr (.inl ⟨x, rfl, rfl⟩)
  | event k => exact .inr (.inr (.inl ⟨k, rfl, rfl⟩))
  | finish m k hc => exact .inr (.inr (.inr ⟨m, k, rfl, rfl⟩))

theorem inForce_concat {id : Nat} : InForce (tr ++ [(s, l)]) m k id ↔
    (registers l = some (k, m) ∧ s.registered = id) ∨ InForce tr m k id ∧
      ¬(registers l = some (k, m) ∨ ∃ y, l = .drop y ∧ y.mod = m ∧ y.slot = k) := since_concat

/-- What a step neither registers nor drops stays in force. -/
theorem inForce_concat_of_not (hr : registers l ≠ some (k, m)) (hd : ∀ y, l = .drop y → (y.slot, y.mod) ≠ (k, m))
    (id : Nat) : InForce (tr ++ [(s, l)]) m k id ↔ InForce tr m k id := by
  rw [inForce_concat]
  constructor
  · rintro (⟨h, -⟩ | ⟨h, -⟩)
    · exact absurd h hr
    · exact h
  · refine fun h => .inr ⟨h, ?_⟩
    rintro (h | ⟨y, rfl, rfl, rfl⟩)
    · exact hr h
    · exact hd y rfl rfl

theorem Account.register_step (ha : Account tr s) (hr : registers l = some (k, m)) :
    Account (tr ++ [(s, l)]) (register k m s) where
  listening k' m' := by
    rw [since_concat, hr, ← ha.listening]
    by_cases hk : k' = k
    · subst hk
      simp [register, eq_comm]
    · simp [register, hk, Ne.symm hk]
  cell m' k' := by
    by_cases heq : (k', m') = (k, m)
    · cases heq
      have hcell : ((register k m s).cells m k) = (s.cells m k).store s.registered := setCell_self
      rw [hcell]
      refine (ha.cell m k).store.congr fun id => ?_
      rw [inForce_concat, hr]
      simp [eq_comm]
    · have hcell : (register k m s).cells m' k' = s.cells m' k' := setCell_of_ne heq
      rw [hcell]
      refine ((ha.cell m' k').mono (Nat.le_succ _)).congr (inForce_concat_of_not ?_ ?_)
      · rw [hr]
        exact fun h => heq (Option.some.inj h).symm
      · rintro y rfl
        cases hr

/-- A step that registers nothing leaves the loader's side alone. -/
theorem Account.of_cells (ha : Account tr s) (hr : registers l = none) (hl : u.listening = s.listening)
    (hn : u.registered = s.registered)
    (hcell : ∀ m k, (u.cells m k).Keeps (InForce (tr ++ [(s, l)]) m k) s.registered) : Account (tr ++ [(s, l)]) u where
  listening k m := by
    rw [since_concat, hr, hl, ha.listening]
    simp
  cell m k := hn ▸ hcell m k

theorem Account.drop_step (ha : Account tr s) (x : Registration) :
    Account (tr ++ [(s, .drop x)]) (dropGuard x s) := by
  refine ha.of_cells rfl rfl rfl fun m k => ?_
  by_cases heq : (k, m) = (x.slot, x.mod)
  · cases heq
    have hcell : (dropGuard x s).cells x.mod x.slot = (s.cells x.mod x.slot).clear := setCell_self
    rw [hcell]
    refine (ha.cell x.mod x.slot).clear.congr fun id => ?_
    rw [inForce_concat]
    simp [registers]
  · have hcell : (dropGuard x s).cells m k = s.cells m k := setCell_of_ne heq
    rw [hcell]
    refine (ha.cell m k).congr (inForce_concat_of_not (by simp [registers]) ?_)
    rintro y hy
    cases hy
    exact Ne.symm heq

/-- A step that works on one cell and neither registers nor drops. -/
theorem Account.cell_step (ha : Account tr s) (hr : registers l = none) (hd : ∀ y, l ≠ .drop y)
    (hf : ∀ {inForce : Nat → Prop} {n : Nat}, (s.cells m k).Keeps inForce n → (f (s.cells m k)).Keeps inForce n) :
    Account (tr ++ [(s, l)]) (s.setCell m k f) := by
  refine ha.of_cells hr rfl rfl fun m' k' => ?_
  refine Cell.Keeps.congr ?_ (inForce_concat_of_not (by simp [hr]) fun y hy => absurd hy (hd y))
  by_cases heq : (k', m') = (k, m)
  · cases heq
    rw [setCell_self]
    exact hf (ha.cell m k)
  · rw [setCell_of_ne heq]
    exact ha.cell m' k'

theorem Account.step (ha : Account tr s) (h : Step s l u) (hG : Undisturbed s l) : Account (tr ++ [(s, l)]) u := by
  rcases h.kinds with ⟨k, m, hr, rfl⟩ | ⟨x, rfl, rfl⟩ | ⟨k, rfl, rfl⟩ | ⟨m, k, rfl, rfl⟩
  · exact ha.register_step hr
  · exact ha.drop_step x
  · unfold raise
    cases s.listening k with
    | none =>
      refine ha.of_cells rfl rfl rfl fun m' k' => ?_
      exact (ha.cell m' k').congr (inForce_concat_of_not (by simp [registers]) (by simp))
    | some m => exact ha.cell_step rfl (by simp) fun hc => hc.take
  · exact ha.cell_step rfl (by simp) fun hc => hc.putBack hG

theorem account_initial : Account [] State.initial where
  listening k m := by simp [State.initial, not_since_nil]
  cell m k :=
    { slot := fun id hs => (nomatch hs)
      found := fun id hid => absurd hid not_since_nil
      top := fun call hc => (nomatch hc)
      out := fun id hs => (nomatch hs)
      nodup := .nil
      unique := fun id id' hid => absurd hid not_since_nil
      inForce_lt := fun id hid => absurd hid not_since_nil
      call_lt := fun call hc => (nomatch hc) }

theorem account (h : Run Step State.initial tr s) (hG : Meets Undisturbed tr) : Account tr s :=
  h.traceInvariant Account hG account_initial fun _ _ _ _ ha hg hs => ha.step hs hg

end Account

/-! ## Guards -/

section Guards

variable {tr : List (State × Label)} {s u : State} {l : Label}

/-- Every guard, and every guard that has been dropped, is of a registration made before. -/
structure Given (tr : List (State × Label)) (s : State) : Prop where
  guard_lt : ∀ x ∈ s.guards, x.id < s.registered
  dropped_lt : ∀ e ∈ tr, ∀ x, e.2 = .drop x → x.id < s.registered

theorem Step.registered_le (h : Step s l u) : s.registered ≤ u.registered := by
  rcases h.kinds with ⟨k, m, -, rfl⟩ | ⟨x, -, rfl⟩ | ⟨k, -, rfl⟩ | ⟨m, k, -, rfl⟩
  · exact Nat.le_succ _
  · exact Nat.le_refl _
  · unfold raise
    split <;> exact Nat.le_refl _
  · exact Nat.le_refl _

theorem Given.step (hg : Given tr s) (h : Step s l u) : Given (tr ++ [(s, l)]) u where
  guard_lt x hx := by
    rcases h.kinds with ⟨k, m, -, rfl⟩ | ⟨y, -, rfl⟩ | ⟨k, -, rfl⟩ | ⟨m, k, -, rfl⟩
    · rcases List.mem_cons.mp hx with rfl | hx
      · exact Nat.lt_succ_self _
      · exact Nat.lt_succ_of_lt (hg.guard_lt x hx)
    · exact hg.guard_lt x (List.mem_of_mem_erase hx)
    · unfold raise at hx ⊢
      split at hx <;> exact hg.guard_lt x hx
    · exact hg.guard_lt x hx
  dropped_lt e he x hd := by
    refine Nat.lt_of_lt_of_le ?_ h.registered_le
    rcases List.mem_append.mp he with he | he
    · exact hg.dropped_lt e he x hd
    · obtain rfl := List.mem_singleton.mp he
      dsimp only at hd
      subst hd
      cases h with
      | drop _ hx => exact hg.guard_lt x hx

theorem given (h : Run Step State.initial tr s) : Given tr s :=
  h.traceInvariant (G := fun _ _ => True) Given (fun _ _ => trivial)
    ⟨fun _ hx => (nomatch hx), fun _ he => (nomatch he)⟩ fun _ _ _ _ hg _ hs => hg.step hs

/-- A registration whose slot has not been emptied since still has its guard. -/
theorem Last.not_dropped {x : Registration} (h : Run Step State.initial tr s) (hl : Last tr x) :
    ∀ e ∈ tr, e.2 ≠ .drop x := by
  obtain ⟨pre, a, suf, rfl, hmakes, hsuf⟩ := hl
  obtain ⟨t, hpre, -, -⟩ := h.split_cons
  intro e he hd
  rcases List.mem_append.mp he with he | he
  · exact Nat.lt_irrefl _ (hmakes.2 ▸ (given hpre).dropped_lt e he x hd)
  · rcases List.mem_cons.mp he with rfl | he
    · have hr := hmakes.1
      rw [hd] at hr
      cases hr
    · exact hsuf e he (.inr ⟨x, hd, rfl, rfl⟩)

end Guards

/-! ## Events -/

theorem last_iff {tr : List (State × Label)} {s : State} (ha : Account tr s) (x : Registration) :
    Last tr x ↔ s.listening x.slot = some x.mod ∧ InForce tr x.mod x.slot x.id := by
  rw [ha.listening]
  constructor
  · intro h
    refine ⟨h.mono (fun e he => he.1) fun e he => .inl he, h.mono (fun e he => he) fun e he => ?_⟩
    rcases he with he | he
    · exact .inl ⟨x.mod, he⟩
    · exact .inr he
  · rintro ⟨hkind, hslot⟩
    refine (hslot.inter hkind fun e he => .inr (.inl he)).mono (fun e he => he) fun e he => ?_
    rcases he with he | he
    · exact .inr he
    · exact .inl (.inr he)

theorem invoked_event_iff {s : State} {k : Slot} {x : Registration} : invoked s (.event k) = some x ↔
    x.slot = k ∧ s.listening x.slot = some x.mod ∧ (s.cells x.mod x.slot).slot = some x.id := by
  obtain ⟨m, k', id⟩ := x
  simp only [invoked, Option.bind_eq_some_iff, Option.map_eq_some_iff, Registration.mk.injEq]
  constructor
  · rintro ⟨m', hl, id', hs, rfl, rfl, rfl⟩
    exact ⟨rfl, hl, hs⟩
  · rintro ⟨rfl, hl, hs⟩
    exact ⟨m, hl, id, hs, rfl, rfl, rfl⟩

section Events

variable {tr pre suf : List (State × Label)} {s u : State} {k : Slot} {x : Registration}

theorem event_iff (h : Run Step State.initial (pre ++ (s, .event k) :: suf) u)
    (hG : Meets Undisturbed (pre ++ (s, .event k) :: suf)) : invoked s (.event k) = some x ↔
      x.slot = k ∧ Last pre x ∧ ∀ call ∈ (s.cells x.mod x.slot).calls, call.id ≠ x.id := by
  obtain ⟨t, hpre, -, -⟩ := h.split_cons
  have ha := account hpre ((meets_append _ _).mp hG).1
  have hcell := ha.cell x.mod x.slot
  rw [invoked_event_iff, last_iff ha, and_assoc]
  refine and_congr_right fun _ => and_congr_right fun _ => ?_
  constructor
  · intro hs
    exact ⟨hcell.slot x.id hs, hcell.out x.id hs⟩
  · rintro ⟨hforce, hout⟩
    refine (hcell.found x.id hforce).resolve_right ?_
    rintro ⟨call, hc, hid⟩
    exact hout call hc hid

/-- Where no callback goes back into a slot emptied during its call, an event
invokes what was registered last and not emptied since. -/
theorem run_shareSlot (h : Run Step State.initial tr u) (hG : Meets Undisturbed tr) : ShareSlot tr where
  invoked_own := by
    rintro pre ⟨s, l⟩ suf x rfl hi
    cases l with
    | event k =>
      obtain ⟨-, hlast, -⟩ := (event_iff h hG).mp hi
      obtain ⟨t, hpre, -, -⟩ := h.split_cons
      exact ⟨hlast.not_dropped hpre, hlast.mono (fun e he => he) fun e he => .inl he⟩
    | _ => cases hi
  invoked_iff := by
    rintro pre s k suf rfl x
    exact event_iff h hG

end Events

/-- A mod registers twice, its newer callback is invoked, and then the older guard is dropped. -/
def oldGuardDropped : List (State × Label) :=
  let s₁ := on_before 7 .initial
  let s₂ := on_before 7 s₁
  let s₃ := raise .before s₂
  let s₄ := finish .before 7 s₃
  let s₅ := dropGuard ⟨7, .before, 0⟩ s₄
  [(.initial, .on_before 7), (s₁, .on_before 7), (s₂, .event .before), (s₃, .finish 7 .before),
    (s₄, .drop ⟨7, .before, 0⟩), (s₅, .event .before)]

/-- The drop has emptied the slot of the newer one: the second event invokes nobody. -/
theorem oldGuardDropped_shareSlot : ShareSlot oldGuardDropped ∧
    oldGuardDropped.map (fun e => invoked e.1 e.2) = [none, none, some ⟨7, .before, 1⟩, none, none, none] := by
  have hrun : Run Step State.initial oldGuardDropped _ :=
    .cons (.on_before _ 7) (.cons (.on_before _ 7) (.cons (.event _ .before)
      (.cons (.finish _ 7 .before (by decide)) (.cons (.drop _ ⟨7, .before, 0⟩ (by decide))
        (.cons (.event _ .before) (.nil _))))))
  refine ⟨run_shareSlot hrun ?_, by decide⟩
  simp only [oldGuardDropped, meets_cons, meets_nil, Undisturbed, true_and, and_true]
  decide

/-- A guard dropped inside its own callback has no effect: the callback is invoked again. -/
example :
    invoked (finish .before 7 (dropGuard ⟨7, .before, 0⟩ (raise .before (on_before 7 .initial)))) (.event .before) =
      some ⟨7, .before, 0⟩ := rfl

/-- The guard of the first registration, dropped after the second, takes the second out of the slot. -/
theorem old_guard_takes_new : ¬∀ tr u, Run Step State.initial tr u → OwnSlot tr := by
  intro h
  have hrun := Run.cons (Step.on_before .initial 7) (.cons (.on_before _ 7)
    (.cons (.drop _ ⟨7, .before, 0⟩ (by decide)) (.nil _)))
  have hdrop := (h _ _ hrun).drop_own _ (.tail _ (.tail _ (.head _))) ⟨7, .before, 0⟩ 1 rfl rfl (by decide)
  cases hdrop

end Money
