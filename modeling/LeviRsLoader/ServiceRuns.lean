import LeviRsLoader.Lib.Runs
import LeviRsLoader.Services

/-!
# Runs of the service registry

A call copies the entry out under the lock, locks the weak pointer, and only
then crosses into the provider, so each of the three is a step of its own and
any other thread may act in between. The provider may register, unregister,
call and unload before it returns.
-/
namespace ServiceRuns

open LeviRs Runs Services

abbrev ThreadId := Nat

/-- A call in progress: the entry it copied, the depth it found, and whether
the callback has been entered. -/
structure Frame where
  name : String
  id : Nat
  svc : Service
  before : Nat
  running : Bool

/-- `gDepth` is thread-local; `alive` says whose weak pointers still lock. -/
structure State where
  registry : Registry
  alive : ModId → Bool
  gDepth : ThreadId → Nat
  callStack : ThreadId → List Frame

def initial (alive : ModId → Bool) : State := ⟨Registry.initial, alive, fun _ => 0, fun _ => []⟩

/-- The operations with what they return; `none` as a result of `call` or
`check` means that the call goes on. -/
inductive Label where
  | register (t : ThreadId) (mod : Option ModId) (name : String) (cb : Option Ptr) (user : Ptr) (id : Nat)
  | unregister (t : ThreadId) (mod : Option ModId) (regId : Nat) (removed : Bool)
  | modGone (t : ThreadId) (mod : ModId)
  | setAlive (alive : ModId → Bool)
  | call (t : ThreadId) (caller : Option ModId) (name : String) (result : Option Status)
  | check (t : ThreadId) (result : Option Status)
  | leave (t : ThreadId) (reply : Option Bool) (status : Status)

/-- A mod is in control of the thread: no call is in progress, or a callback is on top. -/
def InMod : List Frame → Prop
  | [] => True
  | f :: _ => f.running = true

/-- `api_service_call` up to the copy of the entry. -/
def lookUp (gDepth : Nat) (caller : Option ModId) (name : String) (r : Registry) : Except Status (Nat × Service) :=
  provider (fun _ => true) gDepth caller name r

/-- What the callback's return, or its throw, is reported as. -/
def statusOf : Option Bool → Status
  | some true => .ok
  | some false => .error
  | none => .error

def State.setStack (s : State) (t : ThreadId) (stack : List Frame) : State :=
  { s with callStack := Function.update s.callStack t stack }

def State.setDepth (s : State) (t : ThreadId) (depth : Nat) : State :=
  { s with gDepth := Function.update s.gDepth t depth }

inductive Step : State → Label → State → Prop where
  | register {s : State} {t : ThreadId} {mod : Option ModId} {name : String} {cb : Option Ptr} {user : Ptr} {id : Nat}
      {r : Registry} (hm : InMod (s.callStack t))
      (hr : api_service_register s.alive mod name cb user s.registry = (id, r)) :
      Step s (.register t mod name cb user id) { s with registry := r }
  | unregister {s : State} {t : ThreadId} {mod : Option ModId} {regId : Nat} {removed : Bool} {r : Registry}
      (hm : InMod (s.callStack t)) (hr : api_service_unregister mod regId s.registry = (removed, r)) :
      Step s (.unregister t mod regId removed) { s with registry := r }
  | modGone {s : State} {t : ThreadId} {mod : ModId} (hm : InMod (s.callStack t)) :
      Step s (.modGone t mod) { s with registry := servicesOnRustModGone mod s.registry }
  | setAlive {s : State} (alive : ModId → Bool) : Step s (.setAlive alive) { s with alive := alive }
  | refuse {s : State} {t : ThreadId} {caller : Option ModId} {name : String} {status : Status}
      (hm : InMod (s.callStack t)) (hl : lookUp (s.gDepth t) caller name s.registry = .error status) :
      Step s (.call t caller name (some status)) s
  | begin {s : State} {t : ThreadId} {caller : Option ModId} {name : String} {id : Nat} {svc : Service}
      (hm : InMod (s.callStack t)) (hl : lookUp (s.gDepth t) caller name s.registry = .ok (id, svc)) :
      Step s (.call t caller name none) (s.setStack t (⟨name, id, svc, s.gDepth t, false⟩ :: s.callStack t))
  | enter {s : State} {t : ThreadId} {f : Frame} {rest : List Frame} (hs : s.callStack t = f :: rest)
      (hf : f.running = false) (ha : s.alive f.svc.mod = true) :
      Step s (.check t none) ((s.setDepth t (s.gDepth t + 1)).setStack t ({ f with running := true } :: rest))
  | expired {s : State} {t : ThreadId} {f : Frame} {rest : List Frame} (hs : s.callStack t = f :: rest)
      (hf : f.running = false) (ha : s.alive f.svc.mod = false) :
      Step s (.check t (some .notFound)) (s.setStack t rest)
  | leave {s : State} {t : ThreadId} {f : Frame} {rest : List Frame} {reply : Option Bool}
      (hs : s.callStack t = f :: rest) (hf : f.running = true) :
      Step s (.leave t reply (statusOf reply)) ((s.setDepth t (s.gDepth t - 1)).setStack t rest)

/-! ## The two tables -/

/-- The tables say the same: who is registered under a name, and under which id. -/
def Paired (r : Registry) : Prop :=
  ∀ name id, r.gByName.lookup name = some id ↔ ∃ svc, r.gServices.lookup id = some svc ∧ svc.name = name

/-- 0 is no id, and the next one is not in use. -/
def Fresh (r : Registry) : Prop :=
  0 < r.gNextId ∧ ∀ id svc, r.gServices.lookup id = some svc → 0 < id ∧ id < r.gNextId

/-- Every service has a name a call accepts. -/
def Named (r : Registry) : Prop := ∀ id svc, r.gServices.lookup id = some svc → validName svc.name = true

structure Sound (r : Registry) : Prop where
  paired : Paired r
  fresh : Fresh r
  named : Named r

theorem sound_initial : Sound Registry.initial where
  paired := by simp [Paired, Registry.initial]
  fresh := by simp [Fresh, Registry.initial]
  named := by simp [Named, Registry.initial]

theorem sound_setNext {r : Registry} {next : Nat} (h : Sound r) (hn : r.gNextId ≤ next) :
    Sound { r with gNextId := next } where
  paired := h.paired
  fresh := by
    refine ⟨Nat.lt_of_lt_of_le h.fresh.1 hn, fun id svc hl => ?_⟩
    obtain ⟨h₀, h₁⟩ := h.fresh.2 id svc hl
    exact ⟨h₀, Nat.lt_of_lt_of_le h₁ hn⟩
  named := h.named

theorem lookup_addService (svc : Service) (r : Registry) (id : Nat) :
    (addService svc r).gServices.lookup id = if id = r.gNextId then some svc else r.gServices.lookup id :=
  AList.lookup_insert_eq ..

theorem lookup_gByName_addService (svc : Service) (r : Registry) (name : String) :
    (addService svc r).gByName.lookup name = if name = svc.name then some r.gNextId else r.gByName.lookup name :=
  AList.lookup_insert_eq ..

theorem lookup_dropService (id : Nat) (svc : Service) (r : Registry) (id' : Nat) :
    (dropService id svc r).gServices.lookup id' = if id' = id then none else r.gServices.lookup id' :=
  AList.lookup_erase_eq ..

theorem lookup_gByName_dropService (id : Nat) (svc : Service) (r : Registry) (name : String) :
    (dropService id svc r).gByName.lookup name = if name = svc.name then none else r.gByName.lookup name :=
  AList.lookup_erase_eq ..

theorem lookup_gNextId {r : Registry} (h : Fresh r) : r.gServices.lookup r.gNextId = none := by
  cases hl : r.gServices.lookup r.gNextId with
  | none => rfl
  | some svc => exact absurd (h.2 _ _ hl).2 (Nat.lt_irrefl _)

theorem sound_addService {r : Registry} {svc : Service} (h : Sound r) (hv : validName svc.name = true)
    (hn : r.gByName.lookup svc.name = none) : Sound (addService svc r) where
  paired := by
    intro name id
    rw [lookup_gByName_addService, lookup_addService]
    by_cases hid : id = r.gNextId
    · -- the new id stands for the new name only
      subst hid
      by_cases hname : name = svc.name
      · simp [hname]
      · rw [if_neg hname, if_pos rfl, h.paired, lookup_gNextId h.fresh]
        simp [Ne.symm hname]
    · rw [if_neg hid]
      by_cases hname : name = svc.name
      · rw [if_pos hname, hname, ← h.paired, hn]
        simp [Ne.symm hid]
      · rw [if_neg hname, h.paired]
  fresh := by
    obtain ⟨h₀, h₁⟩ := h.fresh
    refine ⟨Nat.succ_pos _, fun id svc' hl => ?_⟩
    show 0 < id ∧ id < r.gNextId + 1
    rw [lookup_addService] at hl
    split at hl
    · omega
    · have := h₁ id svc' hl
      omega
  named := by
    intro id svc' hl
    rw [lookup_addService] at hl
    split at hl
    · cases hl
      exact hv
    · exact h.named id svc' hl

theorem sound_dropService {r : Registry} {id : Nat} {svc : Service} (h : Sound r)
    (hl : r.gServices.lookup id = some svc) : Sound (dropService id svc r) where
  paired := by
    intro name id'
    rw [lookup_gByName_dropService, lookup_dropService]
    by_cases hname : name = svc.name
    · rw [if_pos hname]
      constructor
      · intro hn
        cases hn
      · rintro ⟨svc', hl', hn⟩
        split at hl'
        · cases hl'
        · next hid =>
          -- the name leads to the id that is erased
          have h₁ := (h.paired name id').mpr ⟨svc', hl', hn⟩
          have h₂ := (h.paired name id).mpr ⟨svc, hl, hname.symm⟩
          rw [h₁] at h₂
          exact absurd (Option.some.inj h₂) hid
    · rw [if_neg hname, h.paired]
      by_cases hid : id' = id
      · subst hid
        simp [hl, Ne.symm hname]
      · rw [if_neg hid]
  fresh := by
    refine ⟨h.fresh.1, fun id' svc' hl' => ?_⟩
    rw [lookup_dropService] at hl'
    split at hl'
    · cases hl'
    · exact h.fresh.2 id' svc' hl'
  named := by
    intro id' svc' hl'
    rw [lookup_dropService] at hl'
    split at hl'
    · cases hl'
    · exact h.named id' svc' hl'

theorem sound_servicesOnRustModGone {r : Registry} (mod : ModId) (h : Sound r) :
    Sound (servicesOnRustModGone mod r) where
  paired := by
    intro name id
    simp only [lookup_servicesOnRustModGone]
    rw [servicesOnRustModGone, lookup_gByName_sweep, h.paired]
    constructor
    · rintro ⟨⟨svc, hl, hn⟩, hes⟩
      exact ⟨svc, ⟨hl, fun hm => hes ⟨id, svc⟩ (AList.lookup_eq_some_iff.mp hl) hm hn⟩, hn⟩
    · rintro ⟨svc, ⟨hl, hm⟩, hn⟩
      refine ⟨⟨svc, hl, hn⟩, fun e he hem hen => hm ?_⟩
      -- an entry under the same name is the same entry
      have hle := AList.lookup_eq_some_iff.mpr he
      have h₁ := (h.paired name e.1).mpr ⟨e.2, hle, hen⟩
      rw [(h.paired name id).mpr ⟨svc, hl, hn⟩] at h₁
      rw [← Option.some.inj h₁, hl] at hle
      rw [Option.some.inj hle]
      exact hem
  fresh := by
    refine ⟨?_, fun id svc hl => ?_⟩
    · rw [gNextId_servicesOnRustModGone]
      exact h.fresh.1
    · rw [gNextId_servicesOnRustModGone]
      exact h.fresh.2 id svc ((lookup_servicesOnRustModGone ..).mp hl).1
  named := fun id svc hl => h.named id svc ((lookup_servicesOnRustModGone ..).mp hl).1

/-! ## What a call finds -/

/-- The name is registered, by a mod other than the caller, and the thread may nest one deeper. -/
def Callable (s : State) (t : ThreadId) (caller : Option ModId) (name : String) (id : Nat) (svc : Service) : Prop :=
  s.registry.gByName.lookup name = some id ∧ s.registry.gServices.lookup id = some svc ∧ caller ≠ some svc.mod ∧
    s.gDepth t < kMaxDepth

theorem lookUp_ok_iff {s : State} (h : Sound s.registry) (t : ThreadId) (caller : Option ModId) (name : String)
    (id : Nat) (svc : Service) :
    lookUp (s.gDepth t) caller name s.registry = .ok (id, svc) ↔ Callable s t caller name id svc := by
  unfold lookUp provider Callable
  constructor
  · intro he
    split_ifs at he with hv hd
    split at he
    · cases he
    · next id' hn =>
      split at he
      · cases he
      · next svc' hl =>
        split_ifs at he with hc
        · cases he
          exact ⟨hn, hl, hc, by omega⟩
  · rintro ⟨hn, hl, hc, hd⟩
    -- a name in the table is one the call accepts
    obtain ⟨svc', hl', rfl⟩ := (h.paired name id).mp hn
    have hv := h.named id svc' hl'
    simp [hv, Nat.not_le.mpr hd, hn, hl, hc]

theorem lookUp_error {gDepth : Nat} {caller : Option ModId} {name : String} {r : Registry} {status : Status}
    (h : lookUp gDepth caller name r = .error status) : status = .notFound ∨ status = .refused := by
  unfold lookUp provider at h
  split_ifs at h with hv hd
  · cases h
    exact .inr rfl
  · cases h
    exact .inr rfl
  · split at h
    · cases h
      exact .inl rfl
    · split at h
      · cases h
        exact .inl rfl
      · split_ifs at h with hc
        · cases h
          exact .inr rfl
        · simp at *

/-! ## The depth -/

def depthOf (stack : List Frame) : Nat := stack.countP (·.running)

/-- Each frame has kept the number of callbacks running below it, and may be entered. -/
def Stacked : List Frame → Prop
  | [] => True
  | f :: rest => f.before = depthOf rest ∧ f.before < kMaxDepth ∧ Stacked rest

theorem depthOf_cons (f : Frame) (rest : List Frame) :
    depthOf (f :: rest) = depthOf rest + if f.running then 1 else 0 := List.countP_cons ..

theorem depthOf_le {stack : List Frame} (h : Stacked stack) : depthOf stack ≤ kMaxDepth := by
  cases stack with
  | nil => exact Nat.zero_le _
  | cons f rest =>
    obtain ⟨hb, hd, -⟩ := h
    rw [depthOf_cons, ← hb]
    split <;> omega

structure Good (s : State) : Prop where
  registry : Sound s.registry
  stacked : ∀ t, Stacked (s.callStack t)
  depth : ∀ t, s.gDepth t = depthOf (s.callStack t)

theorem good_initial (alive : ModId → Bool) : Good (initial alive) where
  registry := sound_initial
  stacked := fun _ => trivial
  depth := fun _ => rfl

theorem Good.setRegistry {s : State} {r : Registry} (h : Good s) (hr : Sound r) : Good { s with registry := r } :=
  ⟨hr, h.stacked, h.depth⟩

/-- One thread's stack and depth change together, the other threads keep theirs. -/
theorem Good.setThread {s : State} {t : ThreadId} {stack : List Frame} {depth : Nat} (h : Good s)
    (hs : Stacked stack) (hd : depth = depthOf stack) : Good ((s.setDepth t depth).setStack t stack) where
  registry := h.registry
  stacked := by
    intro t'
    by_cases ht : t' = t
    · subst ht
      simpa [State.setStack] using hs
    · simpa [State.setStack, State.setDepth, ht] using h.stacked t'
  depth := by
    intro t'
    by_cases ht : t' = t
    · subst ht
      simpa [State.setStack, State.setDepth] using hd
    · simpa [State.setStack, State.setDepth, ht] using h.depth t'

theorem setDepth_self (s : State) (t : ThreadId) : s.setDepth t (s.gDepth t) = s := by
  simp [State.setDepth]

theorem good_step {s s' : State} {l : Label} (h : Good s) (hs : Step s l s') : Good s' := by
  cases hs with
  | @register t mod name cb user id r hm hr =>
    obtain ⟨next, hn, he⟩ | ⟨m, fn, rfl, rfl, hv, hn, -, he⟩ :=
      api_service_register_cases s.alive mod name cb user s.registry
    · rw [he] at hr
      cases hr
      exact h.setRegistry (sound_setNext h.registry hn)
    · rw [he] at hr
      cases hr
      exact h.setRegistry (sound_addService h.registry hv hn)
  | @unregister t mod regId removed r hm hr =>
    obtain he | ⟨m, svc, -, hl, -, he⟩ := api_service_unregister_cases mod regId s.registry
    · rw [he] at hr
      cases hr
      exact h
    · rw [he] at hr
      cases hr
      exact h.setRegistry (sound_dropService h.registry hl)
  | modGone hm => exact h.setRegistry (sound_servicesOnRustModGone _ h.registry)
  | setAlive alive => exact ⟨h.registry, h.stacked, h.depth⟩
  | refuse hm hl => exact h
  | @begin t caller name id svc hm hl =>
    have hc := (lookUp_ok_iff h.registry t caller name id svc).mp hl
    have hstacked : Stacked (⟨name, id, svc, s.gDepth t, false⟩ :: s.callStack t) :=
      ⟨h.depth t, hc.2.2.2, h.stacked t⟩
    have := h.setThread (t := t) hstacked (h.depth t)
    rwa [setDepth_self] at this
  | @enter t f rest hs hf ha =>
    have hst := h.stacked t
    have hd := h.depth t
    rw [hs] at hst hd
    refine h.setThread hst ?_
    rw [hd, depthOf_cons, depthOf_cons, hf]
    rfl
  | @expired t f rest hs hf ha =>
    have hst := h.stacked t
    have hd := h.depth t
    rw [hs] at hst hd
    rw [depthOf_cons, hf] at hd
    have := h.setThread (t := t) hst.2.2 hd
    rwa [setDepth_self] at this
  | @leave t f rest reply hs hf =>
    have hst := h.stacked t
    have hd := h.depth t
    rw [hs] at hst hd
    refine h.setThread hst.2.2 ?_
    rw [hd, depthOf_cons, if_pos hf, Nat.add_sub_cancel]

/-! ## Who is registered -/

/-- The mod registers the service and is given the id. -/
def Label.Registers (id : Nat) (svc : Service) (l : Label) : Prop :=
  id ≠ 0 ∧ ∃ t, l = .register t (some svc.mod) svc.name (some svc.cb.fn) svc.cb.user id

/-- Its own mod takes it back under that id, or is gone. -/
def Label.Removes (id : Nat) (svc : Service) (l : Label) : Prop :=
  (∃ t, l = .unregister t (some svc.mod) id true) ∨ ∃ t, l = .modGone t svc.mod

theorem lookup_after_register {alive : ModId → Bool} {mod : Option ModId} {name : String} {cb : Option Ptr} {user : Ptr}
    {id' : Nat} {s r : Registry} (h : Fresh s) (hr : api_service_register alive mod name cb user s = (id', r))
    (t : ThreadId) (id : Nat) (svc : Service) :
    r.gServices.lookup id = some svc ↔
      (Label.register t mod name cb user id').Registers id svc ∨ s.gServices.lookup id = some svc := by
  obtain ⟨next, -, he⟩ | ⟨m, fn, rfl, rfl, -, -, -, he⟩ := api_service_register_cases alive mod name cb user s
  · rw [he] at hr
    cases hr
    -- a refusal hands out 0
    constructor
    · exact fun hl => .inr hl
    · rintro (⟨h0, t', ht⟩ | hl)
      · cases ht
        exact absurd rfl h0
      · exact hl
  · rw [he] at hr
    cases hr
    show (addService _ _).gServices.lookup id = some svc ↔ _
    rw [lookup_addService]
    have h1 := h.1
    by_cases hid : id = s.gNextId
    · rw [if_pos hid, hid, lookup_gNextId h]
      constructor
      · intro hl
        obtain rfl := Option.some.inj hl
        exact .inl ⟨by omega, t, rfl⟩
      · rintro (⟨-, t', ht⟩ | hl)
        · cases ht
          rfl
        · cases hl
    · rw [if_neg hid]
      constructor
      · exact fun hl => .inr hl
      · rintro (⟨-, t', ht⟩ | hl)
        · cases ht
          exact absurd rfl hid
        · exact hl

theorem lookup_after_unregister {mod : Option ModId} {regId : Nat} {removed : Bool} {s r : Registry}
    (hr : api_service_unregister mod regId s = (removed, r)) (t : ThreadId) (id : Nat) (svc : Service) :
    r.gServices.lookup id = some svc ↔
      s.gServices.lookup id = some svc ∧ ¬(Label.unregister t mod regId removed).Removes id svc := by
  obtain he | ⟨m, svc', rfl, hl', rfl, he⟩ := api_service_unregister_cases mod regId s
  · rw [he] at hr
    cases hr
    simp [Label.Removes]
  · rw [he] at hr
    cases hr
    show (dropService _ _ _).gServices.lookup id = some svc ↔ _
    rw [lookup_dropService]
    by_cases hid : id = regId
    · subst hid
      rw [if_pos rfl, hl']
      constructor
      · intro hl
        cases hl
      · rintro ⟨hl, hkept⟩
        obtain rfl := Option.some.inj hl
        exact absurd (.inl ⟨t, rfl⟩) hkept
    · rw [if_neg hid]
      simp [Label.Removes, Ne.symm hid]

/-- What a step does to an entry: nothing else adds one, nothing else takes one away. -/
theorem lookup_step {s s' : State} {l : Label} (h : Good s) (hs : Step s l s') (id : Nat) (svc : Service) :
    s'.registry.gServices.lookup id = some svc ↔
      l.Registers id svc ∨ s.registry.gServices.lookup id = some svc ∧ ¬l.Removes id svc := by
  cases hs with
  | @register t mod name cb user id' r hm hr =>
    have hkept : ¬(Label.register t mod name cb user id').Removes id svc := by simp [Label.Removes]
    rw [lookup_after_register h.registry.fresh hr t id svc, and_iff_left hkept]
  | @unregister t mod regId removed r hm hr =>
    have hnew : ¬(Label.unregister t mod regId removed).Registers id svc := by simp [Label.Registers]
    rw [lookup_after_unregister hr t id svc, or_iff_right hnew]
  | @modGone t mod hm =>
    show (servicesOnRustModGone _ _).gServices.lookup id = some svc ↔ _
    rw [lookup_servicesOnRustModGone]
    simp [Label.Registers, Label.Removes, eq_comm]
  | _ => simp [Label.Registers, Label.Removes, State.setStack, State.setDepth]

/-- The id table is what the run has registered and not taken back since. -/
theorem lookup_iff_since {alive : ModId → Bool} {tr : List (State × Label)} {s : State}
    (h : Run Step (initial alive) tr s) :
    Good s ∧ ∀ id svc, s.registry.gServices.lookup id = some svc ↔
      Since (fun e : State × Label => e.2.Registers id svc) (fun e => e.2.Removes id svc) tr := by
  refine h.traceInvariant (G := fun _ _ => True) (fun tr s => Good s ∧ ∀ id svc,
    s.registry.gServices.lookup id = some svc ↔
      Since (fun e : State × Label => e.2.Registers id svc) (fun e => e.2.Removes id svc) tr)
    (by simp [Meets]) ⟨good_initial alive, fun id svc => ?_⟩ ?_
  · simp [initial, Registry.initial, not_since_nil]
  · rintro pre s l t ⟨hg, hi⟩ - hs
    exact ⟨good_step hg hs, fun id svc => by rw [lookup_step hg hs, since_concat, hi]⟩

/-! ## What every step keeps to -/

/-- What a step must do, by what it returns. -/
def Keeps (s : State) : Label → State → Prop
  | .register _ _ name _ _ id, s' =>
    (id ≠ 0 → s.registry.gByName.lookup name = none) ∧ s'.gDepth = s.gDepth ∧ s'.callStack = s.callStack
  | .unregister _ mod regId removed, s' =>
    (removed = true ↔ ∃ svc, s.registry.gServices.lookup regId = some svc ∧ mod = some svc.mod) ∧
      s'.gDepth = s.gDepth ∧ s'.callStack = s.callStack
  | .modGone _ mod, s' =>
    (∀ id svc, s'.registry.gServices.lookup id = some svc → svc.mod ≠ mod) ∧
      s'.gDepth = s.gDepth ∧ s'.callStack = s.callStack
  | .setAlive _, s' => s'.registry = s.registry ∧ s'.gDepth = s.gDepth ∧ s'.callStack = s.callStack
  | .call t caller name none, s' =>
    ∃ id svc, Callable s t caller name id svc ∧
      s' = s.setStack t (⟨name, id, svc, s.gDepth t, false⟩ :: s.callStack t)
  | .call t caller name (some status), s' =>
    (¬∃ id svc, Callable s t caller name id svc) ∧ (status = .notFound ∨ status = .refused) ∧ s' = s
  | .check t none, s' =>
    ∃ f rest, s.callStack t = f :: rest ∧ s.alive f.svc.mod = true ∧ f.before < kMaxDepth ∧
      s' = (s.setDepth t (f.before + 1)).setStack t ({ f with running := true } :: rest)
  | .check t (some status), s' =>
    ∃ f rest, s.callStack t = f :: rest ∧ s.alive f.svc.mod = false ∧ status = .notFound ∧
      s' = (s.setDepth t f.before).setStack t rest
  | .leave t reply status, s' =>
    ∃ f rest, s.callStack t = f :: rest ∧ f.running = true ∧ status = statusOf reply ∧
      s' = (s.setDepth t f.before).setStack t rest

/-- An entry the thread has not yet crossed into was copied at this depth. -/
theorem Good.gDepth_eq {s : State} (h : Good s) {t : ThreadId} {f : Frame} {rest : List Frame}
    (hs : s.callStack t = f :: rest) : s.gDepth t = f.before + if f.running then 1 else 0 := by
  have hst := h.stacked t
  rw [hs] at hst
  rw [h.depth t, hs, depthOf_cons, hst.1]

theorem keeps_of_step {s s' : State} {l : Label} (h : Good s) (hs : Step s l s') : Keeps s l s' := by
  cases hs with
  | @register t mod name cb user id r hm hr =>
    refine ⟨fun hid => ?_, rfl, rfl⟩
    obtain ⟨next, -, he⟩ | ⟨m, fn, -, -, -, hn, -, -⟩ :=
      api_service_register_cases s.alive mod name cb user s.registry
    · rw [he] at hr
      cases hr
      exact absurd rfl hid
    · exact hn
  | @unregister t mod regId removed r hm hr =>
    refine ⟨?_, rfl, rfl⟩
    have he := congrArg Prod.fst hr
    subst he
    constructor
    · intro ht
      obtain he | ⟨m, svc, rfl, hl, rfl, -⟩ := api_service_unregister_cases mod regId s.registry
      · rw [he] at ht
        cases ht
      · exact ⟨svc, hl, rfl⟩
    · rintro ⟨svc, hl, rfl⟩
      have h₀ : regId ≠ 0 := Nat.pos_iff_ne_zero.mp (h.registry.fresh.2 regId svc hl).1
      simp [api_service_unregister, h₀, hl]
  | @modGone t mod hm => exact ⟨fun id svc hl => ((lookup_servicesOnRustModGone ..).mp hl).2, rfl, rfl⟩
  | setAlive alive => exact ⟨rfl, rfl, rfl⟩
  | @refuse t caller name status hm hl =>
    refine ⟨?_, lookUp_error hl, rfl⟩
    rintro ⟨id, svc, hc⟩
    rw [(lookUp_ok_iff h.registry t caller name id svc).mpr hc] at hl
    cases hl
  | @begin t caller name id svc hm hl => exact ⟨id, svc, (lookUp_ok_iff h.registry ..).mp hl, rfl⟩
  | @enter t f rest hs hf ha =>
    have hst := h.stacked t
    have hd := h.gDepth_eq hs
    rw [hs] at hst
    rw [hf] at hd
    exact ⟨f, rest, hs, ha, hst.2.1, by rw [hd]; rfl⟩
  | @expired t f rest hs hf ha =>
    have hd : s.gDepth t = f.before := by simpa [hf] using h.gDepth_eq hs
    exact ⟨f, rest, hs, ha, rfl, by rw [← hd, setDepth_self]⟩
  | @leave t f rest reply hs hf =>
    have hd := h.gDepth_eq hs
    rw [hf] at hd
    exact ⟨f, rest, hs, hf, rfl, by rw [hd]; rfl⟩

/-! ## The whole run -/

/-- The call goes through to the callback, with no other thread in between. -/
def Invokes (s : State) (t : ThreadId) (caller : Option ModId) (name : String) : Prop :=
  ∃ s₁ s₂, Step s (.call t caller name none) s₁ ∧ Step s₁ (.check t none) s₂

theorem invokes_iff {s : State} (h : Good s) {t : ThreadId} (hm : InMod (s.callStack t)) (caller : Option ModId)
    (name : String) :
    Invokes s t caller name ↔ ∃ id svc, Callable s t caller name id svc ∧ s.alive svc.mod = true := by
  constructor
  · rintro ⟨s₁, s₂, h₁, h₂⟩
    obtain ⟨id, svc, hc, rfl⟩ := keeps_of_step h h₁
    obtain ⟨f, rest, hf, ha, -⟩ := keeps_of_step (good_step h h₁) h₂
    simp only [State.setStack, Function.update_self, List.cons.injEq] at hf
    obtain ⟨rfl, -⟩ := hf
    exact ⟨id, svc, hc, ha⟩
  · rintro ⟨id, svc, hc, ha⟩
    let f : Frame := ⟨name, id, svc, s.gDepth t, false⟩
    have hs : (s.setStack t (f :: s.callStack t)).callStack t = f :: s.callStack t := Function.update_self ..
    exact ⟨_, _, .begin hm ((lookUp_ok_iff h.registry ..).mpr hc), .enter hs rfl ha⟩

/-- A call always gets as far as its lookup, and from there past the check. -/
theorem call_answers {s : State} {t : ThreadId} (hm : InMod (s.callStack t)) (caller : Option ModId) (name : String) :
    ∃ result s', Step s (.call t caller name result) s' := by
  cases hl : lookUp (s.gDepth t) caller name s.registry with
  | error status => exact ⟨_, _, .refuse hm hl⟩
  | ok p => exact ⟨_, _, .begin hm hl⟩

/-- In every run: the two tables say the same, a service is in them exactly
while its mod has it registered, no thread is ever nested deeper than the
limit, and every step keeps to what it promises; a call that meets no other
thread enters the callback exactly when the name is callable and its mod alive. -/
theorem service_registry_holds {alive : ModId → Bool} {tr : List (State × Label)} {s : State}
    (h : Run Step (initial alive) tr s) :
    Paired s.registry ∧
    (∀ id svc, s.registry.gServices.lookup id = some svc ↔
      Since (fun e : State × Label => e.2.Registers id svc) (fun e => e.2.Removes id svc) tr) ∧
    (∀ t, s.gDepth t = depthOf (s.callStack t) ∧ s.gDepth t ≤ kMaxDepth) ∧
    (∀ l s', Step s l s' → Keeps s l s') ∧
    ∀ t, InMod (s.callStack t) → ∀ caller name,
      (∃ result s', Step s (.call t caller name result) s') ∧
      (Invokes s t caller name ↔ ∃ id svc, Callable s t caller name id svc ∧ s.alive svc.mod = true) := by
  obtain ⟨hg, hi⟩ := lookup_iff_since h
  refine ⟨hg.registry.paired, hi, fun t => ⟨hg.depth t, ?_⟩, fun l s' hs => keeps_of_step hg hs, ?_⟩
  · rw [hg.depth t]
    exact depthOf_le (hg.stacked t)
  · exact fun t hm caller name => ⟨call_answers hm caller name, invokes_iff hg hm caller name⟩

/-- One service, and a run that registers it. -/
def plotCan : State :=
  { initial fun _ => true with
    registry := addService ⟨1, "plot:can", ⟨7, 9⟩⟩ Registry.initial }

theorem run_plotCan : Run Step (initial fun _ => true)
    [(initial fun _ => true, .register 0 (some 1) "plot:can" (some 7) 9 1)] plotCan :=
  .cons (.register trivial rfl) (.nil _)

theorem service_registry_holds_plotCan :
    Invokes plotCan 0 (some 2) "plot:can" ∧ ¬Invokes plotCan 0 (some 1) "plot:can" := by
  obtain ⟨-, -, -, -, hcall⟩ := service_registry_holds run_plotCan
  refine ⟨(hcall 0 trivial (some 2) "plot:can").2.mpr ⟨1, ⟨1, "plot:can", ⟨7, 9⟩⟩, ?_, rfl⟩, fun hi => ?_⟩
  · exact ⟨rfl, rfl, by decide, by decide⟩
  · -- a mod does not reach its own service
    obtain ⟨id, svc, ⟨hn, hl, hc, -⟩, -⟩ := (hcall 0 trivial (some 1) "plot:can").2.mp hi
    cases hn
    cases hl
    exact hc rfl

end ServiceRuns
