import LeviRsLoader.Lib.Runs
import LeviRsLoader.Commands

/-!
# Runs of the command registry

Registrations with an engine that may throw, invocations and unloads. An
executor may call a closure only as long as the registration that stored it has
succeeded and its mod is still loaded: on a refusal the mod's side frees it.
-/
namespace CommandRuns

open LeviRs Commands Runs

structure State where
  reg : Registry
  muted : ModId → Bool

inductive RegisterCall where
  | plain (mod : Option ModId) (name : String) (cb : Option Ptr) (user : Ptr) (throwsAt : Option Nat)
  | ex (mod : Option ModId) (name : String) (overloads : Option Nbt.NbtValue) (cb : Option Ptr) (user : Ptr)
      (throwsAt : Option Nat)

inductive Label where
  | register (c : RegisterCall)
  | invoke (executor : Nat)
  | modGone (mod : ModId)
  | setMuted (mod : ModId) (muted : Bool)

section

variable (F : Nbt.Floats)

def RegisterCall.run : RegisterCall → Registry → Bool × Registry
  | .plain mod name cb user throwsAt => api_register_command mod name cb user throwsAt
  | .ex mod name overloads cb user throwsAt => api_register_command_ex F mod name overloads cb user throwsAt

def RegisterCall.mod : RegisterCall → Option ModId
  | .plain mod _ _ _ _ => mod
  | .ex mod _ _ _ _ _ => mod

def RegisterCall.name : RegisterCall → String
  | .plain _ name _ _ _ => name
  | .ex _ name _ _ _ _ => name

def RegisterCall.cb : RegisterCall → Option Ptr
  | .plain _ _ cb _ _ => cb
  | .ex _ _ _ cb _ _ => cb

def RegisterCall.user : RegisterCall → Ptr
  | .plain _ _ _ user _ => user
  | .ex _ _ _ _ user _ => user

def RegisterCall.throwsAt : RegisterCall → Option Nat
  | .plain _ _ _ _ throwsAt => throwsAt
  | .ex _ _ _ _ _ throwsAt => throwsAt

def RegisterCall.overloads : RegisterCall → Option (List Overload)
  | .plain _ _ _ _ _ => some [.raw]
  | .ex _ _ overloads _ _ _ => (decodeOverloads F overloads).map numbered

inductive Step : State → Label → State → Prop where
  | register (s : State) (c : RegisterCall) : Step s (.register c) ⟨(c.run F s.reg).2, s.muted⟩
  | invoke (s : State) (executor : Nat) : Step s (.invoke executor) s
  | modGone (s : State) (mod : ModId) :
      Step s (.modGone mod) ⟨commandsOnRustModGone mod s.reg, Function.update s.muted mod true⟩
  | setMuted (s : State) (mod : ModId) (muted : Bool) :
      Step s (.setMuted mod muted) ⟨s.reg, Function.update s.muted mod muted⟩

def start (muted : ModId → Bool) : State := ⟨Registry.initial, muted⟩

/-- The entry is a registration that stores its callback in the binding. -/
def Stores (b : Nat) (e : State × Label) : Prop :=
  ∃ c, e.2 = .register c ∧ claimed c.mod c.name (c.overloads F) c.cb e.1.reg = some b

/-- The last registration to store in the binding was that mod's, with that
callback, it returned true, and the mod has not been unloaded since. -/
def Granted (tr : List (State × Label)) (b : Nat) (mod : ModId) (callback : Callback) : Prop :=
  ∃ pre s c suf, tr = pre ++ (s, .register c) :: suf ∧ Stores F b (s, .register c) ∧
    (c.run F s.reg).1 = true ∧ c.mod = some mod ∧ c.cb = some callback.fn ∧ c.user = callback.user ∧
    (∀ e ∈ suf, ¬Stores F b e) ∧ ∀ e ∈ suf, e.2 ≠ .modGone mod

/-- Whenever an executor calls a callback, its registration granted it. -/
def NoDeadCallback (tr : List (State × Label)) : Prop :=
  ∀ pre s i suf, tr = pre ++ (s, .invoke i) :: suf → ∀ e, s.reg.executors[i]? = some e →
    ∀ mod callback, e.call s.muted s.reg = some (mod, callback) → Granted F pre e.binding mod callback

/-- A registration that reaches the engine does not fail with an executor of its own installed. -/
def CleanFailure (s : State) (l : Label) : Prop :=
  ∀ c ovls k, l = .register c → s.reg.gCommands.lookup c.name = none → c.overloads F = some ovls →
    c.throwsAt = some k → k < ovls.length → k = 0

variable {F}

theorem RegisterCall.run_eq (c : RegisterCall) (s : Registry) :
    c.run F s = registerOverloads c.mod c.name (c.overloads F) c.cb c.user c.throwsAt s := by
  cases c <;> rfl

theorem granted_iff_since {tr : List (State × Label)} {b : Nat} {mod : ModId} {callback : Callback} :
    Granted F tr b mod callback ↔
      Since (fun e => ∃ c, e.2 = .register c ∧ Stores F b e ∧ (c.run F e.1.reg).1 = true ∧ c.mod = some mod ∧
        c.cb = some callback.fn ∧ c.user = callback.user) (fun e => Stores F b e ∨ e.2 = .modGone mod) tr := by
  constructor
  · rintro ⟨pre, s, c, suf, htr, hs, hok, hm, hcb, huser, hlater, hgone⟩
    exact ⟨pre, _, suf, htr, ⟨c, rfl, hs, hok, hm, hcb, huser⟩, fun e he => not_or.mpr ⟨hlater e he, hgone e he⟩⟩
  · rintro ⟨pre, ⟨s, _⟩, suf, htr, ⟨c, rfl, hs, hok, hm, hcb, huser⟩, hsuf⟩
    exact ⟨pre, s, c, suf, htr, hs, hok, hm, hcb, huser, fun e he => (not_or.mp (hsuf e he)).1,
      fun e he => (not_or.mp (hsuf e he)).2⟩

theorem Granted.append {tr : List (State × Label)} {b : Nat} {mod : ModId} {callback : Callback}
    (h : Granted F tr b mod callback) {e : State × Label} (hs : ¬Stores F b e) (hm : e.2 ≠ .modGone mod) :
    Granted F (tr ++ [e]) b mod callback := by
  rw [granted_iff_since] at h ⊢
  exact since_concat.mpr (.inr ⟨h, not_or.mpr ⟨hs, hm⟩⟩)

theorem granted_now {tr : List (State × Label)} {s : State} {c : RegisterCall} {b : Nat} {mod : ModId} {fn : Ptr}
    (hs : Stores F b (s, .register c)) (hok : (c.run F s.reg).1 = true) (hm : c.mod = some mod)
    (hcb : c.cb = some fn) : Granted F (tr ++ [(s, .register c)]) b mod ⟨fn, c.user⟩ := by
  rw [granted_iff_since]
  exact since_concat.mpr (.inl ⟨c, rfl, hs, hok, hm, hcb, rfl⟩)

theorem not_stores {b : Nat} {s : State} {l : Label} (h : ∀ c, l ≠ .register c) : ¬Stores F b (s, l) := by
  intro hs
  obtain ⟨c, hl, _⟩ := hs
  exact h c hl

theorem stores_register {b : Nat} {s : State} {c : RegisterCall} :
    Stores F b (s, .register c) ↔ claimed c.mod c.name (c.overloads F) c.cb s.reg = some b := by
  constructor
  · intro ⟨c', hl, h⟩
    cases hl
    exact h
  · intro h
    exact ⟨c, rfl, h⟩

/-! ## The invariant -/

/-- Every executor's binding is the one under its name, names have bindings of
their own, and what a named binding holds has been granted. -/
structure Owned (F : Nbt.Floats) (tr : List (State × Label)) (s : Registry) : Prop where
  lt : ∀ name b, s.gCommands.lookup name = some b → b < s.bindings.length
  inj : ∀ name name' b, s.gCommands.lookup name = some b → s.gCommands.lookup name' = some b → name = name'
  named : ∀ e ∈ s.executors, s.gCommands.lookup e.cmdName = some e.binding
  granted : ∀ name b, s.gCommands.lookup name = some b → ∀ mod fn, (s.binding b).mod = some mod →
    (s.binding b).cb = some fn → Granted F tr b mod ⟨fn, (s.binding b).user⟩

theorem binding_set {s : Registry} {b b' : Nat} {x : CommandBinding} (hb : b < s.bindings.length) :
    (s.bindings.set b x).getD b' emptyBinding = if b' = b then x else s.binding b' := by
  rw [List.getD_eq_getElem?_getD, List.getElem?_set, Registry.binding, List.getD_eq_getElem?_getD]
  by_cases he : b = b'
  · subst he
    simp [hb]
  · rw [if_neg he, if_neg (Ne.symm he)]

theorem binding_append {s : Registry} {b : Nat} {x : CommandBinding} (hb : b < s.bindings.length) :
    (s.bindings ++ [x]).getD b emptyBinding = s.binding b := by
  rw [List.getD_eq_getElem?_getD, List.getElem?_append_left hb, Registry.binding, List.getD_eq_getElem?_getD]

theorem binding_append_last (s : Registry) (x : CommandBinding) :
    (s.bindings ++ [x]).getD s.bindings.length emptyBinding = x := by
  simp

/-- A new binding takes the next place. -/
theorem binding_append_cases (s : Registry) (x : CommandBinding) (b : Nat) :
    (s.bindings ++ [x]).getD b emptyBinding = s.binding b ∨
      b = s.bindings.length ∧ (s.bindings ++ [x]).getD b emptyBinding = x := by
  rcases Nat.lt_trichotomy b s.bindings.length with hb | rfl | hb
  · exact .inl (binding_append hb)
  · exact .inr ⟨rfl, binding_append_last s x⟩
  · refine .inl ?_
    rw [Registry.binding, List.getD_eq_getElem?_getD, List.getD_eq_getElem?_getD,
      List.getElem?_eq_none (by simpa using Nat.succ_le_of_lt hb), List.getElem?_eq_none (Nat.le_of_lt hb)]

/-- A binding that a registration does not store its callback in keeps its grant. -/
theorem Granted.other_binding {tr : List (State × Label)} {s : State} {c : RegisterCall} {r : Option Nat}
    (hclaimed : claimed c.mod c.name (c.overloads F) c.cb s.reg = r) {b : Nat} {mod : ModId} {callback : Callback}
    (h : Granted F tr b mod callback) (hne : r ≠ some b) : Granted F (tr ++ [(s, .register c)]) b mod callback := by
  refine h.append (fun hs => ?_) (by simp)
  rw [stores_register, hclaimed] at hs
  exact hne hs

theorem Owned.rebound {tr : List (State × Label)} {s : State} (h : Owned F tr s.reg) {c : RegisterCall} {m : ModId}
    {fn : Ptr} {b : Nat} (hclaimed : claimed c.mod c.name (c.overloads F) c.cb s.reg = some b)
    (hok : (c.run F s.reg).1 = true) (hm : c.mod = some m) (hcb : c.cb = some fn)
    (hl : s.reg.gCommands.lookup c.name = some b) :
    Owned F (tr ++ [(s, .register c)]) { s.reg with bindings := s.reg.bindings.set b ⟨some m, some fn, c.user⟩ } := by
  have hlt := h.lt _ _ hl
  refine ⟨fun name b' hl' => by simpa using h.lt name b' hl', h.inj, h.named, ?_⟩
  intro name b' hl' mod fn' hm' hf'
  simp only [Registry.binding, binding_set hlt] at hm' hf' ⊢
  by_cases hb : b' = b
  · subst hb
    rw [if_pos rfl] at hm' hf' ⊢
    cases hm'
    cases hf'
    exact granted_now (stores_register.mpr hclaimed) hok hm hcb
  · rw [if_neg hb] at hm' hf' ⊢
    exact (h.granted name b' hl' mod fn' hm' hf').other_binding hclaimed (by simpa using Ne.symm hb)

/-- A new binding is one that no name had before. -/
theorem Owned.fresh {tr : List (State × Label)} {s : State} (h : Owned F tr s.reg) {c : RegisterCall}
    (hclaimed : claimed c.mod c.name (c.overloads F) c.cb s.reg = some s.reg.bindings.length) (x : CommandBinding)
    {table : Table String Nat} {executors : List Executor}
    (htable : ∀ name b, table.lookup name = some b →
      name = c.name ∧ b = s.reg.bindings.length ∨ s.reg.gCommands.lookup name = some b)
    (hnamed : ∀ e ∈ executors, table.lookup e.cmdName = some e.binding)
    (hx : table.lookup c.name = some s.reg.bindings.length → ∀ mod fn, x.mod = some mod → x.cb = some fn →
      Granted F (tr ++ [(s, .register c)]) s.reg.bindings.length mod ⟨fn, x.user⟩) :
    Owned F (tr ++ [(s, .register c)]) ⟨table, s.reg.bindings ++ [x], executors⟩ where
  lt name b hl := by
    rw [List.length_append]
    rcases htable name b hl with ⟨-, rfl⟩ | hl
    · exact Nat.lt_succ_self _
    · exact Nat.lt_succ_of_lt (h.lt name b hl)
  inj name name' b hl hl' := by
    rcases htable name b hl with ⟨rfl, rfl⟩ | hl <;> rcases htable name' _ hl' with ⟨rfl, hb⟩ | hl'
    · rfl
    · exact absurd (h.lt name' _ hl') (Nat.lt_irrefl _)
    · subst hb
      exact absurd (h.lt name _ hl) (Nat.lt_irrefl _)
    · exact h.inj name name' b hl hl'
  named := hnamed
  granted name b hl mod fn hm hf := by
    rcases htable name b hl with ⟨rfl, rfl⟩ | hold
    · simp only [Registry.binding, binding_append_last] at hm hf ⊢
      exact hx hl mod fn hm hf
    · have hlt := h.lt name b hold
      simp only [Registry.binding, binding_append hlt] at hm hf ⊢
      exact (h.granted name b hold mod fn hm hf).other_binding hclaimed (by simpa using Ne.symm (Nat.ne_of_lt hlt))

theorem Owned.installed {tr : List (State × Label)} {s : State} (h : Owned F tr s.reg) {c : RegisterCall} {m : ModId}
    {fn : Ptr} (ovls : List Overload)
    (hclaimed : claimed c.mod c.name (c.overloads F) c.cb s.reg = some s.reg.bindings.length)
    (hok : (c.run F s.reg).1 = true) (hm : c.mod = some m) (hcb : c.cb = some fn)
    (hl : s.reg.gCommands.lookup c.name = none) :
    Owned F (tr ++ [(s, .register c)])
      ⟨s.reg.gCommands.insert c.name s.reg.bindings.length, s.reg.bindings ++ [⟨some m, some fn, c.user⟩],
        s.reg.executors ++ ovls.map (Executor.mk s.reg.bindings.length c.name)⟩ := by
  refine h.fresh hclaimed _ (fun name b hl' => ?_) (fun e he => ?_) fun _ mod fn' hm' hf' => ?_
  · rw [AList.lookup_insert_eq] at hl'
    split at hl'
    · next hname =>
      cases hl'
      exact .inl ⟨hname, rfl⟩
    · exact .inr hl'
  · rw [AList.lookup_insert_eq]
    rcases List.mem_append.mp he with he | he
    · have hold := h.named e he
      rw [if_neg (fun hc => by rw [hc, hl] at hold; cases hold)]
      exact hold
    · obtain ⟨o, _, rfl⟩ := List.mem_map.mp he
      exact if_pos rfl
  · cases hm'
    cases hf'
    exact granted_now (stores_register.mpr hclaimed) hok hm hcb

/-- The engine has thrown before it had an executor: the name is as free as before. -/
theorem Owned.thrown {tr : List (State × Label)} {s : State} (h : Owned F tr s.reg) {c : RegisterCall}
    (x : CommandBinding) (hclaimed : claimed c.mod c.name (c.overloads F) c.cb s.reg = some s.reg.bindings.length)
    (hl : s.reg.gCommands.lookup c.name = none) :
    Owned F (tr ++ [(s, .register c)])
      ⟨(s.reg.gCommands.insert c.name s.reg.bindings.length).erase c.name, s.reg.bindings ++ [x],
        s.reg.executors⟩ := by
  have hlookup : ∀ name, ((s.reg.gCommands.insert c.name s.reg.bindings.length).erase c.name).lookup name =
      s.reg.gCommands.lookup name := by
    intro name
    rw [AList.lookup_erase_eq, AList.lookup_insert_eq]
    split
    · next he => rw [he, hl]
    · rfl
  refine h.fresh hclaimed x (fun name b hl' => ?_) (fun e he => ?_) fun hl' => ?_
  · rw [hlookup] at hl'
    exact .inr hl'
  · rw [hlookup]
    exact h.named e he
  · rw [hlookup, hl] at hl'
    cases hl'

/-- A registration that does not fail with executors installed. -/
theorem Owned.register {tr : List (State × Label)} {s : State} (h : Owned F tr s.reg) (c : RegisterCall)
    (hclean : CleanFailure F s (.register c)) : Owned F (tr ++ [(s, .register c)]) (c.run F s.reg).2 := by
  have heffect := registerOverloads_effect c.mod c.name (c.overloads F) c.cb c.user c.throwsAt s.reg
  rw [← c.run_eq] at heffect
  generalize hclaimed : claimed c.mod c.name (c.overloads F) c.cb s.reg = r at heffect
  generalize hrun : c.run F s.reg = result at heffect
  cases heffect with
  | refused =>
    exact ⟨h.lt, h.inj, h.named, fun name b hl mod fn hm hf =>
      (h.granted name b hl mod fn hm hf).other_binding hclaimed (by simp)⟩
  | rebound m fn b hm hcb hl => exact h.rebound hclaimed (by rw [hrun]) hm hcb hl
  | installed m fn ovls hm hcb ho hl => exact h.installed ovls hclaimed (by rw [hrun]) hm hcb hl
  | thrown m fn ovls k hm hcb ho hl hk hlt =>
    obtain rfl : k = 0 := hclean c ovls k rfl hl ho hk hlt
    have hthrown := h.thrown ⟨some m, some fn, c.user⟩ hclaimed hl
    simpa using hthrown

theorem Owned.modGone {tr : List (State × Label)} {s : State} (h : Owned F tr s.reg) (mod : ModId) :
    Owned F (tr ++ [(s, .modGone mod)]) (commandsOnRustModGone mod s.reg) where
  lt name b hl := by
    rw [commandsOnRustModGone, length_clearBindings]
    exact h.lt name b hl
  inj := h.inj
  named := h.named
  granted name b hl m fn hm hf := by
    rw [binding_commandsOnRustModGone mod (s := s.reg) hl] at hm hf ⊢
    split at hm
    · cases hm
    · next hne =>
      rw [if_neg hne] at hf ⊢
      refine (h.granted name b hl m fn hm hf).append (not_stores (by simp)) ?_
      intro he
      cases he
      exact hne hm

/-- A step that neither registers nor unloads keeps every grant. -/
theorem Owned.other {tr : List (State × Label)} {s : State} (h : Owned F tr s.reg) {l : Label}
    (hr : ∀ c, l ≠ .register c) (hg : ∀ mod, l ≠ .modGone mod) : Owned F (tr ++ [(s, l)]) s.reg :=
  ⟨h.lt, h.inj, h.named, fun name b hl mod fn hm hf =>
    (h.granted name b hl mod fn hm hf).append (not_stores hr) (hg mod)⟩

/-- The run lemma. -/
theorem owned_run {muted : ModId → Bool} {tr : List (State × Label)} {u : State}
    (h : Run (Step F) (start muted) tr u) (hG : Meets (CleanFailure F) tr) : Owned F tr u.reg := by
  refine h.traceInvariant (fun tr s => Owned F tr s.reg) hG ?_ ?_
  · exact ⟨by simp [start, Registry.initial], by simp [start, Registry.initial], by simp [start, Registry.initial],
      by simp [start, Registry.initial]⟩
  · intro pre s l t hs hg hstep
    cases hstep with
    | register c => exact hs.register c hg
    | invoke i => exact hs.other (by simp) (by simp)
    | modGone mod => exact hs.modGone mod
    | setMuted mod muted => exact hs.other (by simp) (by simp)

/-- In every run in which no registration fails with an executor of its own
installed, executors call granted callbacks only. -/
theorem noDeadCallback_of_cleanFailure {muted : ModId → Bool} {tr : List (State × Label)} {u : State}
    (h : Run (Step F) (start muted) tr u) (hG : Meets (CleanFailure F) tr) : NoDeadCallback F tr := by
  intro pre s i suf htr e he mod callback hcall
  subst htr
  obtain ⟨_, hpre, _⟩ := h.split_cons
  have howned := owned_run hpre ((meets_append _ _).mp hG).1
  have hnamed := howned.named e (List.mem_of_getElem? he)
  unfold Executor.call at hcall
  split at hcall
  · next m fn user hb =>
    split at hcall
    · cases hcall
    · cases hcall
      have := howned.granted _ _ hnamed mod fn (by rw [hb]) (by rw [hb])
      rw [hb] at this
      exact this
  · cases hcall

end

/-! ## A failure halfway -/

/-- Two overloads without parameters. -/
def twoOverloads : Nbt.NbtValue := .compound [("overloads", .list [.list [], .list []])]

/-- A registration that throws at its second overload. -/
def halfway : RegisterCall := .ex (some 1) "home" (some twoOverloads) (some 10) 11 (some 1)

def noFloats : Nbt.Floats := ⟨fun _ => 0, fun _ => 0, fun _ => 0, fun _ => [], fun _ => none, fun _ => none⟩

/-- The first overload's executor calls the closure of a registration that returned false. -/
theorem executor_of_failed_registration :
    ¬∀ F muted tr u, Run (Step F) (start muted) tr u → NoDeadCallback F tr := by
  intro h
  have hrun : Run (Step noFloats) (start fun _ => false)
      [(start fun _ => false, .register halfway),
        (⟨(halfway.run noFloats Registry.initial).2, fun _ => false⟩, .invoke 0)]
      ⟨(halfway.run noFloats Registry.initial).2, fun _ => false⟩ :=
    .cons (.register _ _) (.cons (.invoke _ _) (.nil _))
  obtain ⟨pre, s, c, suf, htr, _, hok, _⟩ :=
    h noFloats _ _ _ hrun [_] _ 0 [] rfl ⟨0, "home", .params 0 []⟩ rfl 1 ⟨10, 11⟩ rfl
  cases pre with
  | nil =>
    cases htr
    revert hok
    decide
  | cons e pre => simp at htr

/-- The same registration with an engine that takes both overloads, called and
then unloaded. -/
theorem executor_of_registration :
    NoDeadCallback noFloats
      [(start fun _ => false, .register (.ex (some 1) "home" (some twoOverloads) (some 10) 11 none)),
        (⟨((RegisterCall.ex (some 1) "home" (some twoOverloads) (some 10) 11 none).run noFloats Registry.initial).2,
          fun _ => false⟩, .invoke 0)] := by
  refine @noDeadCallback_of_cleanFailure noFloats (fun _ => false) _ _
    (.cons (.register _ _) (.cons (.invoke _ _) (.nil _))) ?_
  intro e he c ovls k hl _ _ hk
  simp only [List.mem_cons, List.not_mem_nil, or_false] at he
  rcases he with rfl | rfl
  · cases hl
    cases hk
  · cases hl

end CommandRuns
