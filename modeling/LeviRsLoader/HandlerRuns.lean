import LeviRsLoader.CommandRuns
import LeviRsLoader.Handlers

/-!
# Exclusive entry of handlers

The guards of the bus and of the services look at mods and depths, a closure
is entered through a pointer. What connects the two is that tickets and
closures correspond one to one: a box is registered once and under a ticket
not given out before.
-/
namespace HandlerRuns

open LeviRs Runs Handlers

/-- The calls in progress. -/
def calls (stack : List Frame) : List (Ticket × Ptr) := stack.filterMap Frame.running

/-- The step enters no closure, and frees none, that is running. -/
structure Exclusive (s : State) (l : Label) : Prop where
  entered : ∀ t c, l = .enter t c → c ∉ (calls s.stack).map Prod.snd
  freed : ∀ o, l = .op o → ∀ c ∈ (o.apply s.world).2, c ∉ (calls s.stack).map Prod.snd

def InProgress (s : State) (t : Ticket) : Prop := t ∈ (calls s.stack).map Prod.fst

/-- The call whose turn has come is not in progress already, nor is a call of
the subscription or registration that is dropped while its table has it. -/
def Clear (s : State) : Label → Prop
  | .enter t _ => ¬InProgress s t
  | .op (.dropSubscription g) =>
    (∃ sub, s.world.bus.gSubs.lookup g.id = some sub ∧ sub.mod = g.mod) → ¬InProgress s (.sub g.id)
  | .op (.dropRegistration g) =>
    (∃ svc, s.world.services.gServices.lookup g.id = some svc ∧ svc.mod = g.mod) → ¬InProgress s (.svc g.id)
  | _ => True

/-! ## Tickets and closures -/

/-- The world has the closure under the ticket. -/
inductive Stored (w : World) : Ptr → Ticket → Prop where
  | sub {id : Nat} {sub : Bus.Subscription} (h : w.bus.gSubs.lookup id = some sub) : Stored w sub.cb.user (.sub id)
  | svc {id : Nat} {svc : Services.Service} (h : w.services.gServices.lookup id = some svc) :
      Stored w svc.cb.user (.svc id)
  | cmd {b : Nat} {mod : ModId} {fn user : Ptr} (h : w.commands.binding b = ⟨some mod, some fn, user⟩) :
      Stored w user (.cmd b user)
  | subscription {g : Guard} (h : g ∈ w.subscriptions) : Stored w g.cb (.sub g.id)
  | registration {g : Guard} (h : g ∈ w.registrations) : Stored w g.cb (.svc g.id)

/-- The stack has the closure under the ticket, running or about to be called. -/
inductive OnStack (stack : List Frame) : Ptr → Ticket → Prop where
  | running {f : Frame} {t : Ticket} {c : Ptr} (hf : f ∈ stack) (hr : f.running = some (t, c)) : OnStack stack c t
  | called {f : Frame} {id : Nat} {svc : Services.Service} {status : Services.Status} (hf : f ∈ stack)
      (hw : f.work = .call (some (id, svc)) status) : OnStack stack svc.cb.user (.svc id)

def Reached (s : State) (c : Ptr) (t : Ticket) : Prop := Stored s.world c t ∨ OnStack s.stack c t

/-- The ticket has been given out. -/
def Known (w : World) : Ticket → Prop
  | .sub id => 0 < id ∧ id < w.bus.gNextSubId
  | .svc id => 0 < id ∧ id < w.services.gNextId
  | .cmd _ user => user < w.boxed

/-- Tickets and closures correspond one to one, and neither is given out twice. -/
structure OneToOne (s : State) : Prop where
  unique : Relator.BiUnique (Reached s)
  known : ∀ c t, Reached s c t → c < s.world.boxed ∧ Known s.world t
  subId : 0 < s.world.bus.gNextSubId
  svcId : 0 < s.world.services.gNextId

theorem mem_calls {stack : List Frame} {t : Ticket} {c : Ptr} (h : (t, c) ∈ calls stack) : OnStack stack c t := by
  obtain ⟨f, hf, hr⟩ := List.mem_filterMap.mp h
  exact .running hf hr

/-- A closure is running exactly when a call under its ticket is in progress. -/
theorem OneToOne.running_iff {s : State} (h : OneToOne s) {c : Ptr} {t : Ticket} (hr : Reached s c t) :
    c ∈ (calls s.stack).map Prod.snd ↔ InProgress s t := by
  constructor
  · intro hc
    obtain ⟨⟨t', c'⟩, hm, rfl⟩ := List.mem_map.mp hc
    have ht : t = t' := h.unique.2 hr (.inr (mem_calls hm))
    exact List.mem_map.mpr ⟨_, hm, ht.symm⟩
  · intro ht
    obtain ⟨⟨t', c'⟩, hm, rfl⟩ := List.mem_map.mp ht
    have hc : c = c' := h.unique.1 hr (.inr (mem_calls hm))
    exact List.mem_map.mpr ⟨_, hm, hc.symm⟩

/-- What a turn calls is in the world or was taken from there. -/
theorem reached_turn {w : World} {work work' : Work} {t : Ticket} {c : Ptr} {stack : List Frame}
    {running : Option (Ticket × Ptr)} (h : work.turn w = some (some (t, c), work')) :
    Reached ⟨w, ⟨work, running⟩ :: stack⟩ c t := by
  cases work with
  | publish topic ahead acc =>
    cases ahead with
    | nil => cases h
    | cons id ids =>
      simp only [Work.turn, Option.some.injEq, Prod.mk.injEq, Option.map_eq_some_iff, fireOne,
        Option.filter_eq_some_iff] at h
      obtain ⟨⟨sub, ⟨hl, _⟩, rfl, rfl⟩, _⟩ := h
      exact .inl (.sub hl)
  | call ahead status =>
    cases ahead with
    | none => cases h
    | some p =>
      cases h
      exact .inr (.called (.head _) rfl)
  | execute ahead =>
    cases ahead with
    | nil => cases h
    | cons e es =>
      simp only [Work.turn, Option.some.injEq, Prod.mk.injEq, Option.map_eq_some_iff, Commands.Executor.call] at h
      obtain ⟨⟨⟨mod, cb⟩, he, rfl, rfl⟩, _⟩ := h
      split at he
      · next hb =>
        split_ifs at he
        cases he
        exact .inl (.cmd hb)
      · cases he

/-! ## What an operation stores -/

/-- The counters go up, and what is stored was there before or is the new box
under a new ticket. -/
structure Grows (t₀ : Ticket) (w w' : World) : Prop where
  boxed : w.boxed ≤ w'.boxed
  subId : w.bus.gNextSubId ≤ w'.bus.gNextSubId
  svcId : w.services.gNextId ≤ w'.services.gNextId
  stored : ∀ c t, Stored w' c t →
    Stored w c t ∨ c = w.boxed ∧ t = t₀ ∧ w.boxed < w'.boxed ∧ ¬Known w t ∧ Known w' t

theorem Grows.known {t₀ : Ticket} {w w' : World} (h : Grows t₀ w w') {t : Ticket} (hk : Known w t) : Known w' t := by
  cases t with
  | sub id => exact ⟨hk.1, Nat.lt_of_lt_of_le hk.2 h.subId⟩
  | svc id => exact ⟨hk.1, Nat.lt_of_lt_of_le hk.2 h.svcId⟩
  | cmd b user => exact Nat.lt_of_lt_of_le hk h.boxed

theorem lookup_unsubscribe {mod : Option ModId} {subId : Nat} {s : Bus.Tables} {id : Nat} {sub : Bus.Subscription}
    (h : (Bus.api_bus_unsubscribe mod subId s).2.gSubs.lookup id = some sub) : s.gSubs.lookup id = some sub := by
  obtain he | ⟨_, _, _, _, _, he⟩ := Bus.api_bus_unsubscribe_cases mod subId s
  · rwa [he] at h
  · rw [he, Bus.dropSub, AList.lookup_erase_eq] at h
    split at h
    · cases h
    · exact h

theorem gNextSubId_unsubscribe (mod : Option ModId) (subId : Nat) (s : Bus.Tables) :
    (Bus.api_bus_unsubscribe mod subId s).2.gNextSubId = s.gNextSubId := by
  obtain he | ⟨_, _, _, _, _, he⟩ := Bus.api_bus_unsubscribe_cases mod subId s <;> rw [he]
  rfl

theorem gNextId_unregister (mod : Option ModId) (regId : Nat) (s : Services.Registry) :
    (Services.api_service_unregister mod regId s).2.gNextId = s.gNextId := by
  obtain he | ⟨_, _, _, _, _, he⟩ := Services.api_service_unregister_cases mod regId s <;> rw [he]
  rfl

/-- A binding after a registration is an old one, or the claimed one with the new callback. -/
theorem binding_registerOverloads (mod : ModId) (name : String) (overloads : Option (List Commands.Overload))
    (fn user : Ptr) (throwsAt : Option Nat) (s : Commands.Registry) (b : Nat) :
    (Commands.registerOverloads (some mod) name overloads (some fn) user throwsAt s).2.binding b = s.binding b ∨
    Commands.claimed (some mod) name overloads (some fn) s = some b ∧
      (Commands.registerOverloads (some mod) name overloads (some fn) user throwsAt s).2.binding b =
        ⟨some mod, some fn, user⟩ := by
  have h := Commands.registerOverloads_effect (some mod) name overloads (some fn) user throwsAt s
  generalize Commands.claimed (some mod) name overloads (some fn) s = claimed at h ⊢
  generalize Commands.registerOverloads (some mod) name overloads (some fn) user throwsAt s = r at h ⊢
  cases h with
  | refused => exact .inl rfl
  | rebound m fn' b' hm hcb =>
    cases hm
    cases hcb
    simp only [Commands.Registry.binding, List.getD_eq_getElem?_getD, List.getElem?_set]
    split
    · next hbb =>
      split
      · exact .inr ⟨congrArg some hbb, rfl⟩
      · next hb =>
        refine .inl ?_
        rw [List.getElem?_eq_none (by omega)]
    · exact .inl rfl
  | installed m fn' ovls hm hcb =>
    cases hm
    cases hcb
    exact (CommandRuns.binding_append_cases s _ b).imp_right fun h => ⟨congrArg some h.1.symm, h.2⟩
  | thrown m fn' ovls k hm hcb =>
    cases hm
    cases hcb
    exact (CommandRuns.binding_append_cases s _ b).imp_right fun h => ⟨congrArg some h.1.symm, h.2⟩

/-- A sweep empties bindings and fills none. -/
theorem binding_sweep (mod : ModId) (s : Commands.Registry) (b : Nat) :
    (Commands.commandsOnRustModGone mod s).binding b = Commands.emptyBinding ∨
      (Commands.commandsOnRustModGone mod s).binding b = s.binding b := by
  rw [Commands.Registry.binding, Commands.commandsOnRustModGone, Commands.getD_clearBindings]
  split
  · exact .inl rfl
  · exact .inr rfl

/-- Nothing is stored that was not there before. -/
structure Shrinks (w w' : World) : Prop where
  boxed : w.boxed ≤ w'.boxed
  subId : w.bus.gNextSubId ≤ w'.bus.gNextSubId
  svcId : w.services.gNextId ≤ w'.services.gNextId
  sub : ∀ id sub, w'.bus.gSubs.lookup id = some sub → w.bus.gSubs.lookup id = some sub
  svc : ∀ id svc, w'.services.gServices.lookup id = some svc → w.services.gServices.lookup id = some svc
  cmd : ∀ b, w'.commands.binding b = Commands.emptyBinding ∨ w'.commands.binding b = w.commands.binding b
  subscription : w'.subscriptions ⊆ w.subscriptions
  registration : w'.registrations ⊆ w.registrations

theorem Shrinks.refl (w : World) : Shrinks w w :=
  ⟨Nat.le_refl _, Nat.le_refl _, Nat.le_refl _, fun _ _ h => h, fun _ _ h => h, fun _ => .inr rfl,
    List.Subset.refl _, List.Subset.refl _⟩

theorem Shrinks.grows {w w' : World} (h : Shrinks w w') (t₀ : Ticket) : Grows t₀ w w' := by
  refine ⟨h.boxed, h.subId, h.svcId, ?_⟩
  rintro c t (hl | hl | @⟨b, mod, fn, user, hl⟩ | hg | hg)
  · exact .inl (.sub (h.sub _ _ hl))
  · exact .inl (.svc (h.svc _ _ hl))
  · rcases h.cmd b with he | he
    · have hb := he.symm.trans hl
      cases hb
    · exact .inl (.cmd (he.symm.trans hl))
  · exact .inl (.subscription (h.subscription hg))
  · exact .inl (.registration (h.registration hg))

theorem subscribe_grows (w : World) (mod : ModId) (topic : String) (fn : Ptr) (hpos : 0 < w.bus.gNextSubId) :
    Grows (.sub w.bus.gNextSubId) w (w.subscribe mod topic fn).1 := by
  obtain he | ⟨raw, fn', hm, hcb, _, _, he⟩ :=
    Bus.api_bus_subscribe_cases w.alive (some mod) topic (some fn) w.boxed w.bus
  · simp only [World.subscribe, he, ↓reduceIte]
    have hsh : Shrinks w { w with boxed := w.boxed + 1 } := { Shrinks.refl w with boxed := Nat.le_succ _ }
    exact hsh.grows _
  · cases hm
    cases hcb
    have hnew : ¬Known w (.sub w.bus.gNextSubId) := fun h => Nat.lt_irrefl _ h.2
    simp only [World.subscribe, he, if_neg (Nat.ne_of_gt hpos)]
    refine ⟨Nat.le_succ _, Nat.le_succ _, Nat.le_refl _, ?_⟩
    rintro c t (@⟨id, sub, hl⟩ | hl | hl | hg | hg)
    · simp only [Bus.addSub, AList.lookup_insert_eq] at hl
      split at hl
      · next hid =>
        cases hl
        subst hid
        exact .inr ⟨rfl, rfl, Nat.lt_succ_self _, hnew, hpos, Nat.lt_succ_self _⟩
      · exact .inl (.sub hl)
    · exact .inl (.svc hl)
    · exact .inl (.cmd hl)
    · rcases List.mem_cons.mp hg with rfl | hg
      · exact .inr ⟨rfl, rfl, Nat.lt_succ_self _, hnew, hpos, Nat.lt_succ_self _⟩
      · exact .inl (.subscription hg)
    · exact .inl (.registration hg)

theorem register_grows (w : World) (mod : ModId) (name : String) (fn : Ptr) (hpos : 0 < w.services.gNextId) :
    Grows (.svc w.services.gNextId) w (w.register mod name fn).1 := by
  obtain ⟨next, hnext, he⟩ | ⟨m, fn', hm, hcb, _, _, _, he⟩ :=
    Services.api_service_register_cases w.alive (some mod) name (some fn) w.boxed w.services
  · simp only [World.register, he, ↓reduceIte]
    have hsh : Shrinks w { w with services := { w.services with gNextId := next }, boxed := w.boxed + 1 } :=
      { Shrinks.refl w with boxed := Nat.le_succ _, svcId := hnext }
    exact hsh.grows _
  · cases hm
    cases hcb
    have hnew : ¬Known w (.svc w.services.gNextId) := fun h => Nat.lt_irrefl _ h.2
    simp only [World.register, he, if_neg (Nat.ne_of_gt hpos)]
    refine ⟨Nat.le_succ _, Nat.le_refl _, Nat.le_succ _, ?_⟩
    rintro c t (hl | @⟨id, svc, hl⟩ | hl | hg | hg)
    · exact .inl (.sub hl)
    · simp only [Services.addService, AList.lookup_insert_eq] at hl
      split at hl
      · next hid =>
        cases hl
        subst hid
        exact .inr ⟨rfl, rfl, Nat.lt_succ_self _, hnew, hpos, Nat.lt_succ_self _⟩
      · exact .inl (.svc hl)
    · exact .inl (.cmd hl)
    · exact .inl (.subscription hg)
    · rcases List.mem_cons.mp hg with rfl | hg
      · exact .inr ⟨rfl, rfl, Nat.lt_succ_self _, hnew, hpos, Nat.lt_succ_self _⟩
      · exact .inl (.registration hg)

theorem registerCommand_grows (w : World) (mod : ModId) (name : String) (fn : Ptr)
    (overloads : Option (List Commands.Overload)) (throwsAt : Option Nat) :
    ∃ b₀, Grows (.cmd b₀ w.boxed) w (w.registerCommand mod name fn overloads throwsAt).1 := by
  have hnew : ∀ b, ¬Known w (.cmd b w.boxed) := fun _ => Nat.lt_irrefl _
  refine ⟨(Commands.claimed (some mod) name overloads (some fn) w.commands).getD 0, Nat.le_succ _, Nat.le_refl _,
    Nat.le_refl _, ?_⟩
  rintro c t (hl | hl | @⟨b, mod', fn', user, hl⟩ | hg | hg)
  · exact .inl (.sub hl)
  · exact .inl (.svc hl)
  · rcases binding_registerOverloads mod name overloads fn w.boxed throwsAt w.commands b with he | ⟨hclaimed, he⟩
    · exact .inl (.cmd (he.symm.trans hl))
    · have hb := he.symm.trans hl
      cases hb
      exact .inr ⟨rfl, by rw [hclaimed, Option.getD_some], Nat.lt_succ_self _, hnew b, Nat.lt_succ_self _⟩
  · exact .inl (.subscription hg)
  · exact .inl (.registration hg)

theorem dropSubscription_shrinks (w : World) (g : Guard) : Shrinks w (w.dropSubscription g).1 := by
  unfold World.dropSubscription
  split
  · exact { Shrinks.refl w with subscription := List.erase_subset }
  · exact { Shrinks.refl w with
      subId := Nat.le_of_eq (gNextSubId_unsubscribe _ _ _).symm
      sub := fun _ _ => lookup_unsubscribe
      subscription := List.erase_subset }

theorem dropRegistration_shrinks (w : World) (g : Guard) : Shrinks w (w.dropRegistration g).1 := by
  unfold World.dropRegistration
  split
  · exact { Shrinks.refl w with registration := List.erase_subset }
  · exact { Shrinks.refl w with
      svcId := Nat.le_of_eq (gNextId_unregister _ _ _).symm
      svc := fun _ _ => Services.lookup_unregister
      registration := List.erase_subset }

theorem modGone_shrinks (w : World) (mod : ModId) : Shrinks w ((Op.modGone mod).apply w).1 :=
  { Shrinks.refl w with
    subId := Nat.le_of_eq (Bus.gNextSubId_busOnRustModGone _ _).symm
    svcId := Nat.le_of_eq (Services.gNextId_servicesOnRustModGone _ _).symm
    sub := by
      intro id sub hl
      have hl' := (Bus.lookup_busOnRustModGone mod w.bus id).symm.trans hl
      exact (Option.filter_eq_some_iff.mp hl').1
    svc := fun id svc hl => ((Services.lookup_servicesOnRustModGone mod w.services id svc).mp hl).1
    cmd := binding_sweep mod w.commands }

theorem apply_grows (w : World) (o : Op) (hs : 0 < w.bus.gNextSubId) (hv : 0 < w.services.gNextId) :
    ∃ t₀, Grows t₀ w (o.apply w).1 := by
  have hshrinks : Shrinks w (o.apply w).1 → ∃ t₀, Grows t₀ w (o.apply w).1 := fun h => ⟨.cmd 0 0, h.grows _⟩
  cases o with
  | subscribe mod topic fn => exact ⟨_, subscribe_grows w mod topic fn hs⟩
  | register mod name fn => exact ⟨_, register_grows w mod name fn hv⟩
  | registerCommand mod name fn overloads throwsAt =>
    obtain ⟨b₀, h⟩ := registerCommand_grows w mod name fn overloads throwsAt
    exact ⟨_, h⟩
  | dropSubscription g => exact hshrinks (dropSubscription_shrinks w g)
  | forgetSubscription g => exact hshrinks { Shrinks.refl w with subscription := List.erase_subset }
  | dropRegistration g => exact hshrinks (dropRegistration_shrinks w g)
  | forgetRegistration g => exact hshrinks { Shrinks.refl w with registration := List.erase_subset }
  | modGone mod => exact hshrinks (modGone_shrinks w mod)
  | setMods alive enabled muted levelReady => exact hshrinks { Shrinks.refl w with }

/-! ## Every step -/

theorem OneToOne.grows {w w' : World} {stack stack' : List Frame} {t₀ : Ticket} (h : OneToOne ⟨w, stack⟩)
    (hw : Grows t₀ w w') (hst : ∀ c t, OnStack stack' c t → Reached ⟨w, stack⟩ c t) : OneToOne ⟨w', stack'⟩ := by
  have hcases : ∀ c t, Reached ⟨w', stack'⟩ c t → Reached ⟨w, stack⟩ c t ∨
      c = w.boxed ∧ t = t₀ ∧ w.boxed < w'.boxed ∧ ¬Known w t ∧ Known w' t := by
    rintro c t (hc | hc)
    · exact (hw.stored c t hc).imp_left .inl
    · exact .inl (hst c t hc)
  refine ⟨⟨?_, ?_⟩, ?_, Nat.lt_of_lt_of_le h.subId hw.subId, Nat.lt_of_lt_of_le h.svcId hw.svcId⟩
  · intro c c' t hc hc'
    rcases hcases c t hc with hold | ⟨rfl, _, _, hnew, _⟩ <;> rcases hcases c' t hc' with hold' | ⟨rfl, _, _, hnew', _⟩
    · exact h.unique.1 hold hold'
    · exact absurd (h.known _ _ hold).2 hnew'
    · exact absurd (h.known _ _ hold').2 hnew
    · rfl
  · intro c t t' hc hc'
    rcases hcases c t hc with hold | ⟨he, ht, _⟩ <;> rcases hcases c t' hc' with hold' | ⟨he', ht', _⟩
    · exact h.unique.2 hold hold'
    · exact absurd he' (Nat.ne_of_lt (h.known _ _ hold).1)
    · exact absurd he (Nat.ne_of_lt (h.known _ _ hold').1)
    · exact ht.trans ht'.symm
  · intro c t hc
    rcases hcases c t hc with hold | ⟨rfl, _, hlt, _, hk⟩
    · exact ⟨Nat.lt_of_lt_of_le (h.known _ _ hold).1 hw.boxed, hw.known (h.known _ _ hold).2⟩
    · exact ⟨hlt, hk⟩

theorem onStack_cons {f : Frame} {stack : List Frame} {c : Ptr} {t : Ticket} (h : OnStack (f :: stack) c t) :
    OnStack [f] c t ∨ OnStack stack c t := by
  cases h with
  | running hf hr =>
    rcases List.mem_cons.mp hf with rfl | hf
    · exact .inl (.running (.head _) hr)
    · exact .inr (.running hf hr)
  | called hf hw =>
    rcases List.mem_cons.mp hf with rfl | hf
    · exact .inl (.called (.head _) hw)
    · exact .inr (.called hf hw)

theorem OnStack.push {f : Frame} {stack : List Frame} {c : Ptr} {t : Ticket} (h : OnStack stack c t) :
    OnStack (f :: stack) c t := by
  cases h with
  | running hf hr => exact .running (List.mem_cons_of_mem _ hf) hr
  | called hf hw => exact .called (List.mem_cons_of_mem _ hf) hw

/-- Only the top frame changes; what it adds was reached before. -/
theorem onStack_top {w : World} {f f' : Frame} {stack : List Frame}
    (hf : ∀ c t, OnStack [f'] c t → Reached ⟨w, f :: stack⟩ c t) (c : Ptr) (t : Ticket)
    (h : OnStack (f' :: stack) c t) : Reached ⟨w, f :: stack⟩ c t := by
  rcases onStack_cons h with h | h
  · exact hf c t h
  · exact .inr h.push

/-- A request calls what the registry has. -/
theorem stored_work {w : World} {r : Request} {work : Work} (hr : r.work w = some work) {c : Ptr} {t : Ticket}
    (h : OnStack [⟨work, none⟩] c t) : Stored w c t := by
  cases h with
  | running hf hr =>
    cases List.mem_singleton.mp hf
    cases hr
  | called hf hw =>
    cases List.mem_singleton.mp hf
    dsimp only at hw
    subst hw
    cases r with
    | publish publisher topic =>
      simp only [Request.work] at hr
      split_ifs at hr
      cases hr
    | call caller name =>
      simp only [Request.work] at hr
      split at hr
      · next hp =>
        cases hr
        exact .svc (Services.provider_ok hp).2.2.1
      · cases hr
    | execute executors =>
      simp only [Request.work] at hr
      split_ifs at hr
      cases hr

/-- Once its turn has come, a provider is not called again. -/
theorem turn_called {w : World} {work : Work} {next : Option (Ticket × Ptr)} {p : Nat × Services.Service}
    {status : Services.Status} : work.turn w ≠ some (next, .call (some p) status) := by
  intro h
  cases work with
  | publish topic ahead acc => cases ahead <;> cases h
  | call ahead status => cases ahead <;> cases h
  | execute ahead => cases ahead <;> cases h

/-- After its turn a frame has nothing but what it runs. -/
theorem OnStack.after_turn {w : World} {work work' : Work} {next running : Option (Ticket × Ptr)} {c : Ptr} {t : Ticket}
    (h : OnStack [⟨work', running⟩] c t) (ht : work.turn w = some (next, work')) : running = some (t, c) := by
  cases h with
  | running hf hr =>
    cases List.mem_singleton.mp hf
    exact hr
  | called hf hw =>
    cases List.mem_singleton.mp hf
    cases hw
    exact absurd ht turn_called

theorem shrinks_opened (w : World) (work : Work) : Shrinks w (work.opened w) := by
  cases work <;> exact { Shrinks.refl w with }

theorem shrinks_closed (w : World) (work : Work) : Shrinks w (work.closed w) := by
  cases work <;> exact { Shrinks.refl w with }

/-- The step lemma. -/
theorem OneToOne.step {s s' : State} {l : Label} (h : OneToOne s) (hs : Step s l s') : OneToOne s' := by
  cases hs with
  | @begin w stack r work _ hr =>
    refine h.grows ((shrinks_opened w work).grows (.cmd 0 0)) fun c t hc => ?_
    rcases onStack_cons hc with hc | hc
    · exact .inl (stored_work hr hc)
    · exact .inr hc
  | refuse => exact h
  | op =>
    obtain ⟨t₀, hg⟩ := apply_grows _ _ h.subId h.svcId
    exact h.grows hg fun c t hc => .inr hc
  | @enter w stack work work' t₁ c₁ ht =>
    refine h.grows ((Shrinks.refl w).grows (.cmd 0 0)) (onStack_top fun c t hc => ?_)
    cases hc.after_turn ht
    exact reached_turn ht
  | @skip w stack work work' ht =>
    refine h.grows ((Shrinks.refl w).grows (.cmd 0 0)) (onStack_top fun c t hc => ?_)
    cases hc.after_turn ht
  | @leave w stack work call reply =>
    refine h.grows ((Shrinks.refl w).grows (.cmd 0 0)) (onStack_top fun c t hc => ?_)
    cases hc with
    | running hf hr =>
      cases List.mem_singleton.mp hf
      cases hr
    | called hf hw =>
      cases List.mem_singleton.mp hf
      cases work with
      | call ahead status =>
        cases hw
        exact .inr (.called (.head _) rfl)
      | publish => cases hw
      | execute => cases hw
  | @finish w stack work ht =>
    exact h.grows ((shrinks_closed w work).grows (.cmd 0 0)) fun c t hc => .inr hc.push

theorem oneToOne_start (alive enabled muted : ModId → Bool) (levelReady : Bool) :
    OneToOne (start alive enabled muted levelReady) := by
  have hnone : ∀ c t, ¬Reached (start alive enabled muted levelReady) c t := by
    rintro c t ((hl | hl | hl | hg | hg) | (⟨hf, _⟩ | ⟨hf, _⟩))
    · simp [start, Bus.Tables.initial] at hl
    · simp [start, Services.Registry.initial] at hl
    · simp [start, Commands.Registry.initial, Commands.Registry.binding, Commands.emptyBinding] at hl
    · cases hg
    · cases hg
    · cases hf
    · cases hf
  exact ⟨⟨fun _ _ _ h => absurd h (hnone _ _), fun _ _ _ h => absurd h (hnone _ _)⟩,
    fun _ _ h => absurd h (hnone _ _), Nat.one_pos, Nat.one_pos⟩

/-! ## What a step enters and frees -/

theorem mem_freed_dropSubscription {w : World} {g : Guard} {c : Ptr} :
    c ∈ (w.dropSubscription g).2 ↔
      c = g.cb ∧ g.id ≠ 0 ∧ ∃ sub, w.bus.gSubs.lookup g.id = some sub ∧ sub.mod = g.mod := by
  unfold World.dropSubscription
  split
  · next hid => simp [hid]
  · next hid =>
    obtain he | ⟨raw, sub, hm, hl, hmod, he⟩ := Bus.api_bus_unsubscribe_cases (some g.mod) g.id w.bus
    · simp only [he, Bool.false_eq_true, ↓reduceIte, List.not_mem_nil, false_iff]
      rintro ⟨_, _, sub, hl, hmod⟩
      simp [Bus.api_bus_unsubscribe, hid, hl, hmod] at he
    · cases hm
      simp [he, hid, hl, hmod]

theorem mem_freed_dropRegistration {w : World} {g : Guard} {c : Ptr} :
    c ∈ (w.dropRegistration g).2 ↔
      c = g.cb ∧ g.id ≠ 0 ∧ ∃ svc, w.services.gServices.lookup g.id = some svc ∧ svc.mod = g.mod := by
  unfold World.dropRegistration
  split
  · next hid => simp [hid]
  · next hid =>
    obtain he | ⟨m, svc, hm, hl, hmod, he⟩ := Services.api_service_unregister_cases (some g.mod) g.id w.services
    · simp only [he, Bool.false_eq_true, ↓reduceIte, List.not_mem_nil, false_iff]
      rintro ⟨_, _, svc, hl, hmod⟩
      simp [Services.api_service_unregister, hid, hl, hmod] at he
    · cases hm
      simp [he, hid, hl, hmod]

/-- A refused registration frees the box it has just made. -/
theorem freed_fresh {w : World} {c : Ptr} {o : Op} (hc : c ∈ (o.apply w).2) :
    c = w.boxed ∨ (∃ g, o = .dropSubscription g) ∨ ∃ g, o = .dropRegistration g := by
  cases o with
  | subscribe mod topic fn =>
    simp only [Op.apply, World.subscribe] at hc
    split at hc
    · exact .inl (List.mem_singleton.mp hc)
    · cases hc
  | register mod name fn =>
    simp only [Op.apply, World.register] at hc
    split at hc
    · exact .inl (List.mem_singleton.mp hc)
    · cases hc
  | registerCommand mod name fn overloads throwsAt =>
    simp only [Op.apply, World.registerCommand] at hc
    split at hc
    · cases hc
    · exact .inl (List.mem_singleton.mp hc)
  | dropSubscription g => exact .inr (.inl ⟨g, rfl⟩)
  | dropRegistration g => exact .inr (.inr ⟨g, rfl⟩)
  | forgetSubscription => cases hc
  | forgetRegistration => cases hc
  | modGone => cases hc
  | setMods => cases hc

/-- A running closure has been boxed. -/
theorem OneToOne.running_lt {s : State} (h : OneToOne s) {c : Ptr} (hc : c ∈ (calls s.stack).map Prod.snd) :
    c < s.world.boxed := by
  obtain ⟨⟨t, c⟩, hm, rfl⟩ := List.mem_map.mp hc
  exact (h.known _ _ (.inr (mem_calls hm))).1

/-- An operation that frees the closure of a ticket, under a condition. -/
theorem exclusive_drop {s : State} {o : Op} {t : Ticket} {c₀ : Ptr} {p : Prop} (h : OneToOne s) (hr : Reached s c₀ t)
    (hfreed : ∀ c, c ∈ (o.apply s.world).2 ↔ c = c₀ ∧ p) : Exclusive s (.op o) ↔ (p → ¬InProgress s t) := by
  constructor
  · rintro ⟨_, hx⟩ hp ht
    exact hx o rfl c₀ ((hfreed c₀).mpr ⟨rfl, hp⟩) ((h.running_iff hr).mpr ht)
  · intro hclear
    refine ⟨fun _ _ he => (nomatch he), fun o' ho c hc hrun => ?_⟩
    cases ho
    obtain ⟨rfl, hp⟩ := (hfreed c).mp hc
    exact hclear hp ((h.running_iff hr).mp hrun)

theorem exclusive_dropSubscription {s : State} {g : Guard} (h : OneToOne s) (hg : g ∈ s.world.subscriptions) :
    Exclusive s (.op (.dropSubscription g)) ↔ Clear s (.op (.dropSubscription g)) := by
  have hr : Reached s g.cb (.sub g.id) := .inl (.subscription hg)
  have hid : g.id ≠ 0 := Nat.ne_of_gt (h.known _ _ hr).2.1
  refine exclusive_drop h hr fun c => ?_
  rw [Op.apply, mem_freed_dropSubscription]
  simp [hid]

theorem exclusive_dropRegistration {s : State} {g : Guard} (h : OneToOne s) (hg : g ∈ s.world.registrations) :
    Exclusive s (.op (.dropRegistration g)) ↔ Clear s (.op (.dropRegistration g)) := by
  have hr : Reached s g.cb (.svc g.id) := .inl (.registration hg)
  have hid : g.id ≠ 0 := Nat.ne_of_gt (h.known _ _ hr).2.1
  refine exclusive_drop h hr fun c => ?_
  rw [Op.apply, mem_freed_dropRegistration]
  simp [hid]

theorem exclusive_enter {s : State} {t : Ticket} {c : Ptr} (h : OneToOne s) (hr : Reached s c t) :
    Exclusive s (.enter t c) ↔ Clear s (.enter t c) := by
  constructor
  · intro ⟨hentered, _⟩ ht
    exact hentered t c rfl ((h.running_iff hr).mpr ht)
  · intro hclear
    refine ⟨fun t' c' he hc => ?_, fun _ he => (nomatch he)⟩
    cases he
    exact hclear ((h.running_iff hr).mp hc)

/-- A step that enters and frees nothing. -/
theorem exclusive_quiet {s : State} {l : Label} (henter : ∀ t c, l ≠ .enter t c)
    (hop : ∀ o, l = .op o → ∀ c ∈ (o.apply s.world).2, c ∉ (calls s.stack).map Prod.snd) (hclear : Clear s l) :
    Exclusive s l ↔ Clear s l :=
  ⟨fun _ => hclear, fun _ => ⟨fun t c he => absurd he (henter t c), hop⟩⟩

/-- One step is exclusive exactly when it is clear. -/
theorem exclusive_step {s s' : State} {l : Label} (h : OneToOne s) (hs : Step s l s') :
    Exclusive s l ↔ Clear s l := by
  cases hs with
  | @op w stack o _ ho =>
    cases o with
    | dropSubscription g => exact exclusive_dropSubscription h ho
    | dropRegistration g => exact exclusive_dropRegistration h ho
    | _ =>
      refine exclusive_quiet (by simp) ?_ trivial
      intro o he c hc hrun
      cases he
      obtain rfl | ⟨g, hg⟩ | ⟨g, hg⟩ := freed_fresh hc
      · exact Nat.lt_irrefl _ (h.running_lt hrun)
      · cases hg
      · cases hg
  | enter ht => exact exclusive_enter h (reached_turn ht)
  | begin => exact exclusive_quiet (by simp) (by simp) trivial
  | refuse => exact exclusive_quiet (by simp) (by simp) trivial
  | skip => exact exclusive_quiet (by simp) (by simp) trivial
  | leave => exact exclusive_quiet (by simp) (by simp) trivial
  | finish => exact exclusive_quiet (by simp) (by simp) trivial

/-! ## Handlers in order -/

/-- Where the handler in control is registered. -/
def inControl : List Frame → Option Place
  | [] => none
  | f :: _ => f.place

section InOrder

variable {α : Type*} [Preorder α]

/-- A handler requests only what ranks above it, and drops neither its own
guard nor, while the table has it, that of a handler ranked below it. -/
def InOrder (rank : Place → α) (s : State) : Label → Prop
  | .begin r => ∀ p ∈ inControl s.stack, ∀ q, r.Reaches s.world q → rank p < rank q
  | .op (.dropSubscription g) =>
    (∃ sub, s.world.bus.gSubs.lookup g.id = some sub ∧ sub.mod = g.mod) →
      ∀ p ∈ inControl s.stack, ¬rank (.subscription g.id) ≤ rank p
  | .op (.dropRegistration g) =>
    (∃ svc, s.world.services.gServices.lookup g.id = some svc ∧ svc.mod = g.mod) →
      ∀ p ∈ inControl s.stack, ¬rank (.registration g.id) ≤ rank p
  | _ => True

/-- What a frame runs or will call ranks above all that runs below it. -/
def Ranked (rank : Place → α) (stack : List Frame) : Prop :=
  stack.Pairwise fun f g => ∀ q ∈ f.places, ∀ p ∈ g.place, rank p < rank q

variable {rank : Place → α}

theorem exists_frame {s : State} {t : Ticket} (h : InProgress s t) : ∃ f ∈ s.stack, f.place = some t.place := by
  obtain ⟨⟨t, c⟩, hm, rfl⟩ := List.mem_map.mp h
  obtain ⟨f, hf, hr⟩ := List.mem_filterMap.mp hm
  exact ⟨f, hf, by rw [Frame.place, hr, Option.map_some]⟩

theorem Ranked.top {f f' : Frame} {stack : List Frame} (h : Ranked rank (f :: stack)) (hf : f'.places ⊆ f.places) :
    Ranked rank (f' :: stack) := by
  obtain ⟨hbelow, hrest⟩ := List.pairwise_cons.mp h
  exact List.pairwise_cons.mpr ⟨fun g hg q hq => hbelow g hg q (hf hq), hrest⟩

/-- The handler in control ranks above all that run below it. -/
theorem Ranked.control {f : Frame} {stack : List Frame} (h : Ranked rank (f :: stack)) (hm : InMod (f :: stack)) :
    ∃ p, f.place = some p ∧ ∀ g ∈ stack, ∀ q ∈ g.place, rank q < rank p := by
  obtain ⟨call, hcall⟩ := Option.isSome_iff_exists.mp hm
  have hf : f.place = some call.1.place := by rw [Frame.place, hcall, Option.map_some]
  have hmem : call.1.place ∈ f.places := List.mem_append_left _ (by rw [hf]; exact .head _)
  exact ⟨_, hf, fun g hg => (List.pairwise_cons.mp h).1 g hg _ hmem⟩

/-- What ranks above the handler in control ranks above all that are running. -/
theorem Ranked.above {stack : List Frame} (h : Ranked rank stack) (hm : InMod stack) {a : α}
    (ha : ∀ p ∈ inControl stack, rank p < a) : ∀ g ∈ stack, ∀ p ∈ g.place, rank p < a := by
  cases stack with
  | nil => exact fun g hg => nomatch hg
  | cons f stack =>
    obtain ⟨p, hf, hbelow⟩ := h.control hm
    intro g hg q hq
    rcases List.mem_cons.mp hg with rfl | hg
    · exact ha q hq
    · exact lt_trans (hbelow g hg q hq) (ha p hf)

/-- A handler in progress ranks no higher than the one in control. -/
theorem Ranked.le_inControl {s : State} (h : Ranked rank s.stack) (hm : InMod s.stack) {t : Ticket}
    (ht : InProgress s t) : ∃ p ∈ inControl s.stack, rank t.place ≤ rank p := by
  obtain ⟨g, hg, hp⟩ := exists_frame ht
  obtain ⟨w, stack⟩ := s
  cases stack with
  | nil => cases hg
  | cons f stack =>
    obtain ⟨p, hf, hbelow⟩ := h.control hm
    rcases List.mem_cons.mp hg with rfl | hg
    · exact ⟨_, hp, le_refl _⟩
    · exact ⟨p, hf, le_of_lt (hbelow g hg _ hp)⟩

/-- A step in order keeps the stack ranked. -/
theorem Ranked.step {s s' : State} {l : Label} (h : Ranked rank s.stack) (ho : InOrder rank s l) (hs : Step s l s') :
    Ranked rank s'.stack := by
  cases hs with
  | begin hm hr =>
    refine List.pairwise_cons.mpr ⟨fun g hg q hq => ?_, h⟩
    exact h.above hm (fun p hp => ho p hp q (reaches_work hr hq)) g hg
  | refuse => exact h
  | op => exact h
  | enter ht => exact h.top fun _ hq => places_turn ht hq
  | skip ht => exact h.top fun _ hq => places_turn ht hq
  | @leave w stack work call reply =>
    refine h.top fun q hq => List.mem_append_right _ ?_
    cases work with
    | publish => exact hq
    | call => exact hq
    | execute => exact hq
  | finish => exact (List.pairwise_cons.mp h).2

/-- On a ranked stack a step in order is clear. -/
theorem Ranked.clear {s s' : State} {l : Label} (h : Ranked rank s.stack) (ho : InOrder rank s l) (hs : Step s l s') :
    Clear s l := by
  cases hs with
  | @enter w stack work work' t c ht =>
    intro hprogress
    obtain ⟨g, hg, hp⟩ := exists_frame hprogress
    rcases List.mem_cons.mp hg with rfl | hg
    · cases hp
    · have hq : t.place ∈ Frame.places ⟨work, none⟩ := places_turn ht (List.mem_append_left _ (.head _))
      exact lt_irrefl _ ((List.pairwise_cons.mp h).1 g hg _ hq _ hp)
  | @op w stack o hm _ =>
    cases o with
    | dropSubscription g =>
      intro hlisted hprogress
      obtain ⟨p, hp, hle⟩ := h.le_inControl hm hprogress
      exact ho hlisted p hp hle
    | dropRegistration g =>
      intro hlisted hprogress
      obtain ⟨p, hp, hle⟩ := h.le_inControl hm hprogress
      exact ho hlisted p hp hle
    | _ => trivial
  | begin => trivial
  | refuse => trivial
  | skip => trivial
  | leave => trivial
  | finish => trivial

/-- Where the handlers have a rank that what they request and drop respects, no
closure is entered or freed while it is running. -/
theorem exclusive_of_inOrder {alive enabled muted : ModId → Bool} {levelReady : Bool} {tr : List (State × Label)}
    {u : State} (rank : Place → α) (h : Run Step (start alive enabled muted levelReady) tr u)
    (horder : Meets (InOrder rank) tr) : Meets Exclusive tr := by
  refine h.forall_entries (fun s => OneToOne s ∧ Ranked rank s.stack) Exclusive horder
    ⟨oneToOne_start _ _ _ _, .nil⟩ ?_ ?_
  · intro s l s' ⟨hone, hranked⟩ ho hs
    exact ⟨hone.step hs, hranked.step ho hs⟩
  · intro s l s' ⟨hone, hranked⟩ ho hs
    exact (exclusive_step hone hs).mpr (hranked.clear ho hs)

end InOrder

/-! ## A cycle through two mods -/

def quiet : State := start BusDispatch.everyone BusDispatch.everyone (fun _ => false) true

/-- Mod 1 listens on one topic, mod 2 on another. -/
def listening : World := ((Op.subscribe 2 "b" 10).apply ((Op.subscribe 1 "a" 10).apply quiet.world).1).1

def deeper (w : World) : World := { w with busDepth := w.busDepth + 1 }

/-- A handler running in a publish with nobody else to call. -/
def inHandler (topic : String) (id : Nat) (closure : Ptr) : Frame :=
  ⟨.publish topic [] ⟨0, false⟩, some (.sub id, closure)⟩

theorem publish_step (w : World) (stack : List Frame) (publisher : Option ModId) (topic : String) {ids : List Nat}
    (hm : InMod stack) (hw : (Request.publish publisher topic).work w = some (.publish topic ids ⟨0, false⟩)) :
    Step ⟨w, stack⟩ (.begin (.publish publisher topic)) ⟨deeper w, ⟨.publish topic ids ⟨0, false⟩, none⟩ :: stack⟩ :=
  .begin hm hw

theorem enter_step (w : World) (stack : List Frame) (topic : String) (id : Nat) (closure : Ptr)
    (hf : (fireOne w id).map (fun sub => sub.cb.user) = some closure) :
    Step ⟨w, ⟨.publish topic [id] ⟨0, false⟩, none⟩ :: stack⟩ (.enter (.sub id) closure)
      ⟨w, inHandler topic id closure :: stack⟩ := by
  refine .enter ?_
  obtain ⟨sub, hs, rfl⟩ := Option.map_eq_some_iff.mp hf
  simp [Work.turn, hs]

/-- Mod 2 publishes to mod 1. -/
theorem first_call : Run Step quiet
    [(quiet, .op (.subscribe 1 "a" 10)),
      (⟨((Op.subscribe 1 "a" 10).apply quiet.world).1, []⟩, .op (.subscribe 2 "b" 10)),
      (⟨listening, []⟩, .begin (.publish (some 2) "a")),
      (⟨deeper listening, [⟨.publish "a" [1] ⟨0, false⟩, none⟩]⟩, .enter (.sub 1) 0)]
    ⟨deeper listening, [inHandler "a" 1 0]⟩ :=
  .cons (.op trivial trivial) <| .cons (.op trivial trivial) <| .cons (publish_step _ _ _ _ trivial rfl) <|
    .single (enter_step _ _ _ _ _ rfl)

/-- Mod 1's handler publishes to mod 2. -/
theorem second_call : Run Step ⟨deeper listening, [inHandler "a" 1 0]⟩
    [(⟨deeper listening, [inHandler "a" 1 0]⟩, .begin (.publish (some 1) "b")),
      (⟨deeper (deeper listening), [⟨.publish "b" [2] ⟨0, false⟩, none⟩, inHandler "a" 1 0]⟩, .enter (.sub 2) 1)]
    ⟨deeper (deeper listening), [inHandler "b" 2 1, inHandler "a" 1 0]⟩ :=
  .cons (publish_step _ _ _ _ rfl rfl) <| .single (enter_step _ _ _ _ _ rfl)

/-- Mod 2's handler publishes back. -/
theorem third_call : Reachable Step quiet
    ⟨deeper (deeper (deeper listening)),
      [⟨.publish "a" [1] ⟨0, false⟩, none⟩, inHandler "b" 2 1, inHandler "a" 1 0]⟩ :=
  Reachable.tail ⟨_, first_call.append second_call⟩ (publish_step _ _ (some 2) "a" rfl rfl)

/-- As long as nothing is published back, the later subscription ranks higher. -/
def subscribedLater : Place → Nat
  | .subscription id => id
  | _ => 0

theorem second_call_inOrder :
    InOrder subscribedLater ⟨deeper listening, [inHandler "a" 1 0]⟩ (.begin (.publish (some 1) "b")) := by
  intro p hp q hq
  cases Option.some.inj hp
  cases hq with
  | @subscriber _ _ id _ hlisted =>
    have htwo : id ∈ [2] := hlisted
    rw [List.mem_singleton.mp htwo]
    exact Nat.one_lt_two

/-- Two handlers nested, each running once. -/
theorem second_call_exclusive : ∃ tr, Run Step quiet tr
    ⟨deeper (deeper listening), [inHandler "b" 2 1, inHandler "a" 1 0]⟩ ∧ Meets Exclusive tr := by
  have hrun := first_call.append second_call
  refine ⟨_, hrun, exclusive_of_inOrder subscribedLater hrun ?_⟩
  simp only [meets_append, meets_cons, meets_nil, and_true]
  refine ⟨⟨trivial, trivial, ?_, trivial⟩, second_call_inOrder, trivial⟩
  intro p hp
  cases hp

/-- The third publish enters the first handler again, and a handler that drops
its own subscription frees itself. -/
theorem cycle_reenters_and_drop_frees :
    ¬(∀ alive enabled muted levelReady tr u, Run Step (start alive enabled muted levelReady) tr u →
      ∀ e ∈ tr, ∀ t c, e.2 = .enter t c → c ∉ (calls e.1.stack).map Prod.snd) ∧
    ¬(∀ alive enabled muted levelReady tr u, Run Step (start alive enabled muted levelReady) tr u →
      ∀ e ∈ tr, ∀ o, e.2 = .op o → ∀ c ∈ (o.apply e.1.world).2, c ∉ (calls e.1.stack).map Prod.snd) := by
  constructor
  · intro h
    obtain ⟨tr, hr⟩ := third_call
    have hstep := enter_step (deeper (deeper (deeper listening))) [inHandler "b" 2 1, inHandler "a" 1 0] "a" 1 0 rfl
    exact h _ _ _ _ _ _ (hr.append (.single hstep)) _ (List.mem_append_right _ (.head _)) _ _ rfl (by decide)
  · intro h
    have hr := first_call
    have hheld : (Op.dropSubscription ⟨1, 1, 0⟩).Held (deeper listening) := List.mem_of_elem_eq_true rfl
    have hstep : Step ⟨deeper listening, [inHandler "a" 1 0]⟩ (.op (.dropSubscription ⟨1, 1, 0⟩)) _ := .op rfl hheld
    exact h _ _ _ _ _ _ (hr.append (.single hstep)) _ (List.mem_append_right _ (.head _)) _ rfl 0 (by decide)
      (by decide)

end HandlerRuns
