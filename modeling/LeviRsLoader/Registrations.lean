import LeviRsLoader.Loader

/-!
# What a call can enter

For every call: an entry that is a mod's afterwards was the mod's before, or
is the one the call's answer names. The converse holds too, so the answers
tell exactly what has been entered.
-/
namespace Loader

open LeviRs

variable {env : Env} {s : State} {m : ModId} {e : Entry} {o : Option ModId} {fns : List Ptr}

/-! ## A change of one registry leaves the entries of the others -/

theorem State.Has.of_scheduler {x : Scheduler.Registry} (h : { s with scheduler := x }.Has env e o fns) :
    (∃ id, e = .task id) ∨ s.Has env e o fns := by
  cases e <;> first | exact .inr h | exact .inl ⟨_, rfl⟩

theorem State.Has.of_bus {x : Bus.Tables} (h : { s with bus := x }.Has env e o fns) :
    (∃ id, e = .sub id) ∨ s.Has env e o fns := by
  cases e <;> first | exact .inr h | exact .inl ⟨_, rfl⟩

theorem State.Has.of_services {x : Services.Registry} (h : { s with services := x }.Has env e o fns) :
    (∃ id, e = .service id) ∨ s.Has env e o fns := by
  cases e <;> first | exact .inr h | exact .inl ⟨_, rfl⟩

theorem State.Has.of_lane {x : Lane.Lanes} (h : { s with lane := x }.Has env e o fns) :
    (∃ id, e = .lane id ∨ e = .lease id) ∨ s.Has env e o fns := by
  cases e <;> first | exact .inr h | exact .inl ⟨_, .inl rfl⟩ | exact .inl ⟨_, .inr rfl⟩

theorem State.Has.of_commands {x : Commands.Registry} (h : { s with commands := x }.Has env e o fns) :
    (∃ b, e = .binding b) ∨ s.Has env e o fns := by
  cases e <;> first | exact .inr h | exact .inl ⟨_, rfl⟩

theorem State.Has.of_forms {x : Forms.Registry} (h : { s with forms := x }.Has env e o fns) :
    (∃ ticket, e = .form ticket) ∨ s.Has env e o fns := by
  cases e <;> first | exact .inr h | exact .inl ⟨_, rfl⟩

theorem State.Has.of_kvdb {x : KvDb.Registry} (h : { s with kvdb := x }.Has env e o fns) :
    (∃ k, e = .kvdb k) ∨ s.Has env e o fns := by
  cases e <;> first | exact .inr h | exact .inl ⟨_, rfl⟩

theorem State.Has.of_events {x : Events.Registry} (h : { s with events := x }.Has env e o fns) :
    (∃ id, e = .hookSub id ∨ e = .listener id) ∨ s.Has env e o fns := by
  cases e <;> first | exact .inr h | exact .inl ⟨_, .inl rfl⟩ | exact .inl ⟨_, .inr rfl⟩

theorem State.Has.of_packets {x : PacketHooks.Registry} (h : { s with packets := x }.Has env e o fns) :
    (∃ addr, e = .packetSub addr ∨ e = .connSub addr) ∨ s.Has env e o fns := by
  cases e <;> first | exact .inr h | exact .inl ⟨_, .inl rfl⟩ | exact .inl ⟨_, .inr rfl⟩

theorem State.Has.of_money {x : Money.Registry} (h : { s with money := x }.Has env e o fns) :
    (∃ slot, e = .money slot) ∨ s.Has env e o fns := by
  cases e <;> first | exact .inr h | exact .inl ⟨_, rfl⟩

/-! ## What a call can enter -/

theorem madeId_of_pos (mod : Option ModId) (id : Nat) (entry : Nat → Entry) (h : 0 < id) :
    madeId mod id entry = some (entry id, mod) := if_neg (Nat.ne_of_gt h)

theorem has_submit (hs : s.WellFormed) {live : ModId → Bool} {mod : Option ModId} {cb : Option Ptr} {user : Ptr}
    {delayMs : Option UInt64}
    (h : { s with scheduler := (Scheduler.submit live mod cb user delayMs s.scheduler).2.2 }.Has env e o fns) :
    s.Has env e o fns ∨ madeId mod (Scheduler.submit live mod cb user delayMs s.scheduler).1 .task = some (e, o) := by
  obtain he | ⟨raw, fn, rfl, rfl, _, he⟩ := Scheduler.submit_cases live mod cb user delayMs s.scheduler
  · rw [he] at h
    exact .inl h
  · rw [he] at h ⊢
    obtain ⟨id, rfl⟩ | h := h.of_scheduler
    · obtain ⟨task, hl, hm, hf⟩ := h
      simp only [Scheduler.registerTask, AList.lookup_insert_eq] at hl
      split at hl
      · next hid =>
        cases hl
        subst hid hm
        exact .inr (madeId_of_pos _ _ _ hs.task)
      · exact .inl ⟨task, hl, hm, hf⟩
    · exact .inl h

theorem has_busSubscribe (hs : s.WellFormed) {live : ModId → Bool} {mod : Option ModId} {topic : String}
    {cb : Option Ptr} {user : Ptr}
    (h : { s with bus := (Bus.api_bus_subscribe live mod topic cb user s.bus).2 }.Has env e o fns) :
    s.Has env e o fns ∨ madeId mod (Bus.api_bus_subscribe live mod topic cb user s.bus).1 .sub = some (e, o) := by
  obtain he | ⟨raw, fn, rfl, rfl, _, _, he⟩ := Bus.api_bus_subscribe_cases live mod topic cb user s.bus
  · rw [he] at h
    exact .inl h
  · rw [he] at h ⊢
    obtain ⟨id, rfl⟩ | h := h.of_bus
    · obtain ⟨sub, hl, hm, hf⟩ := h
      simp only [Bus.addSub, AList.lookup_insert_eq] at hl
      split at hl
      · next hid =>
        cases hl
        subst hid hm
        exact .inr (madeId_of_pos _ _ _ hs.sub)
      · exact .inl ⟨sub, hl, hm, hf⟩
    · exact .inl h

theorem has_busUnsubscribe {mod : Option ModId} {subId : Nat}
    (h : { s with bus := (Bus.api_bus_unsubscribe mod subId s.bus).2 }.Has env e o fns) : s.Has env e o fns := by
  obtain he | ⟨_, sub, _, _, _, he⟩ := Bus.api_bus_unsubscribe_cases mod subId s.bus
  · rwa [he] at h
  · rw [he] at h
    obtain ⟨id, rfl⟩ | h := h.of_bus
    · obtain ⟨sub', hl, hrest⟩ := h
      simp only [Bus.dropSub, AList.lookup_erase_eq] at hl
      split at hl
      · cases hl
      · exact ⟨sub', hl, hrest⟩
    · exact h

theorem has_serviceRegister (hs : s.WellFormed) {live : ModId → Bool} {mod : Option ModId} {name : String}
    {cb : Option Ptr} {user : Ptr}
    (h : { s with services := (Services.api_service_register live mod name cb user s.services).2 }.Has env e o fns) :
    s.Has env e o fns ∨
      madeId mod (Services.api_service_register live mod name cb user s.services).1 .service = some (e, o) := by
  obtain ⟨next, _, he⟩ | ⟨raw, fn, rfl, rfl, _, _, _, he⟩ :=
    Services.api_service_register_cases live mod name cb user s.services
  · rw [he] at h
    obtain ⟨id, rfl⟩ | h := h.of_services
    · exact .inl h
    · exact .inl h
  · rw [he] at h ⊢
    obtain ⟨id, rfl⟩ | h := h.of_services
    · obtain ⟨svc, hl, hm, hf⟩ := h
      simp only [Services.addService, AList.lookup_insert_eq] at hl
      split at hl
      · next hid =>
        cases hl
        subst hid hm
        exact .inr (madeId_of_pos _ _ _ hs.service)
      · exact .inl ⟨svc, hl, hm, hf⟩
    · exact .inl h

theorem has_serviceUnregister {mod : Option ModId} {regId : Nat}
    (h : { s with services := (Services.api_service_unregister mod regId s.services).2 }.Has env e o fns) :
    s.Has env e o fns := by
  obtain ⟨id, rfl⟩ | h := h.of_services
  · obtain ⟨svc, hl, hrest⟩ := h
    exact ⟨svc, Services.lookup_unregister hl, hrest⟩
  · exact h

theorem has_lanePublish (hs : s.WellFormed) {live : ModId → Bool} {mod : Option ModId} {name : String}
    {desc : Option Lane.LaneDesc}
    (h : { s with lane := (Lane.api_lane_publish live mod name desc s.lane).2 }.Has env e o fns) :
    s.Has env e o fns ∨ madeId mod (Lane.api_lane_publish live mod name desc s.lane).1 .lane = some (e, o) := by
  obtain he | ⟨raw, d, rfl, rfl, _, _, he⟩ := Lane.api_lane_publish_cases live mod name desc s.lane
  · rw [he] at h
    exact .inl h
  · rw [he] at h ⊢
    obtain ⟨id, rfl | rfl⟩ | h := h.of_lane
    · obtain ⟨lane, hl, hm, hf⟩ := h
      simp only [Lane.addLane, AList.lookup_insert_eq] at hl
      split at hl
      · next hid =>
        cases hl
        subst hid hm
        exact .inr (madeId_of_pos _ _ _ hs.lane)
      · exact .inl ⟨lane, hl, hm, hf⟩
    · exact .inl h
    · exact .inl h

theorem has_retireLane {laneId : Nat}
    (h : { s with lane := (Lane.retireLane laneId s.lane).2 }.Has env e o fns) : s.Has env e o fns := by
  cases hl : s.lane.gLanes.lookup laneId with
  | none =>
    rw [Lane.retireLane_of_none hl] at h
    exact h
  | some entry =>
    obtain ⟨id, rfl | rfl⟩ | h := h.of_lane
    · obtain ⟨lane, hk, hrest⟩ := h
      simp only [Lane.retireLane, hl, AList.lookup_erase_eq] at hk
      split at hk
      · cases hk
      · exact ⟨lane, hk, hrest⟩
    · obtain ⟨lease, hk, hrest⟩ := h
      rw [Lane.gLeases_retireLane hl, AList.lookup_eraseIf_eq_some] at hk
      exact ⟨lease, hk.1, hrest⟩
    · exact h

theorem has_laneUnpublish {mod : Option ModId} {pubId : Nat}
    (h : { s with
      lane := if Lane.unpublishCheck mod pubId s.lane then (Lane.retireLane pubId s.lane).2 else s.lane
    }.Has env e o fns) : s.Has env e o fns := by
  split at h
  · exact has_retireLane h
  · exact h

/-- Taking a lease out, or changing the count of a lane, enters nothing. -/
theorem has_takeLease {id : Nat} {lease : Lane.Lease}
    (h : { s with lane := (Lane.takeLease id lease s.lane).2 }.Has env e o fns) : s.Has env e o fns := by
  obtain ⟨i, rfl | rfl⟩ | h := h.of_lane
  · obtain ⟨lane, hk, hrest⟩ := h
    unfold Lane.takeLease at hk
    split at hk
    · exact ⟨lane, hk, hrest⟩
    · next entry hl =>
      simp only [AList.lookup_insert_eq] at hk
      split at hk
      · next hi =>
        cases hk
        exact ⟨entry, hi ▸ hl, hrest⟩
      · exact ⟨lane, hk, hrest⟩
  · obtain ⟨lease', hk, hrest⟩ := h
    simp only [Lane.gLeases_takeLease, AList.lookup_erase_eq] at hk
    split at hk
    · cases hk
    · exact ⟨lease', hk, hrest⟩
  · exact h

theorem has_laneAcquire {live : ModId → Bool} {mod : Option ModId} {name : String} {want : UInt64}
    {out : Option Lane.LaneRef}
    (h : { s with lane := (Lane.api_lane_acquire live mod name want out s.lane).lanes }.Has env e o fns) :
    s.Has env e o fns ∨
      (if (Lane.api_lane_acquire live mod name want out s.lane).code = Lane.LEVI_RS_LANE_OK then
        some ((.lease s.lane.gNextLeaseId : Entry), mod) else none) = some (e, o) := by
  obtain ⟨he, _⟩ | ⟨consumer, laneId, lane, rfl, hlane, _, _, _, he, _, hcode, _⟩ :=
    Lane.api_lane_acquire_cases live mod name want out s.lane
  · rw [he] at h
    exact .inl h
  · rw [he] at h
    rw [if_pos hcode]
    obtain ⟨id, rfl | rfl⟩ | h := h.of_lane
    · obtain ⟨entry, hk, hrest⟩ := h
      simp only [Lane.addLease, AList.lookup_insert_eq] at hk
      split at hk
      · next hid =>
        cases hk
        exact .inl ⟨lane, hid ▸ hlane, hrest⟩
      · exact .inl ⟨entry, hk, hrest⟩
    · obtain ⟨lease, hk, hm, hf⟩ := h
      simp only [Lane.addLease, AList.lookup_insert_eq] at hk
      split at hk
      · next hid =>
        cases hk
        subst hid hm
        exact .inr rfl
      · exact .inl ⟨lease, hk, hm, hf⟩
    · exact .inl h

theorem has_laneRelease {mod : Option ModId} {leaseId : Nat}
    (h : { s with lane := (Lane.api_lane_release mod leaseId s.lane).2.2 }.Has env e o fns) : s.Has env e o fns := by
  obtain he | ⟨_, lease, _, _, _, he⟩ := Lane.api_lane_release_cases mod leaseId s.lane
  · rwa [he] at h
  · rw [he] at h
    exact has_takeLease h

/-- A new binding, or the one it is entered in: what else there is to a key was there before. -/
theorem has_binding_append {x : Commands.CommandBinding} {gCommands : Table String Nat}
    {executors : List Commands.Executor} {b : Nat}
    (hname : ∀ name, gCommands.lookup name = some b →
      b = s.commands.bindings.length ∨ s.commands.gCommands.lookup name = some b)
    (hexec : ∀ e ∈ executors, e.binding = b → b = s.commands.bindings.length ∨ e ∈ s.commands.executors)
    (h : { s with commands := ⟨gCommands, s.commands.bindings ++ [x], executors⟩ }.Has env (.binding b) o fns) :
    s.Has env (.binding b) o fns ∨ b = s.commands.bindings.length ∧ o = x.mod := by
  obtain ⟨hreached, hsome, hmod, hfns⟩ := h
  simp only [Commands.Registry.binding] at hsome hmod hfns
  rcases CommandRuns.binding_append_cases s.commands x b with hb | ⟨hlast, hb⟩
  · rw [hb] at hsome hmod hfns
    by_cases hlast : b = s.commands.bindings.length
    · subst hlast
      simp [Commands.Registry.binding, Commands.emptyBinding] at hsome
    · refine .inl ⟨?_, hsome, hmod, hfns⟩
      rcases hreached with ⟨name, hl⟩ | ⟨e, he, heb⟩
      · exact .inl ⟨name, (hname name hl).resolve_left hlast⟩
      · exact .inr ⟨e, (hexec e he heb).resolve_left hlast, heb⟩
  · rw [hb] at hmod
    exact .inr ⟨hlast, hmod.symm⟩

theorem has_registerCommand (hs : s.WellFormed) {c : CommandRuns.RegisterCall}
    (h : { s with commands := (c.run env.floats s.commands).2 }.Has env e o fns) :
    s.Has env e o fns ∨
      madeHandle c.mod (Commands.claimed c.mod c.name (c.overloads env.floats) c.cb s.commands) .binding =
        some (e, o) := by
  have heffect := Commands.registerOverloads_effect c.mod c.name (c.overloads env.floats) c.cb c.user c.throwsAt
    s.commands
  rw [← c.run_eq] at heffect
  generalize Commands.claimed c.mod c.name (c.overloads env.floats) c.cb s.commands = r at heffect ⊢
  generalize c.run env.floats s.commands = result at heffect h ⊢
  obtain ⟨b, rfl⟩ | h := h.of_commands
  · have hnewExec : ∀ {ovls : List Commands.Overload} {e : Commands.Executor},
        e ∈ ovls.map (Commands.Executor.mk s.commands.bindings.length c.name) → e.binding = b →
          b = s.commands.bindings.length := by
      intro ovls e he heb
      obtain ⟨_, _, rfl⟩ := List.mem_map.mp he
      exact heb.symm
    cases heffect with
    | refused => exact .inl h
    | rebound m' fn b' hmod hcb hl =>
      obtain ⟨hreached, hsome, hm, hf⟩ := h
      simp only [Commands.Registry.binding, CommandRuns.binding_set (hs.binding _ _ hl)] at hsome hm hf
      split at hm
      · next hb =>
        subst hb hm
        exact .inr (by rw [hmod]; rfl)
      · next hb =>
        rw [if_neg hb] at hsome hf
        exact .inl ⟨hreached, hsome, hm, hf⟩
    | installed m' fn ovls hmod hcb ho hnone =>
      refine (has_binding_append ?_ ?_ h).imp_right ?_
      · intro name hl
        rw [AList.lookup_insert_eq] at hl
        split at hl
        · exact .inl (Option.some.inj hl).symm
        · exact .inr hl
      · intro e he heb
        exact (List.mem_append.mp he).symm.imp_left fun hnew => hnewExec hnew heb
      · rintro ⟨rfl, rfl⟩
        rw [hmod]
        rfl
    | thrown m' fn ovls k hmod hcb ho hnone hk hlt =>
      refine (has_binding_append ?_ ?_ h).imp_right ?_
      · intro name hl
        rw [AList.lookup_erase_eq, AList.lookup_insert_eq] at hl
        split at hl
        · cases hl
        · exact .inr hl
      · intro e he heb
        exact (List.mem_append.mp he).symm.imp_left fun hnew => hnewExec (List.mem_of_mem_take hnew) heb
      · rintro ⟨rfl, rfl⟩
        rw [hmod]
        rfl
  · exact .inl h

theorem has_formSend {live : ModId → Bool} {mod : Option ModId} {player spec : Bool} {kind : Int32}
    {engine : Option Bool} {cb : Option Ptr} {user : Ptr}
    (h : { s with forms := (Forms.api_form_send live mod player spec kind engine cb user s.forms).2 }.Has env e o fns) :
    s.Has env e o fns ∨
      (if (Forms.api_form_send live mod player spec kind engine cb user s.forms).1 then
        some ((.form s.forms.gNextTicket : Entry), mod) else none) = some (e, o) := by
  obtain ⟨_, hold⟩ | ⟨raw, fn, rfl, rfl, _, he⟩ :=
    Forms.api_form_send_cases live mod player spec kind engine cb user s.forms
  · obtain ⟨ticket, rfl⟩ | h := h.of_forms
    · obtain ⟨pending, hl, hrest⟩ := h
      exact .inl ⟨pending, hold ticket pending hl, hrest⟩
    · exact .inl h
  · rw [he] at h ⊢
    obtain ⟨ticket, rfl⟩ | h := h.of_forms
    · obtain ⟨pending, hl, hm, hf⟩ := h
      simp only [Forms.registerTicket, AList.lookup_insert_eq] at hl
      split at hl
      · next ht =>
        cases hl
        subst ht hm
        exact .inr rfl
      · exact .inl ⟨pending, hl, hm, hf⟩
    · exact .inl h

theorem has_kvdbOpen {constructs : WinPath.Text → Bool → Bool} {mod : Option ModId} {path : WinPath.Text} {c : Bool}
    (h : { s with kvdb := (KvDb.api_kvdb_open env.getDataDir constructs mod path c s.kvdb).2.2 }.Has env e o fns) :
    s.Has env e o fns ∨
      madeHandle mod (KvDb.api_kvdb_open env.getDataDir constructs mod path c s.kvdb).1 .kvdb = some (e, o) := by
  obtain he | ⟨raw, rfl, _, hhandle, he⟩ := KvDb.api_kvdb_open_cases env.getDataDir constructs mod path c s.kvdb
  · rw [he] at h
    exact .inl h
  · rw [he] at h
    obtain ⟨k, rfl⟩ | h := h.of_kvdb
    · obtain ⟨entry, hl, hm, hf⟩ := h
      simp only [AList.lookup_insert_eq] at hl
      split at hl
      · next hk =>
        cases hl
        subst hk hm
        exact .inr (by rw [hhandle]; rfl)
      · exact .inl ⟨entry, hl, hm, hf⟩
    · exact .inl h

theorem has_subscribeEvent {resolveEventId : String → Option String} {addListener : String → Bool}
    {mod : Option ModId} {eventId : String} {priority : Int32} {cb : Option Ptr} {user : Ptr}
    (h : { s with
      events := (Events.api_subscribe_event resolveEventId addListener mod eventId priority cb user s.events).2
    }.Has env e o fns) :
    s.Has env e o fns ∨
      madeHandle mod
        (Events.api_subscribe_event resolveEventId addListener mod eventId priority cb user s.events).1
        (if Events.takesHook mod eventId cb user s.events then .hookSub else .listener) = some (e, o) := by
  obtain he | ⟨raw, fn, rfl, rfl, ⟨htakes, table, hadd, he⟩ | ⟨htakes, listener, he⟩⟩ :=
    Events.api_subscribe_event_cases resolveEventId addListener mod eventId priority cb user s.events
  · rw [he] at h
    exact .inl h
  · rw [he] at h ⊢
    rw [htakes]
    obtain ⟨id, rfl | rfl⟩ | h := h.of_events
    · obtain ⟨sub, hl, hid, hm, hf⟩ := h
      rcases HookEvents.addSub_listed hadd hl with hl | rfl
      · exact .inl ⟨sub, hl, hid, hm, hf⟩
      · subst hid hm
        exact .inr rfl
    · exact .inl h
    · exact .inl h
  · rw [he] at h ⊢
    rw [htakes]
    obtain ⟨id, rfl | rfl⟩ | h := h.of_events
    · exact .inl h
    · obtain ⟨m', slot, hl, hid, hm, hf⟩ := h
      simp only [Events.pushListener, Events.listenersOf_insert] at hl
      split at hl
      · next hm' =>
        subst hm'
        rcases List.mem_append.mp hl with hl | hl
        · exact .inl ⟨_, slot, hl, hid, hm, hf⟩
        · rw [List.mem_singleton] at hl
          subst hl hid hm
          exact .inr rfl
      · exact .inl ⟨m', slot, hl, hid, hm, hf⟩
    · exact .inl h

theorem has_unsubscribeEvent {removeListener : Bool} {mod : Option ModId} {handle : Option Nat}
    (h : { s with events := (Events.api_unsubscribe_event removeListener mod handle s.events).2 }.Has env e o fns) :
    s.Has env e o fns := by
  obtain ⟨id, rfl | rfl⟩ | h := h.of_events
  · obtain ⟨sub, hl, hrest⟩ := h
    exact ⟨sub, Events.api_unsubscribe_event_listed hl, hrest⟩
  · obtain ⟨m', slot, hl, hrest⟩ := h
    exact ⟨m', slot, Events.api_unsubscribe_event_mem hl, hrest⟩
  · exact h

theorem has_packetRegister {mod : Option ModId} {dirMask : UInt32} {cb : Option Ptr} {user : Ptr}
    (h : { s with packets := (PacketHooks.api_packet_hook_register mod dirMask cb user s.packets).2 }.Has env e o fns) :
    s.Has env e o fns ∨
      madeHandle mod (PacketHooks.api_packet_hook_register mod dirMask cb user s.packets).1 .packetSub =
        some (e, o) := by
  unfold PacketHooks.api_packet_hook_register at h ⊢
  cases cb with
  | none => exact .inl h
  | some fn =>
    dsimp only at h ⊢
    split at h
    · exact .inl h
    · next hmask =>
      rw [if_neg hmask]
      obtain ⟨addr, rfl | rfl⟩ | h := h.of_packets
      · obtain ⟨sub, hl, ha, hm, hf⟩ := h
        rcases List.mem_append.mp hl with hl | hl
        · exact .inl ⟨sub, hl, ha, hm, hf⟩
        · rw [List.mem_singleton] at hl
          subst hl ha hm
          exact .inr rfl
      · exact .inl h
      · exact .inl h

theorem has_connRegister {mod : Option ModId} {cb : Option Ptr} {user : Ptr}
    (h : { s with packets := (PacketHooks.api_packet_conn_hook_register mod cb user s.packets).2 }.Has env e o fns) :
    s.Has env e o fns ∨
      madeHandle mod (PacketHooks.api_packet_conn_hook_register mod cb user s.packets).1 .connSub = some (e, o) := by
  unfold PacketHooks.api_packet_conn_hook_register at h ⊢
  cases cb with
  | none => exact .inl h
  | some fn =>
    obtain ⟨addr, rfl | rfl⟩ | h := h.of_packets
    · exact .inl h
    · obtain ⟨sub, hl, ha, hm, hf⟩ := h
      rcases List.mem_append.mp hl with hl | hl
      · exact .inl ⟨sub, hl, ha, hm, hf⟩
      · rw [List.mem_singleton] at hl
        subst hl ha hm
        exact .inr rfl
    · exact .inl h

/-- A step of the packet registry that only takes subscriptions out. -/
theorem has_packetDrop {x : PacketHooks.Registry} (hp : x.packetSubs.Sublist s.packets.packetSubs)
    (hc : x.connSubs.Sublist s.packets.connSubs) (h : { s with packets := x }.Has env e o fns) : s.Has env e o fns := by
  obtain ⟨addr, rfl | rfl⟩ | h := h.of_packets
  · obtain ⟨sub, hl, hrest⟩ := h
    exact ⟨sub, hp.subset hl, hrest⟩
  · obtain ⟨sub, hl, hrest⟩ := h
    exact ⟨sub, hc.subset hl, hrest⟩
  · exact h

theorem has_moneyListen {x : Money.Registry} {slot : Money.Slot} {callback : Option Ptr}
    (hx : ∀ slot', x.get slot' = if slot' = slot then callback else s.money.get slot')
    (h : { s with money := x }.Has env e o fns) :
    s.Has env e o fns ∨ (callback.map fun fn => ((.money slot : Entry), env.image fn)) = some (e, o) := by
  obtain ⟨slot', rfl⟩ | h := h.of_money
  · obtain ⟨fn, hl, hm, hf⟩ := h
    rw [hx] at hl
    split at hl
    · next he =>
      subst he hl hm
      exact .inr rfl
    · exact .inl ⟨fn, hl, hm, hf⟩
  · exact .inl h

/-- What stands after a call stood before, or the call made it. -/
theorem Call.has_apply (hs : s.WellFormed) (c : Call) (h : (c.apply env s).Has env e o fns) :
    s.Has env e o fns ∨ c.makes env s = some (e, o) := by
  cases c with
  | api_schedule_for => exact has_submit hs h
  | api_schedule_after_for => exact has_submit hs h
  | api_schedule_cancel mod taskId =>
    obtain ⟨id, rfl⟩ | h := h.of_scheduler
    · obtain ⟨task, hl, hrest⟩ := h
      exact .inl ⟨task, Scheduler.lookup_cancel hl, hrest⟩
    · exact .inl h
  | runTask live enabled weakMod id =>
    obtain ⟨id, rfl⟩ | h := h.of_scheduler
    · obtain ⟨task, hl, hrest⟩ := h
      exact .inl ⟨task, Scheduler.lookup_runTask hl, hrest⟩
    · exact .inl h
  | api_bus_subscribe => exact has_busSubscribe hs h
  | api_bus_unsubscribe => exact .inl (has_busUnsubscribe h)
  | api_service_register => exact has_serviceRegister hs h
  | api_service_unregister => exact .inl (has_serviceUnregister h)
  | api_lane_publish => exact has_lanePublish hs h
  | api_lane_unpublish => exact .inl (has_laneUnpublish h)
  | api_lane_acquire => exact has_laneAcquire h
  | api_lane_release => exact .inl (has_laneRelease h)
  | api_register_command => exact has_registerCommand hs h
  | api_form_send => exact has_formSend h
  | completeTicket live enabled weakMod ticket =>
    obtain ⟨t, rfl⟩ | h := h.of_forms
    · obtain ⟨pending, hl, hrest⟩ := h
      exact .inl ⟨pending, Forms.lookup_completeTicket hl, hrest⟩
    · exact .inl h
  | api_kvdb_open => exact has_kvdbOpen h
  | api_kvdb_close k =>
    obtain ⟨k', rfl⟩ | h := h.of_kvdb
    · obtain ⟨entry, hl, hrest⟩ := h
      exact .inl ⟨entry, KvDb.lookup_close hl, hrest⟩
    · exact .inl h
  | api_subscribe_event => exact has_subscribeEvent h
  | api_unsubscribe_event => exact .inl (has_unsubscribeEvent h)
  | api_packet_hook_register => exact has_packetRegister h
  | api_packet_hook_unregister mod handle =>
    have hd := PacketHooks.api_packet_hook_unregister_sublist mod handle s.packets
    exact .inl (has_packetDrop hd.1 hd.2 h)
  | api_packet_conn_hook_register => exact has_connRegister h
  | api_packet_conn_hook_unregister mod handle =>
    have hd := PacketHooks.api_packet_conn_hook_unregister_sublist mod handle s.packets
    exact .inl (has_packetDrop hd.1 hd.2 h)
  | api_money_listen_before_event ready callback =>
    exact has_moneyListen (fun slot => by cases slot <;> rfl) h
  | api_money_listen_after_event ready callback =>
    exact has_moneyListen (fun slot => by cases slot <;> rfl) h

/-! ## What a mod owns after a call -/

/-- Where the commands stay as they are, what a mod owns follows what stands. -/
theorem owns_of_has {t : State} {r : Option (Entry × Option ModId)} (hc : t.commands = s.commands)
    (hhas : ∀ fns, t.Has env e (some m) fns → s.Has env e (some m) fns ∨ r = some (e, some m))
    (h : t.Owns env m e) : s.Owns env m e ∨ r = some (e, some m) := by
  by_cases hb : ∃ b, e = .binding b
  · obtain ⟨b, rfl⟩ := hb
    rw [State.Owns, hc] at h
    exact .inl h
  · have he : ∀ b, e ≠ .binding b := fun b heq => hb ⟨b, heq⟩
    obtain ⟨fns, h⟩ := (owns_iff he).mp h
    exact (hhas fns h).imp_left fun h => (owns_iff he).mpr ⟨fns, h⟩

theorem owns_of_has' {t : State} (hc : t.commands = s.commands)
    (hhas : ∀ fns, t.Has env e (some m) fns → s.Has env e (some m) fns) (h : t.Owns env m e) : s.Owns env m e :=
  (owns_of_has (r := none) hc (fun fns h => .inl (hhas fns h)) h).resolve_right (by simp)

theorem ofId_of_made {mod : Option ModId} {id : Nat} {entry : Nat → Entry}
    (h : madeId mod id entry = some (e, some m)) : ofId mod id entry = some (e, m) := by
  unfold madeId at h
  split at h
  · cases h
  · next hid =>
    cases h
    exact if_neg hid

theorem ofHandle_of_made {mod : Option ModId} {handle : Option Nat} {entry : Nat → Entry}
    (h : madeHandle mod handle entry = some (e, some m)) : ofHandle mod handle entry = some (e, m) := by
  obtain ⟨k, rfl, he⟩ := Option.map_eq_some_iff.mp h
  cases he
  rfl

/-- Command registrations apart, a call that makes an entry for a mod registers it for the mod. -/
theorem Call.registers_of_makes {c : Call} (hc : ∀ r, c ≠ .api_register_command r)
    (h : c.makes env s = some (e, some m)) : c.registers env s = some (e, m) := by
  cases c with
  | api_schedule_for => exact ofId_of_made h
  | api_schedule_after_for => exact ofId_of_made h
  | api_bus_subscribe => exact ofId_of_made h
  | api_service_register => exact ofId_of_made h
  | api_lane_publish => exact ofId_of_made h
  | api_lane_acquire =>
    rw [Call.makes] at h
    split at h
    · next hcode =>
      cases h
      exact if_pos hcode
    · cases h
  | api_register_command r => exact absurd rfl (hc r)
  | api_form_send =>
    rw [Call.makes] at h
    split at h
    · next hok =>
      cases h
      exact if_pos hok
    · cases h
  | api_kvdb_open => exact ofHandle_of_made h
  | api_subscribe_event => exact ofHandle_of_made h
  | api_packet_hook_register => exact ofHandle_of_made h
  | api_packet_conn_hook_register => exact ofHandle_of_made h
  | api_money_listen_before_event ready callback =>
    obtain ⟨fn, rfl, he⟩ := Option.map_eq_some_iff.mp h
    obtain ⟨rfl, hm⟩ := Prod.mk.inj he
    simp [Call.registers, hm]
  | api_money_listen_after_event ready callback =>
    obtain ⟨fn, rfl, he⟩ := Option.map_eq_some_iff.mp h
    obtain ⟨rfl, hm⟩ := Prod.mk.inj he
    simp [Call.registers, hm]
  | _ => cases h

theorem owns_registerCommand (hs : s.WellFormed) {c : CommandRuns.RegisterCall}
    (h : { s with commands := (c.run env.floats s.commands).2 }.Owns env m e) :
    s.Owns env m e ∨
      (if (c.run env.floats s.commands).1 then
        ofHandle c.mod (Commands.claimed c.mod c.name (c.overloads env.floats) c.cb s.commands) .binding
      else none) = some (e, m) := by
  have heffect := Commands.registerOverloads_effect c.mod c.name (c.overloads env.floats) c.cb c.user c.throwsAt
    s.commands
  rw [← c.run_eq] at heffect
  generalize Commands.claimed c.mod c.name (c.overloads env.floats) c.cb s.commands = r at heffect ⊢
  generalize c.run env.floats s.commands = result at heffect h ⊢
  by_cases hb : ∃ b, e = .binding b
  · obtain ⟨b, rfl⟩ := hb
    obtain ⟨⟨name, hl⟩, hm⟩ := h
    cases heffect with
    | refused => exact .inl ⟨⟨name, hl⟩, hm⟩
    | rebound m' fn b' hmod hcb hl' =>
      simp only [Commands.Registry.binding, CommandRuns.binding_set (hs.binding _ _ hl')] at hm
      split at hm
      · next hb =>
        cases hm
        subst hb
        exact .inr (by simp [ofHandle, hmod])
      · exact .inl ⟨⟨name, hl⟩, hm⟩
    | installed m' fn ovls hmod hcb ho hnone =>
      simp only [AList.lookup_insert_eq] at hl
      split at hl
      · cases hl
        simp only [Commands.Registry.binding, CommandRuns.binding_append_last] at hm
        cases hm
        exact .inr (by simp [ofHandle, hmod])
      · simp only [Commands.Registry.binding, CommandRuns.binding_append (hs.binding _ _ hl)] at hm
        exact .inl ⟨⟨name, hl⟩, hm⟩
    | thrown m' fn ovls k hmod hcb ho hnone hk hlt =>
      simp only [AList.lookup_erase_eq, AList.lookup_insert_eq] at hl
      split at hl
      · cases hl
      · simp only [Commands.Registry.binding, CommandRuns.binding_append (hs.binding _ _ hl)] at hm
        exact .inl ⟨⟨name, hl⟩, hm⟩
  · refine .inl ((owns_iff fun b heq => hb ⟨b, heq⟩).mpr ?_)
    obtain ⟨fns, h⟩ := (owns_iff fun b heq => hb ⟨b, heq⟩).mp h
    exact ⟨fns, h.of_commands.resolve_left hb⟩

/-- An entry that is the mod's after a call was the mod's before, or the call registers it. -/
theorem Call.owns_apply (hs : s.WellFormed) (c : Call) (h : (c.apply env s).Owns env m e) :
    s.Owns env m e ∨ c.registers env s = some (e, m) := by
  by_cases hc : ∃ r, c = .api_register_command r
  · obtain ⟨r, rfl⟩ := hc
    exact owns_registerCommand hs h
  · have hc' : ∀ r, c ≠ .api_register_command r := fun r heq => hc ⟨r, heq⟩
    have hcommands : (c.apply env s).commands = s.commands := by
      cases c with
      | api_register_command r => exact absurd rfl (hc' r)
      | _ => rfl
    exact (owns_of_has hcommands (fun _ => c.has_apply hs) h).imp_right (registers_of_makes hc')

/-! ## What a call says it entered is there -/

theorem ofId_eq_some {mod : Option ModId} {id : Nat} {entry : Nat → Entry} (h : ofId mod id entry = some (e, m)) :
    id ≠ 0 ∧ mod = some m ∧ e = entry id := by
  unfold ofId at h
  split at h
  · cases h
  · next hid =>
    obtain ⟨m', hm, he⟩ := Option.map_eq_some_iff.mp h
    cases he
    exact ⟨hid, hm, rfl⟩

theorem ofHandle_eq_some {mod : Option ModId} {handle : Option Nat} {entry : Nat → Entry}
    (h : ofHandle mod handle entry = some (e, m)) : ∃ k, handle = some k ∧ mod = some m ∧ e = entry k := by
  obtain ⟨k, hk, h⟩ := Option.bind_eq_some_iff.mp h
  obtain ⟨m', hm, he⟩ := Option.map_eq_some_iff.mp h
  cases he
  exact ⟨k, hk, hm, rfl⟩

theorem submit_owns {live : ModId → Bool} {mod : Option ModId} {cb : Option Ptr} {user : Ptr}
    {delayMs : Option UInt64}
    (h : ofId mod (Scheduler.submit live mod cb user delayMs s.scheduler).1 .task = some (e, m)) :
    { s with scheduler := (Scheduler.submit live mod cb user delayMs s.scheduler).2.2 }.Owns env m e := by
  obtain ⟨hid, hm, rfl⟩ := ofId_eq_some h
  obtain he | ⟨raw, fn, rfl, rfl, _, he⟩ := Scheduler.submit_cases live mod cb user delayMs s.scheduler
  · rw [he] at hid
    exact absurd rfl hid
  · rw [he]
    exact ⟨_, AList.lookup_insert _, Option.some.inj hm⟩

theorem laneAcquire_owns {live : ModId → Bool} {mod : Option ModId} {name : String} {want : UInt64}
    {out : Option Lane.LaneRef}
    (h : (if (Lane.api_lane_acquire live mod name want out s.lane).code = Lane.LEVI_RS_LANE_OK then
        mod.map ((.lease s.lane.gNextLeaseId : Entry), ·) else none) = some (e, m)) :
    { s with lane := (Lane.api_lane_acquire live mod name want out s.lane).lanes }.Owns env m e := by
  split at h
  · next hcode =>
    obtain ⟨_, _, hne⟩ | ⟨consumer, laneId, lane, rfl, _, _, _, _, he, _⟩ :=
      Lane.api_lane_acquire_cases live mod name want out s.lane
    · exact absurd hcode hne
    · cases h
      rw [he]
      exact ⟨_, AList.lookup_insert _, rfl⟩
  · cases h

theorem registerCommand_owns (hs : s.WellFormed) {c : CommandRuns.RegisterCall}
    (h : (if (c.run env.floats s.commands).1 then
        ofHandle c.mod (Commands.claimed c.mod c.name (c.overloads env.floats) c.cb s.commands) .binding
      else none) = some (e, m)) : { s with commands := (c.run env.floats s.commands).2 }.Owns env m e := by
  have heffect := Commands.registerOverloads_effect c.mod c.name (c.overloads env.floats) c.cb c.user c.throwsAt
    s.commands
  rw [← c.run_eq] at heffect
  generalize Commands.claimed c.mod c.name (c.overloads env.floats) c.cb s.commands = r at heffect h
  generalize c.run env.floats s.commands = result at heffect h ⊢
  split at h
  · next hok =>
    obtain ⟨b, rfl, hm, rfl⟩ := ofHandle_eq_some h
    cases heffect with
    | rebound m' fn _ hmod hcb hl =>
      rw [hmod] at hm
      refine ⟨⟨c.name, hl⟩, ?_⟩
      rw [Commands.Registry.binding, CommandRuns.binding_set (hs.binding _ _ hl), if_pos rfl]
      exact hm
    | installed m' fn ovls hmod hcb ho hl =>
      rw [hmod] at hm
      refine ⟨⟨c.name, AList.lookup_insert _⟩, ?_⟩
      rw [Commands.Registry.binding, CommandRuns.binding_append_last]
      exact hm
    | thrown => cases hok
  · cases h

theorem busSubscribe_owns {live : ModId → Bool} {mod : Option ModId} {topic : String} {cb : Option Ptr} {user : Ptr}
    (h : ofId mod (Bus.api_bus_subscribe live mod topic cb user s.bus).1 .sub = some (e, m)) :
    { s with bus := (Bus.api_bus_subscribe live mod topic cb user s.bus).2 }.Owns env m e := by
  obtain ⟨hid, hm, rfl⟩ := ofId_eq_some h
  obtain he | ⟨raw, fn, rfl, rfl, _, _, he⟩ := Bus.api_bus_subscribe_cases live mod topic cb user s.bus
  · rw [he] at hid
    exact absurd rfl hid
  · rw [he]
    exact ⟨_, AList.lookup_insert _, Option.some.inj hm⟩

theorem serviceRegister_owns {live : ModId → Bool} {mod : Option ModId} {name : String} {cb : Option Ptr} {user : Ptr}
    (h : ofId mod (Services.api_service_register live mod name cb user s.services).1 .service = some (e, m)) :
    { s with services := (Services.api_service_register live mod name cb user s.services).2 }.Owns env m e := by
  obtain ⟨hid, hm, rfl⟩ := ofId_eq_some h
  obtain ⟨_, _, he⟩ | ⟨raw, fn, rfl, rfl, _, _, _, he⟩ :=
    Services.api_service_register_cases live mod name cb user s.services
  · rw [he] at hid
    exact absurd rfl hid
  · rw [he]
    exact ⟨_, AList.lookup_insert _, Option.some.inj hm⟩

theorem lanePublish_owns {live : ModId → Bool} {mod : Option ModId} {name : String} {desc : Option Lane.LaneDesc}
    (h : ofId mod (Lane.api_lane_publish live mod name desc s.lane).1 .lane = some (e, m)) :
    { s with lane := (Lane.api_lane_publish live mod name desc s.lane).2 }.Owns env m e := by
  obtain ⟨hid, hm, rfl⟩ := ofId_eq_some h
  obtain he | ⟨raw, d, rfl, rfl, _, _, he⟩ := Lane.api_lane_publish_cases live mod name desc s.lane
  · rw [he] at hid
    exact absurd rfl hid
  · rw [he]
    exact ⟨_, AList.lookup_insert _, Option.some.inj hm⟩

theorem formSend_owns {live : ModId → Bool} {mod : Option ModId} {player spec : Bool} {kind : Int32}
    {engine : Option Bool} {cb : Option Ptr} {user : Ptr}
    (h : (if (Forms.api_form_send live mod player spec kind engine cb user s.forms).1 then
        mod.map ((.form s.forms.gNextTicket : Entry), ·) else none) = some (e, m)) :
    { s with forms := (Forms.api_form_send live mod player spec kind engine cb user s.forms).2 }.Owns env m e := by
  split at h
  · next hok =>
    obtain ⟨hfail, _⟩ | ⟨raw, fn, rfl, rfl, _, he⟩ :=
      Forms.api_form_send_cases live mod player spec kind engine cb user s.forms
    · rw [hfail] at hok
      cases hok
    · cases h
      rw [he]
      exact ⟨_, AList.lookup_insert _, rfl⟩
  · cases h

theorem subscribeEvent_owns {resolveEventId : String → Option String} {addListener : String → Bool}
    {mod : Option ModId} {eventId : String} {priority : Int32} {cb : Option Ptr} {user : Ptr}
    (h : ofHandle mod
        (Events.api_subscribe_event resolveEventId addListener mod eventId priority cb user s.events).1
        (if Events.takesHook mod eventId cb user s.events then .hookSub else .listener) = some (e, m)) :
    { s with
      events := (Events.api_subscribe_event resolveEventId addListener mod eventId priority cb user s.events).2
    }.Owns env m e := by
  obtain ⟨k, hk, hm, rfl⟩ := ofHandle_eq_some h
  obtain he | ⟨raw, fn, rfl, rfl, ⟨htakes, table, hadd, he⟩ | ⟨htakes, listener, he⟩⟩ :=
    Events.api_subscribe_event_cases resolveEventId addListener mod eventId priority cb user s.events
  · rw [he] at hk
    cases hk
  · rw [he] at hk
    cases hk
    cases hm
    rw [htakes, he]
    exact ⟨_, Events.addSub_mem hadd, rfl, rfl⟩
  · rw [he] at hk
    cases hk
    cases hm
    rw [htakes, he]
    refine ⟨⟨s.events.hooks.nextListenerId, listener⟩, ?_, rfl⟩
    rw [Events.pushListener, Events.listenersOf_insert, if_pos rfl]
    exact List.mem_append_right _ (.head _)

theorem moneyListen_owns {x : Money.Registry} (slot : Money.Slot) {callback : Option Ptr}
    (hx : x.get slot = callback)
    (h : (callback.bind fun fn => (env.image fn).map ((.money slot : Entry), ·)) = some (e, m)) :
    { s with money := x }.Owns env m e := by
  obtain ⟨fn, rfl, h⟩ := Option.bind_eq_some_iff.mp h
  obtain ⟨m', hm, he⟩ := Option.map_eq_some_iff.mp h
  cases he
  exact ⟨fn, hx, hm⟩

/-- The entry a call says it made is the mod's afterwards. -/
theorem Call.registers_owns (hs : s.WellFormed) (c : Call) (h : c.registers env s = some (e, m)) :
    (c.apply env s).Owns env m e := by
  cases c with
  | api_schedule_for => exact submit_owns h
  | api_schedule_after_for => exact submit_owns h
  | api_bus_subscribe => exact busSubscribe_owns h
  | api_service_register => exact serviceRegister_owns h
  | api_lane_publish => exact lanePublish_owns h
  | api_lane_acquire => exact laneAcquire_owns h
  | api_register_command => exact registerCommand_owns hs h
  | api_form_send => exact formSend_owns h
  | api_kvdb_open constructs mod path c =>
    obtain ⟨k, hk, hm, rfl⟩ := ofHandle_eq_some h
    obtain ⟨entry, hl, hmod⟩ := KvDb.lookup_opened _ _ hk
    rw [hm] at hmod
    exact ⟨entry, hl, Option.some.inj hmod.symm⟩
  | api_subscribe_event => exact subscribeEvent_owns h
  | api_packet_hook_register mod dirMask cb user =>
    obtain ⟨k, hk, rfl, rfl⟩ := ofHandle_eq_some h
    obtain ⟨sub, hmem, ha, hm⟩ := PacketHooks.mem_packet_registered hk
    exact ⟨sub, hmem, ha, hm⟩
  | api_packet_conn_hook_register mod cb user =>
    obtain ⟨k, hk, rfl, rfl⟩ := ofHandle_eq_some h
    obtain ⟨sub, hmem, ha, hm⟩ := PacketHooks.mem_conn_registered hk
    exact ⟨sub, hmem, ha, hm⟩
  | api_money_listen_before_event => exact moneyListen_owns .before rfl h
  | api_money_listen_after_event => exact moneyListen_owns .after rfl h
  | api_schedule_cancel => cases h
  | runTask => cases h
  | api_bus_unsubscribe => cases h
  | api_service_unregister => cases h
  | api_lane_unpublish => cases h
  | api_lane_release => cases h
  | completeTicket => cases h
  | api_kvdb_close => cases h
  | api_unsubscribe_event => cases h
  | api_packet_hook_unregister => cases h
  | api_packet_conn_hook_unregister => cases h

/-! ## Calls keep the registries well formed -/

theorem State.WellFormed.setScheduler (hs : s.WellFormed) {x : Scheduler.Registry}
    (h : s.scheduler.gNextTaskId ≤ x.gNextTaskId) : { s with scheduler := x }.WellFormed :=
  ⟨Nat.lt_of_lt_of_le hs.task h, hs.sub, hs.service, hs.lane, hs.binding⟩

theorem State.WellFormed.setBus (hs : s.WellFormed) {x : Bus.Tables} (h : s.bus.gNextSubId ≤ x.gNextSubId) :
    { s with bus := x }.WellFormed :=
  ⟨hs.task, Nat.lt_of_lt_of_le hs.sub h, hs.service, hs.lane, hs.binding⟩

theorem State.WellFormed.setServices (hs : s.WellFormed) {x : Services.Registry}
    (h : s.services.gNextId ≤ x.gNextId) : { s with services := x }.WellFormed :=
  ⟨hs.task, hs.sub, Nat.lt_of_lt_of_le hs.service h, hs.lane, hs.binding⟩

theorem State.WellFormed.setLane (hs : s.WellFormed) {x : Lane.Lanes} (h : s.lane.gNextLaneId ≤ x.gNextLaneId) :
    { s with lane := x }.WellFormed :=
  ⟨hs.task, hs.sub, hs.service, Nat.lt_of_lt_of_le hs.lane h, hs.binding⟩

theorem wellFormed_submit (hs : s.WellFormed) (live : ModId → Bool) (mod : Option ModId) (cb : Option Ptr)
    (user : Ptr) (delayMs : Option UInt64) :
    { s with scheduler := (Scheduler.submit live mod cb user delayMs s.scheduler).2.2 }.WellFormed := by
  apply hs.setScheduler
  obtain he | ⟨raw, fn, _, _, _, he⟩ := Scheduler.submit_cases live mod cb user delayMs s.scheduler
  · rw [he]
  · rw [he]
    exact Nat.le_succ _

theorem wellFormed_registerCommand (hs : s.WellFormed) (c : CommandRuns.RegisterCall) :
    { s with commands := (c.run env.floats s.commands).2 }.WellFormed := by
  refine ⟨hs.task, hs.sub, hs.service, hs.lane, ?_⟩
  have heffect := Commands.registerOverloads_effect c.mod c.name (c.overloads env.floats) c.cb c.user c.throwsAt
    s.commands
  rw [← c.run_eq] at heffect
  generalize Commands.claimed c.mod c.name (c.overloads env.floats) c.cb s.commands = r at heffect
  generalize c.run env.floats s.commands = result at heffect ⊢
  cases heffect with
  | refused => exact hs.binding
  | rebound => simpa using hs.binding
  | installed =>
    intro name b hl
    simp only [AList.lookup_insert_eq] at hl
    rw [List.length_append]
    split at hl
    · cases hl
      exact Nat.lt_succ_self _
    · exact Nat.lt_succ_of_lt (hs.binding name b hl)
  | thrown =>
    intro name b hl
    simp only [AList.lookup_erase_eq, AList.lookup_insert_eq] at hl
    rw [List.length_append]
    split at hl
    · cases hl
    · exact Nat.lt_succ_of_lt (hs.binding name b hl)

theorem Call.wellFormed_apply (hs : s.WellFormed) (c : Call) : (c.apply env s).WellFormed := by
  cases c with
  | api_schedule_for => exact wellFormed_submit hs _ _ _ _ _
  | api_schedule_after_for => exact wellFormed_submit hs _ _ _ _ _
  | api_schedule_cancel mod taskId => exact hs.setScheduler (Nat.le_of_eq (Scheduler.next_cancel mod taskId _).symm)
  | runTask live enabled weakMod id =>
    exact hs.setScheduler (Nat.le_of_eq (Scheduler.next_runTask live enabled weakMod id _).symm)
  | api_bus_subscribe live mod topic cb user =>
    apply hs.setBus
    obtain he | ⟨_, _, _, _, _, _, he⟩ := Bus.api_bus_subscribe_cases live mod topic cb user s.bus
    · rw [he]
    · rw [he]
      exact Nat.le_succ _
  | api_bus_unsubscribe mod subId =>
    apply hs.setBus
    obtain he | ⟨_, _, _, _, _, he⟩ := Bus.api_bus_unsubscribe_cases mod subId s.bus
    · rw [he]
    · rw [he]
      exact Nat.le_refl _
  | api_service_register live mod name cb user =>
    apply hs.setServices
    obtain ⟨next, hle, he⟩ | ⟨_, _, _, _, _, _, _, he⟩ :=
      Services.api_service_register_cases live mod name cb user s.services
    · rw [he]
      exact hle
    · rw [he]
      exact Nat.le_succ _
  | api_service_unregister mod regId =>
    apply hs.setServices
    obtain he | ⟨_, _, _, _, _, he⟩ := Services.api_service_unregister_cases mod regId s.services
    · rw [he]
    · rw [he]
      exact Nat.le_refl _
  | api_lane_publish live mod name desc =>
    apply hs.setLane
    obtain he | ⟨_, _, _, _, _, _, he⟩ := Lane.api_lane_publish_cases live mod name desc s.lane
    · rw [he]
    · rw [he]
      exact Nat.le_succ _
  | api_lane_unpublish mod pubId =>
    apply hs.setLane
    split
    · exact Nat.le_of_eq (Lane.next_retireLane pubId s.lane).1.symm
    · exact Nat.le_refl _
  | api_lane_acquire live mod name want out =>
    apply hs.setLane
    obtain ⟨he, _⟩ | ⟨_, _, _, _, _, _, _, _, he, _⟩ := Lane.api_lane_acquire_cases live mod name want out s.lane
    · rw [he]
    · rw [he]
      exact Nat.le_refl _
  | api_lane_release mod leaseId =>
    apply hs.setLane
    obtain he | ⟨_, lease, _, _, _, he⟩ := Lane.api_lane_release_cases mod leaseId s.lane
    · rw [he]
    · rw [he]
      exact Nat.le_of_eq (Lane.next_takeLease leaseId lease s.lane).1.symm
  | api_register_command c => exact wellFormed_registerCommand hs c
  | _ => exact ⟨hs.task, hs.sub, hs.service, hs.lane, hs.binding⟩

/-! ## What a sweep leaves -/

/-- A sweep enters nothing; the one of the commands is looked at below. -/
theorem Sweep.has_apply {w : Sweep} (hw : w ≠ .commands) (m' : ModId) (h : (w.apply env m' s).Has env e o fns) :
    s.Has env e o fns := by
  cases w with
  | scheduler =>
    obtain ⟨id, rfl⟩ | h := h.of_scheduler
    · obtain ⟨task, hl, hrest⟩ := h
      exact ⟨task, ((Scheduler.lookup_schedulerOnRustModGone m' _ id task).mp hl).1, hrest⟩
    · exact h
  | bus =>
    obtain ⟨id, rfl⟩ | h := h.of_bus
    · obtain ⟨sub, hl, hrest⟩ := h
      rw [Sweep.apply, Bus.lookup_busOnRustModGone, Option.filter_eq_some_iff] at hl
      exact ⟨sub, hl.1, hrest⟩
    · exact h
  | services =>
    obtain ⟨id, rfl⟩ | h := h.of_services
    · obtain ⟨svc, hl, hrest⟩ := h
      exact ⟨svc, ((Services.lookup_servicesOnRustModGone m' _ id svc).mp hl).1, hrest⟩
    · exact h
  | commands => exact absurd rfl hw
  | forms =>
    obtain ⟨ticket, rfl⟩ | h := h.of_forms
    · obtain ⟨pending, hl, hrest⟩ := h
      exact ⟨pending, ((Forms.lookup_formsOnRustModGone m' _ ticket pending).mp hl).1, hrest⟩
    · exact h
  | kvdb =>
    obtain ⟨k, rfl⟩ | h := h.of_kvdb
    · obtain ⟨entry, hl, hrest⟩ := h
      exact ⟨entry, ((KvDb.lookup_kvdbOnRustModGone m' _ k entry).mp hl).1, hrest⟩
    · exact h
  | hookEvents =>
    obtain ⟨id, rfl | rfl⟩ | h := h.of_events
    · obtain ⟨sub, hl, hrest⟩ := h
      exact ⟨sub, ((HookEvents.hookEventDropMod_listed m' _ sub).mp hl).1, hrest⟩
    · exact h
    · exact h
  | packetHooks => exact has_packetDrop List.filter_sublist List.filter_sublist h
  | money =>
    obtain ⟨slot, rfl⟩ | h := h.of_money
    · obtain ⟨fn, hl, hrest⟩ := h
      rw [Sweep.apply, Money.get_moneyOnRustModGone, Option.filter_eq_some_iff] at hl
      exact ⟨fn, hl.1, hrest⟩
    · exact h

/-- No sweep gives a mod an entry. -/
theorem Sweep.owns_apply (w : Sweep) (m' : ModId) (h : (w.apply env m' s).Owns env m e) : s.Owns env m e := by
  by_cases hw : w = .commands
  · subst hw
    cases e with
    | binding b =>
      obtain ⟨⟨name, hl⟩, hm⟩ := h
      refine ⟨⟨name, hl⟩, ?_⟩
      rw [Sweep.apply, Commands.binding_commandsOnRustModGone m' (s := s.commands) hl] at hm
      split at hm
      · cases hm
      · exact hm
    | _ => exact h
  · refine owns_of_has' ?_ (fun _ => Sweep.has_apply hw m') h
    cases w with
    | commands => exact absurd rfl hw
    | _ => rfl

/-- A sweep leaves nothing of the mod among the entries that are its business. -/
theorem Sweep.not_owns_apply {w : Sweep} (he : e.sweep = some w) : ¬(w.apply env m s).Owns env m e := by
  intro h
  cases e with
  | task id =>
    cases he
    obtain ⟨task, hl, hm⟩ := h
    exact ((Scheduler.lookup_schedulerOnRustModGone m _ id task).mp hl).2 hm
  | sub id =>
    cases he
    obtain ⟨sub, hl, hm⟩ := h
    rw [Sweep.apply, Bus.lookup_busOnRustModGone, Option.filter_eq_some_iff] at hl
    exact bne_iff_ne.mp hl.2 hm
  | service id =>
    cases he
    obtain ⟨svc, hl, hm⟩ := h
    exact ((Services.lookup_servicesOnRustModGone m _ id svc).mp hl).2 hm
  | binding b =>
    cases he
    obtain ⟨⟨name, hl⟩, hm⟩ := h
    exact Commands.commandsOnRustModGone_spec m s.commands hl hm
  | form ticket =>
    cases he
    obtain ⟨pending, hl, hm⟩ := h
    exact ((Forms.lookup_formsOnRustModGone m _ ticket pending).mp hl).2 hm
  | kvdb k =>
    cases he
    obtain ⟨entry, hl, hm⟩ := h
    exact ((KvDb.lookup_kvdbOnRustModGone m _ k entry).mp hl).2 hm
  | hookSub id =>
    cases he
    obtain ⟨sub, hl, hid, hm⟩ := h
    exact ((HookEvents.hookEventDropMod_listed m _ sub).mp hl).2 hm
  | packetSub addr =>
    cases he
    obtain ⟨sub, hl, ha, hm⟩ := h
    exact (PacketHooks.packetHooksOnRustModGone_spec m s.packets).1 sub hl hm
  | connSub addr =>
    cases he
    obtain ⟨sub, hl, ha, hm⟩ := h
    exact (PacketHooks.packetHooksOnRustModGone_spec m s.packets).2 sub hl hm
  | money slot =>
    cases he
    obtain ⟨fn, hl, hm⟩ := h
    rw [Sweep.apply, Money.get_moneyOnRustModGone, Option.filter_eq_some_iff] at hl
    exact bne_iff_ne.mp hl.2 hm
  | lane => cases he
  | lease => cases he
  | listener => cases he

theorem Sweep.wellFormed_apply (hs : s.WellFormed) (w : Sweep) (m : ModId) : (w.apply env m s).WellFormed := by
  cases w with
  | bus => exact hs.setBus (Nat.le_of_eq (Bus.gNextSubId_busOnRustModGone m s.bus).symm)
  | services => exact hs.setServices (Nat.le_of_eq (Services.gNextId_servicesOnRustModGone m s.services).symm)
  | commands =>
    refine ⟨hs.task, hs.sub, hs.service, hs.lane, fun name b hl => ?_⟩
    rw [Sweep.apply, Commands.commandsOnRustModGone, Commands.length_clearBindings]
    exact hs.binding name b hl
  | _ => exact ⟨hs.task, hs.sub, hs.service, hs.lane, hs.binding⟩

end Loader
