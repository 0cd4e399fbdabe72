import LeviRsLoader.Bus
import LeviRsLoader.CommandRuns
import LeviRsLoader.Events
import LeviRsLoader.Forms
import LeviRsLoader.KvDb
import LeviRsLoader.Lane
import LeviRsLoader.Money
import LeviRsLoader.PacketHooks
import LeviRsLoader.Scheduler
import LeviRsLoader.Services

/-!
# The loader's registries together

All the tables a mod can leave an entry in, the calls that reach them and the
sweeps `onRustModGone` is made of. What an entry is and whose it is are said
once here, and one lemma says how a call can change it.
-/
namespace Loader

open LeviRs

/-- What the loader asks its surroundings: conversions of floats, the data
directory of a mod, and the mod whose dylib an address lies in. -/
structure Env where
  floats : Nbt.Floats
  getDataDir : ModId → WinPath.Text
  image : Ptr → Option ModId

structure State where
  scheduler : Scheduler.Registry
  bus : Bus.Tables
  services : Services.Registry
  lane : Lane.Lanes
  commands : Commands.Registry
  forms : Forms.Registry
  kvdb : KvDb.Registry
  events : Events.Registry
  packets : PacketHooks.Registry
  money : Money.Registry
  mods : Table String ModId
  commandsMuted : ModId → Bool

def State.initial (hookEvents : List String) : State where
  scheduler := .initial
  bus := .initial
  services := .initial
  lane := .initial
  commands := .initial
  forms := .initial
  kvdb := .initial
  events := .initial hookEvents
  packets := .initial
  money := .initial
  mods := ∅
  commandsMuted := fun _ => false

/-- An entry of some registry, by its key there. -/
inductive Entry where
  | task (id : Nat)
  | sub (id : Nat)
  | service (id : Nat)
  | lane (id : Nat)
  | lease (id : Nat)
  | binding (b : Nat)
  | form (ticket : Nat)
  | kvdb (h : Nat)
  | hookSub (id : Nat)
  | listener (id : Nat)
  | packetSub (addr : Nat)
  | connSub (addr : Nat)
  | money (slot : Money.Slot)
  deriving DecidableEq, Repr

/-- The entry is there and is the mod's. A command binding counts as there
while a name leads to it; a money slot is the mod's whose dylib its callback lies in. -/
def State.Owns (env : Env) (s : State) (m : ModId) : Entry → Prop
  | .task id => ∃ task, s.scheduler.gPendingTasks.lookup id = some task ∧ task.mod = m
  | .sub id => ∃ sub, s.bus.gSubs.lookup id = some sub ∧ sub.mod = m
  | .service id => ∃ svc, s.services.gServices.lookup id = some svc ∧ svc.mod = m
  | .lane id => ∃ lane, s.lane.gLanes.lookup id = some lane ∧ lane.mod = m
  | .lease id => ∃ lease, s.lane.gLeases.lookup id = some lease ∧ lease.holder = m
  | .binding b => (∃ name, s.commands.gCommands.lookup name = some b) ∧ (s.commands.binding b).mod = some m
  | .form ticket => ∃ pending, s.forms.gPendingForms.lookup ticket = some pending ∧ pending.mod = m
  | .kvdb h => ∃ e, s.kvdb.gKvDbs.lookup h = some e ∧ e.mod = m
  | .hookSub id => ∃ sub, s.events.hooks.Listed sub ∧ sub.id = id ∧ sub.mod = m
  | .listener id => ∃ slot ∈ s.events.listenersOf m, slot.id = id
  | .packetSub addr => ∃ sub ∈ s.packets.packetSubs, sub.addr = addr ∧ sub.mod = some m
  | .connSub addr => ∃ sub ∈ s.packets.connSubs, sub.addr = addr ∧ sub.mod = some m
  | .money slot => ∃ fn, s.money.get slot = some fn ∧ env.image fn = some m

def laneCallbacks (desc : Lane.LaneDesc) : List Ptr :=
  desc.vtable.toList ++ desc.retain.toList ++ desc.release.toList

/-- What stands under a key: whose it is, which for a packet or connection
subscription may be nobody's, and the callbacks it holds. A command binding
stands while a name or an executor leads to it. -/
def State.Has (env : Env) (s : State) : Entry → Option ModId → List Ptr → Prop
  | .task id, mod, fns =>
    ∃ task, s.scheduler.gPendingTasks.lookup id = some task ∧ some task.mod = mod ∧ [task.cb.fn] = fns
  | .sub id, mod, fns => ∃ sub, s.bus.gSubs.lookup id = some sub ∧ some sub.mod = mod ∧ [sub.cb.fn] = fns
  | .service id, mod, fns =>
    ∃ svc, s.services.gServices.lookup id = some svc ∧ some svc.mod = mod ∧ [svc.cb.fn] = fns
  | .lane id, mod, fns =>
    ∃ lane, s.lane.gLanes.lookup id = some lane ∧ some lane.mod = mod ∧ laneCallbacks lane.desc = fns
  | .lease id, mod, fns => ∃ lease, s.lane.gLeases.lookup id = some lease ∧ some lease.holder = mod ∧ [] = fns
  | .binding b, mod, fns =>
    ((∃ name, s.commands.gCommands.lookup name = some b) ∨ ∃ e ∈ s.commands.executors, e.binding = b) ∧
      (s.commands.binding b).mod.isSome ∧ (s.commands.binding b).mod = mod ∧ (s.commands.binding b).cb.toList = fns
  | .form ticket, mod, fns =>
    ∃ pending, s.forms.gPendingForms.lookup ticket = some pending ∧ some pending.mod = mod ∧ [pending.cb.fn] = fns
  | .kvdb h, mod, fns => ∃ e, s.kvdb.gKvDbs.lookup h = some e ∧ some e.mod = mod ∧ [] = fns
  | .hookSub id, mod, fns => ∃ sub, s.events.hooks.Listed sub ∧ sub.id = id ∧ some sub.mod = mod ∧ [sub.cb.fn] = fns
  | .listener id, mod, fns =>
    ∃ m, ∃ slot ∈ s.events.listenersOf m, slot.id = id ∧ some m = mod ∧ [slot.listener.cb.fn] = fns
  | .packetSub addr, mod, fns => ∃ sub ∈ s.packets.packetSubs, sub.addr = addr ∧ sub.mod = mod ∧ [sub.cb.fn] = fns
  | .connSub addr, mod, fns => ∃ sub ∈ s.packets.connSubs, sub.addr = addr ∧ sub.mod = mod ∧ [sub.cb.fn] = fns
  | .money slot, mod, fns => ∃ fn, s.money.get slot = some fn ∧ env.image fn = mod ∧ [fn] = fns

/-- A mod owns what stands under a key as its own; of the bindings, those with a name. -/
theorem owns_iff {env : Env} {s : State} {m : ModId} {e : Entry} (he : ∀ b, e ≠ .binding b) :
    s.Owns env m e ↔ ∃ fns, s.Has env e (some m) fns := by
  cases e with
  | binding b => exact absurd rfl (he b)
  | listener id => simp [State.Owns, State.Has]
  | _ => simp [State.Owns, State.Has]

theorem State.Owns.has {env : Env} {s : State} {m : ModId} {e : Entry} (h : s.Owns env m e) :
    ∃ fns, s.Has env e (some m) fns := by
  cases e with
  | binding b =>
    obtain ⟨hname, hm⟩ := h
    exact ⟨_, .inl hname, by rw [hm]; rfl, hm, rfl⟩
  | _ => exact (owns_iff (by simp)).mp h

/-- Ids start at 1, so 0 can stand for a refusal, and names lead to bindings that are there. -/
structure State.WellFormed (s : State) : Prop where
  task : 0 < s.scheduler.gNextTaskId
  sub : 0 < s.bus.gNextSubId
  service : 0 < s.services.gNextId
  lane : 0 < s.lane.gNextLaneId
  binding : ∀ name b, s.commands.gCommands.lookup name = some b → b < s.commands.bindings.length

theorem wellFormed_initial (hookEvents : List String) : (State.initial hookEvents).WellFormed :=
  ⟨Nat.one_pos, Nat.one_pos, Nat.one_pos, Nat.one_pos, by simp [State.initial, Commands.Registry.initial]⟩

theorem not_has_initial (env : Env) (hookEvents : List String) (e : Entry) (mod : Option ModId) (fns : List Ptr) :
    ¬(State.initial hookEvents).Has env e mod fns := by
  cases e with
  | money slot => cases slot <;> simp [State.Has, State.initial, Money.Registry.initial, Money.Registry.get]
  | hookSub id =>
    intro h
    obtain ⟨sub, hl, _⟩ := h
    exact HookEvents.initial_not_listed _ _ hl
  | _ =>
    simp [State.Has, State.initial, Scheduler.Registry.initial, Bus.Tables.initial, Services.Registry.initial,
      Lane.Lanes.initial, Commands.Registry.initial, Forms.Registry.initial, KvDb.Registry.initial,
      Events.Registry.initial, Events.Registry.listenersOf, PacketHooks.Registry.initial]

theorem not_owns_initial (env : Env) (hookEvents : List String) (m : ModId) (e : Entry) :
    ¬(State.initial hookEvents).Owns env m e := by
  intro h
  obtain ⟨fns, h⟩ := h.has
  exact not_has_initial env hookEvents e (some m) fns h

/-! ## Calls -/

/-- What reaches a registry: the API's functions, and the two the engine runs
for a mod (`runTask`, `completeTicket`). What a call learns from the engine
while it runs is an argument of it. -/
inductive Call where
  | api_schedule_for (live : ModId → Bool) (mod : Option ModId) (cb : Option Ptr) (user : Ptr)
  | api_schedule_after_for (live : ModId → Bool) (mod : Option ModId) (cb : Option Ptr) (user : Ptr)
      (delayMs : UInt64)
  | api_schedule_cancel (mod : Option ModId) (taskId : Nat)
  | runTask (live enabled : ModId → Bool) (weakMod : ModId) (id : Nat)
  | api_bus_subscribe (live : ModId → Bool) (mod : Option ModId) (topic : String) (cb : Option Ptr) (user : Ptr)
  | api_bus_unsubscribe (mod : Option ModId) (subId : Nat)
  | api_service_register (live : ModId → Bool) (mod : Option ModId) (name : String) (cb : Option Ptr) (user : Ptr)
  | api_service_unregister (mod : Option ModId) (regId : Nat)
  | api_lane_publish (live : ModId → Bool) (mod : Option ModId) (name : String) (desc : Option Lane.LaneDesc)
  | api_lane_unpublish (mod : Option ModId) (pubId : Nat)
  | api_lane_acquire (live : ModId → Bool) (mod : Option ModId) (name : String) (wantFingerprint : UInt64)
      (out : Option Lane.LaneRef)
  | api_lane_release (mod : Option ModId) (leaseId : Nat)
  | api_register_command (c : CommandRuns.RegisterCall)
  | api_form_send (live : ModId → Bool) (mod : Option ModId) (player spec : Bool) (kind : Int32)
      (engine : Option Bool) (cb : Option Ptr) (user : Ptr)
  | completeTicket (live enabled : ModId → Bool) (weakMod : ModId) (ticket : Nat)
  | api_kvdb_open (constructs : WinPath.Text → Bool → Bool) (mod : Option ModId) (path : WinPath.Text)
      (createIfMissing : Bool)
  | api_kvdb_close (h : Nat)
  | api_subscribe_event (resolveEventId : String → Option String) (addListener : String → Bool)
      (mod : Option ModId) (eventId : String) (priority : Int32) (cb : Option Ptr) (user : Ptr)
  | api_unsubscribe_event (removeListener : Bool) (mod : Option ModId) (handle : Option Nat)
  | api_packet_hook_register (mod : Option ModId) (dirMask : UInt32) (cb : Option Ptr) (user : Ptr)
  | api_packet_hook_unregister (mod : Option ModId) (handle : Option Nat)
  | api_packet_conn_hook_register (mod : Option ModId) (cb : Option Ptr) (user : Ptr)
  | api_packet_conn_hook_unregister (mod : Option ModId) (handle : Option Nat)
  | api_money_listen_before_event (moneyBackendReady : Bool) (callback : Option Ptr)
  | api_money_listen_after_event (moneyBackendReady : Bool) (callback : Option Ptr)

/-- The registries after a call that runs to its end. -/
def Call.apply (env : Env) (s : State) : Call → State
  | .api_schedule_for live mod cb user =>
    { s with scheduler := (Scheduler.api_schedule_for live mod cb user s.scheduler).2.2 }
  | .api_schedule_after_for live mod cb user delayMs =>
    { s with scheduler := (Scheduler.api_schedule_after_for live mod cb user delayMs s.scheduler).2.2 }
  | .api_schedule_cancel mod taskId =>
    { s with scheduler := (Scheduler.api_schedule_cancel mod taskId s.scheduler).2 }
  | .runTask live enabled weakMod id =>
    { s with scheduler := (Scheduler.runTask live enabled weakMod id s.scheduler).2 }
  | .api_bus_subscribe live mod topic cb user =>
    { s with bus := (Bus.api_bus_subscribe live mod topic cb user s.bus).2 }
  | .api_bus_unsubscribe mod subId => { s with bus := (Bus.api_bus_unsubscribe mod subId s.bus).2 }
  | .api_service_register live mod name cb user =>
    { s with services := (Services.api_service_register live mod name cb user s.services).2 }
  | .api_service_unregister mod regId =>
    { s with services := (Services.api_service_unregister mod regId s.services).2 }
  | .api_lane_publish live mod name desc => { s with lane := (Lane.api_lane_publish live mod name desc s.lane).2 }
  | .api_lane_unpublish mod pubId =>
    { s with lane := if Lane.unpublishCheck mod pubId s.lane then (Lane.retireLane pubId s.lane).2 else s.lane }
  | .api_lane_acquire live mod name want out =>
    { s with lane := (Lane.api_lane_acquire live mod name want out s.lane).lanes }
  | .api_lane_release mod leaseId => { s with lane := (Lane.api_lane_release mod leaseId s.lane).2.2 }
  | .api_register_command c => { s with commands := (c.run env.floats s.commands).2 }
  | .api_form_send live mod player spec kind engine cb user =>
    { s with forms := (Forms.api_form_send live mod player spec kind engine cb user s.forms).2 }
  | .completeTicket live enabled weakMod ticket =>
    { s with forms := (Forms.completeTicket live enabled weakMod ticket s.forms).2 }
  | .api_kvdb_open constructs mod path createIfMissing =>
    { s with kvdb := (KvDb.api_kvdb_open env.getDataDir constructs mod path createIfMissing s.kvdb).2.2 }
  | .api_kvdb_close h => { s with kvdb := KvDb.api_kvdb_close h s.kvdb }
  | .api_subscribe_event resolveEventId addListener mod eventId priority cb user =>
    { s with
      events := (Events.api_subscribe_event resolveEventId addListener mod eventId priority cb user s.events).2 }
  | .api_unsubscribe_event removeListener mod handle =>
    { s with events := (Events.api_unsubscribe_event removeListener mod handle s.events).2 }
  | .api_packet_hook_register mod dirMask cb user =>
    { s with packets := (PacketHooks.api_packet_hook_register mod dirMask cb user s.packets).2 }
  | .api_packet_hook_unregister mod handle =>
    { s with packets := (PacketHooks.api_packet_hook_unregister mod handle s.packets).2 }
  | .api_packet_conn_hook_register mod cb user =>
    { s with packets := (PacketHooks.api_packet_conn_hook_register mod cb user s.packets).2 }
  | .api_packet_conn_hook_unregister mod handle =>
    { s with packets := (PacketHooks.api_packet_conn_hook_unregister mod handle s.packets).2 }
  | .api_money_listen_before_event ready callback =>
    { s with money := Money.api_money_listen_before_event ready callback s.money }
  | .api_money_listen_after_event ready callback =>
    { s with money := Money.api_money_listen_after_event ready callback s.money }

/-- The entry an id names; the id 0 is a refusal. -/
def ofId (mod : Option ModId) (id : Nat) (entry : Nat → Entry) : Option (Entry × ModId) :=
  if id = 0 then none else mod.map (entry id, ·)

/-- The entry a handle names; a null handle is a refusal. -/
def ofHandle (mod : Option ModId) (handle : Option Nat) (entry : Nat → Entry) : Option (Entry × ModId) :=
  handle.bind fun h => mod.map (entry h, ·)

/-- The entry a call makes and the mod it makes it for, read off its answer. -/
def Call.registers (env : Env) (s : State) : Call → Option (Entry × ModId)
  | .api_schedule_for live mod cb user =>
    ofId mod (Scheduler.api_schedule_for live mod cb user s.scheduler).1 .task
  | .api_schedule_after_for live mod cb user delayMs =>
    ofId mod (Scheduler.api_schedule_after_for live mod cb user delayMs s.scheduler).1 .task
  | .api_bus_subscribe live mod topic cb user =>
    ofId mod (Bus.api_bus_subscribe live mod topic cb user s.bus).1 .sub
  | .api_service_register live mod name cb user =>
    ofId mod (Services.api_service_register live mod name cb user s.services).1 .service
  | .api_lane_publish live mod name desc => ofId mod (Lane.api_lane_publish live mod name desc s.lane).1 .lane
  | .api_lane_acquire live mod name want out =>
    if (Lane.api_lane_acquire live mod name want out s.lane).code = Lane.LEVI_RS_LANE_OK then
      mod.map (.lease s.lane.gNextLeaseId, ·)
    else none
  | .api_register_command c =>
    if (c.run env.floats s.commands).1 then
      ofHandle c.mod (Commands.claimed c.mod c.name (c.overloads env.floats) c.cb s.commands) .binding
    else none
  | .api_form_send live mod player spec kind engine cb user =>
    if (Forms.api_form_send live mod player spec kind engine cb user s.forms).1 then
      mod.map (.form s.forms.gNextTicket, ·)
    else none
  | .api_kvdb_open constructs mod path createIfMissing =>
    ofHandle mod (KvDb.api_kvdb_open env.getDataDir constructs mod path createIfMissing s.kvdb).1 .kvdb
  | .api_subscribe_event resolveEventId addListener mod eventId priority cb user =>
    ofHandle mod
      (Events.api_subscribe_event resolveEventId addListener mod eventId priority cb user s.events).1
      (if Events.takesHook mod eventId cb user s.events then .hookSub else .listener)
  | .api_packet_hook_register mod dirMask cb user =>
    ofHandle mod (PacketHooks.api_packet_hook_register mod dirMask cb user s.packets).1 .packetSub
  | .api_packet_conn_hook_register mod cb user =>
    ofHandle mod (PacketHooks.api_packet_conn_hook_register mod cb user s.packets).1 .connSub
  | .api_money_listen_before_event _ callback => callback.bind fun fn => (env.image fn).map (.money .before, ·)
  | .api_money_listen_after_event _ callback => callback.bind fun fn => (env.image fn).map (.money .after, ·)
  | _ => none

/-- The entry an id names, for whichever handle; the id 0 is a refusal. -/
def madeId (mod : Option ModId) (id : Nat) (entry : Nat → Entry) : Option (Entry × Option ModId) :=
  if id = 0 then none else some (entry id, mod)

/-- The entry a handle names, for whichever handle of a mod. -/
def madeHandle (mod : Option ModId) (handle : Option Nat) (entry : Nat → Entry) : Option (Entry × Option ModId) :=
  handle.map (entry ·, mod)

/-- The entry a call makes or fills, with the handle it was given. A command
that is half registered when it throws counts. -/
def Call.makes (env : Env) (s : State) : Call → Option (Entry × Option ModId)
  | .api_schedule_for live mod cb user =>
    madeId mod (Scheduler.api_schedule_for live mod cb user s.scheduler).1 .task
  | .api_schedule_after_for live mod cb user delayMs =>
    madeId mod (Scheduler.api_schedule_after_for live mod cb user delayMs s.scheduler).1 .task
  | .api_bus_subscribe live mod topic cb user =>
    madeId mod (Bus.api_bus_subscribe live mod topic cb user s.bus).1 .sub
  | .api_service_register live mod name cb user =>
    madeId mod (Services.api_service_register live mod name cb user s.services).1 .service
  | .api_lane_publish live mod name desc => madeId mod (Lane.api_lane_publish live mod name desc s.lane).1 .lane
  | .api_lane_acquire live mod name want out =>
    if (Lane.api_lane_acquire live mod name want out s.lane).code = Lane.LEVI_RS_LANE_OK then
      some (.lease s.lane.gNextLeaseId, mod)
    else none
  | .api_register_command c =>
    madeHandle c.mod (Commands.claimed c.mod c.name (c.overloads env.floats) c.cb s.commands) .binding
  | .api_form_send live mod player spec kind engine cb user =>
    if (Forms.api_form_send live mod player spec kind engine cb user s.forms).1 then
      some (.form s.forms.gNextTicket, mod)
    else none
  | .api_kvdb_open constructs mod path createIfMissing =>
    madeHandle mod (KvDb.api_kvdb_open env.getDataDir constructs mod path createIfMissing s.kvdb).1 .kvdb
  | .api_subscribe_event resolveEventId addListener mod eventId priority cb user =>
    madeHandle mod
      (Events.api_subscribe_event resolveEventId addListener mod eventId priority cb user s.events).1
      (if Events.takesHook mod eventId cb user s.events then .hookSub else .listener)
  | .api_packet_hook_register mod dirMask cb user =>
    madeHandle mod (PacketHooks.api_packet_hook_register mod dirMask cb user s.packets).1 .packetSub
  | .api_packet_conn_hook_register mod cb user =>
    madeHandle mod (PacketHooks.api_packet_conn_hook_register mod cb user s.packets).1 .connSub
  | .api_money_listen_before_event _ callback => callback.map fun fn => (.money .before, env.image fn)
  | .api_money_listen_after_event _ callback => callback.map fun fn => (.money .after, env.image fn)
  | _ => none

/-- The callbacks a call hands over. -/
def Call.callbacks : Call → List Ptr
  | .api_schedule_for _ _ cb _ | .api_schedule_after_for _ _ cb _ _ | .api_bus_subscribe _ _ _ cb _
  | .api_service_register _ _ _ cb _ | .api_form_send _ _ _ _ _ _ cb _ | .api_subscribe_event _ _ _ _ _ cb _
  | .api_packet_hook_register _ _ cb _ | .api_packet_conn_hook_register _ cb _ => cb.toList
  | .api_lane_publish _ _ _ desc => desc.toList.flatMap laneCallbacks
  | .api_register_command c => c.cb.toList
  | .api_money_listen_before_event _ callback | .api_money_listen_after_event _ callback => callback.toList
  | _ => []

/-! ## Sweeps -/

/-- The parts of `onRustModGone` that call nothing outside the loader; the lane
part, which does, stands between `services` and `commands`. -/
inductive Sweep where
  | scheduler | bus | services | commands | forms | kvdb | hookEvents | packetHooks | money
  deriving DecidableEq, Repr

def Sweep.apply (env : Env) (m : ModId) (s : State) : Sweep → State
  | .scheduler => { s with scheduler := Scheduler.schedulerOnRustModGone m s.scheduler }
  | .bus => { s with bus := Bus.busOnRustModGone m s.bus }
  | .services => { s with services := Services.servicesOnRustModGone m s.services }
  | .commands => { s with commands := Commands.commandsOnRustModGone m s.commands }
  | .forms => { s with forms := Forms.formsOnRustModGone m s.forms }
  | .kvdb => { s with kvdb := KvDb.kvdbOnRustModGone m s.kvdb }
  | .hookEvents => { s with events := { s.events with hooks := HookEvents.hookEventDropMod m s.events.hooks } }
  | .packetHooks => { s with packets := PacketHooks.packetHooksOnRustModGone m s.packets }
  | .money => { s with money := Money.moneyOnRustModGone env.image m s.money }

/-- The sweep whose business an entry is; lanes, leases and listeners have none of their own. -/
def Entry.sweep : Entry → Option Sweep
  | .task _ => some .scheduler
  | .sub _ => some .bus
  | .service _ => some .services
  | .lane _ => none
  | .lease _ => none
  | .binding _ => some .commands
  | .form _ => some .forms
  | .kvdb _ => some .kvdb
  | .hookSub _ => some .hookEvents
  | .listener _ => none
  | .packetSub _ => some .packetHooks
  | .connSub _ => some .packetHooks
  | .money _ => some .money

end Loader
