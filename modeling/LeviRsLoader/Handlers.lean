import LeviRsLoader.BusDispatch
import LeviRsLoader.Commands
import LeviRsLoader.Services
import Mathlib.Logic.Relator

/-!
# Handlers on the stack

Bus, service and command handlers are closures that a mod boxes; the loader
keeps the raw pointer of the box and calls through it. A handler may publish,
call a service, execute a command, register more handlers and drop those it
has, so the calls in progress form one stack over the three registries. A
closure is named by its number among the boxes made so far.
-/
namespace Handlers

open LeviRs Runs

/-- A `Subscription` or `Registration`, and the mod whose code holds it. -/
structure Guard where
  mod : ModId
  id : Nat
  cb : Ptr
  deriving DecidableEq

/-- The registries with their nesting depths, the mods, and what the mods hold. -/
structure World where
  bus : Bus.Tables
  services : Services.Registry
  commands : Commands.Registry
  busDepth : Nat
  serviceDepth : Nat
  alive : ModId → Bool
  enabled : ModId → Bool
  muted : ModId → Bool
  levelReady : Bool
  subscriptions : List Guard
  registrations : List Guard
  boxed : Nat

/-! ## What a mod does besides calling -/

inductive Op where
  | subscribe (mod : ModId) (topic : String) (fn : Ptr)
  | dropSubscription (g : Guard)
  | forgetSubscription (g : Guard)
  | register (mod : ModId) (name : String) (fn : Ptr)
  | dropRegistration (g : Guard)
  | forgetRegistration (g : Guard)
  | registerCommand (mod : ModId) (name : String) (fn : Ptr) (overloads : Option (List Commands.Overload))
      (throwsAt : Option Nat)
  | modGone (mod : ModId)
  | setMods (alive enabled muted : ModId → Bool) (levelReady : Bool)

/-- `bus::subscribe`, and the boxes it frees. -/
def World.subscribe (w : World) (mod : ModId) (topic : String) (fn : Ptr) : World × List Ptr :=
  match Bus.api_bus_subscribe w.alive (some mod) topic (some fn) w.boxed w.bus with
  | (id, bus) =>
    if id = 0 then ({ w with bus := bus, boxed := w.boxed + 1 }, [w.boxed])
    else ({ w with bus := bus, boxed := w.boxed + 1, subscriptions := ⟨mod, id, w.boxed⟩ :: w.subscriptions }, [])

/-- `Subscription::drop`. -/
def World.dropSubscription (w : World) (g : Guard) : World × List Ptr :=
  if g.id = 0 then ({ w with subscriptions := w.subscriptions.erase g }, [])
  else match Bus.api_bus_unsubscribe (some g.mod) g.id w.bus with
    | (removed, bus) =>
      ({ w with bus := bus, subscriptions := w.subscriptions.erase g }, if removed then [g.cb] else [])

/-- `service::register`. -/
def World.register (w : World) (mod : ModId) (name : String) (fn : Ptr) : World × List Ptr :=
  match Services.api_service_register w.alive (some mod) name (some fn) w.boxed w.services with
  | (id, services) =>
    if id = 0 then ({ w with services := services, boxed := w.boxed + 1 }, [w.boxed])
    else ({ w with services := services, boxed := w.boxed + 1,
                   registrations := ⟨mod, id, w.boxed⟩ :: w.registrations }, [])

/-- `Registration::drop`. -/
def World.dropRegistration (w : World) (g : Guard) : World × List Ptr :=
  if g.id = 0 then ({ w with registrations := w.registrations.erase g }, [])
  else match Services.api_service_unregister (some g.mod) g.id w.services with
    | (removed, services) =>
      ({ w with services := services, registrations := w.registrations.erase g }, if removed then [g.cb] else [])

/-- `Server::register_command` and `CommandBuilder::register`. -/
def World.registerCommand (w : World) (mod : ModId) (name : String) (fn : Ptr)
    (overloads : Option (List Commands.Overload)) (throwsAt : Option Nat) : World × List Ptr :=
  match Commands.registerOverloads (some mod) name overloads (some fn) w.boxed throwsAt w.commands with
  | (ok, commands) => ({ w with commands := commands, boxed := w.boxed + 1 }, if ok then [] else [w.boxed])

/-- The world after, and the boxes freed on the way. -/
def Op.apply (w : World) : Op → World × List Ptr
  | .subscribe mod topic fn => w.subscribe mod topic fn
  | .dropSubscription g => w.dropSubscription g
  | .forgetSubscription g => ({ w with subscriptions := w.subscriptions.erase g }, [])
  | .register mod name fn => w.register mod name fn
  | .dropRegistration g => w.dropRegistration g
  | .forgetRegistration g => ({ w with registrations := w.registrations.erase g }, [])
  | .registerCommand mod name fn overloads throwsAt => w.registerCommand mod name fn overloads throwsAt
  | .modGone mod =>
    ({ w with bus := Bus.busOnRustModGone mod w.bus, services := Services.servicesOnRustModGone mod w.services,
              commands := Commands.commandsOnRustModGone mod w.commands }, [])
  | .setMods alive enabled muted levelReady =>
    ({ w with alive := alive, enabled := enabled, muted := muted, levelReady := levelReady }, [])

/-- A value can be given up by whoever holds it, once. -/
def Op.Held (w : World) : Op → Prop
  | .dropSubscription g | .forgetSubscription g => g ∈ w.subscriptions
  | .dropRegistration g | .forgetRegistration g => g ∈ w.registrations
  | _ => True

/-! ## Calls -/

/-- What a call is known by: its subscription, its registration, or, for a
command, its binding and the pointer the binding held. -/
inductive Ticket where
  | sub (id : Nat)
  | svc (id : Nat)
  | cmd (binding : Nat) (user : Ptr)
  deriving DecidableEq

/-- The loader's side of a request in progress: what it has still to call, and
the result so far. -/
inductive Work where
  | publish (topic : String) (ahead : List Nat) (acc : BusDispatch.Result)
  | call (ahead : Option (Nat × Services.Service)) (status : Services.Status)
  | execute (ahead : List Commands.Executor)

/-- `execute`: the executors the engine runs for a command. -/
inductive Request where
  | publish (publisher : Option ModId) (topic : String)
  | call (caller : Option ModId) (name : String)
  | execute (executors : List Commands.Executor)

/-- What a request starts, unless it is turned down. -/
def Request.work (w : World) : Request → Option Work
  | .publish publisher topic =>
    if Bus.validTopic topic && decide (w.busDepth < Bus.kMaxDepth) then
      some (.publish topic (Bus.idsFor topic publisher w.bus) ⟨0, false⟩)
    else none
  | .call caller name => match Services.provider w.alive w.serviceDepth caller name w.services with
    | .ok p => some (.call (some p) .error)
    | .error _ => none
  | .execute executors =>
    if w.levelReady && executors.all (fun e => decide (e ∈ w.commands.executors)) then some (.execute executors)
    else none

/-- `fireOne` up to the call. -/
def fireOne (w : World) (id : Nat) : Option Bus.Subscription :=
  (w.bus.gSubs.lookup id).filter fun sub => w.alive sub.mod && w.enabled sub.mod

/-- The next turn: what is called, if anything, and the work left. -/
def Work.turn (w : World) : Work → Option (Option (Ticket × Ptr) × Work)
  | .publish topic (id :: ids) acc =>
    some ((fireOne w id).map fun sub => (.sub id, sub.cb.user), .publish topic ids acc)
  | .call (some (id, svc)) status => some (some (.svc id, svc.cb.user), .call none status)
  | .execute (e :: es) =>
    some ((e.call w.muted w.commands).map fun c => (.cmd e.binding c.2.user, c.2.user), .execute es)
  | _ => none

/-- A handler has returned: its veto, or whether it answered. -/
def Work.absorb (reply : Bool) : Work → Work
  | .publish topic ahead acc => .publish topic ahead ⟨acc.delivered + 1, acc.vetoed || reply⟩
  | .call ahead _ => .call ahead (if reply then .ok else .error)
  | .execute ahead => .execute ahead

def Work.opened (w : World) : Work → World
  | .publish .. => { w with busDepth := w.busDepth + 1 }
  | .call .. => { w with serviceDepth := w.serviceDepth + 1 }
  | .execute _ => w

def Work.closed (w : World) : Work → World
  | .publish .. => { w with busDepth := w.busDepth - 1 }
  | .call .. => { w with serviceDepth := w.serviceDepth - 1 }
  | .execute _ => w

/-- A request in progress; while a handler of it runs, how the call is known
and the closure entered. -/
structure Frame where
  work : Work
  running : Option (Ticket × Ptr)

structure State where
  world : World
  stack : List Frame

inductive Label where
  | begin (r : Request)
  | op (o : Op)
  | enter (t : Ticket) (closure : Ptr)
  | skip
  | leave (reply : Bool)
  | finish

/-- A mod is in control: nothing is in progress, or a handler is on top. -/
def InMod : List Frame → Prop
  | [] => True
  | f :: _ => f.running.isSome

inductive Step : State → Label → State → Prop where
  | begin {w : World} {stack : List Frame} {r : Request} {work : Work} (hm : InMod stack) (hr : r.work w = some work) :
      Step ⟨w, stack⟩ (.begin r) ⟨work.opened w, ⟨work, none⟩ :: stack⟩
  | refuse {w : World} {stack : List Frame} {r : Request} (hm : InMod stack) (hr : r.work w = none) :
      Step ⟨w, stack⟩ (.begin r) ⟨w, stack⟩
  | op {w : World} {stack : List Frame} {o : Op} (hm : InMod stack) (ho : o.Held w) :
      Step ⟨w, stack⟩ (.op o) ⟨(o.apply w).1, stack⟩
  | enter {w : World} {stack : List Frame} {work work' : Work} {t : Ticket} {c : Ptr}
      (ht : work.turn w = some (some (t, c), work')) :
      Step ⟨w, ⟨work, none⟩ :: stack⟩ (.enter t c) ⟨w, ⟨work', some (t, c)⟩ :: stack⟩
  | skip {w : World} {stack : List Frame} {work work' : Work} (ht : work.turn w = some (none, work')) :
      Step ⟨w, ⟨work, none⟩ :: stack⟩ .skip ⟨w, ⟨work', none⟩ :: stack⟩
  | leave {w : World} {stack : List Frame} {work : Work} {call : Ticket × Ptr} (reply : Bool) :
      Step ⟨w, ⟨work, some call⟩ :: stack⟩ (.leave reply) ⟨w, ⟨work.absorb reply, none⟩ :: stack⟩
  | finish {w : World} {stack : List Frame} {work : Work} (ht : work.turn w = none) :
      Step ⟨w, ⟨work, none⟩ :: stack⟩ .finish ⟨work.closed w, stack⟩

def start (alive enabled muted : ModId → Bool) (levelReady : Bool) : State :=
  ⟨⟨Bus.Tables.initial, Services.Registry.initial, Commands.Registry.initial, 0, 0, alive, enabled, muted, levelReady,
    [], [], 0⟩, []⟩

/-! ## Whom a request gets to -/

/-- Where a handler is registered. A command keeps its binding when it is
registered again. -/
inductive Place where
  | subscription (id : Nat)
  | registration (id : Nat)
  | command (binding : Nat)
  deriving DecidableEq

def Ticket.place : Ticket → Place
  | .sub id => .subscription id
  | .svc id => .registration id
  | .cmd binding _ => .command binding

/-- The handlers a request gets to past the guards: on a topic those of the
other mods, while the bus is not nested too deeply, the provider likewise, and
for a command whatever its executors are bound to. -/
inductive Request.Reaches (w : World) : Request → Place → Prop where
  | subscriber {publisher : Option ModId} {topic : String} {id : Nat} {sub : Bus.Subscription}
      (hlisted : id ∈ (w.bus.gByTopic.lookup topic).getD []) (hl : w.bus.gSubs.lookup id = some sub)
      (hother : some sub.mod ≠ publisher) (hdepth : w.busDepth < Bus.kMaxDepth) :
      Reaches w (.publish publisher topic) (.subscription id)
  | provider {caller : Option ModId} {name : String} {id : Nat} {svc : Services.Service}
      (hnamed : w.services.gByName.lookup name = some id) (hl : w.services.gServices.lookup id = some svc)
      (hother : caller ≠ some svc.mod) (hdepth : w.serviceDepth < Services.kMaxDepth) :
      Reaches w (.call caller name) (.registration id)
  | executor {executors : List Commands.Executor} {e : Commands.Executor} (he : e ∈ executors) :
      Reaches w (.execute executors) (.command e.binding)

/-- What is still to be called. -/
def Work.places : Work → List Place
  | .publish _ ahead _ => ahead.map .subscription
  | .call ahead _ => (ahead.map fun p => Place.registration p.1).toList
  | .execute ahead => ahead.map fun e => .command e.binding

def Frame.place (f : Frame) : Option Place := f.running.map fun call => call.1.place

def Frame.places (f : Frame) : List Place := f.place.toList ++ f.work.places

theorem reaches_work {w : World} {r : Request} {work : Work} (hr : r.work w = some work) {q : Place}
    (hq : q ∈ work.places) : r.Reaches w q := by
  cases r with
  | publish publisher topic =>
    simp only [Request.work, Bool.and_eq_true, decide_eq_true_eq] at hr
    split_ifs at hr with hadmits
    cases hr
    obtain ⟨id, hid, rfl⟩ := List.mem_map.mp hq
    unfold Bus.idsFor at hid
    split at hid
    · cases hid
    · next ids hids =>
      obtain ⟨hmem, hkept⟩ := List.mem_filter.mp hid
      split at hkept
      · cases hkept
      · next sub hl => exact .subscriber (by rwa [hids]) hl (bne_iff_ne.mp hkept) hadmits.2
  | call caller name =>
    simp only [Request.work] at hr
    split at hr
    · next p hp =>
      cases hr
      obtain rfl := List.mem_singleton.mp hq
      obtain ⟨hdepth, hnamed, hl, hother⟩ := Services.provider_ok hp
      exact .provider hnamed hl hother hdepth
    · cases hr
  | execute executors =>
    simp only [Request.work] at hr
    split_ifs at hr
    cases hr
    obtain ⟨e, he, rfl⟩ := List.mem_map.mp hq
    exact .executor he

/-- At a turn what is called comes off what was still to be called. -/
theorem places_turn {w : World} {work work' : Work} {next : Option (Ticket × Ptr)}
    (h : work.turn w = some (next, work')) {q : Place} (hq : q ∈ Frame.places ⟨work', next⟩) : q ∈ work.places := by
  cases work with
  | publish topic ahead acc =>
    cases ahead with
    | nil => cases h
    | cons id ids =>
      cases h
      cases hf : fireOne w id with
      | none =>
        have hrest : q ∈ Work.places (.publish topic ids acc) := by simpa [Frame.places, Frame.place, hf] using hq
        exact List.mem_cons_of_mem _ hrest
      | some sub => simpa [Frame.places, Frame.place, Work.places, Ticket.place, hf] using hq
  | call ahead status =>
    cases ahead with
    | none => cases h
    | some p =>
      cases h
      simpa [Frame.places, Frame.place, Work.places, Ticket.place] using hq
  | execute ahead =>
    cases ahead with
    | nil => cases h
    | cons e es =>
      cases h
      cases he : e.call w.muted w.commands with
      | none =>
        have hrest : q ∈ Work.places (.execute es) := by simpa [Frame.places, Frame.place, he] using hq
        exact List.mem_cons_of_mem _ hrest
      | some c => simpa [Frame.places, Frame.place, Work.places, Ticket.place, he] using hq

/-! ## The bus seen on its own -/

def World.busRegistry (w : World) : BusDispatch.Registry := ⟨w.bus, w.busDepth, w.alive, w.enabled⟩

/-- A publish starts here when it does in the bus's own model, with the same snapshot. -/
theorem work_publish (w : World) (publisher : Option ModId) (topic payload : String) :
    (Request.publish publisher topic).work w =
      if BusDispatch.bus.admits ⟨publisher, topic, payload⟩ w.busRegistry then
        some (.publish topic (BusDispatch.bus.snapshot ⟨publisher, topic, payload⟩ w.busRegistry) ⟨0, false⟩)
      else none := rfl

/-- At its turn a subscription is called here when the bus's own model calls it. -/
theorem fireOne_isSome (w : World) (id : Nat) : (fireOne w id).isSome = BusDispatch.accepts w.busRegistry id := by
  unfold fireOne BusDispatch.accepts
  cases hl : w.bus.gSubs.lookup id with
  | none => simp [World.busRegistry, hl]
  | some sub => cases ha : w.alive sub.mod && w.enabled sub.mod <;> simp [World.busRegistry, Option.filter, hl, ha]

end Handlers
