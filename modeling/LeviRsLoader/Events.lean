import LeviRsLoader.HookEvents

/-!
# Event listeners

The subscriptions of `Events.cpp`. A hook event goes to the hook table; any
other listener is kept by its mod's own `RustMod`, and lives as long as it is
listed there.
-/
namespace Events

open LeviRs HookEvents

inductive EventPriority where
  | highest | high | normal | low | lowest
  deriving DecidableEq, Repr

/-- The ABI speaks 0..4; anything else is normal. -/
def priorityOf (priority : Int32) : EventPriority :=
  if priority = 0 then .highest
  else if priority = 1 then .high
  else if priority = 3 then .low
  else if priority = 4 then .lowest
  else .normal

structure Listener where
  idName : String
  prio : EventPriority
  cb : Callback
  deriving DecidableEq, Repr

structure ListenerSlot where
  id : Nat
  listener : Listener
  deriving DecidableEq, Repr

structure Registry where
  listeners : Table ModId (List ListenerSlot)
  hooks : HookEvents.Registry

def Registry.initial (names : List String) : Registry := ⟨∅, .initial names⟩

def Registry.listenersOf (r : Registry) (mod : ModId) : List ListenerSlot := (r.listeners.lookup mod).getD []

/-- `mod->listeners.push_back({nextListenerId(), listener})` -/
def pushListener (mod : ModId) (listener : Listener) (r : Registry) : Option Nat × Registry :=
  (some r.hooks.nextListenerId,
    { listeners := r.listeners.insert mod (r.listenersOf mod ++ [⟨r.hooks.nextListenerId, listener⟩]),
      hooks := { r.hooks with nextListenerId := r.hooks.nextListenerId + 1 } })

/-- `find(needle) != npos` -/
def contains (text needle : String) : Bool := decide (needle.toList <:+: text.toList)

/-- The handle, `none` for a refusal. `resolveEventId` and `addListener` are the engine's event bus. -/
def api_subscribe_event (resolveEventId : String → Option String) (addListener : String → Bool)
    (mod : Option ModId) (eventId : String) (priority : Int32) (cb : Option Ptr) (user : Ptr) (r : Registry) :
    Option Nat × Registry :=
  match mod, cb with
  | some m, some fn =>
    let listen : Option Nat × Registry := match resolveEventId eventId with
      | none => (none, r)
      | some idName =>
        if addListener idName then pushListener m ⟨idName, priorityOf priority, ⟨fn, user⟩⟩ r else (none, r)
    -- command events go to typed listeners and bypass the hook table
    if contains eventId "ExecutingCommandEvent" || contains eventId "ExecutedCommandEvent" then listen
    else match hookEventSubscribe m eventId ⟨fn, user⟩ r.hooks with
      | (some h, hooks) => (some h, { r with hooks := hooks })
      | (none, _) => listen
  | _, _ => (none, r)

/-- The subscription goes to the hook table. -/
def takesHook (mod : Option ModId) (eventId : String) (cb : Option Ptr) (user : Ptr) (r : Registry) : Bool :=
  match mod, cb with
  | some m, some fn =>
    !(contains eventId "ExecutingCommandEvent" || contains eventId "ExecutedCommandEvent") &&
      (hookEventSubscribe m eventId ⟨fn, user⟩ r.hooks).1.isSome
  | _, _ => false

/-- `removeListener` is the engine's answer for the listener taken out. -/
def api_unsubscribe_event (removeListener : Bool) (mod : Option ModId) (handle : Option Nat) (r : Registry) :
    Bool × Registry :=
  match mod, handle with
  | some m, some wanted => match hookEventUnsubscribe m wanted r.hooks with
    | (true, hooks) => (true, { r with hooks := hooks })
    | (false, _) =>
      if (r.listenersOf m).any fun slot => slot.id == wanted then
        (removeListener,
          { r with
            listeners := r.listeners.insert m ((r.listenersOf m).eraseP fun slot => slot.id == wanted) })
      else (false, r)
  | _, _ => (false, r)

/-- `mod->listeners.clear()` -/
def clearListeners (mod : ModId) (r : Registry) : Registry := { r with listeners := r.listeners.insert mod [] }

/-- The mod's `RustMod` is destroyed and its listeners with it. -/
def dropRustMod (mod : ModId) (r : Registry) : Registry := { r with listeners := r.listeners.erase mod }

/-! ## What each operation can do -/

theorem listenersOf_insert (r : Registry) (mod mod' : ModId) (slots : List ListenerSlot) (hooks : HookEvents.Registry) :
    (⟨r.listeners.insert mod slots, hooks⟩ : Registry).listenersOf mod' =
      if mod' = mod then slots else r.listenersOf mod' := by
  rw [Registry.listenersOf, AList.lookup_insert_eq]
  split <;> rfl

theorem listenersOf_erase (r : Registry) (mod mod' : ModId) :
    (dropRustMod mod r).listenersOf mod' = if mod' = mod then [] else r.listenersOf mod' := by
  rw [Registry.listenersOf, dropRustMod, AList.lookup_erase_eq]
  split <;> rfl

/-- A subscription leaves both tables as they are, enters the hook table, or is
listed by its mod; the handle names the new entry. -/
theorem api_subscribe_event_cases (resolveEventId : String → Option String) (addListener : String → Bool)
    (mod : Option ModId) (eventId : String) (priority : Int32) (cb : Option Ptr) (user : Ptr) (r : Registry) :
    api_subscribe_event resolveEventId addListener mod eventId priority cb user r = (none, r) ∨
    ∃ m fn, mod = some m ∧ cb = some fn ∧
      ((takesHook mod eventId cb user r = true ∧
        ∃ table, addSub eventId ⟨m, ⟨fn, user⟩, r.hooks.nextListenerId⟩ r.hooks.table = some table ∧
        api_subscribe_event resolveEventId addListener mod eventId priority cb user r =
          (some r.hooks.nextListenerId, { r with hooks := ⟨table, r.hooks.nextListenerId + 1⟩ })) ∨
      (takesHook mod eventId cb user r = false ∧
        ∃ listener, api_subscribe_event resolveEventId addListener mod eventId priority cb user r =
          pushListener m listener r)) := by
  cases mod with
  | none => exact .inl rfl
  | some m =>
    cases cb with
    | none => exact .inl rfl
    | some fn =>
      have hlisten : (match resolveEventId eventId with
          | none => (none, r)
          | some idName =>
            if addListener idName then pushListener m ⟨idName, priorityOf priority, ⟨fn, user⟩⟩ r
            else (none, r)) = ((none, r) : Option Nat × Registry) ∨
          ∃ listener, (match resolveEventId eventId with
            | none => (none, r)
            | some idName =>
              if addListener idName then pushListener m ⟨idName, priorityOf priority, ⟨fn, user⟩⟩ r
              else (none, r)) = pushListener m listener r := by
        split
        · exact .inl rfl
        · split
          · exact .inr ⟨_, rfl⟩
          · exact .inl rfl
      simp only [api_subscribe_event, takesHook]
      split
      · next hc => exact hlisten.imp_right fun h => ⟨m, fn, rfl, rfl, .inr ⟨by simp [hc], h⟩⟩
      · next hc =>
        cases hadd : addSub eventId ⟨m, ⟨fn, user⟩, r.hooks.nextListenerId⟩ r.hooks.table with
        | none =>
          simp only [hookEventSubscribe, hadd]
          exact hlisten.imp_right fun h => ⟨m, fn, rfl, rfl, .inr ⟨by simp, h⟩⟩
        | some table =>
          simp only [hookEventSubscribe, hadd]
          exact .inr ⟨m, fn, rfl, rfl, .inl ⟨by simp [hc], table, hadd, rfl⟩⟩

theorem addSub_mem {eventId : String} {sub : HookSub} {table table' : List HookEventDef}
    (h : addSub eventId sub table = some table') : ∃ d ∈ table', sub ∈ d.subs := by
  induction table generalizing table' with
  | nil => cases h
  | cons d ds ih =>
    simp only [addSub] at h
    split at h
    · cases h
      exact ⟨_, .head _, List.mem_append_right _ (.head _)⟩
    · obtain ⟨ds', hds, rfl⟩ := Option.map_eq_some_iff.mp h
      obtain ⟨d', hd', hs⟩ := ih hds
      exact ⟨d', .tail _ hd', hs⟩

/-- An unsubscription enters nothing. -/
theorem api_unsubscribe_event_listed {removeListener : Bool} {mod : Option ModId} {handle : Option Nat}
    {r : Registry} {s : HookSub} (h : (api_unsubscribe_event removeListener mod handle r).2.hooks.Listed s) :
    r.hooks.Listed s := by
  unfold api_unsubscribe_event at h
  split at h
  · unfold hookEventUnsubscribe at h
    split at h
    · next hooks hu =>
      split at hu
      · cases hu
      · split at hu
        · cases hu
        · next table he =>
          cases hu
          exact eraseSub_listed he h
    · split at h
      · exact h
      · exact h
  · exact h

theorem api_unsubscribe_event_mem {removeListener : Bool} {mod : Option ModId} {handle : Option Nat}
    {r : Registry} {mod' : ModId} {slot : ListenerSlot}
    (h : slot ∈ (api_unsubscribe_event removeListener mod handle r).2.listenersOf mod') :
    slot ∈ r.listenersOf mod' := by
  unfold api_unsubscribe_event at h
  split at h
  · split at h
    · exact h
    · split at h
      · rw [listenersOf_insert] at h
        split at h
        · next he => exact he ▸ List.mem_of_mem_eraseP h
        · exact h
      · exact h
  · exact h

end Events
