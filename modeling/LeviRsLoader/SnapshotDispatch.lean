import LeviRsLoader.Lib.Dispatch
import LeviRsLoader.PacketHooks
import LeviRsLoader.HookEvents

/-!
# The snapshot dispatchers

`dispatch`, `dispatchConn` and the two hook-event dispatchers copy the list of
subscribers and walk the copy to its end: once copied, a subscription is not
looked up again. Callbacks on the way may register, unregister and unload.
-/
namespace SnapshotDispatch

open LeviRs PacketHooks Runs Dispatch

inductive Sub where
  | packet (s : PacketSub)
  | conn (s : ConnSub)
  | event (s : HookEvents.HookSub)
  deriving DecidableEq

structure Hooks where
  packets : PacketHooks.Registry
  events : HookEvents.Registry
  tlDispatchDepth : Nat

/-- What is dispatched. `decoded`: the header decodes and its id is the expected one. -/
inductive Request where
  | packet (direction : Direction) (decoded : Bool)
  | conn
  | event (def_ : Nat)
  deriving DecidableEq

/-- A packet callback answers with a verdict, the others with nothing that matters here. -/
inductive Reply where
  | verdict (v : Int32)
  | done

inductive Op where
  | packetHookRegister (mod : Option ModId) (dirMask : UInt32) (cb : Option Ptr) (user : Ptr)
  | packetHookUnregister (mod : Option ModId) (handle : Option Nat)
  | connHookRegister (mod : Option ModId) (cb : Option Ptr) (user : Ptr)
  | connHookUnregister (mod : Option ModId) (handle : Option Nat)
  | subscribe (mod : ModId) (eventId : String) (cb : Callback)
  | unsubscribe (mod : ModId) (wanted : Nat)
  | modGone (mod : ModId)

def apply : Op → Hooks → Hooks
  | .packetHookRegister mod dirMask cb user, h =>
    { h with packets := (api_packet_hook_register mod dirMask cb user h.packets).2 }
  | .packetHookUnregister mod handle, h =>
    { h with packets := (api_packet_hook_unregister mod handle h.packets).2 }
  | .connHookRegister mod cb user, h =>
    { h with packets := (api_packet_conn_hook_register mod cb user h.packets).2 }
  | .connHookUnregister mod handle, h =>
    { h with packets := (api_packet_conn_hook_unregister mod handle h.packets).2 }
  | .subscribe mod eventId cb, h => { h with events := (HookEvents.hookEventSubscribe mod eventId cb h.events).2 }
  | .unsubscribe mod wanted, h => { h with events := (HookEvents.hookEventUnsubscribe mod wanted h.events).2 }
  | .modGone mod, h =>
    { h with events := HookEvents.hookEventDropMod mod h.events, packets := packetHooksOnRustModGone mod h.packets }

/-- The checks before the snapshot is taken. -/
def admits : Request → Hooks → Bool
  | .packet direction decoded, h =>
    (match direction with
      | .inbound => h.packets.gInboundLive
      | .outbound => h.packets.gOutboundLive) && h.tlDispatchDepth == 0 && decoded
  | .conn, h => h.packets.gConnLive
  | .event _, _ => true

def snapshot : Request → Hooks → List Sub
  | .packet direction _, h => (snapshotFor direction h.packets).map .packet
  | .conn, h => h.packets.connSubs.map .conn
  | .event def_, h => ((h.events.table[def_]?.map HookEvents.HookEventDef.subs).getD []).map .event

/-- Only `LEVI_RS_PKT_DROP` ends a walk early. -/
def stops : Request → Reply → Bool
  | .packet _ _, .verdict v => v == LEVI_RS_PKT_DROP
  | _, _ => false

def opened : Request → Hooks → Hooks
  | .packet _ _, h => { h with tlDispatchDepth := h.tlDispatchDepth + 1 }
  | _, h => h

def closed : Request → Hooks → Hooks
  | .packet _ _, h => { h with tlDispatchDepth := h.tlDispatchDepth - 1 }
  | _, h => h

/-- No subscription is checked again at its turn. -/
def dispatcher : Dispatcher Hooks Request Sub Op Reply Unit where
  admits := admits
  opened := opened
  snapshot := snapshot
  accepts _ _ _ := true
  start _ := ()
  absorb _ _ _ := ()
  stops := stops
  closed := closed
  apply := apply

def Hooks.initial (names : List String) : Hooks := ⟨PacketHooks.Registry.initial, HookEvents.Registry.initial names, 0⟩

/-- The subscription is registered. -/
def Listed (h : Hooks) : Sub → Prop
  | .packet s => s ∈ h.packets.packetSubs
  | .conn s => s ∈ h.packets.connSubs
  | .event s => h.events.Listed s

/-- The subscription has been given out. -/
def Known (h : Hooks) : Sub → Prop
  | .packet s => s.addr < h.packets.nextAddr
  | .conn s => s.addr < h.packets.nextAddr
  | .event s => s.id < h.events.nextListenerId

/-- Every registered subscription has been given out. -/
def Ordered (h : Hooks) : Prop := ∀ s, Listed h s → Known h s

theorem apply_packets (o : Op) (h : Hooks) : PacketHooks.Effect h.packets (apply o h).packets := by
  cases o with
  | packetHookRegister => exact api_packet_hook_register_effect _ _ _ _ _
  | packetHookUnregister => exact api_packet_hook_unregister_effect _ _ _
  | connHookRegister => exact api_packet_conn_hook_register_effect _ _ _ _
  | connHookUnregister => exact api_packet_conn_hook_unregister_effect _ _ _
  | subscribe => exact .refl _
  | unsubscribe => exact .refl _
  | modGone => exact packetHooksOnRustModGone_effect _ _

theorem apply_events (o : Op) (h : Hooks) : HookEvents.Effect h.events (apply o h).events := by
  cases o with
  | subscribe => exact HookEvents.hookEventSubscribe_effect _ _ _ _
  | unsubscribe => exact HookEvents.hookEventUnsubscribe_effect _ _ _
  | modGone => exact HookEvents.hookEventDropMod_effect _ _
  | packetHookRegister => exact .refl _
  | packetHookUnregister => exact .refl _
  | connHookRegister => exact .refl _
  | connHookUnregister => exact .refl _

/-- What an operation lists was listed before or has not been given out before. -/
theorem listed_apply (o : Op) (h : Hooks) {s : Sub} (hs : Listed (apply o h) s) :
    Listed h s ∨ (¬Known h s ∧ Known (apply o h) s) := by
  cases s with
  | packet s =>
    rcases (apply_packets o h).packet_mem hs with hs | hs
    · exact .inl hs
    · exact .inr ⟨Nat.not_lt.mpr (Nat.le_of_eq hs.1.symm), hs.2⟩
  | conn s =>
    rcases (apply_packets o h).conn_mem hs with hs | hs
    · exact .inl hs
    · exact .inr ⟨Nat.not_lt.mpr (Nat.le_of_eq hs.1.symm), hs.2⟩
  | event s =>
    rcases (apply_events o h).listed s hs with hs | hs
    · exact .inl hs
    · exact .inr ⟨Nat.not_lt.mpr (Nat.le_of_eq hs.1.symm), hs.2⟩

theorem known_apply (o : Op) (h : Hooks) {s : Sub} (hs : Known h s) : Known (apply o h) s := by
  cases s with
  | packet s => exact Nat.lt_of_lt_of_le hs (apply_packets o h).next_le
  | conn s => exact Nat.lt_of_lt_of_le hs (apply_packets o h).next_le
  | event s => exact Nat.lt_of_lt_of_le hs (apply_events o h).next_le

theorem keeps_known (s : Sub) : Keeps dispatcher fun h => Known h s where
  opened k h hs := by cases k <;> cases s <;> exact hs
  closed k h hs := by cases k <;> cases s <;> exact hs
  apply o h hs := known_apply o h hs

theorem keeps_out (s : Sub) : Keeps dispatcher fun h => Known h s ∧ ¬Listed h s where
  opened k h hs := by cases k <;> cases s <;> exact hs
  closed k h hs := by cases k <;> cases s <;> exact hs
  apply o h hs := by
    refine ⟨known_apply o h hs.1, fun hl => ?_⟩
    rcases listed_apply o h hl with hl | hl
    · exact hs.2 hl
    · exact hl.1 hs.1

theorem listed_opened (k : Request) (h : Hooks) (s : Sub) : Listed (opened k h) s ↔ Listed h s := by
  cases k <;> cases s <;> exact Iff.rfl

theorem listed_closed (k : Request) (h : Hooks) (s : Sub) : Listed (closed k h) s ↔ Listed h s := by
  cases k <;> cases s <;> exact Iff.rfl

theorem keeps_ordered : Keeps dispatcher Ordered where
  opened k h hs s hl := (keeps_known s).opened k h (hs s ((listed_opened k h s).mp hl))
  closed k h hs s hl := (keeps_known s).closed k h (hs s ((listed_closed k h s).mp hl))
  apply o h hs s hl := by
    rcases listed_apply o h hl with hl | hl
    · exact known_apply o h (hs s hl)
    · exact hl.2

theorem ordered_initial (names : List String) : Ordered (Hooks.initial names) := by
  intro s hs
  cases s with
  | packet s => cases hs
  | conn s => cases hs
  | event s => exact absurd hs (HookEvents.initial_not_listed names s)

theorem snapshot_listed (k : Request) (h : Hooks) : ∀ s ∈ snapshot k h, Listed h s := by
  intro s hs
  cases k with
  | packet direction decoded =>
    obtain ⟨x, hx, rfl⟩ := List.mem_map.mp hs
    exact (List.mem_filter.mp hx).1
  | conn =>
    obtain ⟨x, hx, rfl⟩ := List.mem_map.mp hs
    exact hx
  | event def_ =>
    obtain ⟨x, hx, rfl⟩ := List.mem_map.mp hs
    cases hd : h.events.table[def_]? with
    | none => simp [hd] at hx
    | some d =>
      rw [hd] at hx
      exact ⟨d, List.mem_of_getElem? hd, hx⟩

/-- In every run in which no removal takes out a subscription that a dispatch in
progress still has ahead, no removed subscription is called. -/
theorem noDeadCall_of_spares (names : List String) {u : State Hooks Request Sub Unit}
    {tr : Trace Hooks Request Sub Op Reply Unit}
    (h : Run (Step dispatcher) ⟨Hooks.initial names, []⟩ tr u) (hG : Meets (Spares Listed dispatcher) tr) :
    NoDeadCall Listed dispatcher tr :=
  noDeadCall keeps_ordered (fun _ _ hr hl => hr _ hl) keeps_out keeps_known snapshot_listed
    (fun k h s hl => (listed_opened k h s).mpr hl) (fun k h s hl => (listed_closed k h s).mpr hl) h
    (ordered_initial names) hG

/-! ## Two hooks of one mod -/

def firstHook : PacketSub := ⟨1, some 1, LEVI_RS_PKT_MASK_INBOUND, ⟨10, 11⟩⟩

def secondHook : PacketSub := ⟨2, some 1, LEVI_RS_PKT_MASK_INBOUND, ⟨10, 12⟩⟩

def inboundPacket : Request := .packet .inbound true

/-- Both hooks registered, an inbound packet being dispatched. -/
def bothHooked : Hooks :=
  opened inboundPacket (apply (.packetHookRegister (some 1) LEVI_RS_PKT_MASK_INBOUND (some 10) 12)
    (apply (.packetHookRegister (some 1) LEVI_RS_PKT_MASK_INBOUND (some 10) 11) (Hooks.initial [])))

def dispatching (running : Option PacketSub) (ahead : List PacketSub) : List (Frame Request Sub Unit) :=
  [⟨inboundPacket, running.map .packet, ahead.map .packet, ()⟩]

/-- Registration, and the dispatch up to the first hook's callback. -/
def firstEntered : Trace Hooks Request Sub Op Reply Unit :=
  [(⟨Hooks.initial [], []⟩, .op (.packetHookRegister (some 1) LEVI_RS_PKT_MASK_INBOUND (some 10) 11)),
   (⟨apply (.packetHookRegister (some 1) LEVI_RS_PKT_MASK_INBOUND (some 10) 11) (Hooks.initial []), []⟩,
     .op (.packetHookRegister (some 1) LEVI_RS_PKT_MASK_INBOUND (some 10) 12)),
   (⟨apply (.packetHookRegister (some 1) LEVI_RS_PKT_MASK_INBOUND (some 10) 12)
      (apply (.packetHookRegister (some 1) LEVI_RS_PKT_MASK_INBOUND (some 10) 11) (Hooks.initial [])), []⟩,
     .begin inboundPacket),
   (⟨bothHooked, dispatching none [firstHook, secondHook]⟩, .enter (.packet firstHook))]

theorem firstEntered_run :
    Run (Step dispatcher) ⟨Hooks.initial [], []⟩ firstEntered
      ⟨bothHooked, dispatching (some firstHook) [secondHook]⟩ :=
  .cons (.op trivial) <| .cons (.op trivial) <| .cons (.begin trivial rfl) <| .cons (.enter rfl) (.nil _)

/-- The first callback drops a hook, returns, and the second is called. -/
def dropAndGoOn (handle : Nat) : Trace Hooks Request Sub Op Reply Unit :=
  [(⟨bothHooked, dispatching (some firstHook) [secondHook]⟩, .op (.packetHookUnregister (some 1) (some handle))),
   (⟨apply (.packetHookUnregister (some 1) (some handle)) bothHooked, dispatching (some firstHook) [secondHook]⟩,
     .leave (.verdict LEVI_RS_PKT_PASS)),
   (⟨apply (.packetHookUnregister (some 1) (some handle)) bothHooked, dispatching none [secondHook]⟩,
     .enter (.packet secondHook))]

theorem dropAndGoOn_run (handle : Nat) :
    Run (Step dispatcher) ⟨bothHooked, dispatching (some firstHook) [secondHook]⟩ (dropAndGoOn handle)
      ⟨apply (.packetHookUnregister (some 1) (some handle)) bothHooked, dispatching (some secondHook) []⟩ :=
  .cons (.op rfl) <| .cons (.leave _) <| .cons (.enter rfl) (.nil _)

/-- A hook dropped by the callback before it is called all the same. -/
theorem dropped_hook_called :
    ¬∀ names u (tr : Trace Hooks Request Sub Op Reply Unit),
      Run (Step dispatcher) ⟨Hooks.initial names, []⟩ tr u → NoDeadCall Listed dispatcher tr := by
  intro h
  refine h [] _ _ (firstEntered_run.append (dropAndGoOn_run 2)) (firstEntered ++ (dropAndGoOn 2).take 2) _ _ [] rfl ?_
  refine ⟨_, List.mem_append_right _ (.head _), _, rfl, ?_, ?_⟩
  · show secondHook ∈ bothHooked.packets.packetSubs
    decide
  · show secondHook ∉ (apply (.packetHookUnregister (some 1) (some 2)) bothHooked).packets.packetSubs
    decide

/-- A callback that drops its own hook harms no one. -/
theorem noDeadCall_own_hook : NoDeadCall Listed dispatcher (firstEntered ++ dropAndGoOn 1) := by
  refine noDeadCall_of_spares [] (firstEntered_run.append (dropAndGoOn_run 1)) ?_
  intro e he o ho
  simp only [firstEntered, dropAndGoOn, List.cons_append, List.nil_append, List.mem_cons, List.not_mem_nil,
    or_false] at he
  rcases he with rfl | rfl | rfl | rfl | rfl | rfl | rfl
  all_goals cases ho
  · simp
  · simp
  · intro f hf a ha _
    simp only [dispatching, List.mem_singleton] at hf
    subst hf
    simp only [List.map_cons, List.map_nil, List.mem_singleton] at ha
    subst ha
    show secondHook ∈ (apply (.packetHookUnregister (some 1) (some 1)) bothHooked).packets.packetSubs
    decide

end SnapshotDispatch
