import LeviRsLoader.RustMod

/-!
# Packet and connection hooks

The registry of `PacketHooks.cpp`. A subscription's address stands for the
object itself, so objects get fresh ones.
-/
namespace PacketHooks

open LeviRs

inductive Direction where
  | inbound
  | outbound
  deriving DecidableEq, Repr

def LEVI_RS_PKT_MASK_INBOUND : UInt32 := 1

def LEVI_RS_PKT_MASK_OUTBOUND : UInt32 := 2

def LEVI_RS_PKT_PASS : Int32 := 0
def LEVI_RS_PKT_REPLACE : Int32 := 1
def LEVI_RS_PKT_DROP : Int32 := 2

/-- `1 << direction` -/
def Direction.mask : Direction → UInt32
  | .inbound => LEVI_RS_PKT_MASK_INBOUND
  | .outbound => LEVI_RS_PKT_MASK_OUTBOUND

structure PacketSub where
  addr : Nat
  mod : Option ModId
  dirMask : UInt32
  cb : Callback
  deriving DecidableEq, Repr

structure ConnSub where
  addr : Nat
  mod : Option ModId
  cb : Callback
  deriving DecidableEq, Repr

structure Registry where
  packetSubs : List PacketSub
  connSubs : List ConnSub
  gInboundLive : Bool
  gOutboundLive : Bool
  gConnLive : Bool
  nextAddr : Nat
  deriving Repr

def Registry.initial : Registry := ⟨[], [], false, false, false, 1⟩

def refreshGatesLocked (r : Registry) : Registry :=
  { r with
    gInboundLive := r.packetSubs.any fun s => s.dirMask &&& LEVI_RS_PKT_MASK_INBOUND != 0,
    gOutboundLive := r.packetSubs.any fun s => s.dirMask &&& LEVI_RS_PKT_MASK_OUTBOUND != 0,
    gConnLive := !r.connSubs.isEmpty }

def snapshotFor (direction : Direction) (r : Registry) : List PacketSub :=
  r.packetSubs.filter fun s => s.dirMask &&& direction.mask != 0

/-- The handle, `none` for a refusal. -/
def api_packet_hook_register (mod : Option ModId) (dirMask : UInt32) (cb : Option Ptr) (user : Ptr)
    (r : Registry) : Option Nat × Registry :=
  match cb with
  | none => (none, r)
  | some fn =>
    if dirMask &&& (LEVI_RS_PKT_MASK_INBOUND ||| LEVI_RS_PKT_MASK_OUTBOUND) = 0 then (none, r)
    else
      let sub : PacketSub := ⟨r.nextAddr, mod, dirMask, ⟨fn, user⟩⟩
      (some r.nextAddr,
        refreshGatesLocked { r with packetSubs := r.packetSubs ++ [sub], nextAddr := r.nextAddr + 1 })

def api_packet_hook_unregister (mod : Option ModId) (handle : Option Nat) (r : Registry) : Bool × Registry :=
  match handle with
  | none => (false, r)
  | some target => match r.packetSubs.find? fun s => s.addr == target with
    | none => (false, r)
    | some s =>
      if s.mod ≠ mod then (false, r)
      else (true, refreshGatesLocked { r with packetSubs := r.packetSubs.eraseP fun s => s.addr == target })

def api_packet_conn_hook_register (mod : Option ModId) (cb : Option Ptr) (user : Ptr) (r : Registry) :
    Option Nat × Registry :=
  match cb with
  | none => (none, r)
  | some fn =>
    let sub : ConnSub := ⟨r.nextAddr, mod, ⟨fn, user⟩⟩
    (some r.nextAddr, refreshGatesLocked { r with connSubs := r.connSubs ++ [sub], nextAddr := r.nextAddr + 1 })

def api_packet_conn_hook_unregister (mod : Option ModId) (handle : Option Nat) (r : Registry) :
    Bool × Registry :=
  match handle with
  | none => (false, r)
  | some target => match r.connSubs.find? fun s => s.addr == target with
    | none => (false, r)
    | some s =>
      if s.mod ≠ mod then (false, r)
      else (true, refreshGatesLocked { r with connSubs := r.connSubs.eraseP fun s => s.addr == target })

def packetHooksOnRustModGone (mod : ModId) (r : Registry) : Registry :=
  refreshGatesLocked
    { r with
      packetSubs := r.packetSubs.filter fun s => s.mod != some mod,
      connSubs := r.connSubs.filter fun s => s.mod != some mod }

/-! ## What each operation can do -/

@[simp] theorem packetSubs_refreshGates (r : Registry) : (refreshGatesLocked r).packetSubs = r.packetSubs := rfl

@[simp] theorem connSubs_refreshGates (r : Registry) : (refreshGatesLocked r).connSubs = r.connSubs := rfl

@[simp] theorem nextAddr_refreshGates (r : Registry) : (refreshGatesLocked r).nextAddr = r.nextAddr := rfl

/-- Up to the gates a step adds one subscription at the next address, or only takes some out. -/
inductive Effect (r r' : Registry) : Prop where
  | addPacket (s : PacketSub) (hs : s.addr = r.nextAddr) (hp : r'.packetSubs = r.packetSubs ++ [s])
      (hc : r'.connSubs = r.connSubs) (hn : r'.nextAddr = r.nextAddr + 1)
  | addConn (s : ConnSub) (hs : s.addr = r.nextAddr) (hp : r'.packetSubs = r.packetSubs)
      (hc : r'.connSubs = r.connSubs ++ [s]) (hn : r'.nextAddr = r.nextAddr + 1)
  | drop (hp : r'.packetSubs.Sublist r.packetSubs) (hc : r'.connSubs.Sublist r.connSubs)
      (hn : r'.nextAddr = r.nextAddr)

theorem Effect.refl (r : Registry) : Effect r r := .drop (.refl _) (.refl _) rfl

theorem api_packet_hook_register_effect (mod : Option ModId) (dirMask : UInt32) (cb : Option Ptr) (user : Ptr)
    (r : Registry) : Effect r (api_packet_hook_register mod dirMask cb user r).2 := by
  cases cb with
  | none => exact .refl r
  | some fn =>
    unfold api_packet_hook_register
    dsimp only
    split
    · exact .refl r
    · exact .addPacket ⟨r.nextAddr, mod, dirMask, ⟨fn, user⟩⟩ rfl rfl rfl rfl

theorem api_packet_hook_unregister_sublist (mod : Option ModId) (handle : Option Nat) (r : Registry) :
    (api_packet_hook_unregister mod handle r).2.packetSubs.Sublist r.packetSubs ∧
      (api_packet_hook_unregister mod handle r).2.connSubs.Sublist r.connSubs := by
  cases handle with
  | none => exact ⟨.refl _, .refl _⟩
  | some target =>
    unfold api_packet_hook_unregister
    dsimp only
    split
    · exact ⟨.refl _, .refl _⟩
    · split
      · exact ⟨.refl _, .refl _⟩
      · exact ⟨List.eraseP_sublist, .refl _⟩

theorem api_packet_hook_unregister_effect (mod : Option ModId) (handle : Option Nat) (r : Registry) :
    Effect r (api_packet_hook_unregister mod handle r).2 := by
  have hd := api_packet_hook_unregister_sublist mod handle r
  refine .drop hd.1 hd.2 ?_
  unfold api_packet_hook_unregister
  split
  · rfl
  · split
    · rfl
    · split <;> rfl

theorem api_packet_conn_hook_register_effect (mod : Option ModId) (cb : Option Ptr) (user : Ptr)
    (r : Registry) : Effect r (api_packet_conn_hook_register mod cb user r).2 := by
  cases cb with
  | none => exact .refl r
  | some fn => exact .addConn ⟨r.nextAddr, mod, ⟨fn, user⟩⟩ rfl rfl rfl rfl

theorem api_packet_conn_hook_unregister_sublist (mod : Option ModId) (handle : Option Nat) (r : Registry) :
    (api_packet_conn_hook_unregister mod handle r).2.packetSubs.Sublist r.packetSubs ∧
      (api_packet_conn_hook_unregister mod handle r).2.connSubs.Sublist r.connSubs := by
  cases handle with
  | none => exact ⟨.refl _, .refl _⟩
  | some target =>
    unfold api_packet_conn_hook_unregister
    dsimp only
    split
    · exact ⟨.refl _, .refl _⟩
    · split
      · exact ⟨.refl _, .refl _⟩
      · exact ⟨.refl _, List.eraseP_sublist⟩

theorem api_packet_conn_hook_unregister_effect (mod : Option ModId) (handle : Option Nat) (r : Registry) :
    Effect r (api_packet_conn_hook_unregister mod handle r).2 := by
  have hd := api_packet_conn_hook_unregister_sublist mod handle r
  refine .drop hd.1 hd.2 ?_
  unfold api_packet_conn_hook_unregister
  split
  · rfl
  · split
    · rfl
    · split <;> rfl

theorem packetHooksOnRustModGone_effect (mod : ModId) (r : Registry) :
    Effect r (packetHooksOnRustModGone mod r) :=
  .drop List.filter_sublist List.filter_sublist rfl

theorem mem_packet_registered {mod : Option ModId} {dirMask : UInt32} {cb : Option Ptr} {user : Ptr} {r : Registry}
    {addr : Nat} (h : (api_packet_hook_register mod dirMask cb user r).1 = some addr) :
    ∃ s ∈ (api_packet_hook_register mod dirMask cb user r).2.packetSubs, s.addr = addr ∧ s.mod = mod := by
  cases cb with
  | none => cases h
  | some fn =>
    simp only [api_packet_hook_register] at h ⊢
    split at h
    · cases h
    · next hmask =>
      cases h
      rw [if_neg hmask]
      exact ⟨_, List.mem_append_right _ (.head _), rfl, rfl⟩

theorem mem_conn_registered {mod : Option ModId} {cb : Option Ptr} {user : Ptr} {r : Registry} {addr : Nat}
    (h : (api_packet_conn_hook_register mod cb user r).1 = some addr) :
    ∃ s ∈ (api_packet_conn_hook_register mod cb user r).2.connSubs, s.addr = addr ∧ s.mod = mod := by
  cases cb with
  | none => cases h
  | some fn =>
    cases h
    exact ⟨_, List.mem_append_right _ (.head _), rfl, rfl⟩

/-- The addresses in use lie below the next one. -/
structure Registry.Ordered (r : Registry) : Prop where
  packetLt : ∀ s ∈ r.packetSubs, s.addr < r.nextAddr
  connLt : ∀ s ∈ r.connSubs, s.addr < r.nextAddr

theorem Effect.next_le {r r' : Registry} (h : Effect r r') : r.nextAddr ≤ r'.nextAddr := by
  cases h with
  | addPacket s _ _ _ hn => exact hn ▸ Nat.le_succ _
  | addConn s _ _ _ hn => exact hn ▸ Nat.le_succ _
  | drop _ _ hn => exact Nat.le_of_eq hn.symm

/-- A subscription below the next address is never added. -/
theorem Effect.packet_mem {r r' : Registry} (h : Effect r r') {s : PacketSub} (hs : s ∈ r'.packetSubs) :
    s ∈ r.packetSubs ∨ (s.addr = r.nextAddr ∧ s.addr < r'.nextAddr) := by
  cases h with
  | addPacket s' hs' hp _ hn =>
    rw [hp, List.mem_append, List.mem_singleton] at hs
    rcases hs with hs | rfl
    · exact .inl hs
    · exact .inr ⟨hs', by omega⟩
  | addConn _ _ hp => exact .inl (hp ▸ hs)
  | drop hp => exact .inl (hp.subset hs)

theorem Effect.conn_mem {r r' : Registry} (h : Effect r r') {s : ConnSub} (hs : s ∈ r'.connSubs) :
    s ∈ r.connSubs ∨ (s.addr = r.nextAddr ∧ s.addr < r'.nextAddr) := by
  cases h with
  | addPacket _ _ _ hc => exact .inl (hc ▸ hs)
  | addConn s' hs' _ hc hn =>
    rw [hc, List.mem_append, List.mem_singleton] at hs
    rcases hs with hs | rfl
    · exact .inl hs
    · exact .inr ⟨hs', by omega⟩
  | drop _ hc => exact .inl (hc.subset hs)

theorem Registry.Ordered.step {r r' : Registry} (h : r.Ordered) (he : Effect r r') : r'.Ordered where
  packetLt s hs := by
    rcases he.packet_mem hs with hs | hs
    · exact Nat.lt_of_lt_of_le (h.packetLt s hs) he.next_le
    · exact hs.2
  connLt s hs := by
    rcases he.conn_mem hs with hs | hs
    · exact Nat.lt_of_lt_of_le (h.connLt s hs) he.next_le
    · exact hs.2

theorem ordered_initial : Registry.initial.Ordered := ⟨by simp [Registry.initial], by simp [Registry.initial]⟩

/-- A mod that is gone has no hook left. -/
theorem packetHooksOnRustModGone_spec (mod : ModId) (r : Registry) :
    (∀ s ∈ (packetHooksOnRustModGone mod r).packetSubs, s.mod ≠ some mod) ∧
      ∀ s ∈ (packetHooksOnRustModGone mod r).connSubs, s.mod ≠ some mod := by
  simp [packetHooksOnRustModGone]

end PacketHooks
