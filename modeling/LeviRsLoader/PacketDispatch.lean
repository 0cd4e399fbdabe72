import LeviRsLoader.PacketHooks
import LeviRsLoader.PacketHeader

/-!
# Packet dispatch

`dispatch` of `PacketHooks.cpp` and `packet_trampoline` of `packet.rs`, against
a left fold over the interested subscribers. What a callback does is arbitrary
and may depend on everything that ran before it.
-/
namespace PacketDispatch

open LeviRs PacketHooks PacketHeader

abbrev Bytes := List UInt8

/-- What `addressOf` and `getHash` say of a connection. -/
structure Peer where
  connId : UInt64
  address : Bytes
  deriving DecidableEq

/-- `LeviRsPacketEvent` -/
structure PacketEvent where
  direction : Direction
  connId : UInt64
  address : Bytes
  packetId : Int32
  senderSubId : UInt8
  targetSubId : UInt8
  body : Bytes
  deriving DecidableEq

/-- What a callback leaves: its verdict, the pending edit and its writes to the sink. -/
inductive Response where
  | threw
  | returned (verdict : Int32) (pending : PacketEdit) (sunk : List Bytes)

structure ReplaceBuf where
  bytes : Bytes
  written : Bool

def replaceSink (buf : ReplaceBuf) (data : Bytes) : ReplaceBuf :=
  { buf with written := true, bytes := data }

inductive Verdict where
  | pass
  | replaced (out : Bytes)
  | drop
  deriving DecidableEq

/-- All that callbacks can reach: the registry of hooks and the mods' own state. -/
structure World (σ : Type) where
  registry : Registry
  mods : σ

/-- The mods' callbacks, each called at some `tlDispatchDepth`. Only `DepthGuard`
moves the depth, so it is an argument and comes back unchanged. -/
abbrev Callbacks (σ : Type) :=
  Nat → PacketSub → PacketEvent → PacketEdit → World σ → Response × World σ

variable {σ : Type}

/-! ## The loop -/

/-- Where `curPtr` and `curLen` point: into the packet, from an offset on, or at all of `owned`. -/
inductive View where
  | input (offset : Nat)
  | owned

structure Loop where
  view : View
  owned : Bytes
  edit : PacketEdit
  changed : Bool

def Loop.cur (packet : Bytes) (l : Loop) : Bytes :=
  match l.view with
  | .input offset => packet.drop offset
  | .owned => l.owned

def eventFor (direction : Direction) (peer : Peer) (edit : PacketEdit) (body : Bytes) : PacketEvent :=
  ⟨direction, peer.connId, peer.address, edit.packetId, edit.senderSubId, edit.targetSubId, body⟩

/-- The subscribers in turn, `none` once one drops the packet. -/
def runSubs (call : Callbacks σ) (tlDispatchDepth : Nat) (direction : Direction) (peer : Peer) (packet : Bytes) :
    List PacketSub → Loop → World σ → Option Loop × World σ
  | [], l, w => (some l, w)
  | sub :: subs, l, w =>
    match call tlDispatchDepth sub (eventFor direction peer l.edit (l.cur packet)) l.edit w with
    | (.threw, w) => runSubs call tlDispatchDepth direction peer packet subs l w
    | (.returned verdict pending sunk, w) =>
      let buf := sunk.foldl replaceSink ⟨[], false⟩
      if verdict = LEVI_RS_PKT_DROP then (none, w)
      else if verdict ≠ LEVI_RS_PKT_REPLACE then runSubs call tlDispatchDepth direction peer packet subs l w
      else
        let owned := if buf.written then buf.bytes else []
        runSubs call tlDispatchDepth direction peer packet subs ⟨.owned, owned, pending, true⟩ w

def dispatch (call : Callbacks σ) (tlDispatchDepth : Nat) (direction : Direction) (peer : Peer) (packet : Bytes)
    (expectedId : Int32) (w : World σ) : Verdict × World σ :=
  if tlDispatchDepth > 0 then (.pass, w)
  else match decodeHeader packet with
    | none => (.pass, w)
    | some header =>
      if expectedId ≥ 0 ∧ header.packetId ≠ expectedId then (.pass, w)
      else
        let subs := snapshotFor direction w.registry
        if subs.isEmpty then (.pass, w)
        else
          let l : Loop := ⟨.input header.size, [], header.edit, false⟩
          match runSubs call (tlDispatchDepth + 1) direction peer packet subs l w with
          | (none, w) => (.drop, w)
          | (some l, w) =>
            if !l.changed then (.pass, w) else (.replaced (encodeHeader l.edit ++ l.cur packet), w)

/-! ## The fold -/

/-- What the subscribers pass on to one another. -/
structure Packet where
  fields : PacketEdit
  body : Bytes
  deriving DecidableEq

/-- What a subscriber does to the packet. -/
inductive Step where
  | pass
  | replace (packet : Packet)
  | drop
  deriving DecidableEq

/-- The body is the last write to the sink, empty if there is none; a throw or
an unknown verdict passes. -/
def stepOf : Response → Step
  | .threw => .pass
  | .returned verdict pending sunk =>
    if verdict = LEVI_RS_PKT_DROP then .drop
    else if verdict = LEVI_RS_PKT_REPLACE then .replace ⟨pending, sunk.getLast?.getD []⟩
    else .pass

def Packet.after (p : Packet) : Step → Packet
  | .replace p' => p'
  | _ => p

/-- The packet, what the subscribers so far did, oldest first, and the world. -/
structure Fold (σ : Type) where
  packet : Packet
  steps : List Step
  world : World σ

def Fold.dropped (f : Fold σ) : Bool := f.steps.any (· = .drop)

def Step.isReplace : Step → Bool
  | .replace _ => true
  | _ => false

def Fold.replaced (f : Fold σ) : Bool := f.steps.any Step.isReplace

/-- Subscribers run at depth 1, and none runs after a drop. -/
def foldStep (call : Callbacks σ) (direction : Direction) (peer : Peer) (f : Fold σ) (sub : PacketSub) : Fold σ :=
  if f.dropped then f
  else
    let answer := call 1 sub (eventFor direction peer f.packet.fields f.packet.body) f.packet.fields f.world
    ⟨f.packet.after (stepOf answer.1), f.steps ++ [stepOf answer.1], answer.2⟩

def Fold.result (f : Fold σ) : Verdict :=
  if f.dropped then .drop
  else if f.replaced then .replaced (encodeHeader f.packet.fields ++ f.packet.body)
  else .pass

theorem Fold.dropped_iff (f : Fold σ) : f.dropped = true ↔ .drop ∈ f.steps := by
  simp [Fold.dropped]

theorem Fold.replaced_iff (f : Fold σ) : f.replaced = true ↔ ∃ p, .replace p ∈ f.steps := by
  rw [Fold.replaced, List.any_eq_true]
  constructor
  · rintro ⟨s, hs, hr⟩
    cases s with
    | replace p => exact ⟨p, hs⟩
    | pass => cases hr
    | drop => cases hr
  · rintro ⟨p, hp⟩
    exact ⟨_, hp, rfl⟩

theorem Fold.result_eq_replaced_iff (f : Fold σ) (out : Bytes) :
    f.result = .replaced out ↔
      (f.replaced = true ∧ ¬f.dropped = true) ∧ out = encodeHeader f.packet.fields ++ f.packet.body := by
  by_cases hd : f.dropped = true
  · simp [Fold.result, hd]
  · by_cases hr : f.replaced = true
    · simp [Fold.result, hd, hr, eq_comm]
    · simp [Fold.result, hd, hr]

/-! ## The loop is the fold -/

theorem sunk_bytes (sunk : List Bytes) :
    (if (sunk.foldl replaceSink ⟨[], false⟩).written then (sunk.foldl replaceSink ⟨[], false⟩).bytes else [])
      = sunk.getLast?.getD [] := by
  induction sunk using List.reverseRecOn with
  | nil => rfl
  | append_singleton sunk data => simp [replaceSink]

theorem foldl_dropped (call : Callbacks σ) (direction : Direction) (peer : Peer) (subs : List PacketSub)
    (f : Fold σ) (hf : f.dropped = true) : subs.foldl (foldStep call direction peer) f = f := by
  induction subs with
  | nil => rfl
  | cons sub subs ih => rw [List.foldl_cons, foldStep, if_pos hf, ih]

/-- One round of the loop, by what the subscriber does. -/
theorem runSubs_cons (call : Callbacks σ) (direction : Direction) (peer : Peer) (packet : Bytes) (sub : PacketSub)
    (subs : List PacketSub) (l : Loop) (w : World σ) :
    runSubs call 1 direction peer packet (sub :: subs) l w =
      match call 1 sub (eventFor direction peer l.edit (l.cur packet)) l.edit w with
      | (response, w) => match stepOf response with
        | .pass => runSubs call 1 direction peer packet subs l w
        | .replace p => runSubs call 1 direction peer packet subs ⟨.owned, p.body, p.fields, true⟩ w
        | .drop => (none, w) := by
  rw [runSubs]
  obtain ⟨response, w'⟩ := call 1 sub (eventFor direction peer l.edit (l.cur packet)) l.edit w
  cases response with
  | threw => rfl
  | returned verdict pending sunk =>
    by_cases hd : verdict = LEVI_RS_PKT_DROP
    · simp only [hd, stepOf, if_true]
    · by_cases hr : verdict = LEVI_RS_PKT_REPLACE
      · have hne : ¬(LEVI_RS_PKT_REPLACE = LEVI_RS_PKT_DROP) := by decide
        simp only [hr, hne, stepOf, if_false, if_true, ne_eq, not_true, sunk_bytes]
      · simp only [hd, hr, stepOf, if_false, ne_eq, not_false_eq_true, if_true]

/-- A loop state and a fold state that say the same of a run so far. -/
structure Matches (packet : Bytes) (l : Loop) (f : Fold σ) : Prop where
  fields : f.packet.fields = l.edit
  body : f.packet.body = l.cur packet
  running : f.dropped = false
  changed : f.replaced = l.changed

theorem Matches.replace {packet : Bytes} {f : Fold σ} (h : f.dropped = false) (p : Packet) (w : World σ) :
    Matches packet ⟨.owned, p.body, p.fields, true⟩ ⟨p, f.steps ++ [.replace p], w⟩ where
  fields := rfl
  body := rfl
  running := by
    have : f.steps.any (· = .drop) = false := h
    simp [Fold.dropped, this]
  changed := by simp [Fold.replaced, Step.isReplace]

theorem Matches.pass {packet : Bytes} {l : Loop} {f : Fold σ} (h : Matches packet l f) (w : World σ) :
    Matches packet l ⟨f.packet, f.steps ++ [.pass], w⟩ where
  fields := h.fields
  body := h.body
  running := by
    have : f.steps.any (· = .drop) = false := h.running
    simp [Fold.dropped, this]
  changed := by
    have : f.steps.any Step.isReplace = l.changed := h.changed
    simp [Fold.replaced, this, Step.isReplace]

theorem runSubs_fold (call : Callbacks σ) (direction : Direction) (peer : Peer) (packet : Bytes)
    (subs : List PacketSub) (l : Loop) (f : Fold σ) (h : Matches packet l f) :
    let final := subs.foldl (foldStep call direction peer) f
    (runSubs call 1 direction peer packet subs l f.world).2 = final.world ∧
      match (runSubs call 1 direction peer packet subs l f.world).1 with
      | none => final.dropped = true
      | some l' => Matches packet l' final := by
  induction subs generalizing l f with
  | nil => exact ⟨rfl, h⟩
  | cons sub subs ih =>
    have hrun : ¬(f.dropped = true) := by rw [h.running]; decide
    rw [List.foldl_cons, foldStep, if_neg hrun, h.fields, h.body, runSubs_cons]
    obtain ⟨response, w⟩ := call 1 sub (eventFor direction peer l.edit (l.cur packet)) l.edit f.world
    dsimp only
    cases stepOf response with
    | pass => exact ih l ⟨f.packet, f.steps ++ [.pass], w⟩ (h.pass w)
    | replace p => exact ih _ ⟨p, f.steps ++ [.replace p], w⟩ (Matches.replace h.running p w)
    | drop =>
      have hdrop : (⟨f.packet, f.steps ++ [.drop], w⟩ : Fold σ).dropped = true := by simp [Fold.dropped]
      rw [show f.packet.after .drop = f.packet from rfl, foldl_dropped _ _ _ _ _ hdrop]
      exact ⟨rfl, hdrop⟩

/-- The fold before the first subscriber. -/
def start (packet : Bytes) (header : Header) (w : World σ) : Fold σ :=
  ⟨⟨header.edit, packet.drop header.size⟩, [], w⟩

/-- Where a packet passes before anyone is asked. -/
inductive Bypassed (tlDispatchDepth : Nat) (packet : Bytes) (expectedId : Int32) : Prop where
  | nested (h : 0 < tlDispatchDepth)
  | malformed (h : decodeHeader packet = none)
  | unexpected (header : Header) (h : decodeHeader packet = some header) (hexpected : 0 ≤ expectedId)
      (hne : header.packetId ≠ expectedId)

theorem dispatch_bypassed (call : Callbacks σ) {depth : Nat} (direction : Direction) (peer : Peer) {packet : Bytes}
    {expectedId : Int32} (w : World σ) (h : Bypassed depth packet expectedId) :
    dispatch call depth direction peer packet expectedId w = (.pass, w) := by
  by_cases hdepth : depth > 0
  · rw [dispatch, if_pos hdepth]
  · rw [dispatch, if_neg hdepth]
    cases h with
    | nested h => exact absurd h hdepth
    | malformed h => rw [h]
    | unexpected header h hexpected hne =>
      rw [h]
      exact if_pos ⟨hexpected, hne⟩

/-- Past the checks a dispatch is the fold over the snapshot. -/
theorem dispatch_fold (call : Callbacks σ) {depth : Nat} (direction : Direction) (peer : Peer) {packet : Bytes}
    {expectedId : Int32} (w : World σ) {header : Header} (hheader : decodeHeader packet = some header)
    (h : ¬Bypassed depth packet expectedId) :
    dispatch call depth direction peer packet expectedId w =
      let final := (snapshotFor direction w.registry).foldl (foldStep call direction peer) (start packet header w)
      (final.result, final.world) := by
  have hchecked : ¬(expectedId ≥ 0 ∧ header.packetId ≠ expectedId) := fun hc =>
    h (.unexpected header hheader hc.1 hc.2)
  have hdepth : depth = 0 := Nat.eq_zero_of_not_pos fun hd => h (.nested hd)
  subst hdepth
  rw [dispatch, if_neg (by omega), hheader]
  dsimp only
  rw [if_neg hchecked]
  generalize snapshotFor direction w.registry = subs
  by_cases hempty : subs = []
  · subst hempty
    rfl
  · have hmatch : Matches packet ⟨.input header.size, [], header.edit, false⟩ (start packet header w) :=
      ⟨rfl, rfl, rfl, rfl⟩
    obtain ⟨hworld, hloop⟩ := runSubs_fold call direction peer packet subs _ _ hmatch
    have hne : ¬(subs.isEmpty = true) := by rwa [List.isEmpty_iff]
    rw [if_neg hne, ← hworld]
    rw [show (start packet header w).world = w from rfl] at hworld hloop ⊢
    generalize runSubs call (0 + 1) direction peer packet subs ⟨.input header.size, [], header.edit, false⟩ w
      = out at hworld hloop ⊢
    obtain ⟨out, w'⟩ := out
    cases out with
    | none =>
      have hdrop : Fold.dropped _ = true := hloop
      simp only [Fold.result, hdrop, if_true]
    | some l =>
      have hm : Matches packet l _ := hloop
      cases hc : l.changed with
      | false => simp [Fold.result, hm.running, hm.changed, hc]
      | true => simp [Fold.result, hm.running, hm.changed, hm.fields, hm.body, hc]

/-! ## Rust subscribers -/

/-- A change a handler makes through its `PacketCtx`. -/
inductive CtxCall where
  | set_body (bytes : Bytes)
  | set_packet_id (id : Int32)
  | set_sender_sub_id (v : UInt8)
  | set_target_sub_id (v : UInt8)
  deriving DecidableEq

structure PacketCtx where
  ev : PacketEvent
  edit : PacketEdit
  new_body : Option Bytes
  dirty : Bool

def PacketCtx.call (ctx : PacketCtx) : CtxCall → PacketCtx
  | .set_body bytes => { ctx with new_body := some bytes, dirty := true }
  | .set_packet_id id => { ctx with edit := { ctx.edit with packetId := id }, dirty := true }
  | .set_sender_sub_id v => { ctx with edit := { ctx.edit with senderSubId := v }, dirty := true }
  | .set_target_sub_id v => { ctx with edit := { ctx.edit with targetSubId := v }, dirty := true }

def PacketCtx.body (ctx : PacketCtx) : Bytes := ctx.new_body.getD ctx.ev.body

inductive RustVerdict where
  | forward
  | drop
  deriving DecidableEq

/-- The calls of a run of a handler and its verdict, `none` for a panic. -/
structure Handled where
  calls : List CtxCall
  verdict : Option RustVerdict

def packet_trampoline (handler : PacketEvent → PacketEdit → World σ → Handled × World σ) (ev : PacketEvent)
    (edit : PacketEdit) (w : World σ) : Response × World σ :=
  match handler ev edit w with
  | (handled, w) =>
    let ctx := handled.calls.foldl PacketCtx.call ⟨ev, edit, none, false⟩
    match handled.verdict with
    | none => (.returned LEVI_RS_PKT_PASS ctx.edit [], w)
    | some .drop => (.returned LEVI_RS_PKT_DROP ctx.edit [], w)
    | some .forward =>
      if !ctx.dirty then (.returned LEVI_RS_PKT_PASS ctx.edit [], w)
      else (.returned LEVI_RS_PKT_REPLACE ctx.edit [ctx.body], w)

/-- What the call changes in the packet itself. -/
def Packet.call (p : Packet) : CtxCall → Packet
  | .set_body bytes => { p with body := bytes }
  | .set_packet_id id => { p with fields := { p.fields with packetId := id } }
  | .set_sender_sub_id v => { p with fields := { p.fields with senderSubId := v } }
  | .set_target_sub_id v => { p with fields := { p.fields with targetSubId := v } }

def PacketCtx.packet (ctx : PacketCtx) : Packet := ⟨ctx.edit, ctx.body⟩

theorem packet_call (ctx : PacketCtx) (c : CtxCall) : (ctx.call c).packet = ctx.packet.call c := by
  cases c <;> rfl

theorem packet_calls (calls : List CtxCall) (ctx : PacketCtx) :
    (calls.foldl PacketCtx.call ctx).packet = calls.foldl Packet.call ctx.packet := by
  induction calls generalizing ctx with
  | nil => rfl
  | cons c calls ih => rw [List.foldl_cons, List.foldl_cons, ih, packet_call]

theorem dirty_call (ctx : PacketCtx) (c : CtxCall) : (ctx.call c).dirty = true := by
  cases c <;> rfl

theorem dirty_calls (calls : List CtxCall) (ctx : PacketCtx) (h : ctx.dirty = true) :
    (calls.foldl PacketCtx.call ctx).dirty = true := by
  induction calls generalizing ctx with
  | nil => exact h
  | cons c calls ih => exact ih _ (dirty_call ctx c)

/-- A handler that forwards replaces the packet it saw by that packet with its
calls applied, in their order; without a call, and after a panic, it passes. -/
theorem stepOf_trampoline (handler : PacketEvent → PacketEdit → World σ → Handled × World σ)
    (direction : Direction) (peer : Peer) (p : Packet) (w : World σ) :
    stepOf (packet_trampoline handler (eventFor direction peer p.fields p.body) p.fields w).1 =
      match (handler (eventFor direction peer p.fields p.body) p.fields w).1 with
      | ⟨_, none⟩ => .pass
      | ⟨_, some .drop⟩ => .drop
      | ⟨calls, some .forward⟩ => if calls.isEmpty then .pass else .replace (calls.foldl Packet.call p) := by
  rw [packet_trampoline]
  obtain ⟨⟨calls, verdict⟩, w'⟩ := handler (eventFor direction peer p.fields p.body) p.fields w
  match verdict with
  | none => rfl
  | some .drop => rfl
  | some .forward =>
    cases calls with
    | nil => rfl
    | cons c calls =>
      have hdirty := dirty_calls calls _
        (dirty_call ⟨eventFor direction peer p.fields p.body, p.fields, none, false⟩ c)
      have hpacket := packet_calls (c :: calls) ⟨eventFor direction peer p.fields p.body, p.fields, none, false⟩
      rw [← List.foldl_cons] at hdirty
      simp only [hdirty, Bool.not_true, Bool.false_eq_true, if_false]
      exact congrArg Step.replace hpacket

/-! ## Registration order -/

inductive RegistryOp where
  | register (mod : Option ModId) (dirMask : UInt32) (cb : Option Ptr) (user : Ptr)
  | unregister (mod : Option ModId) (handle : Option Nat)
  | connRegister (mod : Option ModId) (cb : Option Ptr) (user : Ptr)
  | connUnregister (mod : Option ModId) (handle : Option Nat)
  | modGone (mod : ModId)

def RegistryOp.run (r : Registry) : RegistryOp → Registry
  | .register mod dirMask cb user => (api_packet_hook_register mod dirMask cb user r).2
  | .unregister mod handle => (api_packet_hook_unregister mod handle r).2
  | .connRegister mod cb user => (api_packet_conn_hook_register mod cb user r).2
  | .connUnregister mod handle => (api_packet_conn_hook_unregister mod handle r).2
  | .modGone mod => packetHooksOnRustModGone mod r

theorem RegistryOp.run_effect (r : Registry) (o : RegistryOp) : Effect r (o.run r) := by
  cases o with
  | register mod dirMask cb user => exact api_packet_hook_register_effect mod dirMask cb user r
  | unregister mod handle => exact api_packet_hook_unregister_effect mod handle r
  | connRegister mod cb user => exact api_packet_conn_hook_register_effect mod cb user r
  | connUnregister mod handle => exact api_packet_conn_hook_unregister_effect mod handle r
  | modGone mod => exact packetHooksOnRustModGone_effect mod r

/-- Addresses are given out in increasing order, so the later of two entries registered later. -/
def InOrder (subs : List PacketSub) : Prop := subs.Pairwise fun s s' => s.addr < s'.addr

theorem inOrder_step {r r' : Registry} (he : Effect r r') (ho : r.Ordered) (h : InOrder r.packetSubs) :
    InOrder r'.packetSubs := by
  cases he with
  | addPacket s hs hp =>
    rw [hp]
    refine List.pairwise_append.mpr ⟨h, List.pairwise_singleton _ _, ?_⟩
    intro s' hs' x hx
    rw [List.mem_singleton.mp hx, hs]
    exact ho.packetLt s' hs'
  | addConn _ _ hp => rwa [hp]
  | drop hp => exact h.sublist hp

theorem inOrder_run (ops : List RegistryOp) :
    InOrder (ops.foldl RegistryOp.run Registry.initial).packetSubs := by
  have hinv : (ops.foldl RegistryOp.run Registry.initial).Ordered ∧
      InOrder (ops.foldl RegistryOp.run Registry.initial).packetSubs := by
    induction ops using List.reverseRecOn with
    | nil => exact ⟨ordered_initial, List.Pairwise.nil⟩
    | append_singleton ops o ih =>
      rw [List.foldl_append]
      have he := o.run_effect (ops.foldl RegistryOp.run Registry.initial)
      exact ⟨ih.1.step he, inOrder_step he ih.1 ih.2⟩
  exact hinv.2

/-- A dispatch passes a bypassed packet, and is otherwise the fold over the
interested subscribers, in the order they registered; a replaced packet decodes
to the fields and the body the fold ends with. -/
theorem dispatch_inOrder_fold (call : Callbacks σ) (depth : Nat) (direction : Direction) (peer : Peer) (packet : Bytes)
    (expectedId : Int32) (w : World σ) :
    (Bypassed depth packet expectedId → dispatch call depth direction peer packet expectedId w = (.pass, w)) ∧
    (∀ header, decodeHeader packet = some header → ¬Bypassed depth packet expectedId →
      let interested := w.registry.packetSubs.filter fun s => s.dirMask &&& direction.mask != 0
      let final := interested.foldl (foldStep call direction peer) (start packet header w)
      dispatch call depth direction peer packet expectedId w = (final.result, final.world) ∧
      ((∃ out, final.result = .replaced out) ↔ (∃ p, .replace p ∈ final.steps) ∧ .drop ∉ final.steps) ∧
      ∀ out, final.result = .replaced out → final.packet.fields.InRange →
        ∃ header', decodeHeader out = some header' ∧ header'.edit = final.packet.fields ∧
          out.drop header'.size = final.packet.body) ∧
    ∀ ops : List RegistryOp, w.registry = ops.foldl RegistryOp.run Registry.initial →
      InOrder (w.registry.packetSubs.filter fun s => s.dirMask &&& direction.mask != 0) := by
  refine ⟨dispatch_bypassed call direction peer w, ?_, ?_⟩
  · intro header hheader h
    refine ⟨dispatch_fold call direction peer w hheader h, ?_, ?_⟩
    · rw [← Fold.replaced_iff, ← Fold.dropped_iff]
      constructor
      · rintro ⟨out, hout⟩
        exact ((Fold.result_eq_replaced_iff _ out).mp hout).1
      · intro hr
        exact ⟨_, (Fold.result_eq_replaced_iff _ _).mpr ⟨hr, rfl⟩⟩
    · intro out hout hrange
      obtain ⟨-, rfl⟩ := (Fold.result_eq_replaced_iff _ out).mp hout
      exact decode_of_inRange hrange _
  · intro ops hops
    rw [hops]
    exact (inOrder_run ops).filter _

end PacketDispatch
