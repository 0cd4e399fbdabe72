import LeviRsLoader.Lifecycle

/-!
# Calls through a lane

The busy cell of a lane counts the calls of `Lane::with` on the stack, so a mod
whose lane is being called is not unloaded. Its references are counted as in any
interleaving of the lane operations, and one is left as long as nobody
unpublishes a lane in the middle of a call.
-/
namespace LaneProtocol

open LeviRs Lane

variable {s s' : Lanes} {i : Instr} {new : List Instr}

/-! ## Lanes and cells under an instruction -/

theorem Effect.cells_le (h : Effect s i new s') : s.cells.length ≤ s'.cells.length := by
  cases h with
  | publish => simp [addLane]
  | take _ id lease =>
    unfold takeLease
    split <;> exact Nat.le_refl _
  | retire l lane hl => simp [Lane.retireLane, hl]
  | _ => exact Nat.le_refl _

theorem cell_takeLease (id : Nat) (lease : Lease) (s : Lanes) (a : Nat) :
    (takeLease id lease s).2.cell a = s.cell a := by
  unfold takeLease
  split <;> rfl

theorem Effect.ordered (h : Effect s i new s') (ho : s.Ordered) : s'.Ordered := by
  cases h with
  | publish _ m name desc => exact ho.addLane m name desc
  | lease _ consumer l lane _ hl => exact ho.addLease hl
  | take _ id lease => exact ho.takeLease id lease
  | retire l => exact ho.retireLane l
  | _ => exact ho

/-- No lane operation touches a busy count. -/
theorem Effect.busy (h : Effect s i new s') (a : Nat) : (s'.cell a).busy = (s.cell a).busy := by
  cases h with
  | publish _ m name desc =>
    rw [cell_addLane]
    split
    · next ha => simp [ha, Lanes.cell]
    · rfl
  | lease => rfl
  | take _ id lease => rw [cell_takeLease]
  | retire l lane hl =>
    rw [cell_retireLane hl]
    split <;> rfl
  | _ => rfl

/-- A lane in the table was there before or has just been published. -/
theorem Effect.homeOf_before (h : Effect s i new s') {laneId : Nat} {m : ModId} {a : Nat}
    (hh : s'.homeOf laneId = some (m, a)) :
    s.homeOf laneId = some (m, a) ∨
      laneId = s.gNextLaneId ∧ a = s.cells.length ∧ s'.cells.length = s.cells.length + 1 := by
  cases h with
  | publish _ m name desc =>
    rw [homeOf_addLane] at hh
    split at hh
    · next hl =>
      cases hh
      exact .inr ⟨hl, rfl, by simp [addLane]⟩
    · exact .inl hh
  | lease _ consumer l lane _ hl =>
    rw [homeOf_addLease consumer hl] at hh
    exact .inl hh
  | take _ id lease =>
    rw [homeOf_takeLease] at hh
    exact .inl hh
  | retire l lane hl =>
    rw [homeOf_retireLane] at hh
    split at hh
    · cases hh
    · exact .inl hh
  | _ => exact .inl hh

/-- A lane stays in the table until it is retired. -/
theorem Effect.homeOf_after (h : Effect s i new s') (ho : s.Ordered) {laneId : Nat} {x : ModId × Nat}
    (hh : s.homeOf laneId = some x) (hi : i ≠ .retireLane laneId) : s'.homeOf laneId = some x := by
  cases h with
  | publish _ m name desc =>
    rw [homeOf_addLane, if_neg (Nat.ne_of_lt (ho.lt_of_homeOf hh))]
    exact hh
  | lease _ consumer l lane _ hl =>
    rw [homeOf_addLease consumer hl]
    exact hh
  | take _ id lease =>
    rw [homeOf_takeLease]
    exact hh
  | retire l lane hl =>
    have hne : laneId ≠ l := by
      intro he
      exact hi (by rw [he])
    rw [homeOf_retireLane, if_neg hne]
    exact hh
  | _ => exact hh

/-- A cell whose flag is up belongs to a lane in the table. -/
def Lit (s : Lanes) : Prop := ∀ a, (s.cell a).flag ≠ 0 → ∃ laneId m, s.homeOf laneId = some (m, a)

theorem Effect.lit (h : Effect s i new s') (ho : s.Ordered) (hs : Lit s) : Lit s' := by
  intro a ha
  cases h with
  | publish _ m name desc =>
    rw [cell_addLane] at ha
    split at ha
    · next he => exact ⟨s.gNextLaneId, m, by rw [homeOf_addLane, if_pos rfl, he]⟩
    · obtain ⟨laneId, m', hh⟩ := hs a ha
      have hlt : laneId < s.gNextLaneId := ho.lt_of_homeOf hh
      exact ⟨laneId, m', by rw [homeOf_addLane, if_neg (Nat.ne_of_lt hlt), hh]⟩
  | lease _ consumer l lane _ hl =>
    obtain ⟨laneId, m', hh⟩ := hs a ha
    exact ⟨laneId, m', by rw [homeOf_addLease consumer hl, hh]⟩
  | take _ id lease =>
    rw [cell_takeLease] at ha
    obtain ⟨laneId, m', hh⟩ := hs a ha
    exact ⟨laneId, m', by rw [homeOf_takeLease, hh]⟩
  | retire l lane hl =>
    rw [cell_retireLane hl] at ha
    split at ha
    · exact absurd rfl ha
    · next hcell =>
      obtain ⟨laneId, m', hh⟩ := hs a ha
      have hne : laneId ≠ l := by
        intro he
        rw [he, homeOf_eq_some hl] at hh
        cases hh
        -- outside the list every flag is down
        have hout : s.cells.length ≤ lane.alive := by
          by_contra hc
          exact hcell ⟨rfl, by omega⟩
        simp [Lanes.cell, List.getElem?_eq_none hout] at ha
      exact ⟨laneId, m', by rw [homeOf_retireLane, if_neg hne, hh]⟩
  | _ => exact hs a ha

end LaneProtocol

namespace Lifecycle

open LeviRs Lane Loader Nesting Runs

variable {env : Env} {w w' : World} {i : Instr} {new rest : List Instr}

/-! ## What an instruction does to the lanes -/

/-- The `Lane` a call of `Lane::with` is on. -/
def Instr.frame : Instr → Option LaneRef
  | .inside ref => some ref
  | _ => none

/-- The calls of `Lane::with` on the stack that are on the lane with this cell. -/
def framesOn (a : Nat) (stack : List Instr) : Nat := stack.countP fun i => i.frame.bind LaneRef.alive == some a

/-- Everything an instruction can do to the lanes and to what has been handed out. -/
inductive LaneStep (w : World) : Instr → List Instr → World → Prop where
  | other (i : Instr) (new : List Instr) (w' : World) (hlane : w'.lane = w.lane) (hhanded : w'.handed = w.handed)
      (hi : i.frame = none) (hnew : ∀ j ∈ new, j.frame = none) : LaneStep w i new w'
  | lane (j : LaneProtocol.Instr) (new : List LaneProtocol.Instr) (s : Lanes) (hx : LaneProtocol.Exec j w.lane new s) :
      LaneStep w (.lane j) (new.map .lane ++ callee j) { w.setLane s with handed := handedBy w.lane j ++ w.handed }
  | enter (ref : LaneRef) (h : ref ∈ w.handed) (ha : isAlive ref w.lane = true) :
      LaneStep w (.laneWith ref) [.inside ref] (w.setLane (enter ref.busy w.lane))
  | leave (ref : LaneRef) : LaneStep w (.inside ref) [] (w.setLane (leave ref.busy w.lane))

theorem lane_apply {c : Call} (h : laneOp c = none) (s : Loader.State) : (c.apply env s).lane = s.lane := by
  cases c <;> first | rfl | cases h

theorem lane_finishLoad (name : String) (m : ModId) (ok : Bool) (abi_version : UInt32) (s : Loader.State) :
    (finishLoad name m ok abi_version s).2.lane = s.lane := by
  unfold finishLoad
  split <;> rfl

theorem Exec.laneStep (hx : Exec env i w new w') : LaneStep w i new w' := by
  cases hx with
  | call c _ h => exact .other _ _ _ (lane_apply h w.loader) rfl rfl (by simp)
  | lane hx => exact .lane _ _ _ hx
  | load name m => exact .other _ _ _ rfl rfl rfl (by simp [Instr.frame])
  | levi_rs_main name m ok abi_version => exact .other _ _ _ (lane_finishLoad name m ok abi_version _) rfl rfl (by simp)
  | unloadCheck name =>
    refine .other _ _ _ rfl rfl rfl ?_
    cases Lifecycle.unloadCheck name w.loader <;> simp [afterCheck, Instr.frame]
  | on_unload name m =>
    refine .other _ _ _ rfl rfl rfl ?_
    simp [teardown, onRustModGone, LaneProtocol.program, Instr.frame]
  | sweep v m => exact .other _ _ _ (by cases v <;> rfl) rfl rfl (by simp)
  | laneWith ref _ h =>
    obtain he | ⟨ha, he⟩ := laneWith_cases ref w.lane
    · rw [he]
      exact .other _ _ _ rfl rfl rfl (by simp [afterWith])
    · rw [he]
      exact .enter ref h ha
  | inside ref => exact .leave ref
  | _ => exact .other _ _ _ rfl rfl rfl (by simp)

/-! ## The busy cells -/

/-- Lanes have cells, and a cell whose flag is up has a lane. -/
structure Sound (s : Lanes) : Prop where
  ordered : s.Ordered
  cellLt : ∀ laneId m a, s.homeOf laneId = some (m, a) → a < s.cells.length
  lit : LaneProtocol.Lit s

theorem Sound.exec {s s' : Lanes} {j : LaneProtocol.Instr} {new : List LaneProtocol.Instr} (h : Sound s)
    (hx : LaneProtocol.Exec j s new s') : Sound s' where
  ordered := hx.effect.ordered h.ordered
  cellLt laneId m a hh := by
    have hle := hx.effect.cells_le
    obtain hb | ⟨_, ha, hlen⟩ := hx.effect.homeOf_before hh
    · have := h.cellLt laneId m a hb
      omega
    · omega
  lit := hx.effect.lit h.ordered h.lit

/-- A record of a lane: flag and busy count are in the one cell. -/
def Issued (s : Lanes) (ref : LaneRef) : Prop := ∃ a, ref.alive = some a ∧ ref.busy = some a ∧ a < s.cells.length

theorem Issued.mono {s s' : Lanes} {ref : LaneRef} (h : Issued s ref) (hle : s.cells.length ≤ s'.cells.length) :
    Issued s' ref := by
  obtain ⟨a, halive, hbusy, ha⟩ := h
  exact ⟨a, halive, hbusy, Nat.lt_of_lt_of_le ha hle⟩

/-- What an instruction hands out is a record of a lane in the table. -/
theorem handedBy_issued {s : Lanes} (h : Sound s) {j : LaneProtocol.Instr} {ref : LaneRef} (hr : ref ∈ handedBy s j) :
    Issued s ref := by
  cases j with
  | acquire live mod name want out =>
    simp only [handedBy, handOver] at hr
    split at hr
    · next hok =>
      obtain ⟨_, _, hcode⟩ | ⟨_, laneId, lane, _, hl, _, _, _, _, _, _, ref', hout, halive, hbusy⟩ :=
        api_lane_acquire_cases live mod name want out s
      · exact absurd hok hcode
      · rw [hout] at hr
        obtain ⟨hmem, hsize⟩ := List.mem_filter.mp hr
        have he : ref = ref' := by simpa using hmem
        subst he
        exact ⟨lane.alive, halive, hbusy (by simpa using hsize), h.cellLt _ _ _ (homeOf_eq_some hl)⟩
    · cases hr
  | _ => cases hr

/-- A cell counts the calls on the stack, and every `Lane` is a record of a lane. -/
structure Counted (w : World) (stack : List Instr) : Prop where
  sound : Sound w.lane
  handed : ∀ ref ∈ w.handed, Issued w.lane ref
  frames : ∀ ref, .inside ref ∈ stack → Issued w.lane ref
  busy : ∀ a, (w.lane.cell a).busy = framesOn a stack

theorem framesOn_append (a : Nat) (l l' : List Instr) : framesOn a (l ++ l') = framesOn a l + framesOn a l' :=
  List.countP_append

theorem framesOn_eq_zero (a : Nat) {l : List Instr} (h : ∀ j ∈ l, j.frame = none) : framesOn a l = 0 := by
  rw [framesOn, List.countP_eq_zero]
  intro j hj
  simp [h j hj]

theorem framesOn_cons {a : Nat} {l : List Instr} (h : i.frame = none) : framesOn a (i :: l) = framesOn a l := by
  simp [framesOn, h]

theorem framesOn_inside {ref : LaneRef} {a : Nat} (h : ref.alive = some a) (b : Nat) :
    framesOn b [.inside ref] = if a = b then 1 else 0 := by
  simp [framesOn, Instr.frame, h, List.countP_cons]

theorem not_inside {l : List Instr} (h : ∀ j ∈ l, j.frame = none) (ref : LaneRef) : .inside ref ∉ l := by
  intro hm
  cases h _ hm

/-- Instructions that are no calls of `Lane::with` join the stack. -/
theorem Counted.push (h : Counted w rest) (hnew : ∀ j ∈ new, j.frame = none) : Counted w (new ++ rest) where
  sound := h.sound
  handed := h.handed
  frames ref hm := h.frames ref ((List.mem_append.mp hm).resolve_left (not_inside hnew ref))
  busy a := by rw [framesOn_append, framesOn_eq_zero a hnew, Nat.zero_add, h.busy]

theorem program_frame (o : Op) : ∀ j ∈ program o, j.frame = none := by
  cases o with
  | call c =>
    simp only [program, callProgram]
    split <;> simp [Instr.frame]
  | _ => simp [program, Instr.frame]

theorem callee_foreign (j : LaneProtocol.Instr) : ∀ k ∈ callee j, k = .foreign := by
  cases j <;> simp [callee]

theorem busy_modify {s : Lanes} {a : Nat} (ha : a < s.cells.length) (f : Nat → Nat) (b : Nat) :
    ({ s with cells := s.cells.modify a fun c => { c with busy := f c.busy } }.cell b).busy =
      if a = b then f (s.cell b).busy else (s.cell b).busy := by
  rw [cell_modify]
  by_cases h : a = b
  · rw [if_pos h, if_pos ⟨h, h ▸ ha⟩]
  · rw [if_neg h, if_neg fun hc => h hc.1]

/-- The cells change in one busy count. -/
theorem Sound.setBusy {s : Lanes} (h : Sound s) (a : Nat) (f : Nat → Nat) :
    Sound { s with cells := s.cells.modify a fun c => { c with busy := f c.busy } } where
  ordered := ⟨h.ordered.laneLt, h.ordered.leaseLt, h.ordered.leaseLane⟩
  cellLt laneId m b hh := by
    rw [List.length_modify]
    exact h.cellLt laneId m b hh
  lit b hb := by
    apply h.lit b
    rw [cell_modify] at hb
    split at hb <;> exact hb

theorem Issued.setBusy {s : Lanes} {ref : LaneRef} (h : Issued s ref) (a : Nat) (f : Nat → Nat) :
    Issued { s with cells := s.cells.modify a fun c => { c with busy := f c.busy } } ref :=
  h.mono (by simp)

/-- The step lemma of `Counted`. -/
theorem Counted.step (h : Counted w (i :: rest)) (hx : LaneStep w i new w') : Counted w' (new ++ rest) := by
  have hrest : ∀ ref, .inside ref ∈ rest → Issued w.lane ref := fun ref hm => h.frames ref (List.mem_cons_of_mem i hm)
  cases hx with
  | other _ _ _ hlane hhanded hi hnew =>
    have hw : Counted w rest := ⟨h.sound, h.handed, hrest, fun a => by rw [h.busy, framesOn_cons hi]⟩
    obtain ⟨sound, handed, frames, busy⟩ := hw.push hnew
    exact ⟨hlane ▸ sound, by rw [hlane, hhanded]; exact handed, hlane ▸ frames, hlane ▸ busy⟩
  | lane j new s hx =>
    have hle := hx.effect.cells_le
    have hlane : Counted { w.setLane s with handed := handedBy w.lane j ++ w.handed } rest := by
      refine ⟨h.sound.exec hx, ?_, fun ref hm => (hrest ref hm).mono hle, ?_⟩
      · intro ref hm
        rcases List.mem_append.mp hm with hm | hm
        · exact (handedBy_issued h.sound hm).mono hle
        · exact (h.handed ref hm).mono hle
      · intro a
        rw [← framesOn_cons (i := .lane j) rfl, ← h.busy]
        exact hx.effect.busy a
    refine hlane.push fun k hk => ?_
    rcases List.mem_append.mp hk with hk | hk
    · obtain ⟨_, _, rfl⟩ := List.mem_map.mp hk
      rfl
    · rw [callee_foreign j k hk]
      rfl
  | enter ref hmem ha =>
    obtain ⟨a, halive, hbusy, hlt⟩ := h.handed ref hmem
    rw [hbusy]
    refine ⟨h.sound.setBusy a (· + 1), fun r hr => (h.handed r hr).setBusy a (· + 1), ?_, ?_⟩
    · intro r hr
      rcases List.mem_cons.mp hr with he | hr
      · cases he
        exact (h.handed ref hmem).setBusy a (· + 1)
      · exact (hrest r hr).setBusy a (· + 1)
    · intro b
      have hb := h.busy b
      rw [framesOn_cons rfl] at hb
      refine (busy_modify hlt (· + 1) b).trans ?_
      rw [framesOn_append, framesOn_inside halive, ← hb]
      split <;> omega
  | leave ref =>
    obtain ⟨a, halive, hbusy, hlt⟩ := h.frames ref (by simp)
    rw [hbusy]
    refine ⟨h.sound.setBusy a (· - 1), fun r hr => (h.handed r hr).setBusy a (· - 1),
      fun r hr => (hrest r hr).setBusy a (· - 1), ?_⟩
    intro b
    have hb := h.busy b
    rw [← List.singleton_append, framesOn_append, framesOn_inside halive] at hb
    refine (busy_modify hlt (· - 1) b).trans ?_
    rw [List.nil_append, hb]
    split
    · exact Nat.add_sub_cancel_left 1 _
    · exact Nat.zero_add _

theorem sound_initial : Sound Lanes.initial where
  ordered := ordered_initial
  cellLt laneId m a hh := by simp [Lanes.initial, Lanes.homeOf] at hh
  lit a ha := by simp [Lanes.initial, Lanes.cell] at ha

variable {hookEvents : List String} {p : State} {tr : List (State × Event)}

/-- The run lemma of `Counted`. -/
theorem counted_run (h : Run (LStep env) (start hookEvents) tr p) : Counted p.state p.stack := by
  refine nested_invariant Counted (G := fun _ _ => True) h (fun _ _ => trivial) ?_ ?_ ?_
  · exact ⟨sound_initial, by simp [start], by simp [start], fun a => by
      simp [start, Loader.State.initial, World.lane, Lanes.initial, Lanes.cell, framesOn]⟩
  · intro w stack o _ hc
    exact hc.push (program_frame o)
  · intro w i rest new w' _ hc hx
    exact hc.step hx.laneStep

theorem framesOn_pos {ref : LaneRef} {a : Nat} {stack : List Instr} (h : ref.alive = some a)
    (hm : .inside ref ∈ stack) : 0 < framesOn a stack := by
  rw [framesOn, List.countP_pos_iff]
  exact ⟨.inside ref, hm, by simp [Instr.frame, h]⟩

/-! ## Unloading under a call -/

theorem laneModBusyName_isSome {s : Lanes} {laneId a : Nat} {m : ModId} (h : s.homeOf laneId = some (m, a))
    (hb : (s.cell a).busy ≠ 0) : (laneModBusyName m s).isSome := by
  obtain ⟨lane, hl, hlane⟩ := Option.map_eq_some_iff.mp h
  obtain ⟨rfl, rfl⟩ := Prod.mk.inj hlane
  let busyLane : Nat → LaneEntry → Bool := fun _ l => l.mod == lane.mod && (s.cell l.alive).busy != 0
  have hmem : laneId ∈ s.gLanes.keysIf busyLane := (AList.mem_keysIf _ _ _).mpr ⟨lane, hl, by simp [busyLane, hb]⟩
  have hhead : ∃ first, (s.gLanes.keysIf busyLane).head? = some first := by
    cases hk : s.gLanes.keysIf busyLane with
    | nil => rw [hk] at hmem; cases hmem
    | cons first others => exact ⟨first, rfl⟩
  obtain ⟨first, hfirst⟩ := hhead
  obtain ⟨lane', hl', _⟩ := (AList.mem_keysIf _ _ _).mp (List.mem_of_head? hfirst)
  show (((s.gLanes.keysIf busyLane).head?.bind s.gLanes.lookup).map LaneEntry.name).isSome
  simp [hfirst, hl']

/-- A mod with a lane whose busy count is not zero is not unloaded. -/
theorem unloadCheck_of_busy {s : Loader.State} {laneId a : Nat} {m : ModId} {name : String}
    (h : s.lane.homeOf laneId = some (m, a)) (hb : (s.lane.cell a).busy ≠ 0) (hm : s.mods.lookup name = some m) :
    ∃ error, unloadCheck name s = .error error := by
  obtain ⟨busyLane, hbusy⟩ := Option.isSome_iff_exists.mp (laneModBusyName_isSome h hb)
  simp only [unloadCheck, hm, hbusy]
  exact ⟨_, rfl⟩

theorem lookup_of_unloadCheck {s : Loader.State} {name : String} {m : ModId} (h : unloadCheck name s = .ok m) :
    s.mods.lookup name = some m := by
  unfold unloadCheck at h
  split at h
  · cases h
  · next m' hm =>
    split at h
    · cases h
    · cases h
      exact hm

/-! ## A lane stays while it is called -/

/-- The instruction takes the lane out of the table, or leads there without a further check. -/
def Instr.threatens (laneId : Nat) (m : ModId) : Instr → Bool
  | .lane (.retireLane l) => l == laneId
  | .lane (.collectPublished m') => m' == m
  | .on_unload _ m' => m' == m
  | _ => false

/-- No lane is unpublished while a call through it is on the stack. -/
def KeepsCalled (p : State) (l : Event) : Prop :=
  ∀ mod laneId lane, l = .exec (.lane (.unpublish mod laneId)) → unpublishCheck mod laneId p.state.lane = true →
    p.state.lane.gLanes.lookup laneId = some lane → framesOn lane.alive p.stack = 0

/-- The lane of every call on the stack is in the table, and nothing above the call threatens it. -/
def Held (w : World) (stack : List Instr) : Prop :=
  ∀ pre ref post, stack = pre ++ .inside ref :: post →
    ∃ laneId m a, ref.alive = some a ∧ w.lane.homeOf laneId = some (m, a) ∧
      ∀ j ∈ pre, j.threatens laneId m = false

variable {laneId a : Nat} {m : ModId}

/-- Among the instructions of the lane part it comes from a threat, or from an unpublish that passes its check. -/
theorem threatens_of_lane {k k' : LaneProtocol.Instr} {newLane : List LaneProtocol.Instr}
    (hx : LaneProtocol.Exec k s newLane s') (hh : s.homeOf laneId = some (m, a)) (hk : k' ∈ newLane)
    (ht : (Instr.lane k').threatens laneId m = true) :
    (Instr.lane k).threatens laneId m = true ∨
      ∃ mod, k = .unpublish mod laneId ∧ unpublishCheck mod laneId s = true := by
  cases hx with
  | unpublish mod pubId =>
    split at hk
    · next hcheck =>
      obtain rfl := List.mem_singleton.mp hk
      have hid : pubId = laneId := by simpa [Instr.threatens] using ht
      subst hid
      exact .inr ⟨mod, rfl, hcheck⟩
    · cases hk
  | collectPublished m' ids _ hp =>
    obtain ⟨id, hid, rfl⟩ := List.mem_map.mp hk
    have he : id = laneId := by simpa [Instr.threatens] using ht
    subst he
    obtain ⟨lane, hl, hm⟩ := (AList.mem_keysIf _ _ _).mp (hp.mem_iff.mp hid)
    rw [homeOf_eq_some hl] at hh
    cases hh
    exact .inl (by simp [Instr.threatens, beq_iff_eq.mp hm])
  | retireLane l =>
    obtain ⟨_, _, rfl⟩ := List.mem_map.mp hk
    cases ht
  | collectLeases _ ids =>
    obtain ⟨_, _, rfl⟩ := List.mem_map.mp hk
    cases ht
  | acquire =>
    obtain ⟨_, _, rfl⟩ := List.mem_map.mp hk
    cases ht
  | releaseLease =>
    obtain ⟨_, _, rfl⟩ := List.mem_map.mp hk
    cases ht
  | dropLease =>
    obtain ⟨_, _, rfl⟩ := List.mem_map.mp hk
    cases ht
  | _ => cases hk

/-- A threat comes from a threat, from an unpublish or from an unload that passes its check. -/
theorem Exec.threatens (hx : Exec env i w new w') (hh : w.lane.homeOf laneId = some (m, a)) {j : Instr}
    (hj : j ∈ new) (ht : j.threatens laneId m = true) :
    i.threatens laneId m = true ∨
    (∃ mod, i = .lane (.unpublish mod laneId) ∧ unpublishCheck mod laneId w.lane = true) ∨
    ∃ name, i = .unloadCheck name ∧ Lifecycle.unloadCheck name w.loader = .ok m := by
  cases hx with
  | lane hx =>
    rcases List.mem_append.mp hj with hj | hj
    · obtain ⟨k, hk, rfl⟩ := List.mem_map.mp hj
      obtain h | ⟨mod, rfl, hcheck⟩ := threatens_of_lane hx hh hk ht
      · exact .inl h
      · exact .inr (.inl ⟨mod, rfl, hcheck⟩)
    · obtain rfl := callee_foreign _ j hj
      cases ht
  | unloadCheck name =>
    cases hc : Lifecycle.unloadCheck name w.loader with
    | error e =>
      rw [hc] at hj
      cases hj
    | ok m' =>
      rw [hc] at hj
      obtain rfl := List.mem_singleton.mp hj
      have hm : m' = m := by simpa [Instr.threatens] using ht
      exact .inr (.inr ⟨name, rfl, hm ▸ hc⟩)
  | on_unload name m' =>
    left
    simp only [teardown, onRustModGone, LaneProtocol.program, List.map_cons, List.map_nil, List.cons_append,
      List.nil_append, List.mem_cons, List.not_mem_nil, or_false] at hj
    rcases hj with rfl | rfl | rfl | rfl | rfl | rfl | rfl | rfl | rfl | rfl | rfl | rfl | rfl | rfl <;>
      first | exact ht | cases ht
  | laneWith ref =>
    cases hc : (Lifecycle.laneWith ref w.lane).1 with
    | false =>
      rw [hc] at hj
      cases hj
    | true =>
      rw [hc] at hj
      obtain rfl := List.mem_singleton.mp hj
      cases ht
  | load =>
    obtain rfl := List.mem_singleton.mp hj
    cases ht
  | _ => cases hj

theorem program_threatens (o : Op) (laneId : Nat) (m : ModId) : ∀ j ∈ program o, j.threatens laneId m = false := by
  cases o with
  | call c =>
    simp only [program, callProgram]
    cases c <;> simp [laneOp, LaneProtocol.program, Instr.threatens]
  | _ => simp [program, Instr.threatens]

/-- An instruction that is no threat to a lane leaves it in the table. -/
theorem LaneStep.homeOf_after (hx : LaneStep w i new w') (ho : w.lane.Ordered)
    (hh : w.lane.homeOf laneId = some (m, a)) (ht : i.threatens laneId m = false) :
    w'.lane.homeOf laneId = some (m, a) := by
  cases hx with
  | other _ _ _ hlane => rw [hlane, hh]
  | lane j new s hx =>
    refine hx.effect.homeOf_after ho hh ?_
    rintro rfl
    simp [Instr.threatens] at ht
  | enter ref =>
    obtain ⟨cells, hc⟩ := enter_eq ref.busy w.lane
    rw [hc]
    exact hh
  | leave ref =>
    obtain ⟨cells, hc⟩ := leave_eq ref.busy w.lane
    rw [hc]
    exact hh

/-- The call an instruction puts on the stack is on a lane whose flag is up. -/
theorem LaneStep.entered (hx : LaneStep w i new w') {ref : LaneRef} {pre q : List Instr}
    (hnew : new = pre ++ .inside ref :: q) : pre = [] ∧ isAlive ref w.lane = true ∧ i = .laneWith ref := by
  have hmem : .inside ref ∈ new := by simp [hnew]
  cases hx with
  | other _ _ _ _ _ _ hframe => exact absurd hmem (not_inside hframe ref)
  | lane j =>
    rcases List.mem_append.mp hmem with hm | hm
    · obtain ⟨_, _, hc⟩ := List.mem_map.mp hm
      cases hc
    · cases callee_foreign j _ hm
  | enter ref' _ ha =>
    cases pre with
    | nil =>
      cases hnew
      exact ⟨rfl, ha, rfl⟩
    | cons k pre => simp at hnew
  | leave => cases hmem

/-- The step lemma of `Held`. -/
theorem Held.exec (h : Held w (i :: rest)) (hc : Counted w (i :: rest)) (hG : KeepsCalled ⟨w, i :: rest⟩ (.exec i))
    (hx : Exec env i w new w') : Held w' (new ++ rest) := by
  intro pre ref post heq
  obtain ⟨p, rfl, hrest⟩ | ⟨q, hnew⟩ := append_eq_append_cons heq
  · obtain ⟨laneId, m, a, halive, hh, hsafe⟩ := h (i :: p) ref post (by rw [hrest, List.cons_append])
    have hi : i.threatens laneId m = false := hsafe i (by simp)
    have hframes : 0 < framesOn a (i :: rest) := framesOn_pos halive (by simp [hrest])
    refine ⟨laneId, m, a, halive, hx.laneStep.homeOf_after hc.sound.ordered hh hi, fun j hj => ?_⟩
    rcases List.mem_append.mp hj with hj | hj
    · rw [← Bool.not_eq_true]
      intro ht
      obtain ht | ⟨mod, rfl, hcheck⟩ | ⟨name, rfl, hok⟩ := hx.threatens hh hj ht
      · rw [hi] at ht
        cases ht
      · obtain ⟨lane, hl, hlane⟩ := Option.map_eq_some_iff.mp hh
        obtain ⟨-, rfl⟩ := Prod.mk.inj hlane
        exact absurd (hG mod laneId lane rfl hcheck hl) (Nat.ne_of_gt hframes)
      · -- the call keeps its provider from being unloaded
        have hbusy : (w.lane.cell a).busy ≠ 0 := by
          rw [hc.busy]
          omega
        obtain ⟨error, he⟩ := unloadCheck_of_busy hh hbusy (lookup_of_unloadCheck hok)
        rw [hok] at he
        cases he
    · exact hsafe j (List.mem_cons_of_mem i hj)
  · obtain ⟨rfl, ha, rfl⟩ := hx.laneStep.entered hnew
    unfold isAlive at ha
    split at ha
    · cases ha
    · next a halive =>
      obtain ⟨laneId, m, hh⟩ := hc.sound.lit a (by simpa using ha)
      exact ⟨laneId, m, a, halive, hx.laneStep.homeOf_after hc.sound.ordered hh rfl, by simp⟩

theorem Held.push (h : Held w rest) (o : Op) : Held w (program o ++ rest) := by
  intro pre ref post heq
  obtain ⟨p, rfl, hrest⟩ | ⟨q, hnew⟩ := append_eq_append_cons heq
  · obtain ⟨laneId, m, a, halive, hh, hsafe⟩ := h p ref post hrest
    refine ⟨laneId, m, a, halive, hh, fun j hj => ?_⟩
    rcases List.mem_append.mp hj with hj | hj
    · exact program_threatens o laneId m j hj
    · exact hsafe j hj
  · exact absurd (by simp [hnew]) (not_inside (program_frame o) ref)

/-- The run lemma of `Held`. -/
theorem held_run (h : Run (LStep env) (start hookEvents) tr p) (hG : Meets KeepsCalled tr) :
    Held p.state p.stack := by
  suffices Counted p.state p.stack ∧ Held p.state p.stack from this.2
  refine nested_invariant (fun w stack => Counted w stack ∧ Held w stack) h hG ?_ ?_ ?_
  · exact ⟨@counted_run env hookEvents _ _ (.nil _), by intro pre ref post heq; simp [start] at heq⟩
  · intro w stack o _ hc
    exact ⟨hc.1.push (program_frame o), hc.2.push o⟩
  · intro w i rest new w' hg hc hx
    exact ⟨hc.1.step hx.laneStep, hc.2.exec hc.1 hg hx⟩

end Lifecycle
