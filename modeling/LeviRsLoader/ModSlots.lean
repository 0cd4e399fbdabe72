import LeviRsLoader.RustModManager
import Mathlib.Data.List.Chain

/-!
# Mod slots

What a mod's library keeps from call to call: the runtime its entry point is handed and, behind a
mutex, the instance its `on_load` makes. The callbacks of the vtable lock that mutex, and a panic in
one of them poisons it. `RustModManager` sees what they answer.
-/
namespace ModSlots

open LeviRs (ModId)
open RustModManager (ControlError Mods Operation)
open Runs

variable {T : Type*}

/-! ## A mod's library -/

/-- How a piece of the mod's own code ends. -/
inductive Ending where
  | ok
  | error
  | panic
  deriving DecidableEq

/-- The stages `__lifecycle` tells apart. -/
inductive Stage where
  | on_enable
  | on_disable
  | on_unload
  deriving DecidableEq

/-- A piece of the mod's code that ran: the instance it was handed, the one it left, how it ended. -/
inductive Entry (T : Type*) where
  | on_load (left : Option T) (ending : Ending)
  | ran (stage : Stage) (handed : T) (left : Option T) (ending : Ending)

def Entry.left : Entry T → Option T
  | .on_load left _ | .ran _ _ left _ => left

def Entry.ending : Entry T → Ending
  | .on_load _ e | .ran _ _ _ e => e

structure ModSlot (T : Type*) where
  value : Option T := none
  poisoned : Bool := false

/-- The statics of a mapped library. -/
structure Image (T : Type*) where
  runtime : Option ModId := none
  slot : ModSlot T := {}
  /-- The hooks that have run since it was mapped. No code reads this. -/
  log : List (Entry T) := []

/-- What a mod was built against. -/
structure Crate where
  LEVI_RS_ABI_VERSION : UInt32
  LEVI_RS_ABI_TARGET_TAG : UInt32
  LEVI_RS_API_CORE_SIZE : Nat

def Crate.LEVI_RS_ABI_TAGGED_VERSION (k : Crate) : UInt32 := k.LEVI_RS_ABI_VERSION ||| k.LEVI_RS_ABI_TARGET_TAG

/-- The head of the loader's table. -/
structure LeviRsApi where
  abi_version : UInt32
  struct_size : UInt32

inductive Loaded (T : Type*) where
  | ok (instance_ : T)
  | error
  | panic

/-- The mod's code in one call. -/
structure LeviMod (T : Type*) where
  on_load : Loaded T
  on_enable : T → T × Ending
  on_disable : T → T × Ending
  on_unload : T → T × Ending
  /-- Dropping the instance panics. -/
  dropPanics : Bool

def set_runtime (handle : ModId) (im : Image T) : Bool × Image T :=
  match im.runtime with
  | some _ => (false, im)
  | none => (true, { im with runtime := some handle })

def init_runtime (k : Crate) (api : LeviRsApi) (handle : ModId) (im : Image T) : Bool × Image T :=
  if api.abi_version &&& Loader.LEVI_RS_ABI_TARGET_MASK ≠ k.LEVI_RS_ABI_TARGET_TAG then (false, im)
  else if api.abi_version &&& ~~~Loader.LEVI_RS_ABI_TARGET_MASK < k.LEVI_RS_ABI_VERSION then (false, im)
  else if api.struct_size.toNat < k.LEVI_RS_API_CORE_SIZE then (false, im)
  else set_runtime handle im

/-- `__load`; `none` where the slot's `unwrap` panics and takes the process with it. -/
def slotLoad (t : LeviMod T) (im : Image T) : Option (Bool × Image T) :=
  match t.on_load with
  | .ok instance_ =>
    if im.slot.poisoned then none
    else some (true, { im with
      slot := { im.slot with value := some instance_ }
      log := im.log ++ [.on_load (some instance_) .ok] })
  | .error => some (false, { im with log := im.log ++ [.on_load none .error] })
  | .panic => some (false, { im with log := im.log ++ [.on_load none .panic] })

def levi_rs_main (k : Crate) (api : LeviRsApi) (handle : ModId) (t : LeviMod T) (im : Image T) :
    Option (Bool × Image T) :=
  match init_runtime k api handle im with
  | (false, im) => some (false, im)
  | (true, im) => slotLoad t im

/-- What a stage leaves of the instance it is handed, and how it ends. -/
def LeviMod.run (t : LeviMod T) (stage : Stage) (instance_ : T) : Option T × Ending :=
  match stage with
  | .on_enable => (some (t.on_enable instance_).1, (t.on_enable instance_).2)
  | .on_disable => (some (t.on_disable instance_).1, (t.on_disable instance_).2)
  | .on_unload =>
    match t.on_unload instance_ with
    -- the slot is emptied also where dropping its instance panics
    | (_, .ok) => (none, if t.dropPanics then .panic else .ok)
    | (left, e) => (some left, e)

/-- `__lifecycle` -/
def lifecycle (t : LeviMod T) (stage : Stage) (im : Image T) : Bool × Image T :=
  if im.slot.poisoned then (false, im)
  else
    match im.slot.value with
    | none => (false, im)
    | some instance_ =>
      let (left, e) := t.run stage instance_
      (decide (e = .ok), { im with
        slot := ⟨left, decide (e = .panic)⟩
        log := im.log ++ [.ran stage instance_ left e] })

/-! ## The loader and its libraries -/

/-- A library in the process, with how often it has been loaded. -/
structure Mapped (T : Type*) where
  refs : Nat
  image : Image T

structure World (T : Type*) where
  mods : Mods
  images : String → Option (Mapped T)
  /-- The process is gone: an `unwrap` in `levi_rs_main`, or a call into a library that is not mapped. -/
  crashed : Bool

def World.initial : World T := ⟨∅, fun _ => none, false⟩

/-- What stands at the manifest's entry path. -/
inductive Library where
  | fails (error : String)
  | noMain
  | exports (crate : Crate)

/-- How a call goes wherever that is not up to this code. -/
structure Course (T : Type*) where
  lib : Library
  code : LeviMod T
  /-- The `RustMod` a load makes. -/
  handle : ModId
  laneBusyName : Option String
  /-- The error of `lib.free()`. -/
  free : Option String
  /-- What LeviLamina says when a callback returns false. -/
  refusal : String

/-- What `RustModManager` gets to see of it, where the callbacks answer `ok`. -/
def Course.results (c : Course T) (lib : Loader.Dylib) (ok : Bool) : RustModManager.Results where
  lib := lib
  on_enable := some ok
  on_disable := some ok
  on_unload := some ok
  laneBusyName := c.laneBusyName
  free := c.free
  refusal := c.refusal

def World.setImage (w : World T) (name : String) (im : Option (Mapped T)) : World T :=
  { w with images := Function.update w.images name im }

/-- `lib.load`: the operating system maps a library once. -/
def libLoad (name : String) (w : World T) : World T :=
  match w.images name with
  | none => w.setImage name (some ⟨1, {}⟩)
  | some m => w.setImage name (some { m with refs := m.refs + 1 })

def libFree (error : Option String) (name : String) (w : World T) : World T :=
  match error, w.images name with
  | none, some m => w.setImage name (if m.refs ≤ 1 then none else some { m with refs := m.refs - 1 })
  | _, _ => w

/-- The loader calls `levi_rs_main`; what it answers, and the version it leaves in the vtable. -/
def callMain (k : Crate) (api : LeviRsApi) (c : Course T) (name : String) (w : World T) :
    (Bool × UInt32) × World T :=
  match w.images name with
  | none => ((false, 0), { w with crashed := true })
  | some m =>
    match levi_rs_main k api c.handle c.code m.image with
    | none => ((false, 0), { w with crashed := true })
    | some (ok, im) =>
      ((ok, if ok then k.LEVI_RS_ABI_TAGGED_VERSION else 0), w.setImage name (some { m with image := im }))

/-- The loader calls through the mod's vtable. -/
def callStage (c : Course T) (stage : Stage) (name : String) (w : World T) : Bool × World T :=
  match w.images name with
  | none => (false, { w with crashed := true })
  | some m =>
    let (ok, im) := lifecycle c.code stage m.image
    (ok, w.setImage name (some { m with image := im }))

def load (api : LeviRsApi) (c : Course T) (name : String) (w : World T) : Except ControlError Unit × World T :=
  match c.lib with
  | .fails error =>
    let (r, mods) := RustModManager.load (c.results (.fails error) false) name w.mods
    (r, { w with mods })
  | .noMain =>
    let (r, mods) := RustModManager.load (c.results .noMain false) name w.mods
    (r, { libFree c.free name (libLoad name w) with mods })
  | .exports k =>
    let ((ok, abi_version), w) := callMain k api c name (libLoad name w)
    let (r, mods) := RustModManager.load (c.results (.exports ⟨[], ok, abi_version⟩) false) name w.mods
    (r, { if r.isOk then w else libFree c.free name w with mods })

def enable (c : Course T) (name : String) (w : World T) : Except ControlError Unit × World T :=
  match w.mods.lookup name with
  | none => (.error .notFound, w)
  | some _ =>
    let (ok, w) := callStage c .on_enable name w
    let (r, mods) := RustModManager.enable (c.results .noMain ok) name w.mods
    (r, { w with mods })

def disable (c : Course T) (name : String) (w : World T) : Except ControlError Unit × World T :=
  match w.mods.lookup name with
  | none => (.error .notFound, w)
  | some _ =>
    let (ok, w) := callStage c .on_disable name w
    let (r, mods) := RustModManager.disable (c.results .noMain ok) name w.mods
    (r, { w with mods })

def unload (c : Course T) (name : String) (w : World T) : Except ControlError Unit × World T :=
  match w.mods.lookup name with
  | none => (.error .notFound, w)
  | some _ =>
    -- a busy lane is told before the mod hears of it
    let (ok, w) := if c.laneBusyName.isSome then (true, w) else callStage c .on_unload name w
    let (r, mods) := RustModManager.unload (c.results .noMain ok) name w.mods
    (r, { if r.isOk then libFree c.free name w else w with mods })

def controlLoad (api : LeviRsApi) (c : Course T) (name : String) (w : World T) : Except ControlError Unit × World T :=
  match load api c name w with
  | (.error e, w) => (.error e, w)
  | (.ok (), w) =>
    match enable c name w with
    | (.error e, w) => (.error e, (unload c name w).2)
    | (.ok (), w) => (.ok (), w)

def controlUnload (c : Course T) (name : String) (w : World T) : Except ControlError Unit × World T :=
  match w.mods.lookup name with
  | none => (.error .notLoaded, w)
  | some m =>
    if m.enabled then
      match disable c name w with
      | (.error e, w) => (.error e, w)
      | (.ok (), w) => unload c name w
    else unload c name w

structure Call (T : Type*) where
  operation : Operation
  name : String
  course : Course T

def Call.apply (api : LeviRsApi) (c : Call T) (w : World T) : Except ControlError Unit × World T :=
  match c.operation with
  | .controlLoad => controlLoad api c.course c.name w
  | .controlUnload => controlUnload c.course c.name w
  | .enable => enable c.course c.name w
  | .disable => disable c.course c.name w

def Step (api : LeviRsApi) (w : World T) (c : Call T) (w' : World T) : Prop := w' = (c.apply api w).2

/-! ## What a library keeps -/

/-- After this no code of the mod runs any more: a callback that panicked, or the end of its `on_unload`. -/
def Entry.Final : Entry T → Prop
  | .on_load _ _ => False
  | .ran stage _ _ e => e = .panic ∨ stage = .on_unload ∧ e = .ok

/-- No instance can be got out of the slot. -/
def ModSlot.Spent (slot : ModSlot T) : Prop := slot.poisoned = true ∨ slot.value = none

/-- What a slot is after the entries of a log. -/
inductive Logged : List (Entry T) → ModSlot T → Prop where
  | on_load (instance_ : T) : Logged [.on_load (some instance_) .ok] ⟨some instance_, false⟩
  | failed {e : Ending} (h : e ≠ .ok) : Logged [.on_load none e] ⟨none, false⟩
  | ran {log : List (Entry T)} {instance_ : T} (h : Logged log ⟨some instance_, false⟩) (t : LeviMod T)
      (stage : Stage) :
      Logged (log ++ [.ran stage instance_ (t.run stage instance_).1 (t.run stage instance_).2])
        ⟨(t.run stage instance_).1, decide ((t.run stage instance_).2 = .panic)⟩

def Image.Sound (im : Image T) : Prop :=
  im = {} ∨ im.runtime.isSome = true ∧ Logged im.log im.slot

/-- `on_load` has returned an instance. -/
def Image.Taken (im : Image T) : Prop := ∃ instance_, im.log.head? = some (.on_load (some instance_) .ok)

/-- `b` comes right after `a`: it is handed what `a` left, and `a` did not panic. -/
def Follows (a b : Entry T) : Prop :=
  ∃ stage instance_ left e, b = .ran stage instance_ left e ∧ a.left = some instance_ ∧ a.ending ≠ .panic

section Library

variable {im : Image T} {log : List (Entry T)} {slot : ModSlot T} {t : LeviMod T} {stage : Stage}

theorem Logged.ne_nil (h : Logged log slot) : log ≠ [] := by cases h <;> simp

theorem Image.Sound.taken_runtime (h : im.Sound) (ht : im.Taken) :
    im.runtime.isSome = true ∧ Logged im.log im.slot := by
  rcases h with rfl | h
  · obtain ⟨i, hi⟩ := ht
    cases hi
  · exact h

theorem run_unload {instance_ : T} (h : (t.on_unload instance_).2 = .ok) :
    t.run .on_unload instance_ = (none, if t.dropPanics then .panic else .ok) := by
  cases hu : t.on_unload instance_ with
  | mk left e =>
    obtain rfl : e = .ok := by rw [← h, hu]
    simp [LeviMod.run, hu]

theorem run_unload_kept {instance_ : T} (h : (t.on_unload instance_).2 ≠ .ok) :
    t.run .on_unload instance_ = (some (t.on_unload instance_).1, (t.on_unload instance_).2) := by
  cases hu : t.on_unload instance_ with
  | mk left e =>
    rw [hu] at h
    cases e with
    | ok => exact absurd rfl h
    | error => simp [LeviMod.run, hu]
    | panic => simp [LeviMod.run, hu]

/-- What a stage leaves cannot be handed on exactly if the stage was a final one. -/
theorem final_run {instance_ : T} :
    (Entry.ran stage instance_ (t.run stage instance_).1 (t.run stage instance_).2).Final ↔
      ModSlot.Spent ⟨(t.run stage instance_).1, decide ((t.run stage instance_).2 = .panic)⟩ := by
  simp only [Entry.Final, ModSlot.Spent, decide_eq_true_eq]
  refine or_congr_right' fun hp => ?_
  cases stage with
  | on_enable => simp [LeviMod.run]
  | on_disable => simp [LeviMod.run]
  | on_unload =>
    by_cases hu : (t.on_unload instance_).2 = .ok
    · rw [run_unload hu] at hp ⊢
      cases hd : t.dropPanics <;> simp_all
    · rw [run_unload_kept hu]
      simp [hu]

/-- A slot can be got at exactly as long as no final entry has been made. -/
theorem Logged.spent_iff (h : Logged log slot) (ht : ∃ i, log.head? = some (.on_load (some i) .ok)) :
    slot.Spent ↔ ∃ e ∈ log, e.Final := by
  induction h with
  | on_load i => simp [ModSlot.Spent, Entry.Final]
  | failed h =>
    obtain ⟨i, hi⟩ := ht
    cases hi
  | ran h t stage ih =>
    have hlog := ih (by rwa [List.head?_append_of_ne_nil _ h.ne_nil] at ht)
    have hnone : ¬∃ e ∈ _, Entry.Final e := fun he => by simpa [ModSlot.Spent] using hlog.mpr he
    rw [← final_run]
    constructor
    · intro hf
      exact ⟨_, by simp, hf⟩
    · rintro ⟨e, he, hf⟩
      rcases List.mem_append.mp he with he | he
      · exact absurd ⟨e, he, hf⟩ hnone
      · rwa [List.mem_singleton.mp he] at hf

/-- The last entry left what is in the slot, and left it to be got at. -/
theorem Logged.last (h : Logged log slot) {last : Entry T} (hl : last ∈ log.getLast?) :
    slot.value = last.left ∧ (slot.value.isSome = true → slot.poisoned = false → last.ending ≠ .panic) := by
  cases h with
  | on_load i =>
    cases hl
    exact ⟨rfl, fun _ _ he => by cases he⟩
  | failed h =>
    cases hl
    exact ⟨rfl, fun hv => by cases hv⟩
  | ran h t stage =>
    rw [List.getLast?_concat, Option.mem_some_iff] at hl
    subst hl
    exact ⟨rfl, fun _ hp => by simpa [Entry.ending] using hp⟩

theorem Logged.chain (h : Logged log slot) : log.IsChain Follows := by
  induction h with
  | on_load i => exact .singleton _
  | failed h => exact .singleton _
  | @ran _ i h t stage ih =>
    refine ih.append (.singleton _) fun a ha b hb => ?_
    cases hb
    obtain ⟨hleft, hend⟩ := h.last ha
    exact ⟨stage, i, _, _, rfl, hleft.symm, hend rfl rfl⟩

theorem Logged.head (h : Logged log slot) : ∃ left e, log.head? = some (.on_load left e) := by
  induction h with
  | on_load i => exact ⟨_, _, rfl⟩
  | failed h => exact ⟨_, _, rfl⟩
  | ran h t stage ih => rwa [List.head?_append_of_ne_nil _ h.ne_nil]

/-! ## One call into it -/

theorem init_runtime_cases (k : Crate) (api : LeviRsApi) (handle : ModId) (im : Image T) :
    init_runtime k api handle im = (false, im) ∨
      im.runtime = none ∧ init_runtime k api handle im = (true, { im with runtime := some handle }) := by
  unfold init_runtime
  split
  · exact .inl rfl
  split
  · exact .inl rfl
  split
  · exact .inl rfl
  unfold set_runtime
  split
  · exact .inl rfl
  · next h => exact .inr ⟨h, rfl⟩

/-- A library that already has its runtime refuses; another makes its instance, or answers false. -/
theorem levi_rs_main_cases (h : im.Sound) (k : Crate) (api : LeviRsApi) (handle : ModId) (t : LeviMod T) :
    levi_rs_main k api handle t im = some (false, im) ∨
      im.runtime = none ∧ ∃ ok im', levi_rs_main k api handle t im = some (ok, im') ∧ im'.Sound ∧
        (ok = true → im'.Taken) := by
  unfold levi_rs_main
  rcases init_runtime_cases k api handle im with hi | ⟨hn, hi⟩
  · rw [hi]
    exact .inl rfl
  · rcases h with rfl | ⟨hs, -⟩
    · rw [hi]
      refine .inr ⟨rfl, ?_⟩
      unfold slotLoad
      cases t.on_load with
      | ok i => exact ⟨_, _, rfl, .inr ⟨rfl, .on_load i⟩, fun _ => ⟨i, rfl⟩⟩
      | error => exact ⟨_, _, rfl, .inr ⟨rfl, .failed (by decide)⟩, fun he => by cases he⟩
      | panic => exact ⟨_, _, rfl, .inr ⟨rfl, .failed (by decide)⟩, fun he => by cases he⟩
    · rw [hn] at hs
      cases hs

theorem lifecycle_spent (h : im.slot.Spent) : lifecycle t stage im = (false, im) := by
  unfold lifecycle
  split
  · rfl
  · next hp =>
    rw [h.resolve_left (by simpa using hp)]

theorem lifecycle_ready {instance_ : T} (h : im.slot = ⟨some instance_, false⟩) :
    lifecycle t stage im = (decide ((t.run stage instance_).2 = .ok), { im with
      slot := ⟨(t.run stage instance_).1, decide ((t.run stage instance_).2 = .panic)⟩
      log := im.log ++ [.ran stage instance_ (t.run stage instance_).1 (t.run stage instance_).2] }) := by
  simp [lifecycle, h]

theorem ready_of_not_spent (h : ¬im.slot.Spent) : ∃ instance_, im.slot = ⟨some instance_, false⟩ := by
  obtain ⟨hp, hv⟩ := not_or.mp h
  obtain ⟨i, hi⟩ := Option.ne_none_iff_exists'.mp hv
  exact ⟨i, by rw [← hi, ← Bool.not_eq_true _ |>.mp hp]⟩

theorem lifecycle_sound (h : im.Sound) (ht : im.Taken) (t : LeviMod T) (stage : Stage) :
    (lifecycle t stage im).2.Sound ∧ (lifecycle t stage im).2.Taken := by
  obtain ⟨hr, hl⟩ := h.taken_runtime ht
  by_cases hs : im.slot.Spent
  · rw [lifecycle_spent hs]
    exact ⟨h, ht⟩
  · obtain ⟨i, hi⟩ := ready_of_not_spent hs
    rw [lifecycle_ready hi]
    rw [hi] at hl
    obtain ⟨i', hi'⟩ := ht
    exact ⟨.inr ⟨hr, hl.ran t stage⟩, i', by rwa [List.head?_append_of_ne_nil _ hl.ne_nil]⟩

end Library

end ModSlots
