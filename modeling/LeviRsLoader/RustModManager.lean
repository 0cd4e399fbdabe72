import LeviRsLoader.Lib.Runs
import LeviRsLoader.Load

/-!
# Mod control, one mod at a time

`controlLoad` and `controlUnload` of `RustModManager`, with the `enable` and
`disable` they go through: LeviLamina's run the mod's callback and flip its
state when that returns true.
-/
namespace RustModManager

structure RustMod where
  enabled : Bool := false
  commandsMuted : Bool := false
  /-- Whether `enable` or `disable` has ever been run on it. No code reads this. -/
  toggled : Bool := false

abbrev Mods := Table String RustMod

/-- How a call goes wherever that is not up to this code. A callback the mod
does not provide is `none`. -/
structure Results where
  lib : Loader.Dylib
  on_enable : Option Bool
  on_disable : Option Bool
  on_unload : Option Bool
  laneBusyName : Option String
  /-- The error of `lib.free()`. -/
  free : Option String
  /-- What LeviLamina says when a callback returns false. -/
  refusal : String

inductive ControlError where
  | load (what : String)
  | enable (what : String)
  | notFound
  | notLoaded
  | disable (what : String)
  | laneBusy (lane : String)
  | unload
  | free (what : String)

def ControlError.message (name : String) : ControlError → String
  | .load what | .enable what | .disable what | .free what => what
  | .notFound => "mod not found"
  | .notLoaded => "'" ++ name ++ "' is not loaded"
  | .laneBusy lane => "'" ++ name ++ "' 现在不能卸载：车道 '" ++ lane ++
      "' 正停在调用中（多半是从这条车道自己的表项里触发了卸载）。等这次调用返回之后再试。"
  | .unload => "'" ++ name ++ "' refused to unload"

/-- The errors by which a mod, or a lane it provides, keeps itself loaded. -/
def ControlError.isRefusal : ControlError → Bool
  | .disable _ | .laneBusy _ | .unload => true
  | _ => false

/-! ## The calls -/

/-- The first error `load` meets before the mod is added. -/
def loadError (name : String) : Loader.Dylib → Option String
  | .fails error => some error
  | .noMain => some ("'" ++ name ++ "' does not export levi_rs_main (is it a levilamina-rs cdylib?)")
  | .exports main =>
    match Loader.checkMain name main.ok main.abi_version with
    | .error what => some what
    | .ok () => none

def load (r : Results) (name : String) (mods : Mods) : Except ControlError Unit × Mods :=
  match loadError name r.lib with
  | some what => (.error (.load what), mods)
  | none => (.ok (), mods.insert name {})

def onEnable (r : Results) (m : RustMod) : Bool × RustMod := (r.on_enable.getD true, { m with commandsMuted := false })

def onDisable (r : Results) (m : RustMod) : Bool × RustMod := (r.on_disable.getD true, { m with commandsMuted := true })

/-- `ModManager::enable` -/
def enable (r : Results) (name : String) (mods : Mods) : Except ControlError Unit × Mods :=
  match mods.lookup name with
  | none => (.error .notFound, mods)
  | some m =>
    let (ok, m) := onEnable r m
    if ok then (.ok (), mods.insert name { m with enabled := true, toggled := true })
    else (.error (.enable r.refusal), mods.insert name { m with toggled := true })

/-- `ModManager::disable` -/
def disable (r : Results) (name : String) (mods : Mods) : Except ControlError Unit × Mods :=
  match mods.lookup name with
  | none => (.error .notFound, mods)
  | some m =>
    let (ok, m) := onDisable r m
    if ok then (.ok (), mods.insert name { m with enabled := false, toggled := true })
    else (.error (.disable r.refusal), mods.insert name { m with toggled := true })

def unload (r : Results) (name : String) (mods : Mods) : Except ControlError Unit × Mods :=
  match mods.lookup name with
  | none => (.error .notFound, mods)
  | some m =>
    match r.laneBusyName with
    | some lane => (.error (.laneBusy lane), mods)
    | none =>
      if !r.on_unload.getD true then (.error .unload, mods)
      else
        match r.free with
        | some what => (.error (.free what), mods.insert name { m with commandsMuted := true })
        | none => (.ok (), mods.erase name)

def controlLoad (r : Results) (name : String) (mods : Mods) : Except ControlError Unit × Mods :=
  match load r name mods with
  | (.error e, mods) => (.error e, mods)
  | (.ok (), mods) =>
    match enable r name mods with
    | (.error e, mods) => (.error e, (unload r name mods).2)
    | (.ok (), mods) => (.ok (), mods)

def controlUnload (r : Results) (name : String) (mods : Mods) : Except ControlError Unit × Mods :=
  match mods.lookup name with
  | none => (.error .notLoaded, mods)
  | some m =>
    if m.enabled then
      match disable r name mods with
      | (.error e, mods) => (.error e, mods)
      | (.ok (), mods) => unload r name mods
    else unload r name mods

inductive Operation where
  | controlLoad
  | controlUnload
  | enable
  | disable

structure Call where
  operation : Operation
  name : String
  results : Results

def Call.apply (c : Call) (mods : Mods) : Except ControlError Unit × Mods :=
  match c.operation with
  | .controlLoad => controlLoad c.results c.name mods
  | .controlUnload => controlUnload c.results c.name mods
  | .enable => enable c.results c.name mods
  | .disable => disable c.results c.name mods

def run (mods : Mods) (calls : List Call) : Mods := calls.foldl (fun mods c => (c.apply mods).2) mods

/-! ## All or nothing -/

/-- A mod that has been through `enable` or `disable` is muted exactly when it is not enabled. -/
def RustMod.Consistent (m : RustMod) : Prop := m.toggled = true → (m.commandsMuted = true ↔ m.enabled = false)

def Consistent (mods : Mods) : Prop := ∀ name m, mods.lookup name = some m → m.Consistent

/-- A refused `controlUnload` leaves the mod as enabled as it was, and a failed
`controlLoad` leaves no mod. -/
def AllOrNothing (mods : Mods) (c : Call) : Prop :=
  match c.operation with
  | .controlLoad => ∀ e, (c.apply mods).1 = .error e → (c.apply mods).2.lookup c.name = none
  | .controlUnload => ∀ e m, (c.apply mods).1 = .error e → e.isRefusal = true → mods.lookup c.name = some m →
      ∃ m', (c.apply mods).2.lookup c.name = some m' ∧ m'.enabled = m.enabled
  | .enable | .disable => True

/-- A call goes well if a mod that has to change its state agrees to, and what
is to follow or to be undone then goes through. -/
def Meets (mods : Mods) (c : Call) : Prop :=
  let r := c.results
  match c.operation with
  | .controlLoad =>
    (loadError c.name r.lib ≠ none → mods.lookup c.name = none) ∧
      (loadError c.name r.lib = none → r.on_enable.getD true = true ∨
        r.laneBusyName = none ∧ r.on_unload.getD true = true ∧ r.free = none)
  | .controlUnload =>
    ∀ m, mods.lookup c.name = some m → m.enabled = true →
      r.on_disable.getD true = true ∧ r.laneBusyName = none ∧ r.on_unload.getD true = true
  | .enable => ∀ m, mods.lookup c.name = some m → m.enabled = false → r.on_enable.getD true = true
  | .disable => ∀ m, mods.lookup c.name = some m → m.enabled = true → r.on_disable.getD true = true

section Steps

variable {mods : Mods} {name : String} {m : RustMod} {r : Results}

theorem consistent_insert (h : Consistent mods) : Consistent (mods.insert name m) ↔ m.Consistent := by
  constructor
  · exact fun h' => h' name m (AList.lookup_insert mods)
  · intro hm n m' hl
    by_cases hn : n = name
    · subst hn
      rw [AList.lookup_insert] at hl
      cases hl
      exact hm
    · rw [AList.lookup_insert_ne hn] at hl
      exact h n m' hl

theorem consistent_erase (h : ∀ n ≠ name, ∀ m, mods.lookup n = some m → m.Consistent) :
    Consistent (mods.erase name) := by
  intro n m hl
  by_cases hn : n = name
  · subst hn
    simp at hl
  · rw [AList.lookup_erase_ne hn] at hl
    exact h n hn m hl

theorem consistent_erase_insert (h : Consistent mods) : Consistent ((mods.insert name m).erase name) :=
  consistent_erase fun n hn m hl => h n m (by rwa [AList.lookup_insert_ne hn] at hl)

theorem enable_some (h : mods.lookup name = some m) :
    enable r name mods =
      if r.on_enable.getD true = true then
        (.ok (), mods.insert name ⟨true, false, true⟩)
      else (.error (.enable r.refusal), mods.insert name ⟨m.enabled, false, true⟩) := by
  rw [enable, h]
  rfl

theorem disable_some (h : mods.lookup name = some m) :
    disable r name mods =
      if r.on_disable.getD true = true then
        (.ok (), mods.insert name ⟨false, true, true⟩)
      else (.error (.disable r.refusal), mods.insert name ⟨m.enabled, true, true⟩) := by
  rw [disable, h]
  rfl

theorem unload_some (h : mods.lookup name = some m) :
    (r.laneBusyName = none ∧ r.on_unload.getD true = true ∧ r.free = none ∧
      unload r name mods = (.ok (), mods.erase name)) ∨
    (r.laneBusyName = none ∧ r.on_unload.getD true = true ∧ ∃ what, r.free = some what ∧
      unload r name mods = (.error (.free what), mods.insert name { m with commandsMuted := true })) ∨
    (¬(r.laneBusyName = none ∧ r.on_unload.getD true = true) ∧
      ∃ e, e.isRefusal = true ∧ unload r name mods = (.error e, mods)) := by
  simp only [unload, h]
  cases hb : r.laneBusyName with
  | some lane => exact .inr (.inr ⟨by simp, .laneBusy lane, rfl, rfl⟩)
  | none =>
    cases hu : r.on_unload.getD true with
    | false => exact .inr (.inr ⟨by simp, .unload, rfl, rfl⟩)
    | true =>
      cases hf : r.free with
      | some what => exact .inr (.inl ⟨rfl, rfl, what, rfl, rfl⟩)
      | none => exact .inl ⟨rfl, rfl, rfl, rfl⟩

theorem consistent_enable_iff (h : Consistent mods) :
    Consistent (enable r name mods).2 ↔
      ∀ m, mods.lookup name = some m → m.enabled = false → r.on_enable.getD true = true := by
  cases hl : mods.lookup name with
  | none => simpa [enable, hl] using h
  | some m =>
    rw [enable_some hl]
    cases hr : r.on_enable.getD true <;> simp [consistent_insert h, RustMod.Consistent]

theorem consistent_disable_iff (h : Consistent mods) :
    Consistent (disable r name mods).2 ↔
      ∀ m, mods.lookup name = some m → m.enabled = true → r.on_disable.getD true = true := by
  cases hl : mods.lookup name with
  | none => simpa [disable, hl] using h
  | some m =>
    rw [disable_some hl]
    cases hr : r.on_disable.getD true <;> simp [consistent_insert h, RustMod.Consistent]

/-- Unloading a mod that is not enabled leaves it muted, or gone. -/
theorem consistent_unload (h : Consistent mods) (hm : ∀ m, mods.lookup name = some m → m.enabled = false) :
    Consistent (unload r name mods).2 := by
  cases hl : mods.lookup name with
  | none => simpa [unload, hl] using h
  | some m =>
    rcases unload_some (r := r) hl with ⟨-, -, -, he⟩ | ⟨-, -, what, -, he⟩ | ⟨-, e, -, he⟩
    · rw [he]
      exact consistent_erase fun n _ => h n
    · rw [he, consistent_insert h]
      simp [RustMod.Consistent, hm m hl]
    · rw [he]
      exact h

theorem controlLoad_iff (h : Consistent mods) :
    ((∀ e, (controlLoad r name mods).1 = .error e → (controlLoad r name mods).2.lookup name = none) ∧
        Consistent (controlLoad r name mods).2) ↔ Meets mods ⟨.controlLoad, name, r⟩ := by
  unfold Meets controlLoad load
  cases hlib : loadError name r.lib with
  | some what => simp [hlib, h]
  | none =>
    have hl : (mods.insert name ({} : RustMod)).lookup name = some {} := AList.lookup_insert mods
    dsimp only
    rw [enable_some hl, AList.insert_insert, AList.insert_insert]
    cases hon : r.on_enable.getD true with
    | true => simp [hlib, consistent_insert h, RustMod.Consistent]
    | false =>
      have hl' : (mods.insert name (⟨false, false, true⟩ : RustMod)).lookup name = some ⟨false, false, true⟩ :=
        AList.lookup_insert mods
      rw [if_neg Bool.false_ne_true]
      rcases unload_some (r := r) hl' with ⟨hb, hu, hf, he⟩ | ⟨hb, hu, what, hf, he⟩ | ⟨hn, e, -, he⟩
      · simp [he, hlib, hb, hu, hf, consistent_erase_insert h]
      · simp [he, hlib, hb, hu, hf]
      · simp only [he, hlib]
        simpa using fun hb hu => absurd ⟨hb, hu⟩ hn

variable (name r) in
theorem controlUnload_iff (h : Consistent mods) :
    ((∀ e m, (controlUnload r name mods).1 = .error e → e.isRefusal = true → mods.lookup name = some m →
          ∃ m', (controlUnload r name mods).2.lookup name = some m' ∧ m'.enabled = m.enabled) ∧
        Consistent (controlUnload r name mods).2) ↔ Meets mods ⟨.controlUnload, name, r⟩ := by
  unfold Meets controlUnload
  cases hl : mods.lookup name with
  | none => simp [h]
  | some m =>
    dsimp only
    cases hen : m.enabled with
    | false =>
      -- nothing is disabled, so a refusal changes nothing
      refine iff_of_true ⟨fun e m' herr href hm => ?_, ?_⟩ ?_
      · rw [if_neg Bool.false_ne_true] at herr ⊢
        rcases unload_some (r := r) hl with ⟨-, -, -, he⟩ | ⟨-, -, what, -, he⟩ | ⟨-, e', -, he⟩
        · rw [he] at herr
          cases herr
        · rw [he] at herr
          cases herr
          cases href
        · exact ⟨m', by rw [he, hl, hm], rfl⟩
      · rw [if_neg Bool.false_ne_true]
        exact consistent_unload h (by simp [hl, hen])
      · simp [hen]
    | true =>
      rw [if_pos rfl, disable_some hl]
      cases hoff : r.on_disable.getD true with
      | false =>
        -- the refused callback has muted the commands of a mod that is still enabled
        refine iff_of_false (fun hx => ?_) (fun hx => ?_)
        · have := hx.2 name _ (AList.lookup_insert mods) rfl
          simp [hen] at this
        · have := (hx m rfl hen).1
          simp at this
      | true =>
        rw [if_pos rfl]
        dsimp only
        have hl' : (mods.insert name (⟨false, true, true⟩ : RustMod)).lookup name = some ⟨false, true, true⟩ :=
          AList.lookup_insert mods
        rcases unload_some (r := r) hl' with ⟨hb, hu, -, he⟩ | ⟨hb, hu, what, -, he⟩ | ⟨hn, e, href, he⟩
        · simp [he, hb, hu, consistent_erase_insert h]
        · simp [he, hb, hu, ControlError.isRefusal, AList.insert_insert, consistent_insert h, RustMod.Consistent]
        · refine iff_of_false (fun hx => ?_) (fun hx => hn (hx m rfl hen).2)
          obtain ⟨m', hm', hen'⟩ := hx.1 e m (by rw [he]) href rfl
          rw [he, hl'] at hm'
          cases hm'
          simp [hen] at hen'

end Steps

/-! ## Sequences of calls -/

theorem step_iff {mods : Mods} (h : Consistent mods) (c : Call) :
    AllOrNothing mods c ∧ Consistent (c.apply mods).2 ↔ Meets mods c := by
  obtain ⟨operation, name, r⟩ := c
  cases operation with
  | controlLoad => exact controlLoad_iff h
  | controlUnload =>
    refine Iff.trans (and_congr_left fun _ => ?_) (controlUnload_iff name r h)
    rfl
  | enable => exact (and_iff_right trivial).trans (consistent_enable_iff h)
  | disable => exact (and_iff_right trivial).trans (consistent_disable_iff h)

/-- Every call of a sequence is all or nothing, and leaves the muting in step,
exactly if all of them go well. -/
theorem run_allOrNothing_iff {mods : Mods} (h : Consistent mods) (calls : List Call) :
    (∀ pre c suf, calls = pre ++ c :: suf → AllOrNothing (run mods pre) c ∧ Consistent (run mods (pre ++ [c]))) ↔
      ∀ pre c suf, calls = pre ++ c :: suf → Meets (run mods pre) c :=
  Runs.foldl_forall_and_iff Consistent AllOrNothing Meets h fun _ c hs => step_iff hs c

theorem consistent_empty : Consistent ∅ := by
  intro name m hl
  cases hl

def goodLib : Loader.Dylib := .exports ⟨[], true, 5⟩

/-- A mod with an `on_unload` that answers as given. -/
def results (on_unload : Bool) : Results := ⟨goodLib, none, none, some on_unload, none, none, "refused"⟩

def loadAndUnload (on_unload : Bool) : List Call :=
  [⟨.controlLoad, "a", results true⟩, ⟨.controlUnload, "a", results on_unload⟩]

theorem agreed_unload :
    (∀ pre c suf, loadAndUnload true = pre ++ c :: suf →
      AllOrNothing (run ∅ pre) c ∧ Consistent (run ∅ (pre ++ [c]))) ↔
    ∀ pre c suf, loadAndUnload true = pre ++ c :: suf → Meets (run ∅ pre) c :=
  run_allOrNothing_iff consistent_empty (loadAndUnload true)

/-- A mod that refuses to unload has been disabled by then, and stays so. -/
theorem refused_unload :
    ¬∀ pre c suf, loadAndUnload false = pre ++ c :: suf →
      AllOrNothing (run ∅ pre) c ∧ Consistent (run ∅ (pre ++ [c])) := by
  intro h
  obtain ⟨hall, -⟩ := h [⟨.controlLoad, "a", results true⟩] _ [] rfl
  obtain ⟨m', hm', hen⟩ := hall .unload ⟨true, false, true⟩ rfl rfl rfl
  cases hm'
  cases hen

end RustModManager
