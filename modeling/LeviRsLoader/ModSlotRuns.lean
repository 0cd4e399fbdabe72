import LeviRsLoader.ModSlots

/-!
# Mod slots over a run

What each control call does to the table and to the libraries, for a mod whose slot can be got at and
for one whose slot is spent, and what follows for every sequence of calls.
-/
namespace ModSlots

open LeviRs (ModId)
open RustModManager (ControlError Mods)
open Runs

variable {T : Type*}

/-! ## The table and the libraries -/

structure World.Sound (w : World T) : Prop where
  crashed : w.crashed = false
  mapped : ∀ n m, w.images n = some m → 1 ≤ m.refs ∧ m.image.Sound
  taken : ∀ n, (w.mods.lookup n).isSome = true → ∃ m, w.images n = some m ∧ m.image.Taken

section Worlds

variable {w : World T} {c : Course T} {name : String} {api : LeviRsApi} {m : Mapped T}

@[simp] theorem images_setImage (w : World T) (name : String) (im : Option (Mapped T)) :
    (w.setImage name im).images name = im := Function.update_self ..

theorem images_setImage_of_ne {n : String} (h : n ≠ name) (w : World T) (im : Option (Mapped T)) :
    (w.setImage name im).images n = w.images n := Function.update_of_ne h ..

@[simp] theorem mods_setImage (w : World T) (name : String) (im : Option (Mapped T)) :
    (w.setImage name im).mods = w.mods := rfl

theorem World.Sound.setMods (h : w.Sound) {mods : Mods}
    (hm : ∀ n, (mods.lookup n).isSome = true → ∃ m, w.images n = some m ∧ m.image.Taken) : { w with mods }.Sound :=
  ⟨h.crashed, h.mapped, hm⟩

theorem World.Sound.setImage (h : w.Sound) (hm : 1 ≤ m.refs) (hs : m.image.Sound)
    (ht : (w.mods.lookup name).isSome = true → m.image.Taken) : (w.setImage name (some m)).Sound where
  crashed := h.crashed
  mapped n m' h' := by
    by_cases hn : n = name
    · subst hn
      rw [images_setImage] at h'
      cases h'
      exact ⟨hm, hs⟩
    · rw [images_setImage_of_ne hn] at h'
      exact h.mapped n m' h'
  taken n h' := by
    by_cases hn : n = name
    · subst hn
      exact ⟨m, images_setImage .., ht h'⟩
    · rw [images_setImage_of_ne hn]
      exact h.taken n h'

/-- Unmapping is safe once the mod is out of the table. -/
theorem World.Sound.unmap (h : w.Sound) (hn : w.mods.lookup name = none) : (w.setImage name none).Sound where
  crashed := h.crashed
  mapped n m' h' := by
    by_cases hne : n = name
    · subst hne
      rw [images_setImage] at h'
      cases h'
    · rw [images_setImage_of_ne hne] at h'
      exact h.mapped n m' h'
  taken n h' := by
    have hne : n ≠ name := by
      rintro rfl
      rw [mods_setImage, hn] at h'
      cases h'
    rw [images_setImage_of_ne hne]
    exact h.taken n h'

theorem setImage_self {im : Option (Mapped T)} (h : w.images name = im) : w.setImage name im = w := by
  rw [World.setImage, ← h, Function.update_eq_self]

/-- Nothing is changed for any other name. -/
def Elsewhere (name : String) (w w' : World T) : Prop :=
  ∀ n ≠ name, w'.mods.lookup n = w.mods.lookup n ∧ w'.images n = w.images n

theorem Elsewhere.refl (name : String) (w : World T) : Elsewhere name w w := fun _ _ => ⟨rfl, rfl⟩

theorem Elsewhere.trans {w' w'' : World T} (h : Elsewhere name w w') (h' : Elsewhere name w' w'') :
    Elsewhere name w w'' :=
  fun n hn => ⟨(h' n hn).1.trans (h n hn).1, (h' n hn).2.trans (h n hn).2⟩

theorem elsewhere_setImage (name : String) (w : World T) (im : Option (Mapped T)) :
    Elsewhere name w (w.setImage name im) :=
  fun _ hn => ⟨rfl, images_setImage_of_ne hn w im⟩

theorem Elsewhere.setMods {w' : World T} (h : Elsewhere name w w') {mods : Mods}
    (hm : ∀ n ≠ name, mods.lookup n = w.mods.lookup n) : Elsewhere name w { w' with mods } :=
  fun n hn => ⟨hm n hn, (h n hn).2⟩

/-- Loading maps a library afresh, or counts one more user of the one there is. -/
theorem libLoad_spec (h : w.Sound) (name : String) :
    (libLoad name w).Sound ∧ (libLoad name w).mods = w.mods ∧ Elsewhere name w (libLoad name w) ∧
      ∃ m₁, (libLoad name w).images name = some m₁ ∧
        (w.images name = none ∧ m₁ = ⟨1, {}⟩ ∨ ∃ m, w.images name = some m ∧ m₁ = { m with refs := m.refs + 1 }) := by
  unfold libLoad
  cases hi : w.images name with
  | none =>
    refine ⟨h.setImage le_rfl (.inl rfl) fun hl => ?_, rfl, elsewhere_setImage _ _ _, _, images_setImage ..,
      .inl ⟨rfl, rfl⟩⟩
    obtain ⟨m, hm, -⟩ := h.taken name hl
    rw [hi] at hm
    cases hm
  | some m =>
    obtain ⟨-, hs⟩ := h.mapped name m hi
    refine ⟨h.setImage (by simp) hs fun hl => ?_, rfl, elsewhere_setImage _ _ _, _, images_setImage ..,
      .inr ⟨m, rfl, rfl⟩⟩
    obtain ⟨m', hm', ht⟩ := h.taken name hl
    rw [hi] at hm'
    cases hm'
    exact ht

theorem mods_libFree (error : Option String) (name : String) (w : World T) : (libFree error name w).mods = w.mods := by
  unfold libFree
  split <;> rfl

theorem elsewhere_libFree (error : Option String) (name : String) (w : World T) :
    Elsewhere name w (libFree error name w) := by
  unfold libFree
  split
  · exact elsewhere_setImage _ _ _
  · exact .refl _ _

/-- A library with another user keeps what it holds. -/
theorem images_libFree (error : Option String) (hi : w.images name = some m) (hm : 2 ≤ m.refs) :
    ∃ refs, (libFree error name w).images name = some ⟨refs, m.image⟩ := by
  unfold libFree
  cases error with
  | some what => exact ⟨m.refs, by simp [hi]⟩
  | none =>
    simp only [hi, images_setImage]
    exact ⟨m.refs - 1, if_neg (by omega)⟩

theorem World.Sound.libFree (h : w.Sound) (error : Option String)
    (hm : (w.mods.lookup name).isSome = true → ∀ m, w.images name = some m → 2 ≤ m.refs) :
    (libFree error name w).Sound := by
  unfold ModSlots.libFree
  split
  · next m hi =>
    obtain ⟨hr, hs⟩ := h.mapped name m hi
    split
    · next hle =>
      refine h.unmap ?_
      cases hl : w.mods.lookup name with
      | none => rfl
      | some r =>
        have := hm (by rw [hl]; rfl) m hi
        omega
    · refine h.setImage (m := { m with refs := m.refs - 1 }) (by simp; omega) hs fun hl => ?_
      obtain ⟨m', hm', ht⟩ := h.taken name hl
      rw [hi] at hm'
      cases hm'
      exact ht
  · exact h

/-- A library that has its runtime refuses to be entered again; what it holds is not touched. -/
theorem callMain_cases (h : w.Sound) (hi : w.images name = some m) (k : Crate) (api : LeviRsApi) (c : Course T) :
    callMain k api c name w = ((false, 0), w) ∨
      m.image.runtime = none ∧ ∃ ok im, callMain k api c name w =
          ((ok, if ok then k.LEVI_RS_ABI_TAGGED_VERSION else 0), w.setImage name (some { m with image := im })) ∧
        im.Sound ∧ (ok = true → im.Taken) := by
  unfold callMain
  simp only [hi]
  rcases levi_rs_main_cases (h.mapped name m hi).2 k api c.handle c.code with hr | ⟨hn, ok, im, hr, hs, ht⟩
  · rw [hr]
    exact .inl (by simp [setImage_self hi])
  · rw [hr]
    exact .inr ⟨hn, ok, im, rfl, hs, ht⟩

/-! ## The calls -/

/-- A load that is given up after the library was loaded: it is freed again, and where something was
in it before, that stays. -/
theorem gaveUp {w₁ : World T} (h : w.Sound) (hs : w₁.Sound) (hmods : w₁.mods = w.mods) (helse : Elsewhere name w w₁)
    (hi : ∃ m₁, w₁.images name = some m₁ ∧
      ∀ m, w.images name = some m → m.image.runtime.isSome = true → m₁ = { m with refs := m.refs + 1 })
    (error : Option String) :
    (libFree error name w₁).Sound ∧ Elsewhere name w (libFree error name w₁) ∧ (libFree error name w₁).mods = w.mods ∧
      ∀ m, w.images name = some m → m.image.runtime.isSome = true →
        ∃ refs, (libFree error name w₁).images name = some ⟨refs, m.image⟩ := by
  obtain ⟨m₁, hi₁, hkeep⟩ := hi
  have htwo : ∀ m, w.images name = some m → m.image.runtime.isSome = true → 2 ≤ m₁.refs := by
    intro m hm hr
    rw [hkeep m hm hr]
    exact Nat.succ_le_succ (h.mapped name m hm).1
  refine ⟨hs.libFree error fun hl m' hm' => ?_, helse.trans (elsewhere_libFree _ _ _), by rw [mods_libFree, hmods],
    fun m hm hr => ?_⟩
  · obtain ⟨m, hm, ht⟩ := h.taken name (by rwa [hmods] at hl)
    obtain rfl : m₁ = m' := Option.some.inj (hi₁.symm.trans hm')
    exact htwo m hm ((h.mapped name m hm).2.taken_runtime ht).1
  · obtain ⟨refs, href⟩ := images_libFree error hi₁ (htwo m hm hr)
    exact ⟨refs, by rw [href, hkeep m hm hr]⟩

theorem setMods_libFree (error : Option String) (name : String) (w : World T) :
    { libFree error name w with mods := w.mods } = libFree error name w := by
  rw [← mods_libFree error name w]

theorem load_fails {error : String} (hlib : c.lib = .fails error) : load api c name w = (.error (.load error), w) := by
  unfold load
  rw [hlib]
  rfl

theorem load_noMain (hlib : c.lib = .noMain) :
    load api c name w =
      ((RustModManager.load (c.results .noMain false) name w.mods).1, libFree c.free name (libLoad name w)) := by
  have hmods : (libLoad name w).mods = w.mods := by
    unfold libLoad
    split <;> rfl
  unfold load
  rw [hlib, ← hmods]
  exact congrArg (Prod.mk _) (setMods_libFree _ _ _)

theorem load_exports {k : Crate} {ok : Bool} {abi_version : UInt32} {w₂ : World T} (hlib : c.lib = .exports k)
    (hc : callMain k api c name (libLoad name w) = ((ok, abi_version), w₂)) :
    load api c name w =
      match RustModManager.loadError name (.exports ⟨[], ok, abi_version⟩) with
      | some what => (.error (.load what), libFree c.free name w₂)
      | none => (.ok (), { w₂ with mods := w₂.mods.insert name {} }) := by
  unfold load
  rw [hlib]
  simp only [hc, RustModManager.load, Course.results]
  cases RustModManager.loadError name (.exports ⟨[], ok, abi_version⟩) with
  | some what => exact congrArg (Prod.mk _) (setMods_libFree _ _ _)
  | none => rfl

theorem ok_of_loadError {ok : Bool} {abi_version : UInt32}
    (h : RustModManager.loadError name (.exports ⟨[], ok, abi_version⟩) = none) : ok = true := by
  cases ok with
  | true => rfl
  | false => simp [RustModManager.loadError, Loader.checkMain] at h

/-- A load fails and leaves the table and every library already entered as they are, or the mod is new. -/
theorem load_cases (h : w.Sound) (api : LeviRsApi) (c : Course T) (name : String) :
    (load api c name w).2.Sound ∧ Elsewhere name w (load api c name w).2 ∧
      ((∃ e, (load api c name w).1 = .error e) ∧ (load api c name w).2.mods = w.mods ∧
          (∀ m, w.images name = some m → m.image.runtime.isSome = true →
            ∃ refs, (load api c name w).2.images name = some ⟨refs, m.image⟩) ∨
        (load api c name w).1 = .ok () ∧ w.mods.lookup name = none ∧
          (load api c name w).2.mods = w.mods.insert name {}) := by
  obtain ⟨hs, hmods, helse, m₁, hi, hm₁⟩ := libLoad_spec h name
  have hkeep : ∀ m, w.images name = some m → m₁ = { m with refs := m.refs + 1 } := by
    intro m hm
    rcases hm₁ with ⟨hn, -⟩ | ⟨m', hm', he⟩
    · rw [hn] at hm
      cases hm
    · rwa [← Option.some.inj (hm'.symm.trans hm)]
  cases hlib : c.lib with
  | fails error =>
    rw [load_fails hlib]
    exact ⟨h, .refl _ _, .inl ⟨⟨_, rfl⟩, rfl, fun m hm _ => ⟨m.refs, hm⟩⟩⟩
  | noMain =>
    obtain ⟨hs', helse', hmods', hk⟩ := gaveUp h hs hmods helse ⟨m₁, hi, fun m hm _ => hkeep m hm⟩ c.free
    rw [load_noMain hlib]
    exact ⟨hs', helse', .inl ⟨⟨_, rfl⟩, hmods', hk⟩⟩
  | exports k =>
    rcases callMain_cases hs hi k api c with hc | ⟨hr, ok, im, hc, him, ht⟩
    · obtain ⟨hs', helse', hmods', hk⟩ := gaveUp h hs hmods helse ⟨m₁, hi, fun m hm _ => hkeep m hm⟩ c.free
      rw [load_exports hlib hc]
      cases hle : RustModManager.loadError name (.exports ⟨[], false, 0⟩) with
      | none => cases ok_of_loadError hle
      | some what => exact ⟨hs', helse', .inl ⟨⟨_, rfl⟩, hmods', hk⟩⟩
    · -- the library was not entered before, so the mod is not in the table
      have hnone : w.mods.lookup name = none := by
        cases hl : w.mods.lookup name with
        | none => rfl
        | some r =>
          obtain ⟨m, hm, htaken⟩ := h.taken name (by rw [hl]; rfl)
          have := ((h.mapped name m hm).2.taken_runtime htaken).1
          rw [hkeep m hm] at hr
          rw [hr] at this
          cases this
      have hkeep' : ∀ m, w.images name = some m → m.image.runtime.isSome = true → False := by
        intro m hm hr'
        rw [hkeep m hm] at hr
        rw [hr] at hr'
        cases hr'
      have hs₂ : ((libLoad name w).setImage name (some { m₁ with image := im })).Sound :=
        hs.setImage (hs.mapped name m₁ hi).1 him (by simp [hmods, hnone])
      have helse₂ := helse.trans (elsewhere_setImage name _ (some { m₁ with image := im }))
      rw [load_exports hlib hc]
      cases hle : RustModManager.loadError name (.exports ⟨[], ok, if ok then k.LEVI_RS_ABI_TAGGED_VERSION else 0⟩) with
      | some what =>
        obtain ⟨hs', helse', hmods', hk⟩ := gaveUp h hs₂ hmods helse₂
          ⟨_, images_setImage .., fun m hm hr' => absurd hr' (hkeep' m hm)⟩ c.free
        exact ⟨hs', helse', .inl ⟨⟨_, rfl⟩, hmods', hk⟩⟩
      | none =>
        refine ⟨hs₂.setMods fun n hn => ?_, helse₂.setMods fun n hn => ?_,
          .inr ⟨rfl, hnone, by rw [mods_setImage, hmods]⟩⟩
        · by_cases hne : n = name
          · subst hne
            exact ⟨_, images_setImage .., ht (ok_of_loadError hle)⟩
          · rw [AList.lookup_insert_ne hne] at hn
            exact hs₂.taken n hn
        · rw [AList.lookup_insert_ne hn, mods_setImage, hmods]

/-- A mod in the table is called in its library; what that leaves is no less sound. -/
theorem callStage_spec (h : w.Sound) (hl : (w.mods.lookup name).isSome = true) (c : Course T) (stage : Stage) :
    ∃ m, w.images name = some m ∧ m.image.Taken ∧
      callStage c stage name w = ((lifecycle c.code stage m.image).1,
        w.setImage name (some { m with image := (lifecycle c.code stage m.image).2 })) ∧
      (w.setImage name (some { m with image := (lifecycle c.code stage m.image).2 })).Sound := by
  obtain ⟨m, hm, ht⟩ := h.taken name hl
  obtain ⟨hr, hs⟩ := h.mapped name m hm
  obtain ⟨hs', ht'⟩ := lifecycle_sound hs ht c.code stage
  exact ⟨m, hm, ht, by simp [callStage, hm], h.setImage hr hs' fun _ => ht'⟩

theorem World.Sound.insert (h : w.Sound) {r : RustModManager.RustMod} (hl : (w.mods.lookup name).isSome = true) :
    { w with mods := w.mods.insert name r }.Sound :=
  h.setMods fun n hn => by
    by_cases hne : n = name
    · exact h.taken n (by rwa [hne])
    · rw [AList.lookup_insert_ne hne] at hn
      exact h.taken n hn

/-- The mod is in the table, and its library holds `im`. -/
def Stuck (name : String) (im : Image T) (w : World T) : Prop :=
  (w.mods.lookup name).isSome = true ∧ ∃ refs, w.images name = some ⟨refs, im⟩

theorem Stuck.of_elsewhere {n : String} {im : Image T} {w' : World T} (h : Stuck n im w) (he : Elsewhere name w w')
    (hn : n ≠ name) : Stuck n im w' := by
  obtain ⟨hl, hi⟩ := h
  obtain ⟨hmods, himg⟩ := he n hn
  exact ⟨by rwa [hmods], by rwa [himg]⟩

/-- A call that goes through the vtable. A spent slot answers false and is left as it is. -/
theorem stage_call (h : w.Sound) (hl : (w.mods.lookup name).isSome = true) (c : Course T) (stage : Stage)
    (r : RustModManager.RustMod) :
    { (callStage c stage name w).2 with mods := (callStage c stage name w).2.mods.insert name r }.Sound ∧
      Elsewhere name w { (callStage c stage name w).2 with mods := (callStage c stage name w).2.mods.insert name r } ∧
      ∀ im, Stuck name im w → im.slot.Spent → callStage c stage name w = (false, w) := by
  obtain ⟨m, hm, ht, he, hs⟩ := callStage_spec h hl c stage
  rw [he]
  refine ⟨hs.insert hl, (elsewhere_setImage _ _ _).setMods fun n hn => AList.lookup_insert_ne hn, ?_⟩
  rintro im ⟨-, refs, hi⟩ hsp
  obtain rfl := Option.some.inj (hm.symm.trans hi)
  rw [lifecycle_spent hsp, setImage_self hi]

theorem mods_callStage (c : Course T) (stage : Stage) (name : String) (w : World T) :
    (callStage c stage name w).2.mods = w.mods := by
  unfold callStage
  split <;> rfl

variable {r : RustModManager.RustMod}

theorem enable_eq (hl : w.mods.lookup name = some r) :
    enable c name w =
      let (ok, w') := callStage c .on_enable name w
      (if ok then .ok () else .error (.enable c.refusal),
        { w' with mods := w'.mods.insert name ⟨ok || r.enabled, false, true⟩ }) := by
  have hl' : (callStage c .on_enable name w).2.mods.lookup name = some r := by rw [mods_callStage, hl]
  unfold enable
  rw [hl]
  dsimp only
  rw [RustModManager.enable_some hl']
  cases (callStage c .on_enable name w).1 <;> rfl

theorem disable_eq (hl : w.mods.lookup name = some r) :
    disable c name w =
      let (ok, w') := callStage c .on_disable name w
      (if ok then .ok () else .error (.disable c.refusal),
        { w' with mods := w'.mods.insert name ⟨!ok && r.enabled, true, true⟩ }) := by
  have hl' : (callStage c .on_disable name w).2.mods.lookup name = some r := by rw [mods_callStage, hl]
  unfold disable
  rw [hl]
  dsimp only
  rw [RustModManager.disable_some hl']
  cases (callStage c .on_disable name w).1 <;> rfl

/-- A call that keeps what the invariant says, touches no other mod, and fails where the slot is spent. -/
structure Behaves (name : String) (w : World T) (p : Except ControlError Unit × World T) : Prop where
  sound : p.2.Sound
  elsewhere : Elsewhere name w p.2
  stuck : ∀ im, Stuck name im w → im.slot.Spent → (∃ e, p.1 = .error e) ∧ Stuck name im p.2

theorem behaves_notFound (h : w.Sound) (hl : w.mods.lookup name = none) (e : ControlError) :
    Behaves name w (.error e, w) :=
  ⟨h, .refl _ _, fun im hst => by simp [Stuck, hl] at hst⟩

theorem behaves_enable (h : w.Sound) (c : Course T) (name : String) : Behaves name w (enable c name w) := by
  cases hl : w.mods.lookup name with
  | none =>
    rw [enable, hl]
    exact behaves_notFound h hl _
  | some r =>
    have hsome : (w.mods.lookup name).isSome = true := by rw [hl]; rfl
    rw [enable_eq hl]
    obtain ⟨hs, he, hsp⟩ := stage_call h hsome c .on_enable
      ⟨(callStage c .on_enable name w).1 || r.enabled, false, true⟩
    refine ⟨hs, he, fun im hst him => ?_⟩
    rw [hsp im hst him]
    exact ⟨⟨_, rfl⟩, by simp, hst.2⟩

theorem behaves_disable (h : w.Sound) (c : Course T) (name : String) : Behaves name w (disable c name w) := by
  cases hl : w.mods.lookup name with
  | none =>
    rw [disable, hl]
    exact behaves_notFound h hl _
  | some r =>
    have hsome : (w.mods.lookup name).isSome = true := by rw [hl]; rfl
    rw [disable_eq hl]
    obtain ⟨hs, he, hsp⟩ := stage_call h hsome c .on_disable
      ⟨!(callStage c .on_disable name w).1 && r.enabled, true, true⟩
    refine ⟨hs, he, fun im hst him => ?_⟩
    rw [hsp im hst him]
    exact ⟨⟨_, rfl⟩, by simp, hst.2⟩

theorem behaves_load (h : w.Sound) (api : LeviRsApi) (c : Course T) (name : String) :
    Behaves name w (load api c name w) := by
  obtain ⟨hs, he, ⟨herr, hmods, hk⟩ | ⟨-, hn, -⟩⟩ := load_cases h api c name
  · refine ⟨hs, he, fun im hst _ => ⟨herr, by rw [hmods]; exact hst.1, ?_⟩⟩
    obtain ⟨hl, refs, hi⟩ := hst
    obtain ⟨m, hm, ht⟩ := h.taken name hl
    obtain rfl := Option.some.inj (hm.symm.trans hi)
    exact hk _ hi ((h.mapped name _ hi).2.taken_runtime ht).1
  · exact ⟨hs, he, fun im hst => by simp [Stuck, hn] at hst⟩

theorem libFree_setMods (error : Option String) (name : String) (w : World T) (mods : Mods) :
    { libFree error name w with mods } = libFree error name { w with mods } := by
  unfold libFree
  cases error with
  | some what => rfl
  | none => cases w.images name <;> simp [World.setImage]

theorem unload_eq (hl : w.mods.lookup name = some r) :
    unload c name w =
      match c.laneBusyName with
      | some lane => (.error (.laneBusy lane), w)
      | none =>
        let (ok, w') := callStage c .on_unload name w
        if ok then
          match c.free with
          | some what => (.error (.free what), { w' with mods := w'.mods.insert name { r with commandsMuted := true } })
          | none => (.ok (), libFree none name { w' with mods := w'.mods.erase name })
        else (.error .unload, w') := by
  unfold unload
  rw [hl]
  dsimp only
  cases hb : c.laneBusyName with
  | some lane => simp [RustModManager.unload, Course.results, hl, hb, Except.isOk, Except.toBool]
  | none =>
    have hl' : (callStage c .on_unload name w).2.mods.lookup name = some r := by rw [mods_callStage, hl]
    cases hok : (callStage c .on_unload name w).1 with
    | false => simp [RustModManager.unload, Course.results, hl', hb, hok, Except.isOk, Except.toBool]
    | true =>
      cases hf : c.free with
      | some what => simp [RustModManager.unload, Course.results, hl', hb, hok, hf, Except.isOk, Except.toBool]
      | none =>
        simp [RustModManager.unload, Course.results, hl', hb, hok, hf, Except.isOk, Except.toBool, libFree_setMods]

theorem behaves_unload (h : w.Sound) (c : Course T) (name : String) : Behaves name w (unload c name w) := by
  cases hl : w.mods.lookup name with
  | none =>
    rw [unload, hl]
    exact behaves_notFound h hl _
  | some r =>
    have hsome : (w.mods.lookup name).isSome = true := by rw [hl]; rfl
    rw [unload_eq hl]
    cases c.laneBusyName with
    | some lane => exact ⟨h, .refl _ _, fun im hst _ => ⟨⟨_, rfl⟩, hst⟩⟩
    | none =>
      obtain ⟨m, hm, ht, he, hs⟩ := callStage_spec h hsome c .on_unload
      obtain ⟨hs', he', hsp⟩ := stage_call h hsome c .on_unload { r with commandsMuted := true }
      have hstuck : ∀ im, Stuck name im w → im.slot.Spent → (callStage c .on_unload name w).1 = false :=
        fun im hst him => by rw [hsp im hst him]
      dsimp only
      split
      · next hok =>
        have hno : ∀ im, Stuck name im w → im.slot.Spent → False := fun im hst him => by
          rw [hstuck im hst him] at hok
          cases hok
        cases c.free with
        | some what => exact ⟨hs', he', fun im hst him => (hno im hst him).elim⟩
        | none =>
          have hnone : ((callStage c .on_unload name w).2.mods.erase name).lookup name = none :=
            AList.lookup_erase _ _
          refine ⟨World.Sound.libFree (World.Sound.setMods (by rw [he]; exact hs) fun n hn => ?_) none fun hl' => ?_,
            Elsewhere.trans (Elsewhere.setMods (by rw [he]; exact elsewhere_setImage _ _ _) fun n hn => ?_)
              (elsewhere_libFree _ _ _), fun im hst him => (hno im hst him).elim⟩
          · by_cases hne : n = name
            · rw [hne, hnone] at hn
              cases hn
            · rw [AList.lookup_erase_ne hne, mods_callStage] at hn
              rw [he]
              exact hs.taken n hn
          · rw [hnone] at hl'
            cases hl'
          · rw [AList.lookup_erase_ne hn, mods_callStage]
      · refine ⟨by rw [he]; exact hs, by rw [he]; exact elsewhere_setImage _ _ _, fun im hst him => ⟨⟨_, rfl⟩, ?_⟩⟩
        rw [hsp im hst him]
        exact hst

/-- After a call that went well the slot was not spent, whatever is done next. -/
theorem Behaves.andThen {p p' : Except ControlError Unit × World T} (h : Behaves name w p) (hok : p.1 = .ok ())
    (h' : Behaves name p.2 p') : Behaves name w p' :=
  ⟨h'.sound, h.elsewhere.trans h'.elsewhere, fun im hst him => by
    obtain ⟨e, he⟩ := (h.stuck im hst him).1
    rw [hok] at he
    cases he⟩

theorem behaves_controlLoad (h : w.Sound) (api : LeviRsApi) (c : Course T) (name : String) :
    Behaves name w (controlLoad api c name w) := by
  have hload := behaves_load h api c name
  unfold controlLoad
  cases hp : load api c name w with
  | mk r₁ w₁ =>
    rw [hp] at hload
    cases r₁ with
    | error e => exact hload
    | ok u =>
      have henable := behaves_enable hload.sound c name
      cases hp' : enable c name w₁ with
      | mk r₂ w₂ =>
        rw [hp'] at henable
        cases r₂ with
        | ok u' => simpa [hp'] using hload.andThen rfl henable
        | error e =>
          have hunload := behaves_unload henable.sound c name
          have : Behaves name w (Except.error e, (unload c name w₂).2) :=
            ⟨hunload.sound, (hload.elsewhere.trans henable.elsewhere).trans hunload.elsewhere, fun im hst him => by
              obtain ⟨e', he'⟩ := (hload.stuck im hst him).1
              cases he'⟩
          simpa [hp'] using this

theorem behaves_controlUnload (h : w.Sound) (c : Course T) (name : String) :
    Behaves name w (controlUnload c name w) := by
  unfold controlUnload
  cases hl : w.mods.lookup name with
  | none => exact behaves_notFound h hl _
  | some r =>
    dsimp only
    split
    · have hdisable := behaves_disable h c name
      cases hp : disable c name w with
      | mk r₁ w₁ =>
        rw [hp] at hdisable
        cases r₁ with
        | error e => exact hdisable
        | ok u => exact hdisable.andThen rfl (behaves_unload hdisable.sound c name)
    · exact behaves_unload h c name

theorem behaves_apply (h : w.Sound) (api : LeviRsApi) (c : Call T) : Behaves c.name w (c.apply api w) := by
  unfold Call.apply
  cases c.operation with
  | controlLoad => exact behaves_controlLoad h api c.course c.name
  | controlUnload => exact behaves_controlUnload h c.course c.name
  | enable => exact behaves_enable h c.course c.name
  | disable => exact behaves_disable h c.course c.name

end Worlds

/-! ## Over a run -/

section Runs

variable {w : World T} {tr : List (World T × Call T)} {c : Course T} {name : String} {api : LeviRsApi} {m : Mapped T}

theorem sound_initial : (World.initial : World T).Sound where
  crashed := rfl
  mapped n m h := by cases h
  taken n h := by cases h

theorem sound_of_run (h : Run (Step api) .initial tr w) : w.Sound :=
  h.invariant' World.Sound sound_initial fun w c _ hs hstep => by
    rw [hstep]
    exact (behaves_apply hs api c).sound

def exampleApi : LeviRsApi := ⟨5, 1024⟩

/-- A mod whose `on_enable` ends as given and whose other callbacks agree. -/
def exampleCourse (on_enable : Ending) : Course Unit where
  lib := .exports ⟨5, 0, 64⟩
  code := ⟨.ok (), fun u => (u, on_enable), fun u => (u, .ok), fun u => (u, .ok), false⟩
  handle := 1
  laneBusyName := none
  free := none
  refusal := "refused"

def exampleLoad (on_enable : Ending) : Call Unit := ⟨.controlLoad, "a", exampleCourse on_enable⟩

def exampleLoaded (on_enable : Ending) : World Unit := ((exampleLoad on_enable).apply exampleApi .initial).2

theorem exampleLoaded_run (on_enable : Ending) :
    Run (Step exampleApi) .initial [(.initial, exampleLoad on_enable)] (exampleLoaded on_enable) :=
  .single rfl

/-- However the calls go, the loader never enters a library that is not there, `on_load` runs once in a
library at most and before anything else, and each callback gets the instance the one before it left,
none after a panic. -/
theorem hooks_in_order (h : Run (Step api) .initial tr w) :
    w.crashed = false ∧
      (∀ n, (w.mods.lookup n).isSome = true → ∃ m, w.images n = some m ∧ m.image.Taken) ∧
      ∀ n m, w.images n = some m → m.image.log.IsChain Follows ∧
        ∀ e, m.image.log.head? = some e → ∃ left ending, e = .on_load left ending := by
  have hs := sound_of_run h
  refine ⟨hs.crashed, hs.taken, fun n m hm => ?_⟩
  rcases (hs.mapped n m hm).2 with he | ⟨-, hl⟩
  · rw [he]
    exact ⟨.nil, fun e he' => by cases he'⟩
  · refine ⟨hl.chain, fun e he => ?_⟩
    obtain ⟨left, ending, hhead⟩ := hl.head
    exact ⟨left, ending, Option.some.inj (he.symm.trans hhead)⟩

theorem hooks_in_order_panicked :
    (exampleLoaded .panic).crashed = false ∧
      (∀ n, ((exampleLoaded .panic).mods.lookup n).isSome = true →
        ∃ m, (exampleLoaded .panic).images n = some m ∧ m.image.Taken) ∧
      ∀ n m, (exampleLoaded .panic).images n = some m → m.image.log.IsChain Follows ∧
        ∀ e, m.image.log.head? = some e → ∃ left ending, e = .on_load left ending :=
  hooks_in_order (exampleLoaded_run .panic)

/-- Everything that is asked in an unload agrees. -/
structure Course.Willing (c : Course T) : Prop where
  laneBusyName : c.laneBusyName = none
  free : c.free = none
  on_disable : ∀ i, (c.code.on_disable i).2 = .ok
  on_unload : ∀ i, (c.code.on_unload i).2 = .ok
  dropPanics : c.code.dropPanics = false

theorem callStage_ready (stage : Stage) {instance_ : T} (hm : w.images name = some m)
    (hi : m.image.slot = ⟨some instance_, false⟩) (hok : (c.code.run stage instance_).2 = .ok) :
    (callStage c stage name w).1 = true ∧ ∃ m', (callStage c stage name w).2.images name = some m' ∧
      m'.image.slot = ⟨(c.code.run stage instance_).1, false⟩ := by
  simp [callStage, hm, lifecycle_ready hi, hok]

theorem unload_willing (hc : c.Willing) {instance_ : T} {r : RustModManager.RustMod} (hl : w.mods.lookup name = some r)
    (hm : w.images name = some m) (hi : m.image.slot = ⟨some instance_, false⟩) :
    (unload c name w).1 = .ok () ∧ (unload c name w).2.mods.lookup name = none := by
  have hrun : (c.code.run .on_unload instance_).2 = .ok := by
    rw [run_unload (hc.on_unload instance_), hc.dropPanics]
    rfl
  obtain ⟨hok, -⟩ := callStage_ready .on_unload hm hi hrun
  rw [unload_eq hl, hc.laneBusyName]
  dsimp only
  rw [if_pos hok, hc.free]
  refine ⟨rfl, ?_⟩
  dsimp only
  rw [mods_libFree]
  exact AList.lookup_erase _ _

/-- A mod that is asked to go, and agrees, goes exactly if none of its callbacks has panicked and its
`on_unload` has not been through before, since its library was mapped. -/
theorem unloads_iff (h : Run (Step api) .initial tr w) (hl : (w.mods.lookup name).isSome = true) (hc : c.Willing) :
    ((controlUnload c name w).1 = .ok () ∧ (controlUnload c name w).2.mods.lookup name = none) ↔
      ∀ m, w.images name = some m → ∀ e ∈ m.image.log, ¬e.Final := by
  have hs := sound_of_run h
  obtain ⟨m, hm, ht⟩ := hs.taken name hl
  obtain ⟨-, hlog⟩ := (hs.mapped name m hm).2.taken_runtime ht
  have hspent := hlog.spent_iff ht
  constructor
  · rintro ⟨hok, -⟩ m' hm' e he hf
    obtain rfl := Option.some.inj (hm.symm.trans hm')
    obtain ⟨⟨e', he'⟩, -⟩ := (behaves_controlUnload hs c name).stuck m.image ⟨hl, m.refs, hm⟩ (hspent.mpr ⟨e, he, hf⟩)
    rw [hok] at he'
    cases he'
  · intro hno
    obtain ⟨i, hi⟩ := ready_of_not_spent fun hsp => by
      obtain ⟨e, he, hf⟩ := hspent.mp hsp
      exact hno m hm e he hf
    obtain ⟨r, hr⟩ := Option.isSome_iff_exists.mp hl
    unfold controlUnload
    rw [hr]
    dsimp only
    split
    · obtain ⟨hok, m', hm', hi'⟩ := callStage_ready .on_disable hm hi (hc.on_disable i)
      rw [disable_eq hr]
      simp only [hok]
      exact unload_willing hc (AList.lookup_insert _) hm' hi'
    · exact unload_willing hc hr hm hi

theorem unloads_iff_loaded :
    ((controlUnload (exampleCourse .ok) "a" (exampleLoaded .ok)).1 = .ok () ∧
        (controlUnload (exampleCourse .ok) "a" (exampleLoaded .ok)).2.mods.lookup "a" = none) ↔
      ∀ m, (exampleLoaded .ok).images "a" = some m → ∀ e ∈ m.image.log, ¬e.Final :=
  unloads_iff (exampleLoaded_run .ok) (by decide) ⟨rfl, rfl, fun _ => rfl, fun _ => rfl, rfl⟩

/-- Once a callback has panicked, or `on_unload` has gone through and the mod is still there, it is there
for good: no code of it runs again, and every call on it fails. -/
theorem stuck_forever (h : Run (Step api) .initial tr w) (hl : (w.mods.lookup name).isSome = true)
    (hm : w.images name = some m) {e : Entry T} (he : e ∈ m.image.log) (hf : e.Final) {tr' : List (World T × Call T)}
    {w' : World T} (h' : Run (Step api) w tr' w') :
    (w'.mods.lookup name).isSome = true ∧ (∃ refs, w'.images name = some ⟨refs, m.image⟩) ∧
      ∀ entry ∈ tr', entry.2.name = name → ∃ e, (entry.2.apply api entry.1).1 = .error e := by
  have hs := sound_of_run h
  obtain ⟨m', hm', ht⟩ := hs.taken name hl
  obtain rfl := Option.some.inj (hm.symm.trans hm')
  have hsp := (((hs.mapped name m hm).2.taken_runtime ht).2.spent_iff ht).mpr ⟨e, he, hf⟩
  have hstep : ∀ s c t, s.Sound ∧ Stuck name m.image s → Step api s c t → t.Sound ∧ Stuck name m.image t := by
    rintro s c t ⟨hs, hst⟩ rfl
    have hb := behaves_apply hs api c
    refine ⟨hb.sound, ?_⟩
    by_cases hn : name = c.name
    · rw [hn] at hst ⊢
      exact (hb.stuck m.image hst hsp).2
    · exact hst.of_elsewhere hb.elsewhere hn
  have h₀ : w.Sound ∧ Stuck name m.image w := ⟨hs, hl, m.refs, hm⟩
  obtain ⟨-, hl', hi'⟩ := h'.invariant' _ h₀ hstep
  refine ⟨hl', hi', fun entry hentry hn => ?_⟩
  refine h'.forall_entries (G := fun _ _ => True) (fun w => w.Sound ∧ Stuck name m.image w)
    (fun w c => c.name = name → ∃ e, (c.apply api w).1 = .error e) (fun _ _ => trivial) h₀
    (fun s c t hs _ => hstep s c t hs) (fun s c t hs _ _ hn => ?_) entry hentry hn
  subst hn
  exact ((behaves_apply hs.1 api c).stuck m.image hs.2 hsp).1

def examplePanicked : Image Unit where
  runtime := some 1
  slot := ⟨some (), true⟩
  log := [.on_load (some ()) .ok, .ran .on_enable () (some ()) .panic]

/-- A load that fails in `on_enable` with a panic rolls nothing back, and nothing takes the mod out again. -/
theorem stuck_forever_panicked :
    ((((exampleLoad .ok).apply exampleApi (exampleLoaded .panic)).2.mods.lookup "a").isSome = true ∧
      (∃ refs, ((exampleLoad .ok).apply exampleApi (exampleLoaded .panic)).2.images "a" =
        some ⟨refs, examplePanicked⟩) ∧
      ∀ entry ∈ [(exampleLoaded .panic, exampleLoad .ok)], entry.2.name = "a" →
        ∃ e, (entry.2.apply exampleApi entry.1).1 = .error e) :=
  stuck_forever (m := ⟨1, examplePanicked⟩) (e := .ran .on_enable () (some ()) .panic) (exampleLoaded_run .panic)
    (by decide) rfl (by simp [examplePanicked]) (.inl rfl) (.single rfl)

end Runs

end ModSlots
