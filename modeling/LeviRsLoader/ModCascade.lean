import LeviRsLoader.ModControl

/-!
# Cascades

What the loops of `doUnload` and `cmdReload` have attempted at every moment,
and that going down dependents first and coming up in reverse leaves no mod
without what it depends on.
-/
namespace ModControl

open Dependents

/-! ## Down -/

/-- The attempts of an unload that goes through. -/
def down (names : List String) : List Event := names.map fun m => .unload m none

@[simp] theorem unloaded_down (names : List String) : unloaded (down names) = names := by
  induction names with
  | nil => rfl
  | cons m names ih =>
    rw [down, List.map_cons, unloaded, List.filterMap_cons]
    exact congrArg (m :: ·) ih

namespace State

theorem manager_after_down {s : State} (hs : s.manager.isSome) (names : List String) :
    (s.after (down names)).manager.isSome := by
  induction names generalizing s with
  | nil => exact hs
  | cons m names ih =>
    refine ih (s := s.eraseMod m) ?_
    simpa [eraseMod] using hs

theorem own_after_down (s : State) (names : List String) :
    (s.after (down names)).own = s.own.filter fun mod => mod.name ∉ names := by
  induction names generalizing s with
  | nil => simp [down]
  | cons m names ih =>
    have h := ih (s.eraseMod m)
    rw [own_eraseMod, List.filter_filter] at h
    refine h.trans (List.filter_congr fun mod _ => ?_)
    simp [Bool.and_comm]

theorem hasMod_after_down {s : State} {names : List String} {x : String} :
    (s.after (down names)).hasMod x = true ↔ s.hasMod x = true ∧ x ∉ names := by
  rw [hasMod_iff, hasMod_iff, own_after_down]
  simp only [List.mem_filter, decide_eq_true_eq]
  constructor
  · rintro ⟨mod, ⟨hm, hne⟩, rfl⟩
    exact ⟨⟨mod, hm, rfl⟩, hne⟩
  · rintro ⟨⟨mod, hm, rfl⟩, hne⟩
    exact ⟨mod, ⟨hm, hne⟩, rfl⟩

/-- The rest of an order is still there once its first mod is gone. -/
theorem hasMod_eraseMod_tail {s : State} {m : String} {order : List String} (hn : (m :: order).Nodup)
    (ho : ∀ x ∈ m :: order, s.hasMod x = true) : ∀ x ∈ order, (s.eraseMod m).hasMod x = true := by
  intro x hx
  refine hasMod_eraseMod.mpr ⟨ho x (List.mem_cons_of_mem _ hx), ?_⟩
  rintro rfl
  exact (List.nodup_cons.mp hn).1 hx

end State

/-- At every moment of the loop the mods at the front of the order are gone. -/
theorem prefix_unloadEach {run : Outcomes} {s : State} {order : List String} (hn : order.Nodup)
    (ho : ∀ m ∈ order, s.hasMod m = true) {pre : List Event} (h : pre <+: (unloadEach run s order).events) :
    ∃ gone, gone <+: order ∧ unloaded pre = gone ∧ s.after pre = s.after (down gone) := by
  induction order generalizing s pre with
  | nil =>
    rw [unloadEach, List.prefix_nil] at h
    subst h
    exact ⟨[], List.prefix_rfl, rfl, rfl⟩
  | cons m order ih =>
    rw [unloadEach, ho m List.mem_cons_self, Bool.not_true, if_neg Bool.false_ne_true] at h
    cases pre with
    | nil => exact ⟨[], List.nil_prefix, rfl, rfl⟩
    | cons e pre =>
      cases hrun : run.unload m with
      | some what =>
        simp only [hrun, List.cons_prefix_cons, List.prefix_nil] at h
        obtain ⟨rfl, rfl⟩ := h
        exact ⟨[], List.nil_prefix, rfl, rfl⟩
      | none =>
        simp only [hrun, List.cons_prefix_cons] at h
        obtain ⟨rfl, h⟩ := h
        have hstill := State.hasMod_eraseMod_tail hn ho
        obtain ⟨gone, hpre, hun, hafter⟩ := ih (List.nodup_cons.mp hn).2 hstill h
        refine ⟨m :: gone, List.cons_prefix_cons.mpr ⟨rfl, hpre⟩, ?_, hafter⟩
        exact congrArg (m :: ·) hun

theorem unloadEach_ok (run : Outcomes) {s : State} {order : List String} (hn : order.Nodup)
    (ho : ∀ m ∈ order, s.hasMod m = true) :
    (∀ m e, .unload m e ∈ (unloadEach run s order).events → m ∈ order) ∧
      (∀ mf res, .load mf res ∉ (unloadEach run s order).events) ∧
      ((unloadEach run s order).ok = true ↔ ∀ m ∈ order, run.unload m = none) ∧
      ((unloadEach run s order).ok = true → (unloadEach run s order).events = down order) := by
  induction order generalizing s with
  | nil => simp [unloadEach, down]
  | cons m order ih =>
    rw [unloadEach, ho m List.mem_cons_self, Bool.not_true, if_neg Bool.false_ne_true]
    cases hrun : run.unload m with
    | some what => simp [hrun]
    | none =>
      have hstill := State.hasMod_eraseMod_tail hn ho
      obtain ⟨hmem, hload, hok, heq⟩ := ih (List.nodup_cons.mp hn).2 hstill
      refine ⟨?_, ?_, ?_, ?_⟩
      · rintro x e (_ | ⟨_, hx⟩)
        · exact List.mem_cons_self
        · exact List.mem_cons_of_mem _ (hmem x e hx)
      · rintro mf res (_ | ⟨_, hx⟩)
        exact hload mf res hx
      · simpa [hrun] using hok
      · intro h
        exact congrArg (Event.unload m none :: ·) (heq h)

/-! ## Up -/

section Loads

variable {deserialize : Json → Except String Manifest} {run : Outcomes} {disk : Disk}

/-- The attempt brought the mod of that name back. -/
def Up (deserialize : Json → Except String Manifest) (run : Outcomes) (disk : Disk) (e : Event) (m : String) : Prop :=
  ∃ mf, readManifest deserialize disk m = .ok mf ∧ run.load mf = .loaded ∧ e = .load mf .loaded

theorem loadEach_events (m : String) (mods : List String) :
    (loadEach deserialize run disk (m :: mods)).events =
      match readManifest deserialize disk m with
      | .error _ => []
      | .ok mf =>
        .load mf (run.load mf) ::
          if run.load mf = .loaded then (loadEach deserialize run disk mods).events else [] := by
  rw [loadEach]
  cases readManifest deserialize disk m with
  | error what => rfl
  | ok mf =>
    dsimp only
    cases run.load mf with
    | loaded => rfl
    | failed what => rfl
    | leftBehind what => rfl

/-- How far a list has been gone through: to its head, or past it into the rest. -/
theorem forall₂_split_cons {α β : Type*} {R : α → β → Prop} {P : β → Prop} {pre : List α} {m : β} {mods : List β} :
    (∃ before x after, m :: mods = before ++ x :: after ∧ List.Forall₂ R pre before ∧ P x) ↔
      (pre = [] ∧ P m) ∨ ∃ e pre', pre = e :: pre' ∧ R e m ∧
        ∃ before x after, mods = before ++ x :: after ∧ List.Forall₂ R pre' before ∧ P x := by
  constructor
  · rintro ⟨before, x, after, hl, hpre, hx⟩
    cases hpre with
    | nil =>
      cases hl
      exact .inl ⟨rfl, hx⟩
    | cons he hpre =>
      cases hl
      exact .inr ⟨_, _, rfl, he, _, x, after, rfl, hpre, hx⟩
  · rintro (⟨rfl, hx⟩ | ⟨e, pre', rfl, he, before, x, after, rfl, hpre, hx⟩)
    · exact ⟨[], m, mods, rfl, .nil, hx⟩
    · exact ⟨m :: before, x, after, rfl, .cons he hpre, hx⟩

/-- A load is attempted exactly when everything before it in the list has come up. -/
theorem prefix_loadEach_iff {mods : List String} {pre : List Event} {mf : Manifest} {res : LoadResult} :
    pre ++ [.load mf res] <+: (loadEach deserialize run disk mods).events ↔
      ∃ before m after, mods = before ++ m :: after ∧ List.Forall₂ (Up deserialize run disk) pre before ∧
        readManifest deserialize disk m = .ok mf ∧ run.load mf = res := by
  induction mods generalizing pre with
  | nil => simp [loadEach]
  | cons m mods ih =>
    rw [forall₂_split_cons, loadEach_events]
    cases hread : readManifest deserialize disk m with
    | error what => simp [Up, hread]
    | ok mf₀ =>
      have hup : ∀ e, Up deserialize run disk e m ↔ run.load mf₀ = .loaded ∧ e = .load mf₀ .loaded := by
        intro e
        simp [Up, hread]
      simp only [hup]
      cases pre with
      | nil =>
        simp only [List.nil_append, List.cons_prefix_cons, List.nil_prefix, and_true, true_and]
        constructor
        · rintro ⟨⟩
          exact .inl ⟨rfl, rfl⟩
        · rintro (⟨⟨⟩, rfl⟩ | ⟨e, pre', ⟨⟩, -⟩)
          rfl
      | cons e pre =>
        simp only [List.cons_append, List.cons_prefix_cons]
        constructor
        · rintro ⟨rfl, h⟩
          by_cases hl : run.load mf₀ = .loaded
          · rw [if_pos hl, ih] at h
            exact .inr ⟨_, pre, rfl, ⟨hl, by rw [hl]⟩, h⟩
          · simp [hl] at h
        · rintro (⟨⟨⟩, -⟩ | ⟨e', pre', ⟨⟩, ⟨hl, rfl⟩, h⟩)
          rw [if_pos hl, ih]
          exact ⟨by rw [hl], h⟩

/-- Bringing mods up adds them and nothing else. -/
theorem hasMod_after_up {s : State} (hs : s.manager.isSome) {pre : List Event} {before : List String}
    (h : List.Forall₂ (Up deserialize run disk) pre before)
    (hname : ∀ m ∈ before, ∀ mf, readManifest deserialize disk m = .ok mf → mf.name = m) {x : String} :
    (s.after pre).hasMod x = true ↔ s.hasMod x = true ∨ x ∈ before := by
  induction h generalizing s with
  | nil => simp
  | @cons e m pre before he _ ih =>
    obtain ⟨mf, hread, -, rfl⟩ := he
    have hadd : (s.addMod mf).manager.isSome := by simpa [State.addMod] using hs
    rw [State.after_cons, State.apply, ih hadd fun m hm => hname m (List.mem_cons_of_mem _ hm),
      State.hasMod_addMod hs, hname m List.mem_cons_self mf hread, List.mem_cons, or_assoc]

theorem exists_up {pre : List Event} {before : List String} (h : List.Forall₂ (Up deserialize run disk) pre before)
    {m : String} (hm : m ∈ before) : ∃ e ∈ pre, Up deserialize run disk e m := by
  induction h with
  | nil => simp at hm
  | cons he _ ih =>
    rcases List.mem_cons.mp hm with rfl | hm
    · exact ⟨_, List.mem_cons_self, he⟩
    · obtain ⟨e, hmem, he⟩ := ih hm
      exact ⟨e, List.mem_cons_of_mem _ hmem, he⟩

end Loads

/-! ## What lets a command through -/

/-- The order in which a cascade takes the mods down. -/
def goingDown (registry : ModManagerRegistry) (orders : HashOrders) (s : State) (name : String) : List String :=
  s.dependentsOf registry orders name ++ [name]

def Admits (registry : ModManagerRegistry) (orders : HashOrders) (s : State) (name : String) (cascade : Bool) : Prop :=
  s.hasMod name = true ∧ (cascade = true ∨ s.dependentsOf registry orders name = []) ∧
    ∀ d ∈ s.dependentsOf registry orders name, s.isRustMod d = true

theorem doUnload_cases (registry : ModManagerRegistry) (orders : HashOrders) (run : Outcomes) (s : State)
    (name : String) (cascade : Bool) :
    (Admits registry orders s name cascade ∧
      doUnload registry orders run s name cascade = unloadEach run s (goingDown registry orders s name)) ∨
    (¬Admits registry orders s name cascade ∧ (doUnload registry orders run s name cascade).ok = false ∧
      (doUnload registry orders run s name cascade).events = []) := by
  unfold doUnload
  split
  · next h => exact .inr ⟨fun ha => by simp [ha.1] at h, rfl, rfl⟩
  · next hmod =>
    dsimp only
    split
    · next h =>
      refine .inr ⟨fun ha => ?_, rfl, rfl⟩
      obtain ⟨-, hc | hc, -⟩ := ha <;> simp [hc] at h
    · next hcascade =>
      split
      · next h =>
        refine .inr ⟨fun ha => ?_, rfl, rfl⟩
        rw [List.filter_eq_nil_iff.mpr fun d hd => by simp [ha.2.2 d hd]] at h
        simp at h
      · next hforeign =>
        refine .inl ⟨⟨by simpa using hmod, ?_, ?_⟩, rfl⟩
        · cases cascade with
          | true => exact .inl rfl
          | false => exact .inr (by simpa using hcascade)
        · simpa [List.filter_eq_nil_iff] using hforeign

def Reloads (registry : ModManagerRegistry) (orders : HashOrders) (disk : Disk) (s : State) (name : String)
    (cascade : Bool) : Prop :=
  Admits registry orders s name cascade ∧ ∀ m ∈ goingDown registry orders s name, reloadSafe disk m = true

theorem bringBack_events (deserialize : Json → Except String Manifest) (run : Outcomes) (disk : Disk) (name : String)
    (r : Report) :
    (bringBack deserialize run disk name r).events =
      r.events ++ if r.ok then (loadEach deserialize run disk (unloaded r.events).reverse).events else [] := by
  unfold bringBack
  cases r.ok <;> simp

/-- A reload that any check refuses does nothing at all. -/
theorem cmdReload_cases (deserialize : Json → Except String Manifest) (registry : ModManagerRegistry)
    (checked orders : HashOrders) (run : Outcomes) (disk : Disk) (s : State) (name : String) (cascade : Bool) :
    (Reloads registry orders disk s name cascade ∧
      cmdReload deserialize registry checked orders run disk s name cascade =
        bringBack deserialize run disk name (unloadEach run s (goingDown registry orders s name))) ∨
    (¬Reloads registry orders disk s name cascade ∧
      (cmdReload deserialize registry checked orders run disk s name cascade).events = []) := by
  have hlists := (s.dependentsOf_lists registry orders name).mem
  have hchecked := (s.dependentsOf_lists registry checked name).mem
  have htarget : name ∈ goingDown registry orders s name := by simp [goingDown]
  unfold cmdReload
  split
  · next h => exact .inr ⟨fun hr => by simp [hr.1.1] at h, rfl⟩
  · split
    · next what hread =>
      refine .inr ⟨fun hr => ?_, rfl⟩
      have := hr.2 name htarget
      simp [reloadSafe, hread] at this
    · next cand hread =>
      split
      · next hsafe =>
        refine .inr ⟨fun hr => ?_, rfl⟩
        have := hr.2 name htarget
        simp only [reloadSafe, hread] at this
        simp [this] at hsafe
      · next hsafe =>
        have hname : reloadSafe disk name = true := by simpa [reloadSafe, hread] using hsafe
        dsimp only
        split
        · next dep hfind =>
          refine .inr ⟨fun hr => ?_, rfl⟩
          cases cascade with
          | false => simp at hfind
          | true =>
            rw [if_pos rfl] at hfind
            have hdep := (hchecked dep).mp (List.mem_of_find?_eq_some hfind)
            have := hr.2 dep (List.mem_append_left _ ((hlists dep).mpr hdep))
            simpa [this] using List.find?_some hfind
        · next hfind =>
          rcases doUnload_cases registry orders run s name cascade with ⟨ha, hdown⟩ | ⟨hna, hok, hevents⟩
          · refine .inl ⟨⟨ha, fun m hm => ?_⟩, by rw [hdown]⟩
            rcases List.mem_append.mp hm with hm | hm
            · rcases ha.2.1 with rfl | hnil
              · have hdep := (hchecked m).mpr ((hlists m).mp hm)
                have := List.find?_eq_none.mp hfind m hdep
                simpa [ha.2.2 m hm] using this
              · simp [hnil] at hm
            · rw [List.mem_singleton.mp hm]
              exact hname
          · refine .inr ⟨fun hr => hna hr.1, ?_⟩
            rw [bringBack_events, hok, hevents]
            rfl

/-! ## Acyclic graphs -/

/-- No mod depends on itself, however indirectly. -/
def Acyclic (mods : List Manifest) : Prop := ∀ m, ¬ Relation.TransGen (Depends mods) m m

/-- Our manager and the others have no name in common. -/
def Apart (s : State) : Prop := ∀ mod ∈ s.foreign, s.hasMod mod.name = false

theorem nodup_goingDown (registry : ModManagerRegistry) (orders : HashOrders) (s : State) (name : String) :
    (goingDown registry orders s name).Nodup := by
  have h := s.dependentsOf_lists registry orders name
  rw [goingDown, List.nodup_append]
  refine ⟨h.nodup, List.nodup_singleton _, ?_⟩
  rintro m hm d hd rfl
  exact ((h.mem m).mp hm).1 (List.mem_singleton.mp hd)

theorem Admits.hasMod {registry : ModManagerRegistry} {orders : HashOrders} {s : State} {name : String} {cascade : Bool}
    (h : Admits registry orders s name cascade) : ∀ m ∈ goingDown registry orders s name, s.hasMod m = true := by
  intro m hm
  rcases List.mem_append.mp hm with hm | hm
  · exact h.2.2 m hm
  · rw [List.mem_singleton.mp hm]
    exact h.1

/-- What depends on a mod that goes down goes down before it. -/
theorem goingDown_ordered {registry : ModManagerRegistry} (hcov : registry.Covers) {orders : HashOrders} {s : State}
    {name m d : String} (hac : Acyclic s.loaded)
    (h : Depends s.loaded m d) (hd : d ∈ goingDown registry orders s name) :
    m ∈ goingDown registry orders s name ∧
      (goingDown registry orders s name).idxOf m < (goingDown registry orders s name).idxOf d := by
  have hlists := hcov.lists orders s name
  have htrans : Relation.TransGen (Depends s.loaded) m name := by
    rcases List.mem_append.mp hd with hd | hd
    · exact .head h ((hlists.mem d).mp hd).2
    · exact .single (List.mem_singleton.mp hd ▸ h)
  have hm : m ∈ s.dependentsOf registry orders name := by
    refine (hlists.mem m).mpr ⟨?_, htrans⟩
    rintro rfl
    exact hac m htrans
  refine ⟨List.mem_append_left _ hm, ?_⟩
  rw [goingDown, List.idxOf_append_of_mem hm]
  by_cases hin : d ∈ s.dependentsOf registry orders name
  · rw [List.idxOf_append_of_mem hin]
    refine hlists.ordered (fun x hx => hac x (hx.lift id fun _ _ h => h.2.2)) m d (.single ⟨hm, hin, h⟩)
  · rw [List.idxOf_append_of_notMem hin]
    have := List.idxOf_lt_length_of_mem hm
    omega

theorem mem_of_idxOf_lt {pre l : List String} {m d : String} (hpre : pre <+: l) (hd : d ∈ pre)
    (hm : l.idxOf m < l.idxOf d) : m ∈ pre := by
  obtain ⟨rest, rfl⟩ := hpre
  by_contra hnot
  rw [List.idxOf_append_of_notMem hnot, List.idxOf_append_of_mem hd] at hm
  have := List.idxOf_lt_length_of_mem hd
  omega

/-- Backwards, what stands later in an order comes before. -/
theorem mem_before_of_idxOf_lt {l before after : List String} {m d : String} (hl : l.reverse = before ++ m :: after)
    (hn : l.Nodup) (hd : d ∈ l) (h : l.idxOf m < l.idxOf d) : d ∈ before := by
  have horder : l = after.reverse ++ m :: before.reverse := by
    rw [← List.reverse_reverse l, hl]
    simp
  rw [horder] at hn hd h
  have hm : m ∉ after.reverse := fun hin => (List.nodup_append.mp hn).2.2 m hin m List.mem_cons_self rfl
  rw [List.idxOf_append_of_notMem hm, List.idxOf_cons_self] at h
  rcases List.mem_append.mp hd with hd | hd
  · rw [List.idxOf_append_of_mem hd] at h
    have := List.idxOf_lt_length_of_mem hd
    omega
  · rcases List.mem_cons.mp hd with rfl | hd
    · rw [List.idxOf_append_of_notMem hm, List.idxOf_cons_self] at h
      omega
    · exact List.mem_reverse.mp hd

/-- At no moment of a cascade is a mod loaded whose dependency is gone. -/
theorem doUnload_keeps {registry : ModManagerRegistry} (hcov : registry.Covers) {s : State} (hapart : Apart s)
    (hac : Acyclic s.loaded) (orders : HashOrders) (run : Outcomes) (name : String) (cascade : Bool) {pre : List Event}
    (hpre : pre <+: (doUnload registry orders run s name cascade).events) {m d : String}
    (h : Depends (s.after pre).loaded m d) : d ∉ unloaded pre := by
  intro hd
  rcases doUnload_cases registry orders run s name cascade with ⟨ha, heq⟩ | ⟨-, -, hevents⟩
  · rw [heq] at hpre
    obtain ⟨gone, hgone, hun, hafter⟩ := prefix_unloadEach (nodup_goingDown registry orders s name) ha.hasMod hpre
    rw [hafter] at h
    rw [hun] at hd
    obtain ⟨mod, hmod, rfl, hdep⟩ := h
    rw [State.mem_loaded, State.foreign_after, State.own_after_down, List.mem_filter] at hmod
    have hbefore : Depends s.loaded mod.name d := by
      refine ⟨mod, State.mem_loaded.mpr ?_, rfl, hdep⟩
      rcases hmod with hmod | ⟨hmod, -⟩
      · exact .inl hmod
      · exact .inr hmod
    obtain ⟨hin, hlt⟩ := goingDown_ordered hcov hac hbefore (hgone.subset hd)
    rcases hmod with hmod | ⟨-, hstill⟩
    · have hown := ha.hasMod _ hin
      rw [hapart mod hmod] at hown
      cases hown
    · exact (decide_eq_true_eq.mp hstill) (mem_of_idxOf_lt hgone hd hlt)
  · rw [hevents, List.prefix_nil] at hpre
    subst hpre
    simp [unloaded] at hd

/-! ## Reloads -/

theorem concat_prefix_append {α : Type*} {pre x y : List α} {e : α} (he : e ∉ x) :
    pre ++ [e] <+: x ++ y ↔ ∃ rest, pre = x ++ rest ∧ rest ++ [e] <+: y := by
  constructor
  · rintro ⟨t, ht⟩
    rw [List.append_assoc] at ht
    rcases List.append_eq_append_iff.mp ht with ⟨a, rfl, ha⟩ | ⟨c, rfl, hc⟩
    · cases a with
      | nil => exact ⟨[], by simp, t, by simpa using ha⟩
      | cons b a =>
        simp only [List.cons_append, List.nil_append, List.cons.injEq] at ha
        simp [ha.1] at he
    · exact ⟨c, rfl, t, by rw [hc, List.append_assoc]⟩
  · rintro ⟨rest, rfl, h⟩
    rw [List.append_assoc]
    exact (List.prefix_append_right_inj x).mpr h

/-- A load attempt of a reload: everything has gone down, and what went down
after this mod has come up again. -/
theorem load_cmdReload_iff {deserialize : Json → Except String Manifest} {registry : ModManagerRegistry}
    {checked orders : HashOrders} {run : Outcomes} {disk : Disk} {s : State} {name : String} {cascade : Bool}
    {pre : List Event} {mf : Manifest} {result : LoadResult} :
    pre ++ [.load mf result] <+: (cmdReload deserialize registry checked orders run disk s name cascade).events ↔
      Reloads registry orders disk s name cascade ∧ (∀ m ∈ goingDown registry orders s name, run.unload m = none) ∧
        ∃ ups before m after, pre = down (goingDown registry orders s name) ++ ups ∧
          (goingDown registry orders s name).reverse = before ++ m :: after ∧
          List.Forall₂ (Up deserialize run disk) ups before ∧
          readManifest deserialize disk m = .ok mf ∧ run.load mf = result := by
  rcases cmdReload_cases deserialize registry checked orders run disk s name cascade with ⟨hr, heq⟩ | ⟨hnr, hevents⟩
  · obtain ⟨-, hload, hok, hdown⟩ := unloadEach_ok run (nodup_goingDown registry orders s name) hr.1.hasMod
    rw [heq, bringBack_events, concat_prefix_append (hload mf result)]
    by_cases h : (unloadEach run s (goingDown registry orders s name)).ok = true
    · rw [if_pos h, hdown h, unloaded_down]
      constructor
      · rintro ⟨ups, rfl, hups⟩
        obtain ⟨before, m, after, hup⟩ := prefix_loadEach_iff.mp hups
        exact ⟨hr, hok.mp h, ups, before, m, after, rfl, hup⟩
      · rintro ⟨-, -, ups, before, m, after, rfl, hup⟩
        exact ⟨ups, rfl, prefix_loadEach_iff.mpr ⟨before, m, after, hup⟩⟩
    · rw [if_neg h]
      refine iff_of_false ?_ fun hx => h (hok.mpr hx.2.1)
      rintro ⟨ups, -, hups⟩
      simp at hups
  · rw [hevents]
    simp [hnr]

section Reload

variable {deserialize : Json → Except String Manifest} {registry : ModManagerRegistry} {checked orders : HashOrders}
  {run : Outcomes} {disk : Disk} {s : State} {name : String} {cascade : Bool}

theorem unload_notMem_loadEach (mods : List String) (m : String) (error : Option String) :
    .unload m error ∉ (loadEach deserialize run disk mods).events := by
  induction mods with
  | nil => simp [loadEach]
  | cons x mods ih =>
    rw [loadEach_events]
    cases readManifest deserialize disk x with
    | error what => simp
    | ok mf =>
      dsimp only
      split <;> simp [ih]

theorem unloaded_eq_nil {events : List Event} (h : ∀ m error, .unload m error ∉ events) : unloaded events = [] := by
  rw [unloaded, List.filterMap_eq_nil_iff]
  rintro (⟨m, error⟩ | ⟨mf, result⟩) he
  · exact absurd he (h m error)
  · rfl

theorem unloaded_append (l l' : List Event) : unloaded (l ++ l') = unloaded l ++ unloaded l' := List.filterMap_append

/-- Only what is marked on disk as safe is taken down by a reload. -/
theorem reloadSafe_of_unload {m : String} {error : Option String}
    (h : .unload m error ∈ (cmdReload deserialize registry checked orders run disk s name cascade).events) :
    reloadSafe disk m = true := by
  rcases cmdReload_cases deserialize registry checked orders run disk s name cascade with ⟨hr, heq⟩ | ⟨-, hevents⟩
  · obtain ⟨hmem, -⟩ := unloadEach_ok run (nodup_goingDown registry orders s name) hr.1.hasMod
    rw [heq, bringBack_events] at h
    rcases List.mem_append.mp h with h | h
    · exact hr.2 m (hmem m error h)
    · split at h
      · exact absurd h (unload_notMem_loadEach _ m error)
      · simp at h
  · simp [hevents] at h

/-- A reload that gets as far as a load has taken down the whole order. -/
theorem unloaded_cmdReload (hr : Reloads registry orders disk s name cascade)
    (hall : ∀ m ∈ goingDown registry orders s name, run.unload m = none) :
    unloaded (cmdReload deserialize registry checked orders run disk s name cascade).events =
      goingDown registry orders s name := by
  rcases cmdReload_cases deserialize registry checked orders run disk s name cascade with ⟨-, heq⟩ | ⟨hnr, -⟩
  · obtain ⟨-, -, hok, hdown⟩ := unloadEach_ok run (nodup_goingDown registry orders s name) hr.1.hasMod
    rw [heq, bringBack_events, if_pos (hok.mpr hall), unloaded_append, hdown (hok.mpr hall), unloaded_down,
      unloaded_eq_nil (unload_notMem_loadEach _), List.append_nil]
  · exact absurd hr hnr

theorem reloadSafe_iff {m : String} :
    reloadSafe disk m = true ↔ ∃ c, readCandidate disk m = .ok c ∧ c.reloadSafe = true := by
  unfold reloadSafe
  split
  · next c h => simp [h]
  · next what h => simp [h]

/-- The manifest read back for a mod that went down carries its name. -/
theorem Reloads.name_eq (hd : Reflects deserialize) (hr : Reloads registry orders disk s name cascade) {m : String}
    (hm : m ∈ goingDown registry orders s name) {mf : Manifest} (hread : readManifest deserialize disk m = .ok mf) :
    mf.name = m := by
  obtain ⟨c, hc, -⟩ := reloadSafe_iff.mp (hr.2 m hm)
  exact (hd.of_candidate hc hread).1

end Reload

/-- What a cascade owes the mods it does not take down, and a reload those it does. -/
structure KeepsDependencies (deserialize : Json → Except String Manifest) (registry : ModManagerRegistry)
    (checked orders : HashOrders) (run : Outcomes) (disk : Disk) (s : State) (name : String)
    (cascade : Bool) : Prop where
  satisfied : ∀ pre, pre <+: (doUnload registry orders run s name cascade).events →
    ∀ m d, Depends (s.after pre).loaded m d → d ∉ unloaded pre
  refused : (∃ m, m ≠ name ∧ Relation.TransGen (Depends s.loaded) m name ∧
    (cascade = false ∨ s.isRustMod m = false)) → (doUnload registry orders run s name cascade).events = []
  marked : ∀ m error, .unload m error ∈ (cmdReload deserialize registry checked orders run disk s name cascade).events →
    ∃ j, disk m = some (.json j) ∧ j.member "reload_safe" = some (.bool true)
  /-- Whenever a load is attempted, each unloaded mod it depended on, and each
  that went down after it, has come up again before. -/
  restarted : ∀ pre mf result,
    pre ++ [.load mf result] <+: (cmdReload deserialize registry checked orders run disk s name cascade).events →
    let gone := unloaded (cmdReload deserialize registry checked orders run disk s name cascade).events
    mf.name ∈ gone ∧ ∀ d ∈ gone, Depends s.loaded mf.name d ∨ gone.idxOf mf.name < gone.idxOf d →
      (∃ up, .load up .loaded ∈ pre ∧ up.name = d) ∧ (s.after pre).hasMod d = true
  /-- A load is attempted exactly when the checks have let the reload through,
  everything has gone down, and the mods that went down after this one have
  all come up: so each is brought back in its turn, up to the first failure. -/
  broughtBack : ∀ pre mf result,
    pre ++ [.load mf result] <+: (cmdReload deserialize registry checked orders run disk s name cascade).events ↔
      Reloads registry orders disk s name cascade ∧ (∀ m ∈ goingDown registry orders s name, run.unload m = none) ∧
        ∃ ups before m after, pre = down (goingDown registry orders s name) ++ ups ∧
          (goingDown registry orders s name).reverse = before ++ m :: after ∧
          List.Forall₂ (Up deserialize run disk) ups before ∧
          readManifest deserialize disk m = .ok mf ∧ run.load mf = result

theorem keeps_dependencies {deserialize : Json → Except String Manifest} (hd : Reflects deserialize)
    {registry : ModManagerRegistry} (hcov : registry.Covers) {s : State} (hapart : Apart s) (hac : Acyclic s.loaded)
    (checked orders : HashOrders) (run : Outcomes) (disk : Disk) (name : String) (cascade : Bool) :
    KeepsDependencies deserialize registry checked orders run disk s name cascade where
  satisfied pre hpre m d h := doUnload_keeps hcov hapart hac orders run name cascade hpre h
  refused := by
    rintro ⟨m, hne, htrans, hm⟩
    have hdep : m ∈ s.dependentsOf registry orders name := ((hcov.lists orders s name).mem m).mpr ⟨hne, htrans⟩
    rcases doUnload_cases registry orders run s name cascade with ⟨ha, -⟩ | ⟨-, -, hevents⟩
    · rcases hm with rfl | hm
      · obtain ⟨-, hc | hnil, -⟩ := ha
        · cases hc
        · simp [hnil] at hdep
      · rw [ha.2.2 m hdep] at hm
        cases hm
    · exact hevents
  marked m error h := by
    obtain ⟨c, hc, hsafe⟩ := reloadSafe_iff.mp (reloadSafe_of_unload h)
    obtain ⟨j, hj, -, -, hiff⟩ := readCandidate_ok hc
    exact ⟨j, hj, hiff.mp hsafe⟩
  restarted pre mf result h := by
    obtain ⟨hr, hall, ups, before, m, after, rfl, hl, hup, hread, -⟩ := load_cmdReload_iff.mp h
    rw [unloaded_cmdReload hr hall]
    have hgone : ∀ x ∈ before ++ m :: after, x ∈ goingDown registry orders s name :=
      fun x hx => List.mem_reverse.mp (hl ▸ hx)
    have hm : m ∈ goingDown registry orders s name := hgone m (by simp)
    have hname := hr.name_eq hd hm hread
    subst hname
    refine ⟨hm, fun d hin hdep => ?_⟩
    have hlt : (goingDown registry orders s name).idxOf mf.name < (goingDown registry orders s name).idxOf d := by
      rcases hdep with hdep | hlt
      · exact (goingDown_ordered hcov hac hdep hin).2
      · exact hlt
    have hbefore : d ∈ before := mem_before_of_idxOf_lt hl (nodup_goingDown registry orders s name) hin hlt
    have hnames : ∀ x ∈ before, ∀ mf, readManifest deserialize disk x = .ok mf → mf.name = x := by
      intro x hx mf hread
      exact hr.name_eq hd (hgone x (by simp [hx])) hread
    obtain ⟨_, hmem, up, hread', -, rfl⟩ := exists_up hup hbefore
    refine ⟨⟨up, List.mem_append_right _ hmem, hnames d hbefore up hread'⟩, ?_⟩
    rw [State.after_append, hasMod_after_up (s.manager_after_down (State.isSome_of_hasMod hr.1.1) _) hup hnames]
    exact .inr hbefore
  broughtBack _ _ _ := load_cmdReload_iff

/-! ## A mod and its dependent -/

/-- Reads the name and the dependencies, and needs nothing else. -/
def readNames (j : Json) : Except String Manifest :=
  match j.text "name" with
  | none => .error "missing required field: name"
  | some name => .ok ⟨name, some j.declared⟩

theorem reflects_readNames : Reflects readNames where
  name j mf h := by
    unfold readNames at h
    split at h
    · cases h
    · next name hname =>
      cases h
      exact hname
  dependencies j mf h d hd := by
    unfold readNames at h
    split at h
    · cases h
    · cases h
      exact hd

/-- Every manager is asked for its mods. -/
def askManagers : ModManagerRegistry := ⟨State.loaded, fun s name => s.loaded.any fun mod => mod.name = name⟩

theorem covers_askManagers : askManagers.Covers where
  foreign _ := List.subset_append_left _ _
  loaded _ := List.Subset.refl _
  hasMod s name := by simp [askManagers]

/-- The containers keep the order of insertion. -/
def inOrder : HashOrder := ⟨id, fun _ => .rfl⟩

def twoMods : State := ⟨some [⟨"base", none⟩, ⟨"addon", some ["base"]⟩], []⟩

def rustFile (name : String) (dependencies : List String) : File :=
  .json (.obj [("type", .str "rust"), ("name", .str name), ("entry", .str (name ++ ".dll")),
    ("reload_safe", .bool true), ("dependencies", .arr (dependencies.map .str))])

def twoFiles : Disk := fun name =>
  if name = "base" then some (rustFile "base" []) else if name = "addon" then some (rustFile "addon" ["base"]) else none

def allLoad : Outcomes := ⟨fun _ => none, fun _ => .loaded⟩

theorem keeps_dependencies_twoMods :
    KeepsDependencies readNames askManagers ⟨inOrder, inOrder, inOrder⟩ ⟨inOrder, inOrder, inOrder⟩ allLoad twoFiles
      twoMods "base" true := by
  refine keeps_dependencies reflects_readNames covers_askManagers (by simp [Apart, twoMods]) (fun m h => ?_) _ _ _ _ _ _
  have hedge : ∀ x y, Depends twoMods.loaded x y → x = "addon" ∧ y = "base" := by
    rintro x y ⟨mod, hmod, rfl, hdep⟩
    rw [State.mem_loaded] at hmod
    simp only [twoMods, State.own, Option.getD_some, List.not_mem_nil, List.mem_cons, or_false, false_or] at hmod
    rcases hmod with rfl | rfl
    · simp at hdep
    · exact ⟨rfl, by simpa using hdep⟩
  obtain ⟨x, hx, -⟩ := Relation.TransGen.head'_iff.mp h
  obtain ⟨y, -, hy⟩ := Relation.TransGen.tail'_iff.mp h
  have h₁ := (hedge m x hx).1
  have h₂ := (hedge y m hy).2
  rw [h₁] at h₂
  exact absurd h₂ (by decide)

example : (cmdReload readNames askManagers ⟨inOrder, inOrder, inOrder⟩ ⟨inOrder, inOrder, inOrder⟩ allLoad twoFiles
    twoMods "base" true).events = [.unload "addon" none, .unload "base" none, .load ⟨"base", some []⟩ .loaded,
      .load ⟨"addon", some ["base"]⟩ .loaded] := by
  decide

end ModControl
