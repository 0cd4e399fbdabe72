import LeviRsLoader.Lib.Runs
import LeviRsLoader.ModCascade

/-!
# Runs of commands

Any sequence of `/llr` commands, each with the files as they are on disk while
it runs, and which of the mods they bring up find what they declare to need.
-/
namespace ModControl

open Dependents

inductive Command where
  | load (name : String)
  | unload (name : String) (cascade : Bool)
  | reload (name : String) (cascade : Bool)

/-- A command and all that it meets. -/
structure Turn where
  command : Command
  disk : Disk
  outcomes : Outcomes
  checked : HashOrders
  orders : HashOrders

section Turns

variable (deserialize : Json → Except String Manifest) (registry : ModManagerRegistry)

def Turn.events (t : Turn) (s : State) : List Event :=
  match t.command with
  | .load name => (cmdLoad deserialize registry t.outcomes t.disk s name).events
  | .unload name cascade => (cmdUnload registry t.orders t.outcomes s name cascade).events
  | .reload name cascade => (cmdReload deserialize registry t.checked t.orders t.outcomes t.disk s name
      cascade).events

def turn (s : State) (t : Turn) : State := s.after (t.events deserialize registry s)

end Turns

def LoadResult.isUp : LoadResult → Bool
  | .loaded | .leftBehind _ => true
  | .failed _ => false

/-- Whatever is brought up finds every dependency that its manifest declares loaded. -/
def Supplied (s : State) (events : List Event) : Prop :=
  ∀ pre mf result, pre ++ [.load mf result] <+: events → result.isUp = true →
    ∀ d ∈ mf.dependencies.getD [], ∃ mod ∈ (s.after pre).loaded, mod.name = d

/-- In a reload that goes through, the manifests now on disk declare for each
mod that comes up only dependencies of other managers, dependencies that stay
up, and dependencies that went down after it. -/
def Meets (deserialize : Json → Except String Manifest) (registry : ModManagerRegistry) (s : State) (t : Turn) : Prop :=
  match t.command with
  | .load _ | .unload _ _ => True
  | .reload name cascade =>
    Reloads registry t.orders t.disk s name cascade →
      (∀ m ∈ goingDown registry t.orders s name, t.outcomes.unload m = none) →
      ∀ before m after mf, (goingDown registry t.orders s name).reverse = before ++ m :: after →
        (∀ x ∈ before, ∃ up, readManifest deserialize t.disk x = .ok up ∧ t.outcomes.load up = .loaded) →
        readManifest deserialize t.disk m = .ok mf → (t.outcomes.load mf).isUp = true →
        ∀ d ∈ mf.dependencies.getD [], (∃ mod ∈ s.foreign, mod.name = d) ∨
          (s.hasMod d = true ∧ d ∉ goingDown registry t.orders s name) ∨ d ∈ before

/-! ## Loads -/

section Commands

variable {deserialize : Json → Except String Manifest} {registry : ModManagerRegistry} {run : Outcomes} {disk : Disk}
  {s : State} {name : String}

variable (deserialize registry run disk s name) in
theorem cmdLoad_cases :
    (cmdLoad deserialize registry run disk s name).events = [] ∨
    ∃ cand mf, s.isLoadedAnywhere registry name = false ∧ readCandidate disk name = .ok cand ∧
      (∀ d ∈ cand.dependencies, s.isLoadedAnywhere registry d = true) ∧ readManifest deserialize disk name = .ok mf ∧
      (cmdLoad deserialize registry run disk s name).events = [.load mf (run.load mf)] := by
  unfold cmdLoad
  split
  · exact .inl rfl
  · split
    · exact .inl rfl
    · split
      · exact .inl rfl
      · next hload =>
        cases hcand : readCandidate disk name with
        | error what => exact .inl rfl
        | ok cand =>
          dsimp only
          split
          · exact .inl rfl
          · next hmissing =>
            cases hread : readManifest deserialize disk name with
            | error what => exact .inl rfl
            | ok mf =>
              refine .inr ⟨cand, mf, by simpa using hload, rfl, ?_, rfl, ?_⟩
              · simpa [List.filter_eq_nil_iff] using hmissing
              · dsimp only
                cases run.load mf with
                | loaded => rfl
                | failed what => rfl
                | leftBehind what => rfl

theorem supplied_cmdLoad (hd : Reflects deserialize) (hcov : registry.Covers) :
    Supplied s (cmdLoad deserialize registry run disk s name).events := by
  intro pre mf result h _ d hdep
  rcases cmdLoad_cases deserialize registry run disk s name with
    hevents | ⟨cand, mf', -, hcand, hall, hread, hevents⟩
  · simp [hevents] at h
  · rw [hevents] at h
    cases pre with
    | nil =>
      simp only [List.nil_append, List.cons_prefix_cons, List.nil_prefix, and_true, Event.load.injEq] at h
      obtain ⟨rfl, -⟩ := h
      exact (State.isLoadedAnywhere_iff hcov).mp (hall d ((hd.of_candidate hcand hread).2 d hdep))
    | cons e pre => simp at h

theorem load_notMem_cmdUnload {orders : HashOrders} {cascade : Bool} (mf : Manifest) (result : LoadResult) :
    .load mf result ∉ (cmdUnload registry orders run s name cascade).events := by
  have hevents : (cmdUnload registry orders run s name cascade).events =
      (doUnload registry orders run s name cascade).events := by
    unfold cmdUnload
    dsimp only
    split <;> rfl
  rw [hevents]
  rcases doUnload_cases registry orders run s name cascade with ⟨ha, heq⟩ | ⟨-, -, hnil⟩
  · rw [heq]
    exact (unloadEach_ok run (nodup_goingDown registry orders s name) ha.hasMod).2.1 mf result
  · simp [hnil]

end Commands

/-! ## Reloads -/

theorem forall₂_up {deserialize : Json → Except String Manifest} {run : Outcomes} {disk : Disk} {before : List String}
    (h : ∀ x ∈ before, ∃ up, readManifest deserialize disk x = .ok up ∧ run.load up = .loaded) :
    ∃ ups, List.Forall₂ (Up deserialize run disk) ups before := by
  induction before with
  | nil => exact ⟨[], .nil⟩
  | cons x before ih =>
    obtain ⟨up, hread, hload⟩ := h x List.mem_cons_self
    obtain ⟨ups, hups⟩ := ih fun y hy => h y (List.mem_cons_of_mem _ hy)
    exact ⟨_ :: ups, .cons ⟨up, hread, hload, rfl⟩ hups⟩

/-- In the middle of a reload a mod is loaded if it is another manager's, has
stayed up or has come up again. -/
theorem loaded_midway {deserialize : Json → Except String Manifest} {run : Outcomes} {disk : Disk} {s : State}
    (hs : s.manager.isSome) {order before : List String} {ups : List Event}
    (hup : List.Forall₂ (Up deserialize run disk) ups before)
    (hname : ∀ m ∈ before, ∀ mf, readManifest deserialize disk m = .ok mf → mf.name = m) {d : String} :
    (∃ mod ∈ (s.after (down order ++ ups)).loaded, mod.name = d) ↔
      (∃ mod ∈ s.foreign, mod.name = d) ∨ (s.hasMod d = true ∧ d ∉ order) ∨ d ∈ before := by
  rw [State.after_append, State.exists_loaded_iff, State.foreign_after, State.foreign_after,
    hasMod_after_up (State.manager_after_down hs order) hup hname, State.hasMod_after_down]

theorem supplied_cmdReload_iff {deserialize : Json → Except String Manifest} (hd : Reflects deserialize)
    (registry : ModManagerRegistry) (s : State) (checked orders : HashOrders) (run : Outcomes) (disk : Disk)
    (name : String) (cascade : Bool) :
    Supplied s (cmdReload deserialize registry checked orders run disk s name cascade).events ↔
      Meets deserialize registry s ⟨.reload name cascade, disk, run, checked, orders⟩ := by
  have hmid : ∀ {ups before m after}, Reloads registry orders disk s name cascade →
      (goingDown registry orders s name).reverse = before ++ m :: after →
      List.Forall₂ (Up deserialize run disk) ups before →
      ∀ d, (∃ mod ∈ (s.after (down (goingDown registry orders s name) ++ ups)).loaded, mod.name = d) ↔
        (∃ mod ∈ s.foreign, mod.name = d) ∨ (s.hasMod d = true ∧ d ∉ goingDown registry orders s name) ∨
          d ∈ before := by
    intro ups before m after hr hl hup d
    refine loaded_midway (State.isSome_of_hasMod hr.1.1) hup fun x hx mf hread => ?_
    refine hr.name_eq hd ?_ hread
    rw [← List.mem_reverse, hl]
    exact List.mem_append_left _ hx
  constructor
  · intro h hr hall before m after mf hl hbefore hread hres d hdep
    obtain ⟨ups, hup⟩ := forall₂_up hbefore
    refine (hmid hr hl hup d).mp (h _ mf _ (load_cmdReload_iff.mpr ?_) hres d hdep)
    exact ⟨hr, hall, ups, before, m, after, rfl, hl, hup, hread, rfl⟩
  · intro h pre mf result hpre hres d hdep
    obtain ⟨hr, hall, ups, before, m, after, rfl, hl, hup, hread, rfl⟩ := load_cmdReload_iff.mp hpre
    have hbefore : ∀ x ∈ before, ∃ up, readManifest deserialize disk x = .ok up ∧ run.load up = .loaded := by
      intro x hx
      obtain ⟨e, -, up, hread, hload, -⟩ := exists_up hup hx
      exact ⟨up, hread, hload⟩
    exact (hmid hr hl hup d).mpr (h hr hall before m after mf hl hbefore hread hres d hdep)

theorem supplied_iff {deserialize : Json → Except String Manifest} (hd : Reflects deserialize)
    {registry : ModManagerRegistry} (hcov : registry.Covers) (s : State) (t : Turn) :
    Supplied s (t.events deserialize registry s) ↔ Meets deserialize registry s t := by
  obtain ⟨command, disk, run, checked, orders⟩ := t
  cases command with
  | load name => exact iff_of_true (supplied_cmdLoad hd hcov) trivial
  | unload name cascade =>
    refine iff_of_true (fun pre mf result h => ?_) trivial
    exact absurd (h.subset (List.mem_append_right _ List.mem_cons_self)) (load_notMem_cmdUnload mf result)
  | reload name cascade => exact supplied_cmdReload_iff hd registry s checked orders run disk name cascade

/-! ## Runs -/

/-- Every load that a turn attempts is of a mod no other manager has. -/
theorem load_apart {deserialize : Json → Except String Manifest} (hd : Reflects deserialize)
    {registry : ModManagerRegistry} (hcov : registry.Covers) {s : State} (h : Apart s) (t : Turn) {mf : Manifest}
    {result : LoadResult} (hload : .load mf result ∈ t.events deserialize registry s) :
    ∀ mod ∈ s.foreign, mod.name ≠ mf.name := by
  obtain ⟨command, disk, run, checked, orders⟩ := t
  cases command with
  | load name =>
    rcases cmdLoad_cases deserialize registry run disk s name with
      hevents | ⟨cand, mf', hnot, hcand, -, hread, hevents⟩
    · simp [Turn.events, hevents] at hload
    · simp only [Turn.events, hevents, List.mem_singleton, Event.load.injEq] at hload
      obtain ⟨rfl, -⟩ := hload
      intro mod hmod hname
      rw [(hd.of_candidate hcand hread).1] at hname
      rw [(State.isLoadedAnywhere_iff hcov).mpr ⟨mod, State.mem_loaded.mpr (.inl hmod), hname⟩] at hnot
      cases hnot
  | unload name cascade => exact absurd hload (load_notMem_cmdUnload mf result)
  | reload name cascade =>
    obtain ⟨pre, suf, hsplit⟩ := List.append_of_mem hload
    have hpre : pre ++ [.load mf result] <+:
        (cmdReload deserialize registry checked orders run disk s name cascade).events :=
      ⟨suf, by rw [List.append_assoc]; exact hsplit.symm⟩
    obtain ⟨hr, -, ups, before, m, after, -, hl, -, hread, -⟩ := load_cmdReload_iff.mp hpre
    have hm : m ∈ goingDown registry orders s name := by
      rw [← List.mem_reverse, hl]
      exact List.mem_append_right _ List.mem_cons_self
    rintro mod hmod hname
    have hown := hr.1.hasMod m hm
    rw [← hr.name_eq hd hm hread, ← hname, h mod hmod] at hown
    cases hown

/-- A mod that no attempt has loaded was there before. -/
theorem hasMod_of_after {s : State} {name : String} {events : List Event}
    (hl : ∀ mf result, .load mf result ∈ events → name ≠ mf.name) (h : (s.after events).hasMod name = true) :
    s.hasMod name = true := by
  induction events generalizing s with
  | nil => exact h
  | cons e events ih =>
    have hs := ih (s := s.apply e) (fun mf result he => hl mf result (List.mem_cons_of_mem _ he)) h
    cases e with
    | unload m error =>
      cases error with
      | none => exact (State.hasMod_eraseMod.mp hs).1
      | some what => exact hs
    | load mf result =>
      have hne := hl mf result List.mem_cons_self
      have hadd (hmod : (s.addMod mf).hasMod name = true) : s.hasMod name = true := by
        have hsome : s.manager.isSome := by simpa [State.addMod] using State.isSome_of_hasMod hmod
        exact ((State.hasMod_addMod hsome).mp hmod).resolve_right hne
      cases result with
      | loaded => exact hadd hs
      | failed what => exact hs
      | leftBehind what => exact hadd hs

theorem Apart.after {s : State} (h : Apart s) {events : List Event}
    (hl : ∀ mf result, .load mf result ∈ events → ∀ mod ∈ s.foreign, mod.name ≠ mf.name) : Apart (s.after events) := by
  intro mod hmod
  rw [State.foreign_after] at hmod
  by_contra hnot
  have hown := hasMod_of_after (fun mf result he => hl mf result he mod hmod) (by simpa using hnot)
  rw [h mod hmod] at hown
  cases hown

/-- Names stay apart in every run, so what is said of one cascade holds of each. -/
theorem Apart.run {deserialize : Json → Except String Manifest} (hd : Reflects deserialize)
    {registry : ModManagerRegistry} (hcov : registry.Covers) {s : State} (h : Apart s) (turns : List Turn) :
    Apart (turns.foldl (turn deserialize registry) s) :=
  Runs.foldl_invariant Apart h fun _ t hs => hs.after fun _ _ => load_apart hd hcov hs t

/-- In a run, whatever comes up is supplied exactly as long as every reload
finds the files as it needs them. -/
theorem run_supplied_iff {deserialize : Json → Except String Manifest} (hd : Reflects deserialize)
    {registry : ModManagerRegistry} (hcov : registry.Covers) (s : State) (turns : List Turn) :
    (∀ pre t suf, turns = pre ++ t :: suf → Supplied (pre.foldl (turn deserialize registry) s)
      (t.events deserialize registry (pre.foldl (turn deserialize registry) s))) ↔
    ∀ pre t suf, turns = pre ++ t :: suf → Meets deserialize registry (pre.foldl (turn deserialize registry) s) t :=
  forall_congr' fun _ => forall_congr' fun t => forall_congr' fun _ => imp_congr_right fun _ => supplied_iff hd hcov _ t

def emptyState : State := ⟨some [], []⟩

def inOrders : HashOrders := ⟨inOrder, inOrder, inOrder⟩

/-- The only mod there is, with the dependencies its manifest declares at the moment. -/
def onlyFile (dependencies : List String) : Disk := fun name =>
  if name = "addon" then some (rustFile "addon" dependencies) else none

/-- The mod is loaded, and reloaded after its manifest has been edited. -/
def loadAndReload (dependencies : List String) : List Turn :=
  [⟨.load "addon", onlyFile [], allLoad, inOrders, inOrders⟩,
    ⟨.reload "addon" false, onlyFile dependencies, allLoad, inOrders, inOrders⟩]

theorem unedited_supplied :
    (∀ pre t suf, loadAndReload [] = pre ++ t :: suf → Supplied (pre.foldl (turn readNames askManagers) emptyState)
      (t.events readNames askManagers (pre.foldl (turn readNames askManagers) emptyState))) ↔
    ∀ pre t suf, loadAndReload [] = pre ++ t :: suf →
      Meets readNames askManagers (pre.foldl (turn readNames askManagers) emptyState) t :=
  run_supplied_iff reflects_readNames covers_askManagers emptyState (loadAndReload [])

/-- A dependency added to the manifest is not looked for when the mod is reloaded,
though loading it afresh would be refused. -/
theorem edited_unsupplied :
    ¬(∀ pre t suf, loadAndReload ["base"] = pre ++ t :: suf →
      Supplied (pre.foldl (turn readNames askManagers) emptyState)
        (t.events readNames askManagers (pre.foldl (turn readNames askManagers) emptyState))) ∧
    (cmdLoad readNames askManagers allLoad (onlyFile ["base"]) emptyState "addon").events = [] := by
  refine ⟨fun h => ?_, by decide⟩
  have hturn := h [⟨.load "addon", onlyFile [], allLoad, inOrders, inOrders⟩] _ [] rfl
  have hbase := hturn [.unload "addon" none] ⟨"addon", some ["base"]⟩ .loaded (by decide) rfl "base" (by simp)
  revert hbase
  decide

end ModControl
