import LeviRsLoader.Lib.Runs
import LeviRsLoader.Scheduler

/-!
# Runs of the scheduler

One thread runs what the executor was handed and loads and unloads mods;
scheduling and cancelling happen on any thread, also between the two halves of
`runTask`, and inside a task. Each section under `gTaskMutex` is one step.
-/
namespace Scheduler

open LeviRs Runs

/-! ## `runTask` in two halves -/

/-- The part under the lock: the ticket is taken, or it is gone already. -/
def takeTicket (id : Nat) (s : Registry) : Option PendingTask × Registry :=
  match s.gPendingTasks.lookup id with
  | none => (none, s)
  | some task => (some task, { s with gPendingTasks := s.gPendingTasks.erase id })

/-- The part after it: the mod is still there, is the one that scheduled the task, and is enabled. -/
def mayRun (live enabled : ModId → Bool) (weakMod : ModId) (task : PendingTask) : Bool :=
  live weakMod && weakMod == task.mod && enabled weakMod

theorem runTask_eq (live enabled : ModId → Bool) (weakMod : ModId) (id : Nat) (s : Registry) :
    runTask live enabled weakMod id s =
      ((takeTicket id s).1.bind fun task => if mayRun live enabled weakMod task then some task.cb else none,
        (takeTicket id s).2) := by
  unfold runTask takeTicket
  cases s.gPendingTasks.lookup id with
  | none => rfl
  | some task => rfl

/-! ## The system -/

/-- A `ModId` names one `RustMod` object for good. -/
inductive Life where
  | unborn
  | loaded (enabled : Bool)
  | gone
  deriving DecidableEq, Repr

/-- What the thread that fires is doing. While a task runs it may do anything but fire another. -/
inductive Main where
  | idle
  | took (weakMod : ModId) (id : Nat) (task : PendingTask)
  | running (id : Nat)
  deriving DecidableEq, Repr

structure System where
  reg : Registry
  /-- The executor's copies, each to be run once or never. -/
  queue : List Submission
  life : ModId → Life
  main : Main

def System.initial : System := ⟨.initial, [], fun _ => .unborn, .idle⟩

/-- `weak_ptr::lock`: the object lives until its mod is erased. -/
def System.live (s : System) (m : ModId) : Bool := s.life m matches .loaded _

def System.enabled (s : System) (m : ModId) : Bool := s.life m == .loaded true

inductive Label where
  | schedule (mod : Option ModId) (cb : Option Ptr) (user : Ptr) (delayMs : Option UInt64)
  | cancel (mod : Option ModId) (taskId : Nat)
  | take (sub : Submission)
  | call
  | mute
  | done
  | load (m : ModId)
  | setEnabled (m : ModId) (b : Bool)
  /-- `schedulerOnRustModGone`, called by an unload. -/
  | sweep (m : ModId)
  /-- `eraseMod`, which ends an unload. -/
  | erase (m : ModId)

/-- Between the halves of `runTask` the firing thread does nothing else. -/
def Main.free : Main → Bool
  | .took _ _ _ => false
  | _ => true

inductive Step : System → Label → System → Prop where
  | schedule (s : System) (mod : Option ModId) (cb : Option Ptr) (user : Ptr) (delayMs : Option UInt64) :
      Step s (.schedule mod cb user delayMs)
        { s with
          reg := (submit s.live mod cb user delayMs s.reg).2.2,
          queue := s.queue ++ (submit s.live mod cb user delayMs s.reg).2.1.toList }
  | cancel (s : System) (mod : Option ModId) (taskId : Nat) :
      Step s (.cancel mod taskId) { s with reg := (api_schedule_cancel mod taskId s.reg).2 }
  | take (s : System) (sub : Submission) (hq : sub ∈ s.queue) (hm : s.main = .idle) :
      Step s (.take sub)
        { s with
          queue := s.queue.erase sub,
          reg := (takeTicket sub.id s.reg).2,
          main := match (takeTicket sub.id s.reg).1 with
            | none => .idle
            | some task => .took sub.weakMod sub.id task }
  | call (s : System) {w : ModId} {id : Nat} {task : PendingTask} (hm : s.main = .took w id task)
      (hr : mayRun s.live s.enabled w task = true) : Step s .call { s with main := .running id }
  | mute (s : System) {w : ModId} {id : Nat} {task : PendingTask} (hm : s.main = .took w id task)
      (hr : mayRun s.live s.enabled w task = false) : Step s .mute { s with main := .idle }
  | done (s : System) {id : Nat} (hm : s.main = .running id) : Step s .done { s with main := .idle }
  | load (s : System) (m : ModId) (hm : s.main.free = true) (hl : s.life m = .unborn) :
      Step s (.load m) { s with life := Function.update s.life m (.loaded false) }
  | setEnabled (s : System) (m : ModId) (b : Bool) (hm : s.main.free = true) (hl : s.live m = true) :
      Step s (.setEnabled m b) { s with life := Function.update s.life m (.loaded b) }
  | sweep (s : System) (m : ModId) (hm : s.main.free = true) (hl : s.live m = true) :
      Step s (.sweep m) { s with reg := schedulerOnRustModGone m s.reg }
  | erase (s : System) (m : ModId) (hm : s.main.free = true) (hl : s.live m = true) :
      Step s (.erase m) { s with life := Function.update s.life m .gone }

/-! ## What a step is to a task -/

/-- The call returned the ticket `id`. -/
def Schedules (e : System × Label) (id : Nat) (task : PendingTask) : Prop :=
  ∃ raw fn user delayMs, e.2 = .schedule (some raw) (some fn) user delayMs ∧ task = ⟨raw, ⟨fn, user⟩⟩ ∧
    (submit e.1.live (some raw) (some fn) user delayMs e.1.reg).1 = id ∧ id ≠ 0

/-- The executor ran the closure and the ticket was there; the task may still be muted. -/
def Fires (e : System × Label) (id : Nat) : Prop :=
  ∃ sub, e.2 = .take sub ∧ sub.id = id ∧ ∃ task, e.1.reg.gPendingTasks.lookup id = some task

def Cancels (e : System × Label) (mod : ModId) (id : Nat) : Prop :=
  e.2 = .cancel (some mod) id ∧ (api_schedule_cancel (some mod) id e.1.reg).1 = true

def Sweeps (e : System × Label) (id : Nat) : Prop :=
  ∃ task, e.2 = .sweep task.mod ∧ e.1.reg.gPendingTasks.lookup id = some task

/-- The callback of the task is called. -/
def Calls (e : System × Label) (id : Nat) (task : PendingTask) : Prop :=
  e.2 = .call ∧ ∃ w, e.1.main = .took w id task

/-- The three ways out of the table. -/
def Removes (e : System × Label) (id : Nat) : Prop := Fires e id ∨ (∃ mod, Cancels e mod id) ∨ Sweeps e id

/-- Scheduled, and neither fired nor cancelled nor swept since. -/
def Outstanding (tr : List (System × Label)) (id : Nat) (task : PendingTask) : Prop :=
  (∃ e ∈ tr, Schedules e id task) ∧ ∀ e ∈ tr, ¬Removes e id

theorem Removes.lookup {e : System × Label} {id : Nat} (h : Removes e id) :
    ∃ task, e.1.reg.gPendingTasks.lookup id = some task := by
  rcases h with ⟨_, _, _, h⟩ | ⟨mod, hl, h⟩ | ⟨task, _, h⟩
  · exact h
  · unfold api_schedule_cancel at h
    split at h
    · cases h
    · split at h
      · cases h
      · split at h
        · cases h
        · exact ⟨_, ‹_›⟩
  · exact ⟨task, h⟩

/-- Every entry is below the counter, which starts at 1. -/
structure Below (s : Registry) : Prop where
  pos : 0 < s.gNextTaskId
  lookup : ∀ id task, s.gPendingTasks.lookup id = some task → id < s.gNextTaskId

theorem schedules_iff {s : System} {mod : Option ModId} {cb : Option Ptr} {user : Ptr} {delayMs : Option UInt64}
    (h : Below s.reg) (id : Nat) (task : PendingTask) :
    Schedules (s, .schedule mod cb user delayMs) id task ↔
      ∃ raw fn, mod = some raw ∧ cb = some fn ∧ s.live raw = true ∧ task = ⟨raw, ⟨fn, user⟩⟩ ∧
        id = s.reg.gNextTaskId := by
  have hpos := h.pos
  constructor
  · rintro ⟨raw, fn, user, delayMs, hl, rfl, hid, hne⟩
    cases hl
    obtain hc | ⟨raw', fn', hm, hcb, hlive, hc⟩ := submit_cases s.live (some raw) (some fn) user delayMs s.reg
    · rw [hc] at hid
      exact absurd hid.symm hne
    · cases hm
      cases hcb
      rw [hc] at hid
      exact ⟨raw, fn, rfl, rfl, hlive, rfl, hid.symm⟩
  · rintro ⟨raw, fn, rfl, rfl, hlive, rfl, rfl⟩
    refine ⟨raw, fn, user, delayMs, rfl, rfl, ?_, by omega⟩
    simp [submit, hlive, registerTask]

theorem not_schedules {s : System} {l : Label} (hl : ∀ mod cb user delayMs, l ≠ .schedule mod cb user delayMs)
    (id : Nat) (task : PendingTask) : ¬Schedules (s, l) id task := by
  rintro ⟨raw, fn, user, delayMs, rfl, _⟩
  exact hl _ _ _ _ rfl

theorem removes_cancel {s : System} {mod : Option ModId} {taskId id : Nat} :
    Removes (s, .cancel mod taskId) id ↔
      mod ≠ none ∧ id = taskId ∧ (api_schedule_cancel mod taskId s.reg).1 = true := by
  constructor
  · rintro (⟨_, hl, _⟩ | ⟨m, hl, hc⟩ | ⟨_, hl, _⟩)
    · cases hl
    · cases hl
      exact ⟨by simp, rfl, hc⟩
    · cases hl
  · rintro ⟨hm, rfl, hc⟩
    cases mod with
    | none => exact absurd rfl hm
    | some m => exact .inr (.inl ⟨m, rfl, hc⟩)

theorem removes_take {s : System} {sub : Submission} {id : Nat} :
    Removes (s, .take sub) id ↔ sub.id = id ∧ ∃ task, s.reg.gPendingTasks.lookup id = some task := by
  constructor
  · rintro (⟨_, hl, hid, ht⟩ | ⟨_, hl, _⟩ | ⟨_, hl, _⟩)
    · cases hl
      exact ⟨hid, ht⟩
    · cases hl
    · cases hl
  · rintro ⟨hid, ht⟩
    exact .inl ⟨sub, rfl, hid, ht⟩

theorem removes_sweep {s : System} {m : ModId} {id : Nat} :
    Removes (s, .sweep m) id ↔ ∃ task, task.mod = m ∧ s.reg.gPendingTasks.lookup id = some task := by
  constructor
  · rintro (⟨_, hl, _⟩ | ⟨_, hl, _⟩ | ⟨task, hl, ht⟩)
    · cases hl
    · cases hl
    · cases hl
      exact ⟨task, rfl, ht⟩
  · rintro ⟨task, rfl, ht⟩
    exact .inr (.inr ⟨task, rfl, ht⟩)

/-- The task scheduled is in the table, and what was there stays. -/
theorem lookup_schedule {s : System} {mod : Option ModId} {cb : Option Ptr} {user : Ptr} {delayMs : Option UInt64}
    (hb : Below s.reg) (id : Nat) (task : PendingTask) :
    (submit s.live mod cb user delayMs s.reg).2.2.gPendingTasks.lookup id = some task ↔
      s.reg.gPendingTasks.lookup id = some task ∨ Schedules (s, .schedule mod cb user delayMs) id task := by
  rw [schedules_iff hb]
  obtain hc | ⟨raw, fn, rfl, rfl, hlive, hc⟩ := submit_cases s.live mod cb user delayMs s.reg
  · rw [hc]
    constructor
    · exact .inl
    · rintro (h | ⟨raw, fn, rfl, rfl, hlive, _⟩)
      · exact h
      · simp [submit, hlive, registerTask] at hc
  · rw [hc]
    simp only [registerTask, AList.lookup_insert_eq]
    by_cases hid : id = s.reg.gNextTaskId
    · subst hid
      have hfresh : s.reg.gPendingTasks.lookup s.reg.gNextTaskId ≠ some task := fun hl =>
        absurd (hb.lookup _ _ hl) (Nat.lt_irrefl _)
      rw [if_pos rfl]
      constructor
      · intro h
        exact .inr ⟨raw, fn, rfl, rfl, hlive, (Option.some.inj h).symm, rfl⟩
      · rintro (h | ⟨_, _, hr, hf, _, rfl, _⟩)
        · exact absurd h hfresh
        · cases hr
          cases hf
          rfl
    · simp [hid]

theorem lookup_cancel_iff (mod : Option ModId) (taskId : Nat) (s : Registry) (id : Nat) (task : PendingTask) :
    (api_schedule_cancel mod taskId s).2.gPendingTasks.lookup id = some task ↔
      s.gPendingTasks.lookup id = some task ∧
        ¬(mod ≠ none ∧ id = taskId ∧ (api_schedule_cancel mod taskId s).1 = true) := by
  unfold api_schedule_cancel
  cases mod with
  | none => simp
  | some raw =>
    by_cases h₀ : taskId = 0
    · simp [h₀]
    · cases hl : s.gPendingTasks.lookup taskId with
      | none => simp [h₀]
      | some t =>
        by_cases hm : t.mod = raw
        · by_cases hid : id = taskId <;> simp [h₀, hm, hid, AList.lookup_erase_eq]
        · simp [h₀, hm]

theorem lookup_takeTicket (taskId : Nat) (s : Registry) (id : Nat) (task : PendingTask) :
    (takeTicket taskId s).2.gPendingTasks.lookup id = some task ↔
      s.gPendingTasks.lookup id = some task ∧ ¬(taskId = id ∧ ∃ task, s.gPendingTasks.lookup id = some task) := by
  unfold takeTicket
  by_cases hid : taskId = id
  · subst hid
    cases hl : s.gPendingTasks.lookup taskId <;> simp [hl]
  · cases hl : s.gPendingTasks.lookup taskId <;> simp [hid, Ne.symm hid]

/-- What a step does to the table: the removed leaves it, the scheduled enters it. -/
theorem Step.lookup {s s' : System} {l : Label} (h : Step s l s') (hb : Below s.reg) (id : Nat) (task : PendingTask) :
    s'.reg.gPendingTasks.lookup id = some task ↔
      (s.reg.gPendingTasks.lookup id = some task ∧ ¬Removes (s, l) id) ∨ Schedules (s, l) id task := by
  cases h with
  | schedule mod cb user delayMs =>
    have hkeep : ¬Removes (s, .schedule mod cb user delayMs) id := by
      rintro (⟨_, hl, _⟩ | ⟨_, hl, _⟩ | ⟨_, hl, _⟩) <;> cases hl
    rw [lookup_schedule hb, and_iff_left hkeep]
  | cancel mod taskId =>
    rw [or_iff_left (not_schedules (by simp) id task), removes_cancel]
    exact lookup_cancel_iff mod taskId s.reg id task
  | take sub hq hm =>
    rw [or_iff_left (not_schedules (by simp) id task), removes_take]
    exact lookup_takeTicket sub.id s.reg id task
  | sweep m hm hl =>
    rw [or_iff_left (not_schedules (by simp) id task), removes_sweep, lookup_schedulerOnRustModGone]
    exact and_congr_right fun ht => not_congr (by simp [ht])
  | call | mute | done | load | setEnabled | erase =>
    rw [or_iff_left (not_schedules (by simp) id task)]
    refine (and_iff_left ?_).symm
    rintro (⟨_, hl, _⟩ | ⟨_, hl, _⟩ | ⟨_, hl, _⟩) <;> cases hl

/-- The counter only grows, and past every id it gives. -/
theorem Step.next {s s' : System} {l : Label} (h : Step s l s') (hb : Below s.reg) :
    s.reg.gNextTaskId ≤ s'.reg.gNextTaskId ∧
      ∀ id task, Schedules (s, l) id task → id = s.reg.gNextTaskId ∧ id < s'.reg.gNextTaskId := by
  cases h with
  | schedule mod cb user delayMs =>
    simp only [schedules_iff hb]
    obtain hc | ⟨raw, fn, rfl, rfl, hlive, hc⟩ := submit_cases s.live mod cb user delayMs s.reg
    · refine ⟨by simp [hc], ?_⟩
      rintro id task ⟨raw, fn, rfl, rfl, hlive, _⟩
      simp [submit, hlive, registerTask] at hc
    · refine ⟨by simp [hc, registerTask], ?_⟩
      rintro id task ⟨_, _, _, _, _, _, rfl⟩
      simp [hc, registerTask]
  | cancel mod taskId =>
    refine ⟨Nat.le_of_eq (next_cancel mod taskId s.reg).symm, ?_⟩
    rintro id task ⟨_, _, _, _, hl, _⟩
    cases hl
  | take sub hq hm =>
    refine ⟨?_, ?_⟩
    · unfold takeTicket
      split <;> exact Nat.le_refl _
    · rintro id task ⟨_, _, _, _, hl, _⟩
      cases hl
  | call | mute | done | load | setEnabled | sweep | erase =>
    refine ⟨Nat.le_refl _, ?_⟩
    rintro id task ⟨_, _, _, _, hl, _⟩
    cases hl

/-! ## The account of a run -/

/-- The table is what the trace leaves outstanding; a task taken out to be run
has been nothing but scheduled and fired. -/
structure Account (tr : List (System × Label)) (s : System) : Prop where
  below : Below s.reg
  table : ∀ id task, s.reg.gPendingTasks.lookup id = some task ↔ Outstanding tr id task
  issued : ∀ e ∈ tr, ∀ id task, Schedules e id task → id < s.reg.gNextTaskId
  spent : ∀ e ∈ tr, ∀ id, Removes e id → id < s.reg.gNextTaskId
  called : ∀ e ∈ tr, ∀ id task, Calls e id task → ∃ e' ∈ tr, Removes e' id
  took : ∀ w id task, s.main = .took w id task → (∃ e ∈ tr, Schedules e id task) ∧ (∃ e ∈ tr, Removes e id) ∧
    ∀ e ∈ tr, (∀ t, ¬Calls e id t) ∧ (∀ mod, ¬Cancels e mod id) ∧ ¬Sweeps e id
  erased : ∀ e ∈ tr, ∀ m, e.2 = .erase m → s.life m = .gone

theorem account_initial : Account [] System.initial where
  below := ⟨by decide, fun id task h => by simp [System.initial, Registry.initial] at h⟩
  table := by simp [System.initial, Registry.initial, Outstanding]
  issued := by simp
  spent := by simp
  called := by simp
  took := by simp [System.initial]
  erased := by simp

theorem outstanding_append {tr : List (System × Label)} {e : System × Label} {id : Nat} {task : PendingTask} :
    Outstanding (tr ++ [e]) id task ↔
      ((∃ e ∈ tr, Schedules e id task) ∨ Schedules e id task) ∧ (∀ e ∈ tr, ¬Removes e id) ∧ ¬Removes e id := by
  simp only [Outstanding, List.mem_append, List.mem_singleton, or_and_right, exists_or, exists_eq_left, or_imp,
    forall_and, forall_eq]

/-- What is out of the table is not removed again. -/
theorem Account.not_removes {tr : List (System × Label)} {s : System} (h : Account tr s) {id : Nat}
    (hr : ∃ e ∈ tr, Removes e id) (l : Label) : ¬Removes (s, l) id := by
  intro hrem
  obtain ⟨task, ht⟩ := hrem.lookup
  obtain ⟨e, he, hre⟩ := hr
  exact ((h.table id task).mp ht).2 e he hre

theorem Step.erase_iff {s s' : System} {l : Label} (h : Step s l s') (m : ModId) :
    (l = .erase m → s'.life m = .gone) ∧ (s.life m = .gone → s'.life m = .gone) := by
  have hne : ∀ m', s.live m' = true → s.life m = .gone → m ≠ m' := by
    rintro m' hl hg rfl
    simp [System.live, hg] at hl
  cases h with
  | load m' hm hl =>
    refine ⟨by simp, fun hg => ?_⟩
    have : m ≠ m' := by
      rintro rfl
      rw [hg] at hl
      cases hl
    simpa [this] using hg
  | setEnabled m' b hm hl => exact ⟨by simp, fun hg => by simpa [hne m' hl hg] using hg⟩
  | erase m' hm hl =>
    refine ⟨fun h => ?_, fun hg => ?_⟩
    · cases h
      simp
    · simpa [hne m' hl hg] using hg
  | _ => exact ⟨by simp, id⟩

/-- A ticket in hand has been scheduled and fired, and nothing else since. -/
def InHand (tr : List (System × Label)) (id : Nat) (task : PendingTask) : Prop :=
  (∃ e ∈ tr, Schedules e id task) ∧ (∃ e ∈ tr, Removes e id) ∧
    ∀ e ∈ tr, (∀ t, ¬Calls e id t) ∧ (∀ mod, ¬Cancels e mod id) ∧ ¬Sweeps e id

/-- A ticket in hand stays so until its task is called. -/
theorem Account.inHand_keep {tr : List (System × Label)} {s : System} (h : Account tr s) {id : Nat} {task : PendingTask}
    (ht : InHand tr id task) {l : Label} (hl : l ≠ .call) : InHand (tr ++ [(s, l)]) id task := by
  obtain ⟨⟨e₁, he₁, hsch⟩, ⟨e₂, he₂, hrem⟩, hnot⟩ := ht
  refine ⟨⟨e₁, List.mem_append_left _ he₁, hsch⟩, ⟨e₂, List.mem_append_left _ he₂, hrem⟩, fun e he => ?_⟩
  rcases List.mem_append.mp he with he | he
  · exact hnot e he
  · rw [List.mem_singleton.mp he]
    have hrem' := h.not_removes ⟨e₂, he₂, hrem⟩ l
    exact ⟨fun t hc => hl hc.1, fun mod hc => hrem' (.inr (.inl ⟨mod, hc⟩)), fun hs => hrem' (.inr (.inr hs))⟩

/-- A ticket taken out of the table is in hand. -/
theorem Account.inHand_take {tr : List (System × Label)} {s : System} (h : Account tr s) {sub : Submission}
    {task : PendingTask} (hl : s.reg.gPendingTasks.lookup sub.id = some task) :
    InHand (tr ++ [(s, .take sub)]) sub.id task := by
  obtain ⟨⟨e₁, he₁, hsch⟩, hnot⟩ := (h.table _ _).mp hl
  refine ⟨⟨e₁, List.mem_append_left _ he₁, hsch⟩,
    ⟨_, List.mem_append_right _ (List.mem_singleton_self _), .inl ⟨sub, rfl, rfl, task, hl⟩⟩, fun e he => ?_⟩
  rcases List.mem_append.mp he with he | he
  · refine ⟨fun t hc => ?_, fun mod hc => hnot e he (.inr (.inl ⟨mod, hc⟩)), fun hs => hnot e he (.inr (.inr hs))⟩
    obtain ⟨e', he', hrem⟩ := h.called e he _ _ hc
    exact hnot e' he' hrem
  · rw [List.mem_singleton.mp he]
    refine ⟨fun t hc => ?_, fun mod hc => ?_, fun hs => ?_⟩
    · cases hc.1
    · cases hc.1
    · obtain ⟨_, hl, _⟩ := hs
      cases hl

theorem Account.inHand_step {tr : List (System × Label)} {s s' : System} {l : Label} (h : Account tr s)
    (hs : Step s l s') {w : ModId} {id : Nat} {task : PendingTask} (hm : s'.main = .took w id task) :
    InHand (tr ++ [(s, l)]) id task := by
  cases hs with
  | take sub hq hidle =>
    simp only [takeTicket] at hm
    cases hl : s.reg.gPendingTasks.lookup sub.id with
    | none => simp [hl] at hm
    | some t =>
      simp only [hl, Main.took.injEq] at hm
      obtain ⟨rfl, rfl, rfl⟩ := hm
      exact h.inHand_take hl
  | call | mute | done => cases hm
  | schedule | cancel | load | setEnabled | sweep | erase => exact h.inHand_keep (h.took w id task hm) (by simp)

/-- What is scheduled and not removed is outstanding, after a step as before it. -/
theorem Account.table_step {tr : List (System × Label)} {s s' : System} {l : Label} (h : Account tr s)
    (hs : Step s l s') (id : Nat) (task : PendingTask) :
    s'.reg.gPendingTasks.lookup id = some task ↔ Outstanding (tr ++ [(s, l)]) id task := by
  rw [hs.lookup h.below, h.table, outstanding_append]
  constructor
  · rintro (⟨⟨hsch, hnot⟩, hrem⟩ | hsch)
    · exact ⟨.inl hsch, hnot, hrem⟩
    · have hid := ((hs.next h.below).2 id task hsch).1
      refine ⟨.inr hsch, fun e he hrem => ?_, fun hrem => ?_⟩
      · have := h.spent e he id hrem
        omega
      · obtain ⟨t, ht⟩ := hrem.lookup
        have := h.below.lookup id t ht
        omega
  · rintro ⟨hsch | hsch, hnot, hrem⟩
    · exact .inl ⟨⟨hsch, hnot⟩, hrem⟩
    · exact .inr hsch

theorem account_step {tr : List (System × Label)} {s s' : System} {l : Label} (h : Account tr s) (hs : Step s l s') :
    Account (tr ++ [(s, l)]) s' := by
  obtain ⟨hle, hnew⟩ := hs.next h.below
  refine ⟨⟨?_, fun id task ht => ?_⟩, h.table_step hs, fun e he id task hsch => ?_, fun e he id hrem => ?_,
    fun e he id task hcall => ?_, fun w id task hm => h.inHand_step hs hm, fun e he m hm => ?_⟩
  · have := h.below.pos
    omega
  · rcases (hs.lookup h.below id task).mp ht with ⟨ht, _⟩ | hsch
    · have := h.below.lookup id task ht
      omega
    · exact (hnew id task hsch).2
  · rcases List.mem_append.mp he with he | he
    · have := h.issued e he id task hsch
      omega
    · rw [List.mem_singleton.mp he] at hsch
      exact (hnew id task hsch).2
  · rcases List.mem_append.mp he with he | he
    · have := h.spent e he id hrem
      omega
    · rw [List.mem_singleton.mp he] at hrem
      obtain ⟨t, ht⟩ := hrem.lookup
      have := h.below.lookup id t ht
      omega
  · rcases List.mem_append.mp he with he | he
    · obtain ⟨e', he', hrem⟩ := h.called e he id task hcall
      exact ⟨e', List.mem_append_left _ he', hrem⟩
    · rw [List.mem_singleton.mp he] at hcall
      obtain ⟨_, w, hm⟩ := hcall
      obtain ⟨_, ⟨e', he', hrem⟩, _⟩ := h.took w id task hm
      exact ⟨e', List.mem_append_left _ he', hrem⟩
  · rcases List.mem_append.mp he with he | he
    · exact (hs.erase_iff m).2 (h.erased e he m hm)
    · rw [List.mem_singleton.mp he] at hm
      exact (hs.erase_iff m).1 hm

theorem account_run {tr : List (System × Label)} {s : System} (h : Run Step System.initial tr s) : Account tr s :=
  h.traceInvariant (G := fun _ _ => True) Account (by simp [Meets]) account_initial
    fun _ _ _ _ ha _ hs => account_step ha hs

/-! ## At most once -/

/-- What holds of a run: at every step of it for the calls, cancels and new
ids, and at its end for the number of pending tasks. -/
structure AtMostOnce (tr : List (System × Label)) (s : System) : Prop where
  scheduled : ∀ pre e post id task, tr = pre ++ e :: post → Calls e id task → ∃ e' ∈ pre, Schedules e' id task
  once : ∀ pre e post id task, tr = pre ++ e :: post → Calls e id task → ∀ e' ∈ pre, ∀ t, ¬Calls e' id t
  notCancelled : ∀ pre e post id task, tr = pre ++ e :: post → Calls e id task → ∀ e' ∈ pre, ∀ mod, ¬Cancels e' mod id
  notUnloaded : ∀ pre e post id task, tr = pre ++ e :: post → Calls e id task →
    ∀ e' ∈ pre, ¬Sweeps e' id ∧ e'.2 ≠ .erase task.mod
  /-- Only the owner cancels, and only what is outstanding, so nothing twice. -/
  cancels : ∀ pre e post mod id, tr = pre ++ e :: post → Cancels e mod id →
    ∃ task, task.mod = mod ∧ Outstanding pre id task
  fresh : ∀ pre e post id task, tr = pre ++ e :: post → Schedules e id task → ∀ e' ∈ pre, ∀ t, ¬Schedules e' id t
  count : ∀ mod, ∃ ids : List Nat, ids.Nodup ∧
    (∀ id, id ∈ ids ↔ ∃ task, task.mod = mod ∧ Outstanding tr id task) ∧
    api_schedule_pending_count (some mod) s.reg = ids.length

theorem cancel_owner {mod : ModId} {id : Nat} {s : Registry} (h : (api_schedule_cancel (some mod) id s).1 = true) :
    ∃ task, s.gPendingTasks.lookup id = some task ∧ task.mod = mod := by
  unfold api_schedule_cancel at h
  simp only at h
  split at h
  · cases h
  · split at h
    · cases h
    · next task hl =>
      split at h
      · cases h
      · next hm => exact ⟨task, hl, by simpa using hm⟩

/-- A callback runs only while its mod is there. -/
theorem Step.call_live {s s' : System} {id : Nat} {task : PendingTask} (h : Step s .call s')
    (hc : Calls (s, .call) id task) : s.live task.mod = true := by
  obtain ⟨_, w, hw⟩ := hc
  cases h with
  | call hm hr =>
    rw [hw] at hm
    cases hm
    simp only [mayRun, Bool.and_eq_true, beq_iff_eq] at hr
    rw [← hr.1.2]
    exact hr.1.1

theorem outstanding_count {tr : List (System × Label)} {s : System} (h : Account tr s) (mod : ModId) :
    ∃ ids : List Nat, ids.Nodup ∧ (∀ id, id ∈ ids ↔ ∃ task, task.mod = mod ∧ Outstanding tr id task) ∧
      api_schedule_pending_count (some mod) s.reg = ids.length := by
  refine ⟨s.reg.gPendingTasks.keysIf fun _ task => task.mod == mod, AList.nodup_keysIf _ _, fun id => ?_, ?_⟩
  · rw [AList.mem_keysIf]
    simp only [h.table, beq_iff_eq]
    constructor
    · rintro ⟨task, ho, hm⟩
      exact ⟨task, hm, ho⟩
    · rintro ⟨task, hm, ho⟩
      exact ⟨task, ho, hm⟩
  · rw [AList.length_keysIf]
    rfl

/-- The scheduler's contract, over every run: any order of schedules and
cancels on any threads, of firings, and of unloads in between or inside a task. -/
theorem scheduler_atMostOnce {tr : List (System × Label)} {s : System} (h : Run Step System.initial tr s) :
    AtMostOnce tr s := by
  have hat : ∀ {pre e post}, tr = pre ++ e :: post → Account pre e.1 ∧ ∃ t, Step e.1 e.2 t := by
    rintro pre e post rfl
    obtain ⟨t, hpre, hstep, _⟩ := h.split_cons
    exact ⟨account_run hpre, t, hstep⟩
  constructor
  · rintro pre e post id task htr ⟨_, w, hm⟩
    exact ((hat htr).1.took w id task hm).1
  · rintro pre e post id task htr ⟨_, w, hm⟩ e' he' t
    exact (((hat htr).1.took w id task hm).2.2 e' he').1 t
  · rintro pre e post id task htr ⟨_, w, hm⟩ e' he' mod
    exact (((hat htr).1.took w id task hm).2.2 e' he').2.1 mod
  · intro pre e post id task htr hcall e' he'
    obtain ⟨hacc, t, hstep⟩ := hat htr
    obtain ⟨w, hm⟩ := hcall.2
    refine ⟨((hacc.took w id task hm).2.2 e' he').2.2, fun herase => ?_⟩
    obtain ⟨s, l⟩ := e
    obtain rfl : l = .call := hcall.1
    have hlive := hstep.call_live hcall
    have hgone : s.life task.mod = .gone := hacc.erased e' he' _ herase
    simp [System.live, hgone] at hlive
  · rintro pre e post mod id htr ⟨_, hc⟩
    obtain ⟨task, hl, hm⟩ := cancel_owner hc
    exact ⟨task, hm, ((hat htr).1.table id task).mp hl⟩
  · intro pre e post id task htr hsch e' he' t hsch'
    obtain ⟨hacc, t', hstep⟩ := hat htr
    have hid := ((hstep.next hacc.below).2 id task hsch).1
    have hlt := hacc.issued e' he' id t hsch'
    omega
  · exact outstanding_count (account_run h)

/-- A mod is loaded and enabled, schedules a task, and the task runs. -/
theorem scheduler_atMostOnce_run :
    ∃ tr s, Run Step System.initial tr s ∧ (∃ e ∈ tr, Calls e 1 ⟨7, ⟨1, 2⟩⟩) ∧ AtMostOnce tr s := by
  have hrun := Run.cons (Step.load System.initial 7 rfl rfl) (.cons (.setEnabled _ 7 true rfl rfl)
    (.cons (.schedule _ (some 7) (some 1) 2 none) (.cons (.take _ ⟨7, 1, none⟩ (by decide) rfl)
      (.cons (.call _ rfl (by decide)) (.nil _)))))
  exact ⟨_, _, hrun, ⟨_, .tail _ (.tail _ (.tail _ (.tail _ (.head _)))), rfl, 7, rfl⟩, scheduler_atMostOnce hrun⟩

end Scheduler
