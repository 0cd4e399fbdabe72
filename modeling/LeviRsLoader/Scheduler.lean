import LeviRsLoader.RustMod

/-!
# Mod-scoped tasks

`gPendingTasks` of `LogScheduler.cpp`. The executor is handed a weak pointer
to the mod and a ticket, never the callback; `runTask` is what it runs.
-/
namespace Scheduler

open LeviRs

structure PendingTask where
  mod : ModId
  cb : Callback
  deriving DecidableEq, Repr

structure Registry where
  gPendingTasks : Table Nat PendingTask
  gNextTaskId : Nat

def Registry.initial : Registry := ⟨∅, 1⟩

/-- What `submit` hands the executor; without a delay it runs on the next turn. -/
structure Submission where
  weakMod : ModId
  id : Nat
  delayMs : Option UInt64
  deriving DecidableEq, Repr

def registerTask (mod : ModId) (cb : Callback) (s : Registry) : Nat × Registry :=
  (s.gNextTaskId, ⟨s.gPendingTasks.insert s.gNextTaskId ⟨mod, cb⟩, s.gNextTaskId + 1⟩)

/-- Take the ticket and give the callback to run, if its mod is alive and enabled. -/
def runTask (live enabled : ModId → Bool) (weakMod : ModId) (id : Nat) (s : Registry) : Option Callback × Registry :=
  match s.gPendingTasks.lookup id with
  | none => (none, s)
  | some task =>
    (if live weakMod && weakMod == task.mod && enabled weakMod then some task.cb else none,
      { s with gPendingTasks := s.gPendingTasks.erase id })

/-- The id (0 for a refusal), the closure for the executor, the table after. -/
def submit (live : ModId → Bool) (mod : Option ModId) (cb : Option Ptr) (user : Ptr) (delayMs : Option UInt64)
    (s : Registry) : Nat × Option Submission × Registry :=
  match cb, mod with
  | some fn, some raw =>
    if !live raw then (0, none, s)
    else
      let (id, s) := registerTask raw ⟨fn, user⟩ s
      (id, some ⟨raw, id, delayMs⟩, s)
  | _, _ => (0, none, s)

def api_schedule_for (live : ModId → Bool) (mod : Option ModId) (cb : Option Ptr) (user : Ptr) (s : Registry) :
    Nat × Option Submission × Registry := submit live mod cb user none s

def api_schedule_after_for (live : ModId → Bool) (mod : Option ModId) (cb : Option Ptr) (user : Ptr)
    (delayMs : UInt64) (s : Registry) : Nat × Option Submission × Registry :=
  submit live mod cb user (some delayMs) s

def api_schedule_cancel (mod : Option ModId) (taskId : Nat) (s : Registry) : Bool × Registry :=
  match mod with
  | none => (false, s)
  | some raw =>
    if taskId = 0 then (false, s)
    else match s.gPendingTasks.lookup taskId with
      | none => (false, s)
      | some task =>
        if task.mod ≠ raw then (false, s) else (true, { s with gPendingTasks := s.gPendingTasks.erase taskId })

def api_schedule_pending_count (mod : Option ModId) (s : Registry) : Nat :=
  match mod with
  | none => 0
  | some raw => s.gPendingTasks.countIf fun _ task => task.mod == raw

def schedulerOnRustModGone (mod : ModId) (s : Registry) : Registry :=
  { s with gPendingTasks := s.gPendingTasks.eraseIf fun _ task => task.mod == mod }

/-! ## What each operation can do -/

theorem submit_cases (live : ModId → Bool) (mod : Option ModId) (cb : Option Ptr) (user : Ptr)
    (delayMs : Option UInt64) (s : Registry) :
    submit live mod cb user delayMs s = (0, none, s) ∨
    ∃ raw fn, mod = some raw ∧ cb = some fn ∧ live raw = true ∧
      submit live mod cb user delayMs s =
        (s.gNextTaskId, some ⟨raw, s.gNextTaskId, delayMs⟩, (registerTask raw ⟨fn, user⟩ s).2) := by
  cases cb with
  | none => exact .inl rfl
  | some fn =>
    cases mod with
    | none => exact .inl rfl
    | some raw =>
      simp only [submit]
      split
      · exact .inl rfl
      · next h => exact .inr ⟨raw, fn, rfl, rfl, by simpa using h, rfl⟩

/-- Apart from a submission, no operation enters a task. -/
theorem lookup_runTask {live enabled : ModId → Bool} {weakMod : ModId} {id : Nat} {s : Registry} {i : Nat}
    {task : PendingTask} (h : (runTask live enabled weakMod id s).2.gPendingTasks.lookup i = some task) :
    s.gPendingTasks.lookup i = some task := by
  unfold runTask at h
  split at h
  · exact h
  · rw [AList.lookup_erase_eq] at h
    split at h
    · cases h
    · exact h

theorem lookup_cancel {mod : Option ModId} {taskId : Nat} {s : Registry} {i : Nat} {task : PendingTask}
    (h : (api_schedule_cancel mod taskId s).2.gPendingTasks.lookup i = some task) :
    s.gPendingTasks.lookup i = some task := by
  unfold api_schedule_cancel at h
  split at h
  · exact h
  · split at h
    · exact h
    · split at h
      · exact h
      · split at h
        · exact h
        · rw [AList.lookup_erase_eq] at h
          split at h
          · cases h
          · exact h

theorem next_runTask (live enabled : ModId → Bool) (weakMod : ModId) (id : Nat) (s : Registry) :
    (runTask live enabled weakMod id s).2.gNextTaskId = s.gNextTaskId := by
  unfold runTask
  split <;> rfl

theorem next_cancel (mod : Option ModId) (taskId : Nat) (s : Registry) :
    (api_schedule_cancel mod taskId s).2.gNextTaskId = s.gNextTaskId := by
  unfold api_schedule_cancel
  split
  · rfl
  · split
    · rfl
    · split
      · rfl
      · split <;> rfl

/-- The sweep leaves exactly the tasks of other mods. -/
theorem lookup_schedulerOnRustModGone (mod : ModId) (s : Registry) (id : Nat) (task : PendingTask) :
    (schedulerOnRustModGone mod s).gPendingTasks.lookup id = some task ↔
      s.gPendingTasks.lookup id = some task ∧ task.mod ≠ mod := by
  simp [schedulerOnRustModGone, AList.lookup_eraseIf_eq_some]

/-- A mod that is gone has no task pending. -/
theorem pending_count_schedulerOnRustModGone (mod : ModId) (s : Registry) :
    api_schedule_pending_count (some mod) (schedulerOnRustModGone mod s) = 0 := by
  simp only [api_schedule_pending_count, AList.countIf_eq_zero]
  intro id task hl
  simpa using ((lookup_schedulerOnRustModGone mod s id task).mp hl).2

end Scheduler
