import Mathlib.Data.List.Infix
import LeviRsLoader.RustMod

/-!
# Bridge-hook events

The registry of `HookEvents.cpp`: the event definitions registered at load
time, each with its subscribers in order. Subscription ids come from the
counter shared with the ordinary event listeners.
-/
namespace HookEvents

open LeviRs

structure HookSub where
  mod : ModId
  cb : Callback
  id : Nat
  deriving DecidableEq, Repr

structure HookEventDef where
  name : String
  installed : Bool
  subs : List HookSub
  deriving Repr

structure Registry where
  table : List HookEventDef
  nextListenerId : Nat
  deriving Repr

/-- The table as the registrars fill it. -/
def Registry.initial (names : List String) : Registry := ⟨names.map fun name => ⟨name, false, []⟩, 1⟩

/-- `eventId.find(def->name) != npos` -/
def matchesName (eventId : String) (d : HookEventDef) : Bool := decide (d.name.toList <:+: eventId.toList)

/-- The table with one more subscriber under the first definition that matches. -/
def addSub (eventId : String) (sub : HookSub) : List HookEventDef → Option (List HookEventDef)
  | [] => none
  | d :: ds =>
    if matchesName eventId d then some ({ d with installed := true, subs := d.subs ++ [sub] } :: ds)
    else (addSub eventId sub ds).map (d :: ·)

/-- The handle, `none` when no definition matches. -/
def hookEventSubscribe (mod : ModId) (eventId : String) (cb : Callback) (r : Registry) :
    Option Nat × Registry :=
  match addSub eventId ⟨mod, cb, r.nextListenerId⟩ r.table with
  | none => (none, r)
  | some table => (some r.nextListenerId, ⟨table, r.nextListenerId + 1⟩)

/-- The table without the first subscription of that id and mod. -/
def eraseSub (mod : ModId) (wanted : Nat) : List HookEventDef → Option (List HookEventDef)
  | [] => none
  | d :: ds =>
    if d.subs.any fun s => s.id == wanted && s.mod == mod then
      some ({ d with subs := d.subs.eraseP fun s => s.id == wanted && s.mod == mod } :: ds)
    else (eraseSub mod wanted ds).map (d :: ·)

def hookEventUnsubscribe (mod : ModId) (wanted : Nat) (r : Registry) : Bool × Registry :=
  if wanted = 0 then (false, r)
  else match eraseSub mod wanted r.table with
    | none => (false, r)
    | some table => (true, { r with table := table })

def hookEventDropMod (mod : ModId) (r : Registry) : Registry :=
  { r with table := r.table.map fun d => { d with subs := d.subs.filter fun s => s.mod != mod } }

/-- A subscription of some definition. -/
def Registry.Listed (r : Registry) (s : HookSub) : Prop := ∃ d ∈ r.table, s ∈ d.subs

/-! ## What each operation can do -/

/-- A step lists one new subscription at most, under the next id. -/
structure Effect (r r' : Registry) : Prop where
  next_le : r.nextListenerId ≤ r'.nextListenerId
  listed : ∀ s, r'.Listed s → r.Listed s ∨ (s.id = r.nextListenerId ∧ s.id < r'.nextListenerId)

theorem Effect.refl (r : Registry) : Effect r r := ⟨Nat.le_refl _, fun _ hs => .inl hs⟩

theorem addSub_listed {eventId : String} {sub : HookSub} {table table' : List HookEventDef}
    (h : addSub eventId sub table = some table') {s : HookSub} (hs : ∃ d ∈ table', s ∈ d.subs) :
    (∃ d ∈ table, s ∈ d.subs) ∨ s = sub := by
  induction table generalizing table' with
  | nil => cases h
  | cons d ds ih =>
    simp only [addSub] at h
    split at h
    · cases h
      simp only [List.exists_mem_cons_iff, List.mem_append, List.mem_singleton] at hs ⊢
      rcases hs with (hs | rfl) | hs
      · exact .inl (.inl hs)
      · exact .inr rfl
      · exact .inl (.inr hs)
    · obtain ⟨ds', hds, rfl⟩ := Option.map_eq_some_iff.mp h
      simp only [List.exists_mem_cons_iff] at hs ⊢
      rcases hs with hs | hs
      · exact .inl (.inl hs)
      · rcases ih hds hs with hs | hs
        · exact .inl (.inr hs)
        · exact .inr hs

theorem eraseSub_listed {mod : ModId} {wanted : Nat} {table table' : List HookEventDef}
    (h : eraseSub mod wanted table = some table') {s : HookSub} (hs : ∃ d ∈ table', s ∈ d.subs) :
    ∃ d ∈ table, s ∈ d.subs := by
  induction table generalizing table' with
  | nil => cases h
  | cons d ds ih =>
    simp only [eraseSub] at h
    split at h
    · cases h
      simp only [List.exists_mem_cons_iff] at hs ⊢
      exact hs.imp_left fun hs => List.mem_of_mem_eraseP hs
    · obtain ⟨ds', hds, rfl⟩ := Option.map_eq_some_iff.mp h
      simp only [List.exists_mem_cons_iff] at hs ⊢
      exact hs.imp_right fun hs => ih hds hs

theorem hookEventSubscribe_effect (mod : ModId) (eventId : String) (cb : Callback) (r : Registry) :
    Effect r (hookEventSubscribe mod eventId cb r).2 := by
  unfold hookEventSubscribe
  split
  · exact .refl r
  · next table h =>
    refine ⟨Nat.le_succ _, fun s hs => ?_⟩
    rcases addSub_listed h hs with hs | rfl
    · exact .inl hs
    · exact .inr ⟨rfl, Nat.lt_succ_self _⟩

theorem hookEventUnsubscribe_effect (mod : ModId) (wanted : Nat) (r : Registry) :
    Effect r (hookEventUnsubscribe mod wanted r).2 := by
  unfold hookEventUnsubscribe
  split
  · exact .refl r
  · split
    · exact .refl r
    · next table h => exact ⟨Nat.le_refl _, fun s hs => .inl (eraseSub_listed h hs)⟩

theorem hookEventDropMod_listed (mod : ModId) (r : Registry) (s : HookSub) :
    (hookEventDropMod mod r).Listed s ↔ r.Listed s ∧ s.mod ≠ mod := by
  simp only [Registry.Listed, hookEventDropMod, List.mem_map, exists_exists_and_eq_and, List.mem_filter, bne_iff_ne]
  constructor
  · intro ⟨d, hd, hs, hm⟩
    exact ⟨⟨d, hd, hs⟩, hm⟩
  · intro ⟨⟨d, hd, hs⟩, hm⟩
    exact ⟨d, hd, hs, hm⟩

theorem hookEventDropMod_effect (mod : ModId) (r : Registry) : Effect r (hookEventDropMod mod r) :=
  ⟨Nat.le_refl _, fun s hs => .inl ((hookEventDropMod_listed mod r s).mp hs).1⟩

theorem initial_not_listed (names : List String) (s : HookSub) : ¬(Registry.initial names).Listed s := by
  simp [Registry.Listed, Registry.initial]

end HookEvents
