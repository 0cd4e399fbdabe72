import LeviRsLoader.RustMod

/-!
# Form tickets

`gPendingForms` of `Forms.cpp`: the engine's response closure holds a weak
pointer and a ticket, and the callback stays in the table until it is answered.
-/
namespace Forms

open LeviRs

structure PendingForm where
  mod : ModId
  cb : Callback
  deriving DecidableEq, Repr

structure Registry where
  gPendingForms : Table Nat PendingForm
  gNextTicket : Nat

def Registry.initial : Registry := ⟨∅, 1⟩

def registerTicket (mod : ModId) (cb : Callback) (s : Registry) : Nat × Registry :=
  (s.gNextTicket, ⟨s.gPendingForms.insert s.gNextTicket ⟨mod, cb⟩, s.gNextTicket + 1⟩)

/-- Take the ticket and give the callback to run, if its mod is alive and enabled. -/
def completeTicket (live enabled : ModId → Bool) (weakMod : ModId) (ticket : Nat) (s : Registry) :
    Option Callback × Registry :=
  match s.gPendingForms.lookup ticket with
  | none => (none, s)
  | some pending =>
    (if live weakMod && weakMod == pending.mod && enabled weakMod then some pending.cb else none,
      { s with gPendingForms := s.gPendingForms.erase ticket })

/-- Whether the form went out. The engine throws (`none`) or answers; a simple
or a custom form does not look at the answer. -/
def sent (kind : Int32) (engine : Option Bool) : Bool :=
  match engine with
  | none => false
  | some ok => if kind = 0 ∨ kind = 1 then true else if kind = 2 then ok else false

/-- `player` and `spec`: the player resolves, and the form's text parses. -/
def api_form_send (live : ModId → Bool) (mod : Option ModId) (player spec : Bool) (kind : Int32)
    (engine : Option Bool) (cb : Option Ptr) (user : Ptr) (s : Registry) : Bool × Registry :=
  match mod, cb with
  | some m, some fn =>
    if !player then (false, s)
    else if !spec then (false, s)
    else if !live m then (false, s)
    else
      let (ticket, s) := registerTicket m ⟨fn, user⟩ s
      if sent kind engine then (true, s) else (false, { s with gPendingForms := s.gPendingForms.erase ticket })
  | _, _ => (false, s)

def formsOnRustModGone (mod : ModId) (s : Registry) : Registry :=
  { s with gPendingForms := s.gPendingForms.eraseIf fun _ pending => pending.mod == mod }

/-! ## What each operation can do -/

/-- A send leaves a ticket in the table exactly when it reports success. -/
theorem api_form_send_cases (live : ModId → Bool) (mod : Option ModId) (player spec : Bool) (kind : Int32)
    (engine : Option Bool) (cb : Option Ptr) (user : Ptr) (s : Registry) :
    ((api_form_send live mod player spec kind engine cb user s).1 = false ∧
      ∀ t pending, (api_form_send live mod player spec kind engine cb user s).2.gPendingForms.lookup t =
        some pending → s.gPendingForms.lookup t = some pending) ∨
    ∃ m fn, mod = some m ∧ cb = some fn ∧ live m = true ∧
      api_form_send live mod player spec kind engine cb user s = (true, (registerTicket m ⟨fn, user⟩ s).2) := by
  cases mod with
  | none => exact .inl ⟨rfl, fun _ _ h => h⟩
  | some m =>
    cases cb with
    | none => exact .inl ⟨rfl, fun _ _ h => h⟩
    | some fn =>
      simp only [api_form_send]
      split_ifs with h₁ h₂ h₃ h₄
      · exact .inl ⟨rfl, fun _ _ h => h⟩
      · exact .inl ⟨rfl, fun _ _ h => h⟩
      · exact .inl ⟨rfl, fun _ _ h => h⟩
      · exact .inr ⟨m, fn, rfl, rfl, by simpa using h₃, rfl⟩
      · refine .inl ⟨rfl, fun t pending h => ?_⟩
        simp only [registerTicket, AList.lookup_erase_eq, AList.lookup_insert_eq] at h
        split at h
        · cases h
        · exact h

theorem lookup_completeTicket {live enabled : ModId → Bool} {weakMod : ModId} {ticket : Nat} {s : Registry}
    {t : Nat} {pending : PendingForm}
    (h : (completeTicket live enabled weakMod ticket s).2.gPendingForms.lookup t = some pending) :
    s.gPendingForms.lookup t = some pending := by
  unfold completeTicket at h
  split at h
  · exact h
  · rw [AList.lookup_erase_eq] at h
    split at h
    · cases h
    · exact h

/-- The sweep leaves exactly the tickets of other mods. -/
theorem lookup_formsOnRustModGone (mod : ModId) (s : Registry) (t : Nat) (pending : PendingForm) :
    (formsOnRustModGone mod s).gPendingForms.lookup t = some pending ↔
      s.gPendingForms.lookup t = some pending ∧ pending.mod ≠ mod := by
  simp [formsOnRustModGone, AList.lookup_eraseIf_eq_some]

end Forms
