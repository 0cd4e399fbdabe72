import Mathlib.Data.Int.Basic
import Mathlib.Logic.Function.Basic

/-!
# Changes of the game mode

`PlayerChangeGameModeHook` asks its subscribers before a player's mode is set. What they set themselves
while they are asked comes through the same hook, which lets it pass.
-/
namespace GameModes

variable {P : Type} [DecidableEq P]

/-- A call of `setPlayerGameType` that reached the engine; `inside` is whether somebody was being asked. -/
structure Applied (P : Type) where
  player : P
  mode : Int32
  inside : Bool

structure Question (P : Type) where
  player : P
  old : Int32
  new : Int32

structure State (P : Type) where
  mode : P → Int32
  gDispatching : Bool
  asked : List (Question P)
  applied : List (Applied P)

def State.initial (mode : P → Int32) : State P := ⟨mode, false, [], []⟩

def State.origin (player : P) (gameType : Int32) (s : State P) : State P :=
  { s with
    mode := Function.update s.mode player gameType
    applied := s.applied ++ [⟨player, gameType, s.gDispatching⟩] }

@[simp] theorem mode_origin (player : P) (gameType : Int32) (s : State P) :
    (s.origin player gameType).mode = Function.update s.mode player gameType := rfl

/-- The flag goes up for a question, and `Reset` takes it down again. -/
def State.enter (q : Question P) (s : State P) : State P := { s with gDispatching := true, asked := s.asked ++ [q] }

def State.leave (s : State P) : State P := { s with gDispatching := false }

/-- The hook; `dispatch` is what the subscribers do, and whether one of them cancels. -/
def setPlayerGameType (player : P) (gameType : Int32) (live : Bool) (dispatch : State P → State P × Bool)
    (s : State P) : State P :=
  if !live || s.gDispatching then s.origin player gameType
  else if s.mode player = gameType then s.origin player gameType
  else
    let r := dispatch (s.enter ⟨player, s.mode player, gameType⟩)
    if r.2 then r.1.leave else r.1.leave.origin player gameType

/-- Calls one after the other. With each of them: whether the event has subscribers, what they call when they
are asked, and their answer. -/
inductive Changes (P : Type) where
  | done
  | set (player : P) (gameType : Int32) (live : Bool) (callbacks : Changes P) (cancelled : Bool) (next : Changes P)

def run : Changes P → State P → State P
  | .done, s => s
  | .set player gameType live callbacks cancelled next, s =>
    run next (setPlayerGameType player gameType live (fun s => (run callbacks s, cancelled)) s)

/-- The calls of the outermost level. -/
def Changes.length : Changes P → Nat
  | .done => 0
  | .set _ _ _ _ _ next => next.length + 1

/-- There is a subscriber, and it refuses what is not allowed and nothing else. What it sets itself is its
own affair. -/
def Changes.Enforced (allowed : P → Int32 → Prop) : Changes P → Prop
  | .done => True
  | .set player gameType live _ cancelled next =>
    live = true ∧ (cancelled = true ↔ ¬allowed player gameType) ∧ next.Enforced allowed

/-! ## One call -/

section Call

variable {player : P} {gameType : Int32} {live : Bool} {dispatch : State P → State P × Bool} {s : State P}

/-- While somebody is being asked, every call passes. -/
theorem set_dispatching (h : s.gDispatching = true) :
    setPlayerGameType player gameType live dispatch s = s.origin player gameType := by
  rw [setPlayerGameType, h, Bool.or_true, if_pos rfl]

/-- Otherwise a call passes, or asks once and then passes or is dropped. -/
theorem set_cases (h : s.gDispatching = false) :
    setPlayerGameType player gameType live dispatch s = s.origin player gameType
        ∧ (live = true → s.mode player = gameType)
      ∨ ∃ r, r = dispatch (s.enter ⟨player, s.mode player, gameType⟩)
        ∧ setPlayerGameType player gameType live dispatch s
          = if r.2 then r.1.leave else r.1.leave.origin player gameType := by
  unfold setPlayerGameType
  rw [h, Bool.or_false]
  cases live with
  | false => exact .inl ⟨rfl, by simp⟩
  | true =>
    rw [if_neg (by decide)]
    by_cases hsame : s.mode player = gameType
    · rw [if_pos hsame]
      exact .inl ⟨rfl, fun _ => hsame⟩
    · rw [if_neg hsame]
      exact .inr ⟨_, rfl, rfl⟩

end Call

/-! ## While somebody is asked -/

section Dispatching

variable {s : State P}

/-- Nobody else is asked meanwhile. -/
theorem run_dispatching (cs : Changes P) (h : s.gDispatching = true) :
    (run cs s).gDispatching = true ∧ (run cs s).asked = s.asked := by
  induction cs generalizing s with
  | done => exact ⟨h, rfl⟩
  | set player gameType live callbacks cancelled next _ ih =>
    rw [run, set_dispatching h]
    exact ih h

/-- What has reached the engine is not taken back. -/
theorem applied_run (cs : Changes P) (s : State P) : s.applied <+: (run cs s).applied := by
  induction cs generalizing s with
  | done => exact List.prefix_rfl
  | set player gameType live callbacks cancelled next ihc ihn =>
    have horigin (t : State P) : t.applied <+: (t.origin player gameType).applied := List.prefix_append ..
    refine List.IsPrefix.trans ?_ (ihn _)
    cases hd : s.gDispatching with
    | true =>
      rw [set_dispatching hd]
      exact horigin s
    | false =>
      rcases set_cases hd with ⟨hset, -⟩ | ⟨r, rfl, hset⟩
      · rw [hset]
        exact horigin s
      · rw [hset]
        have hcalled := ihc (s.enter ⟨player, s.mode player, gameType⟩)
        split
        · exact hcalled
        · exact hcalled.trans (horigin (run callbacks (s.enter _)).leave)

/-- Outside a dispatch the flag comes down again, and a call asks at most once, whatever is called from it. -/
theorem run_outside (cs : Changes P) (h : s.gDispatching = false) :
    (run cs s).gDispatching = false ∧ (run cs s).asked.length ≤ s.asked.length + cs.length := by
  induction cs generalizing s with
  | done => exact ⟨h, Nat.le_refl _⟩
  | set player gameType live callbacks cancelled next _ ih =>
    rw [run]
    generalize hs' : setPlayerGameType player gameType live (fun s => (run callbacks s, cancelled)) s = s'
    have hset : s'.gDispatching = false ∧ s'.asked.length ≤ s.asked.length + 1 := by
      rcases set_cases h with ⟨hset, -⟩ | ⟨r, rfl, hset⟩
      · rw [← hs', hset]
        exact ⟨h, Nat.le_succ _⟩
      · have hasked := (run_dispatching callbacks (s := s.enter ⟨player, s.mode player, gameType⟩) rfl).2
        have hlength : (run callbacks (s.enter ⟨player, s.mode player, gameType⟩)).asked.length
            = s.asked.length + 1 := by
          rw [hasked, State.enter, List.length_append, List.length_singleton]
        rw [← hs', hset]
        split
        · exact ⟨rfl, Nat.le_of_eq hlength⟩
        · exact ⟨rfl, Nat.le_of_eq hlength⟩
    obtain ⟨hflag, hcount⟩ := ih hset.1
    refine ⟨hflag, Nat.le_trans hcount ?_⟩
    rw [Changes.length]
    omega

end Dispatching

/-! ## What a guard keeps -/

section Kept

variable {allowed : P → Int32 → Prop} {s : State P}

/-- Every player is in an allowed mode, and was never put into another. -/
structure Kept (allowed : P → Int32 → Prop) (s : State P) : Prop where
  modes : ∀ p, allowed p (s.mode p)
  applied : ∀ e ∈ s.applied, allowed e.player e.mode

theorem Kept.origin (h : Kept allowed s) {player : P} {gameType : Int32} (ha : allowed player gameType) :
    Kept allowed (s.origin player gameType) where
  modes p := by
    by_cases hp : p = player
    · subst hp
      rw [mode_origin, Function.update_self]
      exact ha
    · rw [mode_origin, Function.update_of_ne hp]
      exact h.modes p
  applied e he := by
    rcases List.mem_append.mp he with he | he
    · exact h.applied e he
    · cases List.mem_singleton.mp he
      exact ha

/-- Whoever is asked sets what they like: it is kept if it is allowed. -/
theorem kept_dispatching (cs : Changes P) (h : Kept allowed s) (hd : s.gDispatching = true)
    (hin : ∀ e ∈ (run cs s).applied, e.inside = true → allowed e.player e.mode) : Kept allowed (run cs s) := by
  induction cs generalizing s with
  | done => exact h
  | set player gameType live callbacks cancelled next _ ih =>
    rw [run, set_dispatching hd] at hin ⊢
    have hlast : (⟨player, gameType, s.gDispatching⟩ : Applied P) ∈ (s.origin player gameType).applied :=
      List.mem_append_right _ List.mem_cons_self
    exact ih (h.origin (hin _ ((applied_run next _).subset hlast) hd)) hd hin

theorem kept_run (cs : Changes P) (h : Kept allowed s) (hd : s.gDispatching = false) (he : cs.Enforced allowed)
    (hin : ∀ e ∈ (run cs s).applied, e.inside = true → allowed e.player e.mode) : Kept allowed (run cs s) := by
  induction cs generalizing s with
  | done => exact h
  | set player gameType live callbacks cancelled next _ ih =>
    obtain ⟨hlive, hverdict, hnext⟩ := he
    have hflag : (setPlayerGameType player gameType live (fun s => (run callbacks s, cancelled)) s).gDispatching
        = false := (run_outside (.set player gameType live callbacks cancelled .done) hd).1
    refine ih ?_ hflag hnext hin
    have hin' : ∀ e ∈ (setPlayerGameType player gameType live (fun s => (run callbacks s, cancelled)) s).applied,
        e.inside = true → allowed e.player e.mode := fun e he => hin e ((applied_run next _).subset he)
    rcases set_cases hd with ⟨hset, hsame⟩ | ⟨r, rfl, hset⟩
    · rw [hset]
      -- it passes unasked because nothing changes
      refine h.origin ?_
      rw [← hsame hlive]
      exact h.modes player
    · rw [hset] at hin' ⊢
      have hcalled : ∀ e ∈ (run callbacks (s.enter ⟨player, s.mode player, gameType⟩)).applied,
          e.inside = true → allowed e.player e.mode := by
        intro e he
        refine hin' e ?_
        split
        · exact he
        · exact List.mem_append_left _ he
      have hkept := kept_dispatching callbacks (s := s.enter ⟨player, s.mode player, gameType⟩)
        ⟨h.modes, h.applied⟩ rfl hcalled
      have hleft : Kept allowed (run callbacks (s.enter ⟨player, s.mode player, gameType⟩)).leave :=
        ⟨hkept.modes, hkept.applied⟩
      split
      · exact hleft
      · next hpassed => exact hleft.origin (not_not.mp fun hno => hpassed (hverdict.mpr hno))

end Kept

/-! ## An instance -/

end GameModes
