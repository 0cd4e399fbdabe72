import LeviRsLoader.HookPositions
import LeviRsLoader.Lib.Runs

/-!
# Launching a projectile

The five detours of `ProjectileEvent.cpp` and the flag they share. A launch is a
tree of calls: the origin of a hooked function may call other hooked functions,
any number of times and to any depth. `gDispatching` is set while the
subscribers are asked and is clear again before the origin runs.
-/
namespace Projectile

open HookPositions HookCancel

/-- The two names of the trident the engine knows. -/
structure TridentNames where
  rendererId : List UInt8
  canonicalName : List UInt8

inductive Spawner where
  | player (p : Player)
  | other

/-- A call of a hooked function, with what its hook reads of the arguments. -/
inductive Hooked where
  | shootProjectile (dim : Int32) (aimPos : Vec3) (player : Option Player)
  | shootProjectiles (stackType : Option (List UInt8)) (player : Option Player)
  | releaseUsing (player : Option Player)
  | shootFirework (typeName : List UInt8) (player : Player)
  | spawnProjectile (dim : Int32) (id : List UInt8) (spawner : Option Spawner) (position : Vec3)

/-- The arguments of `refuseLaunch`. -/
structure Question where
  player : Player
  projectile : List UInt8
  at_ : Vec3
  dim : Int32

/-! ## What each hook would ask -/

def ShootProjectileHook (dim : Int32) (aimPos : Vec3) (player : Option Player) : Option Question :=
  player.map fun p => ⟨p, [], aimPos, dim⟩

/-- A null stack has no type name. -/
def ShooterReleaseHook (stackType : Option (List UInt8)) (player : Option Player) : Option Question :=
  player.map fun p => ⟨p, stackType.getD [], p.position, p.dimensionId⟩

def TridentReleaseHook (names : TridentNames) (player : Option Player) : Option Question :=
  player.map fun p => ⟨p, names.rendererId, p.position, p.dimensionId⟩

def CrossbowFireworkHook (typeName : List UInt8) (player : Player) : Option Question :=
  some ⟨player, typeName, player.position, player.dimensionId⟩

/-- Only a player's projectile is asked about, and a trident has been asked about already. -/
def SpawnProjectileHook (names : TridentNames) (dim : Int32) (id : List UInt8) (spawner : Option Spawner)
    (position : Vec3) : Option Question :=
  match spawner with
  | some (.player p) => if id = names.canonicalName then none else some ⟨p, id, position, dim⟩
  | some .other => none
  | none => none

def Hooked.question (names : TridentNames) : Hooked → Option Question
  | .shootProjectile dim aimPos player => ShootProjectileHook dim aimPos player
  | .shootProjectiles stackType player => ShooterReleaseHook stackType player
  | .releaseUsing player => TridentReleaseHook names player
  | .shootFirework typeName player => CrossbowFireworkHook typeName player
  | .spawnProjectile dim id spawner position => SpawnProjectileHook names dim id spawner position

/-! ## Call trees -/

/-- The calls an origin makes, in order. Each comes with the subscribers at that moment, the calls of its own
origin, and what follows it, which may depend on whether it was refused. -/
inductive Calls where
  | done
  | call (hooked : Hooked) (subs : List Handler) (origin : Calls) (next : Bool → Calls)

inductive Event where
  | asked (snbt : List UInt8) (refused : Bool)
  | origin (hooked : Hooked)

structure State where
  gDispatching : Bool
  trace : List Event

def State.log (s : State) (e : Event) : State := { s with trace := s.trace ++ [e] }

variable (F : Nbt.Floats) (names : TridentNames)

def Question.snbt (q : Question) : List UInt8 := projectileSnbt q.player q.projectile q.at_ q.dim

/-- The guard's constructor, the dispatch, the guard's destructor. -/
def refuseLaunch (q : Question) (subs : List Handler) (s : State) : Bool × State :=
  let s := { s with gDispatching := true }
  let refused := dispatchHookEventCancellable F subs q.snbt
  let s := s.log (.asked q.snbt refused)
  (refused, { s with gDispatching := false })

/-- The head of every hook: nobody is asked without a subscriber, during a dispatch or without a player. -/
def asks (hooked : Hooked) (subs : List Handler) (gDispatching : Bool) : Option Question :=
  if subs.isEmpty || gDispatching then none else hooked.question names

/-- The calls of an origin, each through its hook. -/
def run : Calls → State → State
  | .done, s => s
  | .call hooked subs origin next, s =>
    match asks names hooked subs s.gDispatching with
    | none => run (next false) (run origin (s.log (.origin hooked)))
    | some q =>
      let r := refuseLaunch F q subs s
      if r.1 then run (next true) r.2
      else run (next false) (run origin (r.2.log (.origin hooked)))

/-- A launch: its outermost hook, called by a player and with somebody to ask. -/
structure Launch where
  hooked : Hooked
  question : Question
  reported : hooked.question names = some question
  subs : List Handler
  live : subs ≠ []
  origin : Calls

variable {names}

def Launch.calls (l : Launch names) : Calls := .call l.hooked l.subs l.origin fun _ => .done

/-- The answer the outermost hook gets. -/
def Launch.refused (l : Launch names) : Bool := dispatchHookEventCancellable F l.subs l.question.snbt

def launch (s : State) (l : Launch names) : State := run F names l.calls s

/-! ## One decision -/

/-- Every hook passes: only origins run. -/
def passed : Calls → List Event
  | .done => []
  | .call hooked _ origin next => .origin hooked :: passed origin ++ passed (next false)

/-- One question at the outermost hook; refused, nothing else happens, allowed, every inner hook passes. -/
def oneDecision (l : Launch names) : List Event :=
  .asked l.question.snbt (l.refused F) ::
    if l.refused F then [] else .origin l.hooked :: passed l.origin

variable (names)

/-- None of the calls would ask anybody. -/
def Silent : Calls → Prop
  | .done => True
  | .call hooked subs origin next => asks names hooked subs false = none ∧ Silent origin ∧ Silent (next false)

def Event.isAsked : Event → Bool
  | .asked _ _ => true
  | .origin _ => false

theorem passed_not_asked (c : Calls) : ∀ e ∈ passed c, e.isAsked = false := by
  induction c with
  | done => simp [passed]
  | call hooked subs origin next ihOrigin ihNext =>
    intro e he
    simp only [passed, List.mem_append, List.mem_cons] at he
    rcases he with (rfl | he) | he
    · rfl
    · exact ihOrigin e he
    · exact ihNext false e he

/-- What the calls of an origin add to the trace of a state in which nobody is being asked. -/
structure Adds (c : Calls) (tr : List Event) (ev : List Event) : Prop where
  run : run F names c ⟨false, tr⟩ = ⟨false, tr ++ ev⟩
  silent : Silent names c → ev = passed c
  asked : ¬Silent names c → ∃ e ∈ ev, e.isAsked = true

theorem run_adds (c : Calls) (tr : List Event) : ∃ ev, Adds F names c tr ev := by
  induction c generalizing tr with
  | done => exact ⟨[], by simp [run], fun _ => rfl, fun h => absurd trivial h⟩
  | call hooked subs origin next ihOrigin ihNext =>
    cases hq : asks names hooked subs false with
    | none =>
      obtain ⟨evO, hO⟩ := ihOrigin (tr ++ [.origin hooked])
      obtain ⟨evN, hN⟩ := ihNext false (tr ++ [.origin hooked] ++ evO)
      refine ⟨.origin hooked :: evO ++ evN, ?_, ?_, ?_⟩
      · rw [run, hq]
        simp only [State.log, hO.run, hN.run]
        simp
      · rintro ⟨-, hsO, hsN⟩
        rw [hO.silent hsO, hN.silent hsN, passed]
      · intro hn
        by_cases hsO : Silent names origin
        · obtain ⟨e, he, ha⟩ := hN.asked fun hsN => hn ⟨hq, hsO, hsN⟩
          exact ⟨e, List.mem_append_right _ he, ha⟩
        · obtain ⟨e, he, ha⟩ := hO.asked hsO
          exact ⟨e, List.mem_append_left _ (.tail _ he), ha⟩
    | some q =>
      have hne : ¬Silent names (.call hooked subs origin next) := by
        rintro ⟨hnone, -⟩
        rw [hq] at hnone
        cases hnone
      generalize hr : dispatchHookEventCancellable F subs q.snbt = refused
      cases refused with
      | true =>
        obtain ⟨ev, hev⟩ := ihNext true (tr ++ [.asked q.snbt true])
        refine ⟨.asked q.snbt true :: ev, ?_, fun hs => absurd hs hne, fun _ => ⟨_, List.mem_cons_self, rfl⟩⟩
        rw [run, hq]
        simp only [refuseLaunch, State.log, hr, if_true, hev.run]
        simp
      | false =>
        obtain ⟨evO, hO⟩ := ihOrigin (tr ++ [.asked q.snbt false] ++ [.origin hooked])
        obtain ⟨evN, hN⟩ := ihNext false (tr ++ [.asked q.snbt false] ++ [.origin hooked] ++ evO)
        refine ⟨.asked q.snbt false :: .origin hooked :: evO ++ evN, ?_, fun hs => absurd hs hne,
          fun _ => ⟨_, List.mem_append_left _ List.mem_cons_self, rfl⟩⟩
        rw [run, hq]
        simp only [refuseLaunch, State.log, hr, Bool.false_eq_true, if_false, hO.run, hN.run]
        simp

variable {names}

theorem Launch.asks (l : Launch names) : Projectile.asks names l.hooked l.subs false = some l.question := by
  have hempty : l.subs.isEmpty = false := List.isEmpty_eq_false_iff.mpr l.live
  simp [Projectile.asks, hempty, l.reported]

/-- The question at the outermost hook, and then what the origin's calls add. -/
theorem launch_eq (l : Launch names) (tr : List Event) :
    ∃ ev, Adds F names l.origin (tr ++ [.asked l.question.snbt false] ++ [.origin l.hooked]) ev ∧
      launch F ⟨false, tr⟩ l = ⟨false, tr ++ .asked l.question.snbt (l.refused F) ::
        if l.refused F then [] else .origin l.hooked :: ev⟩ := by
  obtain ⟨ev, hev⟩ := run_adds F names l.origin (tr ++ [.asked l.question.snbt false] ++ [.origin l.hooked])
  refine ⟨ev, hev, ?_⟩
  rw [launch, Launch.calls, run, l.asks]
  cases hr : l.refused F with
  | true =>
    have hr' : dispatchHookEventCancellable F l.subs l.question.snbt = true := hr
    simp [refuseLaunch, State.log, hr', run]
  | false =>
    simp only [refuseLaunch, State.log, show dispatchHookEventCancellable F l.subs l.question.snbt = false from hr,
      Bool.false_eq_true, if_false, hev.run, run]
    simp

theorem launch_decision_iff (l : Launch names) (tr : List Event) :
    (launch F ⟨false, tr⟩ l).trace = tr ++ oneDecision F l ↔ l.refused F = true ∨ Silent names l.origin := by
  obtain ⟨ev, hev, heq⟩ := launch_eq F l tr
  rw [heq, oneDecision]
  cases hr : l.refused F with
  | true => simp
  | false =>
    simp only [Bool.false_eq_true, if_false, List.append_cancel_left_eq, List.cons.injEq, true_and, false_or]
    constructor
    · intro h
      by_contra hn
      obtain ⟨e, he, ha⟩ := hev.asked hn
      rw [h] at he
      rw [passed_not_asked l.origin e he] at ha
      cases ha
    · exact hev.silent

theorem launch_gDispatching (l : Launch names) {s : State} (h : s.gDispatching = false) :
    (launch F s l).gDispatching = false := by
  obtain ⟨flag, tr⟩ := s
  obtain rfl : flag = false := h
  obtain ⟨ev, -, heq⟩ := launch_eq F l tr
  rw [heq]

/-- In a sequence of launches each is decided once, at its outermost hook, exactly when each is refused
there or has only silent calls inside. -/
theorem launches_decided_once_iff (launches : List (Launch names)) :
    (∀ pre l suf, launches = pre ++ l :: suf →
      (launch F (pre.foldl (launch F) ⟨false, []⟩) l).trace =
        (pre.foldl (launch F) ⟨false, []⟩).trace ++ oneDecision F l) ↔
      ∀ l ∈ launches, l.refused F = true ∨ Silent names l.origin := by
  have hrun := Runs.foldl_forall_iff_of_kept (f := launch F) (l := launches) (s := ⟨false, []⟩)
    (fun s => s.gDispatching = false) (fun s l => (launch F s l).trace = s.trace ++ oneDecision F l)
    (fun _ l => l.refused F = true ∨ Silent names l.origin) rfl
    (fun s l hs => by
      obtain ⟨flag, tr⟩ := s
      obtain rfl : flag = false := hs
      exact launch_decision_iff F l tr)
    (fun s l hs _ => launch_gDispatching F l hs)
  rw [hrun]
  constructor
  · intro h l hl
    obtain ⟨pre, suf, rfl⟩ := List.append_of_mem hl
    exact h pre l suf rfl
  · rintro h pre l suf rfl
    exact h l (by simp)

def observer : Handler := fun _ => ⟨[], false⟩

theorem observer_allows (snbt : List UInt8) : dispatchHookEventCancellable F [observer] snbt = false := by
  rw [Bool.eq_false_iff, Ne, dispatch_iff]
  rintro ⟨sub, hsub, reply, hreply, -⟩
  obtain rfl := List.mem_singleton.mp hsub
  cases hreply

def archer : Player := ⟨⟨[], [], []⟩, ⟨0, 64, 0⟩, 0⟩

/-- A bow release whose origin shoots one arrow. -/
def bowRelease : Launch ⟨[], []⟩ where
  hooked := .shootProjectiles none (some archer)
  question := ⟨archer, [], archer.position, 0⟩
  reported := rfl
  subs := [observer]
  live := by simp
  origin := .call (.shootProjectile 0 archer.position (some archer)) [observer] .done fun _ => .done

/-- An allowed bow release is asked about a second time for its arrow. -/
theorem bow_release_asks_twice :
    ¬∀ (F : Nbt.Floats) (names : TridentNames) (launches pre : List (Launch names)) (l : Launch names)
      (suf : List (Launch names)),
      launches = pre ++ l :: suf →
      (launch F (pre.foldl (launch F) ⟨false, []⟩) l).trace =
        (pre.foldl (launch F) ⟨false, []⟩).trace ++ oneDecision F l := by
  intro h
  have hone := h Nbt.noFloats ⟨[], []⟩ [bowRelease] [] bowRelease [] rfl
  rcases (launch_decision_iff Nbt.noFloats bowRelease []).mp hone with hrefused | ⟨hsilent, -⟩
  · rw [Launch.refused, show bowRelease.subs = [observer] from rfl, observer_allows] at hrefused
    cases hrefused
  · cases hsilent

end Projectile
