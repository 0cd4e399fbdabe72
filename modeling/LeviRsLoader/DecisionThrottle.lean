import LeviRsLoader.HookPositions
import LeviRsLoader.Lib.Runs

/-!
# The decision throttle

`DecisionThrottle.h` and its two users, the push hook and the four hooks of the
pressure plates and tripwires. A decision is kept per player and place for 250
ms. A hook that finds none asks the subscribers; while it waits other hooks may
run, and its answer is stored under the time at which it began to ask.
-/
namespace DecisionThrottle

open HookPositions HookPayload Runs

abbrev Bytes := List UInt8

def kDecisionTtlMs : Int := 250

structure ThrottledDecision where
  x : Int32
  y : Int32
  z : Int32
  dim : Int32
  cancelled : Bool
  atMs : Int

abbrev Cache := Table Bytes ThrottledDecision

def throttleLookup (cache : Cache) (key : Bytes) (at_ : Place) (now : Int) : Option Bool :=
  match cache.lookup key with
  | none => none
  | some c =>
    if c.x ≠ at_.x ∨ c.y ≠ at_.y ∨ c.z ≠ at_.z ∨ c.dim ≠ at_.dim then none
    else if now - c.atMs ≥ kDecisionTtlMs then none
    else some c.cancelled

def throttleStore (cache : Cache) (key : Bytes) (at_ : Place) (now : Int) (cancelled : Bool) : Cache :=
  let cache := if cache.entries.length > 512 then ∅ else cache
  cache.insert key ⟨at_.x, at_.y, at_.z, at_.dim, cancelled, now⟩

/-! ## The hooks -/

inductive Entity where
  | player (p : Player)
  | actor (a : Actor)

/-- `pushCache` and `plateCache`. -/
inductive CacheId where
  | push
  | plate
  deriving DecidableEq

/-- What a hook asks the subscribers: who, where, and the rest of the payload, which is the
type of a pushed entity or the kind of the block. -/
structure Question where
  cache : CacheId
  player : PlayerTexts
  place : Place
  content : Bytes
  snbt : Bytes

/-- The player's side of the key: the xuid, or the name where there is none. -/
def throttleKey (p : PlayerTexts) : Bytes := if p.xuid = [] then p.name else p.xuid

def Question.key (q : Question) : Bytes := throttleKey q.player

/-- The part of `PlayerPushEntityHook` before the lookup, for the player and the pushed entity. -/
def pushQuestion (p : Player) (target : Actor) : Question where
  cache := .push
  player := p.texts
  place := castPlace target.position target.dimensionId
  content := target.typeName
  snbt := pushSnbt p target

/-- Exactly one of the two must be a player. -/
def PlayerPushEntityHook : Entity → Entity → Option Question
  | .player p, .actor a => some (pushQuestion p a)
  | .actor a, .player p => some (pushQuestion p a)
  | .player _, .player _ => none
  | .actor _, .actor _ => none

def refuseTrigger (entity : Entity) (region : Int32) (x y z : Int32) (kind : String) : Option Question :=
  match entity with
  | .actor _ => none
  | .player p => some {
      cache := .plate
      player := p.texts
      place := ⟨x, y, z, region⟩
      content := Utf8.encode kind.toList
      snbt := playerStepOnPressurePlateEvent ⟨x, y, z, region⟩ kind p.texts }

def PressurePlateInsideHook (region : Int32) (x y z : Int32) (entity : Entity) : Option Question :=
  refuseTrigger entity region x y z "pressure_plate"

def TripWireInsideHook (region : Int32) (x y z : Int32) (entity : Entity) : Option Question :=
  refuseTrigger entity region x y z "tripwire"

def PressurePlateShouldTriggerHook (region : Int32) (x y z : Int32) (entity : Entity) : Option Question :=
  refuseTrigger entity region x y z "pressure_plate"

def TripWireShouldTriggerHook (region : Int32) (x y z : Int32) (entity : Entity) : Option Question :=
  refuseTrigger entity region x y z "tripwire"

inductive Hooked where
  | skipPush (owner other : Entity)
  | plateInside (region : Int32) (x y z : Int32) (entity : Entity)
  | tripWireInside (region : Int32) (x y z : Int32) (entity : Entity)
  | plateShouldTrigger (region : Int32) (x y z : Int32) (entity : Entity)
  | tripWireShouldTrigger (region : Int32) (x y z : Int32) (entity : Entity)

def Hooked.question : Hooked → Option Question
  | .skipPush owner other => PlayerPushEntityHook owner other
  | .plateInside region x y z entity => PressurePlateInsideHook region x y z entity
  | .tripWireInside region x y z entity => TripWireInsideHook region x y z entity
  | .plateShouldTrigger region x y z entity => PressurePlateShouldTriggerHook region x y z entity
  | .tripWireShouldTrigger region x y z entity => TripWireShouldTriggerHook region x y z entity

/-! ## Runs -/

/-- A decision: given by the subscribers to a hook that began to ask at `at_`, or read from a cache. -/
inductive Event where
  | dispatched (q : Question) (at_ : Int) (cancelled : Bool)
  | served (q : Question) (now : Int) (cancelled : Bool)

structure State where
  caches : CacheId → Cache
  /-- the hooks that wait for their subscribers, the innermost first -/
  pending : List (Question × Int)
  clock : Int
  log : List Event

def initial (clock : Int) : State := ⟨fun _ => ∅, [], clock, []⟩

/-- A hook runs at `now`: it passes, serves a kept decision or begins to ask. -/
def enter (s : State) (live : Bool) (h : Hooked) (now : Int) : State :=
  match if live then h.question else none with
  | none => { s with clock := now }
  | some q =>
    match throttleLookup (s.caches q.cache) q.key q.place now with
    | some cancelled => { s with clock := now, log := s.log ++ [.served q now cancelled] }
    | none => { s with clock := now, pending := (q, now) :: s.pending }

/-- The subscribers of the innermost waiting hook have answered. -/
def answer (s : State) (cancelled : Bool) : State :=
  match s.pending with
  | [] => s
  | (q, now) :: pending =>
    { s with
      caches := Function.update s.caches q.cache (throttleStore (s.caches q.cache) q.key q.place now cancelled)
      pending := pending
      log := s.log ++ [.dispatched q now cancelled] }

inductive Label where
  | enter (live : Bool) (h : Hooked) (now : Int)
  | answer (cancelled : Bool)

/-- The clock does not go back. -/
inductive Step : State → Label → State → Prop where
  | enter (s : State) (live : Bool) (h : Hooked) {now : Int} (hnow : s.clock ≤ now) :
      Step s (.enter live h now) (enter s live h now)
  | answer (s : State) (cancelled : Bool) : Step s (.answer cancelled) (answer s cancelled)

/-- One of the players has no xuid and bears the other's xuid as a name. -/
def Alias (p p' : PlayerTexts) : Prop :=
  p.xuid = [] ∧ p'.xuid ≠ [] ∧ p.name = p'.xuid ∨ p'.xuid = [] ∧ p.xuid ≠ [] ∧ p'.name = p.xuid

/-- The same xuid, and the same name where there is none. -/
def SamePlayer (p p' : PlayerTexts) : Prop := p.xuid = p'.xuid ∧ (p.xuid = [] → p.name = p'.name)

/-- A decision given at `at_` to `d` may be served to `q` at `now`. -/
structure Serves (d : Question) (at_ : Int) (q : Question) (now : Int) : Prop where
  cache : d.cache = q.cache
  place : d.place = q.place
  player : Alias d.player q.player ∨ SamePlayer d.player q.player
  fresh : at_ ≤ now ∧ now - at_ < kDecisionTtlMs

/-! ## Keys and entries -/

theorem player_of_key {p p' : PlayerTexts} (h : throttleKey p = throttleKey p') : Alias p p' ∨ SamePlayer p p' := by
  unfold throttleKey at h
  by_cases hp : p.xuid = []
  · by_cases hp' : p'.xuid = []
    · rw [if_pos hp, if_pos hp'] at h
      exact .inr ⟨hp.trans hp'.symm, fun _ => h⟩
    · rw [if_pos hp, if_neg hp'] at h
      exact .inl (.inl ⟨hp, hp', h⟩)
  · by_cases hp' : p'.xuid = []
    · rw [if_neg hp, if_pos hp'] at h
      exact .inl (.inr ⟨hp', hp, h.symm⟩)
    · rw [if_neg hp, if_neg hp'] at h
      exact .inr ⟨h, fun he => absurd he hp⟩

def ThrottledDecision.place (c : ThrottledDecision) : Place := ⟨c.x, c.y, c.z, c.dim⟩

/-- A hit is a fresh entry under the key for the same place. -/
theorem lookup_hit {cache : Cache} {key : Bytes} {at_ : Place} {now : Int} {cancelled : Bool}
    (h : throttleLookup cache key at_ now = some cancelled) :
    ∃ c, cache.lookup key = some c ∧ c.place = at_ ∧ now - c.atMs < kDecisionTtlMs ∧ c.cancelled = cancelled := by
  unfold throttleLookup at h
  cases hc : cache.lookup key with
  | none => rw [hc] at h; cases h
  | some c =>
    rw [hc] at h
    simp only at h
    split_ifs at h with hplace hfresh
    simp only [not_or, not_not] at hplace
    obtain ⟨hx, hy, hz, hdim⟩ := hplace
    exact ⟨c, rfl, by rw [ThrottledDecision.place, hx, hy, hz, hdim], by omega, Option.some.inj h⟩

/-- A store leaves its own entry and only entries that were there. -/
theorem lookup_store {cache : Cache} {key key' : Bytes} {at_ : Place} {now : Int} {cancelled : Bool}
    {c : ThrottledDecision} (h : (throttleStore cache key at_ now cancelled).lookup key' = some c) :
    key' = key ∧ c = ⟨at_.x, at_.y, at_.z, at_.dim, cancelled, now⟩ ∨ cache.lookup key' = some c := by
  rw [throttleStore, AList.lookup_insert_eq] at h
  split_ifs at h with hkey hsize
  · exact .inl ⟨hkey, (Option.some.inj h).symm⟩
  · simp at h
  · exact .inr h

/-! ## Where served decisions come from -/

/-- The subscribers gave the decision. -/
structure Gave (log : List Event) (id : CacheId) (key : Bytes) (c : ThrottledDecision) (d : Question) : Prop where
  mem : .dispatched d c.atMs c.cancelled ∈ log
  cache : d.cache = id
  key : d.key = key
  place : d.place = c.place

theorem Gave.mono {log log' : List Event} {id : CacheId} {key : Bytes} {c : ThrottledDecision} {d : Question}
    (h : Gave log id key c d) (hlog : log ⊆ log') : Gave log' id key c d := ⟨hlog h.mem, h.cache, h.key, h.place⟩

/-- Every served decision in the log stands after the dispatch it came from. -/
def Accounted (log : List Event) : Prop :=
  ∀ pre q now cancelled suf, log = pre ++ .served q now cancelled :: suf →
    ∃ d at_, .dispatched d at_ cancelled ∈ pre ∧ Serves d at_ q now

theorem accounted_concat {log : List Event} {e : Event} (h : Accounted log)
    (he : ∀ q now cancelled, e = .served q now cancelled →
      ∃ d at_, .dispatched d at_ cancelled ∈ log ∧ Serves d at_ q now) : Accounted (log ++ [e]) := by
  intro pre q now cancelled suf hlog
  induction suf using List.reverseRecOn with
  | nil =>
    obtain ⟨rfl, hlast⟩ := List.append_inj' hlog rfl
    exact he q now cancelled (List.singleton_inj.mp hlast)
  | append_singleton suf b =>
    rw [← List.cons_append, ← List.append_assoc] at hlog
    exact h pre q now cancelled suf (List.append_inj' hlog rfl).1

structure Inv (s : State) : Prop where
  backed : ∀ id key c, (s.caches id).lookup key = some c → c.atMs ≤ s.clock ∧ ∃ d, Gave s.log id key c d
  waiting : ∀ w ∈ s.pending, w.2 ≤ s.clock
  accounted : Accounted s.log

theorem inv_initial (clock : Int) : Inv (initial clock) where
  backed := by simp [initial]
  waiting := by simp [initial]
  accounted := by simp [initial, Accounted]

theorem Inv.serves {s : State} (hs : Inv s) {q : Question} {now : Int} {cancelled : Bool} (hnow : s.clock ≤ now)
    (h : throttleLookup (s.caches q.cache) q.key q.place now = some cancelled) :
    ∃ d at_, .dispatched d at_ cancelled ∈ s.log ∧ Serves d at_ q now := by
  obtain ⟨c, hc, hplace, hfresh, rfl⟩ := lookup_hit h
  obtain ⟨hat, d, hd⟩ := hs.backed _ _ _ hc
  exact ⟨d, c.atMs, hd.mem, hd.cache, hd.place.trans hplace, player_of_key hd.key, by omega, hfresh⟩

theorem Inv.enter {s : State} (hs : Inv s) (live : Bool) (h : Hooked) {now : Int} (hnow : s.clock ≤ now) :
    Inv (enter s live h now) := by
  have hback : ∀ id key c, (s.caches id).lookup key = some c → c.atMs ≤ now ∧ ∃ d, Gave s.log id key c d :=
    fun id key c hc => ⟨(hs.backed id key c hc).1.trans hnow, (hs.backed id key c hc).2⟩
  have hwait : ∀ w ∈ s.pending, w.2 ≤ now := fun w hw => (hs.waiting w hw).trans hnow
  unfold DecisionThrottle.enter
  split
  · exact ⟨hback, hwait, hs.accounted⟩
  · next q hq =>
    split
    · next cancelled hhit =>
      refine ⟨fun id key c hc => ?_, hwait, accounted_concat hs.accounted ?_⟩
      · obtain ⟨hat, d, hd⟩ := hback id key c hc
        exact ⟨hat, d, hd.mono (List.subset_append_left _ _)⟩
      · rintro q' now' cancelled' ⟨⟩
        exact hs.serves hnow hhit
    · refine ⟨hback, ?_, hs.accounted⟩
      rintro w (_ | ⟨_, hw⟩)
      · exact le_refl now
      · exact hwait w hw

theorem Inv.answer {s : State} (hs : Inv s) (cancelled : Bool) : Inv (answer s cancelled) := by
  unfold DecisionThrottle.answer
  split
  · exact hs
  · next q now pending hp =>
    have hnow : now ≤ s.clock := hs.waiting (q, now) (by rw [hp]; exact List.mem_cons_self)
    have hold : ∀ id key c, (s.caches id).lookup key = some c →
        c.atMs ≤ s.clock ∧ ∃ d, Gave (s.log ++ [.dispatched q now cancelled]) id key c d := by
      intro id key c hc
      obtain ⟨hat, d, hd⟩ := hs.backed id key c hc
      exact ⟨hat, d, hd.mono (List.subset_append_left _ _)⟩
    refine ⟨fun id key c hc => ?_, fun w hw => hs.waiting w (by rw [hp]; exact .tail _ hw),
      accounted_concat hs.accounted (by rintro _ _ _ ⟨⟩)⟩
    by_cases hid : id = q.cache
    · subst hid
      simp only [Function.update_self] at hc
      rcases lookup_store hc with ⟨rfl, rfl⟩ | hc
      · exact ⟨hnow, q, by simp, rfl, rfl, rfl⟩
      · exact hold _ _ _ hc
    · simp only [Function.update_of_ne hid] at hc
      exact hold _ _ _ hc

theorem inv_step (s : State) (l : Label) (t : State) (hs : Inv s) (h : Step s l t) : Inv t := by
  cases h with
  | enter live h hnow => exact hs.enter live h hnow
  | answer cancelled => exact hs.answer cancelled

/-- A decision served from a cache was given less than 250 ms before by the subscribers of the same
event, for the same player at the same place. -/
theorem served_was_dispatched {clock : Int} {tr : List (State × Label)} {s : State} (h : Run Step (initial clock) tr s)
    {pre suf : List Event} {q : Question} {now : Int} {cancelled : Bool}
    (hlog : s.log = pre ++ .served q now cancelled :: suf) :
    ∃ d at_, .dispatched d at_ cancelled ∈ pre ∧ Serves d at_ q now :=
  (h.invariant' Inv (inv_initial clock) inv_step).accounted pre q now cancelled suf hlog

/-! ## Two entities in one cell -/

def walker : Player := ⟨⟨[65], [49], []⟩, ⟨0, 64, 0⟩, 0⟩

def cow : Actor := ⟨[99], 7, false, ⟨1, 64, 1⟩, 0⟩

def armourStand : Actor := ⟨[115], 8, false, ⟨1, 64, 1⟩, 0⟩

/-- A cow is pushed and the push allowed. -/
def pushed : State := answer (enter (initial 0) true (.skipPush (.player walker) (.actor cow)) 0) false

/-- 100 ms later the same player pushes `target`. -/
theorem run_pushes (target : Actor) :
    ∃ tr, Run Step (initial 0) tr (enter pushed true (.skipPush (.player walker) (.actor target)) 100) :=
  have hclock : pushed.clock ≤ 100 := by decide
  ⟨_, .cons (.enter _ true (.skipPush (.player walker) (.actor cow)) (le_refl 0)) (.cons (.answer _ false)
    (.single (.enter pushed true (.skipPush (.player walker) (.actor target)) hclock)))⟩

theorem served_cow :
    ∃ d at_, .dispatched d at_ false ∈ [Event.dispatched (pushQuestion walker cow) 0 false] ∧
      Serves d at_ (pushQuestion walker cow) 100 := by
  obtain ⟨tr, hr⟩ := run_pushes cow
  have hlog : (enter pushed true (.skipPush (.player walker) (.actor cow)) 100).log =
      [Event.dispatched (pushQuestion walker cow) 0 false] ++ .served (pushQuestion walker cow) 100 false :: [] := rfl
  exact served_was_dispatched hr hlog

/-- The push of an armour stand is answered with the decision about the cow. -/
theorem stand_served_for_cow :
    ¬∀ (clock : Int) (tr : List (State × Label)) (s : State), Run Step (initial clock) tr s →
      ∀ pre q now cancelled suf, s.log = pre ++ .served q now cancelled :: suf →
        ∃ d at_, .dispatched d at_ cancelled ∈ pre ∧ d.cache = q.cache ∧ SamePlayer d.player q.player ∧
          d.place = q.place ∧ d.content = q.content ∧ at_ ≤ now ∧ now - at_ < kDecisionTtlMs := by
  intro h
  obtain ⟨tr, hr⟩ := run_pushes armourStand
  obtain ⟨d, at_, hmem, -, -, -, hcontent, -⟩ :=
    h 0 tr _ hr [.dispatched (pushQuestion walker cow) 0 false] (pushQuestion walker armourStand) 100 false [] rfl
  obtain ⟨rfl, -⟩ := Event.dispatched.inj (List.mem_singleton.mp hmem)
  exact absurd hcontent (by decide)

end DecisionThrottle
