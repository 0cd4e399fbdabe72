import LeviRsLoader.DimensionRules

/-!
# Hooks of the dimension rules

The functions of the engine the rules stand before: spawning, explosions, fire, liquids, farmland
and riding. `origin` is the engine's own function, over a state the hooks know nothing about.
The piston hook asks for the plot grid as well and has its own module.
-/
namespace RuleHooks

open DimensionRules

def SpawnMonster : Int32 := 0
def SpawnAnimal : Int32 := 1
def SpawnSpawner : Int32 := 2
def ExplodeBlocks : Int32 := 3
def FireSpread : Int32 := 4
def MobGriefing : Int32 := 5
def Projectile : Int32 := 6
def LiquidFlow : Int32 := 8
def FarmlandDecay : Int32 := 9
def Ride : Int32 := 10

variable {E α : Type*}

/-- `none` is a query that throws. -/
def dimOf (region : Option Int32) : Int32 := region.getD (-1)

structure Mob where
  uniqueId : Int64
  monster : Bool
  deriving DecidableEq, Repr

/-- `hasCategory` of the two categories, `none` where it throws. -/
structure Source where
  mob : Option Bool
  player : Option Bool
  deriving DecidableEq, Repr

def Source.isMob (source : Source) : Bool := source.mob == some true && source.player == some false

/-! ## The hooks -/

def DimRuleSpawnMobHook (s : Rules) (region : Option Int32) (naturalSpawn fromSpawner : Bool)
    (origin : E → Option Mob × E) (despawn : Mob → E → E) (e : E) : Option Mob × E :=
  let dim := dimOf region
  if dim < 0 || !anyRuleFor s dim then origin e
  else if fromSpawner && !allowed s dim SpawnSpawner true then (none, e)
  else if naturalSpawn then
    match origin e with
    | (none, e) => (none, e)
    | (some mob, e) =>
      let ok := if mob.monster then allowed s dim SpawnMonster true else allowed s dim SpawnAnimal true
      if !ok then (none, despawn mob e) else (some mob, e)
  else origin e

/-- The hooks that ask for one rule and return `refused` where it denies. -/
def askRule (s : Rules) (dim rule : Int32) (refused : α) (origin : E → α × E) (e : E) : α × E :=
  if refuses s dim rule then (refused, e) else origin e

def DimRuleSpawnProjectileHook (s : Rules) (region : Option Int32) (origin : E → Option Int64 × E) (e : E) :
    Option Int64 × E :=
  askRule s (dimOf region) Projectile none origin e

/-- `origin` is called either way: the rules take nothing but the blocks from an explosion. -/
def DimRuleExplodeHook (s : Rules) (region : Option Int32) (source : Option Source) (breaksBlocks : Bool)
    (origin : Bool → E → Bool × E) (e : E) : Bool × E :=
  let dim := dimOf region
  if dim < 0 || !anyRuleFor s dim || !breaksBlocks then origin breaksBlocks e
  else
    let allowBreak := allowed s dim ExplodeBlocks true
    match source with
    | none => origin allowBreak e
    | some source =>
      if allowBreak && source.isMob && !allowed s dim MobGriefing true then origin false e
      else origin allowBreak e

def DimRuleFireSpreadHook (s : Rules) (region : Option Int32) (origin : E → Unit × E) (e : E) : Unit × E :=
  askRule s (dimOf region) FireSpread () origin e

def DimRuleLiquidFlowHook (s : Rules) (region : Option Int32) (origin : E → Unit × E) (e : E) : Unit × E :=
  askRule s (dimOf region) LiquidFlow () origin e

def DimRuleFarmlandHook (s : Rules) (region : Option Int32) (origin : E → Unit × E) (e : E) : Unit × E :=
  askRule s (dimOf region) FarmlandDecay () origin e

/-- The dimension is that of the entity to be ridden. -/
def DimRuleRideHook (s : Rules) (region : Option Int32) (origin : E → Bool × E) (e : E) : Bool × E :=
  askRule s (dimOf region) Ride false origin e

/-! ## What happens on a server -/

/-- A call of the rules' interface, or of a function of the engine in a dimension. -/
inductive Event (E : Type*) where
  | rule (call : Call)
  | spawnMob (region : Option Int32) (naturalSpawn fromSpawner : Bool) (origin : E → Option Mob × E)
      (despawn : Mob → E → E)
  | spawnProjectile (region : Option Int32) (origin : E → Option Int64 × E)
  | explode (region : Option Int32) (source : Option Source) (breaksBlocks : Bool) (origin : Bool → E → Bool × E)
  | checkBurn (region : Option Int32) (origin : E → Unit × E)
  | trySpreadTo (region : Option Int32) (origin : E → Unit × E)
  | transformOnFall (region : Option Int32) (origin : E → Unit × E)
  | canAddPassenger (region : Option Int32) (origin : E → Bool × E)

inductive Answer where
  | done
  | mob (mob : Option Mob)
  | actor (actor : Option Int64)
  | flag (flag : Bool)
  deriving DecidableEq, Repr

def spawned (r : Option Mob × E) : Answer × E := (.mob r.1, r.2)
def launched (r : Option Int64 × E) : Answer × E := (.actor r.1, r.2)
def flagged (r : Bool × E) : Answer × E := (.flag r.1, r.2)
def finished (r : Unit × E) : Answer × E := (.done, r.2)

/-- The engine with the hooks in place. -/
def hooked (s : Rules × E) (event : Event E) : Answer × Rules × E :=
  let engine (r : Answer × E) : Answer × Rules × E := (r.1, s.1, r.2)
  match event with
  | .rule call => (.done, exec s.1 call, s.2)
  | .spawnMob region naturalSpawn fromSpawner origin despawn =>
    engine (spawned (DimRuleSpawnMobHook s.1 region naturalSpawn fromSpawner origin despawn s.2))
  | .spawnProjectile region origin => engine (launched (DimRuleSpawnProjectileHook s.1 region origin s.2))
  | .explode region source breaksBlocks origin =>
    engine (flagged (DimRuleExplodeHook s.1 region source breaksBlocks origin s.2))
  | .checkBurn region origin => engine (finished (DimRuleFireSpreadHook s.1 region origin s.2))
  | .trySpreadTo region origin => engine (finished (DimRuleLiquidFlowHook s.1 region origin s.2))
  | .transformOnFall region origin => engine (finished (DimRuleFarmlandHook s.1 region origin s.2))
  | .canAddPassenger region origin => engine (flagged (DimRuleRideHook s.1 region origin s.2))

/-- The engine without them. -/
def bare (e : E) : Event E → Answer × E
  | .rule _ => (.done, e)
  | .spawnMob _ _ _ origin _ => spawned (origin e)
  | .spawnProjectile _ origin => launched (origin e)
  | .explode _ _ breaksBlocks origin => flagged (origin breaksBlocks e)
  | .checkBurn _ origin => finished (origin e)
  | .trySpreadTo _ origin => finished (origin e)
  | .transformOnFall _ origin => finished (origin e)
  | .canAddPassenger _ origin => flagged (origin e)

/-! ## The hooks without their fast paths -/

def spawnMobBy (deny : Int32 → Bool) (naturalSpawn fromSpawner : Bool) (origin : E → Option Mob × E)
    (despawn : Mob → E → E) (e : E) : Option Mob × E :=
  if fromSpawner && deny SpawnSpawner then (none, e)
  else match origin e with
    | (none, e) => (none, e)
    | (some mob, e) =>
      if naturalSpawn && deny (if mob.monster then SpawnMonster else SpawnAnimal) then (none, despawn mob e)
      else (some mob, e)

def explodeBy (deny : Int32 → Bool) (source : Option Source) (breaksBlocks : Bool) (origin : Bool → E → Bool × E)
    (e : E) : Bool × E :=
  origin (breaksBlocks && !deny ExplodeBlocks && !(source.any Source.isMob && deny MobGriefing)) e

def askBy (deny : Int32 → Bool) (rule : Int32) (refused : α) (origin : E → α × E) (e : E) : α × E :=
  if deny rule then (refused, e) else origin e

/-- The engine where `deny` says which rules refuse in a dimension. -/
def answerBy (deny : Option Int32 → Int32 → Bool) (event : Event E) (e : E) : Answer × E :=
  match event with
  | .rule _ => (.done, e)
  | .spawnMob region naturalSpawn fromSpawner origin despawn =>
    spawned (spawnMobBy (deny region) naturalSpawn fromSpawner origin despawn e)
  | .spawnProjectile region origin => launched (askBy (deny region) Projectile none origin e)
  | .explode region source breaksBlocks origin => flagged (explodeBy (deny region) source breaksBlocks origin e)
  | .checkBurn region origin => finished (askBy (deny region) FireSpread () origin e)
  | .trySpreadTo region origin => finished (askBy (deny region) LiquidFlow () origin e)
  | .transformOnFall region origin => finished (askBy (deny region) FarmlandDecay () origin e)
  | .canAddPassenger region origin => flagged (askBy (deny region) Ride false origin e)

/-- The rules after the event. -/
def rulesAfter (s : Rules) : Event E → Rules
  | .rule call => exec s call
  | _ => s

/-- The dimension the event is in, where its query answers. -/
def Event.region : Event E → Option Int32
  | .rule _ => none
  | .spawnMob region .. | .spawnProjectile region _ | .explode region .. | .checkBurn region _
  | .trySpreadTo region _ | .transformOnFall region _ | .canAddPassenger region _ => region

/-- Where the fast path is taken no rule refuses; elsewhere a hook asks the rule itself. -/
theorem fastPath_cases (s : Rules) (dim : Int32) :
    (decide (dim < 0) || !anyRuleFor s dim) = true ∧ (∀ rule, refuses s dim rule = false)
      ∨ (decide (dim < 0) || !anyRuleFor s dim) = false ∧ ∀ rule, allowed s dim rule true = !refuses s dim rule := by
  by_cases hdim : dim < 0
  · have hneg : ¬0 ≤ dim := Int32.not_le.mpr hdim
    exact .inl ⟨by simp [hdim], fun rule => by simp [refuses, hneg]⟩
  · have hpos : 0 ≤ dim := Int32.not_lt.mp hdim
    cases hany : anyRuleFor s dim with
    | false => exact .inl ⟨by simp, fun rule => by simp [refuses, hany]⟩
    | true => exact .inr ⟨by simp [hdim], fun rule => by simp [refuses, hany, hpos]⟩

theorem spawnMob_eq (s : Rules) (region : Option Int32) (naturalSpawn fromSpawner : Bool) (origin : E → Option Mob × E)
    (despawn : Mob → E → E) (e : E) :
    DimRuleSpawnMobHook s region naturalSpawn fromSpawner origin despawn e
      = spawnMobBy (refuses s (dimOf region)) naturalSpawn fromSpawner origin despawn e := by
  unfold DimRuleSpawnMobHook spawnMobBy
  rcases fastPath_cases s (dimOf region) with ⟨hfast, hno⟩ | ⟨hslow, hask⟩
  · simp only [hfast, hno, if_true, Bool.and_false, Bool.false_eq_true, if_false]
    rcases origin e with ⟨_ | mob, e'⟩ <;> rfl
  · simp only [hslow, hask, Bool.false_eq_true, if_false, Bool.not_not]
    split
    · rfl
    · cases naturalSpawn with
      | false =>
        simp only [Bool.false_eq_true, if_false, Bool.false_and]
        rcases origin e with ⟨_ | mob, e'⟩ <;> rfl
      | true =>
        rcases origin e with ⟨_ | mob, e'⟩
        · rfl
        · cases hmob : mob.monster <;> simp [hmob]

theorem explode_eq (s : Rules) (region : Option Int32) (source : Option Source) (breaksBlocks : Bool)
    (origin : Bool → E → Bool × E) (e : E) :
    DimRuleExplodeHook s region source breaksBlocks origin e
      = explodeBy (refuses s (dimOf region)) source breaksBlocks origin e := by
  unfold DimRuleExplodeHook explodeBy
  rcases fastPath_cases s (dimOf region) with ⟨hfast, hno⟩ | ⟨hslow, hask⟩
  · simp [hfast, hno]
  · simp only [hslow, Bool.false_or]
    cases breaksBlocks with
    | false => simp
    | true =>
      cases source with
      | none => simp [hask]
      | some source =>
        cases hblocks : refuses s (dimOf region) ExplodeBlocks <;>
          cases hmob : source.isMob <;> cases hgrief : refuses s (dimOf region) MobGriefing <;>
          simp [hask, hblocks, hmob, hgrief]

/-- The hooks are the engine that asks `refuses`. -/
theorem hooked_eq (s : Rules × E) (event : Event E) :
    hooked s event = ((answerBy (fun region => refuses s.1 (dimOf region)) event s.2).1, rulesAfter s.1 event,
      (answerBy (fun region => refuses s.1 (dimOf region)) event s.2).2) := by
  cases event with
  | spawnMob region naturalSpawn fromSpawner origin despawn => simp only [hooked, answerBy, rulesAfter, spawnMob_eq]
  | explode region source breaksBlocks origin => simp only [hooked, answerBy, rulesAfter, explode_eq]
  | _ => rfl

theorem answerBy_congr {deny deny' : Option Int32 → Int32 → Bool} {event : Event E} (e : E)
    (h : ∀ rule, deny event.region rule = deny' event.region rule) :
    answerBy deny event e = answerBy deny' event e := by
  have h' : deny event.region = deny' event.region := funext h
  cases event with
  | rule call => rfl
  | _ =>
    simp only [Event.region] at h'
    simp only [answerBy, h']

theorem answerBy_false {event : Event E} {e : E} : answerBy (fun _ _ => false) event e = bare e event := by
  cases event with
  | spawnMob region naturalSpawn fromSpawner origin despawn =>
    simp only [answerBy, bare, spawnMobBy, Bool.and_false, Bool.false_eq_true, if_false]
    rcases origin e with ⟨_ | mob, e'⟩ <;> rfl
  | explode region source breaksBlocks origin =>
    simp only [answerBy, bare, explodeBy, Bool.and_false, Bool.not_false, Bool.and_true]
  | _ => rfl

/-! ## The last word -/

/-- What has last been said of a rule in a dimension, and not been cleared since. -/
abbrev Verdicts := Int32 → Int32 → Option Bool

def Verdicts.after (v : Verdicts) : Call → Verdicts
  | .setDimensionRule d r allow => fun d' r' => if d' = d ∧ r' = r then some allow else v d' r'
  | .clearDimensionRules d => fun d' r' => if d' = d then none else v d' r'

/-- The last word on the rule is no. -/
def Verdicts.denies (v : Verdicts) (region : Option Int32) (rule : Int32) : Bool :=
  match region with
  | none => false
  | some dim => decide (0 ≤ dim) && decide (v dim rule = some false)

/-- An engine that obeys the last word on every rule. -/
def obeying (s : Verdicts × E) (event : Event E) : Answer × Verdicts × E :=
  let r := answerBy s.1.denies event s.2
  match event with
  | .rule call => (r.1, s.1.after call, r.2)
  | _ => (r.1, s.1, r.2)

/-- The calls meet the rules they find, as `DimensionRules.InRange` asks. -/
def CallsInRange (s : Rules × E) (event : Event E) : Prop := ∀ call, event = .rule call → InRange s.1 call

theorem refuses_dimOf {s : Rules} (hs : Counted s) (region : Option Int32) (rule : Int32) :
    refuses s (dimOf region) rule = Verdicts.denies (reads s) region rule := by
  rw [hs.refuses_eq]
  cases region with
  | none => rfl
  | some dim => rfl

theorem reads_exec {s : Rules} {call : Call} (he : Effect s call) :
    reads (exec s call) = Verdicts.after (reads s) call := by
  funext d r
  cases call with
  | setDimensionRule dim rule allow => exact he d r
  | clearDimensionRules dim => exact he d r

/-- The counters are right, and the table holds the last word. -/
def Obeys (s : Rules × E) (t : Verdicts × E) : Prop := Counted s.1 ∧ reads s.1 = t.1 ∧ s.2 = t.2

theorem obeys_step (s : Rules × E) (t : Verdicts × E) (event : Event E) (h : Obeys s t) (hcall : CallsInRange s event) :
    (hooked s event).1 = (obeying t event).1 ∧ Obeys (hooked s event).2 (obeying t event).2 := by
  obtain ⟨s, e⟩ := s
  obtain ⟨t, e'⟩ := t
  obtain ⟨hs, rfl, rfl⟩ := h
  have hsame : answerBy (fun region => refuses s (dimOf region)) event e
      = answerBy (Verdicts.denies (reads s)) event e := answerBy_congr e (refuses_dimOf hs _)
  rw [hooked_eq]
  dsimp only
  rw [hsame]
  cases event with
  | rule call =>
    have hin := hcall call rfl
    exact ⟨rfl, counted_exec hs call hin, reads_exec ((exec_iff hs call).mpr hin).1, rfl⟩
  | _ => exact ⟨rfl, hs, rfl, rfl⟩

/-- Over any history of rule calls in range and calls of the engine, in any order, the hooks
answer as an engine that obeys the last word on every rule, and leave the same behind. -/
theorem hooks_obey (events : List (Event E)) (e : E) (h : Runs.Admits hooked CallsInRange ({}, e) events) :
    (Runs.answers hooked ({}, e) events).1 = (Runs.answers obeying (fun _ _ => none, e) events).1
      ∧ (Runs.answers hooked ({}, e) events).2.2 = (Runs.answers obeying (fun _ _ => none, e) events).2.2 := by
  have hstart : Obeys ({}, e) ((fun _ _ => none, e) : Verdicts × E) := ⟨counted_empty, rfl, rfl⟩
  obtain ⟨hanswers, -, -, hengine⟩ := Runs.answers_eq Obeys obeys_step hstart h
  exact ⟨hanswers, hengine⟩

/-! ## Dimensions apart -/

def Call.dimension : Call → Int32
  | .setDimensionRule d _ _ => d
  | .clearDimensionRules d => d

/-- The same server where the rule calls for the other dimensions never arrive. -/
def hookedOnly (keep : Int32 → Bool) (s : Rules × E) (event : Event E) : Answer × Rules × E :=
  match event with
  | .rule call => if keep (Call.dimension call) then hooked s event else (.done, s)
  | _ => hooked s event

/-- The two tables hold the same of the dimension. -/
structure Alike (d : Int32) (s t : Rules) : Prop where
  reads : ∀ r, reads s d r = reads t d r
  counter : counter s d = counter t d

theorem Alike.refl (d : Int32) (s : Rules) : Alike d s s := ⟨fun _ => rfl, rfl⟩

theorem Alike.trans {d : Int32} {s t u : Rules} (h : Alike d s t) (h' : Alike d t u) : Alike d s u :=
  ⟨fun r => (h.reads r).trans (h'.reads r), h.counter.trans h'.counter⟩

theorem Alike.symm {d : Int32} {s t : Rules} (h : Alike d s t) : Alike d t s :=
  ⟨fun r => (h.reads r).symm, h.counter.symm⟩

theorem refuses_reads (s : Rules) (d r : Int32) :
    refuses s d r = (decide (0 ≤ d) && decide (0 < counter s d) && decide (reads s d r = some false)) := by
  rw [reads_eq, ← anyRuleFor_eq]
  unfold refuses allowed getDimensionRule
  cases s.rules.lookup (key d r) with
  | none => simp
  | some v => cases v <;> simp

theorem Alike.refuses {d : Int32} {s t : Rules} (h : Alike d s t) (r : Int32) : refuses s d r = refuses t d r := by
  rw [refuses_reads, refuses_reads, h.reads, h.counter]

/-- A call does the same to what is the same. -/
theorem Alike.exec {d : Int32} {s t : Rules} (h : Alike d s t) {call : Call} (hd : Call.dimension call = d) :
    Alike d (exec s call) (exec t call) := by
  cases call with
  | setDimensionRule dim rule allow =>
    obtain rfl : dim = d := hd
    refine ⟨fun r => ?_, ?_⟩
    · simp only [DimensionRules.exec, reads_set, h.reads]
    · simp only [DimensionRules.exec, counter_set, h.reads, h.counter]
  | clearDimensionRules dim =>
    obtain rfl : dim = d := hd
    refine ⟨fun r => ?_, ?_⟩
    · simp only [DimensionRules.exec, reads_clear, h.reads]
    · simp only [DimensionRules.exec, counter_clear, if_true]

/-- A call for another dimension does nothing to this one. -/
theorem alike_exec {d : Int32} (s : Rules) {call : Call} (hd : Call.dimension call ≠ d) : Alike d (exec s call) s := by
  cases call with
  | setDimensionRule dim rule allow =>
    have hne : ¬d = dim := fun h => hd h.symm
    refine ⟨fun r => ?_, ?_⟩
    · rw [DimensionRules.exec, reads_set, if_neg fun h => hne h.1]
    · rw [DimensionRules.exec, counter_set, if_neg fun h => hne h.1]
  | clearDimensionRules dim =>
    have hne : ¬d = dim := fun h => hd h.symm
    refine ⟨fun r => ?_, ?_⟩
    · rw [DimensionRules.exec, reads_clear, if_neg fun h => hne h.1]
    · rw [DimensionRules.exec, counter_clear, if_neg hne]

/-- The event is in a dimension that is kept, or in none. -/
def InKept (keep : Int32 → Bool) (event : Event E) : Prop := ∀ dim, event.region = some dim → keep dim = true

theorem refuses_alike {keep : Int32 → Bool} {s t : Rules} (h : ∀ d, keep d = true → Alike d s t) {event : Event E}
    (hevent : InKept keep event) (r : Int32) :
    refuses s (dimOf event.region) r = refuses t (dimOf event.region) r := by
  cases hr : event.region with
  | none => rfl
  | some dim => exact (h dim (hevent dim hr)).refuses r

/-- Nothing in the kept dimensions tells the two servers apart. -/
def AlikeIn (keep : Int32 → Bool) (s t : Rules × E) : Prop := (∀ d, keep d = true → Alike d s.1 t.1) ∧ s.2 = t.2

theorem alikeIn_step (keep : Int32 → Bool) (s t : Rules × E) (event : Event E) (h : AlikeIn keep s t)
    (hevent : InKept keep event) :
    (hooked s event).1 = (hookedOnly keep t event).1 ∧ AlikeIn keep (hooked s event).2 (hookedOnly keep t event).2 := by
  obtain ⟨s, e⟩ := s
  obtain ⟨t, e'⟩ := t
  obtain ⟨halike, rfl⟩ := h
  dsimp only at halike
  cases event with
  | rule call =>
    simp only [hooked, hookedOnly]
    cases hkeep : keep (Call.dimension call) with
    | true =>
      refine ⟨rfl, fun d hd => ?_, rfl⟩
      by_cases hcall : Call.dimension call = d
      · exact (halike d hd).exec hcall
      · exact ((alike_exec s hcall).trans (halike d hd)).trans (alike_exec t hcall).symm
    | false =>
      refine ⟨rfl, fun d hd => ?_, rfl⟩
      have hcall : Call.dimension call ≠ d := by
        rintro rfl
        rw [hkeep] at hd
        cases hd
      exact (alike_exec s hcall).trans (halike d hd)
  | _ =>
    have hsame : answerBy (fun region => refuses s (dimOf region)) _ e
        = answerBy (fun region => refuses t (dimOf region)) _ e := answerBy_congr e (refuses_alike halike hevent)
    simp only [hookedOnly, hooked_eq, hsame, rulesAfter]
    exact ⟨trivial, halike, rfl⟩

/-- What happens in some dimensions depends on the rule calls for these alone: over any history,
whatever the ids in its calls, the server answers there as one the other calls never reached. -/
theorem dimensions_apart (keep : Int32 → Bool) (events : List (Event E)) (e : E)
    (h : ∀ event ∈ events, InKept keep event) :
    (Runs.answers hooked ({}, e) events).1 = (Runs.answers (hookedOnly keep) ({}, e) events).1
      ∧ (Runs.answers hooked ({}, e) events).2.2 = (Runs.answers (hookedOnly keep) ({}, e) events).2.2 := by
  obtain ⟨hanswers, -, hengine⟩ := Runs.answers_eq (AlikeIn keep) (alikeIn_step keep)
    (⟨fun d _ => .refl d _, rfl⟩ : AlikeIn keep (({}, e) : Rules × E) ({}, e)) (Runs.admits_of_forall h)
  exact ⟨hanswers, hengine⟩

/-! ## Dimensions without rules -/

/-- The calls that set a rule are for named dimensions, and nothing else happens in these. -/
def Unruled (named : Int32 → Prop) (event : Event E) : Prop :=
  (∀ dim, event.region = some dim → ¬named dim)
    ∧ ∀ dim r allow, event = .rule (.setDimensionRule dim r allow) → named dim

/-- No dimension but the named ones has a counter, and the engines agree. -/
def Untouched (named : Int32 → Prop) (s : Rules × E) (e : E) : Prop := (∀ d, ¬named d → counter s.1 d = 0) ∧ s.2 = e

theorem refuses_of_counter {named : Int32 → Prop} {s : Rules} (h : ∀ d, ¬named d → counter s d = 0) {event : Event E}
    (hevent : ∀ dim, event.region = some dim → ¬named dim) (r : Int32) :
    refuses s (dimOf event.region) r = false := by
  rw [refuses_reads]
  cases hr : event.region with
  | none => rfl
  | some dim =>
    rw [dimOf, Option.getD_some, h dim (hevent dim hr)]
    simp

theorem untouched_step (named : Int32 → Prop) (s : Rules × E) (e : E) (event : Event E) (h : Untouched named s e)
    (hevent : Unruled named event) :
    (hooked s event).1 = (bare e event).1 ∧ Untouched named (hooked s event).2 (bare e event).2 := by
  obtain ⟨s, e'⟩ := s
  obtain ⟨hcounter, rfl⟩ := h
  dsimp only at hcounter
  cases event with
  | rule call =>
    refine ⟨rfl, fun d hd => ?_, rfl⟩
    cases call with
    | setDimensionRule dim r allow =>
      have hne : ¬d = dim := by
        rintro rfl
        exact hd (hevent.2 d r allow rfl)
      simp only [hooked, exec, counter_set, hne, false_and, if_false]
      exact hcounter d hd
    | clearDimensionRules dim =>
      simp only [hooked, exec, counter_clear]
      split
      · rfl
      · exact hcounter d hd
  | _ =>
    have hsame : answerBy (fun region => refuses s (dimOf region)) _ e' = answerBy (fun _ _ => false) _ e' :=
      answerBy_congr e' (refuses_of_counter hcounter hevent.1)
    rw [answerBy_false] at hsame
    rw [hooked_eq]
    dsimp only
    rw [hsame]
    exact ⟨rfl, hcounter, rfl⟩

/-- Where no rule was ever set the hooks are not there. -/
theorem unruled_untouched (events : List (Event E)) (e : E)
    (h : ∀ event ∈ events, ∀ dim, event.region = some dim → ∀ r allow, .rule (.setDimensionRule dim r allow) ∉ events) :
    (Runs.answers hooked ({}, e) events).1 = (Runs.answers bare e events).1
      ∧ (Runs.answers hooked ({}, e) events).2.2 = (Runs.answers bare e events).2 := by
  have hguard : ∀ event ∈ events,
      Unruled (fun d => ∃ r allow, .rule (.setDimensionRule d r allow) ∈ events) event := by
    intro event hin
    refine ⟨fun dim hr => ?_, ?_⟩
    · rintro ⟨r, allow, hset⟩
      exact h event hin dim hr r allow hset
    · rintro dim r allow rfl
      exact ⟨r, allow, hin⟩
  obtain ⟨hanswers, -, hengine⟩ := Runs.answers_eq (Untouched _) (untouched_step _)
    (⟨fun _ _ => rfl, rfl⟩ : Untouched _ (({}, e) : Rules × E) e) (Runs.admits_of_forall hguard)
  exact ⟨hanswers, hengine⟩

/-! ## An instance -/

/-- Monsters are denied in dimension 3, then one is spawned there and one in dimension 0. The
engine counts the mobs. -/
def exampleEvents : List (Event Nat) :=
  let spawn (dim : Int32) : Event Nat :=
    .spawnMob (some dim) true false (fun n => (some ⟨7, true⟩, n + 1)) fun _ n => n - 1
  [.rule (.setDimensionRule 3 SpawnMonster false), spawn 3, spawn 0]

theorem hooks_obey_spawns :
    (Runs.answers hooked ({}, 0) exampleEvents).1 = (Runs.answers obeying (fun _ _ => none, 0) exampleEvents).1
      ∧ (Runs.answers hooked ({}, 0) exampleEvents).2.2
        = (Runs.answers obeying (fun _ _ => none, 0) exampleEvents).2.2 := by
  refine hooks_obey exampleEvents 0 ⟨?_, ?_, ?_, trivial⟩
  · rintro call ⟨⟩
    intro _
    decide
  · rintro call ⟨⟩
  · rintro call ⟨⟩

theorem dimensions_apart_spawns :
    (Runs.answers hooked ({}, 0) exampleEvents).1
        = (Runs.answers (hookedOnly fun d => decide (d = 3 ∨ d = 0)) ({}, 0) exampleEvents).1
      ∧ (Runs.answers hooked ({}, 0) exampleEvents).2.2
        = (Runs.answers (hookedOnly fun d => decide (d = 3 ∨ d = 0)) ({}, 0) exampleEvents).2.2 := by
  refine dimensions_apart _ exampleEvents 0 fun event h => ?_
  simp only [exampleEvents, List.mem_cons, List.not_mem_nil, or_false] at h
  rcases h with rfl | rfl | rfl <;> rintro dim ⟨⟩ <;> rfl

theorem unruled_untouched_spawn :
    (Runs.answers hooked ({}, 0) (exampleEvents.drop 2)).1 = (Runs.answers bare 0 (exampleEvents.drop 2)).1
      ∧ (Runs.answers hooked ({}, 0) (exampleEvents.drop 2)).2.2 = (Runs.answers bare 0 (exampleEvents.drop 2)).2 := by
  refine unruled_untouched _ 0 fun event h dim hr r allow hset => ?_
  simp [exampleEvents] at hset

end RuleHooks
