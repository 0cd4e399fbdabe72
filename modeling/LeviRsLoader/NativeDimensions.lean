import LeviRsLoader.DimensionLedger

/-!
# Native registration of dimensions

`registerCustomDimension` and what it leaves in the engine's group of definitions, which every client is
sent. The ids are in the save, so they outlive the server; the group starts empty at each boot. What the
engine itself does in a registration is part of the call.
-/
namespace NativeDimensions

open DimensionLedger Runs

variable {G : Type}

/-- A `DimensionDefinition`; `G` has the generator types. -/
structure Definition (G : Type) where
  min : Int
  max : Int
  gen : G
  mDimensionType : Int

/-- The engine's `DimensionManager`: the ids `getDimensionId` answers, `none` where it throws, and the
definitions of the group. -/
structure DimensionManager (G : Type) where
  getDimensionId : String → Option Int
  mDimensionDefinitions : Table String (Definition G)

structure State (G : Type) where
  mgr : DimensionManager G
  ledger : Ledger

/-- `advertised`: the heights of the two environment variables, when both can be read.
`undefinedId`: the id of `VanillaDimensions::Undefined()`. -/
structure Env where
  advertised : Option (Int × Int)
  undefinedId : Int

/-- What the group does when it is asked to take a definition. -/
inductive Adding where
  | added
  | refused
  | threw
  deriving DecidableEq

/-- One call, with what the engine contributes to it. -/
structure Call (G : Type) where
  name : String
  minY : Int
  maxY : Int
  gen : G
  /-- Whether the level is there, and with it the manager. -/
  level : Bool
  tryAdd : Adding
  /-- The answer of `serverRegisterCustomDimension`, `.error` if it throws, and the manager after it. -/
  serverRegister : DimensionManager G → Except Unit (Option Int) × DimensionManager G

def advertisedRange (env : Env) (minY maxY : Int) : Int × Int := env.advertised.getD (minY, maxY)

/-- A custom dimension has an id from 3 on, and a name that was never registered has that of `Undefined()`. -/
def engineDimensionId (env : Env) (mgr : DimensionManager G) (name : String) : Option Int :=
  match mgr.getDimensionId name with
  | none => none
  | some v => if v < 3 then none else if v = env.undefinedId then none else some v

/-- The group takes the definition unless it has one by that name. -/
def addDefinition (env : Env) (c : Call G) (type : Int) (mgr : DimensionManager G) : DimensionManager G :=
  if (mgr.mDimensionDefinitions.lookup c.name).isSome then mgr
  else if c.tryAdd = .added then
    let (advMin, advMax) := advertisedRange env c.minY c.maxY
    { mgr with mDimensionDefinitions := mgr.mDimensionDefinitions.insert c.name ⟨advMin, advMax, c.gen, type⟩ }
  else mgr

/-- The real id goes into the definition, if there is one. -/
def writeBackId (name : String) (id : Int) (mgr : DimensionManager G) : DimensionManager G :=
  match mgr.mDimensionDefinitions.lookup name with
  | none => mgr
  | some d =>
    if d.mDimensionType ≠ id then
      { mgr with mDimensionDefinitions := mgr.mDimensionDefinitions.insert name { d with mDimensionType := id } }
    else mgr

def registerCustomDimension (env : Env) (c : Call G) (s : State G) : Option Int × State G :=
  if !c.level then (none, s)
  else
    match engineDimensionId env s.mgr c.name with
    | some preexisting =>
      -- the factory is bound again, which no later answer depends on
      (some preexisting, ⟨addDefinition env c preexisting s.mgr, rememberDimension c.name preexisting s.ledger⟩)
    | none =>
      if c.tryAdd = .threw ∧ (s.mgr.mDimensionDefinitions.lookup c.name).isNone then (none, s)
      else
        -- the id is not known yet: -1 stands in for it
        match c.serverRegister (addDefinition env c (-1) s.mgr) with
        | (.error _, mgr) => (none, { s with mgr := mgr })
        | (.ok none, mgr) => (none, { s with mgr := mgr })
        | (.ok (some id), mgr) =>
          if engineDimensionId env mgr c.name ≠ some id then (none, { s with mgr := mgr })
          else (some id, ⟨writeBackId c.name id mgr, rememberDimension c.name id s.ledger⟩)

/-! ## Runs -/

inductive Label (G : Type) where
  /-- A boot reads the ids of the save; nothing else is kept. -/
  | boot (ids : String → Option Int)
  | register (c : Call G)

def initial (ids : String → Option Int) : State G := ⟨⟨ids, ∅⟩, Ledger.initial⟩

def next (env : Env) (s : State G) : Label G → State G
  | .boot ids => initial ids
  | .register c => (registerCustomDimension env c s).2

def Step (env : Env) (s : State G) (l : Label G) (t : State G) : Prop := t = next env s l

/-- A registration is about its own name, and drops no definition. -/
structure Call.Sane (c : Call G) : Prop where
  ids : ∀ mgr n, n ≠ c.name → (c.serverRegister mgr).2.getDimensionId n = mgr.getDimensionId n
  definitions : ∀ mgr n, n ≠ c.name →
    (c.serverRegister mgr).2.mDimensionDefinitions.lookup n = mgr.mDimensionDefinitions.lookup n
  kept : ∀ mgr, (mgr.mDimensionDefinitions.lookup c.name).isSome →
    ((c.serverRegister mgr).2.mDimensionDefinitions.lookup c.name).isSome

def SaneStep (_ : State G) : Label G → Prop
  | .boot _ => True
  | .register c => c.Sane

/-- A call for `n` that comes back without an id though the level is there. -/
def FailedOn (env : Env) (n : String) (e : State G × Label G) : Prop :=
  ∃ c, e.2 = .register c ∧ c.name = n ∧ c.level = true ∧ (registerCustomDimension env c e.1).1 = none

def IsBoot (e : State G × Label G) : Prop := ∃ ids, e.2 = .boot ids

/-! ## One call -/

section Call

variable {env : Env} {c : Call G} {s : State G} {mgr : DimensionManager G} {n : String} {id i : Int} {d : Definition G}

theorem le_of_engineDimensionId (h : engineDimensionId env mgr n = some id) : 3 ≤ id ∧ id ≠ env.undefinedId := by
  unfold engineDimensionId at h
  split at h
  · cases h
  · next v _ =>
    split_ifs at h with h₁ h₂
    cases h
    exact ⟨Int.not_lt.mp h₁, h₂⟩

theorem engineDimensionId_congr {mgr' : DimensionManager G} (h : mgr'.getDimensionId n = mgr.getDimensionId n) :
    engineDimensionId env mgr' n = engineDimensionId env mgr n := by
  rw [engineDimensionId, engineDimensionId, h]

@[simp] theorem addDefinition_id (type : Int) :
    engineDimensionId env (addDefinition env c type mgr) n = engineDimensionId env mgr n := by
  refine engineDimensionId_congr ?_
  unfold addDefinition
  split_ifs <;> rfl

@[simp] theorem writeBackId_id (name : String) :
    engineDimensionId env (writeBackId name id mgr) n = engineDimensionId env mgr n := by
  refine engineDimensionId_congr ?_
  unfold writeBackId
  split
  · rfl
  · split_ifs <;> rfl

/-- A definition that is there after the group was asked was there before, or is the new one. -/
theorem lookup_addDefinition {type : Int} (h : (addDefinition env c type mgr).mDimensionDefinitions.lookup n = some d) :
    mgr.mDimensionDefinitions.lookup n = some d
      ∨ (n = c.name ∧ mgr.mDimensionDefinitions.lookup n = none ∧ d.mDimensionType = type) := by
  unfold addDefinition at h
  split_ifs at h with h₁ h₂
  · exact .inl h
  · dsimp only at h
    rw [AList.lookup_insert_eq] at h
    split_ifs at h with hn
    · subst hn
      cases h
      exact .inr ⟨rfl, by simpa using h₁, rfl⟩
    · exact .inl h
  · exact .inl h

theorem addDefinition_isSome {type : Int} (h : c.tryAdd = .added) :
    ((addDefinition env c type mgr).mDimensionDefinitions.lookup c.name).isSome := by
  unfold addDefinition
  split_ifs with h₁
  · exact h₁
  · dsimp only
    rw [AList.lookup_insert]
    rfl

theorem addDefinition_of_some {type : Int} (h : mgr.mDimensionDefinitions.lookup c.name = some d) :
    addDefinition env c type mgr = mgr := by
  rw [addDefinition, if_pos (by rw [h]; rfl)]

theorem lookup_writeBackId_ne {name : String} (h : n ≠ name) :
    (writeBackId name id mgr).mDimensionDefinitions.lookup n = mgr.mDimensionDefinitions.lookup n := by
  unfold writeBackId
  split
  · rfl
  · split_ifs
    · exact AList.lookup_insert_ne h
    · rfl

/-- Whatever is written back has the id. -/
theorem writeBackId_type {name : String} (h : (writeBackId name id mgr).mDimensionDefinitions.lookup name = some d) :
    d.mDimensionType = id := by
  unfold writeBackId at h
  split at h
  · next hnone => rw [hnone] at h; cases h
  · next d' hd' =>
    split_ifs at h with ht
    · rw [AList.lookup_insert] at h
      cases h
      rfl
    · rw [hd'] at h
      cases h
      exact not_not.mp ht

theorem writeBackId_isSome {name : String} (h : (mgr.mDimensionDefinitions.lookup name).isSome) :
    ((writeBackId name id mgr).mDimensionDefinitions.lookup name).isSome := by
  unfold writeBackId
  split
  · exact h
  · split_ifs
    · rw [AList.lookup_insert]
      rfl
    · exact h

/-- A name the engine knows keeps its id, and only a missing definition is added. -/
theorem register_known (hl : c.level = true) (hk : engineDimensionId env s.mgr c.name = some i) :
    registerCustomDimension env c s = (some i, ⟨addDefinition env c i s.mgr, rememberDimension c.name i s.ledger⟩) := by
  simp only [registerCustomDimension, hl, hk, Bool.not_true, Bool.false_eq_true, if_false]

/-- What a call can do: nothing, go by the id on record, fail in the engine, or register. -/
theorem register_cases (env : Env) (c : Call G) (s : State G) :
    registerCustomDimension env c s = (none, s)
      ∨ (∃ i, c.level = true ∧ engineDimensionId env s.mgr c.name = some i
        ∧ registerCustomDimension env c s
          = (some i, ⟨addDefinition env c i s.mgr, rememberDimension c.name i s.ledger⟩))
      ∨ (c.level = true ∧ engineDimensionId env s.mgr c.name = none
        ∧ registerCustomDimension env c s
          = (none, { s with mgr := (c.serverRegister (addDefinition env c (-1) s.mgr)).2 }))
      ∨ ∃ id, c.level = true ∧ engineDimensionId env s.mgr c.name = none
        ∧ engineDimensionId env (c.serverRegister (addDefinition env c (-1) s.mgr)).2 c.name = some id
        ∧ registerCustomDimension env c s
          = (some id, ⟨writeBackId c.name id (c.serverRegister (addDefinition env c (-1) s.mgr)).2,
              rememberDimension c.name id s.ledger⟩) := by
  cases hl : c.level with
  | false => exact .inl (by simp only [registerCustomDimension, hl, Bool.not_false, if_true])
  | true =>
    cases hk : engineDimensionId env s.mgr c.name with
    | some i => exact .inr (.inl ⟨i, rfl, rfl, register_known hl hk⟩)
    | none =>
      simp only [registerCustomDimension, hl, hk, Bool.not_true, Bool.false_eq_true, if_false]
      split_ifs with hthrew
      · exact .inl rfl
      · generalize c.serverRegister (addDefinition env c (-1) s.mgr) = answer
        obtain ⟨assigned, mgr⟩ := answer
        dsimp only
        match assigned with
        | .error _ => exact .inr (.inr (.inl ⟨trivial, trivial, rfl⟩))
        | .ok none => exact .inr (.inr (.inl ⟨trivial, trivial, rfl⟩))
        | .ok (some id) =>
          by_cases hback : engineDimensionId env mgr c.name = some id
          · exact .inr (.inr (.inr ⟨id, trivial, trivial, hback, by simp [hback]⟩))
          · exact .inr (.inr (.inl ⟨trivial, trivial, by simp [hback]⟩))

variable (env s) in
/-- Ids and definitions of the other names stay as they are. -/
theorem register_other (hc : c.Sane) (hn : n ≠ c.name) :
    engineDimensionId env (registerCustomDimension env c s).2.mgr n = engineDimensionId env s.mgr n
      ∧ (registerCustomDimension env c s).2.mgr.mDimensionDefinitions.lookup n
        = s.mgr.mDimensionDefinitions.lookup n := by
  have hadd (type : Int) : (addDefinition env c type s.mgr).mDimensionDefinitions.lookup n
      = s.mgr.mDimensionDefinitions.lookup n := by
    unfold addDefinition
    split_ifs
    · rfl
    · exact AList.lookup_insert_ne hn
    · rfl
  have hserver : engineDimensionId env (c.serverRegister (addDefinition env c (-1) s.mgr)).2 n
      = engineDimensionId env s.mgr n := by
    rw [engineDimensionId_congr (hc.ids _ _ hn), addDefinition_id]
  rcases register_cases env c s with h | ⟨i, -, -, h⟩ | ⟨-, -, h⟩ | ⟨id, -, -, -, h⟩
  all_goals rw [h]
  · exact ⟨rfl, rfl⟩
  · exact ⟨addDefinition_id i, hadd i⟩
  · exact ⟨hserver, (hc.definitions _ _ hn).trans (hadd (-1))⟩
  · refine ⟨(writeBackId_id c.name).trans hserver, ?_⟩
    rw [lookup_writeBackId_ne hn, hc.definitions _ _ hn]
    exact hadd (-1)

/-- An id the engine has given for a name stays the name's. -/
theorem register_keeps_id (hc : c.Sane) (h : engineDimensionId env s.mgr n = some i) :
    engineDimensionId env (registerCustomDimension env c s).2.mgr n = some i := by
  by_cases hn : n = c.name
  · subst hn
    rcases register_cases env c s with he | ⟨j, -, -, he⟩ | ⟨-, hk, -⟩ | ⟨id, -, hk, -, -⟩
    · rw [he]
      exact h
    · rw [he]
      exact (addDefinition_id j).trans h
    · rw [h] at hk
      cases hk
    · rw [h] at hk
      cases hk
  · rw [(register_other _ _ hc hn).1, h]

end Call

/-! ## The definitions over a run -/

section Run

variable {env : Env}

/-- What is in the ledger is what the engine answers, and a definition has the id of its name unless a
call for that name has failed since the boot. -/
structure Inv (env : Env) (tr : List (State G × Label G)) (s : State G) : Prop where
  ledger : ∀ n id, s.ledger.ledgerByName.lookup n = some id → engineDimensionId env s.mgr n = some id
  types : ∀ n d, s.mgr.mDimensionDefinitions.lookup n = some d → ¬Since (FailedOn env n) IsBoot tr →
    engineDimensionId env s.mgr n = some d.mDimensionType

theorem inv_initial (env : Env) (tr : List (State G × Label G)) (ids : String → Option Int) :
    Inv env tr (initial ids) where
  ledger n id h := by simp [initial, Ledger.initial] at h
  types n d h := by simp [initial] at h

/-- Since a registration is no boot, what had failed before it has failed after it. -/
theorem not_failed_before {tr : List (State G × Label G)} {s : State G} {c : Call G} {n : String}
    (h : ¬Since (FailedOn env n) IsBoot (tr ++ [(s, .register c)])) :
    ¬FailedOn env n (s, .register c) ∧ ¬Since (FailedOn env n) IsBoot tr := by
  have hboot : ¬IsBoot ((s, .register c) : State G × Label G) := by
    rintro ⟨ids, hids⟩
    cases hids
  rw [since_concat] at h
  exact ⟨fun hf => h (.inl hf), fun hs => h (.inr ⟨hs, hboot⟩)⟩

theorem Inv.register {tr : List (State G × Label G)} {s : State G} (h : Inv env tr s) {c : Call G} (hc : c.Sane) :
    Inv env (tr ++ [(s, .register c)]) (registerCustomDimension env c s).2 := by
  have hremembered {i : Int} {mgr : DimensionManager G} (hi : engineDimensionId env mgr c.name = some i)
      (hother : ∀ n, n ≠ c.name → engineDimensionId env mgr n = engineDimensionId env s.mgr n) (n : String) (id : Int)
      (hn : (rememberDimension c.name i s.ledger).ledgerByName.lookup n = some id) :
      engineDimensionId env mgr n = some id := by
    rw [lookup_byName] at hn
    split_ifs at hn with hname
    · subst hname
      cases hn
      exact hi
    · rw [hother n hname]
      exact h.ledger n id hn
  have hother := fun n (hn : n ≠ c.name) => (register_other env s hc hn).1
  refine ⟨?_, fun n d hd hf => ?_⟩
  · rcases register_cases env c s with he | ⟨i, -, hk, he⟩ | ⟨-, hk, he⟩ | ⟨id, -, hk, hback, he⟩
    all_goals rw [he] at hother ⊢
    · exact h.ledger
    · exact hremembered ((addDefinition_id i).trans hk) hother
    · intro n id hn
      by_cases hname : n = c.name
      · subst hname
        rw [h.ledger _ _ hn] at hk
        cases hk
      · rw [hother n hname]
        exact h.ledger n id hn
    · exact hremembered ((writeBackId_id c.name).trans hback) hother
  · obtain ⟨hfail, hf⟩ := not_failed_before hf
    by_cases hname : n = c.name
    · subst hname
      rcases register_cases env c s with he | ⟨i, -, hk, he⟩ | ⟨hl, hk, he⟩ | ⟨id, -, hk, hback, he⟩
      · rw [he] at hd ⊢
        exact h.types _ d hd hf
      · rw [he] at hd ⊢
        rw [addDefinition_id]
        rcases lookup_addDefinition hd with hold | ⟨-, -, htype⟩
        · exact h.types _ d hold hf
        · rw [hk, htype]
      · exact absurd ⟨c, rfl, rfl, hl, by rw [he]⟩ hfail
      · rw [he] at hd ⊢
        rw [writeBackId_id, hback, writeBackId_type hd]
    · obtain ⟨hid, hdef⟩ := register_other env s hc hname
      rw [hdef] at hd
      rw [hid]
      exact h.types n d hd hf

theorem inv_run {ids : String → Option Int} {tr : List (State G × Label G)} {u : State G}
    (h : Run (Step env) (initial ids) tr u) (hG : Meets SaneStep tr) : Inv env tr u := by
  refine h.traceInvariant (Inv env) hG (inv_initial env [] ids) fun pre s l t hs hl ht => ?_
  obtain rfl := ht
  cases l with
  | boot ids => exact inv_initial env _ ids
  | register c => exact hs.register hl

/-- What a call that answers with `id` leaves behind. -/
structure Registered (env : Env) (c : Call G) (id : Int) (s : State G) : Prop where
  engine : engineDimensionId env s.mgr c.name = some id
  custom : 3 ≤ id
  byName : dimensionIdOf c.name s.ledger = id
  byId : dimensionNameOf id s.ledger = c.name

theorem registered_of_some {c : Call G} {s : State G} {id : Int} (h : (registerCustomDimension env c s).1 = some id) :
    Registered env c id (registerCustomDimension env c s).2 := by
  have hledger (mgr : DimensionManager G) (hid : engineDimensionId env mgr c.name = some id) :
      Registered env c id ⟨mgr, rememberDimension c.name id s.ledger⟩ :=
    ⟨hid, (le_of_engineDimensionId hid).1, by simp [dimensionIdOf], by simp [dimensionNameOf]⟩
  rcases register_cases env c s with he | ⟨i, -, hk, he⟩ | ⟨-, -, he⟩ | ⟨i, -, -, hback, he⟩
  all_goals rw [he] at h ⊢; cases h
  · exact hledger _ ((addDefinition_id _).trans hk)
  · exact hledger _ ((writeBackId_id _).trans hback)

/-- A call that gets an id leaves a definition, unless the group does not take one. -/
theorem defined_of_some {c : Call G} {s : State G} {id : Int} (hc : c.Sane) (hadd : c.tryAdd = .added)
    (h : (registerCustomDimension env c s).1 = some id) :
    ∃ d, (registerCustomDimension env c s).2.mgr.mDimensionDefinitions.lookup c.name = some d := by
  rw [← Option.isSome_iff_exists]
  rcases register_cases env c s with he | ⟨i, -, -, he⟩ | ⟨-, -, he⟩ | ⟨i, -, -, -, he⟩
  all_goals rw [he] at h ⊢; cases h
  · exact addDefinition_isSome hadd
  · exact writeBackId_isSome (hc.kept _ (addDefinition_isSome hadd))

/-- At any point of any run of boots and calls, a definition that clients are sent has the id of its
name, and a call that gets an id leaves such a definition, but for the names with a failed call since
the boot. -/
theorem definitions_carry_ids {ids : String → Option Int} {tr : List (State G × Label G)} {u : State G}
    (h : Run (Step env) (initial ids) tr u) (hG : Meets SaneStep tr) :
    (∀ n d, u.mgr.mDimensionDefinitions.lookup n = some d → ¬Since (FailedOn env n) IsBoot tr →
        engineDimensionId env u.mgr n = some d.mDimensionType)
      ∧ ∀ c : Call G, c.Sane → ∀ id, (registerCustomDimension env c u).1 = some id →
        Registered env c id (registerCustomDimension env c u).2
          ∧ (c.tryAdd = .added → ¬Since (FailedOn env c.name) IsBoot tr →
            ∃ d, (registerCustomDimension env c u).2.mgr.mDimensionDefinitions.lookup c.name = some d
              ∧ d.mDimensionType = id) := by
  have hinv := inv_run h hG
  refine ⟨hinv.types, fun c hc id hid => ⟨registered_of_some hid, fun hadd hf => ?_⟩⟩
  obtain ⟨d, hd⟩ := defined_of_some hc hadd hid
  refine ⟨d, hd, ?_⟩
  have hnext : ¬Since (FailedOn env c.name) IsBoot (tr ++ [(u, .register c)]) := by
    rw [since_concat]
    rintro (⟨c', hl, -, -, hnone⟩ | ⟨hs, -⟩)
    · cases hl
      rw [hid] at hnone
      cases hnone
    · exact hf hs
  have htype := (hinv.register hc).types c.name d hd hnext
  rw [(registered_of_some hid).engine] at htype
  exact (Option.some.inj htype).symm

/-- Until the next boot nothing changes the definition of a name that the engine knows, whatever id is
in it, and every call for the name answers with the engine's id. -/
theorem settled_until_boot {s : State G} {tr : List (State G × Label G)} {u : State G} (h : Run (Step env) s tr u)
    (hG : Meets (fun s l => SaneStep s l ∧ ∀ ids, l ≠ .boot ids) tr) {n : String} {i : Int} {d : Definition G}
    (hid : engineDimensionId env s.mgr n = some i) (hd : s.mgr.mDimensionDefinitions.lookup n = some d) :
    u.mgr.mDimensionDefinitions.lookup n = some d
      ∧ ∀ c : Call G, c.name = n → c.level = true → (registerCustomDimension env c u).1 = some i := by
  have hu : engineDimensionId env u.mgr n = some i ∧ u.mgr.mDimensionDefinitions.lookup n = some d := by
    refine h.invariant (fun s => engineDimensionId env s.mgr n = some i ∧ s.mgr.mDimensionDefinitions.lookup n = some d)
      hG ⟨hid, hd⟩ fun s l t hs hl ht => ?_
    obtain rfl := ht
    cases l with
    | boot ids => exact absurd rfl (hl.2 ids)
    | register c =>
      refine ⟨register_keeps_id hl.1 hs.1, ?_⟩
      by_cases hn : n = c.name
      · subst hn
        rcases register_cases env c s with he | ⟨j, -, -, he⟩ | ⟨-, hk, -⟩ | ⟨id, -, hk, -, -⟩
        · rw [next, he]
          exact hs.2
        · rw [next, he, addDefinition_of_some hs.2]
          exact hs.2
        · rw [hs.1] at hk
          cases hk
        · rw [hs.1] at hk
          cases hk
      · rw [next, (register_other _ _ hl.1 hn).2]
        exact hs.2
  refine ⟨hu.2, fun c hc hl => ?_⟩
  subst hc
  rw [register_known hl hu.1]

end Run

/-! ## Instances -/

def exampleEnv : Env := ⟨none, 3⟩

/-- The engine knows no name yet. -/
def noIds : String → Option Int := fun _ => some 3

/-- The engine gives the name an id from 1000 on, and throws after it has if `throws` says so. -/
def plotsCall (throws : Bool) : Call Unit where
  name := "plots"
  minY := -64
  maxY := 320
  gen := ()
  level := true
  tryAdd := .added
  serverRegister mgr :=
    (if throws then .error () else .ok (some 1000),
      { mgr with getDimensionId := fun n => if n = "plots" then some 1000 else mgr.getDimensionId n })

theorem plotsCall_sane (throws : Bool) : (plotsCall throws).Sane where
  ids _ _ hn := if_neg hn
  definitions _ _ _ := rfl
  kept _ h := h

/-- The server after one call. -/
def afterPlots (throws : Bool) : State Unit := next exampleEnv (initial noIds) (.register (plotsCall throws))

theorem definitions_carry_ids_plots :
    (∀ n d, (afterPlots false).mgr.mDimensionDefinitions.lookup n = some d →
        ¬Since (FailedOn exampleEnv n) IsBoot [(initial noIds, .register (plotsCall false))] →
        engineDimensionId exampleEnv (afterPlots false).mgr n = some d.mDimensionType)
      ∧ ∀ c : Call Unit, c.Sane → ∀ id, (registerCustomDimension exampleEnv c (afterPlots false)).1 = some id →
        Registered exampleEnv c id (registerCustomDimension exampleEnv c (afterPlots false)).2
          ∧ (c.tryAdd = .added →
            ¬Since (FailedOn exampleEnv c.name) IsBoot [(initial noIds, .register (plotsCall false))] →
            ∃ d, (registerCustomDimension exampleEnv c (afterPlots false)).2.mgr.mDimensionDefinitions.lookup c.name
                = some d ∧ d.mDimensionType = id) := by
  have hrun : Run (Step exampleEnv) (initial noIds) [(initial noIds, .register (plotsCall false))] (afterPlots false) :=
    .single rfl
  refine definitions_carry_ids hrun ?_
  rw [meets_cons]
  exact ⟨plotsCall_sane false, meets_nil⟩

/-- After a registration that threw, the name has the id 1000, its definition says -1, and so it stays. -/
theorem settled_until_boot_plots :
    (next exampleEnv (afterPlots true) (.register (plotsCall false))).mgr.mDimensionDefinitions.lookup "plots"
        = some ⟨-64, 320, (), -1⟩
      ∧ ∀ c : Call Unit, c.name = "plots" → c.level = true →
        (registerCustomDimension exampleEnv c
          (next exampleEnv (afterPlots true) (.register (plotsCall false)))).1 = some 1000 := by
  have hrun : Run (Step exampleEnv) (afterPlots true) [(afterPlots true, .register (plotsCall false))]
      (next exampleEnv (afterPlots true) (.register (plotsCall false))) := .single rfl
  refine settled_until_boot hrun ?_ (by decide) rfl
  rw [meets_cons]
  exact ⟨⟨plotsCall_sane false, fun ids => by simp⟩, meets_nil⟩

end NativeDimensions
