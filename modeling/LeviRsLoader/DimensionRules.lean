import LeviRsLoader.Lib.Packing
import LeviRsLoader.Lib.Runs
import LeviRsLoader.Lib.Tables

/-!
# Rules of one dimension

`key`, `setDimensionRule`, `getDimensionRule`, `clearDimensionRules` and the
per-dimension counter behind `anyRuleFor`. Every function takes `rulesMutex`
for its whole body, so a run is a sequence of calls. The ABI passes both ids on
unchecked, so a rule id is any 32-bit integer; only 0 to 12 have a name.
-/
namespace DimensionRules

/-- The two static maps. -/
structure Rules where
  rules : Table UInt64 Bool := ∅
  dimCounts : Table Int32 Int32 := ∅

def kDimRuleCount : Int := 13

def key (dimension rule : Int32) : UInt64 :=
  (dimension.toUInt32.toUInt64 <<< 32) ||| rule.toUInt32.toUInt64

def anyRuleFor (s : Rules) (dimension : Int32) : Bool :=
  match s.dimCounts.lookup dimension with
  | none => false
  | some n => decide (0 < n)

/-- `insert_or_assign`, and the counter moves only when the entry is new; `operator[]`
starts a missing counter at 0. -/
def setDimensionRule (s : Rules) (dimension rule : Int32) (allow : Bool) : Rules :=
  let k := key dimension rule
  let inserted := (s.rules.lookup k).isNone
  { rules := s.rules.insert k allow
    dimCounts :=
      if inserted then s.dimCounts.insert dimension ((s.dimCounts.lookup dimension).getD 0 + 1)
      else s.dimCounts }

/-- The returned flag and the cell behind `outAllow` afterwards; `none` is a null pointer. -/
def getDimensionRule (s : Rules) (dimension rule : Int32) (outAllow : Option Bool) : Bool × Option Bool :=
  match s.rules.lookup (key dimension rule) with
  | none => (false, outAllow)
  | some v => (true, outAllow.map fun _ => v)

/-- The `for` loop over the named rules. -/
def eraseRules (dimension : Int32) (rules : Table UInt64 Bool) : Table UInt64 Bool :=
  (List.range kDimRuleCount.toNat).foldl (fun t r => t.erase (key dimension (Int32.ofNat r))) rules

def clearDimensionRules (s : Rules) (dimension : Int32) : Rules where
  rules := eraseRules dimension s.rules
  dimCounts := s.dimCounts.erase dimension

/-- `fallback` is `true` at every call: a rule nobody set lets the engine go on. -/
def allowed (s : Rules) (dimension rule : Int32) (fallback : Bool) : Bool :=
  let r := getDimensionRule s dimension rule (some fallback)
  if r.1 then r.2.getD fallback else fallback

/-- The test at the head of the hooks: the counter is asked before the rule. -/
def refuses (s : Rules) (dimension rule : Int32) : Bool :=
  decide (0 ≤ dimension) && anyRuleFor s dimension && !allowed s dimension rule true

inductive Call where
  | setDimensionRule (dimension rule : Int32) (allow : Bool)
  | clearDimensionRules (dimension : Int32)
  deriving DecidableEq, Repr

def exec (s : Rules) : Call → Rules
  | .setDimensionRule d r v => setDimensionRule s d r v
  | .clearDimensionRules d => clearDimensionRules s d

/-! ## What the table means -/

/-- What a reader of the pair finds. -/
def reads (s : Rules) (dimension rule : Int32) : Option Bool :=
  match getDimensionRule s dimension rule (some false) with
  | (true, out) => out
  | (false, _) => none

/-- The call does to the readings what its name says. -/
def Effect (s : Rules) (c : Call) : Prop :=
  match c with
  | .setDimensionRule d r v => ∀ d' r', reads (exec s c) d' r' = if d' = d ∧ r' = r then some v else reads s d' r'
  | .clearDimensionRules d => ∀ d' r', reads (exec s c) d' r' = if d' = d then none else reads s d' r'

/-- The fast path: the counter is positive exactly where some rule is set. -/
def FastPath (s : Rules) : Prop := ∀ d, anyRuleFor s d = true ↔ ∃ r, (reads s d r).isSome

/-- The dimension a key was made for. -/
def dimensionOf (k : UInt64) : Int32 := Packing.high k

/-- How many rules the dimension has. -/
def ruleCount (s : Rules) (dimension : Int32) : Nat :=
  s.rules.countIf fun k _ => decide (dimensionOf k = dimension)

/-- Clearing meets named rules only, and no counter runs past the largest `int`. -/
def InRange (s : Rules) (c : Call) : Prop :=
  match c with
  | .setDimensionRule d r _ => reads s d r = none → ruleCount s d < 2147483647
  | .clearDimensionRules d => ∀ r, (reads s d r).isSome → 0 ≤ r.toInt ∧ r.toInt < kDimRuleCount

/-! ## Keys -/

@[simp] theorem key_inj (d r d' r' : Int32) : key d r = key d' r' ↔ d = d' ∧ r = r' := Packing.pack_inj d r d' r'

@[simp] theorem dimensionOf_key (d r : Int32) : dimensionOf (key d r) = d := Packing.high_pack d r

theorem key_halves (k : UInt64) : key (dimensionOf k) (Packing.low k) = k := Packing.pack_halves k

/-! ## Readings -/

theorem reads_eq (s : Rules) (d r : Int32) : reads s d r = s.rules.lookup (key d r) := by
  unfold reads getDimensionRule
  cases s.rules.lookup (key d r) <;> rfl

theorem reads_set (s : Rules) (d r : Int32) (v : Bool) (d' r' : Int32) :
    reads (setDimensionRule s d r v) d' r' = if d' = d ∧ r' = r then some v else reads s d' r' := by
  simp only [reads_eq, setDimensionRule, AList.lookup_insert_eq, key_inj]

/-- The counter of the loop runs over 0 to 12, so it never meets another 32-bit pattern. -/
theorem ofNat_eq_iff {i : Nat} (hi : i < 2147483648) (r : Int32) : r = Int32.ofNat i ↔ r.toInt = i := by
  rw [← Int32.toInt_inj, Int32.toInt_ofNat_of_lt (by simpa using hi)]

theorem lookup_eraseLoop (d : Int32) (t : Table UInt64 Bool) (n : Nat) (hn : n ≤ 2147483648) (d' r : Int32) :
    ((List.range n).foldl (fun t i => t.erase (key d (Int32.ofNat i))) t).lookup (key d' r) =
      if d' = d ∧ 0 ≤ r.toInt ∧ r.toInt < n then none else t.lookup (key d' r) := by
  induction n with
  | zero =>
    rw [if_neg fun h => absurd h.2 (by omega)]
    rfl
  | succ n ih =>
    have hkey : key d' r = key d (Int32.ofNat n) ↔ d' = d ∧ r.toInt = n := by
      rw [key_inj, ofNat_eq_iff (by omega)]
    rw [List.range_succ, List.foldl_append, List.foldl_cons, List.foldl_nil, AList.lookup_erase_eq, ih (by omega)]
    by_cases hd : d' = d
    · simp only [hd, true_and] at hkey ⊢
      by_cases hr : r.toInt = n
      · rw [if_pos (hkey.mpr hr), if_pos (by omega)]
      · rw [if_neg (mt hkey.mp hr)]
        refine if_congr ?_ rfl rfl
        omega
    · rw [if_neg (mt hkey.mp fun h => hd h.1), if_neg fun h => hd h.1, if_neg fun h => hd h.1]

theorem reads_clear (s : Rules) (d d' r : Int32) :
    reads (clearDimensionRules s d) d' r =
      if d' = d ∧ 0 ≤ r.toInt ∧ r.toInt < kDimRuleCount then none else reads s d' r := by
  simp only [reads_eq, clearDimensionRules, eraseRules]
  exact lookup_eraseLoop d s.rules _ (by decide) d' r

/-! ## The counter -/

def counter (s : Rules) (d : Int32) : Int32 := (s.dimCounts.lookup d).getD 0

theorem anyRuleFor_eq (s : Rules) (d : Int32) : anyRuleFor s d = decide (0 < counter s d) := by
  unfold anyRuleFor counter
  cases s.dimCounts.lookup d <;> rfl

theorem counter_set (s : Rules) (d r : Int32) (v : Bool) (d' : Int32) :
    counter (setDimensionRule s d r v) d' =
      if d' = d ∧ reads s d r = none then counter s d + 1 else counter s d' := by
  rw [reads_eq]
  simp only [counter, setDimensionRule, Option.isNone_iff_eq_none]
  by_cases h : s.rules.lookup (key d r) = none
  · by_cases hd : d' = d <;> simp [h, AList.lookup_insert_eq, hd]
  · simp [h]

theorem counter_clear (s : Rules) (d d' : Int32) :
    counter (clearDimensionRules s d) d' = if d' = d then 0 else counter s d' := by
  simp only [counter, clearDimensionRules, AList.lookup_erase_eq]
  split <;> rfl

theorem ruleCount_pos (s : Rules) (d : Int32) : 0 < ruleCount s d ↔ ∃ r, (reads s d r).isSome := by
  rw [Nat.pos_iff_ne_zero, ruleCount, Ne, AList.countIf_eq_zero]
  constructor
  · intro h
    push Not at h
    obtain ⟨k, v, hk, hd⟩ := h
    have hd' : dimensionOf k = d := by simpa using hd
    refine ⟨Packing.low k, ?_⟩
    rw [reads_eq, ← hd', key_halves, hk]
    rfl
  · rintro ⟨r, hr⟩ h
    obtain ⟨v, hv⟩ := Option.isSome_iff_exists.mp hr
    have := h (key d r) v (by rw [← reads_eq, hv])
    simp at this

theorem ruleCount_set (s : Rules) (d r : Int32) (v : Bool) (d' : Int32) :
    ruleCount (setDimensionRule s d r v) d' =
      if d' = d ∧ reads s d r = none then ruleCount s d + 1 else ruleCount s d' := by
  rw [reads_eq]
  simp only [ruleCount, setDimensionRule]
  cases h : s.rules.lookup (key d r) with
  | none =>
    rw [AList.countIf_insert_of_notMem _ _ (AList.lookup_eq_none.mp h), dimensionOf_key]
    by_cases hd : d' = d
    · simp [hd]
    · simp [hd, Ne.symm hd]
  | some w =>
    rw [AList.countIf_insert_of_lookup _ v h rfl]
    simp

theorem countIf_eraseLoop (d : Int32) {d' : Int32} (hd : d' ≠ d) (l : List Nat) (t : Table UInt64 Bool) :
    (l.foldl (fun t i => t.erase (key d (Int32.ofNat i))) t).countIf (fun k _ => decide (dimensionOf k = d')) =
      t.countIf fun k _ => decide (dimensionOf k = d') := by
  induction l generalizing t with
  | nil => rfl
  | cons i l ih =>
    rw [List.foldl_cons, ih]
    cases h : t.lookup (key d (Int32.ofNat i)) with
    | none => rw [AList.erase_of_notMem (AList.lookup_eq_none.mp h)]
    | some v =>
      rw [AList.countIf_erase_of_lookup _ h]
      simp [Ne.symm hd]

theorem ruleCount_clear (s : Rules) (d : Int32) {d' : Int32} (hd : d' ≠ d) :
    ruleCount (clearDimensionRules s d) d' = ruleCount s d' := countIf_eraseLoop d hd _ s.rules

/-- The counters agree with the table, and none has wrapped. -/
def Counted (s : Rules) : Prop := ∀ d, (counter s d).toInt = ruleCount s d

theorem Counted.lt {s : Rules} (hs : Counted s) (d : Int32) : ruleCount s d ≤ 2147483647 := by
  have h := hs d
  have := (counter s d).toInt_lt
  omega

theorem Counted.fastPath {s : Rules} (hs : Counted s) : FastPath s := by
  intro d
  rw [anyRuleFor_eq, decide_eq_true_iff, Int32.lt_iff_toInt_lt, hs d, ← ruleCount_pos]
  simp

theorem counted_empty : Counted {} := by
  intro d
  simp [counter, ruleCount, AList.countIf]

/-! ## One call, and a run -/

theorem effect_set (s : Rules) (d r : Int32) (v : Bool) : Effect s (.setDimensionRule d r v) :=
  reads_set s d r v

/-- The loop of a clear covers the named rules, so it empties the dimension exactly when only those are set. -/
theorem effect_clear_iff (s : Rules) (d : Int32) :
    Effect s (.clearDimensionRules d) ↔ InRange s (.clearDimensionRules d) := by
  constructor
  · intro h r hr
    by_contra hn
    have hafter := h d r
    rw [if_pos rfl] at hafter
    have hkept := reads_clear s d d r
    rw [if_neg fun hc => hn hc.2] at hkept
    rw [← hkept, show reads (clearDimensionRules s d) d r = none from hafter] at hr
    exact Bool.noConfusion hr
  · intro h d' r'
    show reads (clearDimensionRules s d) d' r' = _
    rw [reads_clear]
    by_cases hd : d' = d
    · rw [if_pos hd]
      by_cases hr : 0 ≤ r'.toInt ∧ r'.toInt < kDimRuleCount
      · rw [if_pos ⟨hd, hr⟩]
      · rw [if_neg fun hc => hr hc.2, hd]
        exact Option.not_isSome_iff_eq_none.mp (mt (h r') hr)
    · rw [if_neg fun hc => hd hc.1, if_neg hd]

theorem Counted.set {s : Rules} (hs : Counted s) {d r : Int32} {v : Bool}
    (h : InRange s (.setDimensionRule d r v)) : Counted (setDimensionRule s d r v) := by
  intro d'
  rw [counter_set, ruleCount_set]
  split_ifs with hn
  · have hlt := h hn.2
    have hc := hs d
    rw [Int32.toInt_add, Int.bmod_eq_of_le] <;> simp <;> omega
  · exact hs d'

theorem Counted.clear {s : Rules} (hs : Counted s) {d : Int32}
    (h : InRange s (.clearDimensionRules d)) : Counted (clearDimensionRules s d) := by
  intro d'
  rw [counter_clear]
  split_ifs with hd
  · have hnone : ¬∃ r, (reads (clearDimensionRules s d) d r).isSome := by
      rintro ⟨r, hr⟩
      have := (effect_clear_iff s d).mpr h d r
      rw [if_pos rfl] at this
      rw [show reads (clearDimensionRules s d) d r = none from this] at hr
      exact Bool.noConfusion hr
    rw [← ruleCount_pos] at hnone
    rw [hd]
    simp
    omega
  · rw [ruleCount_clear s d hd]
    exact hs d'

/-- One rule too many wraps the counter to the least `int`, and the fast path then hides every rule. -/
theorem not_fastPath_of_overflow {s : Rules} (hs : Counted s) {d r : Int32} {v : Bool} (hn : reads s d r = none)
    (h : 2147483647 ≤ ruleCount s d) : ¬FastPath (setDimensionRule s d r v) := by
  intro hf
  have hlt := hs.lt d
  have hc := hs d
  have hread : ∃ r', (reads (setDimensionRule s d r v) d r').isSome := ⟨r, by rw [reads_set]; simp⟩
  have hpos := (hf d).mpr hread
  rw [anyRuleFor_eq, counter_set, if_pos ⟨rfl, hn⟩] at hpos
  have hmax : counter s d = 2147483647 := by
    rw [← Int32.toInt_inj, hc]
    simp
    omega
  rw [hmax] at hpos
  exact absurd hpos (by decide)

theorem counted_exec {s : Rules} (hs : Counted s) (c : Call) (h : InRange s c) : Counted (exec s c) := by
  cases c with
  | setDimensionRule d r v => exact hs.set h
  | clearDimensionRules d => exact hs.clear h

theorem exec_iff {s : Rules} (hs : Counted s) (c : Call) : Effect s c ∧ FastPath (exec s c) ↔ InRange s c := by
  constructor
  · rintro ⟨he, hf⟩
    cases c with
    | setDimensionRule d r v =>
      intro hn
      by_contra hle
      exact not_fastPath_of_overflow hs hn (by omega) hf
    | clearDimensionRules d => exact (effect_clear_iff s d).mp he
  · intro h
    refine ⟨?_, (counted_exec hs c h).fastPath⟩
    cases c with
    | setDimensionRule d r v => exact effect_set s d r v
    | clearDimensionRules d => exact (effect_clear_iff s d).mpr h

/-- With the counters in step the fast path changes no answer of a hook. -/
theorem Counted.refuses_eq {s : Rules} (hs : Counted s) (d r : Int32) :
    refuses s d r = (decide (0 ≤ d) && decide (reads s d r = some false)) := by
  have hany : reads s d r = some false → anyRuleFor s d = true :=
    fun h => (hs.fastPath d).mpr ⟨r, by rw [h]; rfl⟩
  rw [reads_eq] at hany ⊢
  unfold refuses allowed getDimensionRule
  cases hr : s.rules.lookup (key d r) with
  | none => simp
  | some v =>
    cases v with
    | true => simp
    | false => simp [hany hr]

/-- Every call of a run does what it says and leaves the fast path right exactly
when each clear finds named rules only and no counter overflows. -/
theorem rules_agree_iff (calls : List Call) :
    (∀ pre c suf, calls = pre ++ c :: suf →
      Effect (pre.foldl exec {}) c ∧ FastPath ((pre ++ [c]).foldl exec {})) ↔
      ∀ pre c suf, calls = pre ++ c :: suf → InRange (pre.foldl exec {}) c := by
  have h := Runs.foldl_forall_iff_of_kept (f := exec) (l := calls) (s := {}) Counted
    (fun s c => Effect s c ∧ FastPath (exec s c)) InRange counted_empty
    (fun s c hs => exec_iff hs c) (fun s c hs => counted_exec hs c)
  simpa only [List.foldl_append, List.foldl_cons, List.foldl_nil] using h

/-- A rule past the named ones outlives the clear, and the counter no longer knows of it. -/
theorem clear_leaves_unnamed_rule :
    ¬∀ calls : List Call, ∀ pre c suf, calls = pre ++ c :: suf →
      Effect (pre.foldl exec {}) c ∧ FastPath ((pre ++ [c]).foldl exec {}) := by
  intro h
  have he := (h [.setDimensionRule 3 13 false, .clearDimensionRules 3] [.setDimensionRule 3 13 false]
    (.clearDimensionRules 3) [] rfl).1 3 13
  exact absurd he (by decide)

end DimensionRules
