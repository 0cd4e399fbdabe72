import LeviRsLoader.Lib.Dispatch
import LeviRsLoader.Bus

/-!
# Publishing on the bus

`publishImpl` walks a snapshot of the topic's ids and looks every one up again
at its turn. Its callbacks may subscribe, unsubscribe, publish and change which
mods are alive and enabled.
-/
namespace BusDispatch

open LeviRs Bus Runs Dispatch

/-- The tables, the thread's nesting depth, and the mods the loader has. -/
structure Registry where
  tables : Tables
  gDepth : Nat
  alive : ModId → Bool
  enabled : ModId → Bool

structure Request where
  publisher : Option ModId
  topic : String
  payload : String
  deriving DecidableEq

structure Result where
  delivered : Nat
  vetoed : Bool
  deriving DecidableEq, Repr

/-- What a callback may do besides publishing. Disabling and unloading a mod
changes `alive` and `enabled`; an unload also sweeps the tables. -/
inductive Op where
  | subscribe (mod : Option ModId) (topic : String) (cb : Option Ptr) (user : Ptr)
  | unsubscribe (mod : Option ModId) (subId : Nat)
  | modGone (mod : ModId)
  | setMods (alive enabled : ModId → Bool)

def apply : Op → Registry → Registry
  | .subscribe mod topic cb user, r => { r with tables := (api_bus_subscribe r.alive mod topic cb user r.tables).2 }
  | .unsubscribe mod subId, r => { r with tables := (api_bus_unsubscribe mod subId r.tables).2 }
  | .modGone mod, r => { r with tables := busOnRustModGone mod r.tables }
  | .setMods alive enabled, r => { r with alive := alive, enabled := enabled }

/-- The checks of `fireOne` before the call. -/
def accepts (r : Registry) (id : Nat) : Bool :=
  match r.tables.gSubs.lookup id with
  | none => false
  | some sub => r.alive sub.mod && r.enabled sub.mod

/-- `publishImpl`. A callback replies with its veto bit. -/
def bus : Dispatcher Registry Request Nat Op Bool Result where
  admits k r := validTopic k.topic && decide (r.gDepth < kMaxDepth)
  opened _ r := { r with gDepth := r.gDepth + 1 }
  snapshot k r := idsFor k.topic k.publisher r.tables
  accepts _ r id := accepts r id
  start _ := ⟨0, false⟩
  absorb _ c v := ⟨c.delivered + 1, c.vetoed || v⟩
  stops _ _ := false
  closed _ r := { r with gDepth := r.gDepth - 1 }
  apply := apply

abbrev BusState := State Registry Request Nat Result

abbrev BusTrace := Trace Registry Request Nat Op Bool Result

abbrev BusStep := Step bus

def start (alive enabled : ModId → Bool) : BusState := ⟨⟨Tables.initial, 0, alive, enabled⟩, []⟩

/-- A publish from its call to its return: what went on meanwhile and the result. -/
inductive Publish : BusState → Request → BusTrace → Result → BusState → Prop where
  | run {s q t : BusState} {k : Request} {mid : BusTrace} {c : Result}
      (h : Run BusStep s ((s, .begin k) :: mid) q) (hk : bus.admits k s.reg = true)
      (hw : Within s.stack.length mid) (hd : q.stack.length = s.stack.length + 1) (hf : BusStep q (.finish c) t) :
      Publish s k mid c t
  | dropped {s : BusState} {k : Request} (hm : InMod s.stack) (hk : bus.admits k s.reg = false) :
      Publish s k [] ⟨0, false⟩ s

/-- What a publish promises. -/
structure PublishOk (s : BusState) (k : Request) (mid : BusTrace) (c : Result) (t : BusState) : Prop where
  inOrder : (entered s.stack.length mid).Sublist ((s.reg.tables.gByTopic.lookup k.topic).getD [])
  once : (entered s.stack.length mid).Pairwise (· < ·)
  fromStart : ∀ id ∈ entered s.stack.length mid,
    ∃ sub, s.reg.tables.gSubs.lookup id = some sub ∧ sub.topic = k.topic ∧ some sub.mod ≠ k.publisher
  current : ∀ e ∈ mid, e.1.stack.length = s.stack.length + 1 → ∀ id, e.2 = .enter id →
    ∃ sub, e.1.reg.tables.gSubs.lookup id = some sub ∧ s.reg.tables.gSubs.lookup id = some sub ∧
      e.1.reg.alive sub.mod = true ∧ e.1.reg.enabled sub.mod = true
  complete : ∀ id sub, s.reg.tables.gSubs.lookup id = some sub → sub.topic = k.topic → some sub.mod ≠ k.publisher →
    id ∈ entered s.stack.length mid ∨
    ∃ e ∈ mid, e.1.stack.length = s.stack.length + 1 ∧ e.2 = .skip id ∧
      (e.1.reg.tables.gSubs.lookup id = none ∨ e.1.reg.alive sub.mod = false ∨ e.1.reg.enabled sub.mod = false)
  delivered : c.delivered = (entered s.stack.length mid).length
  vetoed : c.vetoed = (replies s.stack.length mid).any id
  depth : t.reg.gDepth = s.reg.gDepth

/-! ## Invariants of every run -/

/-- Sound tables, and a depth counter that counts the dispatches in progress. -/
structure Sound (s : BusState) : Prop where
  tables : s.reg.tables.WellFormed
  depth : s.reg.gDepth = s.stack.length
  bound : s.stack.length ≤ kMaxDepth

theorem apply_wellFormed (o : Op) {r : Registry} (h : r.tables.WellFormed) : (apply o r).tables.WellFormed := by
  cases o with
  | subscribe mod topic cb user => exact api_bus_subscribe_wellFormed _ _ _ _ _ h
  | unsubscribe mod subId => exact api_bus_unsubscribe_wellFormed _ _ h
  | modGone mod => exact busOnRustModGone_wellFormed _ h
  | setMods => exact h

theorem gDepth_apply (o : Op) (r : Registry) : (apply o r).gDepth = r.gDepth := by
  cases o <;> rfl

theorem Sound.step {s t : BusState} {l : Label Request Nat Op Bool Result} (h : Sound s) (hs : BusStep s l t) :
    Sound t := by
  obtain ⟨htables, hdepth, hbound⟩ := h
  cases hs with
  | begin hm hk =>
    refine ⟨htables, congrArg (· + 1) hdepth, ?_⟩
    simp only [bus, Bool.and_eq_true, decide_eq_true_eq] at hk
    have := hk.2
    simp only at hdepth
    simp only [List.length_cons]
    omega
  | refuse => exact ⟨htables, hdepth, hbound⟩
  | op => exact ⟨apply_wellFormed _ htables, (gDepth_apply _ _).trans hdepth, hbound⟩
  | enter => exact ⟨htables, hdepth, hbound⟩
  | skip => exact ⟨htables, hdepth, hbound⟩
  | leave => exact ⟨htables, hdepth, hbound⟩
  | finish =>
    simp only [List.length_cons] at hdepth hbound
    refine ⟨htables, ?_, by simp only; omega⟩
    simp only [bus]
    omega

theorem sound_of_reachable {alive enabled : ModId → Bool} {s : BusState}
    (h : Reachable BusStep (start alive enabled) s) : Sound s :=
  h.invariant Sound ⟨wellFormed_initial, rfl, Nat.zero_le _⟩ fun _ _ _ hs hstep => hs.step hstep

/-- Of the ids given out by then, a later table holds the same subscriptions or none. -/
structure Since (t₀ : Tables) (r : Registry) : Prop where
  next_le : t₀.gNextSubId ≤ r.tables.gNextSubId
  same : ∀ id, id < t₀.gNextSubId →
    r.tables.gSubs.lookup id = none ∨ r.tables.gSubs.lookup id = t₀.gSubs.lookup id

theorem since_refl (r : Registry) : Since r.tables r := ⟨Nat.le_refl _, fun _ _ => .inr rfl⟩

theorem keeps_since (t₀ : Tables) : Keeps bus (Since t₀) where
  opened _ _ h := ⟨h.next_le, h.same⟩
  closed _ _ h := ⟨h.next_le, h.same⟩
  apply o r h := by
    cases o with
    | subscribe mod topic cb user =>
      obtain he | ⟨raw, fn, _, _, _, _, he⟩ := api_bus_subscribe_cases r.alive mod topic cb user r.tables
      · simp only [bus, apply, he]
        exact ⟨h.next_le, h.same⟩
      · simp only [bus, apply, he]
        refine ⟨Nat.le_succ_of_le h.next_le, fun id hid => ?_⟩
        have hne : id ≠ r.tables.gNextSubId := Nat.ne_of_lt (Nat.lt_of_lt_of_le hid h.next_le)
        simp only [addSub, AList.lookup_insert_eq, if_neg hne]
        exact h.same id hid
    | unsubscribe mod subId =>
      obtain he | ⟨raw, sub, _, _, _, he⟩ := api_bus_unsubscribe_cases mod subId r.tables
      · simp only [bus, apply, he]
        exact ⟨h.next_le, h.same⟩
      · simp only [bus, apply, he]
        refine ⟨h.next_le, fun id hid => ?_⟩
        simp only [dropSub, AList.lookup_erase_eq]
        split
        · exact .inl rfl
        · exact h.same id hid
    | modGone mod =>
      refine ⟨?_, fun id hid => ?_⟩
      · simp only [bus, apply, gNextSubId_busOnRustModGone]
        exact h.next_le
      · simp only [bus, apply, lookup_busOnRustModGone]
        rcases h.same id hid with he | he
        · exact .inl (by rw [he]; rfl)
        · rw [he]
          cases hl : t₀.gSubs.lookup id with
          | none => exact .inl rfl
          | some sub =>
            by_cases hm : sub.mod = mod
            · exact .inl (by simp [Option.filter, hm])
            · exact .inr (by simp [Option.filter, hm])
    | setMods => exact ⟨h.next_le, h.same⟩

/-! ## What a publish does -/

theorem foldl_absorb (k : Request) (vs : List Bool) (c : Result) :
    vs.foldl (bus.absorb k) c = ⟨c.delivered + vs.length, c.vetoed || vs.any id⟩ := by
  induction vs generalizing c with
  | nil => simp
  | cons v vs ih =>
    rw [List.foldl_cons, ih]
    simp only [bus, List.length_cons, List.any_cons, id, Bool.or_assoc, Result.mk.injEq, and_true]
    omega

theorem idsFor_sublist (topic : String) (publisher : Option ModId) (s : Tables) :
    (idsFor topic publisher s).Sublist ((s.gByTopic.lookup topic).getD []) := by
  unfold idsFor
  split
  · exact List.nil_sublist _
  · next ids hids =>
    rw [hids]
    exact List.filter_sublist

/-- A publish of a topic no subscription can have, or too deep: nobody is called. -/
theorem publishOk_dropped {s : BusState} {k : Request} (hs : Sound s) (hv : validTopic k.topic = false) :
    PublishOk s k [] ⟨0, false⟩ s where
  inOrder := List.nil_sublist _
  once := .nil
  fromStart := by simp [entered, atLevel]
  current := by simp
  complete id sub hl ht := by
    have := hs.tables.valid id sub hl
    rw [ht, hv] at this
    cases this
  delivered := rfl
  vetoed := rfl
  depth := rfl

/-- An id accepted when its turn comes names the subscription it named at the start. -/
theorem Since.of_accepts {t₀ : Tables} {r : Registry} {id : Nat} {sub : Subscription} (h : Since t₀ r)
    (hid : id < t₀.gNextSubId) (hl : t₀.gSubs.lookup id = some sub) (ha : accepts r id = true) :
    r.tables.gSubs.lookup id = some sub ∧ r.alive sub.mod = true ∧ r.enabled sub.mod = true := by
  rcases h.same id hid with hn | hsame
  · rw [accepts, hn] at ha
    cases ha
  · rw [hl] at hsame
    rw [accepts, hsame, Bool.and_eq_true] at ha
    exact ⟨hsame, ha.1, ha.2⟩

/-- An id passed over is gone, or its mod is. -/
theorem Since.of_refuses {t₀ : Tables} {r : Registry} {id : Nat} {sub : Subscription} (h : Since t₀ r)
    (hid : id < t₀.gNextSubId) (hl : t₀.gSubs.lookup id = some sub) (ha : accepts r id = false) :
    r.tables.gSubs.lookup id = none ∨ r.alive sub.mod = false ∨ r.enabled sub.mod = false := by
  rcases h.same id hid with hn | hsame
  · exact .inl hn
  · rw [hl] at hsame
    rw [accepts, hsame, Bool.and_eq_false_iff] at ha
    exact .inr ha

theorem publishOk_run {s q t : BusState} {k : Request} {mid : BusTrace} {c : Result} (hs : Sound s)
    (h : Run BusStep s ((s, .begin k) :: mid) q) (hk : bus.admits k s.reg = true)
    (hw : Within s.stack.length mid) (hd : q.stack.length = s.stack.length + 1) (hf : BusStep q (.finish c) t) :
    PublishOk s k mid c t := by
  obtain ⟨hcomplete, hstack, hreg⟩ := complete_of_run (fun _ _ => rfl) h hk hw hd hf
  have hturns : idsFor k.topic k.publisher s.reg.tables = turns s.stack.length mid := hcomplete.turns
  have hsub : (entered s.stack.length mid).Sublist (idsFor k.topic k.publisher s.reg.tables) :=
    hturns ▸ entered_sublist _ _
  have hsince : ∀ e ∈ mid, Since s.reg.tables e.1.reg := by
    intro e he
    obtain ⟨pre, suf, rfl⟩ := List.append_of_mem he
    have hpre : Run BusStep s (((s, .begin k) :: pre) ++ e :: suf) q := h
    obtain ⟨_, hrun, _⟩ := hpre.split_cons
    exact (keeps_since s.reg.tables).run hrun (since_refl s.reg)
  have hq : Sound q := h.invariant' Sound hs fun _ _ _ hs hstep => hs.step hstep
  refine ⟨hsub.trans (idsFor_sublist _ _ _), (sorted_idsFor hs.tables _ _).sublist hsub, ?_, ?_, ?_, ?_, ?_, ?_⟩
  · intro id hid
    exact (mem_idsFor hs.tables).mp (hsub.subset hid)
  · intro e he hlevel id hl
    have hid : id ∈ entered s.stack.length mid := mem_entered.mpr ⟨e, he, hlevel, hl⟩
    obtain ⟨sub, hsub, _, _⟩ := (mem_idsFor hs.tables).mp (hsub.subset hid)
    obtain ⟨hnow, halive⟩ :=
      (hsince e he).of_accepts (hs.tables.lt id sub hsub) hsub (hcomplete.accepted e he hlevel id hl)
    exact ⟨sub, hnow, hsub, halive⟩
  · intro id sub hl ht hp
    have hmem : id ∈ turns s.stack.length mid := hturns ▸ (mem_idsFor hs.tables).mpr ⟨sub, hl, ht, hp⟩
    obtain h | ⟨e, he, hlevel, hskip⟩ := mem_turns.mp hmem
    · exact .inl h
    · have hgone :=
        (hsince e he).of_refuses (hs.tables.lt id sub hl) hl (hcomplete.refused e he hlevel id hskip)
      exact .inr ⟨e, he, hlevel, hskip, hgone⟩
  · have hbalance := hcomplete.balance
    rw [hcomplete.acc, foldl_absorb]
    simp only [bus]
    omega
  · rw [hcomplete.acc, foldl_absorb]
    simp [bus]
  · have h₁ := hq.depth
    have h₂ := hs.depth
    rw [hreg]
    simp only [bus]
    omega

/-- In every reachable state the tables are sound, the depth counter counts the
nested dispatches and stays within the cap, and every publish made below the
cap does what it promises. -/
theorem publish_below_cap {alive enabled : ModId → Bool} {s : BusState}
    (h : Reachable BusStep (start alive enabled) s) :
    s.reg.tables.WellFormed ∧ s.reg.gDepth = s.stack.length ∧ s.stack.length ≤ kMaxDepth ∧
      ∀ k mid c t, Publish s k mid c t → s.reg.gDepth < kMaxDepth → PublishOk s k mid c t := by
  have hs := sound_of_reachable h
  refine ⟨hs.tables, hs.depth, hs.bound, ?_⟩
  intro k mid c t hp hcap
  cases hp with
  | run h hk hw hd hf => exact publishOk_run hs h hk hw hd hf
  | dropped hm hk =>
    apply publishOk_dropped hs
    simpa [bus, hcap] using hk

/-! ## At the cap -/

def everyone : ModId → Bool := fun _ => true

/-- Mod 1 is subscribed to one topic. -/
def oneSubscriber : Registry :=
  apply (.subscribe (some 1) "a" (some 10) 11) (start everyone everyone).reg

def publishA : Request := ⟨none, "a", ""⟩

/-- `n` dispatches in progress, each from within the callback of the one below. -/
def nested (n : Nat) : BusState :=
  ⟨{ oneSubscriber with gDepth := n }, List.replicate n ⟨publishA, some 1, [], ⟨0, false⟩⟩⟩

theorem nested_reachable (n : Nat) (h : n ≤ kMaxDepth) : Reachable BusStep (start everyone everyone) (nested n) := by
  induction n with
  | zero =>
    have hs : BusStep (start everyone everyone) (.op (.subscribe (some 1) "a" (some 10) 11)) (nested 0) :=
      .op trivial
    exact (Reachable.refl _).tail hs
  | succ n ih =>
    have hadmits : bus.admits publishA (nested n).reg = true := by
      simp only [bus, nested, Bool.and_eq_true, decide_eq_true_eq]
      exact ⟨by decide, h⟩
    have hm : InMod (nested n).stack := by
      cases n with
      | zero => trivial
      | succ n => rfl
    exact ((ih (Nat.le_of_succ_le h)).tail (.begin hm hadmits)).tail (.enter rfl)

/-- A publish from within eight nested ones reaches nobody. -/
theorem ninth_publish_dropped :
    ¬∀ alive enabled s, Reachable BusStep (start alive enabled) s →
      ∀ k mid c t, Publish s k mid c t → PublishOk s k mid c t := by
  intro h
  have hp : Publish (nested 8) publishA [] ⟨0, false⟩ (nested 8) := .dropped rfl (by decide)
  rcases (h _ _ _ (nested_reachable 8 (Nat.le_refl _)) _ _ _ _ hp).complete 1 ⟨1, "a", ⟨10, 11⟩⟩ rfl rfl
    (by simp [publishA]) with hm | ⟨e, he, _⟩
  · cases hm
  · cases he

/-- One publish, one subscriber, one veto. -/
theorem publish_vetoed : PublishOk (nested 0) publishA
    [(⟨{ oneSubscriber with gDepth := 1 }, [⟨publishA, none, [1], ⟨0, false⟩⟩]⟩, .enter 1),
      (⟨{ oneSubscriber with gDepth := 1 }, [⟨publishA, some 1, [], ⟨0, false⟩⟩]⟩, .leave true)]
    ⟨1, true⟩ (nested 0) :=
  (publish_below_cap (nested_reachable 0 (Nat.zero_le _))).2.2.2 _ _ _ _
    (.run (.cons (.begin trivial rfl) <| .cons (.enter rfl) <| .cons (.leave true) (.nil _)) rfl
      (by simp [Within, nested]) rfl .finish)
    (by decide)

end BusDispatch
