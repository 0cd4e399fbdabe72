import LeviRsLoader.RustMod

/-!
# The bus tables

`gSubs`, `gByTopic` and the operations of `Bus.cpp` that change them.
-/
namespace Bus

open LeviRs

def kMaxTopic : Nat := 128

def kMaxDepth : Nat := 8

structure Subscription where
  mod : ModId
  topic : String
  cb : Callback
  deriving DecidableEq, Repr

structure Tables where
  gSubs : Table Nat Subscription
  gByTopic : Table String (List Nat)
  gNextSubId : Nat

def Tables.initial : Tables := ⟨∅, ∅, 1⟩

def validTopic (topic : String) : Bool := 0 < topic.utf8ByteSize && topic.utf8ByteSize ≤ kMaxTopic

/-- `gSubs[id] = sub; gByTopic[topic].push_back(id)` under the next id. -/
def addSub (sub : Subscription) (s : Tables) : Tables :=
  { gSubs := s.gSubs.insert s.gNextSubId sub,
    gByTopic := s.gByTopic.insert sub.topic ((s.gByTopic.lookup sub.topic).getD [] ++ [s.gNextSubId]),
    gNextSubId := s.gNextSubId + 1 }

/-- The id (0 for a refusal). `live`: the mod is owned by a shared pointer. -/
def api_bus_subscribe (live : ModId → Bool) (mod : Option ModId) (topic : String) (cb : Option Ptr)
    (user : Ptr) (s : Tables) : Nat × Tables :=
  match cb, mod with
  | some fn, some raw =>
    if !validTopic topic then (0, s)
    else if !live raw then (0, s)
    else (s.gNextSubId, addSub ⟨raw, topic, ⟨fn, user⟩⟩ s)
  | _, _ => (0, s)

/-- A subscription taken out of both tables. -/
def dropSub (id : Nat) (sub : Subscription) (s : Tables) : Tables :=
  { s with
    gByTopic := match s.gByTopic.lookup sub.topic with
      | none => s.gByTopic
      | some v =>
        if (v.filter fun i => i != id).isEmpty then s.gByTopic.erase sub.topic
        else s.gByTopic.insert sub.topic (v.filter fun i => i != id),
    gSubs := s.gSubs.erase id }

def api_bus_unsubscribe (mod : Option ModId) (subId : Nat) (s : Tables) : Bool × Tables :=
  match mod with
  | none => (false, s)
  | some raw =>
    if subId = 0 then (false, s)
    else match s.gSubs.lookup subId with
      | none => (false, s)
      | some sub => if sub.mod ≠ raw then (false, s) else (true, dropSub subId sub s)

def api_bus_subscriber_count (topic : String) (s : Tables) : Nat :=
  if topic.isEmpty then 0 else ((s.gByTopic.lookup topic).map List.length).getD 0

/-- One round of the sweep's loop. -/
def sweepOne (s : Tables) (id : Nat) : Tables :=
  match s.gSubs.lookup id with
  | none => s
  | some sub => dropSub id sub s

def busOnRustModGone (mod : ModId) (s : Tables) : Tables :=
  (s.gSubs.keysIf fun _ sub => sub.mod == mod).foldl sweepOne s

/-- The ids subscribed to a topic, without the publisher's own. -/
def idsFor (topic : String) (publisher : Option ModId) (s : Tables) : List Nat :=
  match s.gByTopic.lookup topic with
  | none => []
  | some ids => ids.filter fun id =>
    match s.gSubs.lookup id with
    | none => false
    | some sub => some sub.mod != publisher

/-! ## The two tables agree -/

/-- Each live id is listed once, in subscription order, under its own topic
only, and no topic has an empty list. -/
structure Tables.WellFormed (s : Tables) : Prop where
  lt : ∀ id sub, s.gSubs.lookup id = some sub → id < s.gNextSubId
  valid : ∀ id sub, s.gSubs.lookup id = some sub → validTopic sub.topic = true
  listed : ∀ id sub, s.gSubs.lookup id = some sub → ∃ ids, s.gByTopic.lookup sub.topic = some ids ∧ id ∈ ids
  own : ∀ topic ids, s.gByTopic.lookup topic = some ids → ∀ id ∈ ids,
    ∃ sub, s.gSubs.lookup id = some sub ∧ sub.topic = topic
  sorted : ∀ topic ids, s.gByTopic.lookup topic = some ids → ids.Pairwise (· < ·)
  nonempty : ∀ topic ids, s.gByTopic.lookup topic = some ids → ids ≠ []

theorem wellFormed_initial : Tables.initial.WellFormed :=
  ⟨by simp [Tables.initial], by simp [Tables.initial], by simp [Tables.initial], by simp [Tables.initial],
    by simp [Tables.initial], by simp [Tables.initial]⟩

namespace Tables.WellFormed

variable {s : Tables}

theorem addSub (h : s.WellFormed) {sub : Subscription} (hv : validTopic sub.topic = true) :
    (addSub sub s).WellFormed where
  lt id sub' hl := by
    simp only [Bus.addSub, AList.lookup_insert_eq] at hl ⊢
    split at hl
    · next he => exact he ▸ Nat.lt_succ_self _
    · exact Nat.lt_succ_of_lt (h.lt id sub' hl)
  valid id sub' hl := by
    simp only [Bus.addSub, AList.lookup_insert_eq] at hl
    split at hl
    · cases hl
      exact hv
    · exact h.valid id sub' hl
  listed id sub' hl := by
    simp only [Bus.addSub, AList.lookup_insert_eq] at hl ⊢
    split at hl
    · next he =>
      cases hl
      exact ⟨_, if_pos rfl, by simp [he]⟩
    · obtain ⟨ids, hids, hm⟩ := h.listed id sub' hl
      split
      · next he => exact ⟨_, rfl, by rw [← he, hids]; exact List.mem_append_left _ hm⟩
      · exact ⟨ids, hids, hm⟩
  own topic ids hl id hm := by
    simp only [Bus.addSub, AList.lookup_insert_eq] at hl ⊢
    have hold : ∀ ids', s.gByTopic.lookup topic = some ids' → id ∈ ids' →
        ∃ sub', (if id = s.gNextSubId then some sub else s.gSubs.lookup id) = some sub' ∧ sub'.topic = topic := by
      intro ids' hids' hm'
      obtain ⟨sub', hs', ht⟩ := h.own topic ids' hids' id hm'
      rw [if_neg (Nat.ne_of_lt (h.lt id sub' hs'))]
      exact ⟨sub', hs', ht⟩
    split at hl
    · next he =>
      cases hl
      rcases List.mem_append.mp hm with hm | hm
      · cases hids : s.gByTopic.lookup sub.topic with
        | none =>
          rw [hids] at hm
          cases hm
        | some ids' =>
          rw [hids] at hm
          exact hold ids' (he ▸ hids) hm
      · exact ⟨sub, by rw [if_pos (List.mem_singleton.mp hm)], he.symm⟩
    · exact hold ids hl hm
  sorted topic ids hl := by
    simp only [Bus.addSub, AList.lookup_insert_eq] at hl
    split at hl
    · cases hl
      cases hids : s.gByTopic.lookup sub.topic with
      | none => simp
      | some ids' =>
        simp only [Option.getD_some, List.pairwise_append, List.pairwise_cons, List.not_mem_nil, false_implies,
          implies_true, List.Pairwise.nil, and_self, List.mem_singleton, forall_eq, true_and]
        refine ⟨h.sorted _ _ hids, fun id hid => ?_⟩
        obtain ⟨sub', hs', _⟩ := h.own _ _ hids id hid
        exact h.lt id sub' hs'
    · exact h.sorted topic ids hl
  nonempty topic ids hl := by
    simp only [Bus.addSub, AList.lookup_insert_eq] at hl
    split at hl
    · cases hl
      simp
    · exact h.nonempty topic ids hl

/-- What is left under a topic once a subscription is taken out. -/
theorem lookup_dropSub (h : s.WellFormed) {id : Nat} {sub : Subscription} (hs : s.gSubs.lookup id = some sub)
    {topic : String} {ids : List Nat} (hl : (dropSub id sub s).gByTopic.lookup topic = some ids) :
    ids ≠ [] ∧ ∃ ids', s.gByTopic.lookup topic = some ids' ∧ ids = ids'.filter fun i => i != id := by
  -- under another topic the id does not occur, so the filter takes nothing out
  have hother : ∀ ids', topic ≠ sub.topic → s.gByTopic.lookup topic = some ids' →
      ids'.filter (fun i => i != id) = ids' := by
    intro ids' hne hids'
    rw [List.filter_eq_self]
    intro i hi
    obtain ⟨sub', hs', ht⟩ := h.own topic ids' hids' i hi
    rw [bne_iff_ne]
    intro he
    subst he
    rw [hs] at hs'
    cases hs'
    exact hne ht.symm
  obtain ⟨v, hv, _⟩ := h.listed id sub hs
  simp only [dropSub, hv] at hl
  split at hl
  · rw [AList.lookup_erase_eq] at hl
    split at hl
    · cases hl
    · next hne => exact ⟨h.nonempty topic ids hl, ids, hl, (hother ids hne hl).symm⟩
  · next hempty =>
    rw [AList.lookup_insert_eq] at hl
    split at hl
    · next he =>
      cases hl
      exact ⟨by simpa using hempty, v, he ▸ hv, rfl⟩
    · next hne => exact ⟨h.nonempty topic ids hl, ids, hl, (hother ids hne hl).symm⟩

theorem dropSub (h : s.WellFormed) {id : Nat} {sub : Subscription} (hs : s.gSubs.lookup id = some sub) :
    (dropSub id sub s).WellFormed := by
  have hsubs : ∀ id' sub', (Bus.dropSub id sub s).gSubs.lookup id' = some sub' →
      id' ≠ id ∧ s.gSubs.lookup id' = some sub' := by
    intro id' sub' hl
    simp only [Bus.dropSub, AList.lookup_erase_eq] at hl
    split at hl
    · cases hl
    · next hne => exact ⟨hne, hl⟩
  refine ⟨fun id' sub' hl => h.lt id' sub' (hsubs id' sub' hl).2,
    fun id' sub' hl => h.valid id' sub' (hsubs id' sub' hl).2, ?_, ?_, ?_, ?_⟩
  · intro id' sub' hl
    obtain ⟨hne, hl⟩ := hsubs id' sub' hl
    obtain ⟨ids, hids, hm⟩ := h.listed id' sub' hl
    obtain ⟨v, hv, hvm⟩ := h.listed id sub hs
    simp only [Bus.dropSub, hv]
    by_cases ht : sub'.topic = sub.topic
    · have hv' : v = ids := by
        rw [ht, hv] at hids
        exact Option.some.inj hids
      subst hv'
      have hmem : id' ∈ v.filter fun i => i != id := by simp [hm, hne]
      rw [if_neg (by simpa using ⟨id', hm, hne⟩), AList.lookup_insert_eq, if_pos ht]
      exact ⟨_, rfl, hmem⟩
    · split
      · exact ⟨ids, by rw [AList.lookup_erase_eq, if_neg ht]; exact hids, hm⟩
      · exact ⟨ids, by rw [AList.lookup_insert_eq, if_neg ht]; exact hids, hm⟩
  · intro topic ids hl id' hm
    obtain ⟨_, ids', hids', rfl⟩ := h.lookup_dropSub hs hl
    obtain ⟨hm, hne⟩ := List.mem_filter.mp hm
    obtain ⟨sub', hs', ht⟩ := h.own topic ids' hids' id' hm
    refine ⟨sub', ?_, ht⟩
    simp only [Bus.dropSub, AList.lookup_erase_eq]
    rw [if_neg (bne_iff_ne.mp hne)]
    exact hs'
  · intro topic ids hl
    obtain ⟨_, ids', hids', rfl⟩ := h.lookup_dropSub hs hl
    exact (h.sorted topic ids' hids').filter _
  · intro topic ids hl
    exact (h.lookup_dropSub hs hl).1

theorem sweepOne (h : s.WellFormed) (id : Nat) : (sweepOne s id).WellFormed := by
  unfold Bus.sweepOne
  split
  · exact h
  · next sub hl => exact h.dropSub hl

end Tables.WellFormed

theorem sweep_wellFormed (ids : List Nat) {s : Tables} (h : s.WellFormed) : (ids.foldl sweepOne s).WellFormed := by
  induction ids generalizing s with
  | nil => exact h
  | cons id ids ih => exact ih (h.sweepOne id)

theorem busOnRustModGone_wellFormed (mod : ModId) {s : Tables} (h : s.WellFormed) :
    (busOnRustModGone mod s).WellFormed := sweep_wellFormed _ h

theorem api_bus_subscribe_cases (live : ModId → Bool) (mod : Option ModId) (topic : String) (cb : Option Ptr)
    (user : Ptr) (s : Tables) :
    api_bus_subscribe live mod topic cb user s = (0, s) ∨
    ∃ raw fn, mod = some raw ∧ cb = some fn ∧ validTopic topic = true ∧ live raw = true ∧
      api_bus_subscribe live mod topic cb user s = (s.gNextSubId, addSub ⟨raw, topic, ⟨fn, user⟩⟩ s) := by
  cases cb with
  | none => exact .inl rfl
  | some fn =>
    cases mod with
    | none => exact .inl rfl
    | some raw =>
      simp only [api_bus_subscribe]
      split_ifs with h₁ h₂
      · exact .inl rfl
      · exact .inl rfl
      · exact .inr ⟨raw, fn, rfl, rfl, by simpa using h₁, by simpa using h₂, rfl⟩

theorem api_bus_unsubscribe_cases (mod : Option ModId) (subId : Nat) (s : Tables) :
    api_bus_unsubscribe mod subId s = (false, s) ∨
    ∃ raw sub, mod = some raw ∧ s.gSubs.lookup subId = some sub ∧ sub.mod = raw ∧
      api_bus_unsubscribe mod subId s = (true, dropSub subId sub s) := by
  cases mod with
  | none => exact .inl rfl
  | some raw =>
    simp only [api_bus_unsubscribe]
    split
    · exact .inl rfl
    · split
      · exact .inl rfl
      · next sub hl =>
        split
        · exact .inl rfl
        · next hm => exact .inr ⟨raw, sub, rfl, hl, by simpa using hm, rfl⟩

theorem api_bus_subscribe_wellFormed (live : ModId → Bool) (mod : Option ModId) (topic : String)
    (cb : Option Ptr) (user : Ptr) {s : Tables} (h : s.WellFormed) :
    (api_bus_subscribe live mod topic cb user s).2.WellFormed := by
  obtain he | ⟨raw, fn, _, _, hv, _, he⟩ := api_bus_subscribe_cases live mod topic cb user s
  · rw [he]
    exact h
  · rw [he]
    exact h.addSub hv

theorem api_bus_unsubscribe_wellFormed (mod : Option ModId) (subId : Nat) {s : Tables} (h : s.WellFormed) :
    (api_bus_unsubscribe mod subId s).2.WellFormed := by
  obtain he | ⟨raw, sub, _, hl, _, he⟩ := api_bus_unsubscribe_cases mod subId s
  · rw [he]
    exact h
  · rw [he]
    exact h.dropSub hl

/-- The sweep leaves exactly the subscriptions of other mods. -/
theorem lookup_busOnRustModGone (mod : ModId) (s : Tables) (id : Nat) :
    (busOnRustModGone mod s).gSubs.lookup id = (s.gSubs.lookup id).filter fun sub => sub.mod != mod := by
  have hfold : ∀ (ids : List Nat) (s : Tables),
      (ids.foldl sweepOne s).gSubs.lookup id = if id ∈ ids then none else s.gSubs.lookup id := by
    intro ids
    induction ids with
    | nil => simp
    | cons i ids ih =>
      intro s
      have hone : (sweepOne s i).gSubs.lookup id = if id = i then none else s.gSubs.lookup id := by
        unfold sweepOne
        split
        · next hl =>
          split
          · next he => rw [he, hl]
          · rfl
        · rw [dropSub, AList.lookup_erase_eq]
      rw [List.foldl_cons, ih, hone]
      by_cases h₁ : id ∈ ids <;> by_cases h₂ : id = i <;> simp [h₁, h₂]
  rw [busOnRustModGone, hfold]
  split
  · next hm =>
    obtain ⟨sub, hl, hmod⟩ := (AList.mem_keysIf _ _ _).mp hm
    simp [hl, Option.filter, beq_iff_eq.mp hmod]
  · next hm =>
    cases hl : s.gSubs.lookup id with
    | none => rfl
    | some sub =>
      have : sub.mod ≠ mod := by
        intro he
        exact hm ((AList.mem_keysIf _ _ _).mpr ⟨sub, hl, by simpa using he⟩)
      simp [Option.filter, this]

theorem gNextSubId_busOnRustModGone (mod : ModId) (s : Tables) :
    (busOnRustModGone mod s).gNextSubId = s.gNextSubId := by
  unfold busOnRustModGone
  generalize s.gSubs.keysIf (fun _ sub => sub.mod == mod) = ids
  induction ids generalizing s with
  | nil => rfl
  | cons id ids ih =>
    rw [List.foldl_cons, ih]
    unfold sweepOne
    split <;> rfl

theorem mem_idsFor {topic : String} {publisher : Option ModId} {s : Tables} {id : Nat} (h : s.WellFormed) :
    id ∈ idsFor topic publisher s ↔
      ∃ sub, s.gSubs.lookup id = some sub ∧ sub.topic = topic ∧ some sub.mod ≠ publisher := by
  unfold idsFor
  constructor
  · intro hm
    split at hm
    · cases hm
    · next ids hids =>
      obtain ⟨hm, hp⟩ := List.mem_filter.mp hm
      obtain ⟨sub, hl, ht⟩ := h.own topic ids hids id hm
      rw [hl] at hp
      exact ⟨sub, hl, ht, by simpa using hp⟩
  · intro ⟨sub, hl, ht, hp⟩
    obtain ⟨ids, hids, hm⟩ := h.listed id sub hl
    rw [← ht, hids]
    refine List.mem_filter.mpr ⟨hm, ?_⟩
    rw [hl]
    simpa using hp

theorem sorted_idsFor {s : Tables} (h : s.WellFormed) (topic : String) (publisher : Option ModId) :
    (idsFor topic publisher s).Pairwise (· < ·) := by
  unfold idsFor
  split
  · exact .nil
  · next ids hids => exact (h.sorted topic ids hids).filter _

end Bus
