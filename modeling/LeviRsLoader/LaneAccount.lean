import Mathlib.Data.List.Induction
import LeviRsLoader.LaneProtocol

/-!
# The books of a lane

For one lane the references made, given back and still owed balance through
every instruction. A call is made only while a reference is left, provided no
release overtakes the retain of a lease that is gone; the closing run shows
what happens when one does.
-/
namespace LaneProtocol

open LeviRs Lane Runs Interleave

/-! ## The account of one lane -/

/-- The retain calls owed on the lane. -/
def owedRetains (laneId : Nat) (l : List Instr) : Nat := l.countP (Instr.retains laneId)

/-- The release calls owed on the lane. -/
def owedReleases (laneId : Nat) (l : List Instr) : Nat := l.countP (Instr.releases laneId)

/-- The retain calls owed for leases that are gone. -/
def orphans (s : Lanes) (laneId : Nat) (l : List Instr) : Nat := l.countP (Instr.orphan s laneId)

/-- The reference the table itself holds. -/
def published (s : Lanes) (laneId : Nat) : Nat := if (s.descOf laneId).isSome then 1 else 0

/-- The books of a lane after `made` retain and `given` release calls: every
reference belongs to the publication, to a lease or to a release still owed,
and every retain owed for a lease that is gone has such a release behind it,
with one to spare once the publication is gone too. -/
structure Account (laneId made given : Nat) (s : Lanes) (l : List Instr) : Prop where
  lt : laneId < s.gNextLaneId
  both : ∀ desc, s.descOf laneId = some desc → desc.retain.isSome ∧ desc.release.isSome
  balance : 1 + made + owedRetains laneId l =
    given + published s laneId + s.leasesOn laneId + owedReleases laneId l
  covered : orphans s laneId l ≤ owedReleases laneId l
  spare : s.descOf laneId = none → 0 < orphans s laneId l → orphans s laneId l < owedReleases laneId l

theorem quiet_calls {i : Instr} (h : i.quiet = true) (s : Lanes) (laneId : Nat) :
    i.retains laneId = false ∧ i.releases laneId = false ∧ i.orphan s laneId = false := by
  cases i <;> first | exact ⟨rfl, rfl, rfl⟩ | cases h

theorem Instr.orphan_retains {s : Lanes} {laneId : Nat} {i : Instr} (h : i.orphan s laneId = true) :
    i.retains laneId = true := by
  cases i with
  | retain l leaseId =>
    simp only [Instr.orphan, Bool.and_eq_true] at h
    exact h.1
  | _ => cases h

theorem countP_quiet {f : Instr → Bool} (hf : ∀ i, i.quiet = true → f i = false) {new : List Instr}
    (hnew : ∀ j ∈ new, j.quiet = true) (l : List Instr) : (new ++ l).countP f = l.countP f := by
  rw [List.countP_append, List.countP_eq_zero.mpr, Nat.zero_add]
  intro j hj
  simp [hf j (hnew j hj)]

/-- Instructions that are no calls leave the books as they are. -/
theorem Account.quiet {laneId made given : Nat} {s : Lanes} {l new : List Instr}
    (h : Account laneId made given s l) (hnew : ∀ j ∈ new, j.quiet = true) :
    Account laneId made given s (new ++ l) := by
  have h₁ : owedRetains laneId (new ++ l) = owedRetains laneId l :=
    countP_quiet (fun _ hi => (quiet_calls hi s laneId).1) hnew l
  have h₂ : owedReleases laneId (new ++ l) = owedReleases laneId l :=
    countP_quiet (fun _ hi => (quiet_calls hi s laneId).2.1) hnew l
  have h₃ : orphans s laneId (new ++ l) = orphans s laneId l :=
    countP_quiet (fun _ hi => (quiet_calls hi s laneId).2.2) hnew l
  exact ⟨h.lt, h.both, by rw [h₁, h₂]; exact h.balance, by rw [h₂, h₃]; exact h.covered,
    by rw [h₂, h₃]; exact h.spare⟩

/-- An instruction that is no call can be taken out of the books. -/
theorem Account.of_quiet {laneId made given : Nat} {s : Lanes} {i : Instr} {l : List Instr}
    (h : Account laneId made given s (i :: l)) (hi : i.quiet = true) : Account laneId made given s l := by
  obtain ⟨h₁, h₂, h₃⟩ := quiet_calls hi s laneId
  obtain ⟨lt, both, balance, covered, spare⟩ := h
  simp only [owedRetains, owedReleases, orphans, List.countP_cons, h₁, h₂, h₃, Bool.false_eq_true, if_false,
    Nat.add_zero] at balance covered spare
  exact ⟨lt, both, balance, covered, spare⟩

theorem Account.perm {laneId made given : Nat} {s : Lanes} {l l' : List Instr} (hp : l.Perm l')
    (h : Account laneId made given s l) : Account laneId made given s l' := by
  obtain ⟨lt, both, balance, covered, spare⟩ := h
  unfold owedRetains owedReleases at balance
  unfold orphans owedReleases at covered spare
  rw [hp.countP_eq] at balance covered spare
  exact ⟨lt, both, by rw [hp.countP_eq] at balance; exact balance, by rw [hp.countP_eq] at covered; exact covered,
    by rw [hp.countP_eq] at spare; exact spare⟩

/-- The retains owed are for orphaned leases or for leases in the table. -/
theorem owedRetains_le {s : Lanes} {l : List Instr} (h : Shape s l) (laneId : Nat) :
    owedRetains laneId l ≤ orphans s laneId l + s.leasesOn laneId := by
  let kept : Instr → Bool := fun i => i.retains laneId && !i.orphan s laneId
  have hsplit : owedRetains laneId l ≤ orphans s laneId l + l.countP kept := by
    refine countP_le_add fun i _ hi => ?_
    cases ho : i.orphan s laneId with
    | true => exact .inl rfl
    | false => exact .inr (by simp [kept, hi, ho])
  -- the leases of the retains that are not orphaned are distinct entries of the table
  have hids : l.countP kept = ((l.filter kept).filterMap Instr.leaseOf).length := by
    rw [List.countP_eq_length_filter]
    have hall : ∀ i ∈ l.filter kept, (i.leaseOf).isSome := by
      intro i hi
      have := (List.mem_filter.mp hi).2
      cases i with
      | retain => rfl
      | _ => simp [kept, Instr.retains] at this
    rw [List.filterMap_length_eq_length.mpr hall]
  have hkept : l.countP kept ≤ s.leasesOn laneId := by
    rw [hids]
    apply AList.length_le_countIf
    · exact h.once.sublist (List.filter_sublist.filterMap _)
    · intro id hid
      obtain ⟨i, hi, hil⟩ := List.mem_filterMap.mp hid
      obtain ⟨hmem, hk⟩ := List.mem_filter.mp hi
      cases i with
      | retain laneId' leaseId =>
        cases hil
        have hrefers := (h.refers _ hmem).2.2
        simp only [kept, Instr.retains, Instr.orphan, Bool.and_eq_true, beq_iff_eq, Bool.not_eq_true',
          Bool.and_eq_false_iff] at hk
        obtain ⟨rfl, hk⟩ := hk
        cases hl : s.gLeases.lookup id with
        | none => simp [hl] at hk
        | some lease => exact ⟨lease, rfl, by simpa using hrefers lease hl⟩
      | _ => cases hil
  omega

/-! ## The books under each effect -/

theorem published_of_lookup {s : Lanes} {laneId : Nat} {lane : LaneEntry}
    (h : s.gLanes.lookup laneId = some lane) : published s laneId = 1 := by
  simp [published, descOf_eq_some h]

theorem owedReleases_append (laneId : Nat) (new l : List Instr) :
    owedReleases laneId (new ++ l) = owedReleases laneId new + owedReleases laneId l := by
  simp [owedReleases]

theorem owedReleases_releaseInstr (laneId l : Nat) :
    owedReleases laneId (releaseInstr (some l)) = if l = laneId then 1 else 0 := by
  by_cases h : l = laneId
  · simp [owedReleases, releaseInstr, Instr.releases, h]
  · simp [owedReleases, releaseInstr, Instr.releases, h]

theorem owedRetains_release (laneId : Nat) (ids : List Nat) (l : List Instr) :
    owedRetains laneId (ids.map .release ++ l) = owedRetains laneId l := by
  simp [owedRetains, List.countP_append, List.countP_eq_zero, Instr.retains]

theorem orphans_release (s : Lanes) (laneId : Nat) (ids : List Nat) (l : List Instr) :
    orphans s laneId (ids.map .release ++ l) = orphans s laneId l := by
  simp [orphans, List.countP_append, List.countP_eq_zero, Instr.orphan]

/-- Orphans depend only on which of the leases retains are owed for are in the table. -/
theorem orphans_congr {s s' : Lanes} {laneId : Nat} {l : List Instr}
    (h : ∀ leaseId, .retain laneId leaseId ∈ l →
      (s'.gLeases.lookup leaseId).isNone = (s.gLeases.lookup leaseId).isNone) :
    orphans s' laneId l = orphans s laneId l := by
  apply List.countP_congr
  intro i hi
  cases i with
  | retain l' leaseId =>
    by_cases hl : l' = laneId
    · subst hl
      simp [Instr.orphan, h leaseId hi]
    · simp [Instr.orphan, hl]
  | _ => rfl

theorem orphans_le (s : Lanes) (laneId : Nat) (l : List Instr) : orphans s laneId l ≤ owedRetains laneId l :=
  List.countP_mono_left fun _ _ h => Instr.orphan_retains h

/-- Taking a lease out orphans at most the one retain owed for it. -/
theorem orphans_takeLease {s : Lanes} {l : List Instr} (h : Shape s l) {id : Nat} {lease : Lease}
    (hl : s.gLeases.lookup id = some lease) (laneId : Nat) :
    orphans (takeLease id lease s).2 laneId l ≤
      orphans s laneId l + if lease.laneId = laneId then 1 else 0 := by
  by_cases hlane : lease.laneId = laneId
  · have hone : l.countP (fun i => i.leaseOf == some id) ≤ 1 := by
      rw [← List.count_filterMap]
      exact List.nodup_iff_count_le_one.mp h.once id
    have : orphans (takeLease id lease s).2 laneId l ≤
        orphans s laneId l + l.countP (fun i => i.leaseOf == some id) := by
      refine countP_le_add fun i _ hi => ?_
      cases i with
      | retain l' leaseId =>
        simp only [Instr.orphan, gLeases_takeLease, AList.lookup_erase_eq, Bool.and_eq_true] at hi ⊢
        by_cases hid : leaseId = id
        · exact .inr (by simp [Instr.leaseOf, hid])
        · rw [if_neg hid] at hi
          exact .inl hi
      | _ => cases hi
    simp only [hlane, if_true]
    omega
  · rw [if_neg hlane, Nat.add_zero, orphans_congr]
    intro leaseId hm
    rw [gLeases_takeLease, AList.lookup_erase_eq]
    split
    · next he => exact absurd ((h.refers _ hm).2.2 lease (he ▸ hl)) hlane
    · rfl

theorem published_congr {s s' : Lanes} {laneId : Nat} (h : s'.descOf laneId = s.descOf laneId) :
    published s' laneId = published s laneId := by rw [published, h, published]

/-- An acquire: one more lease, one more retain owed. -/
theorem Account.lease {laneId made given : Nat} {s : Lanes} {l : List Instr}
    (h : Account laneId made given s l) (hs : Shape s l) (consumer : ModId) {l' : Nat} {lane : LaneEntry}
    (hl : s.gLanes.lookup l' = some lane) :
    Account laneId made given (addLease consumer l' lane s)
      ((if lane.desc.retain.isSome then [.retain l' s.gNextLeaseId] else []) ++ l) := by
  have hdesc := descOf_addLease consumer hl laneId
  have hleases := leasesOn_addLease hs.ordered consumer l' lane laneId
  -- no retain is owed yet for the new lease, and it is in the table
  have horphans : orphans (addLease consumer l' lane s) laneId
      ((if lane.desc.retain.isSome then [.retain l' s.gNextLeaseId] else []) ++ l) = orphans s laneId l := by
    have hl' : orphans (addLease consumer l' lane s) laneId l = orphans s laneId l := by
      apply orphans_congr
      intro leaseId hm
      have := (hs.refers _ hm).2.1
      rw [addLease, AList.lookup_insert_eq, if_neg (Nat.ne_of_lt this)]
    rw [← hl']
    split
    · simp [orphans, Instr.orphan, addLease]
    · rfl
  have hreleases : owedReleases laneId
      ((if lane.desc.retain.isSome then [.retain l' s.gNextLeaseId] else []) ++ l) = owedReleases laneId l := by
    split
    · simp [owedReleases, Instr.releases]
    · rfl
  have hretains : owedRetains laneId
      ((if lane.desc.retain.isSome then [.retain l' s.gNextLeaseId] else []) ++ l) =
      owedRetains laneId l + if l' = laneId then 1 else 0 := by
    by_cases he : l' = laneId
    · subst he
      have := (h.both _ (descOf_eq_some hl)).1
      simp [owedRetains, Instr.retains, this]
    · split
      · simp [owedRetains, Instr.retains, he]
      · rfl
  have hbalance := h.balance
  refine ⟨h.lt, by rw [hdesc]; exact h.both, ?_, ?_, ?_⟩
  · rw [hretains, hreleases, hleases, published_congr hdesc]
    omega
  · rw [horphans, hreleases]
    exact h.covered
  · rw [hdesc, horphans, hreleases]
    exact h.spare

/-- A lease taken out: one lease fewer, one more release owed. -/
theorem Account.take {laneId made given : Nat} {s : Lanes} {l : List Instr}
    (h : Account laneId made given s l) (hs : Shape s l) {id : Nat} {lease : Lease}
    (hl : s.gLeases.lookup id = some lease) :
    Account laneId made given (takeLease id lease s).2 (releaseInstr (takeLease id lease s).1 ++ l) := by
  have hdesc := descOf_takeLease id lease s laneId
  have hleases := leasesOn_takeLease hl laneId
  have hreleases : owedReleases laneId (releaseInstr (takeLease id lease s).1 ++ l) =
      owedReleases laneId l + if lease.laneId = laneId then 1 else 0 := by
    rw [owedReleases_append, takeLease_owes, Nat.add_comm]
    congr 1
    by_cases he : lease.laneId = laneId
    · have hsome := hs.ordered.leaseLane id lease hl
      rw [he] at hsome ⊢
      obtain ⟨desc, hd⟩ := Option.isSome_iff_exists.mp hsome
      have : ((s.descOf laneId).bind LaneDesc.release).isSome = true := by
        rw [hd]
        exact (h.both desc hd).2
      rw [if_pos this, owedReleases_releaseInstr]
    · rw [if_neg he]
      split
      · rw [owedReleases_releaseInstr, if_neg he]
      · simp [owedReleases, releaseInstr]
  have hretains : owedRetains laneId (releaseInstr (takeLease id lease s).1 ++ l) = owedRetains laneId l :=
    owedRetains_release laneId _ l
  have horphans : orphans (takeLease id lease s).2 laneId (releaseInstr (takeLease id lease s).1 ++ l) =
      orphans (takeLease id lease s).2 laneId l := orphans_release _ laneId _ l
  have hle := orphans_takeLease hs hl laneId
  have hbalance := h.balance
  have hcovered := h.covered
  refine ⟨?_, by rw [hdesc]; exact h.both, ?_, ?_, ?_⟩
  · rw [(next_takeLease id lease s).1]
    exact h.lt
  · rw [hretains, hreleases, published_congr hdesc]
    omega
  · rw [horphans, hreleases]
    omega
  · -- a lane that is gone has no leases left to take
    intro hnone
    rw [hdesc] at hnone
    have hzero := leasesOn_eq_zero hs.ordered hnone
    have hne : lease.laneId ≠ laneId := by
      intro he
      rw [if_pos he] at hleases
      omega
    rw [horphans, hreleases]
    rw [if_neg hne, Nat.add_zero] at hle ⊢
    intro hpos
    have := h.spare hnone (by omega)
    omega

/-- A lane retired: the publication and every lease turn into releases owed. -/
theorem Account.retire_self {laneId made given : Nat} {s : Lanes} {l : List Instr}
    (h : Account laneId made given s l) (hs : Shape s l) {lane : LaneEntry}
    (hl : s.gLanes.lookup laneId = some lane) :
    Account laneId made given (Lane.retireLane laneId s).2
      ((retireCalls lane (s.leasesOn laneId) laneId).map .release ++ l) := by
  have hdesc := descOf_retireLane laneId s laneId
  have hleases := leasesOn_retireLane hl laneId
  have hretains := owedRetains_release laneId (retireCalls lane (s.leasesOn laneId) laneId) l
  have horphans :=
    orphans_release (Lane.retireLane laneId s).2 laneId (retireCalls lane (s.leasesOn laneId) laneId) l
  have hboth := h.both _ (descOf_eq_some hl)
  have hreleases : owedReleases laneId ((retireCalls lane (s.leasesOn laneId) laneId).map .release ++ l) =
      1 + s.leasesOn laneId + owedReleases laneId l := by
    rw [owedReleases_append, retireCalls, if_pos hboth.2, List.map_replicate, owedReleases,
      List.countP_replicate]
    simp [Instr.releases]
  have hle := owedRetains_le hs laneId
  have hmore := orphans_le (Lane.retireLane laneId s).2 laneId l
  have hbalance := h.balance
  have hcovered := h.covered
  rw [if_pos rfl] at hdesc hleases
  rw [published_of_lookup hl] at hbalance
  refine ⟨?_, by simp [hdesc], ?_, ?_, ?_⟩
  · rw [(next_retireLane laneId s).1]
    exact h.lt
  · rw [hretains, hreleases, hleases]
    simp only [published, hdesc, Option.isSome_none, Bool.false_eq_true, if_false]
    omega
  · rw [horphans, hreleases]
    omega
  · rw [horphans, hreleases]
    omega

/-- What retiring another lane owes is nothing to this one. -/
theorem Account.retire_other {laneId made given : Nat} {s : Lanes} {l : List Instr}
    (h : Account laneId made given s l) (hs : Shape s l) {l' : Nat} (he : laneId ≠ l') {lane : LaneEntry}
    (hl : s.gLanes.lookup l' = some lane) :
    Account laneId made given (Lane.retireLane l' s).2
      ((retireCalls lane (s.leasesOn l') l').map .release ++ l) := by
  have hdesc := descOf_retireLane l' s laneId
  have hleases := leasesOn_retireLane hl laneId
  have hretains := owedRetains_release laneId (retireCalls lane (s.leasesOn l') l') l
  have horphans := orphans_release (Lane.retireLane l' s).2 laneId (retireCalls lane (s.leasesOn l') l') l
  have hreleases : owedReleases laneId ((retireCalls lane (s.leasesOn l') l').map .release ++ l) =
      owedReleases laneId l := by
    rw [owedReleases_append]
    have : owedReleases laneId ((retireCalls lane (s.leasesOn l') l').map .release) = 0 := by
      rw [owedReleases, List.countP_eq_zero]
      intro i hi
      obtain ⟨n, hn, rfl⟩ := List.mem_map.mp hi
      unfold retireCalls at hn
      split at hn
      · rw [List.eq_of_mem_replicate hn]
        simpa [Instr.releases] using Ne.symm he
      · cases hn
    omega
  have hsame : orphans (Lane.retireLane l' s).2 laneId l = orphans s laneId l := by
    apply orphans_congr
    intro leaseId hm
    have hrefers := (hs.refers _ hm).2.2
    rw [gLeases_retireLane hl, AList.lookup_eraseIf]
    cases hk : s.gLeases.lookup leaseId with
    | none => rfl
    | some lease =>
      have := hrefers lease hk
      simp [this, he]
  rw [if_neg he] at hdesc hleases
  refine ⟨?_, by rw [hdesc]; exact h.both, ?_, ?_, ?_⟩
  · rw [(next_retireLane l' s).1]
    exact h.lt
  · rw [hretains, hreleases, hleases, published_congr hdesc]
    exact h.balance
  · rw [horphans, hreleases, hsame]
    exact h.covered
  · rw [hdesc, horphans, hreleases, hsame]
    exact h.spare

theorem Account.retire {laneId made given : Nat} {s : Lanes} {l : List Instr}
    (h : Account laneId made given s l) (hs : Shape s l) {l' : Nat} {lane : LaneEntry}
    (hl : s.gLanes.lookup l' = some lane) :
    Account laneId made given (Lane.retireLane l' s).2
      ((retireCalls lane (s.leasesOn l') l').map .release ++ l) := by
  by_cases he : laneId = l'
  · subst he
    exact h.retire_self hs hl
  · exact h.retire_other hs he hl

/-- A retain call made. -/
theorem Account.retain {laneId made given l' leaseId : Nat} {s : Lanes} {l : List Instr}
    (h : Account laneId made given s (.retain l' leaseId :: l)) :
    Account laneId (made + if l' = laneId then 1 else 0) given s l := by
  obtain ⟨lt, both, balance, covered, spare⟩ := h
  have hretains : owedRetains laneId (.retain l' leaseId :: l) =
      owedRetains laneId l + if l' = laneId then 1 else 0 := by
    simp [owedRetains, List.countP_cons, Instr.retains]
  have hreleases : owedReleases laneId (.retain l' leaseId :: l) = owedReleases laneId l := by
    simp [owedReleases, Instr.releases]
  have hle : orphans s laneId l ≤ orphans s laneId (.retain l' leaseId :: l) := by
    simp [orphans, List.countP_cons]
  refine ⟨lt, both, ?_, ?_, ?_⟩
  · omega
  · omega
  · intro hnone hpos
    have := spare hnone (by omega)
    omega

/-- A release call made with no orphan around. -/
theorem Account.release {laneId made given l' : Nat} {s : Lanes} {l : List Instr}
    (h : Account laneId made given s (.release l' :: l))
    (hG : l' = laneId → orphans s laneId (.release l' :: l) = 0) :
    Account laneId made (given + if l' = laneId then 1 else 0) s l := by
  obtain ⟨lt, both, balance, covered, spare⟩ := h
  have hretains : owedRetains laneId (.release l' :: l) = owedRetains laneId l := by
    simp [owedRetains, Instr.retains]
  have hreleases : owedReleases laneId (.release l' :: l) =
      owedReleases laneId l + if l' = laneId then 1 else 0 := by
    simp [owedReleases, List.countP_cons, Instr.releases]
  have horphans : orphans s laneId (.release l' :: l) = orphans s laneId l := by
    simp [orphans, Instr.orphan]
  rw [horphans] at hG covered spare
  by_cases he : l' = laneId
  · have hzero := hG he
    rw [if_pos he] at hreleases ⊢
    exact ⟨lt, both, by omega, by omega, fun _ hpos => by omega⟩
  · rw [if_neg he] at hreleases ⊢
    exact ⟨lt, both, by omega, by omega, fun hnone hpos => by have := spare hnone hpos; omega⟩

/-! ## Whole runs -/

/-- The invariant of a run for one lane. -/
structure Books (laneId : Nat) (tr : List (State × Event)) (s : Lanes) (l : List Instr) : Prop where
  shape : Shape s l
  fresh : s.gNextLaneId ≤ laneId →
    calls (Instr.retains laneId) tr = 0 ∧ calls (Instr.releases laneId) tr = 0
  account : Published laneId tr →
    Account laneId (calls (Instr.retains laneId) tr) (calls (Instr.releases laneId) tr) s l

theorem calls_append (f : Instr → Bool) (tr : List (State × Event)) (p : State) (e : Event) :
    calls f (tr ++ [(p, e)]) = calls f tr + if Event.made f e then 1 else 0 := by
  simp [calls, List.countP_append, List.countP_cons]

theorem published_append (laneId : Nat) (tr : List (State × Event)) (e : State × Event) :
    Published laneId (tr ++ [e]) ↔ Published laneId tr ∨ Publishes laneId e := by
  simp [Published, or_and_right, exists_or]

theorem not_publishes_start (laneId : Nat) (p : State) (o : Op) : ¬Publishes laneId (p, .start o) := by
  intro h
  obtain ⟨live, mod, name, desc, he, _⟩ := h
  cases he

/-- A publication that succeeds takes the next id. -/
theorem Publishes.id_eq {laneId : Nat} {e : State × Event} (h : Publishes laneId e) :
    laneId = e.1.shared.gNextLaneId := by
  obtain ⟨live, mod, name, desc, _, _, _, h₀, hid⟩ := h
  obtain hc | ⟨m, d, _, _, _, _, hc⟩ := api_lane_publish_cases live mod name (some desc) e.1.shared
  · rw [hc] at hid
    exact absurd hid.symm h₀
  · rw [hc] at hid
    exact hid.symm

theorem Publishes.exec {laneId : Nat} {p : State} {i : Instr} {new : List Instr} {s' : Lanes}
    (h : Publishes laneId (p, .exec i)) (he : Exec i p.shared new s') :
    laneId = p.shared.gNextLaneId ∧ i.quiet = true ∧ new = [] ∧
      ∃ m name desc, desc.retain.isSome ∧ desc.release.isSome ∧ s' = addLane m name desc p.shared := by
  have hnext := h.id_eq
  obtain ⟨live, mod, name, desc, hi, h₁, h₂, h₀, hid⟩ := h
  cases hi
  cases he
  obtain hc | ⟨m, d, rfl, hd, _, _, hc⟩ := api_lane_publish_cases live mod name (some desc) p.shared
  · rw [hc] at hid
    exact absurd hid.symm h₀
  · cases hd
    rw [hc]
    exact ⟨hnext, rfl, rfl, m, name, desc, h₁, h₂, rfl⟩

theorem Shape.owed_next {s : Lanes} {l : List Instr} (h : Shape s l) :
    owedRetains s.gNextLaneId l = 0 ∧ owedReleases s.gNextLaneId l = 0 := by
  constructor
  · rw [owedRetains, List.countP_eq_zero]
    intro i hi hc
    cases i with
    | retain l' leaseId =>
      have hl : l' = s.gNextLaneId := by simpa [Instr.retains] using hc
      exact absurd (hl ▸ (h.refers _ hi).1) (Nat.lt_irrefl _)
    | _ => cases hc
  · rw [owedReleases, List.countP_eq_zero]
    intro i hi hc
    cases i with
    | release l' =>
      have hl : l' = s.gNextLaneId := by simpa [Instr.releases] using hc
      have hlt : l' < s.gNextLaneId := h.refers _ hi
      exact absurd (hl ▸ hlt) (Nat.lt_irrefl _)
    | _ => cases hc

/-- The books of a lane just published. -/
theorem Account.opened {s : Lanes} {l : List Instr} (h : Shape s l) (m : ModId) (name : String)
    {desc : LaneDesc} (hretain : desc.retain.isSome) (hrelease : desc.release.isSome) :
    Account s.gNextLaneId 0 0 (addLane m name desc s) l := by
  have hdesc : (addLane m name desc s).descOf s.gNextLaneId =
      some { desc with struct_size := sizeofLaneDesc } := by rw [descOf_addLane, if_pos rfl]
  have hnone : s.descOf s.gNextLaneId = none := by
    cases hd : s.descOf s.gNextLaneId with
    | none => rfl
    | some d => exact absurd (h.ordered.laneLt _ (by rw [hd]; rfl)) (Nat.lt_irrefl _)
  have hleases : (addLane m name desc s).leasesOn s.gNextLaneId = 0 := leasesOn_eq_zero h.ordered hnone
  obtain ⟨hretains, hreleases⟩ := h.owed_next
  have horphans := orphans_le (addLane m name desc s) s.gNextLaneId l
  refine ⟨Nat.lt_succ_self _, ?_, ?_, by omega, ?_⟩
  · intro d hd
    rw [hdesc] at hd
    cases hd
    exact ⟨hretain, hrelease⟩
  · simp [hretains, hreleases, hleases, published, hdesc]
  · intro hc
    rw [hdesc] at hc
    cases hc

theorem Books.perm {laneId : Nat} {tr : List (State × Event)} {s : Lanes} {l l' : List Instr}
    (hp : l.Perm l') (h : Books laneId tr s l) : Books laneId tr s l' where
  shape := h.shape.perm hp
  fresh := h.fresh
  account hpub := (h.account hpub).perm hp

theorem Books.start {laneId : Nat} {tr : List (State × Event)} {p : State} {l : List Instr}
    (h : Books laneId tr p.shared l) (o : Op) :
    Books laneId (tr ++ [(p, .start o)]) p.shared (program o ++ l) where
  shape := h.shape.start o
  fresh hlt := by
    simp only [calls_append, Event.made, Bool.false_eq_true, if_false, Nat.add_zero]
    exact h.fresh hlt
  account hpub := by
    have hpub' : Published laneId tr := by
      rcases (published_append laneId tr _).mp hpub with hp | hp
      · exact hp
      · exact absurd hp (not_publishes_start laneId p o)
    simp only [calls_append, Event.made, Bool.false_eq_true, if_false, Nat.add_zero]
    exact (h.account hpub').quiet (program_quiet o)

/-- The step lemma of `Account`, one case for each effect. -/
theorem Account.exec {laneId made given : Nat} {s s' : Lanes} {i : Instr} {l new : List Instr}
    (h : Account laneId made given s (i :: l)) (hs : Shape s (i :: l))
    (hG : i = .release laneId → orphans s laneId (i :: l) = 0) (he : Effect s i new s') :
    Account laneId (made + if i.retains laneId then 1 else 0) (given + if i.releases laneId then 1 else 0) s'
      (new ++ l) := by
  have ht := hs.tail
  cases he with
  | same _ _ hi hnew =>
    obtain ⟨h₁, h₂, _⟩ := quiet_calls hi s laneId
    simpa [h₁, h₂] using (h.of_quiet hi).quiet hnew
  | publish live m name desc =>
    obtain ⟨lt, both, balance, covered, spare⟩ := h.of_quiet rfl
    have hdesc : (addLane m name desc s).descOf laneId = s.descOf laneId := by
      rw [descOf_addLane, if_neg (Nat.ne_of_lt lt)]
    refine ⟨Nat.lt_succ_of_lt lt, by rw [hdesc]; exact both, ?_, covered, by rw [hdesc]; exact spare⟩
    rw [published_congr hdesc]
    exact balance
  | lease _ consumer l' lane hi hl =>
    obtain ⟨h₁, h₂, _⟩ := quiet_calls hi s laneId
    simpa [h₁, h₂] using (h.of_quiet hi).lease ht consumer hl
  | take _ id lease hi hl =>
    obtain ⟨h₁, h₂, _⟩ := quiet_calls hi s laneId
    simpa [h₁, h₂] using (h.of_quiet hi).take ht hl
  | retire l' lane hl => exact (h.of_quiet rfl).retire ht hl
  | retain l' leaseId => simpa [Instr.retains, Instr.releases] using h.retain
  | release l' =>
    have := h.release fun he => hG (he ▸ rfl)
    simpa [Instr.retains, Instr.releases] using this

theorem Effect.next_le {s s' : Lanes} {i : Instr} {new : List Instr} (h : Effect s i new s') :
    s.gNextLaneId ≤ s'.gNextLaneId := by
  cases h with
  | publish => exact Nat.le_succ _
  | take _ id lease => exact Nat.le_of_eq (next_takeLease id lease s).1.symm
  | retire l' => exact Nat.le_of_eq (next_retireLane l' s).1.symm
  | _ => exact Nat.le_refl _

/-- A call made is on a lane whose id is in use. -/
theorem Shape.call_lt {s : Lanes} {i : Instr} {l : List Instr} (h : Shape s (i :: l)) {laneId : Nat}
    (hc : i.retains laneId = true ∨ i.releases laneId = true) : laneId < s.gNextLaneId := by
  have hr := h.refers i (by simp)
  cases i with
  | retain l' leaseId =>
    have hl : l' = laneId := by simpa [Instr.retains, Instr.releases] using hc
    exact hl ▸ hr.1
  | release l' =>
    have hl : l' = laneId := by simpa [Instr.retains, Instr.releases] using hc
    exact hl ▸ hr
  | _ => simp [Instr.retains, Instr.releases] at hc

theorem Books.exec {laneId : Nat} {tr : List (State × Event)} {p : State} {i : Instr} {l new : List Instr}
    {s' : Lanes} (h : Books laneId tr p.shared (i :: l))
    (hG : i = .release laneId → orphans p.shared laneId (i :: l) = 0) (hx : Exec i p.shared new s') :
    Books laneId (tr ++ [(p, .exec i)]) s' (new ++ l) := by
  have he := hx.effect
  refine ⟨h.shape.exec he, ?_, ?_⟩
  · intro hle
    have hle' : p.shared.gNextLaneId ≤ laneId := Nat.le_trans he.next_le hle
    obtain ⟨h₁, h₂⟩ := h.fresh hle'
    have hno : ¬(i.retains laneId = true ∨ i.releases laneId = true) := fun hc =>
      absurd (h.shape.call_lt hc) (Nat.not_lt.mpr hle')
    rw [not_or] at hno
    simp [calls_append, Event.made, h₁, h₂, hno]
  · intro hpub
    rw [calls_append, calls_append]
    rcases (published_append laneId tr _).mp hpub with hp | hp
    · exact (h.account hp).exec h.shape hG he
    · obtain ⟨rfl, hq, rfl, m, name, desc, h₁, h₂, rfl⟩ := hp.exec hx
      obtain ⟨hf₁, hf₂⟩ := h.fresh (Nat.le_refl _)
      obtain ⟨hq₁, hq₂, _⟩ := quiet_calls hq p.shared p.shared.gNextLaneId
      rw [hf₁, hf₂]
      simpa [Event.made, hq₁, hq₂] using Account.opened h.shape.tail m name h₁ h₂

/-- The run lemma: the books of a lane balance throughout. -/
theorem books_run {laneId : Nat} {tr : List (State × Event)} {p : State} (h : Run PStep start tr p)
    (hG : Meets (RetainFirst laneId) tr) : Books laneId tr p.shared p.pending := by
  refine pool_invariant (fun tr s l => Books laneId tr s l) h hG ?_ ?_ ?_ ?_
  · refine ⟨⟨ordered_initial, by simp, by simp⟩, fun _ => ⟨rfl, rfl⟩, ?_⟩
    intro hpub
    obtain ⟨e, he, _⟩ := hpub
    cases he
  · intro tr s l l' hp hb
    exact hb.perm hp
  · intro tr p o hb
    exact hb.start o
  · intro tr p i new s' others hp hg hb hx
    refine hb.exec (fun hi => ?_) hx
    rw [orphans, List.countP_eq_zero]
    intro j hj
    have := hg (by rw [hi]) j (hp.mem_iff.mpr hj)
    simp [this]

theorem Books.count_eq {laneId : Nat} {tr : List (State × Event)} {s : Lanes} {l : List Instr}
    (h : Books laneId tr s l) (hpub : Published laneId tr) :
    count laneId tr + owedRetains laneId l = published s laneId + s.leasesOn laneId + owedReleases laneId l := by
  have := (h.account hpub).balance
  unfold count
  omega

theorem Books.count_nonneg {laneId : Nat} {tr : List (State × Event)} {s : Lanes} {l : List Instr}
    (h : Books laneId tr s l) (hpub : Published laneId tr) : 0 ≤ count laneId tr := by
  have heq := h.count_eq hpub
  have hle := owedRetains_le h.shape laneId
  have hcov := (h.account hpub).covered
  omega

/-- A call is made only while a reference is left. -/
theorem Books.call_pos {laneId : Nat} {tr : List (State × Event)} {s : Lanes} {i : Instr} {l : List Instr}
    (h : Books laneId tr s (i :: l)) (hpub : Published laneId tr)
    (hG : i = .release laneId → orphans s laneId (i :: l) = 0)
    (hc : i.retains laneId = true ∨ i.releases laneId = true) : 0 < count laneId tr := by
  have heq := h.count_eq hpub
  have hle := owedRetains_le h.shape laneId
  have hacc := h.account hpub
  cases i with
  | retain l' leaseId =>
    have hl : l' = laneId := by simpa [Instr.retains, Instr.releases] using hc
    have hpos : 0 < owedRetains laneId (.retain l' leaseId :: l) := by
      simp [owedRetains, Instr.retains, hl]
    have hcov := hacc.covered
    cases hd : s.descOf laneId with
    | some desc =>
      have : published s laneId = 1 := by simp [published, hd]
      omega
    | none =>
      have hzero := leasesOn_eq_zero h.shape.ordered hd
      have := hacc.spare hd (by omega)
      omega
  | release l' =>
    have hl : l' = laneId := by simpa [Instr.retains, Instr.releases] using hc
    have hpos : 0 < owedReleases laneId (.release l' :: l) := by
      simp [owedReleases, Instr.releases, hl]
    have hzero := hG (by rw [hl])
    omega
  | _ => simp [Instr.retains, Instr.releases] at hc

theorem calls_le_append (f : Instr → Bool) (tr tr' : List (State × Event)) : calls f tr ≤ calls f (tr ++ tr') := by
  simp [calls, List.countP_append]

/-- No call is made on a lane before it is published. -/
theorem count_before {laneId : Nat} {pre suf : List (State × Event)} {p : State}
    (h : Run PStep start (pre ++ suf) p) (hG : Meets (RetainFirst laneId) (pre ++ suf))
    (hpre : ¬Published laneId pre) (hpub : Published laneId (pre ++ suf)) : count laneId pre = 1 := by
  obtain ⟨e, he, hp⟩ := hpub
  rcases List.mem_append.mp he with he | he
  · exact absurd ⟨e, he, hp⟩ hpre
  · obtain ⟨mid, rest, rfl⟩ := List.append_of_mem he
    rw [← List.append_assoc] at h hG
    obtain ⟨_, hrun, _⟩ := h.split_cons
    have hbooks := books_run hrun ((meets_append _ _).mp hG).1
    obtain ⟨h₁, h₂⟩ := hbooks.fresh (Nat.le_of_eq hp.id_eq.symm)
    have h₃ := calls_le_append (Instr.retains laneId) pre mid
    have h₄ := calls_le_append (Instr.releases laneId) pre mid
    unfold count
    omega

theorem Event.made_exec {f : Instr → Bool} {e : Event} (h : Event.made f e = true) :
    ∃ i, e = .exec i ∧ f i = true := by
  cases e with
  | start o => cases h
  | exec i => exact ⟨i, rfl, h⟩

/-- Between two calls of a published lane there is a reference left. -/
theorem no_call_at_zero {laneId : Nat} {tr suf : List (State × Event)} {p : State} {e : State × Event}
    (h : Run PStep start (tr ++ e :: suf) p) (hG : Meets (RetainFirst laneId) (tr ++ e :: suf))
    (hpub : Published laneId tr) (hzero : count laneId tr = 0) :
    Event.made (Instr.retains laneId) e.2 = false ∧ Event.made (Instr.releases laneId) e.2 = false := by
  obtain ⟨_, hrun, hstep, _⟩ := h.split_cons
  rw [meets_append, meets_cons] at hG
  have hbooks := books_run hrun hG.1
  rw [← Bool.not_eq_true, ← Bool.not_eq_true, ← not_or]
  intro hc
  obtain ⟨i, hi, hcall⟩ : ∃ i, e.2 = .exec i ∧ (i.retains laneId = true ∨ i.releases laneId = true) := by
    rcases hc with hc | hc
    · obtain ⟨i, hi, hf⟩ := Event.made_exec hc
      exact ⟨i, hi, .inl hf⟩
    · obtain ⟨i, hi, hf⟩ := Event.made_exec hc
      exact ⟨i, hi, .inr hf⟩
  rw [hi] at hstep
  obtain ⟨new, others, _, hperm, _⟩ := hstep.exec_pending
  have hpos := (hbooks.perm hperm).call_pos hpub (fun he => ?_) hcall
  · omega
  · rw [orphans, List.countP_eq_zero]
    intro j hj
    have := hG.2.1 (by rw [hi, he]) j (hperm.mem_iff.mpr hj)
    simp [this]

theorem count_append (laneId : Nat) (tr : List (State × Event)) (e : State × Event)
    (h : Event.made (Instr.retains laneId) e.2 = false ∧ Event.made (Instr.releases laneId) e.2 = false) :
    count laneId (tr ++ [e]) = count laneId tr := by
  unfold count
  rw [calls_append, calls_append, h.1, h.2]
  simp

/-- Once the count is zero it stays zero. -/
theorem count_stays_zero {laneId : Nat} {pre mid suf : List (State × Event)} {p : State}
    (h : Run PStep start (pre ++ mid ++ suf) p) (hG : Meets (RetainFirst laneId) (pre ++ mid ++ suf))
    (hpub : Published laneId pre) (hzero : count laneId pre = 0) : count laneId (pre ++ mid) = 0 := by
  induction mid using List.reverseRecOn generalizing suf with
  | nil => simpa using hzero
  | append_singleton mid e ih =>
    have hassoc : pre ++ (mid ++ [e]) ++ suf = pre ++ mid ++ e :: suf := by simp
    rw [hassoc] at h hG
    have hmid := ih h hG
    have hpub' : Published laneId (pre ++ mid) := by
      obtain ⟨x, hx, hp⟩ := hpub
      exact ⟨x, List.mem_append_left mid hx, hp⟩
    rw [← List.append_assoc, count_append laneId _ e (no_call_at_zero h hG hpub' hmid)]
    exact hmid

/-- In every run in which no release call overtakes the retain call of a lease
that is already gone, every published lane is counted correctly. -/
theorem refCounted_of_retainFirst {laneId : Nat} {tr : List (State × Event)} {p : State}
    (h : Run PStep start tr p) (hpub : Published laneId tr) (hG : Meets (RetainFirst laneId) tr) :
    RefCounted laneId tr p where
  nonneg pre suf htr := by
    subst htr
    by_cases hp : Published laneId pre
    · obtain ⟨_, hrun, _⟩ := h.split
      exact (books_run hrun ((meets_append _ _).mp hG).1).count_nonneg hp
    · rw [count_before h hG hp hpub]
      decide
  dead pre mid e suf htr hzero := by
    subst htr
    have hp : Published laneId pre := by
      by_contra hp
      rw [List.append_assoc] at h hG hpub
      have := count_before h hG hp hpub
      omega
    have hp' : Published laneId (pre ++ mid) := by
      obtain ⟨x, hx, hx'⟩ := hp
      exact ⟨x, List.mem_append_left mid hx, hx'⟩
    exact no_call_at_zero h hG hp' (count_stays_zero h hG hp hzero)
  quiescent hq hnone := by
    have hbooks := books_run h hG
    have hd : p.shared.descOf laneId = none := by simp [Lanes.descOf, hnone]
    constructor
    · have heq := hbooks.count_eq hpub
      rw [hq, leasesOn_eq_zero hbooks.shape.ordered hd] at heq
      simpa [owedRetains, owedReleases, published, hd] using heq
    · intro id lease hl he
      have := hbooks.shape.ordered.leaseLane id lease hl
      rw [he, hd] at this
      cases this

/-! ## A release before its retain -/

def everyone : ModId → Bool := fun _ => true

/-- What the Rust side's `publish` hands in: both functions are always there. -/
def publishDesc (fingerprint : UInt64) (data vtable retain_fn release_fn : Ptr) : LaneDesc :=
  ⟨sizeofLaneDesc, LEVI_RS_LANE_PROTOCOL, fingerprint, data, some vtable, some retain_fn, some release_fn⟩

def exampleDesc : LaneDesc := publishDesc 7 100 200 300 400

def exampleRef : LaneRef := ⟨busyRefSize, 0, 0, 0, none, none, none⟩

/-- One lane, published by mod 1. -/
def onePublished : Lanes := addLane 1 "a" exampleDesc Lanes.initial

/-- And one lease on it, taken by mod 2. -/
def oneLease : Lanes := (api_lane_acquire everyone (some 2) "a" 7 (some exampleRef) onePublished).lanes

/-- Publish and acquire up to the end of the locked part. -/
def acquireTrace : List (State × Event) :=
  [(start, .start (.publish everyone (some 1) "a" (some exampleDesc))),
   (⟨Lanes.initial, [[.publish everyone (some 1) "a" (some exampleDesc)]]⟩,
     .exec (.publish everyone (some 1) "a" (some exampleDesc))),
   (⟨onePublished, [[]]⟩, .start (.acquire everyone (some 2) "a" 7 (some exampleRef))),
   (⟨onePublished, [[.acquire everyone (some 2) "a" 7 (some exampleRef)], []]⟩,
     .exec (.acquire everyone (some 2) "a" 7 (some exampleRef)))]

theorem acquire_run : Run PStep start acquireTrace ⟨oneLease, [[.retain 1 1], []]⟩ :=
  .cons (.start _ _) <| .cons (.head (.publish _ _ _ _ _)) <| .cons (.start _ _) <|
    .cons (.head (.acquire _ _ _ _ _ _)) (.nil _)

theorem published_acquireTrace : Published 1 acquireTrace :=
  ⟨_, .tail _ (.head _), everyone, some 1, "a", exampleDesc, rfl, rfl, rfl, by decide, rfl⟩

/-- The provider withdraws the lane, whatever else is still to run. -/
def unpublishTrace (threads : List (List Instr)) : List (State × Event) :=
  [(⟨oneLease, threads⟩, .start (.unpublish (some 1) 1)),
   (⟨oneLease, [.unpublish (some 1) 1] :: threads⟩, .exec (.unpublish (some 1) 1)),
   (⟨oneLease, [.retireLane 1] :: threads⟩, .exec (.retireLane 1)),
   (⟨(retireLane 1 oneLease).2, [.release 1, .release 1] :: threads⟩, .exec (.release 1)),
   (⟨(retireLane 1 oneLease).2, [.release 1] :: threads⟩, .exec (.release 1))]

theorem unpublish_run (threads : List (List Instr)) :
    Run PStep ⟨oneLease, threads⟩ (unpublishTrace threads) ⟨(retireLane 1 oneLease).2, [] :: threads⟩ :=
  .cons (.start _ _) <| .cons (.head (.unpublish _ _ _)) <| .cons (.head (.retireLane _ _)) <|
    .cons (.head (.release _ _)) <| .cons (.head (.release _ _)) (.nil _)

/-- Withdrawn between an acquire's locked part and its `retain`, a lane is
released below zero. -/
theorem release_overtakes_retain :
    ¬∀ laneId tr p, Run PStep start tr p → Published laneId tr → RefCounted laneId tr p := by
  intro h
  have hrun := acquire_run.append (unpublish_run [[.retain 1 1], []])
  obtain ⟨e, he, hp⟩ := published_acquireTrace
  have := (h 1 _ _ hrun ⟨e, List.mem_append_left _ he, hp⟩).nonneg _ [] (List.append_nil _).symm
  revert this
  decide

/-- The same lane when the `retain` comes first. -/
def orderlyTrace : List (State × Event) :=
  acquireTrace ++ (⟨oneLease, [[.retain 1 1], []]⟩, .exec (.retain 1 1)) :: unpublishTrace [[], []]

theorem orderly_run : Run PStep start orderlyTrace ⟨(retireLane 1 oneLease).2, [[], [], []]⟩ :=
  acquire_run.append (.cons (.head (.retain _ _ _)) (unpublish_run _))

theorem refCounted_orderly : RefCounted 1 orderlyTrace ⟨(retireLane 1 oneLease).2, [[], [], []]⟩ := by
  refine refCounted_of_retainFirst orderly_run ?_ ?_
  · obtain ⟨e, he, hp⟩ := published_acquireTrace
    exact ⟨e, List.mem_append_left _ he, hp⟩
  · intro e he hrelease
    simp only [orderlyTrace, acquireTrace, unpublishTrace, List.cons_append, List.nil_append, List.mem_cons,
      List.not_mem_nil, or_false] at he
    rcases he with rfl | rfl | rfl | rfl | rfl | rfl | rfl | rfl | rfl | rfl
    -- the two steps left are the releases, with only releases still to run
    all_goals cases hrelease
    all_goals
      intro i hi
      simp only [Pool.pending, List.flatten_cons, List.flatten_nil, List.append_nil, List.mem_cons,
        List.not_mem_nil, or_false, or_self] at hi
      rw [hi]
      rfl

end LaneProtocol
