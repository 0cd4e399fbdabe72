import Mathlib.Algebra.BigOperators.Group.Finset.Basic
import Mathlib.Data.Fintype.Card
import Mathlib.Data.Fintype.EquivFin
import Mathlib.Logic.Relation
import Mathlib.Order.WellFounded

/-!
# Kahn's algorithm

A topological order of a finite graph whose edges may be repeated: in-degrees
count every copy of an edge, and a vertex is ready once its count is zero. The
vertices of a cycle never become ready; they are put at the end.
-/
namespace Kahn

variable {α : Type*} [DecidableEq α]

/-- The counts left, the ready vertices with the top of the stack first, and the vertices in order. -/
structure State (α : Type*) where
  indeg : α → Int
  ready : List α
  ordered : List α

def count (verts : List α) (indeg : α → Int) (d : α) : α → Int :=
  if d ∈ verts then Function.update indeg d (indeg d + 1) else indeg

def indegrees (succ : α → List α) (verts walk : List α) : α → Int :=
  walk.foldl (fun indeg m => (succ m).foldl (count verts) indeg) fun _ => 0

/-- One edge out of the vertex just put in order. -/
def relax (verts : List α) (s : (α → Int) × List α) (d : α) : (α → Int) × List α :=
  if d ∈ verts then (Function.update s.1 d (s.1 d - 1), if s.1 d - 1 = 0 then d :: s.2 else s.2)
  else s

def loop (succ : α → List α) (verts : List α) : Nat → State α → Option (List α)
  | _, ⟨_, [], ordered⟩ => some ordered
  | 0, ⟨_, _ :: _, _⟩ => none
  | fuel + 1, ⟨indeg, cur :: ready, ordered⟩ =>
    let s := (succ cur).foldl (relax verts) (indeg, ready)
    loop succ verts fuel ⟨s.1, s.2, ordered ++ [cur]⟩

/-- The vertices that no order was found for, in the order of the walk. -/
def complete (walk ordered : List α) : List α :=
  walk.foldl (fun ordered m => if m ∈ ordered then ordered else ordered ++ [m]) ordered

/-! ## The counts -/

/-- The number of edges into `d` from the vertices of a set. -/
def inEdges (succ : α → List α) (s : Finset α) (d : α) : Nat := ∑ m ∈ s, (succ m).count d

variable {succ : α → List α} {verts : List α}

theorem foldl_count (l : List α) (indeg : α → Int) {d : α} (hd : d ∈ verts) :
    l.foldl (count verts) indeg d = indeg d + l.count d := by
  induction l generalizing indeg with
  | nil => simp
  | cons b l ih =>
    rw [List.foldl_cons, ih, List.count_cons]
    by_cases hb : b = d
    · subst hb
      rw [count, if_pos hd]
      simp
      omega
    · have : count verts indeg b d = indeg d := by
        unfold count
        split
        · rw [Function.update_of_ne (Ne.symm hb)]
        · rfl
      rw [this]
      simp [hb]

theorem indegrees_eq {walk : List α} (hw : walk.Perm verts) (hn : verts.Nodup) {d : α} (hd : d ∈ verts) :
    indegrees succ verts walk d = inEdges succ verts.toFinset d := by
  have hsum : ∀ (l : List α) (indeg : α → Int),
      l.foldl (fun indeg m => (succ m).foldl (count verts) indeg) indeg d =
        indeg d + ((l.map fun m => (succ m).count d).sum : Nat) := by
    intro l
    induction l with
    | nil => simp
    | cons m l ih =>
      intro indeg
      rw [List.foldl_cons, ih, foldl_count _ _ hd, List.map_cons, List.sum_cons]
      push_cast
      omega
  rw [indegrees, hsum, inEdges, List.sum_toFinset _ hn, (hw.map _).sum_eq]
  simp

/-- What edges to the vertices of a list have done: they are off the counts, and
the vertices whose count they have used up are pushed. -/
structure Relaxed (verts : List α) (indeg : α → Int) (ready l : List α) (s : (α → Int) × List α) : Prop where
  left : ∀ d ∈ verts, s.1 d = indeg d - l.count d
  pushed : ∃ new, s.2 = new ++ ready ∧ new.Nodup ∧ ∀ d, d ∈ new ↔ d ∈ verts ∧ d ∈ l ∧ indeg d = l.count d

section Relaxed

variable {indeg : α → Int} {ready l : List α} {s : (α → Int) × List α} {b : α}

theorem count_concat (l : List α) (b d : α) : (l ++ [b]).count d = l.count d + if b = d then 1 else 0 := by
  simp [List.count_append, List.count_singleton]

/-- An edge that leads out of the graph. -/
theorem Relaxed.skip (h : Relaxed verts indeg ready l s) (hb : b ∉ verts) : Relaxed verts indeg ready (l ++ [b]) s := by
  have hsame : ∀ d ∈ verts, (l ++ [b]).count d = l.count d := by
    intro d hd
    rw [count_concat, if_neg, Nat.add_zero]
    rintro rfl
    exact hb hd
  obtain ⟨new, hready, hnodup, hnew⟩ := h.pushed
  refine ⟨fun d hd => by rw [h.left d hd, hsame d hd], new, hready, hnodup, fun d => ?_⟩
  rw [hnew]
  constructor
  · rintro ⟨hd, hdl, he⟩
    exact ⟨hd, List.mem_append_left _ hdl, by rw [hsame d hd, he]⟩
  · rintro ⟨hd, hdl, he⟩
    refine ⟨hd, ?_, by rw [← hsame d hd, he]⟩
    rcases List.mem_append.mp hdl with hdl | hdl
    · exact hdl
    · exact absurd (List.mem_singleton.mp hdl ▸ hd) hb

theorem Relaxed.take (h : Relaxed verts indeg ready l s) (hb : b ∈ verts)
    (hle : ((l ++ [b]).count b : Int) ≤ indeg b) :
    Relaxed verts indeg ready (l ++ [b])
      (Function.update s.1 b (s.1 b - 1), if s.1 b - 1 = 0 then b :: s.2 else s.2) := by
  have hval := h.left b hb
  have hlast : (l ++ [b]).count b = l.count b + 1 := by rw [count_concat, if_pos rfl]
  obtain ⟨new, hready, hnodup, hnew⟩ := h.pushed
  -- what was pushed before has no edge left to come
  have hbnew : b ∉ new := by
    intro hin
    have := ((hnew b).mp hin).2.2
    omega
  have hother : ∀ d, d ≠ b → (d ∈ new ↔ d ∈ verts ∧ d ∈ l ++ [b] ∧ indeg d = (l ++ [b]).count d) := by
    intro d hdb
    rw [hnew, count_concat, if_neg (Ne.symm hdb)]
    simp [hdb]
  constructor
  · intro d hd
    dsimp only
    by_cases hdb : d = b
    · subst hdb
      rw [Function.update_self, hval, hlast]
      push_cast
      omega
    · rw [Function.update_of_ne hdb, h.left d hd, count_concat, if_neg (Ne.symm hdb), Nat.add_zero]
  · by_cases hpush : s.1 b - 1 = 0
    · refine ⟨b :: new, by rw [if_pos hpush, hready, List.cons_append], List.nodup_cons.mpr ⟨hbnew, hnodup⟩, ?_⟩
      intro d
      rw [List.mem_cons]
      by_cases hdb : d = b
      · subst hdb
        exact iff_of_true (.inl rfl) ⟨hb, by simp, by omega⟩
      · rw [or_iff_right hdb]
        exact hother d hdb
    · refine ⟨new, by rw [if_neg hpush, hready], hnodup, fun d => ?_⟩
      by_cases hdb : d = b
      · subst hdb
        refine iff_of_false hbnew fun hin => hpush ?_
        have := hin.2.2
        omega
      · exact hother d hdb

/-- As long as no more edges come than are counted. -/
theorem relaxed_foldl (l : List α) (ready : List α) (hle : ∀ d ∈ verts, (l.count d : Int) ≤ indeg d) :
    Relaxed verts indeg ready l (l.foldl (relax verts) (indeg, ready)) := by
  induction l using List.reverseRecOn with
  | nil => exact ⟨by simp, [], by simp⟩
  | append_singleton l b ih =>
    have hrelaxed := ih fun d hd => by
      have := hle d hd
      rw [count_concat] at this
      omega
    rw [List.foldl_append, List.foldl_cons, List.foldl_nil, relax]
    by_cases hb : b ∈ verts
    · rw [if_pos hb]
      exact hrelaxed.take hb (hle b hb)
    · rw [if_neg hb]
      exact hrelaxed.skip hb

end Relaxed

/-! ## The loop -/

/-- What the loop keeps true of its state. -/
structure Sound (succ : α → List α) (verts : List α) (s : State α) : Prop where
  nodup : (s.ready ++ s.ordered).Nodup
  sub : ∀ m ∈ s.ready ++ s.ordered, m ∈ verts
  indeg : ∀ d ∈ verts, s.indeg d = inEdges succ (verts.toFinset \ s.ordered.toFinset) d
  ready : ∀ d ∈ verts, d ∈ s.ready ++ s.ordered ↔ s.indeg d = 0
  sorted : s.ordered.Pairwise fun a b => a ∉ succ b

variable (succ) in
/-- The edges out of a vertex put in order are the ones that go. -/
theorem inEdges_concat {ordered : List α} {cur : α} (hcur : cur ∈ verts) (hfresh : cur ∉ ordered) (d : α) :
    inEdges succ (verts.toFinset \ ordered.toFinset) d =
      (succ cur).count d + inEdges succ (verts.toFinset \ (ordered ++ [cur]).toFinset) d := by
  have hmem : cur ∈ verts.toFinset \ ordered.toFinset := by simp [hcur, hfresh]
  have herase : verts.toFinset \ (ordered ++ [cur]).toFinset = (verts.toFinset \ ordered.toFinset).erase cur := by
    ext x
    simp only [List.toFinset_append, Finset.mem_sdiff, Finset.mem_union, List.mem_toFinset, List.mem_singleton,
      Finset.mem_erase]
    tauto
  rw [inEdges, inEdges, herase]
  exact (Finset.add_sum_erase _ (fun m => (succ m).count d) hmem).symm

section Turn

variable {indeg : α → Int} {cur : α} {ready ordered : List α}

theorem Sound.mem_cur (h : Sound succ verts ⟨indeg, cur :: ready, ordered⟩) : cur ∈ verts := h.sub cur (by simp)

theorem Sound.cur_notMem (h : Sound succ verts ⟨indeg, cur :: ready, ordered⟩) : cur ∉ ordered := by
  have := h.nodup
  rw [List.cons_append, List.nodup_cons, List.mem_append, not_or] at this
  exact this.1.2

/-- The edges out of the vertex on top have all been counted. -/
theorem Sound.count_le (h : Sound succ verts ⟨indeg, cur :: ready, ordered⟩) :
    ∀ d ∈ verts, ((succ cur).count d : Int) ≤ indeg d := by
  intro d hd
  have h₁ := h.indeg d hd
  have h₂ := inEdges_concat succ h.mem_cur h.cur_notMem d
  dsimp only at h₁
  omega

/-- A vertex that an edge of this turn leads to still had its count, so it was
neither ready nor in order. -/
theorem Sound.notMem_of_edge (h : Sound succ verts ⟨indeg, cur :: ready, ordered⟩) {d : α} (hd : d ∈ verts)
    (hs : d ∈ succ cur) : d ∉ cur :: ready ++ ordered := by
  intro hold
  have hzero := (h.ready d hd).mp hold
  have hle := h.count_le d hd
  have hpos := List.count_pos_iff.mpr hs
  dsimp only at hzero
  omega

theorem Sound.turn (h : Sound succ verts ⟨indeg, cur :: ready, ordered⟩) {s : (α → Int) × List α}
    (hr : Relaxed verts indeg ready (succ cur) s) : Sound succ verts ⟨s.1, s.2, ordered ++ [cur]⟩ := by
  obtain ⟨indeg', ready'⟩ := s
  obtain ⟨hindeg, new, rfl, hnodup, hnew⟩ := hr
  have hmem : ∀ d, d ∈ new ++ ready ++ (ordered ++ [cur]) ↔ d ∈ new ∨ d ∈ cur :: ready ++ ordered := by
    intro d
    simp only [List.mem_append, List.mem_cons, List.not_mem_nil, or_false]
    tauto
  refine ⟨?_, fun d hd => ?_, fun d hd => ?_, fun d hd => ?_, ?_⟩
  · have hp : (new ++ (cur :: ready ++ ordered)).Perm (new ++ ready ++ (ordered ++ [cur])) := by
      rw [List.append_assoc]
      refine List.Perm.append_left new ?_
      rw [← List.append_assoc]
      exact (List.perm_append_singleton cur (ready ++ ordered)).symm
    dsimp only
    rw [← hp.nodup_iff, List.nodup_append]
    refine ⟨hnodup, h.nodup, ?_⟩
    rintro x hx y hy rfl
    obtain ⟨hxv, hxs, -⟩ := (hnew x).mp hx
    exact h.notMem_of_edge hxv hxs hy
  · rcases (hmem d).mp hd with hd | hd
    · exact ((hnew d).mp hd).1
    · exact h.sub d hd
  · have h₁ := h.indeg d hd
    have h₂ := inEdges_concat succ h.mem_cur h.cur_notMem d
    have h₃ := hindeg d hd
    dsimp only at h₁ h₃ ⊢
    omega
  · have hz := h.ready d hd
    have hc := h.count_le d hd
    have hleft := hindeg d hd
    dsimp only at hz hleft ⊢
    rw [hmem, hleft]
    constructor
    · rintro (hd | hd)
      · have := ((hnew d).mp hd).2.2
        omega
      · have := hz.mp hd
        omega
    · intro he
      by_cases hds : d ∈ succ cur
      · exact .inl ((hnew d).mpr ⟨hd, hds, by omega⟩)
      · rw [List.count_eq_zero.mpr hds] at he
        exact .inr (hz.mpr (by simpa using he))
  · rw [List.pairwise_append]
    refine ⟨h.sorted, List.pairwise_singleton _ _, fun a ha b hb hab => ?_⟩
    rw [List.mem_singleton.mp hb] at hab
    have hav : a ∈ verts := h.sub a (List.mem_append_right _ ha)
    exact h.notMem_of_edge hav hab (List.mem_append_right _ ha)

end Turn

/-- The fuel counts the vertices that are not in order yet. -/
theorem loop_isSome {fuel : Nat} {s : State α} (h : Sound succ verts s)
    (hf : verts.length ≤ s.ordered.length + fuel) :
    ∃ indeg ordered, loop succ verts fuel s = some ordered ∧ Sound succ verts ⟨indeg, [], ordered⟩ := by
  induction fuel generalizing s with
  | zero =>
    obtain ⟨indeg, ready, ordered⟩ := s
    cases ready with
    | nil => exact ⟨indeg, ordered, by rw [loop], h⟩
    | cons cur ready =>
      have hle : (cur :: ready ++ ordered).length ≤ verts.length := h.nodup.length_le_of_subset h.sub
      simp only [List.length_append, List.length_cons] at hf hle
      omega
  | succ fuel ih =>
    obtain ⟨indeg, ready, ordered⟩ := s
    cases ready with
    | nil => exact ⟨indeg, ordered, by rw [loop], h⟩
    | cons cur ready =>
      rw [loop]
      refine ih (h.turn (relaxed_foldl (succ cur) ready h.count_le)) ?_
      simp only [List.length_append, List.length_singleton] at hf ⊢
      omega

theorem complete_eq {walk : List α} (hw : walk.Nodup) (ordered : List α) :
    complete walk ordered = ordered ++ walk.filter fun m => m ∉ ordered := by
  unfold complete
  induction walk generalizing ordered with
  | nil => simp
  | cons m walk ih =>
    rw [List.nodup_cons] at hw
    rw [List.foldl_cons]
    by_cases hm : m ∈ ordered
    · rw [if_pos hm, ih hw.2, List.filter_cons_of_neg (by simpa using hm)]
    · rw [if_neg hm, ih hw.2, List.filter_cons_of_pos (by simpa using hm), List.append_assoc, List.singleton_append]
      congr 2
      refine List.filter_congr fun x hx => ?_
      have : x ≠ m := fun he => hw.1 (he ▸ hx)
      simp [this]

/-! ## The order -/

/-- The edges between vertices of the list. -/
def Within (succ : α → List α) (verts : List α) (a b : α) : Prop := a ∈ verts ∧ b ∈ verts ∧ b ∈ succ a

/-- No vertex leads back to itself. -/
def Acyclic (succ : α → List α) (verts : List α) : Prop := ∀ m, ¬ Relation.TransGen (Within succ verts) m m

omit [DecidableEq α] in
/-- In an acyclic graph every set of vertices that is not empty has one without an edge into it. -/
theorem Acyclic.exists_source (h : Acyclic succ verts) {s : Finset α} (hs : ∀ m ∈ s, m ∈ verts) (hne : s.Nonempty) :
    ∃ d ∈ s, ∀ m ∈ s, d ∉ succ m := by
  have htrans : IsTrans s fun a b => Relation.TransGen (Within succ verts) a.1 b.1 :=
    ⟨fun _ _ _ => Relation.TransGen.trans⟩
  have hirrefl : Std.Irrefl fun a b : s => Relation.TransGen (Within succ verts) a.1 b.1 := ⟨fun a => h a.1⟩
  have hwf := Finite.wellFounded_of_trans_of_irrefl fun a b : s => Relation.TransGen (Within succ verts) a.1 b.1
  obtain ⟨m, hm⟩ := hne
  obtain ⟨d, -, hmin⟩ := hwf.has_min Set.univ ⟨⟨m, hm⟩, trivial⟩
  exact ⟨d.1, d.2, fun m hm hds => hmin ⟨m, hm⟩ trivial (.single ⟨hs m hm, hs d.1 d.2, hds⟩)⟩

/-- A loop that ends has put every vertex in order, unless there is a cycle. -/
theorem Sound.all_ordered {indeg : α → Int} {ordered : List α} (h : Sound succ verts ⟨indeg, [], ordered⟩)
    (ha : Acyclic succ verts) : ∀ m ∈ verts, m ∈ ordered := by
  by_contra hnot
  obtain ⟨m, hm, hmo⟩ := not_forall₂.mp hnot
  obtain ⟨d, hd, hsource⟩ := ha.exists_source (s := verts.toFinset \ ordered.toFinset)
    (fun m hm => List.mem_toFinset.mp (Finset.mem_sdiff.mp hm).1) ⟨m, by simp [hm, hmo]⟩
  have hdv : d ∈ verts := List.mem_toFinset.mp (Finset.mem_sdiff.mp hd).1
  have hzero : inEdges succ (verts.toFinset \ ordered.toFinset) d = 0 :=
    Finset.sum_eq_zero fun m hm => List.count_eq_zero.mpr (hsource m hm)
  have hindeg := h.indeg d hdv
  dsimp only at hindeg
  rw [hzero] at hindeg
  have hin : d ∈ ordered := (h.ready d hdv).mpr hindeg
  simp [hin] at hd

/-- Where every vertex is in order, it comes before all it leads to. -/
theorem Sound.idxOf_lt {indeg : α → Int} {ordered : List α} (h : Sound succ verts ⟨indeg, [], ordered⟩)
    (ha : Acyclic succ verts) {a b : α} (hab : Relation.TransGen (Within succ verts) a b) :
    ordered.idxOf a < ordered.idxOf b := by
  have hall := h.all_ordered ha
  have hstep : ∀ a b, Within succ verts a b → ordered.idxOf a < ordered.idxOf b := by
    intro a b hab
    have hia : ordered.idxOf a < ordered.length := List.idxOf_lt_length_iff.mpr (hall a hab.1)
    have hib : ordered.idxOf b < ordered.length := List.idxOf_lt_length_iff.mpr (hall b hab.2.1)
    rcases Nat.lt_trichotomy (ordered.idxOf a) (ordered.idxOf b) with hlt | heq | hgt
    · exact hlt
    · have : a = b := (List.idxOf_inj (hall a hab.1)).mp heq
      exact absurd (.single (this ▸ hab)) (ha b)
    · have := List.pairwise_iff_getElem.mp h.sorted _ _ hib hia hgt
      rw [List.getElem_idxOf hib, List.getElem_idxOf hia] at this
      exact absurd hab.2.2 this
  induction hab with
  | single h => exact hstep _ _ h
  | tail _ h ih => exact ih.trans (hstep _ _ h)

theorem complete_perm {walk ordered : List α} (hn : verts.Nodup) (hw : walk.Perm verts) (ho : ordered.Nodup)
    (hsub : ∀ m ∈ ordered, m ∈ verts) : (complete walk ordered).Perm verts := by
  have hwalk : walk.Nodup := hw.nodup_iff.mpr hn
  rw [complete_eq hwalk]
  refine (List.perm_ext_iff_of_nodup ?_ hn).mpr fun m => ?_
  · rw [List.nodup_append]
    refine ⟨ho, hwalk.filter _, ?_⟩
    rintro x hx y hy rfl
    simpa [hx] using List.of_mem_filter hy
  · rw [List.mem_append, List.mem_filter, hw.mem_iff]
    by_cases hm : m ∈ ordered
    · simp [hm, hsub m hm]
    · simp [hm]

/-- With every vertex in order nothing is left over. -/
theorem complete_of_all {walk ordered : List α} (hw : walk.Nodup) (hall : ∀ m ∈ walk, m ∈ ordered) :
    complete walk ordered = ordered := by
  have hnil : (walk.filter fun m => m ∉ ordered) = [] := by
    rw [List.filter_eq_nil_iff]
    intro m hm
    simpa using hall m hm
  rw [complete_eq hw, hnil, List.append_nil]

theorem sound_start {walk ready : List α} (hn : verts.Nodup) (hw : walk.Perm verts)
    (hr : ready.Perm (verts.filter fun d => indegrees succ verts walk d = 0)) :
    Sound succ verts ⟨indegrees succ verts walk, ready, []⟩ := by
  refine ⟨?_, fun m hm => ?_, fun d hd => ?_, fun d hd => ?_, .nil⟩
  · rw [List.append_nil, hr.nodup_iff]
    exact hn.filter _
  · rw [List.append_nil, hr.mem_iff] at hm
    exact List.mem_of_mem_filter hm
  · simpa using indegrees_eq hw hn hd
  · dsimp only
    rw [List.append_nil, hr.mem_iff, List.mem_filter]
    simp [hd]

/-- Start with the vertices nothing points to, and put what is left over at the end. -/
def order (succ : α → List α) (verts walk ready : List α) (fuel : Nat) : Option (List α) :=
  (loop succ verts fuel ⟨indegrees succ verts walk, ready, []⟩).map (complete walk)

/-- With a turn for every vertex the algorithm ends and lists each vertex once;
in an acyclic graph each comes before all it leads to. -/
theorem order_spec (succ : α → List α) {walk ready : List α} {fuel : Nat} (hn : verts.Nodup) (hw : walk.Perm verts)
    (hr : ready.Perm (verts.filter fun d => indegrees succ verts walk d = 0)) (hf : verts.length ≤ fuel) :
    ∃ l, order succ verts walk ready fuel = some l ∧ l.Perm verts ∧
      (Acyclic succ verts → ∀ a b, Relation.TransGen (Within succ verts) a b → l.idxOf a < l.idxOf b) := by
  have hlen : verts.length ≤ ([] : List α).length + fuel := by simpa using hf
  obtain ⟨indeg, ordered, hloop, hs⟩ := loop_isSome (sound_start hn hw hr) hlen
  have hnodup : ordered.Nodup := hs.nodup
  refine ⟨_, by rw [order, hloop, Option.map_some], complete_perm hn hw hnodup hs.sub, fun ha a b hab => ?_⟩
  rw [complete_of_all (hw.nodup_iff.mpr hn) fun m hm => hs.all_ordered ha m (hw.mem_iff.mp hm)]
  exact hs.idxOf_lt ha hab

end Kahn
