import Mathlib.Data.Finset.Card
import Mathlib.Logic.Relation

/-!
# Bounded graph search

The depth-first walk that collects the vertices reachable from one vertex and
gives up as soon as it meets more than `limit` of them. Its answer is the set
of reachable vertices, or `limit + 1` of them; where edges go both ways it
therefore depends on the component alone, not on where in it the walk starts.
-/
namespace Search

variable {α : Type*} [DecidableEq α]

/-- The state of the walk: `stack` holds the members not yet expanded. -/
structure Frontier (α : Type*) where
  seen : Finset α
  stack : List α
  members : List α

/-- Meet one neighbour; the failure carries everything seen so far. -/
def visit (limit : Nat) (s : Frontier α) (b : α) : Except (Finset α) (Frontier α) :=
  if b ∈ s.seen then .ok s
  else if limit ≤ s.members.length then .error (insert b s.seen)
  else .ok ⟨insert b s.seen, b :: s.stack, s.members ++ [b]⟩

/-- Meet the neighbours of the vertex just popped. -/
def expand (limit : Nat) : List α → Frontier α → Except (Finset α) (Frontier α)
  | [], s => .ok s
  | b :: l, s =>
    match visit limit s b with
    | .error seen => .error seen
    | .ok s => expand limit l s

def loop (limit : Nat) (nbrs : α → List α) : Nat → Frontier α → Except (Finset α) (Frontier α)
  | 0, s => .ok s
  | fuel + 1, s =>
    match s.stack with
    | [] => .ok s
    | cur :: rest =>
      match expand limit (nbrs cur) { s with stack := rest } with
      | .error seen => .error seen
      | .ok s => loop limit nbrs fuel s

/-- No walk that succeeds pops more than `limit` vertices, which makes that enough fuel. -/
def search (limit : Nat) (nbrs : α → List α) (a : α) : Except (Finset α) (List α) :=
  match loop limit nbrs limit ⟨{a}, [a], [a]⟩ with
  | .error seen => .error seen
  | .ok s => .ok s.members

/-- Reachability along the edges. -/
abbrev Conn (nbrs : α → List α) : α → α → Prop := Relation.ReflTransGen fun x y => y ∈ nbrs x

/-- What the walk keeps true of its state. -/
structure Sound (limit : Nat) (nbrs : α → List α) (a : α) (s : Frontier α) : Prop where
  seen : s.seen = s.members.toFinset
  nodup : s.members.Nodup
  small : s.members.length ≤ limit
  start : a ∈ s.members
  reach : ∀ b ∈ s.members, Conn nbrs a b
  stack : ∀ b ∈ s.stack, b ∈ s.members

/-- One state extends another by the same new vertices in both lists. -/
def Grows (s s' : Frontier α) : Prop :=
  ∃ new, s'.members = s.members ++ new ∧ s'.stack = new.reverse ++ s.stack

omit [DecidableEq α] in
theorem Grows.refl (s : Frontier α) : Grows s s := ⟨[], by simp, by simp⟩

omit [DecidableEq α] in
theorem Grows.trans {s t u : Frontier α} (h : Grows s t) (h' : Grows t u) : Grows s u := by
  obtain ⟨new, hm, hs⟩ := h
  obtain ⟨new', hm', hs'⟩ := h'
  exact ⟨new ++ new', by rw [hm', hm, List.append_assoc], by rw [hs', hs, List.reverse_append, List.append_assoc]⟩

variable {limit : Nat} {nbrs : α → List α} {a : α} {s s' : Frontier α}

theorem visit_ok {b : α} (h : Sound limit nbrs a s) (hb : Conn nbrs a b) (hv : visit limit s b = .ok s') :
    Sound limit nbrs a s' ∧ b ∈ s'.members ∧ Grows s s' := by
  unfold visit at hv
  split at hv
  · next hseen =>
    cases hv
    rw [h.seen, List.mem_toFinset] at hseen
    exact ⟨h, hseen, .refl s⟩
  · next hnew =>
    rw [h.seen, List.mem_toFinset] at hnew
    split at hv
    · cases hv
    · next hlimit =>
      cases hv
      refine ⟨⟨?_, ?_, ?_, ?_, ?_, ?_⟩, by simp, ⟨[b], rfl, rfl⟩⟩
      · ext c
        simp [h.seen]
      · rw [List.nodup_append]
        exact ⟨h.nodup, List.nodup_singleton b, by rintro x hx y hy rfl; simp at hy; exact hnew (hy ▸ hx)⟩
      · simp
        omega
      · simp [h.start]
      · intro c hc
        rcases List.mem_append.mp hc with hc | hc
        · exact h.reach c hc
        · rw [List.mem_singleton.mp hc]
          exact hb
      · intro c hc
        rcases List.mem_cons.mp hc with rfl | hc
        · simp
        · simp [h.stack c hc]

theorem visit_error {b : α} {seen : Finset α} (h : Sound limit nbrs a s) (hb : Conn nbrs a b)
    (hv : visit limit s b = .error seen) : (∀ c ∈ seen, Conn nbrs a c) ∧ seen.card = limit + 1 := by
  unfold visit at hv
  split at hv
  · cases hv
  · next hnew =>
    split at hv
    · next hlimit =>
      cases hv
      constructor
      · intro c hc
        rcases Finset.mem_insert.mp hc with rfl | hc
        · exact hb
        · rw [h.seen, List.mem_toFinset] at hc
          exact h.reach c hc
      · have := h.small
        rw [Finset.card_insert_of_notMem hnew, h.seen, List.toFinset_card_of_nodup h.nodup]
        omega
    · cases hv

theorem expand_ok {l : List α} (h : Sound limit nbrs a s) (hl : ∀ b ∈ l, Conn nbrs a b)
    (he : expand limit l s = .ok s') :
    Sound limit nbrs a s' ∧ (∀ b ∈ l, b ∈ s'.members) ∧ Grows s s' := by
  induction l generalizing s with
  | nil =>
    cases he
    exact ⟨h, by simp, .refl _⟩
  | cons b l ih =>
    rw [expand] at he
    split at he
    · cases he
    · next t hv =>
      obtain ⟨ht, hbt, hg⟩ := visit_ok h (hl b (by simp)) hv
      obtain ⟨hs', hl', hg'⟩ := ih ht (fun c hc => hl c (by simp [hc])) he
      refine ⟨hs', fun c hc => ?_, hg.trans hg'⟩
      rcases List.mem_cons.mp hc with rfl | hc
      · obtain ⟨new, hm, _⟩ := hg'
        rw [hm]
        exact List.mem_append_left _ hbt
      · exact hl' c hc

theorem expand_error {l : List α} {seen : Finset α} (h : Sound limit nbrs a s) (hl : ∀ b ∈ l, Conn nbrs a b)
    (he : expand limit l s = .error seen) : (∀ c ∈ seen, Conn nbrs a c) ∧ seen.card = limit + 1 := by
  induction l generalizing s with
  | nil => cases he
  | cons b l ih =>
    rw [expand] at he
    split at he
    · next hv =>
      cases he
      exact visit_error h (hl b (by simp)) hv
    · next t hv =>
      obtain ⟨ht, _, _⟩ := visit_ok h (hl b (by simp)) hv
      exact ih ht (fun c hc => hl c (by simp [hc])) he

/-- The neighbours of a member that is not on the stack are members. -/
def Closed (nbrs : α → List α) (s : Frontier α) : Prop :=
  ∀ b ∈ s.members, b ∉ s.stack → ∀ c ∈ nbrs b, c ∈ s.members

theorem Sound.pop {cur : α} {rest : List α} (h : Sound limit nbrs a s) (hs : s.stack = cur :: rest) :
    Sound limit nbrs a { s with stack := rest } ∧ ∀ b ∈ nbrs cur, Conn nbrs a b := by
  have hcur : cur ∈ s.members := h.stack cur (by simp [hs])
  refine ⟨⟨h.seen, h.nodup, h.small, h.start, h.reach, fun b hb => h.stack b (by simp [hs, hb])⟩, fun b hb => ?_⟩
  exact (h.reach cur hcur).tail hb

/-- The popped vertex is the only one whose neighbours were missing. -/
theorem Closed.expand {cur : α} {rest : List α} (h : Closed nbrs s) (hs : s.stack = cur :: rest)
    (hg : Grows { s with stack := rest } s') (hcur : ∀ b ∈ nbrs cur, b ∈ s'.members) : Closed nbrs s' := by
  obtain ⟨new, hm, hst⟩ := hg
  intro b hb hnot c hc
  rw [hst] at hnot
  simp only [List.mem_append, List.mem_reverse, not_or] at hnot
  rw [hm] at hb ⊢
  rcases List.mem_append.mp hb with hb | hb
  · by_cases hbc : b = cur
    · subst hbc
      have := hcur c hc
      rwa [hm] at this
    · refine List.mem_append_left _ (h b hb ?_ c hc)
      rw [hs]
      simp [hbc, hnot.2]
  · exact absurd hb hnot.1

/-- The fuel counts the pops that are left, so it runs out on an empty stack. -/
theorem loop_ok {fuel : Nat} (h : Sound limit nbrs a s) (hc : Closed nbrs s)
    (hf : s.members.length + fuel = s.stack.length + limit) (hl : loop limit nbrs fuel s = .ok s') :
    Sound limit nbrs a s' ∧ s'.stack = [] ∧ ∀ b ∈ s'.members, ∀ c ∈ nbrs b, c ∈ s'.members := by
  induction fuel generalizing s with
  | zero =>
    rw [loop] at hl
    injection hl with hl
    subst hl
    have hsmall := h.small
    have hnil : s.stack = [] := List.length_eq_zero_iff.mp (by omega)
    exact ⟨h, hnil, fun b hb => hc b hb (by simp [hnil])⟩
  | succ fuel ih =>
    rw [loop] at hl
    split at hl
    · next hnil =>
      cases hl
      exact ⟨h, hnil, fun b hb => hc b hb (by simp [hnil])⟩
    · next cur rest hs =>
      obtain ⟨hpop, hnb⟩ := h.pop hs
      split at hl
      · cases hl
      · next t he =>
        obtain ⟨ht, hmem, hg⟩ := expand_ok hpop hnb he
        refine ih ht (hc.expand hs hg hmem) ?_ hl
        obtain ⟨new, hm, hst⟩ := hg
        rw [hs] at hf
        simp only [hm, hst, List.length_append, List.length_reverse, List.length_cons] at hf ⊢
        omega

theorem loop_error {fuel : Nat} {seen : Finset α} (h : Sound limit nbrs a s)
    (hl : loop limit nbrs fuel s = .error seen) : (∀ c ∈ seen, Conn nbrs a c) ∧ seen.card = limit + 1 := by
  induction fuel generalizing s with
  | zero => cases hl
  | succ fuel ih =>
    rw [loop] at hl
    split at hl
    · cases hl
    · next cur rest hs =>
      obtain ⟨hpop, hnb⟩ := h.pop hs
      split at hl
      · next he =>
        cases hl
        exact expand_error hpop hnb he
      · next t he => exact ih (expand_ok hpop hnb he).1 hl

theorem sound_start (hlimit : 0 < limit) : Sound limit nbrs a ⟨{a}, [a], [a]⟩ := by
  refine ⟨by simp, by simp, hlimit, by simp, fun b hb => ?_, by simp⟩
  rw [List.mem_singleton.mp hb]

omit [DecidableEq α] in
theorem closed_start {seen : Finset α} : Closed nbrs ⟨seen, [a], [a]⟩ :=
  fun _ hb hnot => absurd hb (by simpa using hnot)

/-- A walk that has nothing left on its stack, or has given up, is over. -/
theorem loop_add {fuel n : Nat} (h : ∀ s', loop limit nbrs fuel s = .ok s' → s'.stack = []) :
    loop limit nbrs (fuel + n) s = loop limit nbrs fuel s := by
  induction fuel generalizing s with
  | zero =>
    have hnil := h s rfl
    cases n with
    | zero => rfl
    | succ n => simp [loop, hnil]
  | succ fuel ih =>
    rw [Nat.add_right_comm]
    cases hs : s.stack with
    | nil => simp [loop, hs]
    | cons cur rest =>
      simp only [loop, hs] at h ⊢
      cases he : expand limit (nbrs cur) { s with stack := rest } with
      | error seen => rfl
      | ok t =>
        rw [he] at h
        exact ih h

/-- The fuel of the search is enough: the walk is over after `limit` pops. -/
theorem search_stops (hlimit : 0 < limit) (n : Nat) :
    loop limit nbrs (limit + n) ⟨{a}, [a], [a]⟩ = loop limit nbrs limit ⟨{a}, [a], [a]⟩ :=
  loop_add fun _ hl => (loop_ok (sound_start hlimit) closed_start (by simp [Nat.add_comm]) hl).2.1

/-- A walk that ends has collected exactly the reachable vertices. -/
theorem search_ok {ms : List α} (hlimit : 0 < limit) (h : search limit nbrs a = .ok ms) :
    (∀ b, b ∈ ms ↔ Conn nbrs a b) ∧ ms.length ≤ limit := by
  unfold search at h
  split at h
  · cases h
  · next s hl =>
    cases h
    obtain ⟨hs, -, hclosed⟩ := loop_ok (sound_start hlimit) closed_start (by simp [Nat.add_comm]) hl
    refine ⟨fun b => ⟨hs.reach b, fun hb => ?_⟩, hs.small⟩
    induction hb with
    | refl => exact hs.start
    | tail _ hc ih => exact hclosed _ ih _ hc

/-- A walk that gives up has seen more reachable vertices than it may. -/
theorem search_error {seen : Finset α} (hlimit : 0 < limit) (h : search limit nbrs a = .error seen) :
    (∀ b ∈ seen, Conn nbrs a b) ∧ seen.card = limit + 1 := by
  unfold search at h
  split at h
  · next hl =>
    cases h
    exact loop_error (sound_start hlimit) hl
  · cases h

/-- Where edges go both ways, the walk gives one answer for a whole component. -/
theorem search_congr {b : α} {ms : List α} (hlimit : 0 < limit) (hsym : ∀ x y, y ∈ nbrs x → x ∈ nbrs y)
    (hab : Conn nbrs a b) (h : search limit nbrs a = .ok ms) :
    ∃ ms', search limit nbrs b = .ok ms' ∧ ∀ c, c ∈ ms' ↔ c ∈ ms := by
  have hback : Conn nbrs b a := by
    have : Std.Symm fun x y => y ∈ nbrs x := ⟨hsym⟩
    exact symm_of (Conn nbrs) hab
  obtain ⟨hms, hsmall⟩ := search_ok hlimit h
  cases hb : search limit nbrs b with
  | ok ms' =>
    refine ⟨ms', rfl, fun c => ?_⟩
    rw [(search_ok hlimit hb).1 c, hms c]
    exact ⟨hab.trans, hback.trans⟩
  | error seen =>
    obtain ⟨hseen, hcard⟩ := search_error hlimit hb
    have hsub : seen ⊆ ms.toFinset := fun c hc => by
      rw [List.mem_toFinset, hms c]
      exact hab.trans (hseen c hc)
    have hle := (Finset.card_le_card hsub).trans (List.toFinset_card_le ms)
    omega

end Search
