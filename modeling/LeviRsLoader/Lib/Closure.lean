import Mathlib.Data.List.Nodup
import Mathlib.Logic.Relation

/-!
# Closure under successors

The breadth-first walk that collects everything reachable from a vertex other
than the vertex itself. A walk that runs out of fuel answers nothing; fuel for
one turn per vertex is enough.
-/
namespace Closure

variable {α : Type*} [DecidableEq α]

/-- What is still to be expanded, and what has been met so far. -/
structure Walk (α : Type*) where
  queue : List α
  met : List α

def visit (start : α) (s : Walk α) (b : α) : Walk α :=
  if b = start then s
  else if b ∈ s.met then s
  else ⟨s.queue ++ [b], s.met ++ [b]⟩

def loop (nbrs : α → List α) (start : α) : Nat → Walk α → Option (List α)
  | _, ⟨[], met⟩ => some met
  | 0, ⟨_ :: _, _⟩ => none
  | fuel + 1, ⟨cur :: queue, met⟩ => loop nbrs start fuel ((nbrs cur).foldl (visit start) ⟨queue, met⟩)

def closure (nbrs : α → List α) (fuel : Nat) (start : α) : Option (List α) :=
  loop nbrs start fuel ⟨[start], []⟩

/-- Reachability along the edges. -/
abbrev Reach (nbrs : α → List α) : α → α → Prop := Relation.ReflTransGen fun x y => y ∈ nbrs x

/-- What the walk keeps true of its state. -/
structure Sound (nbrs : α → List α) (start : α) (s : Walk α) : Prop where
  nodup : s.met.Nodup
  apart : start ∉ s.met
  reach : ∀ b ∈ s.met, Reach nbrs start b
  queue : ∀ b ∈ s.queue, b = start ∨ b ∈ s.met

/-- What has been met and waits no more has had its successors met. -/
def Closed (nbrs : α → List α) (start : α) (s : Walk α) : Prop :=
  ∀ b, b = start ∨ b ∈ s.met → b ∉ s.queue → ∀ c ∈ nbrs b, c = start ∨ c ∈ s.met

omit [DecidableEq α] in
/-- A vertex that is new goes to the end of both lists. -/
theorem Sound.push {nbrs : α → List α} {start b : α} {s : Walk α} (h : Sound nbrs start s) (hstart : b ≠ start)
    (hmem : b ∉ s.met) (hb : Reach nbrs start b) : Sound nbrs start ⟨s.queue ++ [b], s.met ++ [b]⟩ := by
  refine ⟨?_, ?_, fun c hc => ?_, fun c hc => ?_⟩
  · rw [List.nodup_append]
    refine ⟨h.nodup, List.nodup_singleton b, ?_⟩
    rintro x hx y hy rfl
    rw [List.mem_singleton] at hy
    exact hmem (hy ▸ hx)
  · simpa using ⟨h.apart, Ne.symm hstart⟩
  · rcases List.mem_append.mp hc with hc | hc
    · exact h.reach c hc
    · rw [List.mem_singleton.mp hc]
      exact hb
  · rcases List.mem_append.mp hc with hc | hc
    · exact (h.queue c hc).imp_right fun hc => List.mem_append_left _ hc
    · exact .inr (List.mem_append_right _ hc)

/-- Visiting appends the same new vertices to both lists. -/
theorem foldl_visit (nbrs : α → List α) (start : α) (l : List α) {s : Walk α} (h : Sound nbrs start s)
    (hl : ∀ b ∈ l, Reach nbrs start b) :
    Sound nbrs start (l.foldl (visit start) s) ∧ (∀ b ∈ l, b = start ∨ b ∈ (l.foldl (visit start) s).met) ∧
      ∃ new, (l.foldl (visit start) s).met = s.met ++ new ∧ (l.foldl (visit start) s).queue = s.queue ++ new := by
  induction l generalizing s with
  | nil => exact ⟨h, by simp, [], by simp, by simp⟩
  | cons b l ih =>
    rw [List.foldl_cons]
    have hl' : ∀ c ∈ l, Reach nbrs start c := fun c hc => hl c (List.mem_cons_of_mem b hc)
    -- a vertex that is not new leaves the state as it is
    have hold (hb : b = start ∨ b ∈ s.met) (hv : visit start s b = s) :
        Sound nbrs start (l.foldl (visit start) (visit start s b)) ∧
        (∀ c ∈ b :: l, c = start ∨ c ∈ (l.foldl (visit start) (visit start s b)).met) ∧
        ∃ new, (l.foldl (visit start) (visit start s b)).met = s.met ++ new ∧
          (l.foldl (visit start) (visit start s b)).queue = s.queue ++ new := by
      rw [hv]
      obtain ⟨hs, hmet, new, hm, hq⟩ := ih h hl'
      refine ⟨hs, fun c hc => ?_, new, hm, hq⟩
      rcases List.mem_cons.mp hc with rfl | hc
      · exact hb.imp_right fun hb => by rw [hm]; exact List.mem_append_left _ hb
      · exact hmet c hc
    by_cases hstart : b = start
    · exact hold (.inl hstart) (if_pos hstart)
    · by_cases hmem : b ∈ s.met
      · exact hold (.inr hmem) (by rw [visit, if_neg hstart, if_pos hmem])
      · have hv : visit start s b = ⟨s.queue ++ [b], s.met ++ [b]⟩ := by
          rw [visit, if_neg hstart, if_neg hmem]
        rw [hv]
        have hs := h.push hstart hmem (hl b List.mem_cons_self)
        obtain ⟨hs', hmet, new, hm, hq⟩ := ih hs hl'
        refine ⟨hs', fun c hc => ?_, b :: new, by simpa using hm, by simpa using hq⟩
        rcases List.mem_cons.mp hc with rfl | hc
        · right
          rw [hm]
          simp
        · exact hmet c hc

/-- A turn of the loop keeps the walk sound and closed. -/
theorem turn (nbrs : α → List α) (start : α) {cur : α} {queue met : List α}
    (h : Sound nbrs start ⟨cur :: queue, met⟩) (hc : Closed nbrs start ⟨cur :: queue, met⟩) :
    Sound nbrs start ((nbrs cur).foldl (visit start) ⟨queue, met⟩) ∧
      Closed nbrs start ((nbrs cur).foldl (visit start) ⟨queue, met⟩) ∧
      ∃ new, ((nbrs cur).foldl (visit start) ⟨queue, met⟩).met = met ++ new ∧
        ((nbrs cur).foldl (visit start) ⟨queue, met⟩).queue = queue ++ new := by
  have hcur : Reach nbrs start cur := by
    rcases h.queue cur List.mem_cons_self with rfl | hm
    · exact .refl
    · exact h.reach cur hm
  have hpop : Sound nbrs start ⟨queue, met⟩ :=
    ⟨h.nodup, h.apart, h.reach, fun b hb => h.queue b (List.mem_cons_of_mem cur hb)⟩
  obtain ⟨hs, hmet, new, hm, hq⟩ := foldl_visit nbrs start (nbrs cur) hpop fun b hb => hcur.tail hb
  refine ⟨hs, fun b hb hnot c hbc => ?_, new, hm, hq⟩
  rw [hq, List.mem_append, not_or] at hnot
  by_cases hbcur : b = cur
  · subst hbcur
    exact hmet c hbc
  · have hb' : b = start ∨ b ∈ met := by
      rw [hm] at hb
      rcases hb with hb | hb
      · exact .inl hb
      · rcases List.mem_append.mp hb with hb | hb
        · exact .inr hb
        · exact absurd hb hnot.2
    refine (hc b hb' ?_ c hbc).imp_right fun hc => by rw [hm]; exact List.mem_append_left _ hc
    simp [hbcur, hnot.1]

/-- The fuel counts the vertices that have not been expanded yet. -/
theorem loop_isSome {nbrs : α → List α} {start : α} {verts : List α} (hverts : ∀ b, ∀ c ∈ nbrs b, c ∈ verts)
    {fuel : Nat} {s : Walk α} (h : Sound nbrs start s) (hc : Closed nbrs start s) (hsub : ∀ b ∈ s.met, b ∈ verts)
    (hf : s.queue.length + verts.length ≤ s.met.length + fuel) :
    ∃ met, loop nbrs start fuel s = some met ∧ Sound nbrs start ⟨[], met⟩ ∧ Closed nbrs start ⟨[], met⟩ := by
  induction fuel generalizing s with
  | zero =>
    obtain ⟨queue, met⟩ := s
    have hle : met.length ≤ verts.length := h.nodup.length_le_of_subset hsub
    cases queue with
    | nil => exact ⟨met, by rw [loop], h, hc⟩
    | cons cur queue =>
      simp only [List.length_cons] at hf
      omega
  | succ fuel ih =>
    obtain ⟨queue, met⟩ := s
    cases queue with
    | nil => exact ⟨met, by rw [loop], h, hc⟩
    | cons cur queue =>
      obtain ⟨hs, hclosed, new, hm, hq⟩ := turn nbrs start h hc
      rw [loop]
      refine ih hs hclosed (fun b hb => ?_) ?_
      · rcases List.mem_append.mp (hm ▸ hb) with hb | hb
        · exact hsub b hb
        · have hreach := hs.reach b (hm ▸ List.mem_append_right _ hb)
          cases hreach with
          | refl => exact absurd (hm ▸ List.mem_append_right _ hb) hs.apart
          | tail _ hbc => exact hverts _ b hbc
      · rw [hm, hq]
        simp only [List.length_cons, List.length_append] at hf ⊢
        omega

/-- With a turn for the start and one for every vertex the walk ends, having
met exactly what is reachable. -/
theorem closure_spec {nbrs : α → List α} {verts : List α} (hverts : ∀ b, ∀ c ∈ nbrs b, c ∈ verts) (start : α)
    {fuel : Nat} (hf : verts.length < fuel) :
    ∃ met, closure nbrs fuel start = some met ∧ met.Nodup ∧ ∀ b, b ∈ met ↔ b ≠ start ∧ Reach nbrs start b := by
  have hsound : Sound nbrs start ⟨[start], []⟩ :=
    ⟨List.nodup_nil, by simp, by simp, fun b hb => .inl (by simpa using hb)⟩
  have hclosed : Closed nbrs start ⟨[start], []⟩ := by
    rintro b (rfl | hb) hnot
    · simp at hnot
    · simp at hb
  have hlen : [start].length + verts.length ≤ ([] : List α).length + fuel := by
    simp only [List.length_cons, List.length_nil]
    omega
  obtain ⟨met, hloop, hs, hc⟩ := loop_isSome hverts hsound hclosed (by simp) hlen
  refine ⟨met, hloop, hs.nodup, fun b => ⟨fun hb => ⟨fun he => hs.apart (he ▸ hb), hs.reach b hb⟩, ?_⟩⟩
  rintro ⟨hne, hreach⟩
  have hall : b = start ∨ b ∈ met := by
    clear hne
    induction hreach with
    | refl => exact .inl rfl
    | tail _ hbc ih => exact hc _ ih (by simp) _ hbc
  exact hall.resolve_left hne

end Closure
