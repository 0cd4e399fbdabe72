import Mathlib.Data.List.Infix

/-!
# Searching a text with separators

Where a pattern can occur in a text that is put together around a separator:
in one of the parts or, if the pattern holds the separator itself, across it.
-/
namespace Infix

variable {α : Type*} {a b p q u : List α} {c : α}

theorem infix_append_left (h : p <:+: a) (c : α) (b : List α) : p <:+: a ++ c :: b :=
  h.trans (List.prefix_append a _).isInfix

theorem infix_append_right (h : p <:+: b) (a : List α) (c : α) : p <:+: a ++ c :: b :=
  h.trans ((List.suffix_cons c b).trans (List.suffix_append a _)).isInfix

/-- A part without `c` behind a `c` lies behind it altogether. -/
theorem split_right {s x : List α} (hu : c ∉ u) (h : s ++ u = a ++ c :: x) : ∃ y, s = a ++ c :: y ∧ x = y ++ u := by
  rcases List.append_eq_append_iff.mp h with ⟨y, -, hy⟩ | ⟨y, hs, hy⟩
  · exact absurd (hy ▸ List.mem_append_right y (.head x)) hu
  · cases y with
    | nil =>
      have hcu : c :: x = u := hy
      exact absurd (hcu ▸ List.Mem.head x) hu
    | cons d y =>
      obtain ⟨rfl, hx⟩ := List.cons.inj hy
      exact ⟨y, hs, hx⟩

/-- A part without `c` in front of a `c` lies in front of it altogether. -/
theorem split_left {t x : List α} (hq : c ∉ q) (h : q ++ t = x ++ c :: b) : ∃ y, x = q ++ y ∧ t = y ++ c :: b := by
  rcases List.append_eq_append_iff.mp h with ⟨y, hx, ht⟩ | ⟨y, hy, ht⟩
  · exact ⟨y, hx, ht⟩
  · cases y with
    | nil => exact ⟨[], by simpa using hy.symm, ht.symm⟩
    | cons d y =>
      obtain ⟨rfl, -⟩ := List.cons.inj ht
      exact absurd (hy ▸ List.mem_append_right x (.head y)) hq

/-- A pattern with one `c` in a text with one marked `c`: left of it, right of it, or on it. -/
theorem infix_across (hu : c ∉ u) (hq : c ∉ q) :
    (u ++ c :: q) <:+: (a ++ c :: b) ↔
      (u ++ c :: q) <:+: a ∨ (u ++ c :: q) <:+: b ∨ u <:+ a ∧ q <+: b := by
  constructor
  · rintro ⟨s, t, h⟩
    have hsplit : (s ++ u) ++ c :: (q ++ t) = a ++ c :: b := by
      rw [← h]
      simp
    rcases List.append_eq_append_iff.mp hsplit with ⟨x, ha, hx⟩ | ⟨x, hsu, hx⟩
    · cases x with
      | nil =>
        obtain ⟨-, hb⟩ := List.cons.inj hx
        exact .inr (.inr ⟨⟨s, by simpa using ha.symm⟩, ⟨t, hb⟩⟩)
      | cons d x =>
        -- the marked separator lies behind the pattern's, so behind all of the pattern
        obtain ⟨rfl, hqt⟩ := List.cons.inj hx
        obtain ⟨y, rfl, -⟩ := split_left hq hqt
        exact .inl ⟨s, y, by rw [ha]; simp⟩
    · cases x with
      | nil =>
        obtain ⟨-, hb⟩ := List.cons.inj hx
        exact .inr (.inr ⟨⟨s, by simpa using hsu⟩, ⟨t, hb.symm⟩⟩)
      | cons d x =>
        obtain ⟨rfl, hb⟩ := List.cons.inj hx
        obtain ⟨y, -, rfl⟩ := split_right hu hsu
        exact .inr (.inl ⟨y, t, by rw [hb]; simp⟩)
  · rintro (h | h | ⟨⟨s, rfl⟩, ⟨t, rfl⟩⟩)
    · exact infix_append_left h c b
    · exact infix_append_right h a c
    · exact ⟨s, t, by simp⟩

/-- A separator the pattern does not hold divides the text for it. -/
theorem infix_separated (hne : p ≠ []) (hc : c ∉ p) : p <:+: (a ++ c :: b) ↔ p <:+: a ∨ p <:+: b := by
  constructor
  · rintro ⟨s, t, h⟩
    rw [List.append_assoc] at h
    rcases List.append_eq_append_iff.mp h with ⟨x, ha, hx⟩ | ⟨x, hs, hx⟩
    · obtain ⟨y, rfl, -⟩ := split_left hc hx
      exact .inl ⟨s, y, by rw [ha, List.append_assoc]⟩
    · cases x with
      | nil =>
        cases p with
        | nil => exact absurd rfl hne
        | cons d p =>
          obtain ⟨rfl, -⟩ := List.cons.inj hx
          exact absurd (.head p) hc
      | cons d x =>
        obtain ⟨rfl, hb⟩ := List.cons.inj hx
        exact .inr ⟨x, t, by rw [hb]; simp⟩
  · rintro (h | h)
    · exact infix_append_left h c b
    · exact infix_append_right h a c

/-- At the front of the text. -/
theorem infix_cons_separated (hne : p ≠ []) (hc : c ∉ p) : p <:+: (c :: b) ↔ p <:+: b := by
  have h := infix_separated (a := []) (b := b) hne hc
  rw [List.nil_append] at h
  rw [h, or_iff_right]
  exact fun hnil => hne (List.infix_nil.mp hnil)

/-- At its end. -/
theorem infix_concat_separated (hne : p ≠ []) (hc : c ∉ p) : p <:+: (a ++ [c]) ↔ p <:+: a := by
  rw [infix_separated hne hc, or_iff_left]
  exact fun hnil => hne (List.infix_nil.mp hnil)

theorem not_infix_of_not_mem (hc : c ∈ p) (ha : c ∉ a) : ¬p <:+: a := fun h => ha (h.subset hc)

end Infix
