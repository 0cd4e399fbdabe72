import Mathlib.Data.List.Infix

/-!
# Event ids

The name a mod subscribes to, resolved against the ids the event bus lists: the exact id,
or the only id that ends with the name. The bus lists pairs, one for each mod that has
registered an emitter, in an order that says nothing.
-/
namespace EventIds

/-- The bytes of a `std::string`. -/
abbrev Name := List UInt8

/-- The bus as the resolver sees it: `events()` yields (mod, id) pairs, and `hasEvent` knows
the ids listed. -/
structure EventBus where
  hasEvent : Name → Bool
  events : List (Name × Name)
  listed : ∀ id, hasEvent id = true ↔ id ∈ events.map Prod.snd

/-- The bus with these emitters registered. -/
def EventBus.ofEvents (events : List (Name × Name)) : EventBus where
  hasEvent id := id ∈ events.map Prod.snd
  events := events
  listed _ := decide_eq_true_iff

def EventBus.ids (bus : EventBus) : List Name := bus.events.map Prod.snd

/-- The `match` of the loop: `wanted` stands at the end of `name`, behind a `:` or a `.`. -/
def isSuffixMatch (wanted name : Name) : Bool :=
  decide (name.length > wanted.length) && wanted.isSuffixOf name
    && (name[name.length - wanted.length - 1]? == some 58 || name[name.length - wanted.length - 1]? == some 46)

/-- The loop over `bus.events()`; a second name among the matches ends it with nothing. -/
def resolveLoop (wanted : Name) (hit : Option Name) : List (Name × Name) → Option Name
  | [] => hit
  | (_, name) :: events =>
    if isSuffixMatch wanted name || name == wanted then
      match hit with
      | some h => if h ≠ name then none else resolveLoop wanted hit events
      | none => resolveLoop wanted (some name) events
    else resolveLoop wanted hit events

def resolveEventId (bus : EventBus) (wanted : Name) : Option Name :=
  if bus.hasEvent wanted then some wanted else resolveLoop wanted none bus.events

/-- `id` ends with the name, behind a `:` or a `.`. -/
def EndsWithName (id wanted : Name) : Prop := ∃ scope sep, id = scope ++ sep :: wanted ∧ (sep = 58 ∨ sep = 46)

/-- The byte the code looks at is the one right before the name. -/
theorem separator_at (scope wanted : Name) (sep : UInt8) :
    (scope ++ sep :: wanted)[(scope ++ sep :: wanted).length - wanted.length - 1]? = some sep := by
  have hindex : (scope ++ sep :: wanted).length - wanted.length - 1 = scope.length := by
    rw [List.length_append, List.length_cons]
    omega
  rw [hindex, List.getElem?_append_right (Nat.le_refl _), Nat.sub_self, List.getElem?_cons_zero]

theorem isSuffixMatch_iff (wanted name : Name) : isSuffixMatch wanted name = true ↔ EndsWithName name wanted := by
  simp only [isSuffixMatch, Bool.and_eq_true, Bool.or_eq_true, decide_eq_true_eq, beq_iff_eq,
    List.isSuffixOf_iff_suffix]
  constructor
  · rintro ⟨⟨hlt, front, rfl⟩, hsep⟩
    rcases List.eq_nil_or_concat front with rfl | ⟨scope, sep, rfl⟩
    · exact absurd hlt (Nat.lt_irrefl _)
    · rw [List.concat_eq_append, List.append_assoc, List.singleton_append] at hsep ⊢
      rw [separator_at, Option.some.injEq, Option.some.injEq] at hsep
      exact ⟨scope, sep, rfl, hsep⟩
  · rintro ⟨scope, sep, rfl, hsep⟩
    rw [separator_at, Option.some.injEq, Option.some.injEq]
    refine ⟨⟨?_, scope ++ [sep], List.append_cons .. |>.symm⟩, hsep⟩
    rw [List.length_append, List.length_cons]
    omega

/-- What the loop takes for a match. -/
def Candidate (wanted id : Name) : Prop := EndsWithName id wanted ∨ id = wanted

theorem candidate_iff (wanted name : Name) :
    (isSuffixMatch wanted name || name == wanted) = true ↔ Candidate wanted name := by
  rw [Bool.or_eq_true, isSuffixMatch_iff, beq_iff_eq, Candidate]

/-- With a hit, the loop keeps it as long as it meets no other candidate. -/
theorem resolveLoop_hit (wanted h id : Name) (events : List (Name × Name)) :
    resolveLoop wanted (some h) events = some id
      ↔ h = id ∧ ∀ name ∈ events.map Prod.snd, Candidate wanted name → name = h := by
  induction events with
  | nil => simp [resolveLoop]
  | cons e events ih =>
    simp only [resolveLoop, List.map_cons, List.forall_mem_cons]
    by_cases hc : Candidate wanted e.2
    · rw [if_pos ((candidate_iff ..).mpr hc)]
      by_cases hne : h ≠ e.2
      · rw [if_pos hne]
        exact ⟨fun hn => (nomatch hn), fun hn => absurd (hn.2.1 hc).symm hne⟩
      · rw [if_neg hne, ih]
        have he : e.2 = h := (not_not.mp hne).symm
        exact ⟨fun hn => ⟨hn.1, fun _ => he, hn.2⟩, fun hn => ⟨hn.1, hn.2.2⟩⟩
    · rw [if_neg fun hn => hc ((candidate_iff ..).mp hn), ih]
      exact ⟨fun hn => ⟨hn.1, fun hn' => absurd hn' hc, hn.2⟩, fun hn => ⟨hn.1, hn.2.2⟩⟩

/-- The loop finds the only candidate, however often and wherever it is listed. -/
theorem resolveLoop_none (wanted id : Name) (events : List (Name × Name)) :
    resolveLoop wanted none events = some id
      ↔ id ∈ events.map Prod.snd ∧ Candidate wanted id
        ∧ ∀ name ∈ events.map Prod.snd, Candidate wanted name → name = id := by
  induction events with
  | nil => simp [resolveLoop]
  | cons e events ih =>
    simp only [resolveLoop, List.map_cons, List.forall_mem_cons]
    by_cases hc : Candidate wanted e.2
    · rw [if_pos ((candidate_iff ..).mpr hc), resolveLoop_hit]
      constructor
      · rintro ⟨rfl, hall⟩
        exact ⟨List.mem_cons_self, hc, fun _ => rfl, hall⟩
      · rintro ⟨-, -, he, hall⟩
        obtain rfl := he hc
        exact ⟨rfl, hall⟩
    · rw [if_neg fun hn => hc ((candidate_iff ..).mp hn), ih]
      constructor
      · rintro ⟨hmem, hid, hall⟩
        exact ⟨List.mem_cons_of_mem _ hmem, hid, fun hn => absurd hn hc, hall⟩
      · rintro ⟨hmem, hid, -, hall⟩
        rcases List.mem_cons.mp hmem with rfl | hmem
        · exact absurd hid hc
        · exact ⟨hmem, hid, hall⟩

theorem resolveEventId_exact {bus : EventBus} {wanted : Name} (h : wanted ∈ bus.ids) :
    resolveEventId bus wanted = some wanted := by
  rw [resolveEventId, if_pos ((bus.listed wanted).mpr h)]

theorem resolveEventId_suffix {bus : EventBus} {wanted : Name} (h : wanted ∉ bus.ids) (id : Name) :
    resolveEventId bus wanted = some id
      ↔ id ∈ bus.ids ∧ EndsWithName id wanted ∧ ∀ name ∈ bus.ids, EndsWithName name wanted → name = id := by
  rw [resolveEventId, if_neg fun hn => h ((bus.listed wanted).mp hn), resolveLoop_none]
  have hcand (name : Name) (hmem : name ∈ bus.ids) : Candidate wanted name ↔ EndsWithName name wanted := by
    rw [Candidate, or_iff_left]
    rintro rfl
    exact h hmem
  constructor
  · rintro ⟨hmem, hid, hall⟩
    exact ⟨hmem, (hcand id hmem).mp hid, fun name hn hend => hall name hn ((hcand name hn).mpr hend)⟩
  · rintro ⟨hmem, hid, hall⟩
    exact ⟨hmem, (hcand id hmem).mpr hid, fun name hn hc => hall name hn ((hcand name hn).mp hc)⟩

/-- The exact id, else the one id that ends with the name, else nothing: a function of the
set of ids listed. -/
theorem resolveEventId_of_ids (bus : EventBus) (wanted : Name) :
    (wanted ∈ bus.ids → resolveEventId bus wanted = some wanted)
    ∧ (wanted ∉ bus.ids → ∀ id, resolveEventId bus wanted = some id
      ↔ id ∈ bus.ids ∧ EndsWithName id wanted ∧ ∀ name ∈ bus.ids, EndsWithName name wanted → name = id)
    ∧ ∀ bus' : EventBus, (∀ id, id ∈ bus'.ids ↔ id ∈ bus.ids) →
      resolveEventId bus' wanted = resolveEventId bus wanted := by
  refine ⟨resolveEventId_exact, resolveEventId_suffix, fun bus' hids => ?_⟩
  by_cases h : wanted ∈ bus.ids
  · rw [resolveEventId_exact h, resolveEventId_exact ((hids wanted).mpr h)]
  · refine Option.ext fun id => ?_
    have h' : wanted ∉ bus'.ids := fun hn => h ((hids wanted).mp hn)
    rw [resolveEventId_suffix h', resolveEventId_suffix h]
    simp only [hids]

/-- Two mods have emitters for `l.e`, one of them another for `l:f`. -/
def emitters : List (Name × Name) := [([1], [108, 46, 101]), ([1], [108, 58, 102]), ([2], [108, 46, 101])]

theorem resolveEventId_reversed :
    resolveEventId (.ofEvents emitters) [101] = some [108, 46, 101] ∧
      resolveEventId (.ofEvents emitters.reverse) [101] = resolveEventId (.ofEvents emitters) [101] := by
  obtain ⟨-, hsuffix, hids⟩ := resolveEventId_of_ids (.ofEvents emitters) [101]
  refine ⟨(hsuffix (by decide) _).mpr ⟨by decide, ⟨[108], 46, rfl, .inr rfl⟩, fun name hn hend => ?_⟩,
    hids _ fun id => ?_⟩
  · have hall : ∀ name ∈ (EventBus.ofEvents emitters).ids, isSuffixMatch [101] name = true → name = [108, 46, 101] := by
      decide
    exact hall name hn ((isSuffixMatch_iff ..).mpr hend)
  · simp only [EventBus.ids, EventBus.ofEvents, List.map_reverse, List.mem_reverse]

end EventIds
