import LeviRsLoader.Forms
import LeviRsLoader.SchedulerRuns

/-!
# Runs of the form tickets

The engine's closure, the sender whose form did not go out and the sweep of an
unload may each take a ticket, and whoever reports the form done frees the
closure the mod has boxed. Everything happens on the server thread, but while
`sendTo` runs anything may: other forms, answers to forms that are out, and mods
being disabled or unloaded.
-/
namespace Forms

open LeviRs Runs
open Scheduler (Life)

/-! ## `api_form_send` in two halves -/

/-- Up to the engine's `sendTo`: the form is refused, or a ticket stands for it. -/
def beginSend (live : ModId → Bool) (player spec : Bool) (mod : ModId) (cb : Callback) (s : Registry) :
    Option (Nat × Registry) :=
  if player && spec && live mod then some (registerTicket mod cb s) else none

/-- From there on: a form that did not go out gives its ticket back. -/
def endSend (kind : Int32) (engine : Option Bool) (ticket : Nat) (s : Registry) : Bool × Registry :=
  if sent kind engine then (true, s) else (false, { s with gPendingForms := s.gPendingForms.erase ticket })

theorem api_form_send_eq (live : ModId → Bool) (m : ModId) (player spec : Bool) (kind : Int32)
    (engine : Option Bool) (fn user : Ptr) (s : Registry) :
    api_form_send live (some m) player spec kind engine (some fn) user s =
      match beginSend live player spec m ⟨fn, user⟩ s with
      | none => (false, s)
      | some (ticket, s) => endSend kind engine ticket s := by
  cases player with
  | false => rfl
  | true =>
    cases spec with
    | false => rfl
    | true =>
      cases hl : live m with
      | false => simp [api_form_send, beginSend, hl]
      | true => simp [api_form_send, beginSend, endSend, hl]

/-! ## The system -/

/-- A `form_send` whose `sendTo` has not come back. -/
structure Sending where
  ticket : Nat
  form : PendingForm
  kind : Int32
  deriving DecidableEq

/-- What a form's closure captures. -/
structure Closure where
  weakMod : ModId
  ticket : Nat
  deriving DecidableEq, Repr

structure System where
  reg : Registry
  sending : List Sending
  /-- The closures the engine may call, each as often as it likes. -/
  closures : List Closure
  life : ModId → Life
  /-- The boxes made so far: a box is named by its number, for good. -/
  boxed : Nat

def System.initial : System := ⟨.initial, [], [], fun _ => .unborn, 0⟩

/-- `weak_ptr::lock`: the object lives until its mod is erased. -/
def System.live (s : System) (m : ModId) : Bool := s.life m matches .loaded _

def System.enabled (s : System) (m : ModId) : Bool := s.life m == .loaded true

inductive Label where
  /-- `send` of `gui/mod.rs` boxes the closure and calls `form_send` with `form_trampoline`. -/
  | send (m : ModId) (form_trampoline : Ptr) (player spec : Bool) (kind : Int32)
  /-- `sendTo` comes back with an answer, or throws. -/
  | sendTo (x : Sending) (engine : Option Bool)
  /-- The engine calls a closure. -/
  | respond (c : Closure)
  | load (m : ModId)
  | setEnabled (m : ModId) (b : Bool)
  /-- `formsOnRustModGone`, called by an unload. -/
  | sweep (m : ModId)
  /-- `eraseMod`, which ends an unload. -/
  | erase (m : ModId)

/-- The ticket a send takes out, if it takes one, and what is stored under it. -/
def issue (s : System) : Label → Option (Nat × PendingForm)
  | .send m form_trampoline player spec _ =>
    (beginSend s.live player spec m ⟨form_trampoline, s.boxed⟩ s.reg).map fun r =>
      (r.1, ⟨m, ⟨form_trampoline, s.boxed⟩⟩)
  | _ => none

inductive Step : System → Label → System → Prop where
  | refused (s : System) (m : ModId) (fn : Ptr) (player spec : Bool) (kind : Int32)
      (h : beginSend s.live player spec m ⟨fn, s.boxed⟩ s.reg = none) :
      Step s (.send m fn player spec kind) { s with boxed := s.boxed + 1 }
  | send (s : System) (m : ModId) (fn : Ptr) (player spec : Bool) (kind : Int32) {ticket : Nat} {reg : Registry}
      (h : beginSend s.live player spec m ⟨fn, s.boxed⟩ s.reg = some (ticket, reg)) :
      Step s (.send m fn player spec kind)
        { s with
          reg := reg,
          sending := ⟨ticket, ⟨m, ⟨fn, s.boxed⟩⟩, kind⟩ :: s.sending,
          boxed := s.boxed + 1 }
  | sendTo (s : System) (x : Sending) (engine : Option Bool) (hx : x ∈ s.sending) :
      Step s (.sendTo x engine)
        { s with
          reg := (endSend x.kind engine x.ticket s.reg).2,
          sending := s.sending.erase x,
          closures := ⟨x.form.mod, x.ticket⟩ :: s.closures }
  | respond (s : System) (c : Closure) (hc : c ∈ s.closures) :
      Step s (.respond c) { s with reg := (completeTicket s.live s.enabled c.weakMod c.ticket s.reg).2 }
  | load (s : System) (m : ModId) (hl : s.life m = .unborn) :
      Step s (.load m) { s with life := Function.update s.life m (.loaded false) }
  | setEnabled (s : System) (m : ModId) (b : Bool) (hl : s.live m = true) :
      Step s (.setEnabled m b) { s with life := Function.update s.life m (.loaded b) }
  | sweep (s : System) (m : ModId) (hl : s.live m = true) :
      Step s (.sweep m) { s with reg := formsOnRustModGone m s.reg }
  | erase (s : System) (m : ModId) (hl : s.live m = true) :
      Step s (.erase m) { s with life := Function.update s.life m .gone }

/-! ## What a run is asked -/

/-- The ticket whose callback a step invokes, and the callback. -/
def invoked (s : System) : Label → Option (Nat × Callback)
  | .respond c =>
    (completeTicket s.live s.enabled c.weakMod c.ticket s.reg).1.map fun cb => (c.ticket, cb)
  | _ => none

/-- The box of a `form_send` that answers `false`, which `send` drops. -/
def unsent (s : System) : Label → Option Ptr
  | .send m form_trampoline player spec _ =>
    if (beginSend s.live player spec m ⟨form_trampoline, s.boxed⟩ s.reg).isNone then some s.boxed else none
  | .sendTo x engine => if (endSend x.kind engine x.ticket s.reg).1 then none else some x.form.cb.user
  | _ => none

/-- The box a step frees: `form_trampoline` takes it, or `send` drops it. -/
def freed (s : System) (l : Label) : Option Ptr := ((invoked s l).map fun r => r.2.user).or (unsent s l)

/-- The step answers the form under a ticket of a mod, fails to send it, or sweeps it. -/
def Settles (t : Nat) (m : ModId) (s : System) : Label → Prop
  | .respond c => c.ticket = t
  | .sendTo x engine => x.ticket = t ∧ (endSend x.kind engine x.ticket s.reg).1 = false
  | .sweep m' => m' = m
  | _ => False

/-- The run issued the ticket, for this form. -/
def Issued (tr : List (System × Label)) (t : Nat) (form : PendingForm) : Prop :=
  ∃ e ∈ tr, issue e.1 e.2 = some (t, form)

/-- Form tickets complete at most once. -/
structure CompletesOnce (tr : List (System × Label)) (s : System) : Prop where
  invoked_once : ∀ t, (tr.countP fun e => (invoked e.1 e.2).map Prod.fst == some t) ≤ 1
  freed_once : ∀ b, (tr.countP fun e => freed e.1 e.2 == some b) ≤ 1
  /-- What is invoked is the callback of the ticket's own form, whose mod is there and enabled. -/
  invoked_enabled : ∀ e ∈ tr, ∀ t cb, invoked e.1 e.2 = some (t, cb) →
    ∃ m, Issued tr t ⟨m, cb⟩ ∧ e.1.life m = .loaded true
  /-- Not one that a `form_send` was given that answers `false`. -/
  unsent_not_invoked : ∀ e ∈ tr, ∀ b, unsent e.1 e.2 = some b →
    ∀ e' ∈ tr, ∀ t cb, invoked e'.1 e'.2 = some (t, cb) → cb.user ≠ b
  pending_iff : ∀ t form, s.reg.gPendingForms.lookup t = some form ↔
    Since (fun e => issue e.1 e.2 = some (t, form)) (fun e => Settles t form.mod e.1 e.2) tr

/-! ## What a step does -/

section Step

variable {s u : System} {l : Label} {t : Nat} {form : PendingForm} {b : Ptr} {cb : Callback}

theorem beginSend_eq_some {live : ModId → Bool} {player spec : Bool} {m : ModId} {reg reg' : Registry} :
    beginSend live player spec m cb reg = some (t, reg') ↔
      player = true ∧ spec = true ∧ live m = true ∧ t = reg.gNextTicket ∧
        reg' = ⟨reg.gPendingForms.insert reg.gNextTicket ⟨m, cb⟩, reg.gNextTicket + 1⟩ := by
  unfold beginSend registerTicket
  split_ifs with h
  · simp only [Bool.and_eq_true] at h
    simp [h, eq_comm]
  · simp only [Bool.and_eq_true] at h
    simp only [false_iff]
    rintro ⟨hp, hs, hl, -, -⟩
    exact h ⟨⟨hp, hs⟩, hl⟩

theorem endSend_of_sent {kind : Int32} {engine : Option Bool} {reg : Registry}
    (h : (endSend kind engine t reg).1 = true) : (endSend kind engine t reg).2 = reg := by
  unfold endSend at h ⊢
  split_ifs at h ⊢
  rfl

theorem endSend_of_unsent {kind : Int32} {engine : Option Bool} {reg : Registry}
    (h : (endSend kind engine t reg).1 = false) :
    (endSend kind engine t reg).2 = { reg with gPendingForms := reg.gPendingForms.erase t } := by
  unfold endSend at h ⊢
  split_ifs at h ⊢
  rfl

/-- Whoever answers a ticket takes it, whether or not the callback runs. -/
theorem lookup_completeTicket_iff {live enabled : ModId → Bool} {weakMod : ModId} {ticket : Nat} {reg : Registry} :
    (completeTicket live enabled weakMod ticket reg).2.gPendingForms.lookup t = some form ↔
      reg.gPendingForms.lookup t = some form ∧ ticket ≠ t := by
  unfold completeTicket
  split
  · next hn =>
    constructor
    · intro h
      refine ⟨h, ?_⟩
      rintro rfl
      rw [hn] at h
      cases h
    · exact And.left
  · dsimp only
    rw [AList.lookup_erase_eq]
    by_cases ht : t = ticket
    · simp [ht]
    · simp [ht, Ne.symm ht]

/-- What runs is the pending callback of the mod that sent the form. -/
theorem completeTicket_eq_some {live enabled : ModId → Bool} {weakMod : ModId} {ticket : Nat} {reg : Registry}
    (h : (completeTicket live enabled weakMod ticket reg).1 = some cb) :
    enabled weakMod = true ∧ reg.gPendingForms.lookup ticket = some ⟨weakMod, cb⟩ := by
  unfold completeTicket at h
  split at h
  · cases h
  · next pending hp =>
    dsimp only at h
    split_ifs at h with hc
    cases h
    simp only [Bool.and_eq_true, beq_iff_eq] at hc
    obtain ⟨⟨-, rfl⟩, he⟩ := hc
    exact ⟨he, hp⟩

theorem issue_eq_some (h : issue s l = some (t, form)) : t = s.reg.gNextTicket ∧ form.cb.user = s.boxed := by
  cases l with
  | send m fn player spec kind =>
    simp only [issue, Option.map_eq_some_iff, Prod.mk.injEq] at h
    obtain ⟨⟨ticket, reg⟩, hb, rfl, rfl⟩ := h
    exact ⟨(beginSend_eq_some.mp hb).2.2.2.1, rfl⟩
  | sendTo => cases h
  | respond => cases h
  | load => cases h
  | setEnabled => cases h
  | sweep => cases h
  | erase => cases h

theorem invoked_eq_some (h : invoked s l = some (t, cb)) :
    ∃ c, l = .respond c ∧ c.ticket = t ∧ s.life c.weakMod = .loaded true ∧
      s.reg.gPendingForms.lookup t = some ⟨c.weakMod, cb⟩ := by
  cases l with
  | respond c =>
    simp only [invoked, Option.map_eq_some_iff, Prod.mk.injEq] at h
    obtain ⟨cb', hc, rfl, rfl⟩ := h
    obtain ⟨he, hl⟩ := completeTicket_eq_some hc
    exact ⟨c, rfl, rfl, by simpa [System.enabled] using he, hl⟩
  | send => cases h
  | sendTo => cases h
  | load => cases h
  | setEnabled => cases h
  | sweep => cases h
  | erase => cases h

/-- A box is dropped by the send that is refused, or by the one whose form does not go out. -/
theorem unsent_eq_some (h : unsent s l = some b) :
    b = s.boxed ∧ issue s l = none ∧ (∃ m fn player spec kind, l = .send m fn player spec kind) ∨
      ∃ x engine, l = .sendTo x engine ∧ x.form.cb.user = b ∧ (endSend x.kind engine x.ticket s.reg).1 = false := by
  cases l with
  | send m fn player spec kind =>
    simp only [unsent] at h
    split_ifs at h with hn
    cases h
    exact .inl ⟨rfl, by simpa [issue] using hn, m, fn, player, spec, kind, rfl⟩
  | sendTo x engine =>
    simp only [unsent] at h
    split_ifs at h with hn
    cases h
    exact .inr ⟨x, engine, rfl, rfl, by simpa using hn⟩
  | respond => cases h
  | load => cases h
  | setEnabled => cases h
  | sweep => cases h
  | erase => cases h

/-- The ways a box goes: with the refusal, with the failing `sendTo`, with the callback. -/
theorem freed_cases (h : freed s l = some b) :
    (b = s.boxed ∧ issue s l = none ∧ ∃ m fn player spec kind, l = .send m fn player spec kind) ∨
      (∃ x engine, l = .sendTo x engine ∧ x.form.cb.user = b ∧
        (endSend x.kind engine x.ticket s.reg).1 = false) ∨
      ∃ t cb, invoked s l = some (t, cb) ∧ cb.user = b := by
  unfold freed at h
  cases hi : invoked s l with
  | some r =>
    rw [hi] at h
    cases h
    exact .inr (.inr ⟨r.1, r.2, rfl, rfl⟩)
  | none =>
    rw [hi] at h
    rcases unsent_eq_some h with hr | hx
    · exact .inl hr
    · exact .inr (.inl hx)

theorem Step.counters (h : Step s l u) : s.reg.gNextTicket ≤ u.reg.gNextTicket ∧ s.boxed ≤ u.boxed := by
  cases h with
  | refused => exact ⟨Nat.le_refl _, Nat.le_succ _⟩
  | send m fn player spec kind h =>
    obtain ⟨-, -, -, -, rfl⟩ := beginSend_eq_some.mp h
    exact ⟨Nat.le_succ _, Nat.le_succ _⟩
  | sendTo x engine =>
    refine ⟨?_, Nat.le_refl _⟩
    dsimp only [endSend]
    split <;> exact Nat.le_refl _
  | respond c =>
    refine ⟨?_, Nat.le_refl _⟩
    dsimp only [completeTicket]
    split <;> exact Nat.le_refl _
  | load => exact ⟨Nat.le_refl _, Nat.le_refl _⟩
  | setEnabled => exact ⟨Nat.le_refl _, Nat.le_refl _⟩
  | sweep => exact ⟨Nat.le_refl _, Nat.le_refl _⟩
  | erase => exact ⟨Nat.le_refl _, Nat.le_refl _⟩

/-- A send uses up its number, whether or not it gets a ticket. -/
theorem Step.boxed_lt {m : ModId} {fn : Ptr} {player spec : Bool} {kind : Int32}
    (h : Step s (.send m fn player spec kind) u) : s.boxed < u.boxed := by
  cases h with
  | refused => exact Nat.lt_succ_self _
  | send => exact Nat.lt_succ_self _

theorem Step.issued_lt (h : Step s l u) (hi : issue s l = some (t, form)) :
    t < u.reg.gNextTicket ∧ form.cb.user < u.boxed := by
  obtain ⟨rfl, hb⟩ := issue_eq_some hi
  rw [hb]
  cases h with
  | refused m fn player spec kind h => simp [issue, h] at hi
  | send m fn player spec kind h =>
    obtain ⟨-, -, -, -, rfl⟩ := beginSend_eq_some.mp h
    exact ⟨Nat.lt_succ_self _, Nat.lt_succ_self _⟩
  | _ => cases hi

/-- What is pending after a step was issued by it, or was pending and is not settled by it. -/
theorem Step.lookup_iff (h : Step s l u)
    (hlt : ∀ t form, s.reg.gPendingForms.lookup t = some form → t < s.reg.gNextTicket) :
    u.reg.gPendingForms.lookup t = some form ↔
      issue s l = some (t, form) ∨ s.reg.gPendingForms.lookup t = some form ∧ ¬Settles t form.mod s l := by
  cases h with
  | refused m fn player spec kind h => simp [issue, h, Settles]
  | @send m fn player spec kind ticket reg h =>
    have hi : issue s (.send m fn player spec kind) = some (ticket, ⟨m, ⟨fn, s.boxed⟩⟩) := by simp [issue, h]
    obtain ⟨-, -, -, rfl, rfl⟩ := beginSend_eq_some.mp h
    rw [hi]
    simp only [Settles, not_false_iff, and_true, Option.some.injEq, Prod.mk.injEq]
    rw [AList.lookup_insert_eq]
    by_cases ht : t = s.reg.gNextTicket
    · have hn : s.reg.gPendingForms.lookup t ≠ some form := fun hf => Nat.ne_of_lt (hlt t form hf) ht
      simp [ht.symm, hn]
    · simp [ht, Ne.symm ht]
  | sendTo x engine =>
    simp only [issue, false_or, Settles, reduceCtorEq]
    cases hr : (endSend x.kind engine x.ticket s.reg).1 with
    | true => simp [endSend_of_sent hr]
    | false =>
      rw [endSend_of_unsent hr]
      dsimp only
      rw [AList.lookup_erase_eq]
      by_cases ht : t = x.ticket
      · simp [ht]
      · simp [ht, Ne.symm ht]
  | respond c =>
    simp only [issue, false_or, Settles, reduceCtorEq]
    exact lookup_completeTicket_iff
  | load => simp [issue, Settles]
  | setEnabled => simp [issue, Settles]
  | sweep m =>
    simp only [issue, false_or, Settles, reduceCtorEq, lookup_formsOnRustModGone]
    exact and_congr_right fun _ => ne_comm
  | erase => simp [issue, Settles]

end Step

/-! ## The invariant -/

/-- Tickets and boxes name one form each, what is pending was issued and not
settled since, and the form of a freed box is neither pending nor under way. -/
structure Sound (tr : List (System × Label)) (s : System) : Prop where
  issued_lt : ∀ t form, Issued tr t form → t < s.reg.gNextTicket ∧ form.cb.user < s.boxed
  issued_inj : ∀ t form t' form', Issued tr t form → Issued tr t' form' →
    t = t' ∨ form.cb.user = form'.cb.user → t = t' ∧ form = form'
  pending_iff : ∀ t form, s.reg.gPendingForms.lookup t = some form ↔
    Since (fun e => issue e.1 e.2 = some (t, form)) (fun e => Settles t form.mod e.1 e.2) tr
  sending : ∀ x ∈ s.sending, Issued tr x.ticket x.form
  sending_nodup : (s.sending.map Sending.ticket).Nodup
  /-- No closure is the engine's before its `sendTo` is back. -/
  closures : ∀ c ∈ s.closures, c.ticket < s.reg.gNextTicket ∧ c.ticket ∉ s.sending.map Sending.ticket
  freed_lt : ∀ e ∈ tr, ∀ b, freed e.1 e.2 = some b → b < s.boxed
  freed_spent : ∀ e ∈ tr, ∀ b, freed e.1 e.2 = some b → ∀ t form, Issued tr t form → form.cb.user = b →
    s.reg.gPendingForms.lookup t = none ∧ t ∉ s.sending.map Sending.ticket

section Invariant

variable {tr : List (System × Label)} {s u : System} {l : Label} {t : Nat} {form : PendingForm} {b : Ptr}

theorem issued_concat : Issued (tr ++ [(s, l)]) t form ↔ Issued tr t form ∨ issue s l = some (t, form) := by
  simp only [Issued, List.mem_append, List.mem_singleton, or_and_right, exists_or, exists_eq_left]

theorem Sound.issued (hs : Sound tr s) (h : s.reg.gPendingForms.lookup t = some form) : Issued tr t form := by
  obtain ⟨pre, e, suf, rfl, he, -⟩ := (hs.pending_iff t form).mp h
  exact ⟨e, by simp, he⟩

theorem Sound.lookup_lt (hs : Sound tr s) :
    ∀ t form, s.reg.gPendingForms.lookup t = some form → t < s.reg.gNextTicket :=
  fun t form h => (hs.issued_lt t form (hs.issued h)).1

theorem sound_initial : Sound [] System.initial where
  issued_lt t form h := by simp [Issued] at h
  issued_inj t form t' form' h := by simp [Issued] at h
  pending_iff t form := by simp [System.initial, Registry.initial, not_since_nil]
  sending x hx := (nomatch hx)
  sending_nodup := .nil
  closures c hc := (nomatch hc)
  freed_lt e he := (nomatch he)
  freed_spent e he := (nomatch he)

/-- A step frees no box that is free already. -/
theorem Sound.not_freed (hs : Sound tr s) (h : Step s l u) (hb : freed s l = some b) :
    ∀ e ∈ tr, freed e.1 e.2 ≠ some b := by
  intro e he hf
  rcases freed_cases hb with ⟨rfl, -, -⟩ | ⟨x, engine, rfl, rfl, -⟩ | ⟨t, cb, hi, rfl⟩
  · exact Nat.lt_irrefl _ (hs.freed_lt e he _ hf)
  · cases h with
    | sendTo _ _ hx =>
      refine (hs.freed_spent e he _ hf x.ticket x.form (hs.sending x hx) rfl).2 ?_
      exact List.mem_map_of_mem hx
  · obtain ⟨c, rfl, rfl, -, hl⟩ := invoked_eq_some hi
    have hn := (hs.freed_spent e he _ hf _ _ (hs.issued hl) rfl).1
    rw [hl] at hn
    cases hn

theorem Sound.issued_lt_step (hs : Sound tr s) (h : Step s l u) :
    ∀ t form, Issued (tr ++ [(s, l)]) t form → t < u.reg.gNextTicket ∧ form.cb.user < u.boxed := by
  intro t form hi
  rcases issued_concat.mp hi with hi | hi
  · obtain ⟨ht, hb⟩ := hs.issued_lt t form hi
    exact ⟨Nat.lt_of_lt_of_le ht h.counters.1, Nat.lt_of_lt_of_le hb h.counters.2⟩
  · exact h.issued_lt hi

theorem Sound.issued_inj_step (hs : Sound tr s) : ∀ t form t' form', Issued (tr ++ [(s, l)]) t form →
    Issued (tr ++ [(s, l)]) t' form' → t = t' ∨ form.cb.user = form'.cb.user → t = t' ∧ form = form' := by
  intro t form t' form' hi hi' heq
  rcases issued_concat.mp hi with hi | hi <;> rcases issued_concat.mp hi' with hi' | hi'
  · exact hs.issued_inj t form t' form' hi hi' heq
  · -- the new ticket and the new box are larger than every one before
    obtain ⟨rfl, hb⟩ := issue_eq_some hi'
    obtain ⟨ht, hf⟩ := hs.issued_lt t form hi
    rcases heq with rfl | heq
    · exact absurd ht (Nat.lt_irrefl _)
    · exact absurd (heq.trans hb) (Nat.ne_of_lt hf)
  · obtain ⟨rfl, hb⟩ := issue_eq_some hi
    obtain ⟨ht, hf⟩ := hs.issued_lt t' form' hi'
    rcases heq with rfl | heq
    · exact absurd ht (Nat.lt_irrefl _)
    · exact absurd (heq.symm.trans hb) (Nat.ne_of_lt hf)
  · rw [hi] at hi'
    cases hi'
    exact ⟨rfl, rfl⟩

theorem Sound.pending_iff_step (hs : Sound tr s) (h : Step s l u) :
    ∀ t form, u.reg.gPendingForms.lookup t = some form ↔
      Since (fun e => issue e.1 e.2 = some (t, form)) (fun e => Settles t form.mod e.1 e.2) (tr ++ [(s, l)]) := by
  intro t form
  rw [since_concat, h.lookup_iff hs.lookup_lt, hs.pending_iff]

theorem Sound.sending_step (hs : Sound tr s) (h : Step s l u) :
    ∀ x ∈ u.sending, Issued (tr ++ [(s, l)]) x.ticket x.form := by
  intro x hx
  rw [issued_concat]
  cases h with
  | send m fn player spec kind h =>
    rcases List.mem_cons.mp hx with rfl | hx
    · right
      simp [issue, h]
    · exact .inl (hs.sending x hx)
  | sendTo y engine => exact .inl (hs.sending x (List.mem_of_mem_erase hx))
  | _ => exact .inl (hs.sending x hx)

theorem Sound.sending_lt (hs : Sound tr s) (h : t ∈ s.sending.map Sending.ticket) : t < s.reg.gNextTicket := by
  obtain ⟨x, hx, rfl⟩ := List.mem_map.mp h
  exact (hs.issued_lt _ _ (hs.sending x hx)).1

/-- What comes back is under way no more. -/
theorem Sound.notMem_erase (hs : Sound tr s) {x : Sending} (hx : x ∈ s.sending) :
    x.ticket ∉ (s.sending.erase x).map Sending.ticket := by
  intro h
  obtain ⟨y, hy, ht⟩ := List.mem_map.mp h
  obtain ⟨hne, hy⟩ := (List.Nodup.of_map _ hs.sending_nodup).mem_erase_iff.mp hy
  exact hne (List.inj_on_of_nodup_map hs.sending_nodup hy hx ht)

theorem Sound.sending_nodup_step (hs : Sound tr s) (h : Step s l u) : (u.sending.map Sending.ticket).Nodup := by
  cases h with
  | send m fn player spec kind h =>
    obtain ⟨-, -, -, rfl, -⟩ := beginSend_eq_some.mp h
    exact List.nodup_cons.mpr ⟨fun hm => Nat.lt_irrefl _ (hs.sending_lt hm), hs.sending_nodup⟩
  | sendTo x engine => exact hs.sending_nodup.sublist (List.erase_sublist.map _)
  | _ => exact hs.sending_nodup

theorem Sound.closures_step (hs : Sound tr s) (h : Step s l u) :
    ∀ c ∈ u.closures, c.ticket < u.reg.gNextTicket ∧ c.ticket ∉ u.sending.map Sending.ticket := by
  intro c hc
  have hle := h.counters.1
  cases h with
  | send m fn player spec kind h =>
    obtain ⟨hlt, hn⟩ := hs.closures c hc
    obtain ⟨-, -, -, rfl, -⟩ := beginSend_eq_some.mp h
    refine ⟨Nat.lt_of_lt_of_le hlt hle, ?_⟩
    simp only [List.map_cons, List.mem_cons, not_or]
    exact ⟨Nat.ne_of_lt hlt, hn⟩
  | sendTo x engine hx =>
    rcases List.mem_cons.mp hc with rfl | hc
    · exact ⟨Nat.lt_of_lt_of_le (hs.sending_lt (List.mem_map_of_mem hx)) hle, hs.notMem_erase hx⟩
    · obtain ⟨hlt, hn⟩ := hs.closures c hc
      exact ⟨Nat.lt_of_lt_of_le hlt hle, fun hm => hn ((List.erase_sublist.map _).subset hm)⟩
  | respond c' =>
    obtain ⟨hlt, hn⟩ := hs.closures c hc
    exact ⟨Nat.lt_of_lt_of_le hlt hle, hn⟩
  | _ => exact hs.closures c hc

theorem Sound.freed_lt_step (hs : Sound tr s) (h : Step s l u) :
    ∀ e ∈ tr ++ [(s, l)], ∀ b, freed e.1 e.2 = some b → b < u.boxed := by
  intro e he b hb
  have hle := h.counters.2
  rcases List.mem_append.mp he with he | he
  · exact Nat.lt_of_lt_of_le (hs.freed_lt e he b hb) hle
  · obtain rfl := List.mem_singleton.mp he
    rcases freed_cases hb with ⟨rfl, -, m, fn, player, spec, kind, rfl⟩ | ⟨x, engine, rfl, rfl, -⟩ | ⟨t, cb, hi, rfl⟩
    · exact h.boxed_lt
    · cases h with
      | sendTo _ _ hx => exact (hs.issued_lt _ _ (hs.sending x hx)).2
    · obtain ⟨c, -, -, -, hl⟩ := invoked_eq_some hi
      exact Nat.lt_of_lt_of_le (hs.issued_lt _ _ (hs.issued hl)).2 hle

/-- A ticket that is neither pending nor under way stays so, unless it is issued now. -/
theorem Sound.spent_step (hs : Sound tr s) (h : Step s l u) (hi : ∀ form, issue s l ≠ some (t, form))
    (hp : s.reg.gPendingForms.lookup t = none) (hn : t ∉ s.sending.map Sending.ticket) :
    u.reg.gPendingForms.lookup t = none ∧ t ∉ u.sending.map Sending.ticket := by
  constructor
  · refine Option.eq_none_iff_forall_ne_some.mpr fun form hf => ?_
    rcases (h.lookup_iff hs.lookup_lt).mp hf with hf | ⟨hf, -⟩
    · exact hi form hf
    · rw [hp] at hf
      cases hf
  · cases h with
    | @send m fn player spec kind ticket reg h =>
      simp only [List.map_cons, List.mem_cons, not_or]
      refine ⟨?_, hn⟩
      rintro rfl
      exact hi ⟨m, ⟨fn, s.boxed⟩⟩ (by simp [issue, h])
    | sendTo x engine => exact fun hm => hn ((List.erase_sublist.map _).subset hm)
    | _ => exact hn

/-- The step that frees the box of a ticket takes the ticket. -/
theorem Sound.spent_of_freed (hs : Sound tr s) (h : Step s l u) (hb : freed s l = some b)
    (hi : Issued (tr ++ [(s, l)]) t form) (hf : form.cb.user = b) :
    u.reg.gPendingForms.lookup t = none ∧ t ∉ u.sending.map Sending.ticket := by
  rcases freed_cases hb with ⟨rfl, hno, -⟩ | ⟨x, engine, rfl, rfl, hr⟩ | ⟨t', cb, hinv, rfl⟩
  · -- a refused send issues nothing, and its box is younger than every form's
    rcases issued_concat.mp hi with hi | hi
    · exact absurd hf (Nat.ne_of_lt (hs.issued_lt t form hi).2)
    · rw [hno] at hi
      cases hi
  · cases h with
    | sendTo _ _ hx =>
      have hi : Issued tr t form := (issued_concat.mp hi).resolve_right (nofun)
      obtain ⟨rfl, rfl⟩ := hs.issued_inj _ _ _ _ hi (hs.sending x hx) (.inr hf)
      refine ⟨?_, hs.notMem_erase hx⟩
      dsimp only
      rw [endSend_of_unsent hr]
      simp
  · obtain ⟨c, rfl, rfl, -, hl⟩ := invoked_eq_some hinv
    have hi : Issued tr t form := (issued_concat.mp hi).resolve_right (nofun)
    obtain ⟨rfl, rfl⟩ := hs.issued_inj _ _ _ _ hi (hs.issued hl) (.inr hf)
    cases h with
    | respond _ hc =>
      refine ⟨Option.eq_none_iff_forall_ne_some.mpr fun form hf => ?_, (hs.closures c hc).2⟩
      exact (lookup_completeTicket_iff.mp hf).2 rfl

theorem Sound.freed_spent_step (hs : Sound tr s) (h : Step s l u) :
    ∀ e ∈ tr ++ [(s, l)], ∀ b, freed e.1 e.2 = some b → ∀ t form, Issued (tr ++ [(s, l)]) t form →
      form.cb.user = b → u.reg.gPendingForms.lookup t = none ∧ t ∉ u.sending.map Sending.ticket := by
  intro e he b hb t form hi hf
  rcases List.mem_append.mp he with he | he
  · -- an old box is not that of a ticket issued now
    have hold : Issued tr t form := by
      refine (issued_concat.mp hi).resolve_right fun hi => ?_
      exact Nat.ne_of_lt (hs.freed_lt e he b hb) (hf.symm.trans (issue_eq_some hi).2)
    obtain ⟨hp, hn⟩ := hs.freed_spent e he b hb t form hold hf
    refine hs.spent_step h (fun form' hi' => ?_) hp hn
    exact Nat.ne_of_lt (hs.issued_lt t form hold).1 (issue_eq_some hi').1
  · obtain rfl := List.mem_singleton.mp he
    exact hs.spent_of_freed h hb hi hf

theorem Sound.step (hs : Sound tr s) (h : Step s l u) : Sound (tr ++ [(s, l)]) u where
  issued_lt := hs.issued_lt_step h
  issued_inj := hs.issued_inj_step
  pending_iff := hs.pending_iff_step h
  sending := hs.sending_step h
  sending_nodup := hs.sending_nodup_step h
  closures := hs.closures_step h
  freed_lt := hs.freed_lt_step h
  freed_spent := hs.freed_spent_step h

end Invariant

/-! ## Every run -/

section Runs

variable {tr : List (System × Label)} {s : System}

/-- The account and what it has led to so far. -/
theorem sound_and_freed_once (h : Run Step System.initial tr s) :
    Sound tr s ∧ ∀ b, (tr.countP fun e => freed e.1 e.2 == some b) ≤ 1 := by
  refine h.traceInvariant (G := fun _ _ => True)
    (fun tr s => Sound tr s ∧ ∀ b, (tr.countP fun e => freed e.1 e.2 == some b) ≤ 1) (fun _ _ => trivial)
    ⟨sound_initial, fun b => Nat.zero_le _⟩ ?_
  rintro pre s l u ⟨hs, hc⟩ - hstep
  refine ⟨hs.step hstep, fun b => countP_concat_le_one (hc b) fun hb e he => ?_⟩
  simpa using hs.not_freed hstep (by simpa using hb) e he

/-- What is invoked at an entry of a run was issued before it, and its mod is enabled then. -/
theorem invoked_enabled (h : Run Step System.initial tr s) : ∀ e ∈ tr, ∀ t cb, invoked e.1 e.2 = some (t, cb) →
    ∃ m, Issued tr t ⟨m, cb⟩ ∧ e.1.life m = .loaded true := by
  intro e he t cb hi
  obtain ⟨pre, suf, rfl⟩ := List.append_of_mem he
  obtain ⟨u, hpre, -, -⟩ := h.split_cons
  obtain ⟨c, -, -, hlife, hl⟩ := invoked_eq_some hi
  obtain ⟨e', he', hissue⟩ := (sound_and_freed_once hpre).1.issued hl
  exact ⟨c.weakMod, ⟨e', List.mem_append_left _ he', hissue⟩, hlife⟩

theorem freed_of_invoked {l : Label} {t : Nat} {cb : Callback} (h : invoked s l = some (t, cb)) :
    freed s l = some cb.user := by
  simp [freed, h]

theorem freed_of_unsent {l : Label} {b : Ptr} (h : unsent s l = some b) : freed s l = some b := by
  rcases unsent_eq_some h with ⟨-, -, m, fn, player, spec, kind, rfl⟩ | ⟨x, engine, rfl, -, -⟩ <;> exact h

theorem invoked_once (h : Run Step System.initial tr s) (t : Nat) :
    (tr.countP fun e => (invoked e.1 e.2).map Prod.fst == some t) ≤ 1 := by
  by_cases hany : ∃ e ∈ tr, ∃ cb, invoked e.1 e.2 = some (t, cb)
  · obtain ⟨e, he, cb, hi⟩ := hany
    obtain ⟨m, hissued, -⟩ := invoked_enabled h e he t cb hi
    -- every invocation of the ticket frees the one box of its form
    refine le_trans (List.countP_mono_left fun e' he' hp => ?_) ((sound_and_freed_once h).2 cb.user)
    obtain ⟨⟨t', cb'⟩, hi', rfl⟩ := Option.map_eq_some_iff.mp (beq_iff_eq.mp hp)
    obtain ⟨m', hissued', -⟩ := invoked_enabled h e' he' t' cb' hi'
    obtain ⟨-, heq⟩ := (sound_and_freed_once h).1.issued_inj _ _ _ _ hissued hissued' (.inl rfl)
    cases heq
    exact beq_iff_eq.mpr (freed_of_invoked hi')
  · have : (tr.countP fun e => (invoked e.1 e.2).map Prod.fst == some t) = 0 := by
      refine List.countP_eq_zero.mpr fun e he hp => hany ⟨e, he, ?_⟩
      obtain ⟨⟨t', cb⟩, hi, rfl⟩ := Option.map_eq_some_iff.mp (beq_iff_eq.mp hp)
      exact ⟨cb, hi⟩
    omega

theorem unsent_not_invoked (h : Run Step System.initial tr s) : ∀ e ∈ tr, ∀ b, unsent e.1 e.2 = some b →
    ∀ e' ∈ tr, ∀ t cb, invoked e'.1 e'.2 = some (t, cb) → cb.user ≠ b := by
  rintro e he b hu e' he' t cb hi rfl
  have heq : e = e' := eq_of_countP_le_one ((sound_and_freed_once h).2 cb.user) he he'
    (beq_iff_eq.mpr (freed_of_unsent hu)) (beq_iff_eq.mpr (freed_of_invoked hi))
  obtain ⟨c, hl, -⟩ := invoked_eq_some hi
  rw [heq, hl] at hu
  cases hu

/-- The contract of the form tickets, over every run: forms sent inside one
another, forms that fail, answers given twice, mods disabled, swept and unloaded
at any moment. -/
theorem run_completesOnce (h : Run Step System.initial tr s) : CompletesOnce tr s where
  invoked_once := invoked_once h
  freed_once := (sound_and_freed_once h).2
  invoked_enabled := invoked_enabled h
  unsent_not_invoked := unsent_not_invoked h
  pending_iff := (sound_and_freed_once h).1.pending_iff

/-- An enabled mod sends a form, and its player answers twice. -/
theorem answered_twice_completesOnce :
    ∃ tr s, Run Step System.initial tr s ∧ (∃ e ∈ tr, invoked e.1 e.2 = some (1, ⟨5, 0⟩)) ∧ CompletesOnce tr s := by
  have hrun := Run.cons (Step.load System.initial 7 rfl) (.cons (.setEnabled _ 7 true rfl)
    (.cons (.send _ 7 5 true true 0 rfl)
      (.cons (.sendTo _ ⟨1, ⟨7, ⟨5, 0⟩⟩, 0⟩ (some true) (by decide))
        (.cons (.respond _ ⟨7, 1⟩ (by decide)) (.cons (.respond _ ⟨7, 1⟩ (by decide)) (.nil _))))))
  exact ⟨_, _, hrun, ⟨_, .tail _ (.tail _ (.tail _ (.tail _ (.head _)))), rfl⟩, run_completesOnce hrun⟩

end Runs

end Forms
