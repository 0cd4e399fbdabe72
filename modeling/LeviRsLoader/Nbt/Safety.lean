import LeviRsLoader.Nbt.Reading

/-!
# Termination and bounds

The loops are repeated turns, and every turn that goes on has moved the position on and kept it
within the text. Nothing here needs the text to be UTF-8.
-/
namespace Nbt

open Utf8 Nbt.Parser

variable {α β σ ρ : Type}

/-! ## Positions -/

/-- `q` is in the same text as `p`, not before it and not past the end. -/
structure Onward (p q : Parser) : Prop where
  bytes : q.bytes = p.bytes
  le : p.pos ≤ q.pos
  within : q.pos ≤ q.bytes.length

/-- `q` is in the same text as `p`, strictly after it and not past the end. -/
structure Further (p q : Parser) : Prop where
  bytes : q.bytes = p.bytes
  lt : p.pos < q.pos
  within : q.pos ≤ q.bytes.length

instance (p q : Parser) : Decidable (Further p q) :=
  decidable_of_iff (q.bytes = p.bytes ∧ p.pos < q.pos ∧ q.pos ≤ q.bytes.length)
    ⟨fun ⟨hb, hlt, hw⟩ => ⟨hb, hlt, hw⟩, fun ⟨hb, hlt, hw⟩ => ⟨hb, hlt, hw⟩⟩

section

variable {p q r : Parser}

theorem Onward.refl (h : p.pos ≤ p.bytes.length) : Onward p p := ⟨rfl, Nat.le_refl _, h⟩

theorem Further.onward (h : Further p q) : Onward p q := ⟨h.bytes, Nat.le_of_lt h.lt, h.within⟩

theorem Onward.trans (hq : Onward p q) (hr : Onward q r) : Onward p r :=
  ⟨hr.bytes.trans hq.bytes, Nat.le_trans hq.le hr.le, hr.within⟩

theorem Onward.further (hq : Onward p q) (hr : Further q r) : Further p r :=
  ⟨hr.bytes.trans hq.bytes, Nat.lt_of_le_of_lt hq.le hr.lt, hr.within⟩

theorem Further.trans_onward (hq : Further p q) (hr : Onward q r) : Further p r :=
  ⟨hr.bytes.trans hq.bytes, Nat.lt_of_lt_of_le hq.lt hr.le, hr.within⟩

theorem Further.trans (hq : Further p q) (hr : Further q r) : Further p r := hq.onward.further hr

theorem Further.left_lt (h : Further p q) : q.bytes.length - q.pos < p.bytes.length - p.pos := by
  have hlt := h.lt
  have hw := h.within
  rw [h.bytes] at hw ⊢
  omega

theorem Onward.left_le (h : Onward p q) : q.bytes.length - q.pos ≤ p.bytes.length - p.pos := by
  have hle := h.le
  rw [h.bytes]
  omega

theorem adv_further {n : Nat} (hn : 0 < n) (h : p.pos + n ≤ p.bytes.length) : Further p (p.adv n) :=
  ⟨rfl, by rw [adv_pos]; omega, by rw [adv_pos, adv_bytes]; exact h⟩

/-- A byte that can be looked at lies before the end. -/
theorem adv_of_peek {b : UInt8} (h : p.peek = some b) : Further p (p.adv 1) := by
  obtain ⟨hlt, -⟩ := List.getElem?_eq_some_iff.mp h
  exact adv_further Nat.one_pos hlt

theorem adv_takeWhile_onward (f : UInt8 → Bool) (h : p.pos ≤ p.bytes.length) :
    Onward p (p.adv (p.rest.takeWhile f).length) := by
  have hlen : (p.rest.takeWhile f).length ≤ p.rest.length := (List.takeWhile_sublist f).length_le
  have hrest : p.rest.length = p.bytes.length - p.pos := List.length_drop
  exact ⟨rfl, Nat.le_add_right _ _, by rw [adv_pos, adv_bytes]; omega⟩

theorem skip_ws_onward (h : p.pos ≤ p.bytes.length) : Onward p p.skip_ws := adv_takeWhile_onward isWs h

theorem bump_some {b : UInt8} (h : p.bump = (some b, q)) : Further p q := by
  obtain ⟨hp, rfl⟩ := bump_eq h
  exact adv_of_peek hp

theorem bump_none (h : p.bump = (none, q)) : q = p := by
  rw [bump] at h
  cases hp : p.peek with
  | none => rw [hp, Prod.mk.injEq] at h; exact h.2.symm
  | some c => rw [hp] at h; simp at h

theorem bump_onward (h : p.pos ≤ p.bytes.length) : Onward p p.bump.2 := by
  cases hb : p.bump with
  | mk b q =>
    cases b with
    | none => rw [bump_none hb]; exact Onward.refl h
    | some b => exact (bump_some hb).onward

end

/-! ## How a call ends -/

/-- A call ends with a result in `P` or in an error text: it does not panic, and no loop of it
runs out of turns. -/
def Settles (P : α → Prop) : Except Fail α → Prop
  | .ok a => P a
  | .error (.error _) => True
  | .error .panic => False
  | .error .fuel => False

/-- A call made at `p` ends further on in the text, or in an error text. -/
def Advances (p : Parser) (r : Except Fail (α × Parser)) : Prop := Settles (fun a => Further p a.2) r

theorem Settles.bind {P : α → Prop} {Q : β → Prop} {r : Except Fail α} {f : α → Except Fail β}
    (h : Settles P r) (hf : ∀ a, P a → Settles Q (f a)) : Settles Q (r >>= f) := by
  cases r with
  | ok a => exact hf a h
  | error e =>
    cases e with
    | error msg => trivial
    | panic => exact h
    | fuel => exact h

theorem Settles.bind_congr {P : α → Prop} {r : Except Fail α} {f g : α → Except Fail β} (h : Settles P r)
    (hf : ∀ a, P a → f a = g a) : (r >>= f) = (r >>= g) := by
  cases r with
  | ok a => exact hf a h
  | error e => rfl

theorem Settles.mono {P Q : α → Prop} {r : Except Fail α} (h : Settles P r) (hpq : ∀ a, P a → Q a) :
    Settles Q r := by
  cases r with
  | ok a => exact hpq a h
  | error e =>
    cases e with
    | error msg => trivial
    | panic => exact h
    | fuel => exact h

theorem Advances.onward {p q : Parser} {r : Except Fail (α × Parser)} (hq : Onward p q) (h : Advances q r) :
    Advances p r :=
  Settles.mono h fun _ ha => hq.further ha

theorem Advances.bind {p : Parser} {r : Except Fail (α × Parser)} {f : α × Parser → Except Fail (β × Parser)}
    (h : Advances p r) (hf : ∀ a q, Further p q → Advances p (f (a, q))) : Advances p (r >>= f) :=
  Settles.bind h fun a ha => hf a.1 a.2 ha

/-- What a call that has come to `q` gives back. -/
theorem Advances.ok {p q : Parser} (a : α) (h : Further p q) : Advances p (.ok (a, q)) := h

theorem expect_advances (p : Parser) (c : Char) : Settles (Further p) (p.expect c) := by
  rw [expect]
  split
  next h => exact adv_of_peek h
  next => trivial

/-! ## Turns of a loop -/

/-- One turn of a loop: it is over, or it goes on with a new state. -/
inductive Turn (σ ρ : Type) where
  | done (r : ρ)
  | next (s : σ)

/-- A loop that takes turns while there is fuel. -/
def turns (turn : σ → Parser → Except Fail (Turn σ ρ × Parser)) : Nat → σ → Parser → Except Fail (ρ × Parser)
  | 0, _, _ => .error .fuel
  | n + 1, s, p => do
    match ← turn s p with
    | (.done r, p) => .ok (r, p)
    | (.next s, p) => turns turn n s p

/-- A loop whose turns all move on ends before the text does. -/
theorem turns_advances {turn : σ → Parser → Except Fail (Turn σ ρ × Parser)} {p₀ : Parser}
    (h : ∀ s p, Onward p₀ p → Advances p (turn s p)) (n : Nat) (s : σ) (p : Parser) (hp : Onward p₀ p)
    (hn : p.bytes.length - p.pos < n) : Advances p (turns turn n s p) := by
  induction n generalizing s p with
  | zero => omega
  | succ n ih =>
    refine (h s p hp).bind fun t q hq => ?_
    cases t with
    | done r => exact Advances.ok r hq
    | next s =>
      have hleft := hq.left_lt
      exact (ih s q (hp.trans hq.onward) (by omega)).onward hq.onward

/-- Two loops whose turns agree wherever the first one comes agree. -/
theorem turns_congr {turn turn' : σ → Parser → Except Fail (Turn σ ρ × Parser)} {p₀ : Parser}
    (h : ∀ s p, Onward p₀ p → Advances p (turn s p)) (heq : ∀ s p, Onward p₀ p → turn s p = turn' s p) (n : Nat)
    (s : σ) (p : Parser) (hp : Onward p₀ p) : turns turn n s p = turns turn' n s p := by
  induction n generalizing s p with
  | zero => rfl
  | succ n ih =>
    rw [turns, turns, ← heq s p hp]
    refine Settles.bind_congr (h s p hp) fun a ha => ?_
    obtain ⟨t, q⟩ := a
    cases t with
    | done r => rfl
    | next s => exact ih s q (hp.trans ha.onward)

/-! ## Strings and tokens -/

def quotedTurn (quote : UInt8) (out : List Char) (p : Parser) : Except Fail (Turn (List Char) String × Parser) :=
  match p.bump with
  | (none, p) => .error (p.err "unterminated string")
  | (some b, p) =>
    if b = quote then .ok (.done (String.ofList out), p)
    else if b = byteOf '\\' then
      match p.bump with
      | (none, p) => .error (p.err "unterminated escape")
      | (some c, p) =>
        if c = byteOf 'n' then .ok (.next (out ++ ['\n']), p)
        else if c = byteOf 'r' then .ok (.next (out ++ ['\r']), p)
        else if c = byteOf 't' then .ok (.next (out ++ ['\t']), p)
        else if c = byteOf '"' ∨ c = byteOf '\'' ∨ c = byteOf '\\' then .ok (.next (out ++ [asChar c]), p)
        else .ok (.next (out ++ ['\\', asChar c]), p)
    else if b.toNat < 0x80 then .ok (.next (out ++ [asChar b]), p)
    else do
      let start := p.pos - 1
      let stop := min (start + utf8_len b) p.bytes.length
      let chunk ← p.slice start stop
      let t ← p.from_utf8 "invalid UTF-8 in string" chunk
      .ok (.next (out ++ t), { p with pos := stop })

theorem quotedLoop_turns (quote : UInt8) (n : Nat) (out : List Char) (p : Parser) :
    quotedLoop quote n out p = turns (quotedTurn quote) n out p := by
  induction n generalizing out p with
  | zero => rfl
  | succ n ih =>
    rw [quotedLoop, turns, quotedTurn]
    cases p.bump with
    | mk b q =>
      cases b with
      | none => rfl
      | some b =>
        dsimp only
        by_cases hq : b = quote
        · rw [if_pos hq, if_pos hq]
          rfl
        rw [if_neg hq, if_neg hq]
        by_cases hb : b = byteOf '\\'
        · rw [if_pos hb, if_pos hb]
          cases q.bump with
          | mk c q =>
            cases c with
            | none => rfl
            | some c =>
              dsimp only
              split
              next => exact ih _ _
              next =>
              split
              next => exact ih _ _
              next =>
              split
              next => exact ih _ _
              next =>
              split
              next => exact ih _ _
              next => exact ih _ _
        rw [if_neg hb, if_neg hb]
        by_cases ha : b.toNat < 0x80
        · rw [if_pos ha, if_pos ha]
          exact ih _ _
        rw [if_neg ha, if_neg ha, bind_assoc]
        refine bind_congr fun chunk => ?_
        rw [bind_assoc]
        exact bind_congr fun t => ih _ _

theorem utf8_len_pos (b : UInt8) : 0 < utf8_len b := by
  rw [utf8_len]
  split
  next => decide
  next =>
  split
  next => decide
  next =>
  split
  next => decide
  next => decide

theorem slice_settles {p : Parser} {a b : Nat} (hab : a ≤ b) (hb : b ≤ p.bytes.length) :
    Settles (fun _ => True) (p.slice a b) := by
  rw [slice, if_pos ⟨hab, hb⟩]
  trivial

theorem from_utf8_settles (p : Parser) (msg : String) (chunk : List UInt8) :
    Settles (fun _ => True) (p.from_utf8 msg chunk) := by
  rw [from_utf8]
  cases decode chunk with
  | some t => trivial
  | none => trivial

theorem quotedTurn_advances (quote : UInt8) (out : List Char) (p : Parser) : Advances p (quotedTurn quote out p) := by
  rw [quotedTurn]
  cases hb : p.bump with
  | mk b q =>
    cases b with
    | none => trivial
    | some b =>
      have hq := bump_some hb
      dsimp only
      split
      next => exact Advances.ok _ hq
      next =>
      split
      next =>
        cases hc : q.bump with
        | mk c r =>
          cases c with
          | none => trivial
          | some c =>
            have hr := hq.trans (bump_some hc)
            dsimp only
            split
            next => exact Advances.ok _ hr
            next =>
            split
            next => exact Advances.ok _ hr
            next =>
            split
            next => exact Advances.ok _ hr
            next =>
            split
            next => exact Advances.ok _ hr
            next => exact Advances.ok _ hr
      next =>
      split
      next => exact Advances.ok _ hq
      next =>
        -- The lead byte was within the text, so the clamped span starts at it and covers it.
        have hlt := hq.lt
        have hw := hq.within
        have hlen := utf8_len_pos b
        refine Settles.bind (slice_settles (by omega) (by omega)) fun chunk _ => ?_
        refine Settles.bind (from_utf8_settles _ _ _) fun t _ => ?_
        exact Advances.ok _ ⟨hq.bytes, by dsimp only; omega, by dsimp only; omega⟩

/-- `quoted_string` is called where a quote has been seen. -/
theorem quoted_string_advances {p : Parser} {b : UInt8} (h : p.peek = some b) : Advances p (quoted_string p) := by
  have hq := adv_of_peek h
  have hbump : p.bump = (some b, p.adv 1) := by rw [bump, h]
  have hturn : ∀ s r, Onward (p.adv 1) r → Advances r (quotedTurn b s r) := fun s r _ => quotedTurn_advances b s r
  rw [quoted_string, hbump]
  dsimp only
  rw [quotedLoop_turns]
  exact (turns_advances hturn _ _ _ (Onward.refl hq.within) (by omega)).onward hq.onward

theorem bare_token_advances {p : Parser} (h : p.pos ≤ p.bytes.length) : Advances p (bare_token p) := by
  have hq := adv_takeWhile_onward isBareByte h
  rw [bare_token]
  split
  next => trivial
  next hne =>
    refine Settles.bind (slice_settles hq.le hq.within) fun chunk _ => ?_
    refine Settles.bind (from_utf8_settles _ _ _) fun t _ => ?_
    exact Advances.ok t ⟨rfl, Nat.lt_of_le_of_ne hq.le (Ne.symm hne), hq.within⟩

theorem scalar_advances (F : Floats) {p : Parser} (h : p.pos ≤ p.bytes.length) : Advances p (scalar F p) :=
  (bare_token_advances h).bind fun t _ hq => Advances.ok (tokenValue F t) hq

theorem readKey_advances {p : Parser} (h : p.pos ≤ p.bytes.length) : Advances p (readKey p) := by
  rw [readKey]
  split
  next hq =>
    rcases hq with hq | hq
    · exact quoted_string_advances hq
    · exact quoted_string_advances hq
  next => exact (bare_token_advances h).bind fun t q hq => Advances.ok (String.ofList t) hq

/-! ## Containers -/

section

variable (F : Floats) (value value' : Parser → Except Fail (NbtValue × Parser))

def typedTurn (kind : UInt8) (acc : TypedAcc) (p : Parser) : Except Fail (Turn TypedAcc TypedAcc × Parser) := do
  let (v, p) ← scalar F p
  match v.as_i64 F with
  | none => .error (p.err "non-numeric element in typed array")
  | some i =>
    match acc.push kind i with
    | none => .error (p.err "unknown typed-array kind")
    | some acc =>
      match p.skip_ws.bump with
      | (some b, p) =>
        if b = byteOf ',' then .ok (.next acc, p.skip_ws)
        else if b = byteOf ']' then .ok (.done acc, p)
        else .error (p.err "expected ',' or ']' in typed array")
      | (none, p) => .error (p.err "expected ',' or ']' in typed array")

def listTurn (items : List NbtValue) (p : Parser) :
    Except Fail (Turn (List NbtValue) (List NbtValue) × Parser) := do
  let (v, p) ← value p
  let items := items ++ [v]
  match p.skip_ws.bump with
  | (some b, p) =>
    if b = byteOf ',' then .ok (.next items, p)
    else if b = byteOf ']' then .ok (.done items, p)
    else .error (p.err "expected ',' or ']' in list")
  | (none, p) => .error (p.err "expected ',' or ']' in list")

def compoundTurn (map : List (String × NbtValue)) (p : Parser) :
    Except Fail (Turn (List (String × NbtValue)) (List (String × NbtValue)) × Parser) := do
  let (key, p) ← readKey p.skip_ws
  let p ← p.skip_ws.expect ':'
  let (v, p) ← value p
  let map := insertEntry key v map
  match p.skip_ws.bump with
  | (some b, p) =>
    if b = byteOf ',' then .ok (.next map, p)
    else if b = byteOf '}' then .ok (.done map, p)
    else .error (p.err "expected ',' or '\x7d' in compound")
  | (none, p) => .error (p.err "expected ',' or '\x7d' in compound")

/-- The end of a loop's turn: on with a comma, or out with the bracket. -/
theorem turns_sep (close : Char) (p : Parser) (next done : Parser → Except Fail (α × Parser)) (msg : String)
    (k : α × Parser → Except Fail (β × Parser)) {more stop : Parser → Except Fail (β × Parser)}
    (hmore : ∀ q, more q = (next q >>= k)) (hstop : ∀ q, stop q = (done q >>= k)) :
    (match p.skip_ws.bump with
      | (some b, p) =>
        if b = byteOf ',' then more p else if b = byteOf close then stop p else .error (p.err msg)
      | (none, p) => .error (p.err msg)) =
      ((match p.skip_ws.bump with
        | (some b, p) =>
          if b = byteOf ',' then next p else if b = byteOf close then done p else .error (p.err msg)
        | (none, p) => .error (p.err msg)) >>= k) := by
  cases p.skip_ws.bump with
  | mk b q =>
    cases b with
    | none => rfl
    | some b =>
      dsimp only
      split
      next => exact hmore q
      next =>
      split
      next => exact hstop q
      next => rfl

theorem sep_advances {p q : Parser} (close : Char) (hq : Further p q) (msg : String)
    {more stop : Parser → Except Fail (α × Parser)} (hmore : ∀ r, Further p r → Advances p (more r))
    (hstop : ∀ r, Further p r → Advances p (stop r)) :
    Advances p (match q.skip_ws.bump with
      | (some b, p) =>
        if b = byteOf ',' then more p else if b = byteOf close then stop p else .error (p.err msg)
      | (none, p) => .error (p.err msg)) := by
  cases hb : q.skip_ws.bump with
  | mk b r =>
    cases b with
    | none => trivial
    | some b =>
      have hr := (hq.trans_onward (skip_ws_onward hq.within)).trans (bump_some hb)
      dsimp only
      split
      next => exact hmore r hr
      next =>
      split
      next => exact hstop r hr
      next => trivial

theorem typedLoop_turns (kind : UInt8) (n : Nat) (acc : TypedAcc) (p : Parser) :
    typedLoop F kind n acc p = turns (typedTurn F kind) n acc p := by
  induction n generalizing acc p with
  | zero => rfl
  | succ n ih =>
    rw [typedLoop, turns, typedTurn, bind_assoc]
    refine bind_congr fun ⟨v, p⟩ => ?_
    dsimp only
    cases v.as_i64 F with
    | none => rfl
    | some i =>
      dsimp only
      cases acc.push kind i with
      | none => rfl
      | some acc =>
        dsimp only
        refine turns_sep ']' p _ _ _ _ (fun q => ?_) fun q => ?_
        · exact ih _ _
        · rfl

theorem listLoop_turns (n : Nat) (items : List NbtValue) (p : Parser) :
    listLoop value n items p = turns (listTurn value) n items p := by
  induction n generalizing items p with
  | zero => rfl
  | succ n ih =>
    rw [listLoop, turns, listTurn, bind_assoc]
    refine bind_congr fun ⟨v, p⟩ => ?_
    dsimp only
    refine turns_sep ']' p _ _ _ _ (fun q => ?_) fun q => ?_
    · exact ih _ _
    · rfl

theorem compoundLoop_turns (n : Nat) (map : List (String × NbtValue)) (p : Parser) :
    compoundLoop value n map p = turns (compoundTurn value) n map p := by
  induction n generalizing map p with
  | zero => rfl
  | succ n ih =>
    rw [compoundLoop, turns, compoundTurn, bind_assoc]
    refine bind_congr fun ⟨key, p⟩ => ?_
    rw [bind_assoc]
    refine bind_congr fun p => ?_
    rw [bind_assoc]
    refine bind_congr fun ⟨v, p⟩ => ?_
    dsimp only
    refine turns_sep '}' p _ _ _ _ (fun q => ?_) fun q => ?_
    · exact ih _ _
    · rfl

variable {F value value'} {p : Parser}

theorem typedTurn_advances (kind : UInt8) (acc : TypedAcc) (hp : p.pos ≤ p.bytes.length) :
    Advances p (typedTurn F kind acc p) := by
  refine (scalar_advances F hp).bind fun v q hq => ?_
  dsimp only
  cases v.as_i64 F with
  | none => trivial
  | some i =>
    dsimp only
    cases acc.push kind i with
    | none => trivial
    | some acc =>
      exact sep_advances ']' hq _ (fun r hr => Advances.ok acc (hr.trans_onward (skip_ws_onward hr.within)))
        fun r hr => Advances.ok acc hr

theorem listTurn_advances (h : Advances p (value p)) (items : List NbtValue) : Advances p (listTurn value items p) := by
  refine h.bind fun v q hq => ?_
  exact sep_advances ']' hq _ (fun r hr => Advances.ok _ hr) fun r hr => Advances.ok _ hr

theorem compoundTurn_advances (hp : p.pos ≤ p.bytes.length) (h : ∀ q, Further p q → Advances q (value q))
    (map : List (String × NbtValue)) : Advances p (compoundTurn value map p) := by
  have hws := skip_ws_onward hp
  refine ((readKey_advances hws.within).onward hws).bind fun key q hq => ?_
  refine Settles.bind (expect_advances _ _) fun r hr => ?_
  have hr := (hq.trans_onward (skip_ws_onward hq.within)).trans hr
  refine ((h r hr).onward hr.onward).bind fun v q hq => ?_
  exact sep_advances '}' hq _ (fun r hr => Advances.ok _ hr) fun r hr => Advances.ok _ hr

theorem typed_array_advances (kind : UInt8) (hp : p.pos ≤ p.bytes.length) : Advances p (typed_array F kind p) := by
  have hws := skip_ws_onward hp
  have hturn : ∀ s r, Onward p.skip_ws r → Advances r (typedTurn F kind s r) := fun s r hr =>
    typedTurn_advances kind s hr.within
  rw [typed_array]
  split
  next hb => exact Advances.ok _ (hws.further (adv_of_peek hb))
  next =>
    rw [typedLoop_turns]
    exact ((turns_advances hturn _ _ _ (Onward.refl hws.within) (by omega)).onward hws).bind fun acc q hq =>
      Advances.ok _ hq

theorem list_advances (hp : p.pos ≤ p.bytes.length) (h : ∀ q, Onward p q → Advances q (value q)) :
    Advances p (list value p) := by
  have hws := skip_ws_onward hp
  have hturn : ∀ s r, Onward p.skip_ws r → Advances r (listTurn value s r) := fun s r hr =>
    listTurn_advances (h r (hws.trans hr)) s
  rw [list]
  split
  next hb => exact Advances.ok _ (hws.further (adv_of_peek hb))
  next =>
    rw [listLoop_turns]
    exact ((turns_advances hturn _ _ _ (Onward.refl hws.within) (by omega)).onward hws).bind fun items q hq =>
      Advances.ok _ hq

/-- The two bytes looked at are in the text, and `value` is called past the bracket. -/
theorem list_or_array_advances (h : ∀ q, Further p q → Advances q (value q)) :
    Advances p (list_or_array F value p) := by
  refine Settles.bind (expect_advances _ _) fun q hq => ?_
  have hlist : Advances p (list value q) :=
    (list_advances hq.within fun r hr => h r (hq.trans_onward hr)).onward hq.onward
  split
  next hlen =>
    have hsemi : q.index (q.pos + 1) = .ok (q.bytes[q.pos + 1]) := by
      rw [index, List.getElem?_eq_getElem (by omega)]
    have hkind : q.index q.pos = .ok (q.bytes[q.pos]) := by
      rw [index, List.getElem?_eq_getElem (by omega)]
    rw [hsemi, ok_bind]
    split
    next =>
      have hr : Further q (q.adv 2) := adv_further (by omega) hlen
      rw [hkind, ok_bind]
      exact (typed_array_advances _ hr.within).onward (hq.trans hr).onward
    next => exact hlist
  next => exact hlist

theorem compound_advances (h : ∀ q, Further p q → Advances q (value q)) : Advances p (compound value p) := by
  refine Settles.bind (expect_advances _ _) fun q hq => ?_
  have hws := hq.trans_onward (skip_ws_onward hq.within)
  have hturn : ∀ s r, Onward q.skip_ws r → Advances r (compoundTurn value s r) := fun s r hr =>
    compoundTurn_advances hr.within (fun r' hr' => h r' ((hws.trans_onward hr).trans hr')) s
  dsimp only
  split
  next hb => exact Advances.ok _ (hws.trans (adv_of_peek hb))
  next =>
    rw [compoundLoop_turns]
    exact ((turns_advances hturn _ _ _ (Onward.refl hws.within) (by omega)).onward hws.onward).bind fun map q hq =>
      Advances.ok _ hq

/-! ### Only the calls further on count -/

theorem listTurn_congr (heq : value p = value' p) (items : List NbtValue) :
    listTurn value items p = listTurn value' items p := by
  rw [listTurn, heq, listTurn]

theorem compoundTurn_congr (hp : p.pos ≤ p.bytes.length) (heq : ∀ q, Further p q → value q = value' q)
    (map : List (String × NbtValue)) : compoundTurn value map p = compoundTurn value' map p := by
  have hws := skip_ws_onward hp
  refine Settles.bind_congr ((readKey_advances hws.within).onward hws) fun a hq => ?_
  refine Settles.bind_congr (expect_advances _ _) fun r hr => ?_
  have hr := (hq.trans_onward (skip_ws_onward hq.within)).trans hr
  rw [heq r hr]

theorem list_congr (hp : p.pos ≤ p.bytes.length) (h : ∀ q, Onward p q → Advances q (value q))
    (heq : ∀ q, Onward p q → value q = value' q) : list value p = list value' p := by
  have hws := skip_ws_onward hp
  have hturn : ∀ s r, Onward p.skip_ws r → Advances r (listTurn value s r) := fun s r hr =>
    listTurn_advances (h r (hws.trans hr)) s
  have hturns := turns_congr hturn (fun s r hr => listTurn_congr (heq r (hws.trans hr)) s)
    (p.skip_ws.bytes.length + 1) [] p.skip_ws (Onward.refl hws.within)
  rw [list, list]
  simp only [listLoop_turns, hturns]

theorem list_or_array_congr (h : ∀ q, Further p q → Advances q (value q))
    (heq : ∀ q, Further p q → value q = value' q) : list_or_array F value p = list_or_array F value' p := by
  refine Settles.bind_congr (expect_advances _ _) fun q hq => ?_
  have hlist : list value q = list value' q :=
    list_congr hq.within (fun r hr => h r (hq.trans_onward hr)) fun r hr => heq r (hq.trans_onward hr)
  rw [hlist]

theorem compound_congr (h : ∀ q, Further p q → Advances q (value q)) (heq : ∀ q, Further p q → value q = value' q) :
    compound value p = compound value' p := by
  refine Settles.bind_congr (expect_advances _ _) fun q hq => ?_
  have hws := hq.trans_onward (skip_ws_onward hq.within)
  have hpast {r r' : Parser} (hr : Onward q.skip_ws r) (hr' : Further r r') : Further p r' :=
    (hws.trans_onward hr).trans hr'
  have hturn : ∀ s r, Onward q.skip_ws r → Advances r (compoundTurn value s r) := fun s r hr =>
    compoundTurn_advances hr.within (fun r' hr' => h r' (hpast hr hr')) s
  have hturns := turns_congr hturn
    (fun s r hr => compoundTurn_congr hr.within (fun r' hr' => heq r' (hpast hr hr')) s)
    (q.skip_ws.bytes.length + 1) [] q.skip_ws (Onward.refl hws.within)
  simp only [compoundLoop_turns, hturns]

end

/-! ## The recursion of `value` -/

/-- The body of `value`, with the function it calls for what is inside. -/
def valueBody (F : Floats) (inner : Parser → Except Fail (NbtValue × Parser)) (p : Parser) :
    Except Fail (NbtValue × Parser) :=
  let p := p.skip_ws
  match p.peek with
  | none => .error (p.err "unexpected end of input")
  | some b =>
    if b = byteOf '{' then compound inner p
    else if b = byteOf '[' then list_or_array F inner p
    else if b = byteOf '"' ∨ b = byteOf '\'' then do
      let (s, p) ← quoted_string p
      .ok (.string s, p)
    else scalar F p

/-- A call from `p` that panics unless it starts further on in the text. -/
def calledFrom (p : Parser) (f : Parser → Except Fail (NbtValue × Parser)) (q : Parser) :
    Except Fail (NbtValue × Parser) :=
  if Further p q then f q else .error .panic

/-- `value`, checking where each of its recursive calls starts. -/
def checkedValue (F : Floats) : Nat → Parser → Except Fail (NbtValue × Parser)
  | 0, _ => .error .fuel
  | n + 1, p => valueBody F (calledFrom p (checkedValue F n)) p

variable {F : Floats} {inner inner' : Parser → Except Fail (NbtValue × Parser)} {p : Parser}

theorem value_succ (n : Nat) : value F (n + 1) p = valueBody F (value F n) p := rfl

theorem valueBody_advances (hp : p.pos ≤ p.bytes.length) (h : ∀ q, Further p q → Advances q (inner q)) :
    Advances p (valueBody F inner p) := by
  have hws := skip_ws_onward hp
  have hin : ∀ q, Further p.skip_ws q → Advances q (inner q) := fun q hq => h q (hws.further hq)
  refine Advances.onward hws ?_
  rw [valueBody]
  cases hb : p.skip_ws.peek with
  | none => trivial
  | some b =>
    dsimp only
    split
    next => exact compound_advances hin
    next =>
    split
    next => exact list_or_array_advances hin
    next =>
    split
    next => exact (quoted_string_advances hb).bind fun s q hq => Advances.ok _ hq
    next => exact scalar_advances F hws.within

theorem valueBody_congr (hp : p.pos ≤ p.bytes.length) (h : ∀ q, Further p q → Advances q (inner q))
    (heq : ∀ q, Further p q → inner q = inner' q) : valueBody F inner p = valueBody F inner' p := by
  have hws := skip_ws_onward hp
  have hin : ∀ q, Further p.skip_ws q → Advances q (inner q) := fun q hq => h q (hws.further hq)
  have hin' : ∀ q, Further p.skip_ws q → inner q = inner' q := fun q hq => heq q (hws.further hq)
  rw [valueBody, valueBody, compound_congr hin hin', list_or_array_congr hin hin']

/-- With more fuel than there is text left, `value` ends further on or in an error text. -/
theorem value_advances (n : Nat) (p : Parser) (hp : p.pos ≤ p.bytes.length) (hn : p.bytes.length - p.pos < n) :
    Advances p (value F n p) := by
  induction n generalizing p with
  | zero => omega
  | succ n ih =>
    rw [value_succ]
    refine valueBody_advances hp fun q hq => ih q hq.within ?_
    have hleft := hq.left_lt
    omega

theorem checkedValue_eq (n : Nat) (p : Parser) (hp : p.pos ≤ p.bytes.length)
    (hn : p.bytes.length - p.pos < n) : checkedValue F n p = value F n p := by
  induction n generalizing p with
  | zero => omega
  | succ n ih =>
    have hin {q : Parser} (hq : Further p q) : q.bytes.length - q.pos < n := by
      have hleft := hq.left_lt
      omega
    rw [checkedValue, value_succ]
    symm
    refine valueBody_congr hp (fun q hq => value_advances n q hq.within (hin hq)) fun q hq => ?_
    rw [calledFrom, if_pos hq, ih q hq.within (hin hq)]

/-! ## The whole parser -/

/-- The bytes before a suffix letter are a text again. -/
theorem suffix_slice {token : List Char} (h : (token.getLast?.bind suffixOf).isSome) :
    0 < (encode token).length ∧ (encode token).take ((encode token).length - 1) = encode token.dropLast := by
  cases hlast : token.getLast? with
  | none => simp [hlast] at h
  | some c =>
    have hc : isAscii c = true := by
      rw [hlast, Option.bind_some, suffixOf] at h
      split at h
      next hm =>
        simp only [List.contains_iff_mem, List.mem_cons, List.not_mem_nil, or_false] at hm
        rcases hm with rfl | rfl | rfl | rfl | rfl | rfl | rfl | rfl | rfl | rfl <;> decide
      next => simp at h
    obtain ⟨body, rfl⟩ := List.getLast?_eq_some_iff.mp hlast
    have hencode : encode (body ++ [c]) = encode body ++ [byteOf c] := by
      rw [encode_append, encode_cons_ascii hc, encode_nil]
    rw [hencode, List.dropLast_concat]
    simp

/-- What the parser does from a position in the text, with `n` counting more than what is left.
The position only moves by one past a byte that is there, by a call, or to the end of a span. -/
structure SafeFrom (F : Floats) (n : Nat) (p : Parser) : Prop where
  adv : ∀ b, p.peek = some b → Further p (p.adv 1)
  skip_ws : Onward p p.skip_ws
  bump : Onward p p.bump.2
  expect : ∀ c, Settles (Further p) (p.expect c)
  quoted_string : ∀ b, p.peek = some b → Advances p (quoted_string p)
  quotedTurn : ∀ quote out, Advances p (quotedTurn quote out p)
  bare_token : Advances p (bare_token p)
  typed_array : ∀ kind, Advances p (typed_array F kind p)
  typedTurn : ∀ kind acc, Advances p (typedTurn F kind acc p)
  list_or_array : Advances p (list_or_array F (value F n) p)
  listTurn : ∀ items, Advances p (listTurn (value F n) items p)
  compound : Advances p (compound (value F n) p)
  compoundTurn : ∀ map, Advances p (compoundTurn (value F n) map p)
  value : Advances p (value F n p)
  quotedLoop : ∀ quote m out, quotedLoop quote m out p = turns (Nbt.quotedTurn quote) m out p
  typedLoop : ∀ kind m acc, typedLoop F kind m acc p = turns (Nbt.typedTurn F kind) m acc p
  listLoop : ∀ m items, listLoop (Nbt.value F n) m items p = turns (Nbt.listTurn (Nbt.value F n)) m items p
  compoundLoop : ∀ m map,
    compoundLoop (Nbt.value F n) m map p = turns (Nbt.compoundTurn (Nbt.value F n)) m map p
  calls : Nbt.value F n p = checkedValue F n p

theorem safeFrom {n : Nat} (hp : p.pos ≤ p.bytes.length) (hn : p.bytes.length - p.pos < n) : SafeFrom F n p :=
  have hin : ∀ q, Further p q → Advances q (value F n q) := fun q hq =>
    value_advances n q hq.within (Nat.lt_trans hq.left_lt hn)
  { adv := fun _ hb => adv_of_peek hb
    skip_ws := skip_ws_onward hp
    bump := bump_onward hp
    expect := expect_advances p
    quoted_string := fun _ hb => quoted_string_advances hb
    quotedTurn := fun quote out => quotedTurn_advances quote out p
    bare_token := bare_token_advances hp
    typed_array := fun kind => typed_array_advances kind hp
    typedTurn := fun kind acc => typedTurn_advances kind acc hp
    list_or_array := list_or_array_advances hin
    listTurn := listTurn_advances (value_advances n p hp hn)
    compound := compound_advances hin
    compoundTurn := compoundTurn_advances hp hin
    value := value_advances n p hp hn
    quotedLoop := fun quote m out => quotedLoop_turns quote m out p
    typedLoop := fun kind m acc => typedLoop_turns F kind m acc p
    listLoop := fun m items => listLoop_turns (value F n) m items p
    compoundLoop := fun m map => compoundLoop_turns (value F n) m map p
    calls := (checkedValue_eq n p hp hn).symm }

/-- `parse_all` ends in a value or in an error text. From any position in the text no call panics,
and every call, every turn of a loop and every recursive call of `value` moves on and stays in it. -/
theorem parse_all_safe (F : Floats) (text : String) :
    Settles (fun _ => True) (parse_all F text) ∧
    (∀ n pos, pos ≤ (encode text.toList).length → (encode text.toList).length - pos < n →
      SafeFrom F n ⟨encode text.toList, pos⟩) ∧
    ∀ token : List Char, (token.getLast?.bind suffixOf).isSome →
      0 < (encode token).length ∧ (encode token).take ((encode token).length - 1) = encode token.dropLast := by
  refine ⟨?_, fun n pos hp hn => safeFrom hp hn, fun token h => suffix_slice h⟩
  have hws := skip_ws_onward (p := ⟨encode text.toList, 0⟩) (Nat.zero_le _)
  have hleft := hws.left_le
  refine Settles.bind (value_advances _ _ hws.within (Nat.lt_succ_of_le hleft)) fun a _ => ?_
  dsimp only
  split
  next => trivial
  next => trivial

end Nbt
