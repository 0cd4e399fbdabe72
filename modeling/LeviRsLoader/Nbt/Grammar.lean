import LeviRsLoader.Nbt.Quoted
import LeviRsLoader.Nbt.Written

/-!
# The characters of a tree

The grammar of the text form over characters. A tree that is read from a text is spelled by it.
-/
namespace Nbt

open Utf8 Nbt.Parser

variable {α : Type}

/-! ## The grammar -/

def White (w : List Char) : Prop := ∀ c ∈ w, isWsChar c = true

/-- Items with commas between them, and the closing bracket after the last. -/
inductive Items (R : List Char → α → Prop) (close : Char) : List Char → List α → Prop where
  | last {s w : List Char} {a : α} (h : R s a) (hw : White w) : Items R close (s ++ (w ++ [close])) [a]
  | more {s w r : List Char} {a : α} {l : List α} (h : R s a) (hw : White w) (hl : Items R close r l) :
      Items R close (s ++ (w ++ ',' :: r)) (a :: l)

inductive Listed (R : List Char → α → Prop) (close : Char) : List Char → List α → Prop where
  | empty {w : List Char} (hw : White w) : Listed R close (w ++ [close]) []
  | items {s : List Char} {l : List α} (h : Items R close s l) : Listed R close s l

inductive SpellsToken : List Char → List Char → Prop where
  | mk {w t : List Char} (hw : White w) (hne : t ≠ []) (hb : ∀ c ∈ t, isBareChar c = true) : SpellsToken (w ++ t) t

inductive SpellsQuoted : List Char → String → Prop where
  | mk {q : Char} {body : List Char} (hq : q = '"' ∨ q = '\'') (h : Body q body) :
      SpellsQuoted (q :: (body ++ [q])) (String.ofList (unquote body))

inductive SpellsKey : List Char → String → Prop where
  | quoted {w s : List Char} {key : String} (hw : White w) (h : SpellsQuoted s key) : SpellsKey (w ++ s) key
  | bare {s t : List Char} (h : SpellsToken s t) : SpellsKey s (String.ofList t)

inductive SpellsEntry (R : List Char → Tree → Prop) : List Char → String × Tree → Prop where
  | mk {k w s : List Char} {key : String} {t : Tree} (hk : SpellsKey k key) (hw : White w) (h : R s t) :
      SpellsEntry R (k ++ (w ++ ':' :: s)) (key, t)

/-- The characters of a tree; white space may stand before them. -/
inductive Spells : List Char → Tree → Prop where
  | space {w s : List Char} {t : Tree} (hw : White w) (h : Spells s t) : Spells (w ++ s) t
  | token {s t : List Char} (h : SpellsToken s t) : Spells s (.token t)
  | quoted {s : List Char} {v : String} (h : SpellsQuoted s v) : Spells s (.quoted v)
  | list {s : List Char} {items : List Tree} (h : Listed Spells ']' s items) : Spells ('[' :: s) (.list items)
  | compound {s : List Char} {entries : List (String × Tree)} (h : Listed (SpellsEntry Spells) '}' s entries) :
      Spells ('{' :: s) (.compound entries)
  | array {c : Char} {s : List Char} {tokens : List (List Char)} (hc : isAscii c = true)
      (h : Listed SpellsToken ']' s tokens) : Spells ('[' :: c :: ';' :: s) (.array (byteOf c) tokens)

/-- A whole text. -/
def SpellsText (text : List Char) (t : Tree) : Prop := ∃ s w, text = s ++ w ∧ Spells s t ∧ White w

theorem White.append {w w' : List Char} (h : White w) (h' : White w') : White (w ++ w') := by
  intro c hc
  rcases List.mem_append.mp hc with hc | hc
  · exact h c hc
  · exact h' c hc

/-- White space before the first item. -/
theorem Items.space {R : List Char → α → Prop} {close : Char}
    (hR : ∀ {w s : List Char} {a : α}, White w → R s a → R (w ++ s) a) {w s : List Char} {l : List α}
    (hw : White w) (h : Items R close s l) : Items R close (w ++ s) l := by
  cases h with
  | last h hw' =>
    rw [← List.append_assoc]
    exact .last (hR hw h) hw'
  | more h hw' hl =>
    rw [← List.append_assoc]
    exact .more (hR hw h) hw' hl

theorem SpellsToken.space {w s t : List Char} (hw : White w) (h : SpellsToken s t) : SpellsToken (w ++ s) t := by
  cases h with
  | mk hw' hne hb =>
    rw [← List.append_assoc]
    exact .mk (hw.append hw') hne hb

theorem SpellsKey.space {w s : List Char} {key : String} (hw : White w) (h : SpellsKey s key) :
    SpellsKey (w ++ s) key := by
  cases h with
  | quoted hw' h =>
    rw [← List.append_assoc]
    exact .quoted (hw.append hw') h
  | bare h => exact .bare (h.space hw)

theorem SpellsEntry.space {R : List Char → Tree → Prop} {w s : List Char} {e : String × Tree} (hw : White w)
    (h : SpellsEntry R s e) : SpellsEntry R (w ++ s) e := by
  cases h with
  | mk hk hw' h =>
    rw [← List.append_assoc]
    exact .mk (hk.space hw) hw' h

/-! ## Reading follows the grammar -/

/-- What a reader reads in a text is spelled by the characters it passes. -/
def Follows (R : List Char → α → Prop) (item : Parser → Option (α × Parser)) : Prop :=
  ∀ p t a q, p.rest = encode t → item p = some (a, q) → ∃ s r, t = s ++ r ∧ q.rest = encode r ∧ R s a

section

variable {p q : Parser} {t : List Char}

theorem skip_ws_split (h : p.rest = encode t) : ∃ w r, t = w ++ r ∧ White w ∧ p.skip_ws.rest = encode r := by
  obtain ⟨n, -, hr⟩ := skip_ws_drop h
  exact ⟨t.takeWhile isWsChar, t.dropWhile isWsChar, List.takeWhile_append_dropWhile.symm,
    fun c hc => List.mem_takeWhile_imp hc, hr⟩

theorem peek_split {c : Char} (hc : isAscii c = true) (h : p.rest = encode t) (hp : p.peek = some (byteOf c)) :
    ∃ r, t = c :: r ∧ (p.adv 1).rest = encode r := by
  have hhead := (peek_eq_char hc h).mp hp
  cases t with
  | nil => cases hhead
  | cons d t =>
    cases hhead
    exact ⟨t, rfl, rest_adv_char hc h⟩

theorem sep_split {close : Char} (hclose : isAscii close = true) {more : Bool} (h : p.rest = encode t)
    (hs : sep close p = some (more, q)) :
    ∃ w r, t = w ++ (if more then ',' else close) :: r ∧ White w ∧ q.rest = encode r := by
  obtain ⟨w, r, rfl, hw, hr⟩ := skip_ws_split h
  rw [sep] at hs
  cases hb : p.skip_ws.bump with
  | mk b q' =>
    rw [hb] at hs
    cases b with
    | none => cases hs
    | some b =>
      obtain ⟨hpeek, rfl⟩ := bump_eq hb
      dsimp only at hs
      split at hs
      next hc =>
        cases hs
        obtain ⟨r, rfl, hrest⟩ := peek_split (by decide) hr (hc ▸ hpeek)
        exact ⟨w, r, rfl, hw, hrest⟩
      next =>
      split at hs
      next hc =>
        cases hs
        obtain ⟨r, rfl, hrest⟩ := peek_split hclose hr (hc ▸ hpeek)
        exact ⟨w, r, rfl, hw, hrest⟩
      next => cases hs

end

theorem sepLoop_follows {R : List Char → α → Prop} {close : Char} (hclose : isAscii close = true)
    {item : Parser → Option (α × Parser)} (h : Follows R item) (n : Nat) :
    Follows (Items R close) (sepLoop close item n) := by
  induction n with
  | zero =>
    intro p t l q _ hl
    cases hl
  | succ n ih =>
    intro p t l q ht hl
    rw [sepLoop] at hl
    obtain ⟨⟨a, p₁⟩, ha, hl⟩ := Option.bind_eq_some_iff.mp hl
    obtain ⟨⟨more, p₂⟩, hsep, hl⟩ := Option.bind_eq_some_iff.mp hl
    obtain ⟨s, r₁, rfl, hr₁, hR⟩ := h p t a p₁ ht ha
    obtain ⟨w, r, rfl, hw, hr⟩ := sep_split hclose hr₁ hsep
    cases more with
    | false =>
      cases hl
      exact ⟨s ++ (w ++ [close]), r, by simp, hr, .last hR hw⟩
    | true =>
      obtain ⟨⟨l, p₃⟩, hloop, heq⟩ := Option.map_eq_some_iff.mp hl
      cases heq
      obtain ⟨s', r, rfl, hr, hl⟩ := ih p₂ r l _ hr hloop
      exact ⟨s ++ (w ++ ',' :: s'), r, by simp, hr, .more hR hw hl⟩

theorem sepList_follows {R : List Char → α → Prop} {close : Char} (hclose : isAscii close = true)
    (hR : ∀ {w s : List Char} {a : α}, White w → R s a → R (w ++ s) a)
    {item : Parser → Option (α × Parser)} (h : Follows R item) : Follows (Listed R close) (sepList close item) := by
  intro p t l q ht hl
  obtain ⟨w, r, rfl, hw, hr⟩ := skip_ws_split ht
  rw [sepList] at hl
  split at hl
  next hpeek =>
    cases hl
    obtain ⟨r, rfl, hrest⟩ := peek_split hclose hr hpeek
    exact ⟨w ++ [close], r, by simp, hrest, .empty hw⟩
  next =>
    obtain ⟨s, r, rfl, hrest, hitems⟩ := sepLoop_follows hclose h _ _ _ _ _ hr hl
    exact ⟨w ++ s, r, by simp, hrest, .items (hitems.space hR hw)⟩

theorem bare_token_split {p q : Parser} {t tok : List Char} (h : p.rest = encode t) (hb : bare_token p = .ok (tok, q)) :
    ∃ r, t = tok ++ r ∧ q.rest = encode r ∧ tok ≠ [] ∧ ∀ c ∈ tok, isBareChar c = true := by
  rw [bare_token_text h] at hb
  split at hb
  next => cases hb
  next hne =>
    cases hb
    have hsplit : t.takeWhile isBareChar ++ t.dropWhile isBareChar = t := List.takeWhile_append_dropWhile
    refine ⟨t.dropWhile isBareChar, hsplit.symm, ?_, hne, fun c hc => List.mem_takeWhile_imp hc⟩
    exact rest_adv_text (by rw [hsplit, h])

theorem token_follows : Follows SpellsToken token := by
  intro p t tok q ht htok
  obtain ⟨w, r, rfl, hw, hr⟩ := skip_ws_split ht
  obtain ⟨r, rfl, hrest, hne, hb⟩ := bare_token_split hr (got_eq_some.mp htok)
  exact ⟨w ++ tok, r, by simp, hrest, .mk hw hne hb⟩

/-- A quoted string that is read ends at the first quote of its kind that stands by itself. -/
theorem quoted_split {p p' : Parser} {q : Char} {t : List Char} {s : String} (hq : q = '"' ∨ q = '\'')
    (h : p.rest = encode (q :: t)) (hs : quoted_string p = .ok (s, p')) :
    ∃ body r, t = body ++ q :: r ∧ Body q body ∧ s = String.ofList (unquote body) ∧ p'.rest = encode r := by
  have hascii : isAscii q = true := by rcases hq with rfl | rfl <;> decide
  have hqb : q ≠ '\\' := by rcases hq with rfl | rfl <;> decide
  have hrest := rest_adv_char hascii h
  have hle := rest_length_le (p.adv 1)
  rw [hrest, adv_bytes] at hle
  rw [quoted_string, bump_char hascii h] at hs
  change quotedLoop (byteOf q) (p.bytes.length + 1) [] (p.adv 1) = _ at hs
  by_cases hclosed : ∀ body r, t = body ++ q :: r → ¬Body q body
  · obtain ⟨msg, hmsg⟩ := quotedLoop_unclosed hascii hqb t (p.bytes.length + 1) [] _ hclosed hrest (by omega)
    rw [hmsg] at hs
    cases hs
  simp only [not_forall, not_not] at hclosed
  obtain ⟨body, r, rfl, hbody⟩ := hclosed
  have hlen : (encode body).length ≤ (encode (body ++ q :: r)).length := by
    rw [encode_append, List.length_append]
    omega
  by_cases hesc : EscapesAscii body
  · rw [quotedLoop_body hascii hqb hbody _ [] _ r hesc hrest (by omega), List.nil_append] at hs
    cases hs
    refine ⟨body, r, rfl, hbody, rfl, ?_⟩
    have hend := rest_adv_char hascii (rest_adv_text hrest)
    rw [adv_adv] at hend
    exact hend
  · obtain ⟨msg, hmsg⟩ := quotedLoop_body_wide hascii hqb hbody (p.bytes.length + 1) [] _ r hesc hrest (by omega)
    rw [hmsg] at hs
    cases hs

theorem quoted_follows {p p' : Parser} {t : List Char} {s : String} (h : p.rest = encode t)
    (hp : p.peek = some (byteOf '"') ∨ p.peek = some (byteOf '\'')) (hs : quoted_string p = .ok (s, p')) :
    ∃ u r, t = u ++ r ∧ p'.rest = encode r ∧ SpellsQuoted u s := by
  obtain ⟨q, hq, r, rfl⟩ : ∃ q, (q = '"' ∨ q = '\'') ∧ ∃ r, t = q :: r := by
    rcases hp with hp | hp
    · obtain ⟨r, hr, -⟩ := peek_split (by decide) h hp
      exact ⟨_, .inl rfl, r, hr⟩
    · obtain ⟨r, hr, -⟩ := peek_split (by decide) h hp
      exact ⟨_, .inr rfl, r, hr⟩
  obtain ⟨body, r, rfl, hbody, rfl, hrest⟩ := quoted_split hq h hs
  exact ⟨q :: (body ++ [q]), r, by simp, hrest, .mk hq hbody⟩

theorem readKey_follows {p p' : Parser} {t : List Char} {key : String} (h : p.rest = encode t)
    (hk : readKey p.skip_ws = .ok (key, p')) : ∃ u r, t = u ++ r ∧ p'.rest = encode r ∧ SpellsKey u key := by
  obtain ⟨w, r, rfl, hw, hr⟩ := skip_ws_split h
  rw [readKey] at hk
  split at hk
  next hq =>
    obtain ⟨u, r, rfl, hrest, hs⟩ := quoted_follows hr hq hk
    exact ⟨w ++ u, r, by simp, hrest, .quoted hw hs⟩
  next =>
    cases hb : bare_token p.skip_ws with
    | error e => rw [hb] at hk; cases hk
    | ok a =>
      obtain ⟨tok, q⟩ := a
      rw [hb] at hk
      cases hk
      obtain ⟨r, rfl, hrest, hne, hbare⟩ := bare_token_split hr hb
      exact ⟨w ++ tok, r, by simp, hrest, .bare (.mk hw hne hbare)⟩

theorem entry_follows {tree : Parser → Option (Tree × Parser)} (h : Follows Spells tree) :
    Follows (SpellsEntry Spells) (entry tree) := by
  intro p t e q ht he
  rw [entry] at he
  obtain ⟨⟨key, p₁⟩, hk, he⟩ := Option.bind_eq_some_iff.mp he
  obtain ⟨p₂, hcolon, he⟩ := Option.bind_eq_some_iff.mp he
  obtain ⟨⟨v, p₃⟩, hv, heq⟩ := Option.map_eq_some_iff.mp he
  cases heq
  obtain ⟨u, r₁, rfl, hr₁, hkey⟩ := readKey_follows ht (got_eq_some.mp hk)
  obtain ⟨w, r₂, rfl, hw, hr₂⟩ := skip_ws_split hr₁
  have hcolon := got_eq_some.mp hcolon
  rw [expect] at hcolon
  split at hcolon
  next hpeek =>
    cases hcolon
    obtain ⟨r₃, rfl, hr₃⟩ := peek_split (by decide) hr₂ hpeek
    obtain ⟨s, r, rfl, hr, hs⟩ := h _ _ _ _ hr₃ hv
    exact ⟨u ++ (w ++ ':' :: s), r, by simp, hr, .mk hkey hw hs⟩
  next => cases hcolon

/-- The lookahead of a bracket: a letter and a semicolon. -/
theorem arrayKind_split {p : Parser} {t : List Char} {kind : UInt8} (h : p.rest = encode t)
    (hk : arrayKind p = some kind) :
    ∃ c r, t = c :: ';' :: r ∧ isAscii c = true ∧ kind = byteOf c ∧ (p.adv 2).rest = encode r := by
  rw [arrayKind] at hk
  split at hk
  next hsemi =>
    rw [← getElem?_rest, h] at hsemi
    cases t with
    | nil => cases hsemi
    | cons c t =>
      obtain ⟨hc, hhead⟩ := (getElem?_one_encode (by decide) c t).mp hsemi
      cases t with
      | nil => cases hhead
      | cons d t =>
        cases hhead
        rw [peek_char hc h] at hk
        cases hk
        have hrest := rest_adv_char (by decide) (rest_adv_char hc h)
        rw [adv_adv] at hrest
        exact ⟨c, t, rfl, hc, rfl, hrest⟩
  next => cases hk

theorem tree_follows (n : Nat) : Follows Spells (tree n) := by
  induction n with
  | zero =>
    intro p t a q _ ha
    cases ha
  | succ n ih =>
    intro p t a q ht ha
    obtain ⟨w, r, rfl, hw, hr⟩ := skip_ws_split ht
    -- It is enough to spell the tree from its first character on.
    suffices hspell : ∃ s u, r = s ++ u ∧ q.rest = encode u ∧ Spells s a by
      obtain ⟨s, u, rfl, hu, hs⟩ := hspell
      exact ⟨w ++ s, u, by simp, hu, .space hw hs⟩
    rw [tree] at ha
    dsimp only at ha
    obtain ⟨b, hb, ha⟩ := Option.bind_eq_some_iff.mp ha
    split at ha
    next hbrace =>
      obtain ⟨r, rfl, hrest⟩ := peek_split (by decide) hr (hbrace ▸ hb)
      obtain ⟨⟨entries, p₁⟩, hl, heq⟩ := Option.map_eq_some_iff.mp ha
      cases heq
      obtain ⟨s, u, rfl, hu, hs⟩ := sepList_follows (by decide) SpellsEntry.space (entry_follows ih) _ _ _ _ hrest hl
      exact ⟨'{' :: s, u, rfl, hu, .compound hs⟩
    next =>
    split at ha
    next hbracket =>
      obtain ⟨r, rfl, hrest⟩ := peek_split (by decide) hr (hbracket ▸ hb)
      split at ha
      next kind hkind =>
        obtain ⟨c, r, rfl, hc, rfl, hrest⟩ := arrayKind_split hrest hkind
        rw [adv_adv] at hrest
        obtain ⟨⟨tokens, p₁⟩, hl, heq⟩ := Option.map_eq_some_iff.mp ha
        cases heq
        obtain ⟨s, u, rfl, hu, hs⟩ := sepList_follows (by decide) SpellsToken.space token_follows _ _ _ _ hrest hl
        exact ⟨'[' :: c :: ';' :: s, u, rfl, hu, .array hc hs⟩
      next =>
        obtain ⟨⟨items, p₁⟩, hl, heq⟩ := Option.map_eq_some_iff.mp ha
        cases heq
        obtain ⟨s, u, rfl, hu, hs⟩ := sepList_follows (by decide) Spells.space ih _ _ _ _ hrest hl
        exact ⟨'[' :: s, u, rfl, hu, .list hs⟩
    next =>
    split at ha
    next hquote =>
      obtain ⟨⟨v, p₁⟩, hv, heq⟩ := Option.map_eq_some_iff.mp ha
      cases heq
      have hpeek : p.skip_ws.peek = some (byteOf '"') ∨ p.skip_ws.peek = some (byteOf '\'') := by
        rcases hquote with rfl | rfl
        · exact .inl hb
        · exact .inr hb
      obtain ⟨s, u, rfl, hu, hs⟩ := quoted_follows hr hpeek (got_eq_some.mp hv)
      exact ⟨s, u, rfl, hu, .quoted hs⟩
    next =>
      obtain ⟨⟨tok, p₁⟩, hv, heq⟩ := Option.map_eq_some_iff.mp ha
      cases heq
      obtain ⟨u, rfl, hu, hne, hbare⟩ := bare_token_split hr (got_eq_some.mp hv)
      exact ⟨tok, u, rfl, hu, .token (.mk (w := []) (by simp [White]) hne hbare)⟩

/-- The tree of a text is spelled by its characters. -/
theorem treeOf_spells {text : String} {t : Tree} (h : treeOf text = some t) : SpellsText text.toList t := by
  rw [treeOf] at h
  obtain ⟨⟨a, p⟩, ha, h⟩ := Option.bind_eq_some_iff.mp h
  dsimp only at h
  split at h
  next hend =>
    cases h
    have hstart : (Parser.mk (encode text.toList) 0).rest = encode text.toList := rfl
    obtain ⟨w, r, hr, hw, hrest⟩ := skip_ws_split hstart
    obtain ⟨s, u, rfl, hu, hs⟩ := tree_follows _ _ _ _ _ hrest ha
    obtain ⟨w', v, rfl, hw', hv⟩ := skip_ws_split hu
    -- At the end of the bytes nothing is left.
    have hnil : p.skip_ws.rest = [] := by
      rw [rest, hend]
      exact List.drop_length
    have hv : v = [] := by
      cases v with
      | nil => rfl
      | cons c v =>
        rw [hnil, encode_cons] at hv
        simp at hv
    rw [hv, List.append_nil] at hr
    exact ⟨w ++ s, w', by rw [hr, List.append_assoc], .space hw hs, hw'⟩
  next => cases h

end Nbt
