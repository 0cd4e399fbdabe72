import Mathlib.Data.Finset.Card
import Mathlib.Data.Finset.Range
import Mathlib.Data.Int.Basic

/-!
# Storage keys of one chunk

`chunkKeyPrefix`, the enumeration `api_level_chunk_keys` built on it, and the
erasure `delete_chunk_keys` that removes what the enumeration lists. The key
layout is the one the comment on `chunkKeyPrefix` states: the overworld leaves
the dimension field out, so its prefix is also a prefix of other keys.
-/
namespace ChunkKeys

abbrev Bytes := List UInt8

/-- The lambda `put_le`: four bytes, least significant first. -/
def putLe (v : Int32) : Bytes :=
  let u := v.toUInt32
  [(u &&& 0xFF).toUInt8, ((u >>> 8) &&& 0xFF).toUInt8, ((u >>> 16) &&& 0xFF).toUInt8,
    ((u >>> 24) &&& 0xFF).toUInt8]

def chunkKeyPrefix (dim chunkX chunkZ : Int32) : Bytes :=
  putLe chunkX ++ putLe chunkZ ++ if dim ≠ 0 then putLe dim else []

/-- One stored chunk record: where it lives, its tag byte and its sub-chunk byte if it has one. -/
structure ChunkKey where
  dim : Int32
  x : Int32
  z : Int32
  tag : UInt8
  sub : Option UInt8
  deriving DecidableEq, Inhabited, Repr

/-- The bytes after the coordinates: the tag, then possibly the sub-chunk index. -/
def ChunkKey.tail (k : ChunkKey) : Bytes := k.tag :: k.sub.toList

/-- The key layout: x, z, the dimension unless it is 0, then the tail. -/
def ChunkKey.bytes (k : ChunkKey) : Bytes :=
  putLe k.x ++ putLe k.z ++ (if k.dim = 0 then [] else putLe k.dim) ++ k.tail

/-- The stored chunk keys, in the order the engine walks them. -/
structure LevelStorage where
  keys : List Bytes
  nodup : keys.Nodup
  layout : ∀ k ∈ keys, ∃ c : ChunkKey, c.bytes = k

/-- The engine lists exactly the stored keys that start with `pre`. -/
def LevelStorage.forEachKeyWithPrefix (s : LevelStorage) (pre : Bytes) : List Bytes :=
  s.keys.filter (pre.isPrefixOf ·)

def LevelStorage.deleteData (s : LevelStorage) (key : Bytes) : LevelStorage where
  keys := s.keys.filter (· != key)
  nodup := s.nodup.sublist List.filter_sublist
  layout := fun k hk => s.layout k (List.mem_of_mem_filter hk)

/-- The returned count and the keys handed to the sink; -1 when there is no storage. -/
def api_level_chunk_keys (level : Option LevelStorage) (dim chunkX chunkZ : Int32) : Int32 × List Bytes :=
  match level with
  | none => (-1, [])
  | some s =>
    let listed := s.forEachKeyWithPrefix (chunkKeyPrefix dim chunkX chunkZ)
    (Int32.ofNat listed.length, listed)

def api_level_delete_key (level : Option LevelStorage) (key : Bytes) : Bool × Option LevelStorage :=
  match level with
  | none => (false, none)
  | some s => if key = [] then (false, some s) else (true, some (s.deleteData key))

/-- The loop of `delete_chunk_keys` over the collected keys. -/
def deleteAll : List Bytes → Option LevelStorage → UInt32 → UInt32 × Option LevelStorage
  | [], level, done => (done, level)
  | k :: keys, level, done =>
    let r := api_level_delete_key level k
    deleteAll keys r.2 (if r.1 then done + 1 else done)

def delete_chunk_keys (level : Option LevelStorage) (dim chunkX chunkZ : Int32) :
    Except String UInt32 × Option LevelStorage :=
  let r := api_level_chunk_keys level dim chunkX chunkZ
  if r.1 < 0 then (.error "delete_chunk_keys: level storage not available", level)
  else
    let d := deleteAll r.2 level 0
    (.ok d.1, d.2)

/-- The keys a storage holds; none without a storage. -/
def storedKeys (level : Option LevelStorage) : List Bytes := (level.map LevelStorage.keys).getD []

/-- `k` is a key of the chunk (x, z) of the dimension. -/
def OfChunk (dim x z : Int32) (k : Bytes) : Prop :=
  ∃ c : ChunkKey, c.bytes = k ∧ c.dim = dim ∧ c.x = x ∧ c.z = z

/-- What is listed, and what is removed, is exactly what is stored for the chunk. -/
def TouchesOnlyItsChunk (s : LevelStorage) (dim x z : Int32) : Prop :=
  (∀ k, k ∈ (api_level_chunk_keys (some s) dim x z).2 ↔ k ∈ s.keys ∧ OfChunk dim x z k) ∧
  (∀ k, (k ∈ s.keys ∧ k ∉ storedKeys (delete_chunk_keys (some s) dim x z).2) ↔
    k ∈ s.keys ∧ OfChunk dim x z k)

/-! ## The layout -/

@[simp] theorem length_putLe (v : Int32) : (putLe v).length = 4 := rfl

/-- The four bytes are the digits of the 32-bit pattern in base 256. -/
theorem putLe_toNat (v : Int32) :
    (putLe v).map UInt8.toNat =
      [v.toUInt32.toNat % 256, v.toUInt32.toNat / 256 % 256, v.toUInt32.toNat / 65536 % 256,
        v.toUInt32.toNat / 16777216 % 256] := by
  have hand (u : UInt32) : (u &&& 255).toNat = u.toNat % 256 := by
    rw [UInt32.toNat_and]
    exact Nat.and_two_pow_sub_one_eq_mod u.toNat 8
  have hbyte (u : UInt32) : (u &&& 255).toUInt8.toNat = u.toNat % 256 := by
    rw [UInt32.toNat_toUInt8, hand]
    omega
  simp only [putLe, List.map_cons, List.map_nil, hbyte, UInt32.toNat_shiftRight,
    Nat.shiftRight_eq_div_pow]
  rfl

theorem putLe_injective {v w : Int32} (h : putLe v = putLe w) : v = w := by
  have hn := congrArg (List.map UInt8.toNat) h
  simp only [putLe_toNat, List.cons.injEq, and_true] at hn
  obtain ⟨h₀, h₁, h₂, h₃⟩ := hn
  have hv := v.toUInt32.toNat_lt
  have hw := w.toUInt32.toNat_lt
  have hu : v.toUInt32 = w.toUInt32 := by
    apply UInt32.toNat_inj.mp
    omega
  cases v
  cases w
  exact congrArg Int32.ofUInt32 hu

theorem length_chunkKeyPrefix (dim x z : Int32) :
    (chunkKeyPrefix dim x z).length = if dim = 0 then 8 else 12 := by
  by_cases h : dim = 0 <;> simp [chunkKeyPrefix, h]

theorem length_tail (k : ChunkKey) : 1 ≤ k.tail.length ∧ k.tail.length ≤ 2 := by
  cases hs : k.sub <;> simp [ChunkKey.tail, hs]

/-- A key is its own chunk's prefix followed by its tail. -/
theorem bytes_eq (k : ChunkKey) : k.bytes = chunkKeyPrefix k.dim k.x k.z ++ k.tail := by
  by_cases h : k.dim = 0 <;> simp [ChunkKey.bytes, chunkKeyPrefix, h]

theorem putLe_append_inj {v w : Int32} {a b : Bytes} (h : putLe v ++ a = putLe w ++ b) : v = w ∧ a = b := by
  obtain ⟨h₁, h₂⟩ := List.append_inj h (by simp)
  exact ⟨putLe_injective h₁, h₂⟩

/-- Which keys a prefix selects: those of the chunk, and for the overworld also
those of every other dimension at the same coordinates. -/
theorem prefix_bytes_iff (dim x z : Int32) (k : ChunkKey) :
    chunkKeyPrefix dim x z <+: k.bytes ↔ k.x = x ∧ k.z = z ∧ (dim = 0 ∨ k.dim = dim) := by
  constructor
  · rintro ⟨r, hr⟩
    have hlen := congrArg List.length hr
    simp only [List.length_append, length_chunkKeyPrefix, bytes_eq] at hlen
    have ht := length_tail k
    rw [bytes_eq] at hr
    simp only [chunkKeyPrefix, List.append_assoc] at hr
    obtain ⟨hx, hr⟩ := putLe_append_inj hr
    obtain ⟨hz, hr⟩ := putLe_append_inj hr
    refine ⟨hx.symm, hz.symm, ?_⟩
    by_cases hd : dim = 0
    · exact .inl hd
    · right
      -- a 12-byte prefix is longer than any overworld key
      have hk : k.dim ≠ 0 := by
        intro hk
        simp only [hd, hk, if_false, if_true] at hlen
        omega
      simp only [ne_eq, hd, hk, not_false_eq_true, if_true] at hr
      exact (putLe_append_inj hr).1.symm
  · rintro ⟨rfl, rfl, hd⟩
    rw [bytes_eq]
    rcases hd with rfl | rfl
    · by_cases hk : k.dim = 0
      · exact ⟨k.tail, by simp [chunkKeyPrefix, hk]⟩
      · exact ⟨putLe k.dim ++ k.tail, by simp [chunkKeyPrefix, hk]⟩
    · exact ⟨k.tail, rfl⟩

/-- Two records with the same bytes are the same record. -/
theorem bytes_injective {k k' : ChunkKey} (h : k.bytes = k'.bytes) : k = k' := by
  have hlen := congrArg List.length h
  simp only [bytes_eq, List.length_append, length_chunkKeyPrefix] at hlen
  have ht := length_tail k
  have ht' := length_tail k'
  rw [bytes_eq, bytes_eq] at h
  simp only [chunkKeyPrefix, List.append_assoc] at h
  obtain ⟨hx, h⟩ := putLe_append_inj h
  obtain ⟨hz, h⟩ := putLe_append_inj h
  have hd : k.dim = k'.dim ∧ k.tail = k'.tail := by
    by_cases hk : k.dim = 0 <;> by_cases hk' : k'.dim = 0
    · simp only [hk, hk', ne_eq, not_true_eq_false, if_false, List.nil_append] at h
      exact ⟨hk.trans hk'.symm, h⟩
    · simp only [hk, hk', if_true, if_false] at hlen; omega
    · simp only [hk, hk', if_true, if_false] at hlen; omega
    · simp only [ne_eq, hk, hk', not_false_eq_true, if_true] at h
      exact putLe_append_inj h
  obtain ⟨hd, ht⟩ := hd
  cases k with
  | mk dim x z tag sub =>
    cases k' with
    | mk dim' x' z' tag' sub' =>
      simp only [ChunkKey.tail, List.cons.injEq] at ht hx hz hd
      cases sub <;> cases sub' <;> simp_all

/-! ## Enumeration and erasure -/

theorem mem_listed_iff (s : LevelStorage) (dim x z : Int32) (k : Bytes) :
    k ∈ (api_level_chunk_keys (some s) dim x z).2 ↔ k ∈ s.keys ∧ chunkKeyPrefix dim x z <+: k := by
  simp [api_level_chunk_keys, LevelStorage.forEachKeyWithPrefix]

theorem prefix_ofChunk {dim x z : Int32} {k : Bytes} (h : OfChunk dim x z k) :
    chunkKeyPrefix dim x z <+: k := by
  obtain ⟨c, rfl, rfl, rfl, rfl⟩ := h
  exact (prefix_bytes_iff _ _ _ c).mpr ⟨rfl, rfl, .inr rfl⟩

theorem storedKeys_delete_key (level : Option LevelStorage) (k k' : Bytes) (hk : k ≠ []) :
    k' ∈ storedKeys (api_level_delete_key level k).2 ↔ k' ∈ storedKeys level ∧ k' ≠ k := by
  cases level with
  | none => simp [api_level_delete_key, storedKeys]
  | some s => simp [api_level_delete_key, storedKeys, LevelStorage.deleteData, hk]

/-- The loop removes exactly the keys it was given. -/
theorem storedKeys_deleteAll (keys : List Bytes) (hk : [] ∉ keys) (level : Option LevelStorage)
    (done : UInt32) (k : Bytes) :
    k ∈ storedKeys (deleteAll keys level done).2 ↔ k ∈ storedKeys level ∧ k ∉ keys := by
  induction keys generalizing level done with
  | nil => simp [deleteAll]
  | cons k₀ keys ih =>
    simp only [List.mem_cons, not_or] at hk
    rw [deleteAll, ih hk.2, storedKeys_delete_key _ _ _ (Ne.symm hk.1)]
    simp only [List.mem_cons, not_or, and_assoc]

theorem nil_not_listed (s : LevelStorage) (dim x z : Int32) :
    [] ∉ (api_level_chunk_keys (some s) dim x z).2 := by
  intro h
  obtain ⟨-, hp⟩ := (mem_listed_iff s dim x z []).mp h
  have := congrArg List.length (List.prefix_nil.mp hp)
  rw [length_chunkKeyPrefix] at this
  split at this <;> simp at this

/-- The bytes after the coordinates take fewer than 2^17 values. -/
def tailCode (k : ChunkKey) : Nat := k.tag.toNat * 257 + (k.sub.map fun b => b.toNat + 1).getD 0

theorem tailCode_lt (k : ChunkKey) : tailCode k < 65792 := by
  have h := k.tag.toNat_lt
  cases hs : k.sub with
  | none => simp only [tailCode, hs, Option.map_none, Option.getD_none]; omega
  | some b =>
    have hb := b.toNat_lt
    simp only [tailCode, hs, Option.map_some, Option.getD_some]
    omega

theorem tailCode_injective {k k' : ChunkKey} (h : tailCode k = tailCode k') :
    k.tag = k'.tag ∧ k.sub = k'.sub := by
  have hsub (o : Option UInt8) : (o.map fun b => b.toNat + 1).getD 0 < 257 := by
    cases o with
    | none => simp
    | some b => have := b.toNat_lt; simp only [Option.map_some, Option.getD_some]; omega
  have h₁ := hsub k.sub
  have h₂ := hsub k'.sub
  simp only [tailCode] at h
  have htag : k.tag.toNat = k'.tag.toNat := by omega
  refine ⟨UInt8.toNat_inj.mp htag, ?_⟩
  have hs : (k.sub.map fun b => b.toNat + 1).getD 0 = (k'.sub.map fun b => b.toNat + 1).getD 0 := by omega
  cases hk : k.sub <;> cases hk' : k'.sub <;> simp [hk, hk'] at hs ⊢
  exact UInt8.toNat_inj.mp hs

/-- Distinct keys of one chunk are few, so the 32-bit count of a listing that
stays inside the chunk never turns negative. -/
theorem length_le_of_ofChunk {dim x z : Int32} {keys : List Bytes} (hn : keys.Nodup)
    (h : ∀ k ∈ keys, OfChunk dim x z k) : keys.length ≤ 65792 := by
  choose! c hc using h
  have hinj : Set.InjOn (fun k => tailCode (c k)) keys.toFinset := by
    intro a ha b hb hab
    have ha' : a ∈ keys := by simpa using ha
    have hb' : b ∈ keys := by simpa using hb
    obtain ⟨ht, hs⟩ := tailCode_injective hab
    obtain ⟨ha₁, ha₂, ha₃, ha₄⟩ := hc a ha'
    obtain ⟨hb₁, hb₂, hb₃, hb₄⟩ := hc b hb'
    rw [← ha₁, ← hb₁]
    congr 1
    cases hca : c a
    cases hcb : c b
    simp_all
  have hcard := Finset.card_le_card_of_injOn (s := keys.toFinset) (t := Finset.range 65792) _
    (fun k _ => by simpa using tailCode_lt (c k)) hinj
  rwa [List.toFinset_card_of_nodup hn, Finset.card_range] at hcard

theorem storedKeys_delete_chunk_keys (s : LevelStorage) (dim x z : Int32) (k : Bytes)
    (hn : ¬ (api_level_chunk_keys (some s) dim x z).1 < 0) :
    k ∈ storedKeys (delete_chunk_keys (some s) dim x z).2 ↔
      k ∈ s.keys ∧ k ∉ (api_level_chunk_keys (some s) dim x z).2 := by
  rw [delete_chunk_keys]
  simp only [hn, if_false]
  rw [storedKeys_deleteAll _ (nil_not_listed s dim x z)]
  rfl

/-- Erasing a chunk touches that chunk only, exactly when the dimension is not
the overworld or nothing of another dimension is stored at those coordinates. -/
theorem touchesOnlyItsChunk_iff (s : LevelStorage) (dim x z : Int32) :
    TouchesOnlyItsChunk s dim x z ↔
      dim ≠ 0 ∨ ∀ c : ChunkKey, c.bytes ∈ s.keys → c.x = x → c.z = z → c.dim = 0 := by
  constructor
  · rintro ⟨hl, -⟩
    by_cases hd : dim = 0
    · right
      intro c hc hx hz
      have hm : c.bytes ∈ (api_level_chunk_keys (some s) dim x z).2 :=
        (mem_listed_iff s dim x z _).mpr ⟨hc, (prefix_bytes_iff _ _ _ c).mpr ⟨hx, hz, .inl hd⟩⟩
      obtain ⟨-, c', hb, hd', -, -⟩ := (hl c.bytes).mp hm
      rw [← bytes_injective hb, hd', hd]
    · exact .inl hd
  · intro h
    have hl : ∀ k, k ∈ (api_level_chunk_keys (some s) dim x z).2 ↔ k ∈ s.keys ∧ OfChunk dim x z k := by
      intro k
      rw [mem_listed_iff]
      refine and_congr_right fun hk => ⟨fun hp => ?_, prefix_ofChunk⟩
      obtain ⟨c, rfl⟩ := s.layout k hk
      obtain ⟨hx, hz, hd⟩ := (prefix_bytes_iff _ _ _ c).mp hp
      refine ⟨c, rfl, ?_, hx, hz⟩
      rcases h with h | h
      · exact hd.resolve_left h
      · rcases hd with rfl | hd
        · exact h c hk hx hz
        · exact hd
    refine ⟨hl, fun k => ?_⟩
    have hnd : (api_level_chunk_keys (some s) dim x z).2.Nodup := s.nodup.sublist List.filter_sublist
    have hlen := length_le_of_ofChunk hnd fun k hk => ((hl k).mp hk).2
    have hneg : ¬ (api_level_chunk_keys (some s) dim x z).1 < 0 := by
      show ¬ Int32.ofNat (api_level_chunk_keys (some s) dim x z).2.length < 0
      rw [Int32.lt_iff_toInt_lt, Int32.toInt_ofNat_of_lt (by omega)]
      simp
    rw [storedKeys_delete_chunk_keys s dim x z k hneg, ← hl k]
    constructor
    · rintro ⟨hk, hr⟩
      by_contra hc
      exact hr ⟨hk, hc⟩
    · intro hm
      exact ⟨((hl k).mp hm).1, fun hr => hr.2 hm⟩

/-- A nether chunk at (0, 0), stored under tag 47 with sub-chunk 0. -/
def netherOnly : LevelStorage where
  keys := [(⟨1, 0, 0, 47, some 0⟩ : ChunkKey).bytes]
  nodup := by simp
  layout := by
    intro k hk
    exact ⟨_, (List.mem_singleton.mp hk).symm⟩

/-- Erasing the overworld chunk (0, 0) erases the nether chunk (0, 0). -/
theorem overworld_erases_nether : ¬ ∀ s dim x z, TouchesOnlyItsChunk s dim x z := by
  intro h
  have hd := (h netherOnly 0 0 0).1 (⟨1, 0, 0, 47, some 0⟩ : ChunkKey).bytes
  obtain ⟨-, c, hb, hc, -, -⟩ := hd.mp (by decide)
  have := bytes_injective hb
  subst this
  exact absurd hc (by decide)

end ChunkKeys
