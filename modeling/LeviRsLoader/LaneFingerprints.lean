import LeviRsLoader.Lib.Fnv
import LeviRsLoader.Lib.Utf8
import LeviRsLoader.LaneTables

/-!
# Lane fingerprints

What a mod was built with, hashed by `build.rs` into a number that the crate reads back, and from that number
and a lane's contract the fingerprint that a provider publishes and a consumer asks for. A table is called
through without any other check, so two contracts must not share a fingerprint.
-/
namespace LaneFingerprints

open Utf8 Lane

/-- The bytes of a `str`. -/
def as_bytes (s : String) : List UInt8 := encode s.toList

def FNV_OFFSET : UInt64 := 0xcbf29ce484222325

/-! ## The toolchain -/

/-- What `build.rs` finds: the answer of `rustc -vV`, the environment, the version of the crate. -/
structure Build where
  version : String
  var : String → Option String
  CARGO_PKG_VERSION : String

/-- The variables that take part. -/
def keys : List String :=
  ["TARGET", "PROFILE", "OPT_LEVEL", "DEBUG", "CARGO_CFG_TARGET_POINTER_WIDTH", "CARGO_CFG_TARGET_ENDIAN",
    "CARGO_CFG_TARGET_ENV", "CARGO_ENCODED_RUSTFLAGS", "CARGO_CFG_PANIC", "CARGO_CFG_TARGET_FEATURE",
    "CARGO_CFG_TARGET_ARCH"]

def fnv1a (seed : UInt64) (bytes : List UInt8) : UInt64 :=
  bytes.foldl (fun h b => (h ^^^ b.toUInt64) * 0x100000001b3) seed

/-- The number that `main` of `build.rs` computes. -/
def toolchain (b : Build) : UInt64 :=
  let h := fnv1a 0xcbf29ce484222325 (as_bytes b.version)
  let h := keys.foldl (fun h key => fnv1a (fnv1a h (as_bytes key)) (as_bytes ((b.var key).getD ""))) h
  fnv1a h (as_bytes b.CARGO_PKG_VERSION)

/-- `LEVI_RS_TOOLCHAIN_FP` as `build.rs` prints it. -/
def toolchainText (b : Build) : List UInt8 := encode (Nat.toDigits 10 (toolchain b).toNat)

def parse_u64 (b : List UInt8) : UInt64 := b.foldl (fun v d => v * 10 + (d - 48).toUInt64) 0

def TOOLCHAIN (b : Build) : UInt64 := parse_u64 (toolchainText b)

/-! ## The fingerprint -/

def FNV_PRIME : UInt64 := 0x100000001b3

def mix_bytes (h : UInt64) (bytes : List UInt8) : UInt64 := bytes.foldl (fun h b => (h ^^^ b.toUInt64) * FNV_PRIME) h

def to_le_bytes (v : UInt64) : List UInt8 :=
  [v.toUInt8, (v >>> 8).toUInt8, (v >>> 16).toUInt8, (v >>> 24).toUInt8, (v >>> 32).toUInt8, (v >>> 40).toUInt8,
    (v >>> 48).toUInt8, (v >>> 56).toUInt8]

def mix_u64 (h v : UInt64) : UInt64 := mix_bytes h (to_le_bytes v)

/-- What the compiler knows of a table type. -/
structure TableType where
  type_name : String
  size_of : UInt64
  align_of : UInt64

structure LaneContract where
  NAME : String
  VERSION : UInt32
  CRATE_VERSION : String
  Table : TableType

def type_ident_hash (T : TableType) : UInt64 := mix_bytes FNV_OFFSET (as_bytes T.type_name)

/-- The hash, before 0 is kept for itself. -/
def mixed (toolchain : UInt64) (C : LaneContract) : UInt64 :=
  let h := FNV_OFFSET
  let h := mix_u64 h toolchain
  let h := mix_u64 h LEVI_RS_LANE_PROTOCOL.toUInt64
  let h := mix_bytes h (as_bytes C.NAME)
  let h := mix_u64 h C.VERSION.toUInt64
  let h := mix_u64 h C.Table.size_of
  let h := mix_u64 h C.Table.align_of
  let h := mix_u64 h (type_ident_hash C.Table)
  mix_bytes h (as_bytes C.CRATE_VERSION)

def fingerprint (toolchain : UInt64) (C : LaneContract) : UInt64 :=
  let h := mixed toolchain C
  if h = 0 then 1 else h

/-! ## The number is read back -/

theorem parse_digits {t : List Char} (ht : ∀ c ∈ t, c.isDigit = true) (n : Nat) :
    (encode t).foldl (fun v d => v * 10 + (d - 48).toUInt64) (UInt64.ofNat n)
      = UInt64.ofNat (Nat.ofDigitChars 10 t n) := by
  induction t generalizing n with
  | nil => rfl
  | cons c t ih =>
    obtain ⟨hc, ht⟩ := List.forall_mem_cons.mp ht
    have hbounds : 48 ≤ c.toNat ∧ c.toNat ≤ 57 := Char.isDigit_iff_toNat.mp hc
    have hascii : isAscii c = true := by
      simp only [isAscii, decide_eq_true_eq]
      omega
    have hdigit : (byteOf c - 48).toUInt64 = UInt64.ofNat (c.toNat - 48) := by
      have hle : (48 : UInt8) ≤ byteOf c := by
        rw [UInt8.le_iff_toNat_le, byteOf_toNat hascii]
        exact hbounds.1
      apply UInt64.toNat_inj.mp
      rw [UInt8.toNat_toUInt64, UInt8.toNat_sub_of_le _ _ hle, byteOf_toNat hascii, UInt64.toNat_ofNat']
      show c.toNat - 48 = _
      omega
    have hnext : UInt64.ofNat n * 10 + UInt64.ofNat (c.toNat - 48) = UInt64.ofNat (10 * n + (c.toNat - '0'.toNat)) := by
      rw [UInt64.ofNat_add, UInt64.ofNat_mul, UInt64.mul_comm]
      rfl
    rw [encode_cons_ascii hascii, List.foldl_cons, hdigit, hnext, ih ht]
    rfl

theorem TOOLCHAIN_eq (b : Build) : TOOLCHAIN b = toolchain b := by
  have hdigits : ∀ c ∈ Nat.toDigits 10 (toolchain b).toNat, c.isDigit = true := fun c hc =>
    Nat.isDigit_of_mem_toDigits (by decide) (by decide) hc
  have hparsed := parse_digits hdigits 0
  rw [Nat.ofDigitChars_ten_toDigits, UInt64.ofNat_toNat] at hparsed
  exact hparsed

/-! ## What the mixing keeps apart -/

theorem mix_bytes_left_inj {h h' : UInt64} {bytes : List UInt8} : mix_bytes h bytes = mix_bytes h' bytes ↔ h = h' :=
  Fnv.mix_left_inj

theorem mix_u64_left_inj {h h' v : UInt64} : mix_u64 h v = mix_u64 h' v ↔ h = h' := mix_bytes_left_inj

/-- The four low bytes of a number. -/
def lowBytes (v : UInt64) : List UInt8 := (to_le_bytes v).take 4

theorem to_le_bytes_small {v : UInt64} (hv : v.toNat < 4294967296) : to_le_bytes v = lowBytes v ++ [0, 0, 0, 0] := by
  have hzero (k : UInt64) (hk : 32 ≤ k.toNat ∧ k.toNat < 64) : (v >>> k).toUInt8 = 0 := by
    apply UInt8.toNat_inj.mp
    rw [UInt64.toNat_toUInt8, UInt64.toNat_shiftRight, Nat.mod_eq_of_lt hk.2, Nat.shiftRight_eq_div_pow,
      Nat.div_eq_of_lt (Nat.lt_of_lt_of_le hv (Nat.pow_le_pow_right Nat.two_pos hk.1))]
    rfl
  rw [to_le_bytes, hzero 32 (by decide), hzero 40 (by decide), hzero 48 (by decide), hzero 56 (by decide)]
  rfl

theorem lowBytes_toNat (v : UInt64) : (lowBytes v).map UInt8.toNat
    = [v.toNat % 256, v.toNat / 256 % 256, v.toNat / 65536 % 256, v.toNat / 16777216 % 256] := by
  simp only [lowBytes, to_le_bytes, List.take_succ_cons, List.take_zero, List.map_cons, List.map_nil,
    UInt64.toNat_toUInt8, UInt64.toNat_shiftRight, Nat.shiftRight_eq_div_pow]
  rfl

theorem lowBytes_inj {v w : UInt64} (hv : v.toNat < 4294967296) (hw : w.toNat < 4294967296)
    (h : lowBytes v = lowBytes w) : v = w := by
  have hn := congrArg (List.map UInt8.toNat) h
  simp only [lowBytes_toNat, List.cons.injEq, and_true] at hn
  obtain ⟨h₀, h₁, h₂, h₃⟩ := hn
  apply UInt64.toNat_inj.mp
  omega

/-- Numbers below `2 ^ 32` are kept apart, whatever was mixed before. -/
theorem mix_u64_small {h v w : UInt64} (hv : v.toNat < 4294967296) (hw : w.toNat < 4294967296) :
    mix_u64 h v = mix_u64 h w ↔ v = w := by
  refine ⟨fun he => ?_, fun he => by rw [he]⟩
  rw [mix_u64, mix_u64, to_le_bytes_small hv, to_le_bytes_small hw] at he
  have hlen : (lowBytes v).length = 4 := rfl
  exact lowBytes_inj hv hw ((Fnv.mix_window hlen hlen.le h [] [0, 0, 0, 0]).mp he)

/-- Two texts that differ only in a stretch of at most four bytes. -/
inductive Close (s t : String) : Prop where
  | intro (before x y after : List UInt8) (hs : as_bytes s = before ++ x ++ after)
      (ht : as_bytes t = before ++ y ++ after) (hlen : x.length = y.length) (hfour : x.length ≤ 4) (hne : x ≠ y)

theorem mix_bytes_close {s t : String} (h : Close s t) (seed : UInt64) :
    mix_bytes seed (as_bytes s) ≠ mix_bytes seed (as_bytes t) := by
  obtain ⟨before, x, y, after, hs, ht, hlen, hfour, hne⟩ := h
  rw [hs, ht]
  exact fun he => hne ((Fnv.mix_window hlen hfour seed before after).mp he)

/-! ## Builds that are told apart -/

/-- A build with the answer of `rustc`, one variable or the crate's version changed a little. -/
inductive Rebuilt : Build → Build → Prop where
  | version (b : Build) (version : String) (h : Close b.version version) : Rebuilt b { b with version := version }
  | var (b : Build) (key value : String) (hkey : key ∈ keys) (h : Close ((b.var key).getD "") value) :
      Rebuilt b { b with var := fun k => if k = key then some value else b.var k }
  | package (b : Build) (version : String) (h : Close b.CARGO_PKG_VERSION version) :
      Rebuilt b { b with CARGO_PKG_VERSION := version }

/-- What one variable adds to the number. -/
def mixVar (var : String → Option String) (h : UInt64) (key : String) : UInt64 :=
  fnv1a (fnv1a h (as_bytes key)) (as_bytes ((var key).getD ""))

theorem foldl_mixVar_left_inj {var : String → Option String} {l : List String} {h h' : UInt64} :
    l.foldl (mixVar var) h = l.foldl (mixVar var) h' ↔ h = h' := by
  refine ⟨fun he => ?_, fun he => by rw [he]⟩
  induction l generalizing h h' with
  | nil => exact he
  | cons key l ih => exact Fnv.mix_left_inj.mp (Fnv.mix_left_inj.mp (ih he))

theorem foldl_mixVar_update {var : String → Option String} {key value : String} {l : List String} (hl : key ∉ l)
    (h : UInt64) : l.foldl (mixVar fun k => if k = key then some value else var k) h = l.foldl (mixVar var) h := by
  refine List.foldl_ext _ _ _ fun h' k hk => ?_
  have hne : k ≠ key := fun he => hl (he ▸ hk)
  rw [mixVar, mixVar, if_neg hne]

theorem toolchain_eq (b : Build) : toolchain b =
    fnv1a (keys.foldl (mixVar b.var) (fnv1a FNV_OFFSET (as_bytes b.version))) (as_bytes b.CARGO_PKG_VERSION) := rfl

theorem toolchain_ne {b b' : Build} (h : Rebuilt b b') : toolchain b ≠ toolchain b' := by
  intro he
  rw [toolchain_eq, toolchain_eq] at he
  cases h with
  | version version h =>
    exact mix_bytes_close h _ (foldl_mixVar_left_inj.mp (Fnv.mix_left_inj.mp he))
  | var key value hkey h =>
    have hfold := Fnv.mix_left_inj.mp he
    obtain ⟨l, r, hsplit⟩ := List.append_of_mem hkey
    have hnodup : keys.Nodup := by decide
    rw [hsplit, List.nodup_append, List.nodup_cons] at hnodup
    obtain ⟨-, ⟨hr, -⟩, hl⟩ := hnodup
    have hkl : key ∉ l := fun hm => hl key hm key List.mem_cons_self rfl
    rw [hsplit, List.foldl_append, List.foldl_append, List.foldl_cons, List.foldl_cons, foldl_mixVar_update hkl,
      foldl_mixVar_update hr] at hfold
    have hhere := foldl_mixVar_left_inj.mp hfold
    simp only [mixVar, ↓reduceIte] at hhere
    exact mix_bytes_close h _ hhere
  | package version h => exact mix_bytes_close h _ he

/-- The crate reads back the number that `build.rs` computed, and builds that differ in one of its texts by a
stretch of at most four bytes get different numbers. -/
theorem toolchains_apart {b b' : Build} (h : Rebuilt b b') :
    TOOLCHAIN b = toolchain b ∧ TOOLCHAIN b' = toolchain b' ∧ TOOLCHAIN b ≠ TOOLCHAIN b' := by
  refine ⟨TOOLCHAIN_eq b, TOOLCHAIN_eq b', ?_⟩
  rw [TOOLCHAIN_eq, TOOLCHAIN_eq]
  exact toolchain_ne h

/-- A build whose answers are short, at one optimisation level. -/
def exampleBuild : Build := ⟨"rustc", fun key => if key = "OPT_LEVEL" then some "2" else none, "0.1.0"⟩

theorem toolchains_apart_opt_level :
    let rebuilt := { exampleBuild with var := fun k => if k = "OPT_LEVEL" then some "3" else exampleBuild.var k }
    TOOLCHAIN exampleBuild = toolchain exampleBuild ∧ TOOLCHAIN rebuilt = toolchain rebuilt
      ∧ TOOLCHAIN exampleBuild ≠ TOOLCHAIN rebuilt :=
  toolchains_apart (.var exampleBuild "OPT_LEVEL" "3" (by decide)
    ⟨[], [50], [51], [], by decide, by decide, rfl, by decide, by decide⟩)

/-! ## Contracts that are told apart -/

/-- A contract with one thing about it changed: the version, the size or the alignment of the table, or a
little of one of the names. -/
inductive Changed : LaneContract → LaneContract → Prop where
  | version (C : LaneContract) (v : UInt32) (h : C.VERSION ≠ v) : Changed C { C with VERSION := v }
  | size (C : LaneContract) (n : UInt64) (h : C.Table.size_of ≠ n) (hold : C.Table.size_of.toNat < 4294967296)
      (hnew : n.toNat < 4294967296) : Changed C { C with Table := { C.Table with size_of := n } }
  | align (C : LaneContract) (n : UInt64) (h : C.Table.align_of ≠ n) (hold : C.Table.align_of.toNat < 4294967296)
      (hnew : n.toNat < 4294967296) : Changed C { C with Table := { C.Table with align_of := n } }
  | name (C : LaneContract) (name : String) (h : Close C.NAME name) : Changed C { C with NAME := name }
  | crateVersion (C : LaneContract) (version : String) (h : Close C.CRATE_VERSION version) :
      Changed C { C with CRATE_VERSION := version }

theorem mixed_ne (toolchain : UInt64) {C C' : LaneContract} (h : Changed C C') :
    mixed toolchain C ≠ mixed toolchain C' := by
  intro he
  cases h with
  | version v hne =>
    -- the steps after the version are peeled off, last one first
    have hsame := mix_u64_left_inj.mp (mix_u64_left_inj.mp (mix_u64_left_inj.mp (mix_bytes_left_inj.mp he)))
    refine hne (UInt32.toNat_inj.mp ?_)
    have hwide := (mix_u64_small (by simpa using C.VERSION.toNat_lt) (by simpa using v.toNat_lt)).mp hsame
    simpa using congrArg UInt64.toNat hwide
  | size n hne hold hnew =>
    exact hne ((mix_u64_small hold hnew).mp (mix_u64_left_inj.mp (mix_u64_left_inj.mp (mix_bytes_left_inj.mp he))))
  | align n hne hold hnew =>
    exact hne ((mix_u64_small hold hnew).mp (mix_u64_left_inj.mp (mix_bytes_left_inj.mp he)))
  | name name h =>
    exact mix_bytes_close h _ (mix_u64_left_inj.mp (mix_u64_left_inj.mp (mix_u64_left_inj.mp
      (mix_u64_left_inj.mp (mix_bytes_left_inj.mp he)))))
  | crateVersion version h => exact mix_bytes_close h _ he

theorem fingerprint_ne_zero (toolchain : UInt64) (C : LaneContract) : fingerprint toolchain C ≠ 0 := by
  unfold fingerprint
  dsimp only
  split
  · decide
  · next h => exact h

/-- The two hashes that 0 being reserved gives one fingerprint. -/
def Reserved (toolchain : UInt64) (C C' : LaneContract) : Prop :=
  (mixed toolchain C = 0 ∧ mixed toolchain C' = 1) ∨ (mixed toolchain C = 1 ∧ mixed toolchain C' = 0)

theorem fingerprint_eq_iff (toolchain : UInt64) {C C' : LaneContract} (h : Changed C C') :
    fingerprint toolchain C = fingerprint toolchain C' ↔ Reserved toolchain C C' := by
  have hne := mixed_ne toolchain h
  simp only [fingerprint, Reserved]
  split_ifs with h₀ h₁ h₁
  · exact absurd (h₀.trans h₁.symm) hne
  · simp [h₀, h₁, eq_comm]
  · simp [h₀, h₁]
  · simp [h₀, h₁, hne]

/-- Contracts with one thing changed share a fingerprint only where their hashes are 0 and 1. No fingerprint is 0. -/
theorem fingerprints_apart (toolchain : UInt64) {C C' : LaneContract} (h : Changed C C') :
    (fingerprint toolchain C = fingerprint toolchain C' ↔ Reserved toolchain C C')
      ∧ fingerprint toolchain C ≠ 0 ∧ fingerprint toolchain C' ≠ 0 :=
  ⟨fingerprint_eq_iff toolchain h, fingerprint_ne_zero toolchain C, fingerprint_ne_zero toolchain C'⟩

/-- A table of one function. -/
def exampleContract : LaneContract := ⟨"test:a:v1", 1, "0.0.0", ⟨"lane::TableA", 8, 8⟩⟩

theorem fingerprints_apart_version :
    let C' := { exampleContract with VERSION := 2 }
    (fingerprint 7 exampleContract = fingerprint 7 C' ↔ Reserved 7 exampleContract C')
      ∧ fingerprint 7 exampleContract ≠ 0 ∧ fingerprint 7 C' ≠ 0 :=
  fingerprints_apart 7 (.version exampleContract 2 (by decide))

/-! ## The lane of a contract -/

section Lanes

open LeviRs LaneProtocol LaneTables Runs Interleave

variable {tr : List (Thread × Event)} {p : Thread}

/-- `LeviRsLaneRef::default()` -/
def defaultRef : LaneRef := ⟨busyRefSize, 0, 0, 0, none, none, none⟩

/-- What `publish::<C, S>` calls. -/
def publish (live : ModId → Bool) (mod : ModId) (toolchain : UInt64) (C : LaneContract)
    (state table retain_fn release_fn : Ptr) : Instr :=
  .publish live (some mod) C.NAME (some (publishDesc (fingerprint toolchain C) state table retain_fn release_fn))

/-- What `acquire::<C>` calls. -/
def acquire (live : ModId → Bool) (mod : ModId) (toolchain : UInt64) (C : LaneContract) (s : Lanes) : Acquired :=
  api_lane_acquire live (some mod) C.NAME (fingerprint toolchain C) (some defaultRef) s

/-- Every lane of the run is published by the Rust side. -/
def SdkPublishes (tr : List (Thread × Event)) : Prop :=
  ∀ e ∈ tr, ∀ live mod name desc, e.2 = .exec (.publish live mod name desc) →
    ∃ m toolchain C state table retain_fn release_fn,
      Instr.publish live mod name desc = publish live m toolchain C state table retain_fn release_fn

theorem validName_of_publish {live : ModId → Bool} {mod : Option ModId} {name : String} {desc : Option LaneDesc}
    {s : Lanes} (h : (api_lane_publish live mod name desc s).1 ≠ 0) : validName name = true := by
  cases mod with
  | none => exact absurd rfl h
  | some m =>
    cases desc with
    | none => exact absurd rfl h
    | some d =>
      by_contra hname
      refine h ?_
      rw [Bool.not_eq_true] at hname
      simp only [api_lane_publish, hname, Bool.not_false, if_true]
      split_ifs
      all_goals rfl

/-- A lane in the table was published by one `publish::<C, S>`. -/
theorem published_lane (h : Run TStep initial tr p) (hsdk : SdkPublishes tr) {laneId : Nat} {lane : LaneEntry}
    (hl : p.state.gLanes.lookup laneId = some lane) :
    ∃ e ∈ tr, ∃ live toolchain C state table retain_fn release_fn,
      e.2 = .exec (publish live lane.mod toolchain C state table retain_fn release_fn) ∧ lane.name = C.NAME ∧
      validName C.NAME = true ∧ lane.desc.fingerprint = fingerprint toolchain C ∧ lane.desc.vtable = some table := by
  have hentry : entryOf p.state laneId = some { lane with leases := 0 } := by rw [entryOf, hl]; rfl
  obtain ⟨e, he, hpub⟩ := List.mem_filterMap.mp ((handed_run h).lane laneId _ hentry)
  unfold publishedLane at hpub
  split at hpub
  · next q live mod name desc =>
    obtain ⟨m, toolchain, C, state, table, retain_fn, release_fn, hpublish⟩ := hsdk _ he _ _ _ _ rfl
    dsimp only at hpub
    split at hpub
    · cases hpub
    · next hid =>
      cases hpublish
      obtain ⟨-, hlane⟩ := Prod.mk.inj (Option.some.inj hpub)
      have hmod : mod = lane.mod := congrArg LaneEntry.mod hlane
      have hname : C.NAME = lane.name := congrArg LaneEntry.name hlane
      have hprint : fingerprint toolchain C = lane.desc.fingerprint := congrArg (fun l => l.desc.fingerprint) hlane
      have htable : some table = lane.desc.vtable := congrArg (fun l => l.desc.vtable) hlane
      subst hmod
      exact ⟨_, he, live, toolchain, C, state, table, retain_fn, release_fn, rfl, hname.symm, validName_of_publish hid,
        hprint.symm, htable.symm⟩
  · cases hpub

/-- A lane that may be acquired is, if the fingerprint is the one asked for. -/
theorem acquire_found {s : Lanes} {live : ModId → Bool} {consumer : ModId} {name : String} {laneId : Nat}
    {lane : LaneEntry} (hvalid : validName name = true) (hby : s.gByName.lookup name = some laneId)
    (hl : s.gLanes.lookup laneId = some lane) (hne : lane.mod ≠ consumer) (hlive : live lane.mod = true)
    {want : UInt64} (hwant : want ≠ 0) :
    let a := api_lane_acquire live (some consumer) name want (some defaultRef) s
    if want = lane.desc.fingerprint then a.code = LEVI_RS_LANE_OK ∧ a.out.bind LaneRef.vtable = lane.desc.vtable
    else a.code = LEVI_RS_LANE_FINGERPRINT ∧ a.lanes = s := by
  have hsize : ¬defaultRef.struct_size < kMinRefSize := by decide
  simp only [api_lane_acquire, hsize, if_false, hvalid, Bool.not_true, Bool.false_eq_true, hby, hl, hne, providerAlive,
    hlive, hwant, false_or]
  by_cases hprint : want = lane.desc.fingerprint
  · simp [hprint]
  · simp [hprint]

/-- Under its name the lane is handed, with its table, to a consumer with this toolchain and contract, and to
none whose contract has one thing changed. That one is told so, and nothing changes. -/
def HandedTo (s : Lanes) (lane : LaneEntry) (toolchain : UInt64) (C : LaneContract) (table : Ptr) : Prop :=
  ∀ (live : ModId → Bool) (consumer : ModId), consumer ≠ lane.mod → live lane.mod = true →
    ((acquire live consumer toolchain C s).code = LEVI_RS_LANE_OK ∧
      (acquire live consumer toolchain C s).out.bind LaneRef.vtable = some table) ∧
    ∀ C', C'.NAME = C.NAME → Changed C C' → ¬Reserved toolchain C C' →
      (acquire live consumer toolchain C' s).code = LEVI_RS_LANE_FINGERPRINT ∧
      (acquire live consumer toolchain C' s).lanes = s

/-- In every run in which the Rust side publishes the lanes, each lane that is there was published for one
contract and is handed to consumers of that contract. -/
theorem handed_to_its_contract (h : Run TStep initial tr p) (hsdk : SdkPublishes tr) {laneId : Nat} {lane : LaneEntry}
    (hl : p.state.gLanes.lookup laneId = some lane) :
    ∃ e ∈ tr, ∃ live toolchain C state table retain_fn release_fn,
      e.2 = .exec (publish live lane.mod toolchain C state table retain_fn release_fn) ∧
      HandedTo p.state lane toolchain C table := by
  obtain ⟨e, he, live, toolchain, C, state, table, retain_fn, release_fn, hpublish, hname, hvalid, hprint, htable⟩ :=
    published_lane h hsdk hl
  refine ⟨e, he, live, toolchain, C, state, table, retain_fn, release_fn, hpublish, fun live consumer hne hlive => ?_⟩
  have hby : p.state.gByName.lookup C.NAME = some laneId :=
    ((handed_run h).intact.named C.NAME laneId).mpr ⟨lane, hl, hname⟩
  have hfound {C' : LaneContract} (hsame : C'.NAME = C.NAME) :=
    acquire_found (hsame ▸ hvalid) (hsame ▸ hby) hl hne.symm hlive (fingerprint_ne_zero toolchain C')
  refine ⟨?_, fun C' hsame hchanged hreserved => ?_⟩
  · have hok := hfound (rfl : C.NAME = C.NAME)
    rwa [if_pos hprint.symm, htable] at hok
  · have hdiffers : fingerprint toolchain C' ≠ lane.desc.fingerprint := fun heq =>
      hreserved ((fingerprint_eq_iff toolchain hchanged).mp (heq.trans hprint).symm)
    have hrefused := hfound hsame
    rwa [if_neg hdiffers] at hrefused

section Example

variable (want : UInt64)

def exampleDesc : LaneDesc := publishDesc want 100 200 300 400

def examplePublish : Instr := .publish everyone (some 1) "test:a:v1" (some (exampleDesc want))

/-- One lane, published by mod 1. -/
def exampleTrace : List (Thread × Event) :=
  [(initial, .start (.publish everyone (some 1) "test:a:v1" (some (exampleDesc want)))),
   (⟨Lanes.initial, [examplePublish want]⟩, .exec (examplePublish want))]

def exampleEnd : Thread :=
  ⟨(api_lane_publish everyone (some 1) "test:a:v1" (some (exampleDesc want)) Lanes.initial).2, []⟩

theorem run_example : Run TStep initial (exampleTrace want) (exampleEnd want) :=
  .cons (.start _ _ _ (by simp)) <| .cons (.exec _ (.publish _ _ _ _ _)) (.nil _)

def exampleLane : LaneEntry := ⟨1, "test:a:v1", exampleDesc want, 0, 0⟩

variable {want} in
theorem lookup_example (hwant : want ≠ 0) : (exampleEnd want).state.gLanes.lookup 1 = some (exampleLane want) := by
  simp only [exampleEnd, exampleDesc, api_lane_publish, publishDesc, hwant, if_false]
  rfl

end Example

theorem sdkPublishes_example : SdkPublishes (exampleTrace (fingerprint 7 exampleContract)) := by
  intro e he live mod name desc hpub
  simp only [exampleTrace, List.mem_cons, List.not_mem_nil, or_false] at he
  rcases he with rfl | rfl
  · cases hpub
  · cases hpub
    exact ⟨1, 7, exampleContract, 100, 200, 300, 400, rfl⟩

theorem handed_to_its_contract_example :
    ∃ e ∈ exampleTrace (fingerprint 7 exampleContract), ∃ live toolchain C state table retain_fn release_fn,
      e.2 = .exec (publish live 1 toolchain C state table retain_fn release_fn) ∧
      HandedTo (exampleEnd (fingerprint 7 exampleContract)).state (exampleLane (fingerprint 7 exampleContract))
        toolchain C table :=
  handed_to_its_contract (run_example _) sdkPublishes_example (lookup_example (fingerprint_ne_zero 7 exampleContract))

end Lanes

end LaneFingerprints
