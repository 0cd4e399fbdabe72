import Mathlib.Data.Nat.Bitwise
import LeviRsLoader.Lib.Leb128

/-!
# The packet header

The header codec of `PacketHooks.cpp`: an unsigned varint with the packet id in
bits 0..9 and the two sub client ids in bits 10..11 and 12..13.
-/
namespace PacketHeader

def kPacketIdMask : UInt32 := 0x3FF

def kSubIdMask : UInt32 := 0x3

/-- The loop of `readUVarInt` on the bytes from `pos` on. -/
def readLoop (result shift : UInt32) (pos : Nat) : List UInt8 → Option (UInt32 × Nat)
  | [] => none
  | b :: data =>
    let result := result ||| ((b &&& 0x7F).toUInt32 <<< shift)
    if b &&& 0x80 = 0 then some (result, pos + 1)
    else
      let shift := shift + 7
      if shift ≥ 35 then none else readLoop result shift (pos + 1) data

/-- The value and the bytes consumed. -/
def readUVarInt (data : List UInt8) : Option (UInt32 × Nat) := readLoop 0 0 0 data

theorem toNat_shiftRight_seven (value : UInt32) : (value >>> 7).toNat = value.toNat / 128 := by
  rw [UInt32.toNat_shiftRight]
  simp [Nat.shiftRight_eq_div_pow]

def writeUVarInt (value : UInt32) : List UInt8 :=
  if value ≥ 0x80 then ((value &&& 0x7F) ||| 0x80).toUInt8 :: writeUVarInt (value >>> 7)
  else [value.toUInt8]
termination_by value.toNat
decreasing_by
  rename_i h
  have h128 : 128 ≤ value.toNat := UInt32.le_iff_toNat_le.mp h
  rw [toNat_shiftRight_seven]
  omega

structure Header where
  raw : UInt32
  packetId : Int32
  senderSubId : UInt8
  targetSubId : UInt8
  size : Nat
  deriving DecidableEq, Repr

/-- `LeviRsPacketEdit` -/
structure PacketEdit where
  packetId : Int32
  senderSubId : UInt8
  targetSubId : UInt8
  deriving DecidableEq, Repr

def decodeHeader (packet : List UInt8) : Option Header :=
  match readUVarInt packet with
  | none => none
  | some (raw, pos) => some
    { raw := raw,
      packetId := (raw &&& kPacketIdMask).toInt32,
      senderSubId := ((raw >>> 10) &&& kSubIdMask).toUInt8,
      targetSubId := ((raw >>> 12) &&& kSubIdMask).toUInt8,
      size := pos }

def encodeHeader (edit : PacketEdit) : List UInt8 :=
  let raw := (edit.packetId.toUInt32 &&& kPacketIdMask)
    ||| ((edit.senderSubId.toUInt32 &&& kSubIdMask) <<< 10)
    ||| ((edit.targetSubId.toUInt32 &&& kSubIdMask) <<< 12)
  writeUVarInt raw

/-! ## The varints are LEB128 -/

theorem toNat_and_low {n : Nat} (m : Nat) (h : m = 2 ^ n - 1) (k : Nat) : k &&& m = k % 2 ^ n := by
  rw [h, Nat.and_two_pow_sub_one_eq_mod]

theorem payload_toNat (b : UInt8) : (b &&& 0x7F).toNat = b.toNat % 128 := by
  rw [UInt8.toNat_and]
  exact toNat_and_low (n := 7) 127 rfl b.toNat

/-- The continuation bit of a byte. -/
theorem more_iff (b : UInt8) : b &&& 0x80 = 0 ↔ b.toNat < 128 := by
  have hb : b.toNat < 256 := b.toNat_lt
  have hbit : (b &&& 0x80).toNat = b.toNat / 128 % 2 * 128 := by
    rw [UInt8.toNat_and]
    have h7 := Nat.and_two_pow b.toNat 7
    rw [Nat.testBit_eq_decide_div_mod_eq] at h7
    by_cases h1 : b.toNat / 128 % 2 = 1 <;> simp_all
  rw [← UInt8.toNat_inj, hbit]
  constructor
  · intro h
    have : b.toNat / 128 % 2 * 128 = 0 := h
    omega
  · intro h
    show b.toNat / 128 % 2 * 128 = 0
    omega

/-- Payload bits go above the bits already read. -/
theorem or_shiftLeft_eq (result payload shift : UInt32) (hs : shift.toNat < 32)
    (hr : result.toNat < 2 ^ shift.toNat) :
    result ||| (payload <<< shift) = UInt32.ofNat (result.toNat + 2 ^ shift.toNat * payload.toNat) := by
  have hsplit : 2 ^ 32 = 2 ^ shift.toNat * 2 ^ (32 - shift.toNat) := by
    rw [← Nat.pow_add, Nat.add_sub_cancel' (by omega)]
  have hpos : 0 < 2 ^ shift.toNat := Nat.two_pow_pos _
  have hlow : (result.toNat + 2 ^ shift.toNat * payload.toNat) % 2 ^ shift.toNat = result.toNat := by
    rw [Nat.add_mul_mod_self_left, Nat.mod_eq_of_lt hr]
  have hhigh : (result.toNat + 2 ^ shift.toNat * payload.toNat) / 2 ^ shift.toNat = payload.toNat := by
    rw [Nat.add_mul_div_left _ _ hpos, Nat.div_eq_of_lt hr, Nat.zero_add]
  rw [← UInt32.toNat_inj, UInt32.toNat_or, UInt32.toNat_shiftLeft, UInt32.toNat_ofNat', Nat.mod_eq_of_lt hs,
    Nat.shiftLeft_eq, Nat.mul_comm payload.toNat, hsplit, Nat.mul_mod_mul_left, Nat.mod_mul, hlow, hhigh,
    Nat.or_comm, ← Nat.two_pow_add_eq_or_of_lt hr, Nat.add_comm]

/-- The loop reads LEB128, of at most five bytes in all and modulo 2^32. -/
theorem readLoop_eq (data : List UInt8) (result shift : UInt32) (pos k : Nat) (hk : k ≤ 4)
    (hs : shift.toNat = 7 * k) (hr : result.toNat < 2 ^ (7 * k)) :
    readLoop result shift pos data = (Leb128.decode data).bind fun p =>
      if p.2 + k ≤ 5 then some (UInt32.ofNat (result.toNat + 2 ^ (7 * k) * p.1), pos + p.2) else none := by
  induction data generalizing result shift pos k with
  | nil => rfl
  | cons b data ih =>
    have hor := or_shiftLeft_eq result (b &&& 0x7F).toUInt32 shift (by omega) (by rwa [hs])
    rw [hs, UInt8.toNat_toUInt32, payload_toNat] at hor
    by_cases hb : b.toNat < 128
    · have hk1 : 1 + k ≤ 5 := by omega
      have hmod : b.toNat % 128 = b.toNat := Nat.mod_eq_of_lt hb
      simp only [readLoop, (more_iff b).mpr hb, if_true, hor, hmod, Leb128.decode_last hb, Option.bind_some, hk1]
    · have hmore : ¬(b &&& 0x80 = 0) := fun h => hb ((more_iff b).mp h)
      have hnext : (shift + 7).toNat = 7 * (k + 1) := by
        rw [UInt32.toNat_add, hs, show (7 : UInt32).toNat = 7 from rfl, Nat.mod_eq_of_lt (by omega)]
        omega
      simp only [readLoop, hmore, if_false, Leb128.decode_more hb, hor]
      by_cases hlast : k = 4
      · -- a sixth byte would be needed
        have hge : shift + 7 ≥ 35 := by
          rw [ge_iff_le, UInt32.le_iff_toNat_le, hnext, hlast]
          exact Nat.le_refl 35
        rw [if_pos hge]
        cases hd : Leb128.decode data with
        | none => rfl
        | some p =>
          have hp : 0 < p.2 := Leb128.decode_pos hd
          have hlong : ¬(p.2 + 1 + k ≤ 5) := by omega
          simp only [Option.map_some, Option.bind_some, hlong, if_false]
      · have hlt : ¬(shift + 7 ≥ 35) := by
          rw [ge_iff_le, UInt32.le_iff_toNat_le, hnext]
          exact fun h => by
            have : 35 ≤ 7 * (k + 1) := h
            omega
        have hpow : 2 ^ (7 * (k + 1)) = 2 ^ (7 * k) * 128 := by rw [Nat.mul_succ, Nat.pow_add]
        have hbound : result.toNat + 2 ^ (7 * k) * (b.toNat % 128) < 2 ^ (7 * (k + 1)) := by
          have hgroup : 2 ^ (7 * k) * (b.toNat % 128) ≤ 2 ^ (7 * k) * 127 :=
            Nat.mul_le_mul_left _ (by omega)
          omega
        have hfits : 2 ^ (7 * (k + 1)) ≤ 2 ^ 32 := Nat.pow_le_pow_right (by omega) (by omega)
        have hval : (UInt32.ofNat (result.toNat + 2 ^ (7 * k) * (b.toNat % 128))).toNat
            = result.toNat + 2 ^ (7 * k) * (b.toNat % 128) := by
          rw [UInt32.toNat_ofNat', Nat.mod_eq_of_lt (by omega)]
        rw [if_neg hlt, ih _ _ (pos + 1) (k + 1) (by omega) hnext (by rwa [hval])]
        cases Leb128.decode data with
        | none => rfl
        | some p =>
          have hsize : p.2 + 1 + k = p.2 + (k + 1) := by omega
          have hpos : pos + 1 + p.2 = pos + (p.2 + 1) := by omega
          have hsum : result.toNat + 2 ^ (7 * k) * (b.toNat % 128) + 2 ^ (7 * (k + 1)) * p.1
              = result.toNat + 2 ^ (7 * k) * (b.toNat % 128 + 128 * p.1) := by
            rw [hpow, Nat.mul_add, Nat.mul_assoc, Nat.add_assoc]
          simp only [Option.map_some, Option.bind_some, hval, hsize, hpos, hsum]

theorem readUVarInt_eq (data : List UInt8) :
    readUVarInt data = (Leb128.decode data).bind fun p =>
      if p.2 ≤ 5 then some (UInt32.ofNat p.1, p.2) else none := by
  rw [readUVarInt, readLoop_eq data 0 0 0 0 (by omega) rfl (by decide)]
  simp

theorem writeUVarInt_eq (value : UInt32) : writeUVarInt value = Leb128.encode value.toNat := by
  induction value using writeUVarInt.induct with
  | case1 value h ih =>
    have h128 : 128 ≤ value.toNat := UInt32.le_iff_toNat_le.mp h
    have hb : ((value &&& 0x7F) ||| 0x80).toUInt8 = UInt8.ofNat (value.toNat % 128 + 128) := by
      have hlow : value.toNat &&& 127 = value.toNat % 128 := toNat_and_low (n := 7) 127 rfl value.toNat
      rw [← UInt8.toNat_inj, UInt32.toNat_toUInt8, UInt32.toNat_or, UInt32.toNat_and,
        show (0x7F : UInt32).toNat = 127 from rfl, hlow, Nat.or_comm,
        show (0x80 : UInt32).toNat = 2 ^ 7 * 1 from rfl, ← Nat.two_pow_add_eq_or_of_lt (by omega),
        UInt8.toNat_ofNat', Nat.add_comm]
    rw [writeUVarInt, if_pos h, ih, hb, toNat_shiftRight_seven, Leb128.encode_big (Nat.not_lt.mpr h128)]
  | case2 value h =>
    have h128 : value.toNat < 128 := by
      rw [ge_iff_le, UInt32.le_iff_toNat_le] at h
      exact Nat.lt_of_not_le h
    have hb : value.toUInt8 = UInt8.ofNat value.toNat := by
      rw [← UInt8.toNat_inj, UInt32.toNat_toUInt8, UInt8.toNat_ofNat']
    rw [writeUVarInt, if_neg h, hb, Leb128.encode_small h128]

theorem length_writeUVarInt_le (value : UInt32) : (writeUVarInt value).length ≤ 5 := by
  rw [writeUVarInt_eq]
  exact Leb128.length_encode_le 4 _ (Nat.lt_trans value.toNat_lt (by decide))

/-- What `writeUVarInt` wrote is read back, whatever follows it. -/
theorem readUVarInt_writeUVarInt (value : UInt32) (rest : List UInt8) :
    readUVarInt (writeUVarInt value ++ rest) = some (value, (writeUVarInt value).length) := by
  have hsize := length_writeUVarInt_le value
  rw [readUVarInt_eq, writeUVarInt_eq, Leb128.decode_encode, ← writeUVarInt_eq, Option.bind_some, if_pos hsize,
    UInt32.ofNat_toNat]

/-! ## What the decoder accepts -/

/-- What `readUVarInt` leaves behind: `out` (`none` when it returns false), `pos`,
and the indices of `data` it has read. -/
structure Scan where
  out : Option UInt32
  pos : Nat
  reads : List Nat
  deriving DecidableEq, Repr

/-- The loop of `readUVarInt` on memory: `data` answers at any index, `len` alone keeps
the loop inside the packet. -/
def scanLoop (data : Nat → UInt8) (len : Nat) (result shift : UInt32) (pos : Nat) : Scan :=
  if pos < len then
    let b := data pos
    let result := result ||| ((b &&& 0x7F).toUInt32 <<< shift)
    if b &&& 0x80 = 0 then ⟨some result, pos + 1, [pos]⟩
    else
      let shift := shift + 7
      if shift ≥ 35 then ⟨none, pos + 1, [pos]⟩
      else
        let scan := scanLoop data len result shift (pos + 1)
        { scan with reads := pos :: scan.reads }
  else ⟨none, pos, []⟩
termination_by len - pos

/-- The bytes of `data` at the indices from `pos` up to `len`. -/
def bytesFrom (data : Nat → UInt8) (len pos : Nat) : List UInt8 := (List.range' pos (len - pos)).map data

theorem bytesFrom_of_lt (data : Nat → UInt8) {len pos : Nat} (h : pos < len) :
    bytesFrom data len pos = data pos :: bytesFrom data len (pos + 1) := by
  have hlen : len - pos = (len - (pos + 1)) + 1 := by omega
  rw [bytesFrom, hlen, List.range'_succ, List.map_cons, bytesFrom]

/-- On memory the loop does what it does on the bytes of the packet, and reads the indices
from `pos` up to where it stops, one after the other. -/
theorem scanLoop_eq (data : Nat → UInt8) (len : Nat) (result shift : UInt32) (pos : Nat) :
    ∃ scan, scanLoop data len result shift pos = scan
      ∧ readLoop result shift pos (bytesFrom data len pos) = scan.out.map (·, scan.pos)
      ∧ pos ≤ scan.pos ∧ scan.reads = List.range' pos (scan.pos - pos) ∧ ∀ i ∈ scan.reads, i < len := by
  induction hn : len - pos generalizing result shift pos with
  | zero =>
    have hge : ¬pos < len := by omega
    refine ⟨⟨none, pos, []⟩, by rw [scanLoop, if_neg hge], ?_, Nat.le_refl _, by simp, by simp⟩
    rw [bytesFrom, hn]
    rfl
  | succ n ih =>
    have hlt : pos < len := by omega
    rw [scanLoop, if_pos hlt, bytesFrom_of_lt data hlt, readLoop]
    by_cases hb : data pos &&& 0x80 = 0
    · simp only [hb, if_true]
      exact ⟨_, rfl, rfl, Nat.le_succ pos, by simp, by simpa using hlt⟩
    · by_cases hshift : shift + 7 ≥ 35
      · simp only [hb, hshift, if_true, if_false]
        exact ⟨_, rfl, rfl, Nat.le_succ pos, by simp, by simpa using hlt⟩
      · obtain ⟨scan, hscan, hread, hpos, hreads, hin⟩ :=
          ih (result ||| ((data pos &&& 0x7F).toUInt32 <<< shift)) (shift + 7) (pos + 1) (by omega)
        simp only [hb, hshift, if_false, hscan]
        refine ⟨_, rfl, hread, Nat.le_of_succ_le hpos, ?_, ?_⟩
        · have hsize : scan.pos - pos = (scan.pos - (pos + 1)) + 1 := by omega
          simp only [hreads, hsize, List.range'_succ]
        · intro i hi
          rcases List.mem_cons.mp hi with rfl | hi
          · exact hlt
          · exact hin i hi

/-- `readUVarInt` on memory. -/
def scanUVarInt (data : Nat → UInt8) (len pos : Nat) : Scan := scanLoop data len 0 0 pos

/-- The five-byte varints that hold 2^32 or more: four bytes with the continuation bit, and a
fifth, the last one, above the four bits that are left. -/
def FifthByteOverflows : List UInt8 → Prop
  | b₀ :: b₁ :: b₂ :: b₃ :: b₄ :: _ =>
    128 ≤ b₀.toNat ∧ 128 ≤ b₁.toNat ∧ 128 ≤ b₂.toNat ∧ 128 ≤ b₃.toNat ∧ 16 ≤ b₄.toNat ∧ b₄.toNat < 128
  | _ => False

theorem decode_five {data : List UInt8} {v : Nat} (h : Leb128.decode data = some (v, 5)) :
    2 ^ 32 ≤ v ↔ FifthByteOverflows data := by
  obtain ⟨b₀, rest, v₁, rfl, hb₀, rfl, h₁⟩ := Leb128.decode_longer h
  obtain ⟨b₁, rest, v₂, rfl, hb₁, rfl, h₂⟩ := Leb128.decode_longer h₁
  obtain ⟨b₂, rest, v₃, rfl, hb₂, rfl, h₃⟩ := Leb128.decode_longer h₂
  obtain ⟨b₃, rest, v₄, rfl, hb₃, rfl, h₄⟩ := Leb128.decode_longer h₃
  obtain ⟨b₄, rest, rfl, hb₄, rfl⟩ := Leb128.decode_one h₄
  simp only [FifthByteOverflows]
  omega

theorem fifthByteOverflows_decode {data : List UInt8} (h : FifthByteOverflows data) :
    ∃ v, Leb128.decode data = some (v, 5) := by
  match data, h with
  | b₀ :: b₁ :: b₂ :: b₃ :: b₄ :: rest, h =>
    obtain ⟨h₀, h₁, h₂, h₃, -, h₄⟩ := h
    rw [Leb128.decode_more (by omega), Leb128.decode_more (by omega), Leb128.decode_more (by omega),
      Leb128.decode_more (by omega), Leb128.decode_last h₄]
    exact ⟨_, rfl⟩

/-- The LEB128 value of the consumed bytes, over unbounded integers, is the value returned. -/
def ReadsExactly (data : List UInt8) : Prop :=
  ∀ value size, readUVarInt data = some (value, size) →
    Leb128.decode (data.take size) = some (value.toNat, size)

theorem readUVarInt_some_iff (data : List UInt8) (value : UInt32) (size : Nat) :
    readUVarInt data = some (value, size)
      ↔ ∃ v, Leb128.decode data = some (v, size) ∧ size ≤ 5 ∧ value = UInt32.ofNat v := by
  rw [readUVarInt_eq, Option.bind_eq_some_iff]
  constructor
  · rintro ⟨⟨v, n⟩, hd, hread⟩
    by_cases hn : n ≤ 5
    · rw [if_pos hn] at hread
      cases hread
      exact ⟨v, hd, hn, rfl⟩
    · rw [if_neg hn] at hread
      cases hread
  · rintro ⟨v, hd, hn, rfl⟩
    exact ⟨(v, size), hd, if_pos hn⟩

theorem readsExactly_iff (data : List UInt8) : ReadsExactly data ↔ ¬FifthByteOverflows data := by
  constructor
  · intro h hover
    obtain ⟨v, hd⟩ := fifthByteOverflows_decode hover
    have hexact := h (UInt32.ofNat v) 5 ((readUVarInt_some_iff ..).mpr ⟨v, hd, by omega, rfl⟩)
    rw [Leb128.decode_take hd] at hexact
    have hv : v = (UInt32.ofNat v).toNat := by
      simpa only [Option.some.injEq, Prod.mk.injEq, and_true] using hexact
    have hbig := (decode_five hd).mpr hover
    have hlt := (UInt32.ofNat v).toNat_lt
    omega
  · intro hover value size hread
    obtain ⟨v, hd, hsize, rfl⟩ := (readUVarInt_some_iff ..).mp hread
    have hv : v < 2 ^ 32 := by
      by_cases h5 : size = 5
      · subst h5
        exact Nat.lt_of_not_le fun hbig => hover ((decode_five hd).mp hbig)
      · have hpow : 128 ^ size ≤ 128 ^ 4 := Nat.pow_le_pow_right (by omega) (by omega)
        have hlt := Leb128.decode_lt hd
        omega
    rw [Leb128.decode_take hd, UInt32.toNat_ofNat', Nat.mod_eq_of_lt hv]

/-- What was written is read back, no index past the end is read, and a value is the one its
bytes denote unless a fifth byte reaches above the 32 bits. -/
theorem codec_exact_iff (value : UInt32) (rest : List UInt8) (data : Nat → UInt8) (len pos : Nat)
    (bytes : List UInt8) :
    (readUVarInt (writeUVarInt value ++ rest) = some (value, (writeUVarInt value).length)
      ∧ (writeUVarInt value).length ≤ 5)
    ∧ ((∀ i ∈ (scanUVarInt data len pos).reads, i < len)
      ∧ readLoop 0 0 pos (bytesFrom data len pos)
        = (scanUVarInt data len pos).out.map (·, (scanUVarInt data len pos).pos))
    ∧ (ReadsExactly bytes ↔ ¬FifthByteOverflows bytes) := by
  obtain ⟨scan, hscan, hread, -, -, hin⟩ := scanLoop_eq data len 0 0 pos
  refine ⟨⟨readUVarInt_writeUVarInt value rest, length_writeUVarInt_le value⟩, ?_, readsExactly_iff bytes⟩
  rw [scanUVarInt, hscan]
  exact ⟨hin, hread⟩

/-- `80 80 80 80 10` denotes 2^32 and is read as 0. -/
theorem overlong_read_as_zero : ¬∀ data, ReadsExactly data := by
  intro h
  have hread : readUVarInt [0x80, 0x80, 0x80, 0x80, 0x10] = some (0, 5) := by decide
  have hexact := h _ 0 5 hread
  revert hexact
  decide

/-! ## Header round trip -/

/-- The header number of an edit: each field cut to its width, one above the other. -/
def rawOf (edit : PacketEdit) : Nat :=
  edit.packetId.toUInt32.toNat % 1024 + 1024 * (edit.senderSubId.toNat % 4) + 4096 * (edit.targetSubId.toNat % 4)

theorem rawOf_lt (edit : PacketEdit) : rawOf edit < 16384 := by
  simp only [rawOf]
  omega

theorem masked_subId (v : UInt8) : (v.toUInt32 &&& kSubIdMask).toNat = v.toNat % 4 := by
  rw [UInt32.toNat_and, UInt8.toNat_toUInt32]
  exact toNat_and_low (n := 2) 3 rfl v.toNat

theorem masked_packetId (v : UInt32) : (v &&& kPacketIdMask).toNat = v.toNat % 1024 := by
  rw [UInt32.toNat_and]
  exact toNat_and_low (n := 10) 1023 rfl v.toNat

theorem encodeHeader_eq (edit : PacketEdit) :
    encodeHeader edit = writeUVarInt (UInt32.ofNat (rawOf edit)) := by
  have hid := masked_packetId edit.packetId.toUInt32
  have hsender := masked_subId edit.senderSubId
  have hlow : (edit.packetId.toUInt32 &&& kPacketIdMask) ||| ((edit.senderSubId.toUInt32 &&& kSubIdMask) <<< 10)
      = UInt32.ofNat (edit.packetId.toUInt32.toNat % 1024 + 1024 * (edit.senderSubId.toNat % 4)) := by
    rw [or_shiftLeft_eq _ _ 10 (by decide) (by rw [hid]; exact Nat.mod_lt _ (by decide)), hid, hsender]
    rfl
  have hval : (UInt32.ofNat (edit.packetId.toUInt32.toNat % 1024 + 1024 * (edit.senderSubId.toNat % 4))).toNat
      = edit.packetId.toUInt32.toNat % 1024 + 1024 * (edit.senderSubId.toNat % 4) := by
    rw [UInt32.toNat_ofNat']
    omega
  have hfits : edit.packetId.toUInt32.toNat % 1024 + 1024 * (edit.senderSubId.toNat % 4) < 4096 := by omega
  simp only [encodeHeader]
  rw [hlow, or_shiftLeft_eq _ _ 12 (by decide) (by rw [hval]; exact hfits), hval, masked_subId]
  rfl

theorem rawOf_field (raw : Nat) (h : raw < 16384) (s : UInt32) (hs : s.toNat < 32) :
    (((UInt32.ofNat raw) >>> s) &&& kSubIdMask).toUInt8.toNat = raw / 2 ^ s.toNat % 4 := by
  rw [UInt32.toNat_toUInt8, UInt32.toNat_and, UInt32.toNat_shiftRight, UInt32.toNat_ofNat', Nat.mod_eq_of_lt hs,
    Nat.mod_eq_of_lt (Nat.lt_trans h (by decide)), Nat.shiftRight_eq_div_pow,
    show kSubIdMask.toNat = 3 from rfl, toNat_and_low (n := 2) 3 rfl]
  omega

/-- Every edit is put back within its own bits: the header decodes to the edit
with each field cut to its width. -/
theorem decodeHeader_encodeHeader (edit : PacketEdit) (rest : List UInt8) :
    decodeHeader (encodeHeader edit ++ rest) = some
      { raw := UInt32.ofNat (rawOf edit),
        packetId := (edit.packetId.toUInt32 &&& kPacketIdMask).toInt32,
        senderSubId := edit.senderSubId &&& 3,
        targetSubId := edit.targetSubId &&& 3,
        size := (encodeHeader edit).length } := by
  have hraw := rawOf_lt edit
  have hval : (UInt32.ofNat (rawOf edit)).toNat = rawOf edit := by
    rw [UInt32.toNat_ofNat', Nat.mod_eq_of_lt (Nat.lt_trans hraw (by decide))]
  have hlow (v : UInt8) : (v &&& 3).toNat = v.toNat % 4 := by
    rw [UInt8.toNat_and]
    exact toNat_and_low (n := 2) 3 rfl v.toNat
  have hid : UInt32.ofNat (rawOf edit) &&& kPacketIdMask = edit.packetId.toUInt32 &&& kPacketIdMask := by
    rw [← UInt32.toNat_inj, masked_packetId, masked_packetId, hval, rawOf]
    omega
  have hsender : (((UInt32.ofNat (rawOf edit)) >>> 10) &&& kSubIdMask).toUInt8 = edit.senderSubId &&& 3 := by
    rw [← UInt8.toNat_inj, rawOf_field _ hraw 10 (by decide), hlow]
    show rawOf edit / 1024 % 4 = _
    rw [rawOf]
    omega
  have htarget : (((UInt32.ofNat (rawOf edit)) >>> 12) &&& kSubIdMask).toUInt8 = edit.targetSubId &&& 3 := by
    rw [← UInt8.toNat_inj, rawOf_field _ hraw 12 (by decide), hlow]
    show rawOf edit / 4096 % 4 = _
    rw [rawOf]
    omega
  rw [decodeHeader, encodeHeader_eq, readUVarInt_writeUVarInt]
  simp only [hid, hsender, htarget]

/-- The fields fit their bits in the header. -/
structure PacketEdit.InRange (edit : PacketEdit) : Prop where
  packetId : 0 ≤ edit.packetId ∧ edit.packetId < 1024
  senderSubId : edit.senderSubId < 4
  targetSubId : edit.targetSubId < 4

def Header.edit (header : Header) : PacketEdit := ⟨header.packetId, header.senderSubId, header.targetSubId⟩

theorem subId_and_three {v : UInt8} (h : v < 4) : v &&& 3 = v := by
  have hv : v.toNat < 4 := UInt8.lt_iff_toNat_lt.mp h
  have hlow : v.toNat &&& 3 = v.toNat % 4 := toNat_and_low (n := 2) 3 rfl v.toNat
  rw [← UInt8.toNat_inj, UInt8.toNat_and]
  show v.toNat &&& 3 = v.toNat
  rw [hlow, Nat.mod_eq_of_lt hv]

theorem packetId_and_mask {v : Int32} (h0 : 0 ≤ v) (h : v < 1024) : (v.toUInt32 &&& kPacketIdMask).toInt32 = v := by
  have hint : v.toInt < 1024 := Int32.lt_iff_toInt_lt.mp h
  have hnat : v.toUInt32.toNat < 1024 := by
    rw [Int32.toNat_toUInt32_of_le h0]
    have := Int32.toInt_eq_toNatClampNeg h0
    omega
  have hmask : v.toUInt32 &&& kPacketIdMask = v.toUInt32 := by
    rw [← UInt32.toNat_inj, masked_packetId, Nat.mod_eq_of_lt hnat]
  rw [hmask, Int32.toInt32_toUInt32]

/-- A header written from fields that fit decodes to these fields. -/
theorem decode_of_inRange {edit : PacketEdit} (h : edit.InRange) (body : List UInt8) :
    ∃ header, decodeHeader (encodeHeader edit ++ body) = some header ∧ header.edit = edit
      ∧ (encodeHeader edit ++ body).drop header.size = body := by
  refine ⟨_, decodeHeader_encodeHeader edit body, ?_, List.drop_left⟩
  simp only [Header.edit, packetId_and_mask h.packetId.1 h.packetId.2, subId_and_three h.senderSubId,
    subId_and_three h.targetSubId]

end PacketHeader
