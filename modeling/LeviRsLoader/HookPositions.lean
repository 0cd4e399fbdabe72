import LeviRsLoader.EventWriteBack
import LeviRsLoader.HookPayload

/-!
# Positions and block cells

How the bridge turns the position of an entity into a block. The protection
hooks cast each coordinate to `int`; `enrichEventData`, the entity half of
`api_scan_region` and the confinement check round it down first. A float is
modelled by the rational it stands for, so both conversions are exact.
-/
namespace HookPositions

open Utf8 HookPayload

structure Vec3 where
  x : Rat
  y : Rat
  z : Rat
  deriving DecidableEq

/-- `static_cast<int>`: the fraction is dropped. -/
def toInt (v : Rat) : Int32 := Int32.ofInt (v.num.tdiv v.den)

/-- `static_cast<int>(std::floor(v))`, the lambda `blockOf` of the confinement check. -/
def blockOf (v : Rat) : Int32 := Int32.ofInt v.floor

/-! ## The hooks -/

structure Player where
  texts : PlayerTexts
  position : Vec3
  dimensionId : Int32

structure Actor where
  typeName : List UInt8
  uniqueId : Int64
  isPlayer : Bool
  position : Vec3
  dimensionId : Int32

def castPlace (pos : Vec3) (dim : Int32) : Place := ⟨toInt pos.x, toInt pos.y, toInt pos.z, dim⟩

/-- The payload of `PlayerPushEntityHook`: the place is the pushed entity's. -/
def pushSnbt (p : Player) (target : Actor) : List UInt8 :=
  playerPushEntityEvent (castPlace target.position target.dimensionId) target.typeName p.texts

/-- `buildSnbt` of `DropItemEvent.cpp`. -/
def dropSnbt (p : Player) (itemName : List UInt8) (randomly viaUi : Bool) : List UInt8 :=
  playerDropItemEvent (castPlace p.position p.dimensionId) randomly viaUi itemName p.texts

/-- `buildSnbt` of `TakeEntityEvent.cpp`; the place is the player's, the entity the one taken. -/
def takeSnbt (p : Player) (taken : Actor) (isItem : Bool) (item : List UInt8) : List UInt8 :=
  playerTakeEntityEvent (castPlace p.position p.dimensionId) taken.typeName taken.uniqueId isItem item p.texts

/-- `buildSnbt` of `ProjectileEvent.cpp`. -/
def projectileSnbt (p : Player) (projectile : List UInt8) (at_ : Vec3) (dim : Int32) : List UInt8 :=
  playerSpawnProjectileEvent (castPlace at_ dim) projectile p.texts

def buildAttackSnbt (self : Player) (actor : Actor) (cause : Int32) : List UInt8 :=
  playerAttackTargetEvent (castPlace actor.position actor.dimensionId) actor.isPlayer actor.typeName cause self.texts

/-! ## The three that round down -/

/-- What `enrichEventData` reads of a live player. -/
def enrichedPlayer (realName xuid uuid : String) (ppos : Vec3) (dim : Int32) : EventWriteBack.Player where
  realName := realName
  xuid := xuid
  uuid := uuid
  x := blockOf ppos.x
  y := blockOf ppos.y
  z := blockOf ppos.z
  dimensionId := dim

structure Box where
  x₁ : Int32
  y₁ : Int32
  z₁ : Int32
  x₂ : Int32
  y₂ : Int32
  z₂ : Int32

/-- The body of the loop over `getRuntimeActorList`: the cell handed to the sink, if any. -/
def scanEntity (dimension : Int32) (b : Box) (actor : Actor) : Option (Int32 × Int32 × Int32) :=
  if actor.dimensionId ≠ dimension then none
  else
    let ex := blockOf actor.position.x
    let ey := blockOf actor.position.y
    let ez := blockOf actor.position.z
    if ex < min b.x₁ b.x₂ ∨ ex > max b.x₁ b.x₂ ∨ ey < min b.y₁ b.y₂ ∨ ey > max b.y₁ b.y₂ ∨
      ez < min b.z₁ b.z₂ ∨ ez > max b.z₁ b.z₂ then none
    else some (ex, ey, ez)

/-- `fx` and `fz` of `PlotConfineActorMoveHook`: the column the actor stands in. -/
def confinedColumn (position : Vec3) : Int32 × Int32 := (blockOf position.x, blockOf position.z)

/-! ## What they should name -/

/-- The block holds the position. -/
structure Contains (b : Place) (pos : Vec3) : Prop where
  x : (b.x.toInt : Rat) ≤ pos.x ∧ pos.x < b.x.toInt + 1
  y : (b.y.toInt : Rat) ≤ pos.y ∧ pos.y < b.y.toInt + 1
  z : (b.z.toInt : Rat) ≤ pos.z ∧ pos.z < b.z.toInt + 1

/-- A report of one of the hooks, with everything it is made from. -/
inductive Report where
  | push (p : Player) (target : Actor)
  | drop (p : Player) (itemName : List UInt8) (randomly viaUi : Bool)
  | take (p : Player) (taken : Actor) (isItem : Bool) (item : List UInt8)
  | projectile (p : Player) (name : List UInt8) (at_ : Vec3) (dim : Int32)
  | attack (self : Player) (actor : Actor) (cause : Int32)

/-- The position the report is about. -/
def Report.position : Report → Vec3
  | .push _ target => target.position
  | .drop p _ _ _ => p.position
  | .take p _ _ _ => p.position
  | .projectile _ _ at_ _ => at_
  | .attack _ actor _ => actor.position

def Report.dimension : Report → Int32
  | .push _ target => target.dimensionId
  | .drop p _ _ _ => p.dimensionId
  | .take p _ _ _ => p.dimensionId
  | .projectile _ _ _ dim => dim
  | .attack _ actor _ => actor.dimensionId

/-- The payload the hook dispatches. -/
def Report.snbt : Report → List UInt8
  | .push p target => pushSnbt p target
  | .drop p itemName randomly viaUi => dropSnbt p itemName randomly viaUi
  | .take p taken isItem item => takeSnbt p taken isItem item
  | .projectile p name at_ dim => projectileSnbt p name at_ dim
  | .attack self actor cause => buildAttackSnbt self actor cause

/-- The payload the hook would dispatch if it named `b`. -/
def Report.snbtAt (b : Place) : Report → List UInt8
  | .push p target => playerPushEntityEvent b target.typeName p.texts
  | .drop p itemName randomly viaUi => playerDropItemEvent b randomly viaUi itemName p.texts
  | .take p taken isItem item => playerTakeEntityEvent b taken.typeName taken.uniqueId isItem item p.texts
  | .projectile p name _ _ => playerSpawnProjectileEvent b name p.texts
  | .attack self actor cause => playerAttackTargetEvent b actor.isPlayer actor.typeName cause self.texts

/-- The payload, the enriched event, the region scan and the confinement check all name the block that
holds the position. -/
def NamesItsBlock (r : Report) : Prop :=
  ∃ b : Place, Contains b r.position ∧ b.dim = r.dimension ∧ r.snbt = r.snbtAt b ∧
    (∀ realName xuid uuid, (enrichedPlayer realName xuid uuid r.position r.dimension).x = b.x ∧
      (enrichedPlayer realName xuid uuid r.position r.dimension).y = b.y ∧
      (enrichedPlayer realName xuid uuid r.position r.dimension).z = b.z) ∧
    (∀ dimension box, ∀ actor : Actor, actor.position = r.position → ∀ cell,
      scanEntity dimension box actor = some cell → cell = (b.x, b.y, b.z)) ∧
    confinedColumn r.position = (b.x, b.z)

/-- The coordinate has a block coordinate of 32 bits. -/
def InRange (v : Rat) : Prop := -2147483648 ≤ v ∧ v < 2147483648

instance (v : Rat) : Decidable (InRange v) := inferInstanceAs (Decidable (_ ∧ _))

/-- Dropping the fraction rounds down. -/
def CastsDown (v : Rat) : Prop := 0 ≤ v ∨ v.den = 1

/-! ## Rounding -/

/-- The truncated quotient is the rounded one, or one more. -/
theorem toInt_eq (v : Rat) :
    v.num.tdiv v.den = v.floor + if 0 ≤ v.num ∨ (v.den : Int) ∣ v.num then 0 else 1 := by
  have hsign : (v.den : Int).sign = 1 := Int.sign_eq_one_of_pos (by exact_mod_cast v.den_pos)
  rw [Rat.floor_def, Int.tdiv_eq_ediv, hsign]

theorem castsDown_iff (v : Rat) : CastsDown v ↔ 0 ≤ v.num ∨ (v.den : Int) ∣ v.num := by
  have hdvd : v.den = 1 ↔ (v.den : Int) ∣ v.num := by
    constructor
    · intro h
      rw [h]
      exact one_dvd _
    · intro h
      have hn : v.den ∣ v.num.natAbs := Int.natCast_dvd.mp h
      exact Nat.eq_one_of_dvd_coprimes v.reduced hn dvd_rfl
  rw [CastsDown, hdvd, Rat.num_nonneg]

theorem ofInt_add_one_ne (n : Int) : Int32.ofInt (n + 1) ≠ Int32.ofInt n := by
  intro h
  rw [Int32.ofInt_add] at h
  simp at h

theorem toInt_eq_blockOf_iff (v : Rat) : toInt v = blockOf v ↔ CastsDown v := by
  rw [castsDown_iff, toInt, blockOf, toInt_eq]
  split_ifs with h
  · simp only [h, Int.add_zero]
  · simp only [h, ofInt_add_one_ne]

theorem floor_eq_of_contains {v : Rat} {n : Int} (h : (n : Rat) ≤ v ∧ v < n + 1) : v.floor = n := by
  have hle := Rat.le_floor_iff.mpr h.1
  have hlt : v.floor < n + 1 := Rat.floor_lt_iff.mpr (by exact_mod_cast h.2)
  omega

theorem toInt_blockOf {v : Rat} (h : InRange v) : (blockOf v).toInt = v.floor := by
  have hl : -2147483648 ≤ v.floor := Rat.le_floor_iff.mpr (by exact_mod_cast h.1)
  have hh : v.floor < 2147483648 := Rat.floor_lt_iff.mpr (by exact_mod_cast h.2)
  exact Int32.toInt_ofInt_of_le (by omega) (by omega)

theorem blockOf_contains {v : Rat} (h : InRange v) :
    ((blockOf v).toInt : Rat) ≤ v ∧ v < (blockOf v).toInt + 1 := by
  rw [toInt_blockOf h]
  exact ⟨Rat.floor_le v, by exact_mod_cast Rat.lt_floor_add_one v⟩

theorem eq_blockOf {v : Rat} {b : Int32} (h : (b.toInt : Rat) ≤ v ∧ v < b.toInt + 1) : b = blockOf v := by
  rw [blockOf, floor_eq_of_contains h, Int32.ofInt_toInt]

/-! ## What a payload names -/

theorem comma_notMem (v : Int) : byteOf ',' ∉ encode (Decimal.print v) := by
  intro h
  obtain ⟨c, hc, hb⟩ := List.mem_flatMap.mp h
  have hascii : isAscii c = true := by
    rcases Decimal.mem_print hc with rfl | hd
    · rfl
    · simp [Char.isDigit, UInt32.le_iff_toNat_le] at hd
      simp [isAscii]
      omega
  rw [encodeChar_ascii hascii, List.mem_singleton] at hb
  have hcomma : ',' = c := (byteOf_inj (by decide) hascii).mp hb
  rcases Decimal.mem_print hc with rfl | hd
  · exact absurd hcomma (by decide)
  · rw [← hcomma] at hd
    exact absurd hd (by decide)

/-- Two texts that go on with a separator neither of them holds. -/
theorem append_cons_inj {α : Type} {c : α} {x y s t : List α} (hx : c ∉ x) (hy : c ∉ y)
    (h : x ++ c :: s = y ++ c :: t) : x = y ∧ s = t := by
  induction x generalizing y with
  | nil =>
    cases y with
    | nil => exact ⟨rfl, (List.cons.inj h).2⟩
    | cons b y => exact absurd (List.cons.inj h).1 (fun hc => hy (hc ▸ List.mem_cons_self))
  | cons a x ih =>
    cases y with
    | nil => exact absurd (List.cons.inj h).1 (fun hc => hx (hc ▸ List.mem_cons_self))
    | cons b y =>
      obtain ⟨rfl, htail⟩ := List.cons.inj h
      obtain ⟨rfl, hst⟩ := ih (fun hc => hx (.tail a hc)) (fun hc => hy (.tail a hc)) htail
      exact ⟨rfl, hst⟩

theorem print_comma {v w : Int32} {s t : List UInt8}
    (h : encode (Decimal.print v.toInt) ++ byteOf ',' :: s = encode (Decimal.print w.toInt) ++ byteOf ',' :: t) :
    v = w ∧ s = t := by
  obtain ⟨hvw, hst⟩ := append_cons_inj (comma_notMem _) (comma_notMem _) h
  refine ⟨?_, hst⟩
  have hprint : Decimal.print v.toInt = Decimal.print w.toInt := by
    simpa [decode_encode] using congrArg decode hvw
  have hint : v.toInt = w.toInt := by
    simpa [Decimal.parseInt_print] using congrArg Decimal.parseInt hprint
  exact Int32.toInt_inj.mp hint

/-- A payload determines the block it names. -/
theorem place_of_hookSnbt {eventId : String} {a b : Place} {rest : List (String × Field)} {p : PlayerTexts}
    (h : hookSnbt eventId (a.fields ++ rest) p = hookSnbt eventId (b.fields ++ rest) p) :
    a.x = b.x ∧ a.y = b.y ∧ a.z = b.z := by
  have hcomma : encode [','] = [byteOf ','] := rfl
  simp only [hookSnbt, braced, Place.fields, List.map_cons, List.flatMap_cons, List.cons_append, List.nil_append, entry,
    List.append_assoc, List.append_cancel_left_eq, hcomma] at h
  obtain ⟨hx, h⟩ := print_comma (List.append_cancel_left (List.cons.inj h).2)
  obtain ⟨hy, h⟩ := print_comma (List.append_cancel_left h)
  obtain ⟨hz, -⟩ := print_comma (List.append_cancel_left h)
  exact ⟨hx, hy, hz⟩

theorem Report.snbt_eq (r : Report) : r.snbt = r.snbtAt (castPlace r.position r.dimension) := by
  cases r <;> rfl

theorem Report.snbtAt_inj (r : Report) {a b : Place} (h : r.snbtAt a = r.snbtAt b) :
    a.x = b.x ∧ a.y = b.y ∧ a.z = b.z := by
  cases r <;> exact place_of_hookSnbt h

theorem scanEntity_cell {dimension : Int32} {box : Box} {actor : Actor} {cell : Int32 × Int32 × Int32}
    (h : scanEntity dimension box actor = some cell) :
    cell = (blockOf actor.position.x, blockOf actor.position.y, blockOf actor.position.z) := by
  simp only [scanEntity] at h
  split_ifs at h
  exact (Option.some.inj h).symm

/-- The three that round down name the block that holds the position. -/
theorem contains_blockOf {pos : Vec3} (hx : InRange pos.x) (hy : InRange pos.y) (hz : InRange pos.z) (dim : Int32) :
    Contains ⟨blockOf pos.x, blockOf pos.y, blockOf pos.z, dim⟩ pos :=
  ⟨blockOf_contains hx, blockOf_contains hy, blockOf_contains hz⟩

theorem namesItsBlock_iff (r : Report) (hx : InRange r.position.x) (hy : InRange r.position.y)
    (hz : InRange r.position.z) :
    NamesItsBlock r ↔ CastsDown r.position.x ∧ CastsDown r.position.y ∧ CastsDown r.position.z := by
  simp only [← toInt_eq_blockOf_iff]
  constructor
  · rintro ⟨b, hb, -, hsnbt, -⟩
    rw [r.snbt_eq] at hsnbt
    obtain ⟨hbx, hby, hbz⟩ := r.snbtAt_inj hsnbt
    exact ⟨hbx.trans (eq_blockOf hb.x), hby.trans (eq_blockOf hb.y), hbz.trans (eq_blockOf hb.z)⟩
  · rintro ⟨hcx, hcy, hcz⟩
    refine ⟨_, contains_blockOf hx hy hz r.dimension, rfl, ?_, fun _ _ _ => ⟨rfl, rfl, rfl⟩, ?_, rfl⟩
    · rw [r.snbt_eq, castPlace, hcx, hcy, hcz]
    · rintro dimension box actor hactor cell hcell
      rw [scanEntity_cell hcell, hactor]

/-- A player half a block west of the axis. -/
def westPlayer : Player := ⟨⟨[], [], []⟩, ⟨-1 / 2, 64, 1 / 2⟩, 0⟩

theorem namesItsBlock_east :
    NamesItsBlock (.drop { westPlayer with position := ⟨1 / 2, 64, -3⟩ } [] false false) ↔
      CastsDown (1 / 2) ∧ CastsDown 64 ∧ CastsDown (-3) :=
  namesItsBlock_iff (.drop { westPlayer with position := ⟨1 / 2, 64, -3⟩ } [] false false)
    (by decide +kernel) (by decide +kernel) (by decide +kernel)

/-- West of the axis a drop names the block on the other side. -/
theorem west_drop_names_other_block :
    ¬∀ r : Report, InRange r.position.x → InRange r.position.y → InRange r.position.z → NamesItsBlock r := by
  intro h
  have hnames := h (.drop westPlayer [] false false) (by decide +kernel) (by decide +kernel) (by decide +kernel)
  obtain ⟨b, hb, -, hsnbt, -⟩ := hnames
  have hcast := (Report.snbtAt_inj (.drop westPlayer [] false false) hsnbt).1
  have hfloor := eq_blockOf hb.x
  rw [← hcast] at hfloor
  exact absurd hfloor (by decide +kernel)

end HookPositions
