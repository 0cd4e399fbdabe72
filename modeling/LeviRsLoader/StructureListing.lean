import Mathlib.Data.List.ProdSigma
import LeviRsLoader.CommandArguments
import LeviRsLoader.ChunksLoaded
import LeviRsLoader.NativeTexts
import LeviRsLoader.RegionScan

/-!
# Structures near a block

`api_structures_near` walks the chunks of the square around a block and prints each spawning area kept in
a loaded one; the Rust side parses every line back, `bounds` and their two corners nested in it.
-/
namespace StructureListing

open Nbt HookPayload CommandForms
open ChunksLoaded (BlockPos Touches)
open HookCancel (get r)
open NativeTexts (as_str)
open RegionScan (rangeInclusive)
open Utf8

inductive HardcodedSpawnAreaType where
  | None
  | NetherFortress
  | WitchHut
  | OceanMonument
  | VillageDeprecated
  | PillagerOutpost
  | NewVillageDeprecated
  deriving DecidableEq

def hsaTypeName : HardcodedSpawnAreaType → String
  | .NetherFortress => "nether_fortress"
  | .WitchHut => "witch_hut"
  | .OceanMonument => "ocean_monument"
  | .PillagerOutpost => "pillager_outpost"
  | .VillageDeprecated | .NewVillageDeprecated => "village_deprecated"
  | .None => "none"

/-- A spawning area of a chunk, with the corners of its `aabb`. -/
structure SpawningArea where
  type : HardcodedSpawnAreaType
  min : BlockPos
  max : BlockPos

/-- The spawning areas of the chunks of a dimension that are loaded. -/
abbrev Region := Int32 → Int32 → Option (List SpawningArea)

def cornerText (p : BlockPos) : List UInt8 :=
  num p.x.toInt ++ ascii "," ++ num p.y.toInt ++ ascii "," ++ num p.z.toInt

def areaText (a : SpawningArea) : List UInt8 :=
  ascii "\x7b\"type\":\"" ++ ascii (hsaTypeName a.type) ++ ascii "\",\"bounds\":\x7b\"min\":[" ++ cornerText a.min ++
    ascii "],\"max\":[" ++ cornerText a.max ++ ascii "]\x7d\x7d"

/-- What the sink is given; `dims` has the dimensions that are there, in a level that is. -/
def api_structures_near (dims : Int32 → Option Region) (dimension x z radius : Int32) : List (List UInt8) :=
  if radius < 0 then []
  else
    match dims dimension with
    | none => []
    | some region =>
      (rangeInclusive ((x - radius) >>> 4) ((x + radius) >>> 4)).flatMap fun cx =>
        (rangeInclusive ((z - radius) >>> 4) ((z + radius) >>> 4)).flatMap fun cz =>
          match region cx cz with
          | none => []
          | some areas => areas.map areaText

structure Bounds where
  min : BlockPos
  max : BlockPos
  deriving DecidableEq

structure StructureInfo where
  kind : String
  bounds : Bounds
  deriving DecidableEq

def as_list : NbtValue → Option (List NbtValue)
  | .list items => some items
  | _ => none

def triple_i64 (F : Floats) (v : NbtValue) : Option BlockPos := do
  let l ← as_list v
  let x ← l[0]?.bind (NbtValue.as_i64 F)
  let y ← l[1]?.bind (NbtValue.as_i64 F)
  let z ← l[2]?.bind (NbtValue.as_i64 F)
  some ⟨x.toInt32, y.toInt32, z.toInt32⟩

def parse_bounds (F : Floats) (v : NbtValue) : Option Bounds := do
  let lo ← (get "min" v).bind (triple_i64 F)
  let hi ← (get "max" v).bind (triple_i64 F)
  some ⟨lo, hi⟩

def StructureInfo.from_snbt (F : Floats) (snbt : String) : Option StructureInfo := do
  let v ← (NbtValue.parse F snbt).toOption
  let kind ← (get "type" v).bind as_str
  let bounds ← (get "bounds" v).bind (parse_bounds F)
  some ⟨kind, bounds⟩

def structures_near (F : Floats) (dims : Int32 → Option Region) (dim x z radius : Int32) : List StructureInfo :=
  (api_structures_near dims dim x z radius).filterMap fun s => StructureInfo.from_snbt F (r s)

/-! ## One line -/

section Line

variable {F : Floats}

def cornerEntry (key : String) (p : BlockPos) : Entry :=
  ⟨key, '[' :: (writeSep (fun v : Int32 => Decimal.print v.toInt) true [p.x, p.y, p.z] ++ [']']),
    .list [.int p.x, .int p.y, .int p.z]⟩

def boundsEntry (a : SpawningArea) : Entry :=
  ⟨"bounds", bracedText [cornerEntry "min" a.min, cornerEntry "max" a.max],
    .compound (mapOf [cornerEntry "min" a.min, cornerEntry "max" a.max])⟩

def typeEntry (a : SpawningArea) : Entry := ⟨"type", write_quoted (hsaTypeName a.type), .string (hsaTypeName a.type)⟩

theorem areaText_eq (a : SpawningArea) : areaText a = encode (bracedText [typeEntry a, boundsEntry a]) := by
  have htype : "\x7b\"type\":\"".toList = '{' :: (write_quoted "type" ++ [':', '"']) := by decide
  have hbounds : "\",\"bounds\":\x7b\"min\":[".toList =
      '"' :: ',' :: (write_quoted "bounds" ++ ':' :: '{' :: (write_quoted "min" ++ [':', '['])) := by decide
  have hmax : "],\"max\":[".toList = ']' :: ',' :: (write_quoted "max" ++ [':', '[']) := by decide
  have hclose : "]\x7d\x7d".toList = [']', '}', '}'] := by decide
  have hcomma : ",".toList = [','] := by decide
  have hquoted : write_quoted (hsaTypeName a.type) = '"' :: ((hsaTypeName a.type).toList ++ ['"']) := by
    cases a.type <;> decide
  simp only [areaText, cornerText, ascii, num, ← encode_append, htype, hbounds, hmax, hclose, hcomma, bracedText,
    Entry.print, entryText, typeEntry, boundsEntry, cornerEntry, writeSep, hquoted, List.append_assoc, List.cons_append,
    List.nil_append, Bool.false_eq_true, ↓reduceIte]

/-- A corner is read as the list of its coordinates. -/
theorem reads_corner (n : Nat) (key : String) (p : BlockPos) :
    ReadsText (value F (n + 2)) (cornerEntry key p).text (cornerEntry key p).value := by
  have hread : Reads F (value F (n + 2)) (.list [.int p.x, .int p.y, .int p.z]) := by
    refine reads_list (fun u hu => ?_) (fun u hu => ?_) rfl
    all_goals
      simp only [List.mem_cons, List.not_mem_nil, or_false] at hu
      rcases hu with rfl | rfl | rfl
    · exact Forms.reads_int n p.x
    · exact Forms.reads_int n p.y
    · exact Forms.reads_int n p.z
    all_goals rfl
  exact hread

theorem reads_bounds (n : Nat) (a : SpawningArea) :
    ReadsText (value F (n + 3)) (boundsEntry a).text (boundsEntry a).value := by
  refine reads_braced _ _ fun u hu => ?_
  simp only [List.mem_cons, List.not_mem_nil, or_false] at hu
  rcases hu with rfl | rfl
  · exact reads_corner n "min" a.min
  · exact reads_corner n "max" a.max

theorem parse_area (a : SpawningArea) : NbtValue.parse F (r (areaText a))
    = .ok (.compound [("bounds", .compound [("max", (cornerEntry "max" a.max).value),
        ("min", (cornerEntry "min" a.min).value)]), ("type", .string (hsaTypeName a.type))]) := by
  have hmap : mapOf [typeEntry a, boundsEntry a] = [("bounds", .compound [("max", (cornerEntry "max" a.max).value),
      ("min", (cornerEntry "min" a.min).value)]), ("type", .string (hsaTypeName a.type))] := by
    simp only [mapOf, typeEntry, boundsEntry, cornerEntry, List.foldl_cons, List.foldl_nil, insertEntry,
      String.reduceLT, ↓reduceIte]
  rw [areaText_eq, ← hmap]
  have hlen : 3 ≤ (bracedText [typeEntry a, boundsEntry a]).length := by
    simp only [bracedText, writeSep, Entry.print, entryText, write_quoted, List.length_cons, List.length_append]
    omega
  refine NativeTexts.parse_braced 3 _ _ hlen fun n u hu => ?_
  simp only [List.mem_cons, List.not_mem_nil, or_false] at hu
  rcases hu with rfl | rfl
  · exact NativeTexts.reads_quoted (n + 2) _
  · exact reads_bounds n a

/-- The area as the Rust side should see it. -/
def SpawningArea.info (a : SpawningArea) : StructureInfo := ⟨hsaTypeName a.type, ⟨a.min, a.max⟩⟩

theorem triple_corner (key : String) (p : BlockPos) : triple_i64 F (cornerEntry key p).value = some p := by
  have hread : triple_i64 F (cornerEntry key p).value
      = some ⟨p.x.toInt64.toInt32, p.y.toInt64.toInt32, p.z.toInt64.toInt32⟩ := rfl
  rw [hread, Int32.toInt32_toInt64, Int32.toInt32_toInt64, Int32.toInt32_toInt64]

theorem get_first (key : String) (v : NbtValue) (l : List (String × NbtValue)) :
    get key (.compound ((key, v) :: l)) = some v := by
  rw [HookCancel.get, List.lookup_cons_self]

theorem get_second {key other : String} (hne : key ≠ other) (u v : NbtValue) :
    get key (.compound [(other, u), (key, v)]) = some v := by
  rw [HookCancel.get, List.lookup_cons, beq_false_of_ne hne]
  exact List.lookup_cons_self

theorem parse_bounds_corners (lo hi : BlockPos) :
    parse_bounds F (.compound [("max", (cornerEntry "max" hi).value), ("min", (cornerEntry "min" lo).value)])
      = some ⟨lo, hi⟩ := by
  rw [parse_bounds, get_second (by decide), get_first, Option.bind_some, Option.bind_some, triple_corner, triple_corner]
  rfl

theorem from_snbt_area (a : SpawningArea) : StructureInfo.from_snbt F (r (areaText a)) = some a.info := by
  rw [StructureInfo.from_snbt, parse_area, Except.toOption, Option.bind_eq_bind, Option.bind_some,
    get_second (by decide), get_first, Option.bind_some, Option.bind_some, parse_bounds_corners]
  rfl

end Line

/-! ## The square -/

section Square

theorem toInt_shiftRight_four (v : Int32) : (v >>> 4).toInt = v.toInt / 16 := by
  have hshift : (v >>> 4).toBitVec = v.toBitVec.sshiftRight 4 := rfl
  rw [← Int32.toInt_toBitVec, hshift, BitVec.toInt_sshiftRight, Int.shiftRight_eq_div_pow]
  rfl

/-- The blocks within `radius` of `v` are `int`s. -/
def Near (v radius : Int32) : Prop := -2147483648 ≤ v.toInt - radius.toInt ∧ v.toInt + radius.toInt ≤ 2147483647

theorem mem_chunks {v radius c : Int32} (hr : 0 ≤ radius.toInt) (h : Near v radius) :
    c ∈ rangeInclusive ((v - radius) >>> 4) ((v + radius) >>> 4)
      ↔ Touches (v.toInt - radius.toInt) (v.toInt + radius.toInt) c.toInt := by
  obtain ⟨hlo, hhi⟩ := h
  have hsub : (v - radius).toInt = v.toInt - radius.toInt := by
    rw [Int32.toInt_sub, Int.bmod_eq_of_le (by omega) (by omega)]
  have hadd : (v + radius).toInt = v.toInt + radius.toInt := by
    rw [Int32.toInt_add, Int.bmod_eq_of_le (by omega) (by omega)]
  rw [RegionScan.mem_rangeInclusive, Int32.le_iff_toInt_le, Int32.le_iff_toInt_le, toInt_shiftRight_four,
    toInt_shiftRight_four, hsub, hadd, ChunksLoaded.touches_iff (by omega)]

/-- The chunks in the order they are walked. -/
def walked (x z radius : Int32) : List (Int32 × Int32) :=
  rangeInclusive ((x - radius) >>> 4) ((x + radius) >>> 4) ×ˢ rangeInclusive ((z - radius) >>> 4) ((z + radius) >>> 4)

/-- What is kept in the chunk, if it is loaded. -/
def Region.areas (region : Region) (c : Int32 × Int32) : List SpawningArea := (region c.1 c.2).getD []

theorem api_structures_near_eq {dims : Int32 → Option Region} {dim x z radius : Int32} {region : Region}
    (hdim : dims dim = some region) (hr : 0 ≤ radius.toInt) :
    api_structures_near dims dim x z radius = (walked x z radius).flatMap fun c => (region.areas c).map areaText := by
  have hneg : ¬radius < 0 := by
    rw [Int32.not_lt, Int32.le_iff_toInt_le]
    exact hr
  have hchunk (cx cz : Int32) : (match region cx cz with | none => [] | some areas => areas.map areaText)
      = (region.areas (cx, cz)).map areaText := by
    rw [Region.areas]
    cases region cx cz <;> rfl
  simp only [api_structures_near, if_neg hneg, hdim, hchunk, walked, SProd.sprod, List.product, List.flatMap_assoc,
    List.flatMap_map]

theorem structures_near_eq (F : Floats) {dims : Int32 → Option Region} {dim x z radius : Int32} {region : Region}
    (hdim : dims dim = some region) (hr : 0 ≤ radius.toInt) :
    structures_near F dims dim x z radius
      = (walked x z radius).flatMap fun c => (region.areas c).map SpawningArea.info := by
  rw [structures_near, api_structures_near_eq hdim hr, List.filterMap_flatMap]
  refine List.flatMap_congr fun c _ => ?_
  rw [List.filterMap_map, ← List.filterMap_eq_map]
  exact List.filterMap_congr fun a _ => from_snbt_area a

/-- Each chunk that the square meets is walked once, and every area kept in one of them that is
loaded is listed with its type and both corners. -/
theorem structures_listed (F : Floats) {dims : Int32 → Option Region} {dim x z radius : Int32} {region : Region}
    (hdim : dims dim = some region) (hr : 0 ≤ radius.toInt) (hx : Near x radius) (hz : Near z radius) :
    ∃ chunks : List (Int32 × Int32), chunks.Nodup
      ∧ (∀ c, c ∈ chunks ↔ Touches (x.toInt - radius.toInt) (x.toInt + radius.toInt) c.1.toInt
          ∧ Touches (z.toInt - radius.toInt) (z.toInt + radius.toInt) c.2.toInt)
      ∧ structures_near F dims dim x z radius
          = chunks.flatMap fun c => ((region c.1 c.2).getD []).map SpawningArea.info := by
  refine ⟨walked x z radius, ?_, fun c => ?_, structures_near_eq F hdim hr⟩
  · exact (RegionScan.nodup_rangeInclusive _ _).product (RegionScan.nodup_rangeInclusive _ _)
  · obtain ⟨cx, cz⟩ := c
    rw [walked, List.mem_product, mem_chunks hr hx, mem_chunks hr hz]

end Square

/-! ## An instance -/

def exampleHut : SpawningArea := ⟨.WitchHut, ⟨-9, 64, 3⟩, ⟨-3, 70, 9⟩⟩

/-- One chunk is loaded, west of the origin. -/
def exampleRegion : Region := fun cx cz => if cx = -1 ∧ cz = 0 then some [exampleHut] else none

theorem structures_listed_hut :
    ∃ chunks : List (Int32 × Int32), chunks.Nodup
      ∧ (∀ c, c ∈ chunks ↔
        Touches ((0 : Int32).toInt - (8 : Int32).toInt) ((0 : Int32).toInt + (8 : Int32).toInt) c.1.toInt
          ∧ Touches ((5 : Int32).toInt - (8 : Int32).toInt) ((5 : Int32).toInt + (8 : Int32).toInt) c.2.toInt)
      ∧ structures_near CommandRuns.noFloats (fun _ => some exampleRegion) 0 0 5 8
          = chunks.flatMap fun c => ((exampleRegion c.1 c.2).getD []).map SpawningArea.info :=
  structures_listed CommandRuns.noFloats rfl (by decide) (by unfold Near; decide) (by unfold Near; decide)

end StructureListing
