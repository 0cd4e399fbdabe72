import LeviRsLoader.StructureListing

/-!
# Setting biomes

`api_level_set_biome` goes through the columns between two corners and sets each of them in the chunk it is
in, at its place there, unless the chunk is not loaded.
-/
namespace BiomeFill

open RegionScan (rangeInclusive mem_rangeInclusive nodup_rangeInclusive)

variable {B : Type}

/-- The biomes of a chunk by `ChunkBlockPos::from2D`. -/
abbrev LevelChunk (B : Type) := UInt8 × UInt8 → B

/-- The loaded chunks of a dimension by their coordinates. -/
abbrev BlockSource (B : Type) := Int32 × Int32 → Option (LevelChunk B)

structure World (B : Type) where
  levelReady : Bool
  lookupByName : List UInt8 → Option B
  blockSourceOf : Int32 → Option (BlockSource B)

/-- The chunk of a column. -/
def chunkOf (x z : Int32) : Int32 × Int32 := (x >>> 4, z >>> 4)

def from2D (x z : Int32) : UInt8 × UInt8 := ((x &&& 15).toUInt32.toUInt8, (z &&& 15).toUInt32.toUInt8)

/-- One turn of the inner loop. -/
def setColumn (target : B) (s : Int32 × BlockSource B) (x z : Int32) : Int32 × BlockSource B :=
  match s.2 (chunkOf x z) with
  | none => s
  | some chunk =>
    (s.1 + 1, Function.update s.2 (chunkOf x z) (some (Function.update chunk (from2D x z) target)))

/-- The answer, and the world after the call. -/
def api_level_set_biome (w : World B) (dim minX minZ maxX maxZ : Int32) (name : List UInt8) : Int32 × World B :=
  match w.blockSourceOf dim with
  | none => (0, w)
  | some bs =>
    if name = [] then (0, w)
    else if !w.levelReady then (0, w)
    else
      match w.lookupByName name with
      | none => (0, w)
      | some target =>
        let (minX, maxX) := if minX > maxX then (maxX, minX) else (minX, maxX)
        let (minZ, maxZ) := if minZ > maxZ then (maxZ, minZ) else (minZ, maxZ)
        let (done, bs) := (rangeInclusive minX maxX).foldl (fun s x =>
          (rangeInclusive minZ maxZ).foldl (fun s z => setColumn target s x z) s) (0, bs)
        (done, { w with blockSourceOf := Function.update w.blockSourceOf dim (some bs) })

/-- The biome of a column, where its chunk is loaded. -/
def biomeAt (bs : BlockSource B) (x z : Int32) : Option B := (bs (chunkOf x z)).map fun chunk => chunk (from2D x z)

/-! ## One column -/

theorem toNat_and_fifteen (v : Int32) : ((v &&& 15).toUInt32.toUInt8.toNat : Int) = v.toInt % 16 := by
  have hand : (v &&& 15).toBitVec = v.toBitVec &&& 15#32 := rfl
  have hnat : (v &&& 15).toUInt32.toUInt8.toNat = v.toBitVec.toNat % 16 := by
    have : (v &&& 15).toUInt32.toUInt8.toNat = (v &&& 15).toBitVec.toNat % 256 := rfl
    rw [this, hand, BitVec.toNat_and, show (15#32).toNat = 2 ^ 4 - 1 from rfl, Nat.and_two_pow_sub_one_eq_mod]
    omega
  rw [hnat, ← Int32.toInt_toBitVec, BitVec.toInt_eq_toNat_bmod, Int.bmod_def]
  split <;> omega

/-- A column is told by its chunk and its place there. -/
theorem place_inj {v v' : Int32} (hchunk : v >>> 4 = v' >>> 4)
    (hplace : (v &&& 15).toUInt32.toUInt8 = (v' &&& 15).toUInt32.toUInt8) : v = v' := by
  have hdiv : v.toInt / 16 = v'.toInt / 16 := by
    rw [← StructureListing.toInt_shiftRight_four, ← StructureListing.toInt_shiftRight_four, hchunk]
  have hmod : v.toInt % 16 = v'.toInt % 16 := by
    rw [← toNat_and_fifteen, ← toNat_and_fifteen, hplace]
  refine Int32.toInt_inj.mp ?_
  omega

section Column

variable {target : B} {s : Int32 × BlockSource B} {x z x' z' : Int32}

theorem column_inj (hchunk : chunkOf x z = chunkOf x' z') (hplace : from2D x z = from2D x' z') : x = x' ∧ z = z' :=
  ⟨place_inj (congrArg Prod.fst hchunk) (congrArg Prod.fst hplace),
    place_inj (congrArg Prod.snd hchunk) (congrArg Prod.snd hplace)⟩

/-- A turn sets its own column, if its chunk is loaded, and leaves all others alone. -/
theorem biomeAt_setColumn :
    biomeAt (setColumn target s x z).2 x' z'
      = if x' = x ∧ z' = z then (biomeAt s.2 x z).map fun _ => target else biomeAt s.2 x' z' := by
  unfold setColumn
  cases hl : s.2 (chunkOf x z) with
  | none =>
    dsimp only
    split_ifs with hsame
    · obtain ⟨rfl, rfl⟩ := hsame
      simp [biomeAt, hl]
    · rfl
  | some chunk =>
    dsimp only [biomeAt]
    by_cases hchunk : chunkOf x' z' = chunkOf x z
    · rw [hchunk, Function.update_self, hl]
      by_cases hplace : from2D x' z' = from2D x z
      · obtain ⟨rfl, rfl⟩ := column_inj hchunk hplace
        simp
      · have hne : ¬(x' = x ∧ z' = z) := by
          rintro ⟨rfl, rfl⟩
          exact hplace rfl
        simp [hplace, hne]
    · have hne : ¬(x' = x ∧ z' = z) := by
        rintro ⟨rfl, rfl⟩
        exact hchunk rfl
      rw [Function.update_of_ne hchunk, if_neg hne]

/-- It counts exactly then. -/
theorem count_setColumn :
    (setColumn target s x z).1 = s.1 + if (biomeAt s.2 x z).isSome then 1 else 0 := by
  unfold setColumn biomeAt
  cases s.2 (chunkOf x z) with
  | none => simp
  | some chunk => simp

theorem isSome_setColumn : (biomeAt (setColumn target s x z).2 x' z').isSome = (biomeAt s.2 x' z').isSome := by
  rw [biomeAt_setColumn]
  split_ifs with hsame
  · obtain ⟨rfl, rfl⟩ := hsame
    rw [Option.isSome_map]
  · rfl

end Column

/-! ## The whole area -/

section Area

variable {target : B}

/-- The columns in the order they are walked. -/
def columns (minX minZ maxX maxZ : Int32) : List (Int32 × Int32) :=
  rangeInclusive minX maxX ×ˢ rangeInclusive minZ maxZ

/-- `v` is between two ends, whichever of them is the lower one. -/
def Between (a b v : Int32) : Prop := min a b ≤ v ∧ v ≤ max a b

instance (a b v : Int32) : Decidable (Between a b v) := inferInstanceAs (Decidable (_ ∧ _))

/-- A loop up to the greatest `int` would go on past it. -/
def LoopEnds (a b : Int32) : Prop := a < 2147483647 ∧ b < 2147483647

/-- After `std::swap` the ends are in order. -/
theorem swap_eq (a b : Int32) : (if a > b then (b, a) else (a, b)) = (min a b, max a b) := by
  have hmin : min a b = if a ≤ b then a else b := rfl
  have hmax : max a b = if a ≤ b then b else a := rfl
  rw [hmin, hmax]
  by_cases h : a ≤ b
  · rw [if_neg (Int32.not_lt.mpr h), if_pos h, if_pos h]
  · rw [if_pos (Int32.not_le.mp h), if_neg h, if_neg h]

theorem mem_columns {minX minZ maxX maxZ : Int32} {p : Int32 × Int32} :
    p ∈ columns (min minX maxX) (min minZ maxZ) (max minX maxX) (max minZ maxZ)
      ↔ Between minX maxX p.1 ∧ Between minZ maxZ p.2 := by
  rw [columns, List.mem_product, mem_rangeInclusive, mem_rangeInclusive]
  rfl

variable (target) in
theorem foldl_setColumn (l : List (Int32 × Int32)) (s : Int32 × BlockSource B) :
    (∀ x z, biomeAt (l.foldl (fun s p => setColumn target s p.1 p.2) s).2 x z
        = if (x, z) ∈ l then (biomeAt s.2 x z).map fun _ => target else biomeAt s.2 x z)
      ∧ (l.foldl (fun s p => setColumn target s p.1 p.2) s).1
        = s.1 + Int32.ofNat (l.countP fun p => (biomeAt s.2 p.1 p.2).isSome) := by
  induction l generalizing s with
  | nil => simp
  | cons p l ih =>
    obtain ⟨hbiomes, hcount⟩ := ih (setColumn target s p.1 p.2)
    constructor
    · intro x z
      rw [List.foldl_cons, hbiomes, biomeAt_setColumn]
      by_cases hp : x = p.1 ∧ z = p.2
      · obtain ⟨rfl, rfl⟩ := hp
        simp [Function.comp_def]
      · have hne : (x, z) ≠ p := fun he => hp ⟨congrArg Prod.fst he, congrArg Prod.snd he⟩
        simp only [hp, hne, List.mem_cons, false_or, if_false]
    · rw [List.foldl_cons, hcount, count_setColumn, List.countP_cons]
      simp only [isSome_setColumn]
      split_ifs
      · rw [Int32.ofNat_add, Int32.add_assoc, Int32.add_comm (Int32.ofNat _)]
        rfl
      · simp

/-- With the dimension, the level and the biome there: the columns between the corners, taken in any order,
have the biome where their chunk is loaded, every other column and dimension is as it was, and the answer is
the number of columns that were set. -/
theorem biomes_set {w w' : World B} {dim minX minZ maxX maxZ done : Int32} {name : List UInt8} {bs : BlockSource B}
    (hbs : w.blockSourceOf dim = some bs) (hlevel : w.levelReady = true) (hname : name ≠ [])
    (htarget : w.lookupByName name = some target) (_ : LoopEnds minX maxX) (_ : LoopEnds minZ maxZ)
    (h : api_level_set_biome w dim minX minZ maxX maxZ name = (done, w')) :
    (∃ bs', w'.blockSourceOf dim = some bs' ∧ ∀ x z, biomeAt bs' x z =
        if Between minX maxX x ∧ Between minZ maxZ z then (biomeAt bs x z).map fun _ => target else biomeAt bs x z)
      ∧ (∀ d, d ≠ dim → w'.blockSourceOf d = w.blockSourceOf d)
      ∧ ∃ l : List (Int32 × Int32), l.Nodup
        ∧ (∀ p, p ∈ l ↔ (Between minX maxX p.1 ∧ Between minZ maxZ p.2) ∧ (biomeAt bs p.1 p.2).isSome)
        ∧ (l.length < 2147483648 → done.toInt = l.length) := by
  have hwalk : ∀ xs zs : List Int32, xs.foldl (fun s x => zs.foldl (fun s z => setColumn target s x z) s) (0, bs)
      = (xs ×ˢ zs).foldl (fun s p => setColumn target s p.1 p.2) (0, bs) := by
    intro xs zs
    simp only [SProd.sprod, List.product, List.foldl_flatMap, List.foldl_map]
  simp only [api_level_set_biome, hbs, hname, hlevel, htarget, swap_eq, hwalk, Bool.not_true, Bool.false_eq_true,
    if_false] at h
  rw [← columns] at h
  obtain ⟨rfl, rfl⟩ := Prod.mk.inj h
  obtain ⟨hbiomes, hcount⟩ := foldl_setColumn target
    (columns (min minX maxX) (min minZ maxZ) (max minX maxX) (max minZ maxZ)) (0, bs)
  refine ⟨⟨_, Function.update_self .., fun x z => ?_⟩, fun d hd => Function.update_of_ne hd .., ?_⟩
  · rw [hbiomes]
    simp only [mem_columns]
  · refine ⟨(columns (min minX maxX) (min minZ maxZ) (max minX maxX) (max minZ maxZ)).filter
      fun p => (biomeAt bs p.1 p.2).isSome, ?_, fun p => ?_, fun hlength => ?_⟩
    · exact ((nodup_rangeInclusive _ _).product (nodup_rangeInclusive _ _)).filter _
    · rw [List.mem_filter, mem_columns]
    · rw [hcount, List.countP_eq_length_filter]
      simp only [Int32.zero_add]
      exact Int32.toInt_ofNat_of_lt hlength

end Area

/-! ## An instance -/

/-- Only the chunk at the origin is loaded. -/
def exampleChunks : BlockSource Nat := fun c => if c = (0, 0) then some fun _ => 1 else none

/-- The registry knows biome 7 by the name "p". -/
def exampleWorld : World Nat :=
  ⟨true, fun name => if name = [112] then some 7 else none, fun dim => if dim = 0 then some exampleChunks else none⟩

/-- Across the edge of the chunk, with the corners the wrong way round. -/
theorem biomes_set_edge :
    ∃ bs', (api_level_set_biome exampleWorld 0 17 0 14 0 [112]).2.blockSourceOf 0 = some bs'
      ∧ biomeAt bs' 15 0 = some 7 ∧ biomeAt bs' 16 0 = none ∧ biomeAt bs' 13 0 = some 1 := by
  have hchunks : exampleWorld.blockSourceOf 0 = some exampleChunks := rfl
  have hregistry : exampleWorld.lookupByName [112] = some 7 := rfl
  have hx : LoopEnds 17 14 := ⟨by decide, by decide⟩
  have hz : LoopEnds 0 0 := ⟨by decide, by decide⟩
  obtain ⟨⟨bs', hbs, hbiomes⟩, -, -⟩ := biomes_set hchunks rfl (List.cons_ne_nil _ _) hregistry hx hz rfl
  exact ⟨bs', hbs, by rw [hbiomes]; decide, by rw [hbiomes]; decide, by rw [hbiomes]; decide⟩

end BiomeFill
