import LeviRsLoader.PlotGenerator

/-!
# One buffer, many generators

The buffer of a thread outlives the generators that use it. `acquireBuffer`
tells them apart by their addresses, so a generator allocated where an earlier
one was destroyed finds the buffer filled for that one. A volume is the
prototype the buffer was refilled with and the blocks the buffer holds.
-/
namespace PlotBuffer

open PlotLayout PlotGenerator

variable {B P : Type}

/-- The buffer and the `BlockVolume` made at its last refill. -/
structure Thread (B P : Type) where
  buf : ThreadBuffer B
  volume : Option P

def Thread.initial : Thread B P := ⟨ThreadBuffer.initial, none⟩

/-- A call of `loadChunk`: the generator's address, what it was constructed from, and the chunk. -/
structure Load (P : Type) where
  this : Nat
  layout : Layout
  mPrototype : P
  cx : Int
  cz : Int

variable (lookupBlock : String → B) (bedrock : String)

def Load.generator (l : Load P) : Generator B := plotGenerator lookupBlock bedrock l.this l.layout

/-- The thread after the call; its volume is the one handed to `setBlockVolume`. -/
def load (l : Load P) (t : Thread B P) : Option (Thread B P) :=
  (loadChunk (l.generator lookupBlock bedrock) l.cx l.cz t.buf).map fun buf =>
    ⟨buf, if t.buf.size ≠ kBufferSize ∨ t.buf.owner ≠ some l.this then some l.mPrototype else t.volume⟩

def afterLoads (loads : List (Load P)) : Option (Thread B P) :=
  loads.foldl (fun t l => t.bind (load lookupBlock bedrock l)) (some Thread.initial)

/-- Two threads hand out the same volume. -/
def SameVolume (t t' : Thread B P) : Prop :=
  t.volume = t'.volume ∧ ∀ i < kColumns, ∀ y, 0 ≤ y → y < kTotalHeight → t.buf.at i y = t'.buf.at i y

/-- The call emits what it would emit over a fresh buffer. -/
def EmitsFresh (l : Load P) (t : Option (Thread B P)) : Prop :=
  ∃ t' fresh, t.bind (load lookupBlock bedrock l) = some t' ∧ load lookupBlock bedrock l Thread.initial = some fresh ∧
    SameVolume t' fresh

/-- Outside the two layers `b` writes, the chunk of `a` has the blocks of `b`'s static fill, and
both have one prototype. -/
def Agrees (a b : Load P) : Prop :=
  a.mPrototype = b.mPrototype ∧ ∀ i < kColumns, ∀ y, 0 ≤ y → y < kTotalHeight →
    y ≠ (b.generator lookupBlock bedrock).mFloorIndexY → y ≠ (b.generator lookupBlock bedrock).mBorderIndexY →
    (a.generator lookupBlock bedrock).block ((a.generator lookupBlock bedrock).columnArea a.cx a.cz i) y =
      (b.generator lookupBlock bedrock).static y

/-- What a call leaves when nothing of earlier ones shows. -/
structure Holds (l : Load P) (t : Thread B P) : Prop where
  size : t.buf.size = kBufferSize
  owner : t.buf.owner = some l.this
  volume : t.volume = some l.mPrototype
  at_eq : ∀ i < kColumns, ∀ y, 0 ≤ y → y < kTotalHeight → t.buf.at i y =
    some ((l.generator lookupBlock bedrock).block ((l.generator lookupBlock bedrock).columnArea l.cx l.cz i) y)

theorem Load.inRange (l : Load P) : (l.generator lookupBlock bedrock).InRange :=
  inRange_plotGenerator lookupBlock bedrock l.this l.layout

/-- A call that refills shows nothing of the earlier ones. -/
theorem load_refilled (l : Load P) {t : Thread B P} (h : t.buf.size ≠ kBufferSize ∨ t.buf.owner ≠ some l.this) :
    ∃ t', load lookupBlock bedrock l t = some t' ∧ Holds lookupBlock bedrock l t' := by
  have hready : Ready (l.generator lookupBlock bedrock) t.buf :=
    fun hs ho => (h.elim (fun hne => hne hs) fun hne => hne ho).elim
  obtain ⟨buf, hload, hs, ho, hat⟩ := loadChunk_cell (l.inRange lookupBlock bedrock) l.cx l.cz hready
  refine ⟨_, by rw [load, hload]; rfl, hs, ho, if_pos h, hat⟩

/-- A call that does not refill writes its two layers only. -/
theorem load_kept (l : Load P) {t : Thread B P} (hs : t.buf.size = kBufferSize) (ho : t.buf.owner = some l.this) :
    ∃ t', load lookupBlock bedrock l t = some t' ∧ t'.buf.size = kBufferSize ∧ t'.buf.owner = some l.this ∧
      t'.volume = t.volume ∧ ∀ i < kColumns, ∀ y, 0 ≤ y → y < kTotalHeight → t'.buf.at i y =
        (l.generator lookupBlock bedrock).layers ((l.generator lookupBlock bedrock).columnArea l.cx l.cz i) y
          (t.buf.at i y) := by
  have hacquire : acquireBuffer (l.generator lookupBlock bedrock) t.buf = some t.buf := by
    have ho' : t.buf.owner = some (l.generator lookupBlock bedrock).this := ho
    simp [acquireBuffer, hs, ho']
  obtain ⟨buf, hload, hw⟩ := loadChunk_layers (l.inRange lookupBlock bedrock) l.cx l.cz hacquire hs
  refine ⟨_, by rw [load, hload]; rfl, hw.size.trans hs, hw.owner.trans ho, if_neg ?_, hw.at_eq⟩
  rintro (h | h)
  · exact h hs
  · exact h ho

theorem load_initial (l : Load P) :
    ∃ t, load lookupBlock bedrock l Thread.initial = some t ∧ Holds lookupBlock bedrock l t :=
  load_refilled lookupBlock bedrock l (.inr (by simp [Thread.initial, ThreadBuffer.initial]))

variable {lookupBlock bedrock}

theorem Holds.sameVolume {l : Load P} {t t' : Thread B P} (h : Holds lookupBlock bedrock l t)
    (h' : Holds lookupBlock bedrock l t') : SameVolume t t' :=
  ⟨h.volume.trans h'.volume.symm, fun i hi y hy₀ hy₁ => (h.at_eq i hi y hy₀ hy₁).trans (h'.at_eq i hi y hy₀ hy₁).symm⟩

theorem Holds.emitsFresh {l : Load P} {t t' : Thread B P} (hload : load lookupBlock bedrock l t = some t')
    (h : Holds lookupBlock bedrock l t') : EmitsFresh lookupBlock bedrock l (some t) := by
  obtain ⟨fresh, hfresh, hf⟩ := load_initial lookupBlock bedrock l
  exact ⟨t', fresh, hload, hfresh, h.sameVolume hf⟩

/-- After the chunk of `a`, a call at the same address. -/
theorem load_reused {a b : Load P} {t : Thread B P} (h : Holds lookupBlock bedrock a t) (hthis : a.this = b.this) :
    (EmitsFresh lookupBlock bedrock b (some t) ↔ Agrees lookupBlock bedrock a b) ∧
      (Agrees lookupBlock bedrock a b →
        ∃ t', load lookupBlock bedrock b t = some t' ∧ Holds lookupBlock bedrock b t') := by
  obtain ⟨t', hload, hs, ho, hv, hat⟩ := load_kept lookupBlock bedrock b h.size
    (h.owner.trans (congrArg some hthis))
  have hholds : Agrees lookupBlock bedrock a b → Holds lookupBlock bedrock b t' := by
    rintro ⟨hp, hblocks⟩
    refine ⟨hs, ho, hv.trans (h.volume.trans (congrArg some hp)), fun i hi y hy₀ hy₁ => ?_⟩
    rw [hat i hi y hy₀ hy₁, h.at_eq i hi y hy₀ hy₁]
    exact Generator.layers_eq_block _ fun hf hb => congrArg some (hblocks i hi y hy₀ hy₁ hf hb)
  refine ⟨⟨?_, fun hagree => (hholds hagree).emitsFresh hload⟩, fun hagree => ⟨t', hload, hholds hagree⟩⟩
  rintro ⟨t'', fresh, hload', hfresh, hvol, hsame⟩
  obtain rfl : t' = t'' := Option.some.inj (hload.symm.trans hload')
  obtain ⟨fresh', hfresh', hf⟩ := load_initial lookupBlock bedrock b
  obtain rfl : fresh = fresh' := Option.some.inj (hfresh.symm.trans hfresh')
  refine ⟨Option.some.inj (h.volume.symm.trans (hv.symm.trans (hvol.trans hf.volume))), fun i hi y hy₀ hy₁ c₁ c₂ => ?_⟩
  have hcell := hsame i hi y hy₀ hy₁
  rw [hat i hi y hy₀ hy₁, hf.at_eq i hi y hy₀ hy₁, h.at_eq i hi y hy₀ hy₁, Generator.layers_of_ne _ _ c₁ c₂,
    Generator.block_of_ne (g := b.generator lookupBlock bedrock) _ c₁ c₂] at hcell
  exact Option.some.inj hcell

/-! ## Runs -/

/-- The thread with the call before, if any. -/
abbrev Traced (B P : Type) := Option (Thread B P) × Option (Load P)

variable (lookupBlock bedrock)

def tracedLoad (s : Traced B P) (l : Load P) : Traced B P := (s.1.bind (load lookupBlock bedrock l), some l)

/-- The buffer is the one of the call before, or fresh. -/
def Clean (s : Traced B P) : Prop :=
  match s.2 with
  | none => s.1 = some Thread.initial
  | some a => ∃ t, s.1 = some t ∧ Holds lookupBlock bedrock a t

/-- A call at the address of the one before agrees with it. -/
def AgreesWithLast (s : Traced B P) (l : Load P) : Prop :=
  ∀ a, s.2 = some a → a.this = l.this → Agrees lookupBlock bedrock a l

variable {lookupBlock bedrock}

theorem clean_tracedLoad {l : Load P} {t t' : Thread B P} {last : Option (Load P)}
    (ht : load lookupBlock bedrock l t = some t') (h : Holds lookupBlock bedrock l t') :
    Clean lookupBlock bedrock (tracedLoad lookupBlock bedrock (some t, last) l) := by
  refine ⟨t', ?_, h⟩
  simp only [tracedLoad, Option.bind_some]
  exact ht

theorem Clean.step {s : Traced B P} (h : Clean lookupBlock bedrock s) (l : Load P) :
    (EmitsFresh lookupBlock bedrock l s.1 ↔ AgreesWithLast lookupBlock bedrock s l) ∧
      (AgreesWithLast lookupBlock bedrock s l → Clean lookupBlock bedrock (tracedLoad lookupBlock bedrock s l)) := by
  obtain ⟨t₀, last⟩ := s
  cases last with
  | none =>
    obtain rfl : t₀ = some Thread.initial := h
    obtain ⟨t, ht, hholds⟩ := load_initial lookupBlock bedrock l
    exact ⟨⟨fun _ _ ha => (nomatch ha), fun _ => hholds.emitsFresh ht⟩, fun _ => clean_tracedLoad ht hholds⟩
  | some a =>
    obtain ⟨t, rfl, ha⟩ := h
    by_cases hthis : a.this = l.this
    · obtain ⟨hiff, hkeep⟩ := load_reused ha hthis
      have hlast : AgreesWithLast lookupBlock bedrock (some t, some a) l ↔ Agrees lookupBlock bedrock a l :=
        ⟨fun h => h a rfl hthis, fun h a' ha' _ => Option.some.inj ha' ▸ h⟩
      rw [hlast]
      refine ⟨hiff, fun hagree => ?_⟩
      obtain ⟨t', ht', hholds⟩ := hkeep hagree
      exact clean_tracedLoad ht' hholds
    · have howner : t.buf.owner ≠ some l.this := fun ho => hthis (Option.some.inj (ha.owner.symm.trans ho))
      obtain ⟨t', ht', hholds⟩ := load_refilled lookupBlock bedrock l (.inr howner)
      exact ⟨⟨fun _ a' ha' h => absurd ((congrArg Load.this (Option.some.inj ha')).trans h) hthis,
        fun _ => hholds.emitsFresh ht'⟩, fun _ => clean_tracedLoad ht' hholds⟩

theorem tracedLoad_foldl (loads : List (Load P)) :
    loads.foldl (tracedLoad lookupBlock bedrock) (some Thread.initial, none) =
      (afterLoads lookupBlock bedrock loads, loads.getLast?) := by
  induction loads using List.reverseRecOn with
  | nil => rfl
  | append_singleton loads l ih =>
    rw [List.foldl_append, List.foldl_cons, List.foldl_nil, ih, tracedLoad, List.getLast?_concat]
    simp only [afterLoads, List.foldl_append, List.foldl_cons, List.foldl_nil]

/-- Every chunk a thread generates is what it would be over a fresh buffer exactly when every call made at
the address of the call before agrees with it. -/
theorem loads_independent_iff (loads : List (Load P)) :
    (∀ pre l suf, loads = pre ++ l :: suf →
      EmitsFresh lookupBlock bedrock l (afterLoads lookupBlock bedrock pre)) ↔
      ∀ pre a b suf, loads = pre ++ a :: b :: suf → a.this = b.this → Agrees lookupBlock bedrock a b := by
  have hrun := Runs.foldl_forall_iff_of_kept (f := tracedLoad lookupBlock bedrock) (l := loads)
    (s := (some Thread.initial, none)) (Clean lookupBlock bedrock)
    (fun s l => EmitsFresh lookupBlock bedrock l s.1) (AgreesWithLast lookupBlock bedrock) rfl
    (fun s l hs => (hs.step l).1) (fun s l hs => (hs.step l).2)
  simp only [tracedLoad_foldl] at hrun
  rw [hrun]
  constructor
  · rintro h pre a b suf rfl hthis
    exact h (pre ++ [a]) b suf (by simp) a (by simp) hthis
  · rintro h pre l suf rfl a ha hthis
    obtain ⟨pre', hpre⟩ := List.getLast?_eq_some_iff.mp ha
    exact h pre' a l suf (by rw [hpre]; simp) hthis

/-- The same layout and prototype always agree, whatever the chunks. -/
theorem agrees_of_layout {a b : Load P} (hl : a.layout = b.layout) (hp : a.mPrototype = b.mPrototype) :
    Agrees lookupBlock bedrock a b := by
  have hg : b.generator lookupBlock bedrock = { a.generator lookupBlock bedrock with this := b.this } := by
    simp only [Load.generator, plotGenerator, hl]
  refine ⟨hp, fun i _ y _ _ hf hb => ?_⟩
  rw [hg] at hf hb ⊢
  exact Generator.block_of_ne _ hf hb

theorem foldl_singleton (l : Load P) (t : Thread B P) :
    [l].foldl (fun t l => t.bind (load lookupBlock bedrock l)) (some t) = load lookupBlock bedrock l t := by
  rw [List.foldl_cons, List.foldl_nil, Option.bind_some]

theorem not_emitsFresh {a b : Load P} (hthis : a.this = b.this) (h : ¬Agrees lookupBlock bedrock a b) :
    ¬EmitsFresh lookupBlock bedrock b (afterLoads lookupBlock bedrock [a]) := by
  obtain ⟨t, ht, ha⟩ := load_initial lookupBlock bedrock a
  rw [afterLoads, foldl_singleton, ht, (load_reused ha hthis).1]
  exact h

def dirtWorld : Load Unit := ⟨1, Layout.default, (), 0, 0⟩

/-- Another world, whose generator is allocated where the one of the dirt was. -/
def stoneWorld : Load Unit := ⟨1, { Layout.default with fillBlock := "minecraft:stone" }, (), 0, 0⟩

theorem dirt_not_agrees_stone : ¬Agrees id "minecraft:bedrock" dirtWorld stoneWorld := by
  rintro ⟨-, h⟩
  have hcell := h 0 (by decide) (bedrockIdx + 1) (by decide) (by decide) (by decide) (by decide)
  rw [Generator.block_of_ne _ (by decide) (by decide)] at hcell
  exact absurd hcell (by decide)

/-- The second world's chunk is full of the first one's dirt. -/
theorem reused_address_keeps_dirt :
    ¬∀ (lookupBlock : String → String) (bedrock : String) (loads pre : List (Load Unit)) (l : Load Unit)
      (suf : List (Load Unit)), loads = pre ++ l :: suf →
      EmitsFresh lookupBlock bedrock l (afterLoads lookupBlock bedrock pre) := by
  intro h
  have hemits : EmitsFresh id "minecraft:bedrock" stoneWorld (afterLoads id "minecraft:bedrock" [dirtWorld]) :=
    h id "minecraft:bedrock" [dirtWorld, stoneWorld] [dirtWorld] stoneWorld [] rfl
  have hthis : dirtWorld.this = stoneWorld.this := rfl
  exact not_emitsFresh hthis dirt_not_agrees_stone hemits

end PlotBuffer
