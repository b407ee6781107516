import SecmemAlloc.Lib.Topmost
import SecmemAlloc.SecAlloc.Effect

/-!
# Which block is the last one

`ptr_is_last_allocation` compares the end of a block with the stack top.  A block that ends
there is the final one on the page, but the final one need not end there: once the block
above it was given back, the stack top is where that one started.  The answer is right for
all blocks as long as no step leaves such a gap.
-/

namespace SecmemAlloc

variable {cfg : Cfg}

/-- The operation gives back the block `i` and puts no bytes in its place. -/
def Op.Drops (i : ℕ) : Op cfg → Prop
  | .deallocate j _ _ => j = i
  | .resize _ j _ _ newLayout => j = i ∧ newLayout.size = 0
  | .allocate _ _ _ | .write _ _ _ => False

namespace Heap

variable (h : Heap cfg) (i : ℕ)

/-- No other live block with bytes lies at a higher address. -/
def IsFinal : Prop :=
  ∀ j ∈ h.ledger.live, (h.ledger.block j).size ≠ 0 →
    (h.ledger.block j).addr ≤ (h.ledger.block i).addr

instance : Decidable (h.IsFinal i) :=
  inferInstanceAs (Decidable (∀ j ∈ h.ledger.live, _ → _))

/-- Asked about any live block with bytes and its exact length, `ptr_is_last_allocation`
tells whether it is the final one. -/
def Truthful : Prop :=
  ∀ i ∈ h.ledger.live, (h.ledger.block i).size ≠ 0 →
    ∀ ptr : NonNull, ptr.asPtr.addr = (h.ledger.block i).addr →
      ∃ b, (SecStackSinglePageAlloc.ptrIsLastAllocation cfg ptr (h.ledger.block i).len).run
          h.machine = .ok (b, h.machine) ∧ (b = true ↔ h.IsFinal i)

/-- If the block `i` is the final one but not the only one with bytes, another one ends
where it starts. -/
def Abuts : Prop :=
  (h.ledger.block i).size ≠ 0 → h.IsFinal i →
    (∃ j ∈ h.ledger.live, j ≠ i ∧ (h.ledger.block j).size ≠ 0) →
    ∃ j ∈ h.ledger.live, (h.ledger.block j).size ≠ 0 ∧
      (h.ledger.block j).addr + (h.ledger.block j).len = (h.ledger.block i).addr

/-- The operation leaves no gap between the stack top and the blocks below. -/
def LeavesNoGap (op : Op cfg) : Prop := ∀ i, op.Drops i → h.Abuts i

/-- A step that leaves no gap. -/
def GaplessStep (h : Heap cfg) (e : Event cfg) (h' : Heap cfg) : Prop :=
  h.Step e h' ∧ h.LeavesNoGap e.1

/-- A step after which `ptr_is_last_allocation` is right about every block. -/
def TruthfulStep (h : Heap cfg) (e : Event cfg) (h' : Heap cfg) : Prop :=
  h.Step e h' ∧ h'.Truthful

/-- Some block with bytes, if there is any, ends at the stack top. -/
def Capped : Prop := h.ledger.Capped Block.span h.alloc.stackTop

variable {h i} {h' : Heap cfg}

/-! ## The answer in a single state -/

theorem WellFormed.isFinal_iff (hw : h.WellFormed) :
    h.IsFinal i ↔ h.ledger.Topmost Block.span i := by
  refine forall₂_congr fun j hj => ?_
  exact imp_congr_left (not_congr (hw.len_eq_zero_iff hj)).symm

theorem WellFormed.last_run (hw : h.WellFormed) (hi : i ∈ h.ledger.live)
    (hne : (h.ledger.block i).size ≠ 0) {ptr : NonNull}
    (hptr : ptr.asPtr.addr = (h.ledger.block i).addr) :
    (SecStackSinglePageAlloc.ptrIsLastAllocation cfg ptr (h.ledger.block i).len).run h.machine =
      .ok (decide ((h.ledger.block i).addr + (h.ledger.block i).len = h.alloc.stackTop),
        h.machine) := by
  obtain ⟨hlo, hstop⟩ := hw.bounds hi (mt (hw.len_eq_zero_iff hi).1 hne)
  rw [← hptr] at hlo hstop ⊢
  exact SecStackSinglePageAlloc.ptrIsLastAllocation_run hw.stackTop_le hlo hstop

/-- The answers are right exactly if the blocks reach up to the stack top. -/
theorem WellFormed.truthful_iff (hw : h.WellFormed) : h.Truthful ↔ h.Capped := by
  rw [Capped, hw.packed.capped_iff]
  constructor
  · intro ht i hi hlen
    have hne := mt (hw.len_eq_zero_iff hi).2 hlen
    obtain ⟨b, hrun, hb⟩ := ht i hi hne
      ⟨⟨(h.ledger.block i).addr, 0, 0⟩, (hw.valid i hi).addr_ne_zero⟩ rfl
    rw [hw.last_run hi hne rfl] at hrun
    cases hrun
    rw [decide_eq_true_iff, hw.isFinal_iff] at hb
    exact hb
  · intro hall i hi hne ptr hptr
    refine ⟨_, hw.last_run hi hne hptr, ?_⟩
    rw [decide_eq_true_iff, hw.isFinal_iff]
    exact hall i hi (mt (hw.len_eq_zero_iff hi).1 hne)

/-! ## What a step does to the cap -/

/-- Giving back a block keeps the cap exactly if the block abuts the one below. -/
theorem WellFormed.release_capped_iff (hw : h.WellFormed) (hcap : h.Capped)
    (hi : i ∈ h.ledger.live) : (h.release i).Capped ↔ h.Abuts i := by
  by_cases hlen : (h.ledger.block i).len = 0
  · refine iff_of_true ?_ fun hne => absurd ((hw.len_eq_zero_iff hi).1 hlen) hne
    rw [Capped, hw.release_alloc_of_empty hlen]
    exact Ledger.Capped.erase hcap fun hne => absurd hlen hne
  by_cases hall : h.alloc.bytes = (h.ledger.block i).len
  -- no other block has bytes
  · have htotal := Ledger.total_erase_add (f := Block.len) hi
    rw [← hw.bytes_eq] at htotal
    have hrest : ∀ j ∈ (h.ledger.erase i).live, (h.ledger.block j).len = 0 :=
      Ledger.total_eq_zero_iff.1 (by omega)
    refine iff_of_true (Ledger.capped_of_empty hrest) fun _ _ hother => ?_
    obtain ⟨j, hj, hji, hne⟩ := hother
    have hj0 := hrest j (Finset.mem_erase.2 ⟨hji, hj⟩)
    exact absurd ((hw.len_eq_zero_iff hj).1 hj0) hne
  by_cases htop : (h.ledger.block i).addr + (h.ledger.block i).len = h.alloc.stackTop
  -- the last of several blocks: the stack top is now where it started
  · have hnew := hw.release_stackTop_of_last hi hlen hall htop
    constructor
    · rintro hnext - - ⟨j, hj, hji, hne⟩
      obtain ⟨k, hk, hkne, hstop⟩ := hnext ⟨j, Finset.mem_erase.2 ⟨hji, hj⟩,
        mt (hw.len_eq_zero_iff hj).1 hne⟩
      have hk' := Finset.mem_of_mem_erase hk
      exact ⟨k, hk', mt (hw.len_eq_zero_iff hk').2 hkne, hstop.trans hnew⟩
    · rintro habuts ⟨j, hj, hjne⟩
      obtain ⟨hji, hj'⟩ := Finset.mem_erase.1 hj
      obtain ⟨k, hk, hkne, hstop⟩ := habuts (mt (hw.len_eq_zero_iff hi).2 hlen)
        (hw.isFinal_iff.2 (hw.packed.topmost hi htop))
        ⟨j, hj', hji, mt (hw.len_eq_zero_iff hj').2 hjne⟩
      have hki : k ≠ i := by
        rintro rfl
        omega
      exact ⟨k, Finset.mem_erase.2 ⟨hki, hk⟩, mt (hw.len_eq_zero_iff hk).1 hkne,
        hstop.trans hnew.symm⟩
  -- a block below the last one: the one that ends at the stack top stays
  · refine iff_of_true ?_ fun _ hfinal _ => absurd ?_ htop
    · rw [Capped, release_stackTop_of_ne hall htop]
      exact Ledger.Capped.erase hcap fun _ => htop
    · exact hw.packed.stop_eq_of_topmost hcap hi hlen (hw.isFinal_iff.1 hfinal)

/-- After an operation the blocks reach up to the stack top exactly if it left no gap. -/
theorem Effect.capped_iff (hw : h.WellFormed) (hcap : h.Capped) {e : Event cfg}
    (heff : Effect h e h') : h'.Capped ↔ h.LeavesNoGap e.1 := by
  cases heff with
  | allocateEmpty hi h0 =>
    refine iff_of_true ?_ fun _ hdrops => hdrops.elim
    exact (Ledger.capped_insert_empty hi rfl).2 hcap
  | @allocate _ _ layout hi hne hfit =>
    refine iff_of_true ?_ fun _ hdrops => hdrops.elim
    exact Ledger.capped_insert (rounded_ne_zero hne) (h.alloc.stackTop_place layout).symm
  | allocateFailed | write => exact iff_of_true hcap fun _ hdrops => hdrops.elim
  | deallocate hheld => exact (hw.release_capped_iff hcap hheld.live).trans forall_eq'.symm
  | @vacate kind i _ _ newLayout hheld hord h0 =>
    have hempty : ((h.release i).empty i newLayout).Capped ↔ (h.release i).Capped :=
      Ledger.capped_insert_empty (Finset.notMem_erase i _) rfl
    rw [hempty, hw.release_capped_iff hcap hheld.live]
    constructor
    · rintro habuts j ⟨rfl, -⟩
      exact habuts
    · intro hall
      exact hall i ⟨rfl, h0⟩
  | @trim i _ _ newLayout hheld hord hne hin =>
    refine iff_of_true ?_ fun _ hdrops => absurd hdrops.2 hne
    have hr := hw.rounded_eq hheld.live hheld.fit
    have hle : rounded newLayout.size ≤ (h.ledger.block i).len := (rounded_mono hord).trans_eq hr
    have hlen := rounded_ne_zero hne
    by_cases htop : (h.ledger.block i).addr + (h.ledger.block i).len = h.alloc.stackTop
    · exact Ledger.capped_insert hlen (hw.trim_stackTop_of_last hheld.live hle htop).symm
    · rw [Capped, WellFormed.trim_stackTop_of_ne htop]
      exact Ledger.Capped.replace hcap hheld.live (by rw [Block.len_span]; omega) htop
  | @extend _ i _ _ newLayout hkind hheld hord hne hin hroom =>
    refine iff_of_true ?_ fun _ hdrops => absurd hdrops.2 hne
    have hr := hw.rounded_eq hheld.live hheld.fit
    have hle : (h.ledger.block i).len ≤ rounded newLayout.size := hr.ge.trans (rounded_mono hord)
    obtain ⟨-, -, htop⟩ := (inPlace_iff hkind).1 hin
    exact Ledger.capped_insert (rounded_ne_zero hne) (WellFormed.extend_stackTop hle htop).symm
  | move hheld hord hne hin hfit =>
    refine iff_of_true ?_ fun _ hdrops => absurd hdrops.2 hne
    exact Ledger.capped_insert (rounded_ne_zero hne)
      (hw.move_stackTop hheld.live hne _).symm
  | extendFailed _ _ _ hne _ _ | moveFailed _ _ hne _ _ =>
    exact iff_of_true hcap fun _ hdrops => absurd hdrops.2 hne

/-! ## Whole runs -/

section Runs

variable {page : Page cfg} {mem : Memory UInt8} {es : List (Event cfg)}

theorem new_capped (page : Page cfg) (mem : Memory UInt8) : (new page mem).Capped :=
  Ledger.capped_of_empty fun i hi => absurd hi (Finset.notMem_empty i)

/-- Where the answers are right, they stay right exactly along steps that leave no gap. -/
theorem gaplessStep_iff (hw : h.WellFormed) (hcap : h.Capped) {e : Event cfg} :
    h.GaplessStep e h' ↔ h.TruthfulStep e h' := by
  refine and_congr_right fun hs => ?_
  have heff := Step.effect hw hs
  rw [(heff.wellFormed hw).truthful_iff, heff.capped_iff hw hcap]

theorem gaplessStep_invariant {h h' : Heap cfg} {e : Event cfg} (hinv : h.WellFormed ∧ h.Capped)
    (hs : h.GaplessStep e h') : h'.WellFormed ∧ h'.Capped := by
  have heff := Step.effect hinv.1 hs.1
  exact ⟨heff.wellFormed hinv.1, (heff.capped_iff hinv.1 hinv.2).2 hs.2⟩

/-- **The last allocation.**  In every heap reached from `new`, `ptr_is_last_allocation`
returns for every live block with bytes, and never takes a block for the final one that is
not.  Along a run it is right about every block in every heap exactly when no step leaves a
gap. -/
theorem last_allocation (hrun : Run Step (new page mem) es h) :
    (∀ i ∈ h.ledger.live, (h.ledger.block i).size ≠ 0 →
      ∀ ptr : NonNull, ptr.asPtr.addr = (h.ledger.block i).addr →
        ∃ b, (SecStackSinglePageAlloc.ptrIsLastAllocation cfg ptr (h.ledger.block i).len).run
            h.machine = .ok (b, h.machine) ∧ (b = true → h.IsFinal i)) ∧
    (Run GaplessStep (new page mem) es h ↔ Run TruthfulStep (new page mem) es h) ∧
    (Run GaplessStep (new page mem) es h → h.Truthful) := by
  have hw := run_wellFormed hrun
  have hnew := new_wellFormed page mem
  refine ⟨?_, ?_, ?_⟩
  · intro i hi hne ptr hptr
    refine ⟨_, hw.last_run hi hne hptr, fun hlast => ?_⟩
    rw [hw.isFinal_iff]
    exact hw.packed.topmost hi (of_decide_eq_true hlast)
  · exact Run.congr (I := fun g => g.WellFormed ∧ g.Capped)
      (fun _ _ _ hinv hs => gaplessStep_invariant hinv hs)
      (fun _ _ _ hinv => gaplessStep_iff hinv.1 hinv.2) ⟨hnew, new_capped page mem⟩
  · intro hgapless
    have hinv : h.WellFormed ∧ h.Capped :=
      hgapless.invariant (I := fun g => g.WellFormed ∧ g.Capped)
        (fun _ _ _ hinv hs => gaplessStep_invariant hinv hs) ⟨hnew, new_capped page mem⟩
    exact hw.truthful_iff.2 hinv.2

/-! ## Three blocks -/

/-- Three blocks of nine bytes, one after the other. -/
def threeBlocks : Heap sampleCfg :=
  ((sampleStart.place 0 nineBytes).place 1 nineBytes).place 2 nineBytes

/-- The slice of the block `i` of the three. -/
def sampleSlice (i : ℕ) : NonNullSlice where
  asPtr := samplePage.asPtrMut.offset (16 * i)
  len := 16
  addr_ne_zero := by
    show 65536 + 16 * i ≠ 0
    omega

def threeEvents : List (Event sampleCfg) :=
  [(.allocate false 0 nineBytes, some (.ok (sampleSlice 0))),
    (.allocate false 1 nineBytes, some (.ok (sampleSlice 1))),
    (.allocate false 2 nineBytes, some (.ok (sampleSlice 2)))]

theorem threeBlocks_gapless : Run GaplessStep sampleStart threeEvents threeBlocks :=
  .snoc (.snoc (.snoc (.nil _) ⟨⟨by decide, rfl⟩, fun _ hdrops => hdrops.elim⟩)
    ⟨⟨by decide, rfl⟩, fun _ hdrops => hdrops.elim⟩) ⟨⟨by decide, rfl⟩, fun _ hdrops => hdrops.elim⟩

theorem threeBlocks_run : Run Step sampleStart threeEvents threeBlocks :=
  threeBlocks_gapless.mono fun _ _ _ hs => hs.1

theorem last_allocation_sample : threeBlocks.Truthful :=
  (last_allocation threeBlocks_run).2.2 threeBlocks_gapless

/-- The second block is given back, then the third one. -/
def gapBlocks : Heap sampleCfg := (threeBlocks.release 1).release 2

theorem gapBlocks_run : Run Step sampleStart (threeEvents ++
    [(.deallocate 1 (sampleSlice 1).cast nineBytes, none)] ++
    [(.deallocate 2 (sampleSlice 2).cast nineBytes, none)]) gapBlocks :=
  (threeBlocks_run.snoc ⟨by decide, rfl⟩).snoc ⟨by decide, rfl⟩

/-- The first block is then the only one and ends 16 bytes below the stack top. -/
theorem not_last_allocation : ¬ ∀ (cfg : Cfg) (page : Page cfg) (mem : Memory UInt8)
    (es : List (Event cfg)) (h : Heap cfg), Run Step (new page mem) es h → h.Truthful := by
  intro hall
  obtain ⟨b, hrun, hb⟩ := hall sampleCfg samplePage (fun _ => 0) _ gapBlocks gapBlocks_run 0
    (by decide) (by decide) (sampleSlice 0).cast rfl
  have hfalse : (SecStackSinglePageAlloc.ptrIsLastAllocation sampleCfg (sampleSlice 0).cast
      (gapBlocks.ledger.block 0).len).run gapBlocks.machine = .ok (false, gapBlocks.machine) := rfl
  rw [hfalse] at hrun
  cases hrun
  exact absurd (hb.2 (by decide)) (by decide)

end Runs

end Heap

end SecmemAlloc
