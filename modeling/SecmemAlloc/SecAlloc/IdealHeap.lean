import SecmemAlloc.SecAlloc.Zeroization

/-!
# Refinement of an ideal heap

In the ideal heap every block is an array of its own, so that operations on one block cannot
be seen in another.  Reading the arrays off the page relates the allocator to the ideal
heap: every step of the allocator is a step of the ideal one, with the same answer.
-/

namespace SecmemAlloc

variable {cfg : Cfg}

/-- The array of each live block. -/
abbrev IdealHeap := ℕ → Option (List UInt8)

namespace IdealHeap

/-- The ideal heap without blocks. -/
def empty : IdealHeap := fun _ => none

/-- The steps of the ideal heap.  Allocation and resizing may fail, which changes nothing;
resizing may clear slack bytes or leave them as they are. -/
inductive Step (I : IdealHeap) : Event cfg → IdealHeap → Prop
  | allocate {zeroed : Bool} {i : ℕ} {layout : Layout cfg} {slice : NonNullSlice}
      (hi : I i = none) (hslice : slice.len = rounded layout.size) :
      Step I (.allocate zeroed i layout, some (.ok slice))
        (Function.update I i (some (List.replicate (rounded layout.size) 0)))
  | allocateFailed {zeroed : Bool} {i : ℕ} {layout : Layout cfg} :
      Step I (.allocate zeroed i layout, some (.error ⟨⟩)) I
  | deallocate {i : ℕ} {ptr : NonNull} {layout : Layout cfg} {bytes : List UInt8}
      (hi : I i = some bytes) :
      Step I (.deallocate i ptr layout, none) (Function.update I i none)
  | write {i off : ℕ} {v : UInt8} {bytes : List UInt8} (hi : I i = some bytes)
      (hoff : off < bytes.length) :
      Step I (.write i off v, none) (Function.update I i (some (bytes.set off v)))
  | shrink {kind : Resize} {i : ℕ} {ptr : NonNull} {oldLayout newLayout : Layout cfg}
      {slice : NonNullSlice} {bytes bytes' : List UInt8} (hkind : kind.grows = false)
      (hi : I i = some bytes) (hslice : slice.len = rounded newLayout.size)
      (hlen : bytes'.length = rounded newLayout.size)
      (hkept : ∀ k < newLayout.size, bytes'[k]? = bytes[k]?)
      (hslack : ∀ k, newLayout.size ≤ k → k < rounded newLayout.size →
        bytes'[k]? = bytes[k]? ∨ bytes'[k]? = some 0) :
      Step I (.resize kind i ptr oldLayout newLayout, some (.ok slice))
        (Function.update I i (some bytes'))
  | grow {kind : Resize} {i : ℕ} {ptr : NonNull} {oldLayout newLayout : Layout cfg}
      {slice : NonNullSlice} {bytes bytes' : List UInt8} (hkind : kind.grows = true)
      (hi : I i = some bytes) (hslice : slice.len = rounded newLayout.size)
      (hlen : bytes'.length = rounded newLayout.size)
      (hkept : ∀ k < oldLayout.size, bytes'[k]? = bytes[k]?)
      (hslack : ∀ k, oldLayout.size ≤ k → k < bytes.length →
        bytes'[k]? = bytes[k]? ∨ bytes'[k]? = some 0)
      (hgained : ∀ k, bytes.length ≤ k → k < rounded newLayout.size → bytes'[k]? = some 0) :
      Step I (.resize kind i ptr oldLayout newLayout, some (.ok slice))
        (Function.update I i (some bytes'))
  | resizeFailed {kind : Resize} {i : ℕ} {ptr : NonNull} {oldLayout newLayout : Layout cfg} :
      Step I (.resize kind i ptr oldLayout newLayout, some (.error ⟨⟩)) I

end IdealHeap

namespace Heap

/-- The arrays of the live blocks, read off the page. -/
def contents (h : Heap cfg) : IdealHeap := fun i =>
  if i ∈ h.ledger.live then some (h.mem.read (h.ledger.block i).addr (h.ledger.block i).len)
  else none

variable {h h' : Heap cfg} {i : ℕ} {layout : Layout cfg}

theorem contents_of_mem (hi : i ∈ h.ledger.live) :
    h.contents i = some (h.mem.read (h.ledger.block i).addr (h.ledger.block i).len) := if_pos hi

theorem contents_of_notMem (hi : i ∉ h.ledger.live) : h.contents i = none := if_neg hi

theorem contents_new (page : Page cfg) (mem : Memory UInt8) :
    (new page mem).contents = IdealHeap.empty := rfl

/-- What happens to one block shows in its own array only, as long as the bytes of the
other blocks are left alone. -/
theorem contents_insert {g : Heap cfg} {b : Block} (hledger : g.ledger = h.ledger.insert i b)
    (hmem : ∀ j ∈ h.ledger.live, j ≠ i → ∀ a ∈ (h.ledger.block j).span, g.mem a = h.mem a) :
    g.contents = Function.update h.contents i (some (g.mem.read b.addr b.len)) := by
  funext j
  by_cases hji : j = i
  · subst hji
    have hj : j ∈ g.ledger.live := by
      rw [hledger]
      exact Finset.mem_insert_self _ _
    rw [contents_of_mem hj, Function.update_self, hledger, Ledger.block_insert_self]
  · have hiff : j ∈ g.ledger.live ↔ j ∈ h.ledger.live := by
      rw [hledger, Ledger.live_insert, Finset.mem_insert, or_iff_right hji]
    rw [Function.update_of_ne hji]
    by_cases hj : j ∈ h.ledger.live
    · rw [contents_of_mem (hiff.2 hj), contents_of_mem hj, hledger, Ledger.block_insert_of_ne hji]
      congr 1
      apply Memory.read_congr
      intro k hk
      exact hmem j hj hji _ (Block.mem_span.2 (by omega))
    · rw [contents_of_notMem (mt hiff.1 hj), contents_of_notMem hj]

/-- Wiping part of one block leaves the others alone. -/
theorem WellFormed.fill_other (hw : h.WellFormed) (hi : i ∈ h.ledger.live) {a n : ℕ}
    (hlo : (h.ledger.block i).addr ≤ a)
    (hhi : a + n ≤ (h.ledger.block i).addr + (h.ledger.block i).len) (m : Memory UInt8)
    {j : ℕ} (hj : j ∈ h.ledger.live) (hji : j ≠ i) {x : ℕ} (hx : x ∈ (h.ledger.block j).span) :
    m.fill a n 0 x = m x := by
  have hout := (hw.packed.apart j hj i hi hji).notMem hx
  rw [Block.mem_span] at hout
  exact Memory.fill_of_notMem (by omega)

/-! ## The array of a block after each move -/

theorem contents_empty (h0 : layout.size = 0) :
    (h.empty i layout).contents =
      Function.update h.contents i (some (List.replicate (rounded layout.size) 0)) := by
  rw [contents_insert (g := h.empty i layout) rfl fun _ _ _ _ _ => rfl, h0]
  rfl

theorem contents_place (hfree : ∀ k < rounded layout.size,
      h.mem (h.alloc.freshAddr layout.align + k) = 0) :
    (h.place i layout).contents =
      Function.update h.contents i (some (List.replicate (rounded layout.size) 0)) := by
  rw [contents_insert (g := h.place i layout) rfl fun _ _ _ _ _ => rfl]
  congr 2
  exact Memory.read_eq_replicate hfree

theorem contents_store (hw : h.WellFormed) (hi : i ∈ h.ledger.live) {off : ℕ}
    (hoff : off < (h.ledger.block i).len) (v : UInt8) :
    (h.store i off v).contents = Function.update h.contents i
      (some ((h.mem.read (h.ledger.block i).addr (h.ledger.block i).len).set off v)) := by
  have hledger : (h.store i off v).ledger = h.ledger.insert i (h.ledger.block i) := by
    simp only [store, Ledger.insert, Finset.insert_eq_of_mem hi, Function.update_eq_self]
  rw [contents_insert hledger]
  · congr 2
    exact Memory.read_store
  · intro j hj hji a ha
    have hne : a ≠ (h.ledger.block i).addr + off := by
      rintro rfl
      exact (hw.packed.apart j hj i hi hji).notMem ha (Block.add_mem_span hoff)
    exact Memory.store_of_ne hne

theorem contents_release (hw : h.WellFormed) (hi : i ∈ h.ledger.live) :
    (h.release i).contents = Function.update h.contents i none := by
  funext j
  by_cases hji : j = i
  · subst hji
    rw [Function.update_self, contents_of_notMem (Finset.notMem_erase j _)]
  · have hiff : j ∈ (h.release i).ledger.live ↔ j ∈ h.ledger.live :=
      Finset.mem_erase.trans (and_iff_right hji)
    rw [Function.update_of_ne hji]
    by_cases hj : j ∈ h.ledger.live
    · rw [contents_of_mem (hiff.2 hj), contents_of_mem hj]
      congr 1
      apply Memory.read_congr
      intro k hk
      have hk' : k < (h.ledger.block j).len := hk
      exact hw.fill_other hi le_rfl le_rfl h.mem hj hji (Block.add_mem_span hk')
    · rw [contents_of_notMem (mt hiff.1 hj), contents_of_notMem hj]

theorem contents_trim (hw : h.WellFormed) (hi : i ∈ h.ledger.live)
    (hle : rounded layout.size ≤ (h.ledger.block i).len) :
    (h.trim i layout).contents = Function.update h.contents i
      (some (h.mem.read (h.ledger.block i).addr (rounded layout.size))) := by
  rw [contents_insert (g := h.trim i layout) rfl]
  · congr 2
    apply Memory.read_congr
    intro k hk
    have hk' : k < rounded layout.size := hk
    exact Memory.fill_of_notMem (by dsimp only; omega)
  · intro j hj hji a ha
    exact hw.fill_other hi (Nat.le_add_right _ _) (by omega) h.mem hj hji ha

theorem contents_extend :
    (h.extend i layout).contents = Function.update h.contents i
      (some (h.mem.read (h.ledger.block i).addr (rounded layout.size))) :=
  contents_insert (g := h.extend i layout) rfl fun _ _ _ _ _ => rfl

/-- A moved block starts with the copied bytes and ends with zeros. -/
theorem move_mem (hw : h.WellFormed) (hi : i ∈ h.ledger.live) {n k : ℕ}
    (hfree : ∀ k < rounded layout.size, h.mem (h.alloc.freshAddr layout.align + k) = 0)
    (hk : k < rounded layout.size) :
    (h.move i layout n).mem (h.alloc.freshAddr layout.align + k) =
      if k < n then h.mem ((h.ledger.block i).addr + k) else 0 := by
  have hge := h.alloc.freshAddr_ge layout.align
  have hout : h.alloc.freshAddr layout.align + k ∉ (h.ledger.block i).span :=
    hw.packed.free_of_lt_or_le (Or.inr (by omega)) i hi
  show (h.mem.copy _ _ n).fill _ _ 0 _ = _
  rw [Block.fill_of_notMem hout]
  split
  · rw [Memory.copy_of_mem (by omega), Nat.add_sub_cancel_left]
  · rw [Memory.copy_of_notMem (by omega), hfree k hk]

theorem contents_move (hw : h.WellFormed) (hi : i ∈ h.ledger.live) (n : ℕ) :
    (h.move i layout n).contents = Function.update h.contents i
      (some ((h.move i layout n).mem.read (h.alloc.freshAddr layout.align)
        (rounded layout.size))) := by
  rw [contents_insert (g := h.move i layout n) rfl]
  · rfl
  · intro j hj hji a ha
    have hge := h.alloc.freshAddr_ge layout.align
    have hbelow : ¬ h.alloc.stackTop ≤ a :=
      fun hle => hw.packed.free_of_lt_or_le (Or.inr hle) j hj ha
    show (h.mem.copy _ _ n).fill _ _ 0 a = h.mem a
    rw [hw.fill_other hi le_rfl le_rfl _ hj hji ha, Memory.copy_of_notMem (by omega)]

/-! ## The simulation -/

section

variable {page : Page cfg} {mem : Memory UInt8} {es : List (Event cfg)}

section

variable {kind : Resize} {ptr : NonNull} {oldLayout newLayout : Layout cfg}

/-- Resizing to zero bytes is ideal: the new array has no byte to account for. -/
theorem ideal_vacate (hw : h.WellFormed) (hheld : h.Held i ptr oldLayout)
    (hord : kind.Ordered oldLayout.size newLayout.size) (h0 : newLayout.size = 0) :
    IdealHeap.Step h.contents
      (.resize kind i ptr oldLayout newLayout, some (.ok (Exact.zeroSlice newLayout)))
      ((h.release i).empty i newLayout).contents := by
  have hlen := hw.rounded_eq hheld.live hheld.fit
  rw [contents_empty h0, contents_release hw hheld.live, Function.update_idem, h0]
  cases hkind : kind.grows with
  | false =>
    refine .shrink hkind (contents_of_mem hheld.live) ?_ ?_ ?_ ?_
    · rw [h0]; rfl
    · rw [h0]; rfl
    · rw [h0]
      exact fun k hk => absurd hk (Nat.not_lt_zero k)
    · rw [h0]
      exact fun k _ hk => absurd hk (Nat.not_lt_zero k)
  | true =>
    have hold : oldLayout.size = 0 := by
      simp only [Resize.Ordered] at hord
      rw [if_pos hkind] at hord
      omega
    refine .grow hkind (contents_of_mem hheld.live) ?_ ?_ ?_ ?_ ?_
    · rw [h0]; rfl
    · rw [h0]; rfl
    · rw [hold]
      exact fun k hk => absurd hk (Nat.not_lt_zero k)
    · rw [Memory.length_read, ← hlen, hold]
      exact fun k _ hk => absurd hk (Nat.not_lt_zero k)
    · rw [h0]
      exact fun k _ hk => absurd hk (Nat.not_lt_zero k)

theorem ideal_trim (hw : h.WellFormed) (hheld : h.Held i ptr oldLayout)
    (hle : newLayout.size ≤ oldLayout.size) :
    IdealHeap.Step h.contents
      (.resize .shrink i ptr oldLayout newLayout, some (.ok (resizedSlice ptr newLayout)))
      (h.trim i newLayout).contents := by
  have hlen := hw.rounded_eq hheld.live hheld.fit
  have hmono := rounded_mono hle
  rw [contents_trim hw hheld.live (by omega)]
  have hsame : ∀ k < rounded newLayout.size,
      (h.mem.read (h.ledger.block i).addr (rounded newLayout.size))[k]? =
        (h.mem.read (h.ledger.block i).addr (h.ledger.block i).len)[k]? := by
    intro k hk
    rw [Memory.getElem?_read hk, Memory.getElem?_read (by omega)]
  refine .shrink rfl (contents_of_mem hheld.live) rfl Memory.length_read ?_ ?_
  · intro k hk
    exact hsame k (hk.trans_le (le_rounded _))
  · intro k _ hk
    exact Or.inl (hsame k hk)

/-- The bytes gained by extending the last block lay above the stack top. -/
theorem ideal_extend (hzero : page.Zeroed mem) (hrun : Run Step (new page mem) es h)
    (hkind : kind.mayExtend = true) (hheld : h.Held i ptr oldLayout)
    (hle : oldLayout.size ≤ newLayout.size) (hin : h.InPlace kind i newLayout)
    (hroom : (h.ledger.block i).addr + rounded newLayout.size ≤ h.alloc.pageEnd) :
    IdealHeap.Step h.contents
      (.resize kind i ptr oldLayout newLayout, some (.ok (resizedSlice ptr newLayout)))
      (h.extend i newLayout).contents := by
  obtain ⟨-, -, htop⟩ := (inPlace_iff hkind).1 hin
  have hlen := (run_wellFormed hrun).rounded_eq hheld.live hheld.fit
  have hmono := rounded_mono hle
  have hgrows : kind.grows = true := by cases kind <;> first | rfl | cases hkind
  have hsame : ∀ k < (h.ledger.block i).len,
      (h.mem.read (h.ledger.block i).addr (rounded newLayout.size))[k]? =
        (h.mem.read (h.ledger.block i).addr (h.ledger.block i).len)[k]? := by
    intro k hk
    rw [Memory.getElem?_read hk, Memory.getElem?_read (by omega)]
  rw [contents_extend]
  refine .grow hgrows (contents_of_mem hheld.live) rfl Memory.length_read ?_ ?_ ?_
  · intro k hk
    exact hsame k (hk.trans_le hheld.fit.2)
  · intro k _ hk
    rw [Memory.length_read] at hk
    exact Or.inl (hsame k hk)
  · intro k hk hk'
    rw [Memory.length_read] at hk
    rw [Memory.getElem?_read hk', run_mem_eq_zero hzero hrun (by omega) (by omega)]

/-- A moved block has the old bytes up to the copied length, then the zeros of free memory. -/
theorem ideal_move (hzero : page.Zeroed mem) (hrun : Run Step (new page mem) es h)
    (hheld : h.Held i ptr oldLayout) (hord : kind.Ordered oldLayout.size newLayout.size)
    (hfit : h.alloc.Fits newLayout) :
    IdealHeap.Step h.contents
      (.resize kind i ptr oldLayout newLayout, some (.ok (Exact.freshSlice h.alloc newLayout)))
      (h.move i newLayout (min oldLayout.size newLayout.size)).contents := by
  have hw := run_wellFormed hrun
  have hlen := hw.rounded_eq hheld.live hheld.fit
  have hfitOld := hheld.fit.2
  have hfree := run_fresh_eq_zero hzero hrun hfit
  have hn := le_rounded newLayout.size
  have hbyte : ∀ k < rounded newLayout.size,
      ((h.move i newLayout (min oldLayout.size newLayout.size)).mem.read
        (h.alloc.freshAddr newLayout.align) (rounded newLayout.size))[k]? =
      some (if k < min oldLayout.size newLayout.size then
        h.mem ((h.ledger.block i).addr + k) else 0) := by
    intro k hk
    rw [Memory.getElem?_read hk, move_mem hw hheld.live hfree hk]
  rw [contents_move hw hheld.live]
  simp only [Resize.Ordered] at hord
  cases hkind : kind.grows with
  | false =>
    rw [hkind] at hord
    have hord' : newLayout.size ≤ oldLayout.size := hord
    refine .shrink hkind (contents_of_mem hheld.live) rfl Memory.length_read ?_ ?_
    · intro k hk
      rw [hbyte k (by omega), if_pos (by omega), Memory.getElem?_read (by omega)]
    · intro k hk hk'
      rw [hbyte k hk', if_neg (by omega)]
      exact Or.inr rfl
  | true =>
    rw [hkind] at hord
    have hord' : oldLayout.size ≤ newLayout.size := hord
    have hmono := rounded_mono hord'
    refine .grow hkind (contents_of_mem hheld.live) rfl Memory.length_read ?_ ?_ ?_
    · intro k hk
      rw [hbyte k (by omega), if_pos (by omega), Memory.getElem?_read (by omega)]
    · intro k hk hk'
      rw [Memory.length_read] at hk'
      rw [hbyte k (by omega), if_neg (by omega)]
      exact Or.inr rfl
    · intro k hk hk'
      rw [Memory.length_read] at hk
      rw [hbyte k hk', if_neg (by omega)]

end

/-- Every effect is an ideal step on the arrays. -/
theorem Effect.ideal (hzero : page.Zeroed mem) (hrun : Run Step (new page mem) es h)
    {e : Event cfg} (heff : Effect h e h') : IdealHeap.Step h.contents e h'.contents := by
  have hw := run_wellFormed hrun
  cases heff with
  | allocateEmpty hi h0 =>
    rw [contents_empty h0]
    exact .allocate (contents_of_notMem hi) (rounded_eq_zero_iff.2 h0).symm
  | allocate hi _ hfit =>
    rw [contents_place (run_fresh_eq_zero hzero hrun hfit)]
    exact .allocate (contents_of_notMem hi) rfl
  | allocateFailed _ _ _ => exact .allocateFailed
  | deallocate hheld =>
    rw [contents_release hw hheld.live]
    exact .deallocate (contents_of_mem hheld.live)
  | write v hi hoff =>
    rw [contents_store hw hi hoff]
    exact .write (contents_of_mem hi) (by rwa [Memory.length_read])
  | vacate hheld hord h0 => exact ideal_vacate hw hheld hord h0
  | trim hheld hle _ _ => exact ideal_trim hw hheld hle
  | extend hkind hheld hle _ hin hroom => exact ideal_extend hzero hrun hkind hheld hle hin hroom
  | move hheld hord _ _ hfit => exact ideal_move hzero hrun hheld hord hfit
  | extendFailed | moveFailed => exact .resizeFailed

/-- Runs from a reachable heap are ideal runs on the arrays. -/
theorem run_ideal (hzero : page.Zeroed mem) (hrun : Run Step (new page mem) es h)
    {es' : List (Event cfg)} (hrest : Run Step h es' h') :
    Run IdealHeap.Step h.contents es' h'.contents := by
  have hstep : ∀ g e g' I, ((∃ es, Run Step (new page mem) es g) ∧ g.contents = I) →
      Step g e g' → ∃ I', IdealHeap.Step I e I' ∧
        (∃ es, Run Step (new page mem) es g') ∧ g'.contents = I' := by
    rintro g e g' I ⟨⟨es, hg⟩, rfl⟩ hs
    have heff := Step.effect (run_wellFormed hg) hs
    exact ⟨g'.contents, heff.ideal hzero hg, ⟨_, hg.snoc hs⟩, rfl⟩
  obtain ⟨I, hideal, -, rfl⟩ := hrest.simulation hstep ⟨⟨es, hrun⟩, rfl⟩
  exact hideal

/-- **Refinement.**  Whatever happens to the heap, in any order, happens step by step to the
ideal heap of the arrays read off the page. -/
theorem refines_ideal (hzero : page.Zeroed mem) {es' : List (Event cfg)}
    (hrun : Run Step (new page mem) es h) (hrest : Run Step h es' h') :
    Run IdealHeap.Step IdealHeap.empty es h.contents ∧
      Run IdealHeap.Step h.contents es' h'.contents := by
  have hideal := run_ideal hzero (.nil (new page mem)) hrun
  rw [contents_new] at hideal
  exact ⟨hideal, run_ideal hzero hrun hrest⟩

def fiveBytes : Layout sampleCfg := sampleLayout 5 (by decide)

/-- The first block of the sample was shrunk, and the second one was given back. -/
def sampleShrunk : Heap sampleCfg := (sampleEnd.trim 0 fiveBytes).release 1

def sampleShrinks : List (Event sampleCfg) :=
  [(.resize .shrink 0 (Exact.freshSlice sampleStart.alloc nineBytes).cast nineBytes fiveBytes,
      some (.ok (resizedSlice (Exact.freshSlice sampleStart.alloc nineBytes).cast fiveBytes))),
    (.deallocate 1 (Exact.freshSlice (sampleStart.place 0 nineBytes).alloc nineBytes).cast
      nineBytes, none)]

theorem sampleShrunk_run : Run Step sampleEnd sampleShrinks sampleShrunk :=
  .snoc (.snoc (.nil _) ⟨by decide, rfl⟩) ⟨by decide, rfl⟩

/-- The array of the first block keeps what was written to it. -/
theorem refines_ideal_sample :
    Run IdealHeap.Step IdealHeap.empty sampleEvents sampleEnd.contents ∧
      Run IdealHeap.Step sampleEnd.contents sampleShrinks sampleShrunk.contents ∧
      sampleShrunk.contents 0 = some [0, 0, 0, 7, 0, 0, 0, 0] ∧ sampleShrunk.contents 1 = none := by
  obtain ⟨hrun, hshrinks⟩ := refines_ideal sampleStart_zeroed sampleRun sampleShrunk_run
  exact ⟨hrun, hshrinks, by decide, by decide⟩

end

end Heap

end SecmemAlloc
