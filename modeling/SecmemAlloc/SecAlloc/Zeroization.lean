import SecmemAlloc.SecAlloc.Effect

/-!
# Free memory is zero

Nothing is zeroed when a block is given out: the bytes of a fresh block are zero because
every way of giving bytes back wipes them.  The invariant says that outside the live blocks
the whole memory is what it was before the first call, which on the page is zero.
-/

namespace SecmemAlloc

variable {cfg : Cfg}

namespace Heap

/-- Outside the live blocks the memory is as it was at the start. -/
def Clean (h : Heap cfg) (mem₀ : Memory UInt8) : Prop :=
  ∀ a, h.ledger.Free Block.span a → h.mem a = mem₀ a

variable {h h' : Heap cfg} {i : ℕ} {layout : Layout cfg} {mem₀ : Memory UInt8}

/-- The bytes of a live block are zero at the start, as all of the page is. -/
theorem WellFormed.initial_eq_zero (hw : h.WellFormed) (hzero : h.alloc.page.Zeroed mem₀)
    (hi : i ∈ h.ledger.live) {a : ℕ} (ha : a ∈ (h.ledger.block i).span) : mem₀ a = 0 := by
  rw [Block.mem_span] at ha
  obtain ⟨hlo, hstop⟩ := hw.bounds hi (by omega)
  have htop := hw.stackTop_le
  simp only [SecStackSinglePageAlloc.pageEnd] at htop
  exact hzero a (by omega) (by omega)

namespace Clean

theorem empty (hm : h.Clean mem₀) (hi : i ∉ h.ledger.live) : (h.empty i layout).Clean mem₀ := by
  intro a hfree
  obtain ⟨-, hrest⟩ := Ledger.free_insert_iff.1 hfree
  exact hm a (hrest.of_erase fun hmem => absurd hmem hi)

theorem place (hm : h.Clean mem₀) (hi : i ∉ h.ledger.live) : (h.place i layout).Clean mem₀ := by
  intro a hfree
  obtain ⟨-, hrest⟩ := Ledger.free_insert_iff.1 hfree
  exact hm a (hrest.of_erase fun hmem => absurd hmem hi)

theorem release (hm : h.Clean mem₀) (hw : h.WellFormed) (hzero : h.alloc.page.Zeroed mem₀)
    (hi : i ∈ h.ledger.live) : (h.release i).Clean mem₀ := by
  intro a hfree
  show h.mem.fill _ _ 0 a = mem₀ a
  by_cases ha : a ∈ (h.ledger.block i).span
  · rw [Block.fill_of_mem ha, hw.initial_eq_zero hzero hi ha]
  · rw [Block.fill_of_notMem ha]
    exact hm a (hfree.of_erase fun _ => ha)

theorem move (hm : h.Clean mem₀) (hw : h.WellFormed) (hzero : h.alloc.page.Zeroed mem₀)
    (hi : i ∈ h.ledger.live) {n : ℕ} (hn : n ≤ rounded layout.size) :
    (h.move i layout n).Clean mem₀ := by
  intro a hfree
  obtain ⟨hfresh, hrest⟩ := Ledger.free_insert_iff.1 hfree
  show (h.mem.copy _ _ n).fill _ _ 0 a = mem₀ a
  by_cases ha : a ∈ (h.ledger.block i).span
  · rw [Block.fill_of_mem ha, hw.initial_eq_zero hzero hi ha]
  · have hdst : ¬ (h.alloc.freshAddr layout.align ≤ a ∧
        a < h.alloc.freshAddr layout.align + n) := by
      rintro ⟨hlo, hhi⟩
      exact hfresh ⟨hlo, hhi.trans_le (Nat.add_le_add_left hn _)⟩
    rw [Block.fill_of_notMem ha, Memory.copy_of_notMem hdst]
    exact hm a (hrest.of_erase fun _ => ha)

theorem trim (hm : h.Clean mem₀) (hw : h.WellFormed) (hzero : h.alloc.page.Zeroed mem₀)
    (hi : i ∈ h.ledger.live) : (h.trim i layout).Clean mem₀ := by
  intro a hfree
  obtain ⟨hkept, hrest⟩ := Ledger.free_insert_iff.1 hfree
  rw [Block.mem_span] at hkept
  dsimp only at hkept
  show h.mem.fill _ _ 0 a = mem₀ a
  by_cases ha : a ∈ (h.ledger.block i).span
  · have hin := Block.mem_span.1 ha
    -- free and inside the old block, so in the end that was cut off
    rw [Memory.fill_of_mem (by omega), hw.initial_eq_zero hzero hi ha]
  · have hout := mt Block.mem_span.2 ha
    rw [Memory.fill_of_notMem (by omega)]
    exact hm a (hrest.of_erase fun _ => ha)

theorem extend (hm : h.Clean mem₀) (hle : (h.ledger.block i).len ≤ rounded layout.size) :
    (h.extend i layout).Clean mem₀ := by
  intro a hfree
  obtain ⟨hnew, hrest⟩ := Ledger.free_insert_iff.1 hfree
  refine hm a (hrest.of_erase fun _ ha => hnew ?_)
  rw [Block.mem_span] at ha ⊢
  exact ⟨ha.1, ha.2.trans_le (Nat.add_le_add_left hle _)⟩

theorem store (hm : h.Clean mem₀) (hi : i ∈ h.ledger.live) {off : ℕ}
    (hoff : off < (h.ledger.block i).len) (v : UInt8) : (h.store i off v).Clean mem₀ := by
  intro a hfree
  have hne : a ≠ (h.ledger.block i).addr + off := by
    rintro rfl
    exact hfree i hi (Block.add_mem_span hoff)
  show h.mem.store _ v a = mem₀ a
  rw [Memory.store_of_ne hne]
  exact hm a hfree

/-- Free memory on the page is zero. -/
theorem eq_zero (hm : h.Clean mem₀) (hw : h.WellFormed) (hzero : h.alloc.page.Zeroed mem₀) {a : ℕ}
    (hlo : h.alloc.stackTop ≤ a) (hhi : a < h.alloc.pageEnd) : h.mem a = 0 := by
  rw [hm a (hw.packed.free_of_lt_or_le (Or.inr hlo))]
  simp only [SecStackSinglePageAlloc.stackTop] at hlo
  exact hzero a (by omega) hhi

/-- A block that fits would be all zero. -/
theorem fresh_eq_zero (hm : h.Clean mem₀) (hw : h.WellFormed) (hzero : h.alloc.page.Zeroed mem₀)
    (hfit : h.alloc.Fits layout) :
    ∀ k < rounded layout.size, h.mem (h.alloc.freshAddr layout.align + k) = 0 := by
  intro k hk
  have hge := h.alloc.freshAddr_ge layout.align
  simp only [SecStackSinglePageAlloc.Fits] at hfit
  exact hm.eq_zero hw hzero (by omega) (by omega)

end Clean

/-- Every effect leaves the memory outside the live blocks as it was. -/
theorem Effect.clean (hw : h.WellFormed) (hzero : h.alloc.page.Zeroed mem₀) (hm : h.Clean mem₀)
    {e : Event cfg} (heff : Effect h e h') : h'.Clean mem₀ := by
  cases heff with
  | allocateEmpty hi _ => exact hm.empty hi
  | allocate hi _ _ => exact hm.place hi
  | deallocate hheld => exact hm.release hw hzero hheld.live
  | write v hi hoff => exact hm.store hi hoff v
  | vacate hheld _ _ => exact (hm.release hw hzero hheld.live).empty (Finset.notMem_erase _ _)
  | trim hheld _ _ _ => exact hm.trim hw hzero hheld.live
  | extend _ hheld hle _ _ _ =>
    exact hm.extend ((hw.rounded_eq hheld.live hheld.fit).ge.trans (rounded_mono hle))
  | move hheld _ _ _ _ =>
    exact hm.move hw hzero hheld.live ((Nat.min_le_right _ _).trans (le_rounded _))
  | allocateFailed | extendFailed | moveFailed => exact hm

section Runs

variable {page : Page cfg} {mem : Memory UInt8} {es : List (Event cfg)}

/-- In every heap reached from `new` the memory outside the live blocks is as it was. -/
theorem run_clean (hzero : page.Zeroed mem) (hrun : Run Step (new page mem) es h) :
    h.Clean mem := by
  have hinv : h.WellFormed ∧ h.alloc.page = page ∧ h.Clean mem := by
    refine hrun.invariant
      (I := fun g => g.WellFormed ∧ g.alloc.page = page ∧ g.Clean mem) ?_
      ⟨new_wellFormed page mem, rfl, fun _ _ => rfl⟩
    rintro g e g' ⟨hw, hpage, hm⟩ hs
    have heff := Step.effect hw hs
    exact ⟨heff.wellFormed hw, heff.page_eq.trans hpage, heff.clean hw (hpage ▸ hzero) hm⟩
  exact hinv.2.2

/-- The bytes of the page above the stack top are zero. -/
theorem run_mem_eq_zero (hzero : page.Zeroed mem) (hrun : Run Step (new page mem) es h) {a : ℕ}
    (hlo : h.alloc.stackTop ≤ a) (hhi : a < h.alloc.pageEnd) : h.mem a = 0 :=
  (run_clean hzero hrun).eq_zero (run_wellFormed hrun) (run_page_eq hrun ▸ hzero) hlo hhi

theorem run_fresh_eq_zero (hzero : page.Zeroed mem) (hrun : Run Step (new page mem) es h)
    (hfit : h.alloc.Fits layout) :
    ∀ k < rounded layout.size, h.mem (h.alloc.freshAddr layout.align + k) = 0 :=
  (run_clean hzero hrun).fresh_eq_zero (run_wellFormed hrun) (run_page_eq hrun ▸ hzero) hfit

/-- Growing a block leaves the bytes after its old length zero. -/
theorem Effect.grown_eq_zero (hzero : page.Zeroed mem) (hrun : Run Step (new page mem) es h)
    {kind : Resize} (hkind : kind.grows = true) {ptr : NonNull} {oldLayout newLayout : Layout cfg}
    {slice : NonNullSlice}
    (heff : Effect h (.resize kind i ptr oldLayout newLayout, some (.ok slice)) h')
    {k : ℕ} (hk : (h.ledger.block i).len ≤ k) (hk' : k < slice.len) :
    h'.mem (slice.asPtr.addr + k) = 0 := by
  have hw := run_wellFormed hrun
  cases heff with
  | vacate _ _ _ => exact absurd hk' (Nat.not_lt_zero k)
  | trim _ _ _ _ => cases hkind
  | extend hmay hheld _ _ hin hroom =>
    obtain ⟨-, -, htop⟩ := (inPlace_iff hmay).1 hin
    have hk'' : k < rounded newLayout.size := hk'
    show h.mem (ptr.asPtr.addr + k) = 0
    rw [hheld.addr_eq]
    exact run_mem_eq_zero hzero hrun (by omega) (by omega)
  | move hheld hord hne _ hfit =>
    have hk'' : k < rounded newLayout.size := hk'
    have hfit' := hheld.fit.2
    show (h.mem.copy _ _ (min oldLayout.size newLayout.size)).fill _ _ 0
      (h.alloc.freshAddr newLayout.align + k) = 0
    by_cases hold : h.alloc.freshAddr newLayout.align + k ∈ (h.ledger.block i).span
    · exact Block.fill_of_mem hold
    · rw [Block.fill_of_notMem hold, Memory.copy_of_notMem (by omega)]
      exact run_fresh_eq_zero hzero hrun hfit k hk''

/-- **Zeroization.**  In every heap reached from `new` the bytes of the page outside the live
blocks are zero; every block given out by `allocate` or `allocate_zeroed` is all zero, and
so are the bytes a block gains by growing. -/
theorem zeroization (hzero : page.Zeroed mem) (hrun : Run Step (new page mem) es h) :
    (∀ a, page.pagePtr ≤ a → a < page.pagePtr + page.pageSize →
      (∀ i ∈ h.ledger.live, a ∉ (h.ledger.block i).span) → h.mem a = 0) ∧
    (∀ zeroed i layout slice h', h.Step (.allocate zeroed i layout, some (.ok slice)) h' →
      ∀ k < slice.len, h'.mem (slice.asPtr.addr + k) = 0) ∧
    (∀ kind i ptr oldLayout newLayout slice h', Resize.grows kind = true →
      h.Step (.resize kind i ptr oldLayout newLayout, some (.ok slice)) h' →
      ∀ k, (h.ledger.block i).len ≤ k → k < slice.len → h'.mem (slice.asPtr.addr + k) = 0) := by
  have hw := run_wellFormed hrun
  refine ⟨?_, ?_, ?_⟩
  · intro a hlo hhi hfree
    rw [run_clean hzero hrun a hfree]
    exact hzero a hlo hhi
  · intro zeroed i layout slice h' hs k hk
    cases Step.effect hw hs with
    | allocateEmpty _ _ => exact absurd hk (Nat.not_lt_zero k)
    | allocate _ _ hfit => exact run_fresh_eq_zero hzero hrun hfit k hk
  · intro kind i ptr oldLayout newLayout slice h' hkind hs k hk hk'
    exact (Step.effect hw hs).grown_eq_zero hzero hrun hkind hk hk'

theorem zeroization_sample : sampleEnd.mem 65600 = 0 :=
  (zeroization sampleStart_zeroed sampleRun).1 65600 (by decide) (by decide) (by decide)

end Runs

end Heap

end SecmemAlloc
