import SecmemAlloc.Rust.Contract
import SecmemAlloc.SecAlloc.Zeroization

/-!
# The allocator meets the `Allocator` contract

With the representation invariant and the zero free memory as its own invariant, the
allocator is an implementation of `Allocator` that any generic client may use.
-/

namespace SecmemAlloc

variable {cfg : Cfg}

namespace SecStackSinglePageAlloc

/-- `impl Allocator for SecStackSinglePageAlloc`. -/
def allocator : Allocator cfg (SecStackSinglePageAlloc cfg) where
  allocate := allocate cfg
  allocateZeroed := allocateZeroed cfg
  deallocate := deallocate cfg
  grow := grow cfg
  growZeroed := growZeroed cfg
  shrink := shrink cfg

/-- The allocator's own invariant: the heap is well formed and free memory on its page is
zero. -/
def Serves (L : Ledger Block) (a : SecStackSinglePageAlloc cfg) (mem : Memory UInt8) : Prop :=
  (Heap.mk a mem L).WellFormed ∧
    ∃ mem₀, a.page.Zeroed mem₀ ∧ (Heap.mk a mem L).Clean mem₀

variable {L : Ledger Block} {m : SecMachine cfg} {i : ℕ} {layout : Layout cfg}

theorem grants_zeroSlice (page : Page cfg) (L : Ledger Block) (h0 : layout.size = 0) :
    Grants L layout (.ofSlice (Exact.zeroSlice layout) layout) where
  addr_ne_zero := layout.align_pos.ne'
  align_dvd := dvd_rfl
  size_le := h0.le
  stop_lt := (layout.bounds page.four_le_pointerWidth).1
  apart := fun _ _ => Or.inl rfl

theorem grants_freshSlice (hw : (Heap.mk m.self m.mem L).WellFormed) (hfit : m.self.Fits layout) :
    Grants L layout (.ofSlice (Exact.freshSlice m.self layout) layout) where
  addr_ne_zero := m.self.freshAddr_ne_zero layout.align
  align_dvd := m.self.align_dvd_freshAddr layout.isPowerOfTwo_align
  size_le := le_rounded layout.size
  stop_lt := hfit.trans_lt m.self.pageEnd_lt
  apart := by
    intro j hj
    by_cases hne : (L.block j).len = 0
    · exact Or.inr (Or.inl hne)
    · have hstop := (hw.bounds hj hne).2
      exact Or.inr (Or.inr (Or.inr (hstop.trans (m.self.freshAddr_ge layout.align))))

/-- What a call of `allocate` or `allocate_zeroed` answers. -/
theorem serves_allocate (hm : Serves L m.self m.mem) (hi : i ∉ L.live) (layout : Layout cfg) :
    L.Untouched m.mem (Exact.allocate layout m).2.mem ∧
      Allocator.Answers Serves L i layout (Exact.allocate layout m).2
        (Exact.allocate layout m).1 ∧
      ∀ slice, (Exact.allocate layout m).1 = .ok slice →
        ∀ k < slice.len, (Exact.allocate layout m).2.mem (slice.asPtr.addr + k) = 0 := by
  obtain ⟨hw, mem₀, hzero, hclean⟩ := hm
  have hkeep : L.Untouched m.mem m.mem := fun _ _ _ _ => rfl
  simp only [Exact.allocate]
  by_cases h0 : layout.size = 0
  · rw [if_pos h0]
    refine ⟨hkeep, ⟨grants_zeroSlice m.self.page L h0, hw.empty hi h0, mem₀, hzero,
      hclean.empty hi⟩, ?_⟩
    rintro _ ⟨⟩ k hk
    exact absurd hk (Nat.not_lt_zero k)
  rw [if_neg h0]
  by_cases hfit : m.self.Fits layout
  · rw [if_pos hfit]
    refine ⟨hkeep, ⟨grants_freshSlice hw hfit, hw.place hi h0 hfit, mem₀, hzero,
      hclean.place hi⟩, ?_⟩
    rintro _ ⟨⟩ k hk
    have hge := m.self.freshAddr_ge layout.align
    have hk' : k < rounded layout.size := hk
    simp only [Fits] at hfit
    have hfree : L.Free Block.span (m.self.freshAddr layout.align + k) :=
      hw.packed.free_of_lt_or_le (Or.inr (hge.trans (Nat.le_add_right _ k)))
    show m.mem (m.self.freshAddr layout.align + k) = 0
    simp only [stackTop] at hge
    simp only [pageEnd] at hfit
    rw [show m.mem (m.self.freshAddr layout.align + k) = mem₀ _ from hclean _ hfree]
    exact hzero _ (by omega) (by omega)
  · rw [if_neg hfit]
    refine ⟨hkeep, ⟨hw, mem₀, hzero, hclean⟩, ?_⟩
    rintro _ ⟨⟩

/-- What a call of `deallocate` leaves. -/
theorem serves_deallocate {ptr : NonNull} (hm : Serves L m.self m.mem)
    (hheld : Allocator.Held L i ptr layout) :
    (L.erase i).Untouched m.mem (Exact.deallocate ptr layout m).mem ∧
      Serves (L.erase i) (Exact.deallocate ptr layout m).self
        (Exact.deallocate ptr layout m).mem := by
  obtain ⟨hw, mem₀, hzero, hclean⟩ := hm
  have hr := hw.rounded_eq hheld.live hheld.fit
  have hself : (Exact.deallocate ptr layout m).self =
      ((Heap.mk m.self m.mem L).release i).alloc := by
    rw [Heap.deallocate_self fun _ => hw.release_zero _, hheld.addr_eq, hr]
    rfl
  have hmem : (Exact.deallocate ptr layout m).mem = ((Heap.mk m.self m.mem L).release i).mem := by
    rw [Heap.deallocate_mem, hheld.addr_eq, hr]
    rfl
  rw [hself, hmem]
  refine ⟨?_, hw.release hheld.live, mem₀, hzero, hclean.release hw hzero hheld.live⟩
  intro j hj a ha
  obtain ⟨hji, hj'⟩ := Finset.mem_erase.1 hj
  exact Block.fill_of_notMem ((hw.packed.apart j hj' i hheld.live hji).notMem ha)

/-- **Contract.**  The allocator meets the contract of `Allocator`. -/
theorem contract : (allocator : Allocator cfg (SecStackSinglePageAlloc cfg)).Contract Serves where
  client := by
    rintro L a mem mem' ⟨hw, mem₀, hzero, hclean⟩ hmem
    refine ⟨⟨hw.packed, hw.valid, hw.bytes_eq, hw.eight_dvd_stackOffset, hw.stackOffset_le,
      hw.reset⟩, mem₀, hzero, fun x hx => (hmem x hx).trans (hclean x hx)⟩
  allocate := by
    intro L m i layout hm hi
    obtain ⟨hkeep, hans, -⟩ := serves_allocate hm hi layout
    exact ⟨_, _, allocate_run hm.1.consistent layout, hkeep, hans⟩
  allocateZeroed := by
    intro L m i layout hm hi
    exact ⟨_, _, allocateZeroed_run hm.1.consistent layout, serves_allocate hm hi layout⟩
  deallocate := by
    intro L m i ptr layout hm hheld
    have howned : Owned m ptr layout :=
      hm.1.owned (h := Heap.mk m.self m.mem L) ⟨hheld.live, hheld.addr_eq, hheld.fit⟩
    exact ⟨_, deallocate_run hm.1.consistent howned, serves_deallocate hm hheld⟩

/-- A new allocator serves the empty ledger. -/
theorem serves_new {page : Page cfg} {mem : Memory UInt8} (hzero : page.Zeroed mem) :
    Serves (Heap.new page mem).ledger (Heap.new page mem).alloc mem :=
  ⟨Heap.new_wellFormed page mem, mem, hzero, fun _ _ => rfl⟩

end SecStackSinglePageAlloc

end SecmemAlloc
