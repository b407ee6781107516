import SecmemAlloc.SecAlloc.Effect

/-!
# The representation invariant and the absence of faults

What the representation invariant says about every heap reached from `new`, and what it is
good for: no legal operation faults, however the crate is built.  A fault is an addition or
subtraction that leaves the range of `usize`, a failed check, or undefined behaviour.
-/

namespace SecmemAlloc

variable {cfg : Cfg}

namespace Heap

variable {h : Heap cfg} {page : Page cfg} {mem : Memory UInt8} {es : List (Event cfg)}

/-! ## The representation invariant -/

/-- Two live blocks with bytes do not overlap. -/
theorem WellFormed.disjoint (hw : h.WellFormed) {i j : ℕ} (hi : i ∈ h.ledger.live)
    (hj : j ∈ h.ledger.live) (hij : i ≠ j) (hine : (h.ledger.block i).size ≠ 0)
    (hjne : (h.ledger.block j).size ≠ 0) :
    (h.ledger.block i).addr + (h.ledger.block i).len ≤ (h.ledger.block j).addr ∨
      (h.ledger.block j).addr + (h.ledger.block j).len ≤ (h.ledger.block i).addr := by
  have hi0 := mt (hw.len_eq_zero_iff hi).1 hine
  have hj0 := mt (hw.len_eq_zero_iff hj).1 hjne
  rcases hw.packed.apart i hi j hj hij with h0 | h0 | hle | hle
  · exact absurd h0 hi0
  · exact absurd h0 hj0
  · exact Or.inl hle
  · exact Or.inr hle

/-- **Representation.**  In every heap reached from `new` the two counters describe the live
blocks, and the allocator passes its own consistency check. -/
theorem representation (hrun : Run Step (new page mem) es h) :
    (∀ i ∈ h.ledger.live, (h.ledger.block i).size ≠ 0 →
      page.pagePtr ≤ (h.ledger.block i).addr ∧ 8 ∣ (h.ledger.block i).addr ∧
      (h.ledger.block i).align ∣ (h.ledger.block i).addr ∧
      (h.ledger.block i).len = rounded (h.ledger.block i).size ∧
      (h.ledger.block i).addr + (h.ledger.block i).len ≤ page.pagePtr + h.alloc.stackOffset) ∧
    (∀ i ∈ h.ledger.live, ∀ j ∈ h.ledger.live, i ≠ j →
      (h.ledger.block i).size ≠ 0 → (h.ledger.block j).size ≠ 0 →
      (h.ledger.block i).addr + (h.ledger.block i).len ≤ (h.ledger.block j).addr ∨
        (h.ledger.block j).addr + (h.ledger.block j).len ≤ (h.ledger.block i).addr) ∧
    (∀ i ∈ h.ledger.live, (h.ledger.block i).size = 0 →
      (h.ledger.block i).addr ≠ 0 ∧ (h.ledger.block i).align ∣ (h.ledger.block i).addr ∧
      (h.ledger.block i).len = 0) ∧
    8 ∣ h.alloc.stackOffset ∧ h.alloc.stackOffset ≤ page.pageSize ∧
    h.alloc.bytes = ∑ i ∈ h.ledger.live, (h.ledger.block i).len ∧
    8 ∣ h.alloc.bytes ∧ h.alloc.bytes ≤ h.alloc.stackOffset ∧
    (h.alloc.bytes = 0 → h.alloc.stackOffset = 0) ∧
    h.alloc.page = page ∧
    (SecStackSinglePageAlloc.consistencyCheck cfg).run h.machine = .ok ((), h.machine) := by
  have hw := run_wellFormed hrun
  have hpage := run_page_eq hrun
  refine ⟨?_, ?_, ?_, hw.eight_dvd_stackOffset, hpage ▸ hw.stackOffset_le, hw.bytes_eq,
    hw.eight_dvd_bytes, hw.bytes_le, hw.reset, hpage,
    SecStackSinglePageAlloc.consistencyCheck_run hw.consistent⟩
  · intro i hi hne
    have hv := hw.valid i hi
    have hlen := mt (hw.len_eq_zero_iff hi).1 hne
    obtain ⟨hlo, hstop⟩ := hw.bounds hi hlen
    rw [SecStackSinglePageAlloc.stackTop, hpage] at hstop
    exact ⟨hpage ▸ hlo, hv.eight_dvd hlen, hv.align_dvd, hv.len_eq, hstop⟩
  · intro i hi j hj hij hine hjne
    exact hw.disjoint hi hj hij hine hjne
  · intro i hi h0
    have hv := hw.valid i hi
    exact ⟨hv.addr_ne_zero, hv.align_dvd, (hw.len_eq_zero_iff hi).2 h0⟩

theorem representation_sample :
    sampleEnd.alloc.bytes = ∑ i ∈ sampleEnd.ledger.live, (sampleEnd.ledger.block i).len :=
  (representation sampleRun).2.2.2.2.2.1

/-! ## No fault -/

/-- A pointer to the stack top of which no aligned address is representable admits no fresh
block. -/
theorem not_fits_of_unrepresentable {layout : Layout cfg}
    (hnone : ¬ ∃ x < 2 ^ cfg.pointerWidth, h.alloc.stackTop ≤ x ∧ layout.align ∣ x) :
    ¬ h.alloc.Fits layout := by
  intro hfit
  have hend := h.alloc.pageEnd_lt
  have hge := h.alloc.freshAddr_ge layout.align
  have hdvd := h.alloc.align_dvd_freshAddr layout.isPowerOfTwo_align
  simp only [SecStackSinglePageAlloc.Fits] at hfit
  exact hnone ⟨h.alloc.freshAddr layout.align, by omega, hge, hdvd⟩

/-- **No fault.**  In every heap reached from `new` every legal operation returns, whatever
checks the crate is built with.  Rounding a size does not wrap, and the aligned pointer is
null exactly when no aligned address is representable, which is an allocation error. -/
theorem no_fault (hrun : Run Step (new page mem) es h) :
    (∀ op, h.Legal op → ∃ r, h.exec op = .ok r) ∧
    (∀ layout : Layout cfg,
      wrappingAdd cfg layout.size 7 &&& usizeNot cfg 7 = rounded layout.size ∧
      (alignUpUsize cfg layout.size 8).run h.machine = .ok (rounded layout.size, h.machine) ∧
      (rounded layout.size = 0 ↔ layout.size = 0)) ∧
    (∀ layout : Layout cfg, ∃ p,
      (alignUpPtrMut cfg (page.asPtrMut.offset h.alloc.stackOffset) layout.align).run h.machine =
        .ok (p, h.machine) ∧
      (p.isNull = true ↔ ¬ ∃ x < 2 ^ cfg.pointerWidth,
        page.pagePtr + h.alloc.stackOffset ≤ x ∧ layout.align ∣ x) ∧
      (p.isNull = true → layout.size ≠ 0 →
        (∀ zeroed i, i ∉ h.ledger.live →
          h.exec (.allocate zeroed i layout) = .ok (some (.error ⟨⟩), h)) ∧
        ∀ kind i ptr oldLayout, h.Legal (.resize kind i ptr oldLayout layout) →
          ¬ h.InPlace kind i layout →
          h.exec (.resize kind i ptr oldLayout layout) = .ok (some (.error ⟨⟩), h))) := by
  have hw := run_wellFormed hrun
  obtain rfl := run_page_eq hrun
  refine ⟨?_, ?_, ?_⟩
  · intro op hl
    obtain ⟨r, hexec, -⟩ := exec_effect hw hl
    exact ⟨r, hexec⟩
  · intro layout
    exact ⟨SecStackSinglePageAlloc.roundedReqSize_eq h.alloc.page layout,
      SecStackSinglePageAlloc.alignUpUsize_size_run h.alloc.page layout, rounded_eq_zero_iff⟩
  intro layout
  obtain ⟨halign, -⟩ := layout.bounds h.alloc.page.four_le_pointerWidth
  have htop := hw.stackTop_le
  have hend := h.alloc.pageEnd_lt
  have hpos : 0 < h.alloc.stackTop :=
    h.alloc.page.pagePtr_pos.trans_le (Nat.le_add_right _ _)
  have hnull := alignUp_mod_two_pow_eq_zero_iff layout.isPowerOfTwo_align halign hpos (by omega)
  refine ⟨_, alignUpPtrMut_run layout.isPowerOfTwo_align halign, beq_iff_eq.trans hnull, ?_⟩
  intro hp hne
  have hfit := not_fits_of_unrepresentable (hnull.1 (beq_iff_eq.1 hp))
  constructor
  · intro zeroed i hi
    have hl : h.Legal (.allocate zeroed i layout) := hi
    obtain ⟨⟨ans, h'⟩, hexec, heff⟩ := exec_effect hw hl
    rw [hexec]
    cases heff with
    | allocateEmpty _ h0 => exact absurd h0 hne
    | allocate _ _ hfit' => exact absurd hfit' hfit
    | allocateFailed _ _ _ => rfl
  · intro kind i ptr oldLayout hl hin
    obtain ⟨⟨ans, h'⟩, hexec, heff⟩ := exec_effect hw hl
    rw [hexec]
    cases heff with
    | vacate _ _ h0 => exact absurd h0 hne
    | trim _ _ _ hin' => exact absurd hin' hin
    | extend _ _ _ _ hin' _ => exact absurd hin' hin
    | extendFailed _ _ _ _ hin' _ => exact absurd hin' hin
    | move _ _ _ _ hfit' => exact absurd hfit' hfit
    | moveFailed _ _ _ _ _ => rfl

theorem no_fault_sample : ∃ r, sampleEnd.exec (.allocate false 2 nineBytes) = .ok r :=
  (no_fault sampleRun).1 _ (by decide)

end Heap

end SecmemAlloc
