import SecmemAlloc.SecAlloc.Exact
import Mathlib.Tactic.IntervalCases

/-!
# The code computes the exact calls

One lemma for every function of the allocator: from consistent cells, and for a block the
allocator holds, the code returns, without a fault and in every build, what `Exact` says.
-/

namespace SecmemAlloc

namespace SecStackSinglePageAlloc

variable {cfg : Cfg} {s : SecMachine cfg} {a : SecStackSinglePageAlloc cfg}

/-! ## Cells and small helpers -/

theorem getPage_run (s : SecMachine cfg) : getPage.run s = .ok (s.self.page, s) := rfl

theorem getBytes_run (s : SecMachine cfg) : getBytes.run s = .ok (s.self.bytes, s) := rfl

theorem getStackOffset_run (s : SecMachine cfg) :
    getStackOffset.run s = .ok (s.self.stackOffset, s) := rfl

theorem setBytes_run (v : ℕ) (s : SecMachine cfg) :
    (setBytes v).run s = .ok ((), { s with self := { s.self with bytes := v } }) := rfl

theorem setStackOffset_run (v : ℕ) (s : SecMachine cfg) :
    (setStackOffset v).run s = .ok ((), { s with self := { s.self with stackOffset := v } }) := rfl

theorem Consistent.stackTop_le (hc : a.Consistent) : a.stackTop ≤ a.pageEnd :=
  Nat.add_le_add_left hc.stackOffset_le _

theorem pageEnd_lt (a : SecStackSinglePageAlloc cfg) : a.pageEnd < 2 ^ cfg.pointerWidth :=
  a.page.pageEnd_lt

theorem Consistent.eight_dvd_stackTop (hc : a.Consistent) : 8 ∣ a.stackTop :=
  (Nat.dvd_add_iff_right a.page.eight_dvd_pagePtr).1 hc.eight_dvd_stackOffset

/-- The rounding in `allocate_zeroed`, written out there with masks, does not wrap. -/
theorem roundedReqSize_eq (page : Page cfg) (layout : Layout cfg) :
    wrappingAdd cfg layout.size 7 &&& usizeNot cfg 7 = rounded layout.size := by
  obtain ⟨-, hsize⟩ := layout.bounds page.four_le_pointerWidth
  have h8 := page.eight_lt
  have hlt : rounded layout.size < 2 ^ cfg.pointerWidth := by
    rw [rounded_eq]
    omega
  exact (wrapping_mask_eq_alignUp ⟨3, rfl⟩ h8).trans (Nat.mod_eq_of_lt hlt)

/-- The rounding by `align_up_usize` does not wrap. -/
theorem alignUpUsize_size_run (page : Page cfg) (layout : Layout cfg) :
    (alignUpUsize cfg layout.size 8).run s = .ok (rounded layout.size, s) := by
  obtain ⟨-, hsize⟩ := layout.bounds page.four_le_pointerWidth
  have h8 := page.eight_lt
  refine alignUpUsize_run_of_lt ⟨3, rfl⟩ h8 ?_
  rw [alignUp_eq_div_mul]
  omega

theorem consistencyCheck_run (hc : s.self.Consistent) :
    (consistencyCheck cfg).run s = .ok ((), s) := by
  obtain ⟨hoff, hle, hbytes, hbytes8⟩ := hc
  have hpow : (8 : ℕ).isPowerOfTwo := ⟨3, rfl⟩
  have hmod {n : ℕ} (h : 8 ∣ n) : (n % 8 == 0) = true := beq_iff_eq.2 (Nat.mod_eq_zero_of_dvd h)
  rw [consistencyCheck, Exec.run_bind_ok (getBytes_run s), Exec.run_bind_ok (getStackOffset_run s),
    Exec.run_bind_ok (assert_run (hmod hoff)), Exec.run_bind_ok (getPage_run s),
    Exec.run_bind_ok (assert_run (decide_eq_true hle)),
    Exec.run_bind_ok (isAlignedPtr_run hpow), Page.asPtr_addr,
    Exec.run_bind_ok (assert_run (hmod s.self.page.eight_dvd_pagePtr)),
    Exec.run_bind_ok (assert_run (decide_eq_true hbytes)), assert_run (hmod hbytes8)]

theorem allocateZerosized_run (layout : Layout cfg) (s : SecMachine cfg) :
    (allocateZerosized cfg layout.align).run s = .ok (Exact.zeroSlice layout, s) := by
  rw [allocateZerosized, Exec.run_bind_ok
    (debugCheckedPrecondition_pure (isPowerOfTwo_eq_true layout.isPowerOfTwo_align)),
    newUnchecked_run layout.align_pos.ne']
  rfl

/-! ## `allocate_zeroed` -/

/-- Up to alignment 8 a fresh block starts at the stack top. -/
theorem Consistent.freshAddr_of_le (hc : a.Consistent) {align : ℕ} (h : align ≤ 8) :
    a.freshAddr align = a.stackTop := by
  rw [freshAddr, Nat.max_eq_left h, alignUp_eq_self (by decide) hc.eight_dvd_stackTop]

theorem place_of_le (hc : a.Consistent) {layout : Layout cfg} (h : layout.align ≤ 8) :
    a.place layout = { a with
      bytes := a.bytes + rounded layout.size
      stackOffset := a.stackOffset + rounded layout.size } := by
  rw [place, hc.freshAddr_of_le h, stackTop, Nat.add_sub_cancel_left]

/-- Both paths end by setting the two cells and returning the slice. -/
theorem commit_run {offset len : ℕ} {slice : NonNullSlice}
    (h : s.self.bytes + len < 2 ^ cfg.pointerWidth) :
    (do setStackOffset offset
        setBytes (← usizeAdd cfg (← getBytes) len)
        pure (.ok slice) : SecCode cfg AllocResult).run s =
      .ok (.ok slice, { s with self := { s.self with
        bytes := s.self.bytes + len, stackOffset := offset } }) := by
  rw [Exec.run_bind_ok (setStackOffset_run offset s), Exec.run_bind_ok (getBytes_run _),
    Exec.run_bind_ok (usizeAdd_run h), Exec.run_bind_ok (setBytes_run _ _), Exec.run_pure]

/-- The alignments of the fast path. -/
theorem align_le_eight {layout : Layout cfg} (h : layout.align ≤ 8) :
    (layout.align == 1 || layout.align == 2 || layout.align == 4 || layout.align == 8) = true := by
  obtain ⟨k, hk⟩ := layout.isPowerOfTwo_align
  have hk3 : k ≤ 3 := (Nat.pow_le_pow_iff_right (a := 2) (by decide)).1 (by omega)
  rw [hk]
  interval_cases k <;> rfl

theorem allocateZeroed_run (hc : s.self.Consistent) (layout : Layout cfg) :
    (allocateZeroed cfg layout).run s = .ok (Exact.allocate layout s) := by
  have hend := s.self.pageEnd_lt
  have htop := hc.stackTop_le
  have hoff := hc.stackOffset_le
  have hbytes := hc.bytes_le
  have hpos := s.self.page.pagePtr_pos
  have hpow := layout.isPowerOfTwo_align
  obtain ⟨halign, -⟩ := layout.bounds s.self.page.four_le_pointerWidth
  have hfresh := s.self.freshAddr_ge layout.align
  simp only [allocateZeroed, Exact.allocate]
  rw [Exec.run_bind_ok (debugCheckedPrecondition_pure (isPowerOfTwo_eq_true hpow))]
  by_cases hsize : layout.size = 0
  · rw [if_pos hsize, if_pos hsize, Exec.run_bind_ok (allocateZerosized_run layout s),
      Exec.run_pure]
  have hr := rounded_ne_zero hsize
  simp only [if_neg hsize, roundedReqSize_eq s.self.page layout, unlikely, beq_iff_eq, if_neg hr]
  rw [Exec.run_bind_ok (getPage_run s), Exec.run_bind_ok (getStackOffset_run s),
    Exec.run_bind_ok (usizeSub_run hoff)]
  simp only [stackTop, pageEnd] at *
  by_cases hroom : rounded layout.size > s.self.page.pageSize - s.self.stackOffset
  · have hfit : ¬ s.self.Fits layout := by
      simp only [Fits, pageEnd]
      omega
    rw [if_pos hroom, if_neg hfit, Exec.run_pure]
  have hptr : s.self.page.asPtrMut.addr + s.self.stackOffset < 2 ^ cfg.pointerWidth := by
    rw [Page.asPtrMut_addr]
    omega
  rw [if_neg hroom, Exec.run_bind_ok (getStackOffset_run s), Exec.run_bind_ok (ptrAdd_run hptr)]
  by_cases hlow : layout.align ≤ 8
  · -- the fast path
    have hfit : s.self.Fits layout := by
      rw [Fits, hc.freshAddr_of_le hlow, stackTop, pageEnd]
      omega
    have hnull : (s.self.page.asPtrMut.offset s.self.stackOffset).addr ≠ 0 := by
      rw [Ptr.offset_addr, Page.asPtrMut_addr]
      omega
    rw [if_pos hlow, if_pos hfit,
      Exec.run_bind_ok (debugAssert_run (by rw [align_le_eight hlow]; rfl)),
      Exec.run_bind_ok (newUnchecked_run hnull), Exec.run_bind_ok (getStackOffset_run s),
      Exec.run_bind_ok (usizeAdd_run (by omega)), commit_run (by omega), place_of_le hc hlow]
    simp only [Exact.freshSlice, hc.freshAddr_of_le hlow, Ptr.offset, Ptr.withAddr,
      Page.asPtrMut_addr, stackTop]
  · -- the slower path for large align
    have haddr : s.self.freshAddr layout.align =
        alignUp (s.self.page.pagePtr + s.self.stackOffset) layout.align := by
      rw [freshAddr, Nat.max_eq_right (by omega), stackTop]
    rw [if_neg hlow, Exec.run_bind_ok (alignUpPtrMut_run hpow halign), Ptr.offset_addr,
      Page.asPtrMut_addr, ← haddr]
    by_cases hwrap : s.self.freshAddr layout.align < 2 ^ cfg.pointerWidth
    · have hne := s.self.freshAddr_ne_zero layout.align
      have hbase : s.self.page.asPtr.addr ≤ s.self.freshAddr layout.align := by
        rw [Page.asPtr_addr]
        omega
      rw [Nat.mod_eq_of_lt hwrap, if_neg (by simpa [Ptr.isNull] using hne),
        Exec.run_bind_ok (largeOffsetFrom_run hbase), Ptr.withAddr_addr, Page.asPtr_addr]
      by_cases hout : s.self.freshAddr layout.align - s.self.page.pagePtr ≥ s.self.page.pageSize
      · have hfit : ¬ s.self.Fits layout := by
          simp only [Fits, pageEnd]
          omega
        rw [if_pos hout, if_neg hfit, Exec.run_pure]
      rw [if_neg hout, Exec.run_bind_ok (usizeSub_run (by omega))]
      by_cases hlast : rounded layout.size >
          s.self.page.pageSize - (s.self.freshAddr layout.align - s.self.page.pagePtr)
      · have hfit : ¬ s.self.Fits layout := by
          simp only [Fits, pageEnd]
          omega
        rw [if_pos hlast, if_neg hfit, Exec.run_pure]
      · have hfit : s.self.Fits layout := by
          simp only [Fits, pageEnd]
          omega
        rw [if_neg hlast, if_pos hfit, Exec.run_bind_ok (newUnchecked_run hne),
          Exec.run_bind_ok (usizeAdd_run (by omega)), commit_run (by omega)]
        rfl
    · -- aligning wraps the address space
      have hle : s.self.freshAddr layout.align ≤ 2 ^ cfg.pointerWidth := by
        rw [haddr]
        exact alignUp_le_two_pow hpow halign (by omega)
      have hfit : ¬ s.self.Fits layout := by
        simp only [Fits, pageEnd]
        omega
      have hzero : s.self.freshAddr layout.align % 2 ^ cfg.pointerWidth = 0 := by
        rw [show s.self.freshAddr layout.align = 2 ^ cfg.pointerWidth by omega, Nat.mod_self]
      rw [hzero, if_pos (by simp [Ptr.isNull]), if_neg hfit, Exec.run_pure]

theorem allocate_run (hc : s.self.Consistent) (layout : Layout cfg) :
    (allocate cfg layout).run s = .ok (Exact.allocate layout s) := allocateZeroed_run hc layout

/-! ## `deallocate` -/

theorem checkInUse_run {ptr : NonNull} (hc : s.self.Consistent)
    (hlo : s.self.page.pagePtr ≤ ptr.asPtr.addr) (hhi : ptr.asPtr.addr ≤ s.self.stackTop) :
    (checkInUse cfg ptr).run s = .ok ((), s) := by
  have htop : s.self.page.pagePtr + s.self.stackOffset < 2 ^ cfg.pointerWidth :=
    hc.stackTop_le.trans_lt s.self.pageEnd_lt
  rw [checkInUse, Exec.run_bind_ok (getPage_run s), Page.asPtr_addr,
    Exec.run_bind_ok (debugCheckedPrecondition_pure (decide_eq_true hlo))]
  apply debugCheckedPrecondition_run
  rw [Exec.run_bind_ok (getStackOffset_run s), Exec.run_bind_ok (usizeAdd_run htop)]
  exact congrArg (fun b => Except.ok (b, s)) (decide_eq_true hhi)

theorem deallocate_run {ptr : NonNull} {layout : Layout cfg} (hc : s.self.Consistent)
    (hheld : layout.size ≠ 0 → s.self.Holds ptr.asPtr.addr layout.size) :
    (deallocate cfg ptr layout).run s = .ok ((), Exact.deallocate ptr layout s) := by
  unfold deallocate Exact.deallocate
  by_cases hsize : layout.size = 0
  · rw [if_pos hsize, if_pos hsize, Exec.run_pure]
  obtain ⟨hlo, -, hstop, hlen⟩ := hheld hsize
  have htop := hc.stackTop_le
  have hend := s.self.pageEnd_lt
  have hwipe : (s.self.page.asPtrMut.withAddr ptr.asPtr.addr).addr + rounded layout.size <
      2 ^ cfg.pointerWidth := by
    rw [Ptr.withAddr_addr]
    omega
  rw [if_neg hsize, if_neg hsize, Exec.run_bind_ok (checkInUse_run hc hlo (by omega)),
    Exec.run_bind_ok (alignUpUsize_size_run s.self.page layout), Exec.run_bind_ok (getPage_run s)]
  dsimp only
  rw [Exec.run_bind_ok (zeroizeMem_run s hwipe), Exec.run_bind_ok (getBytes_run _),
    Machine.fill_self, Exec.run_bind_ok (usizeSub_run hlen), Exec.run_bind_ok (setBytes_run _ _),
    Exec.run_bind_ok (getBytes_run _)]
  dsimp only [Machine.fill_self, release]
  by_cases hlast : s.self.bytes = rounded layout.size
  · rw [if_pos (by omega), if_pos hlast, setStackOffset_run]
  · have hbase : s.self.page.asPtr.addr ≤
        (s.self.page.asPtrMut.withAddr ptr.asPtr.addr).addr := hlo
    have hoff : ptr.asPtr.addr - s.self.page.pagePtr + rounded layout.size =
        s.self.stackOffset ↔ ptr.asPtr.addr + rounded layout.size = s.self.stackTop := by
      simp only [stackTop]
      omega
    rw [if_neg (by omega), if_neg hlast, Exec.run_bind_ok (largeOffsetFrom_run hbase),
      Ptr.withAddr_addr, Page.asPtr_addr, Exec.run_bind_ok (usizeAdd_run (by omega)),
      Exec.run_bind_ok (getStackOffset_run _)]
    dsimp only
    by_cases htopEq : ptr.asPtr.addr + rounded layout.size = s.self.stackTop
    · rw [if_pos (hoff.2 htopEq), if_pos htopEq, setStackOffset_run]
    · rw [if_neg (mt hoff.1 htopEq), if_neg htopEq, Exec.run_pure]

/-! ## Reallocation -/

/-- What a caller owes a resizing call: the block is held, unless it is empty. -/
abbrev Owned (s : SecMachine cfg) (ptr : NonNull) (layout : Layout cfg) : Prop :=
  layout.size ≠ 0 → s.self.Holds ptr.asPtr.addr layout.size

variable {ptr : NonNull} {oldLayout newLayout : Layout cfg}

/-- A call of `allocate` leaves consistent cells and the blocks in use as they are. -/
theorem allocate_keeps (hc : s.self.Consistent) (layout : Layout cfg) :
    (Exact.allocate layout s).2.self.Consistent ∧ ∀ addr size, s.self.Holds addr size →
      (Exact.allocate layout s).2.self.Holds addr size := by
  simp only [Exact.allocate]
  split
  · exact ⟨hc, fun _ _ h => h⟩
  · split
    · exact ⟨hc.place ‹_›, fun _ _ h => h.place layout⟩
    · exact ⟨hc, fun _ _ h => h⟩

theorem reallocCopying_run {ordered : Bool} {len : ℕ} (hc : s.self.Consistent)
    (hheld : Owned s ptr oldLayout) (hordered : ordered = true) :
    (reallocCopying cfg ordered len ptr oldLayout newLayout).run s =
      .ok (Exact.realloc len ptr oldLayout newLayout s) := by
  have hrun := allocate_run hc newLayout
  obtain ⟨htc, hkeep⟩ := allocate_keeps hc newLayout
  simp only [Exact.realloc]
  rcases hres : Exact.allocate newLayout s with ⟨e | newPtr, t⟩ <;>
    rw [hres] at hrun htc hkeep <;>
    rw [reallocCopying, Exec.run_bind_ok (debugCheckedPrecondition_pure hordered),
      Exec.run_bind_ok hrun]
  · rfl
  · have hcopy : (copyNonoverlapping ptr.asPtr (nonnullAsMutPtr newPtr) len : SecCode cfg Unit).run t
        = .ok ((), t.copy ptr.asPtr newPtr.asPtr len) := rfl
    have hfree : (deallocate cfg ptr oldLayout).run (t.copy ptr.asPtr newPtr.asPtr len) =
        .ok ((), Exact.deallocate ptr oldLayout (t.copy ptr.asPtr newPtr.asPtr len)) :=
      deallocate_run htc fun hne => hkeep _ _ (hheld hne)
    dsimp only
    rw [Exec.run_bind_ok hcopy, Exec.run_bind_ok hfree, Exec.run_pure]

theorem reallocShrink_run (hc : s.self.Consistent) (hheld : Owned s ptr oldLayout)
    (hle : newLayout.size ≤ oldLayout.size) :
    (reallocShrink cfg ptr oldLayout newLayout).run s =
      .ok (Exact.realloc newLayout.size ptr oldLayout newLayout s) :=
  reallocCopying_run hc hheld (decide_eq_true hle)

theorem reallocGrow_run (hc : s.self.Consistent) (hheld : Owned s ptr oldLayout)
    (hle : oldLayout.size ≤ newLayout.size) :
    (reallocGrow cfg ptr oldLayout newLayout).run s =
      .ok (Exact.realloc oldLayout.size ptr oldLayout newLayout s) :=
  reallocCopying_run hc hheld (decide_eq_true hle)

/-! ## `shrink`, `grow_zeroed` and `grow` -/

theorem ptrIsLastAllocation_run {len : ℕ} (htop : s.self.stackTop ≤ s.self.pageEnd)
    (hlo : s.self.page.pagePtr ≤ ptr.asPtr.addr) (hstop : ptr.asPtr.addr + len ≤ s.self.stackTop) :
    (ptrIsLastAllocation cfg ptr len).run s =
      .ok (decide (ptr.asPtr.addr + len = s.self.stackTop), s) := by
  have hend := s.self.pageEnd_lt
  rw [ptrIsLastAllocation, Exec.run_bind_ok (getPage_run s),
    Exec.run_bind_ok (largeOffsetFrom_run hlo), Page.asPtr_addr,
    Exec.run_bind_ok (usizeAdd_run (by omega)), Exec.run_bind_ok (getStackOffset_run s),
    Exec.run_pure]
  congr 2
  rw [Bool.beq_eq_decide_eq, decide_eq_decide]
  simp only [stackTop]
  omega

/-- The end of an in-place shrink: rewind the stack if the block is the last one. -/
theorem rewind_run {len dec : ℕ} (slice : RawSlice) (htop : s.self.stackTop ≤ s.self.pageEnd)
    (hlo : s.self.page.pagePtr ≤ ptr.asPtr.addr) (hstop : ptr.asPtr.addr + len ≤ s.self.stackTop)
    (hdec : dec ≤ s.self.stackOffset) (hslice : slice.asPtr.addr ≠ 0) :
    (do if ← ptrIsLastAllocation cfg ptr len then
          setStackOffset (← usizeSub cfg (← getStackOffset) dec)
        let allocSlicePtr ← newUnchecked slice
        pure (.ok allocSlicePtr) : SecCode cfg AllocResult).run s =
      .ok (.ok ⟨slice, hslice⟩, { s with self := { s.self with
        stackOffset := if ptr.asPtr.addr + len = s.self.stackTop then s.self.stackOffset - dec
          else s.self.stackOffset } }) := by
  rw [Exec.run_bind_ok (ptrIsLastAllocation_run htop hlo hstop)]
  by_cases hlast : ptr.asPtr.addr + len = s.self.stackTop
  · rw [if_pos (decide_eq_true hlast), if_pos hlast, Exec.run_bind_ok (getStackOffset_run s),
      Exec.run_bind_ok (usizeSub_run hdec), Exec.run_bind_ok (setStackOffset_run _ s),
      Exec.run_bind_ok (newUnchecked_run hslice), Exec.run_pure]
  · rw [if_neg (by simpa using hlast), if_neg hlast, Exec.run_bind_ok (newUnchecked_run hslice),
      Exec.run_pure]

theorem shrink_run (hc : s.self.Consistent) (hheld : Owned s ptr oldLayout)
    (hle : newLayout.size ≤ oldLayout.size) :
    (shrink cfg ptr oldLayout newLayout).run s =
      .ok (Exact.shrink ptr oldLayout newLayout s) := by
  rw [shrink, Exec.run_bind_ok (debugCheckedPrecondition_pure (decide_eq_true hle))]
  simp only [Exact.shrink]
  by_cases hnew : newLayout.size = 0
  · rw [if_pos hnew, if_pos hnew, Exec.run_bind_ok (deallocate_run hc hheld),
      Exec.run_bind_ok (allocateZerosized_run newLayout _), Exec.run_pure]
  obtain ⟨hlo, -, hstop, hlen⟩ := hheld (by omega)
  have htop := hc.stackTop_le
  have hend := s.self.pageEnd_lt
  have hbytes := hc.bytes_le
  have hmono := rounded_mono hle
  rw [if_neg hnew, if_neg hnew, Exec.run_bind_ok (checkInUse_run hc hlo (by omega)),
    Exec.run_bind_ok (isAlignedPtr_run_dvd newLayout.isPowerOfTwo_align)]
  -- shrink in place where the address has the new alignment
  by_cases halign : newLayout.align ∣ ptr.asPtr.addr
  · have hwipe : (ptr.asPtr.offset (rounded newLayout.size)).addr +
        (rounded oldLayout.size - rounded newLayout.size) < 2 ^ cfg.pointerWidth := by
      rw [Ptr.offset_addr]
      omega
    rw [if_pos (decide_eq_true halign), if_pos halign, Exec.run_bind_ok (alignUpUsize_size_run s.self.page oldLayout),
      Exec.run_bind_ok (alignUpUsize_size_run s.self.page newLayout),
      Exec.run_bind_ok (ptrAdd_run (by omega)), Exec.run_bind_ok (usizeSub_run hmono),
      Exec.run_bind_ok (zeroizeMem_run s hwipe), Exec.run_bind_ok (getBytes_run _),
      Machine.fill_self, Exec.run_bind_ok (usizeSub_run (by omega)),
      Exec.run_bind_ok (setBytes_run _ _)]
    have hdec : rounded oldLayout.size - rounded newLayout.size ≤ s.self.stackOffset := by omega
    let wiped := s.fill (ptr.asPtr.offset (rounded newLayout.size))
      (rounded oldLayout.size - rounded newLayout.size) 0
    exact rewind_run (s := { wiped with self := { s.self with
      bytes := s.self.bytes - (rounded oldLayout.size - rounded newLayout.size) } })
      ⟨ptr.asPtr, rounded newLayout.size⟩ htop hlo hstop hdec ptr.addr_ne_zero
  · rw [if_neg (by simpa using halign), if_neg halign]
    exact reallocShrink_run hc hheld hle

theorem growZeroed_run (hc : s.self.Consistent) (hheld : Owned s ptr oldLayout)
    (hle : oldLayout.size ≤ newLayout.size) :
    (growZeroed cfg ptr oldLayout newLayout).run s =
      .ok (Exact.grow ptr oldLayout newLayout s) := by
  rw [growZeroed, Exec.run_bind_ok (debugCheckedPrecondition_pure (decide_eq_true hle))]
  simp only [Exact.grow]
  by_cases hold : oldLayout.size = 0
  · rw [if_pos hold, if_pos hold, allocate_run hc]
  obtain ⟨hlo, -, hstop, hlen⟩ := hheld hold
  have htop := hc.stackTop_le
  have hend := s.self.pageEnd_lt
  have hmono := rounded_mono hle
  rw [if_neg hold, if_neg hold, Exec.run_bind_ok (checkInUse_run hc hlo (by omega)),
    Exec.run_bind_ok (isAlignedPtr_run_dvd newLayout.isPowerOfTwo_align)]
  by_cases halign : newLayout.align ∣ ptr.asPtr.addr
  · rw [if_pos (decide_eq_true halign), Exec.run_bind_ok (alignUpUsize_size_run s.self.page oldLayout),
      Exec.run_bind_ok (ptrIsLastAllocation_run htop hlo hstop)]
    by_cases hlast : ptr.asPtr.addr + rounded oldLayout.size = s.self.stackTop
    · have hnew : ¬ unlikely (rounded newLayout.size == 0) = true := by
        rw [unlikely, beq_iff_eq]
        exact rounded_ne_zero (by omega)
      have hin : ptr.asPtr.addr - s.self.page.pagePtr ≤ s.self.page.pageSize := by
        simp only [pageEnd] at htop
        omega
      rw [if_pos (decide_eq_true hlast), if_pos ⟨halign, hlast⟩,
        Exec.run_bind_ok (alignUpUsize_size_run s.self.page newLayout), if_neg hnew,
        Exec.run_bind_ok (getPage_run s), Exec.run_bind_ok (largeOffsetFrom_run hlo),
        Page.asPtr_addr, Exec.run_bind_ok (usizeSub_run hin)]
      by_cases hroom : ptr.asPtr.addr + rounded newLayout.size ≤ s.self.pageEnd
      · have hfit : ¬ rounded newLayout.size >
            s.self.page.pageSize - (ptr.asPtr.addr - s.self.page.pagePtr) := by
          simp only [pageEnd] at hroom
          omega
        have hbytes := hc.bytes_le
        have hstack : s.self.stackOffset +
            (rounded newLayout.size - rounded oldLayout.size) < 2 ^ cfg.pointerWidth := by
          simp only [stackTop] at hlast
          omega
        rw [if_neg hfit, if_pos hroom, Exec.run_bind_ok (usizeSub_run hmono),
          Exec.run_bind_ok (getBytes_run s), Exec.run_bind_ok (usizeAdd_run (by omega)),
          Exec.run_bind_ok (setBytes_run _ s), Exec.run_bind_ok (getStackOffset_run _),
          Exec.run_bind_ok (usizeAdd_run hstack), Exec.run_bind_ok (setStackOffset_run _ _),
          Exec.run_bind_ok (newUnchecked_run ptr.addr_ne_zero), Exec.run_pure]
        rfl
      · have hfit : rounded newLayout.size >
            s.self.page.pageSize - (ptr.asPtr.addr - s.self.page.pagePtr) := by
          simp only [pageEnd] at hroom
          omega
        rw [if_pos hfit, if_neg hroom, Exec.run_pure]
    · have hnot : ¬ Exact.GrowsInPlace s.self ptr.asPtr.addr (rounded oldLayout.size)
          newLayout.align := fun h => hlast h.2
      rw [if_neg (by simpa using hlast), if_neg hnot]
      exact reallocGrow_run hc hheld hle
  · have hnot : ¬ Exact.GrowsInPlace s.self ptr.asPtr.addr (rounded oldLayout.size)
        newLayout.align := fun h => halign h.1
    rw [if_neg (by simpa using halign), if_neg hnot]
    exact reallocGrow_run hc hheld hle

theorem grow_run (hc : s.self.Consistent) (hheld : Owned s ptr oldLayout)
    (hle : oldLayout.size ≤ newLayout.size) :
    (grow cfg ptr oldLayout newLayout).run s =
      .ok (Exact.grow ptr oldLayout newLayout s) := growZeroed_run hc hheld hle

end SecStackSinglePageAlloc

end SecmemAlloc
