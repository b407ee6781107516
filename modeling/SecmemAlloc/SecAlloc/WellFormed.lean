import SecmemAlloc.SecAlloc.Client

/-!
# The representation invariant

What relates the two counters of the allocator to the blocks its clients hold, and the few
moves a call can make on a heap: giving a block of zero bytes, placing a fresh block,
releasing one, moving one, trimming one and extending the last one.  Every move keeps the
invariant.
-/

namespace SecmemAlloc

variable {cfg : Cfg}

/-- What a client may rely on about a single block. -/
structure Block.Valid (b : Block) : Prop where
  addr_ne_zero : b.addr ≠ 0
  align_dvd : b.align ∣ b.addr
  len_eq : b.len = rounded b.size
  eight_dvd : b.len ≠ 0 → 8 ∣ b.addr

namespace Heap

/-- The representation invariant. -/
structure WellFormed (h : Heap cfg) : Prop where
  /-- Live blocks do not meet and end at or below the stack top. -/
  packed : h.ledger.Packed Block.span h.alloc.page.pagePtr h.alloc.stackTop
  valid : ∀ i ∈ h.ledger.live, (h.ledger.block i).Valid
  bytes_eq : h.alloc.bytes = h.ledger.total Block.len
  eight_dvd_stackOffset : 8 ∣ h.alloc.stackOffset
  stackOffset_le : h.alloc.stackOffset ≤ h.alloc.page.pageSize
  reset : h.alloc.bytes = 0 → h.alloc.stackOffset = 0

variable {h : Heap cfg} {i : ℕ}

theorem new_wellFormed (page : Page cfg) (mem : Memory UInt8) : (new page mem).WellFormed where
  packed := Ledger.Packed.of_empty fun i hi => absurd hi (Finset.notMem_empty i)
  valid := fun i hi => absurd hi (Finset.notMem_empty i)
  bytes_eq := rfl
  eight_dvd_stackOffset := ⟨0, rfl⟩
  stackOffset_le := Nat.zero_le _
  reset := fun _ => rfl

namespace WellFormed

theorem eight_dvd_bytes (hw : h.WellFormed) : 8 ∣ h.alloc.bytes := by
  rw [hw.bytes_eq]
  apply Ledger.dvd_total
  intro i hi
  rw [(hw.valid i hi).len_eq]
  exact eight_dvd_rounded _

theorem bytes_le (hw : h.WellFormed) : h.alloc.bytes ≤ h.alloc.stackOffset := by
  have htotal : h.ledger.total Block.len ≤ h.alloc.stackTop - h.alloc.page.pagePtr :=
    hw.packed.total_len_le
  rw [← hw.bytes_eq, SecStackSinglePageAlloc.stackTop] at htotal
  omega

/-- A well-formed heap passes the consistency check. -/
theorem consistent (hw : h.WellFormed) : h.alloc.Consistent where
  eight_dvd_stackOffset := hw.eight_dvd_stackOffset
  stackOffset_le := hw.stackOffset_le
  bytes_le := hw.bytes_le
  eight_dvd_bytes := hw.eight_dvd_bytes

theorem len_le_bytes (hw : h.WellFormed) (hi : i ∈ h.ledger.live) :
    (h.ledger.block i).len ≤ h.alloc.bytes := by
  rw [hw.bytes_eq]
  exact Ledger.le_total (f := Block.len) hi

/-- A live block is empty exactly when nothing was asked for. -/
theorem len_eq_zero_iff (hw : h.WellFormed) (hi : i ∈ h.ledger.live) :
    (h.ledger.block i).len = 0 ↔ (h.ledger.block i).size = 0 := by
  rw [(hw.valid i hi).len_eq, rounded_eq_zero_iff]

/-- A live block with bytes lies in the used part of the page. -/
theorem bounds (hw : h.WellFormed) (hi : i ∈ h.ledger.live) (hne : (h.ledger.block i).len ≠ 0) :
    h.alloc.page.pagePtr ≤ (h.ledger.block i).addr ∧
      (h.ledger.block i).addr + (h.ledger.block i).len ≤ h.alloc.stackTop :=
  hw.packed.bounds i hi hne

theorem stackTop_le (hw : h.WellFormed) : h.alloc.stackTop ≤ h.alloc.pageEnd :=
  hw.consistent.stackTop_le

/-- Every layout that fits a live block rounds to the length of the block. -/
theorem rounded_eq (hw : h.WellFormed) (hi : i ∈ h.ledger.live) {layout : Layout cfg}
    (hfit : (h.ledger.block i).Fit layout) : rounded layout.size = (h.ledger.block i).len := by
  rw [(hw.valid i hi).len_eq]
  exact rounded_of_fits hfit.1 (hfit.2.trans_eq (hw.valid i hi).len_eq)

/-- What the client owes a call follows from the contract. -/
theorem owned (hw : h.WellFormed) {ptr : NonNull} {layout : Layout cfg}
    (hheld : h.Held i ptr layout) :
    SecStackSinglePageAlloc.Owned h.machine ptr layout := by
  intro hne
  have hr := hw.rounded_eq hheld.live hheld.fit
  have hlen : (h.ledger.block i).len ≠ 0 := hr ▸ rounded_ne_zero hne
  obtain ⟨hlo, hstop⟩ := hw.bounds hheld.live hlen
  constructor
  · rw [hheld.addr_eq]
    exact hlo
  · rw [hheld.addr_eq]
    exact (hw.valid i hheld.live).eight_dvd hlen
  · rw [hheld.addr_eq, hr]
    exact hstop
  · rw [hr]
    exact hw.len_le_bytes hheld.live

end WellFormed

/-! ## The moves -/

section Moves

variable (h i) (layout : Layout cfg)

/-- Give a block without bytes. -/
def empty : Heap cfg :=
  { h with ledger := h.ledger.insert i (.ofSlice (Exact.zeroSlice layout) layout) }

/-- Place a fresh block. -/
def place : Heap cfg :=
  ⟨h.alloc.place layout, h.mem,
    h.ledger.insert i (.ofSlice (Exact.freshSlice h.alloc layout) layout)⟩

/-- Wipe a block and take it back. -/
def release : Heap cfg :=
  ⟨h.alloc.release (h.ledger.block i).addr (h.ledger.block i).len,
    h.mem.fill (h.ledger.block i).addr (h.ledger.block i).len 0, h.ledger.erase i⟩

/-- Place a fresh block, copy `n` bytes of the old one there, and wipe the old one. -/
def move (n : ℕ) : Heap cfg :=
  ⟨(h.alloc.place layout).release (h.ledger.block i).addr (h.ledger.block i).len,
    (h.mem.copy (h.ledger.block i).addr (h.alloc.freshAddr layout.align) n).fill
      (h.ledger.block i).addr (h.ledger.block i).len 0,
    h.ledger.insert i (.ofSlice (Exact.freshSlice h.alloc layout) layout)⟩

/-- Wipe the end of a block and take it back. -/
def trim : Heap cfg :=
  ⟨h.alloc.trim (h.ledger.block i).addr (h.ledger.block i).len (rounded layout.size),
    h.mem.fill ((h.ledger.block i).addr + rounded layout.size)
      ((h.ledger.block i).len - rounded layout.size) 0,
    h.ledger.insert i ⟨(h.ledger.block i).addr, rounded layout.size, layout.size, layout.align⟩⟩

/-- Give the last block more bytes. -/
def extend : Heap cfg :=
  ⟨h.alloc.extend (h.ledger.block i).len (rounded layout.size), h.mem,
    h.ledger.insert i ⟨(h.ledger.block i).addr, rounded layout.size, layout.size, layout.align⟩⟩

end Moves

/-! ## The moves keep the invariant -/

namespace WellFormed

variable {layout : Layout cfg}

theorem valid_zeroSlice (layout : Layout cfg) :
    (Block.ofSlice (Exact.zeroSlice layout) layout).Valid ↔ layout.size = 0 := by
  constructor
  · intro hv
    exact rounded_eq_zero_iff.1 hv.len_eq.symm
  · intro h0
    refine ⟨layout.align_pos.ne', dvd_rfl, ?_, fun hne => absurd rfl hne⟩
    exact (rounded_eq_zero_iff.2 h0).symm

theorem valid_freshSlice (a : SecStackSinglePageAlloc cfg) (layout : Layout cfg) :
    (Block.ofSlice (Exact.freshSlice a layout) layout).Valid where
  addr_ne_zero := a.freshAddr_ne_zero layout.align
  align_dvd := a.align_dvd_freshAddr layout.isPowerOfTwo_align
  len_eq := rfl
  eight_dvd := fun _ => a.eight_dvd_freshAddr layout.isPowerOfTwo_align

/-- A valid block stays valid when it is resized at its address. -/
theorem valid_resized {b : Block} (hv : b.Valid) (hne : b.len ≠ 0) (halign : layout.align ∣ b.addr) :
    (Block.mk b.addr (rounded layout.size) layout.size layout.align).Valid :=
  ⟨hv.addr_ne_zero, halign, rfl, fun _ => hv.eight_dvd hne⟩

theorem insert_valid (hw : h.WellFormed) {b : Block} (hb : b.Valid) :
    ∀ j ∈ (h.ledger.insert i b).live, ((h.ledger.insert i b).block j).Valid :=
  Ledger.forall_mem_insert (p := fun _ c => c.Valid) hb fun j hj _ => hw.valid j hj

theorem empty (hw : h.WellFormed) (hi : i ∉ h.ledger.live) (h0 : layout.size = 0) :
    (h.empty i layout).WellFormed where
  packed := hw.packed.insert_empty i rfl
  valid := hw.insert_valid ((valid_zeroSlice layout).2 h0)
  bytes_eq := by
    show h.alloc.bytes = (h.ledger.insert i _).total Block.len
    rw [Ledger.total_insert_of_notMem hi, ← hw.bytes_eq]
    exact (Nat.zero_add _).symm
  eight_dvd_stackOffset := hw.eight_dvd_stackOffset
  stackOffset_le := hw.stackOffset_le
  reset := hw.reset

theorem place (hw : h.WellFormed) (hi : i ∉ h.ledger.live) (hne : layout.size ≠ 0)
    (hfit : h.alloc.Fits layout) : (h.place i layout).WellFormed := by
  have hge := h.alloc.freshAddr_ge layout.align
  have hc := hw.consistent.place hfit
  have hr := rounded_ne_zero hne
  constructor
  · refine hw.packed.place i ?_ hge ?_
    · exact (Nat.le_add_right _ _).trans hge
    · exact (h.alloc.stackTop_place layout).ge
  · exact hw.insert_valid (valid_freshSlice h.alloc layout)
  · show h.alloc.bytes + rounded layout.size = (h.ledger.insert i _).total Block.len
    rw [Ledger.total_insert_of_notMem hi, ← hw.bytes_eq, Nat.add_comm]
    rfl
  · exact hc.eight_dvd_stackOffset
  · exact hc.stackOffset_le
  · intro hzero
    have : h.alloc.bytes + rounded layout.size = 0 := hzero
    omega

/-- Releasing a block without bytes changes no cell. -/
theorem release_zero (hw : h.WellFormed) (addr : ℕ) : h.alloc.release addr 0 = h.alloc := by
  have hstack : (h.alloc.release addr 0).stackOffset = h.alloc.stackOffset := by
    by_cases hbytes : h.alloc.bytes = 0
    · exact (if_pos hbytes).trans (hw.reset hbytes).symm
    by_cases htop : addr + 0 = h.alloc.stackTop
    · refine (if_neg hbytes).trans ((if_pos htop).trans ?_)
      simp only [SecStackSinglePageAlloc.stackTop] at htop
      omega
    · exact (if_neg hbytes).trans (if_neg htop)
  show SecStackSinglePageAlloc.mk _ _ (h.alloc.release addr 0).stackOffset = h.alloc
  rw [hstack]
  rfl

theorem release_alloc_of_empty (hw : h.WellFormed) (hlen : (h.ledger.block i).len = 0) :
    (h.release i).alloc = h.alloc := by
  show h.alloc.release _ (h.ledger.block i).len = h.alloc
  rw [hlen]
  exact hw.release_zero _

/-- Releasing the last one of several blocks rewinds the stack to where it starts. -/
theorem release_stackTop_of_last (hw : h.WellFormed) (hi : i ∈ h.ledger.live)
    (hlen : (h.ledger.block i).len ≠ 0) (hsome : h.alloc.bytes ≠ (h.ledger.block i).len)
    (htop : (h.ledger.block i).addr + (h.ledger.block i).len = h.alloc.stackTop) :
    (h.release i).alloc.stackTop = (h.ledger.block i).addr := by
  have hstack : (h.release i).alloc.stackOffset =
      (h.ledger.block i).addr - h.alloc.page.pagePtr := (if_neg hsome).trans (if_pos htop)
  simp only [SecStackSinglePageAlloc.stackTop]
  rw [hstack]
  exact Nat.add_sub_cancel' (hw.bounds hi hlen).1

/-- Releasing a block below the last one leaves the stack as it is. -/
theorem release_stackTop_of_ne (hsome : h.alloc.bytes ≠ (h.ledger.block i).len)
    (htop : (h.ledger.block i).addr + (h.ledger.block i).len ≠ h.alloc.stackTop) :
    (h.release i).alloc.stackTop = h.alloc.stackTop := by
  have hstack : (h.release i).alloc.stackOffset = h.alloc.stackOffset :=
    (if_neg hsome).trans (if_neg htop)
  simp only [SecStackSinglePageAlloc.stackTop]
  rw [hstack]
  rfl

theorem release (hw : h.WellFormed) (hi : i ∈ h.ledger.live) : (h.release i).WellFormed := by
  have htotal := Ledger.total_erase_add (f := Block.len) hi
  rw [← hw.bytes_eq] at htotal
  have hbytes : h.alloc.bytes - (h.ledger.block i).len = (h.ledger.erase i).total Block.len := by
    omega
  have hvalid : ∀ j ∈ (h.ledger.erase i).live, (h.ledger.block j).Valid :=
    fun j hj => hw.valid j (Finset.mem_of_mem_erase hj)
  have h8 := hw.eight_dvd_stackOffset
  have hbase := h.alloc.page.eight_dvd_pagePtr
  have hoff := hw.stackOffset_le
  by_cases hlast : h.alloc.bytes = (h.ledger.block i).len
  · -- nothing else has bytes: the stack is reset
    have hempty : (h.ledger.erase i).total Block.len = 0 := by omega
    have hstack : (h.release i).alloc.stackOffset = 0 := if_pos hlast
    refine ⟨Ledger.Packed.of_empty (Ledger.total_eq_zero_iff.1 hempty), hvalid, hbytes, ?_, ?_,
      fun _ => hstack⟩
    · rw [hstack]
      exact dvd_zero 8
    · rw [hstack]
      exact Nat.zero_le _
  have hpos : (h.release i).alloc.bytes ≠ 0 := by
    show h.alloc.bytes - (h.ledger.block i).len ≠ 0
    omega
  by_cases htop : (h.ledger.block i).addr + (h.ledger.block i).len = h.alloc.stackTop
  · -- the last block: the stack is rewound
    have hstack : (h.release i).alloc.stackOffset =
        (h.ledger.block i).addr - h.alloc.page.pagePtr := (if_neg hlast).trans (if_pos htop)
    by_cases hlen : (h.ledger.block i).len = 0
    · have halloc := hw.release_alloc_of_empty hlen
      refine ⟨?_, hvalid, hbytes, ?_, ?_, fun hzero => absurd hzero hpos⟩ <;> rw [halloc]
      · exact hw.packed.erase i
      · exact h8
      · exact hoff
    have hblock := (hw.valid i hi).eight_dvd hlen
    obtain ⟨hlo, hstop⟩ := hw.bounds hi hlen
    have hnew := hw.release_stackTop_of_last hi hlen hlast htop
    refine ⟨?_, hvalid, hbytes, ?_, ?_, fun hzero => absurd hzero hpos⟩
    · rw [hnew]
      exact hw.packed.rewind hi htop
    · rw [hstack]
      exact Nat.dvd_sub hblock hbase
    · rw [hstack]
      show _ ≤ h.alloc.page.pageSize
      simp only [SecStackSinglePageAlloc.stackTop] at hstop
      omega
  · -- a block below the last one: a hole is left
    have hstack : (h.release i).alloc.stackOffset = h.alloc.stackOffset :=
      (if_neg hlast).trans (if_neg htop)
    have hnew := release_stackTop_of_ne hlast htop
    refine ⟨?_, hvalid, hbytes, ?_, ?_, fun hzero => absurd hzero hpos⟩
    · rw [hnew]
      exact hw.packed.erase i
    · rwa [hstack]
    · rw [hstack]
      exact hoff

/-- A released block never is the last one when another one was just placed. -/
theorem release_place (hw : h.WellFormed) (hi : i ∈ h.ledger.live) (hne : layout.size ≠ 0) :
    (h.alloc.place layout).release (h.ledger.block i).addr (h.ledger.block i).len =
      { h.alloc.place layout with
        bytes := h.alloc.bytes + rounded layout.size - (h.ledger.block i).len } := by
  have hr := rounded_ne_zero hne
  have hlen := hw.len_le_bytes hi
  have hge := h.alloc.freshAddr_ge layout.align
  have htop := h.alloc.stackTop_place layout
  have hbytes : (h.alloc.place layout).bytes ≠ (h.ledger.block i).len := by
    show h.alloc.bytes + rounded layout.size ≠ _
    omega
  simp only [SecStackSinglePageAlloc.release]
  rw [if_neg hbytes]
  by_cases hlast : (h.ledger.block i).addr + (h.ledger.block i).len =
      (h.alloc.place layout).stackTop
  · -- only an empty block can end there
    have hzero : (h.ledger.block i).len = 0 := by
      by_contra hne
      have := (hw.bounds hi hne).2
      omega
    rw [if_pos hlast]
    congr 1
    simp only [SecStackSinglePageAlloc.stackTop] at hlast
    rw [SecStackSinglePageAlloc.place_page] at *
    omega
  · rw [if_neg hlast]
    rfl

theorem move_stackTop (hw : h.WellFormed) (hi : i ∈ h.ledger.live) (hne : layout.size ≠ 0)
    (n : ℕ) : (h.move i layout n).alloc.stackTop =
      h.alloc.freshAddr layout.align + rounded layout.size := by
  show ((h.alloc.place layout).release _ _).stackTop = _
  rw [hw.release_place hi hne]
  exact h.alloc.stackTop_place layout

theorem move (hw : h.WellFormed) (hi : i ∈ h.ledger.live) (hne : layout.size ≠ 0)
    (hfit : h.alloc.Fits layout) (n : ℕ) : (h.move i layout n).WellFormed := by
  have hge := h.alloc.freshAddr_ge layout.align
  have hc := hw.consistent.place hfit
  have hr := rounded_ne_zero hne
  have hlen := hw.len_le_bytes hi
  -- the new block is on top, so only the byte count feels the release
  have halloc : (h.move i layout n).alloc = { h.alloc.place layout with
      bytes := h.alloc.bytes + rounded layout.size - (h.ledger.block i).len } :=
    hw.release_place hi hne
  have htotal := Ledger.total_insert_add (f := Block.len)
    (b := .ofSlice (Exact.freshSlice h.alloc layout) layout) hi
  rw [← hw.bytes_eq] at htotal
  constructor
  · rw [halloc]
    refine hw.packed.place i ?_ hge ?_
    · exact (Nat.le_add_right _ _).trans hge
    · exact (h.alloc.stackTop_place layout).ge
  · exact hw.insert_valid (valid_freshSlice h.alloc layout)
  · rw [halloc]
    show h.alloc.bytes + rounded layout.size - _ = (h.ledger.insert i _).total Block.len
    have : (Block.ofSlice (Exact.freshSlice h.alloc layout) layout).len = rounded layout.size := rfl
    omega
  · rw [halloc]
    exact hc.eight_dvd_stackOffset
  · rw [halloc]
    exact hc.stackOffset_le
  · rw [halloc]
    intro hzero
    have : h.alloc.bytes + rounded layout.size - (h.ledger.block i).len = 0 := hzero
    omega

theorem trim_stackTop_of_last (hw : h.WellFormed) (hi : i ∈ h.ledger.live)
    (hle : rounded layout.size ≤ (h.ledger.block i).len)
    (htop : (h.ledger.block i).addr + (h.ledger.block i).len = h.alloc.stackTop) :
    (h.trim i layout).alloc.stackTop = (h.ledger.block i).addr + rounded layout.size := by
  have hstack : (h.trim i layout).alloc.stackOffset =
      h.alloc.stackOffset - ((h.ledger.block i).len - rounded layout.size) := if_pos htop
  have hlen := (hw.len_le_bytes hi).trans hw.bytes_le
  show h.alloc.page.pagePtr + _ = _
  rw [hstack]
  simp only [SecStackSinglePageAlloc.stackTop] at htop
  omega

theorem trim_stackTop_of_ne
    (htop : (h.ledger.block i).addr + (h.ledger.block i).len ≠ h.alloc.stackTop) :
    (h.trim i layout).alloc.stackTop = h.alloc.stackTop :=
  congrArg (h.alloc.page.pagePtr + ·) (if_neg htop)

theorem extend_stackTop (hle : (h.ledger.block i).len ≤ rounded layout.size)
    (htop : (h.ledger.block i).addr + (h.ledger.block i).len = h.alloc.stackTop) :
    (h.extend i layout).alloc.stackTop = (h.ledger.block i).addr + rounded layout.size := by
  show h.alloc.page.pagePtr + (h.alloc.stackOffset + _) = _
  simp only [SecStackSinglePageAlloc.stackTop] at htop
  omega

theorem trim (hw : h.WellFormed) (hi : i ∈ h.ledger.live) (hne : layout.size ≠ 0)
    (hle : rounded layout.size ≤ (h.ledger.block i).len)
    (halign : layout.align ∣ (h.ledger.block i).addr) : (h.trim i layout).WellFormed := by
  have hr := rounded_ne_zero hne
  have hlen : (h.ledger.block i).len ≠ 0 := by omega
  have hv := hw.valid i hi
  have hle' := hw.len_le_bytes hi
  have htotal := Ledger.total_insert_add (f := Block.len)
    (b := ⟨(h.ledger.block i).addr, rounded layout.size, layout.size, layout.align⟩) hi
  rw [← hw.bytes_eq] at htotal
  dsimp only at htotal
  have hbytes : (h.trim i layout).alloc.bytes = (h.trim i layout).ledger.total Block.len := by
    show h.alloc.bytes - (_ - rounded layout.size) = (h.ledger.insert i _).total Block.len
    omega
  have hpos : (h.trim i layout).alloc.bytes ≠ 0 := by
    show h.alloc.bytes - (_ - rounded layout.size) ≠ 0
    omega
  have hvalid := hw.insert_valid (i := i) (valid_resized hv hlen halign)
  by_cases htop : (h.ledger.block i).addr + (h.ledger.block i).len = h.alloc.stackTop
  · have hstack : (h.trim i layout).alloc.stackOffset =
        h.alloc.stackOffset - ((h.ledger.block i).len - rounded layout.size) := if_pos htop
    have h8 := hw.eight_dvd_stackOffset
    have h8len : 8 ∣ (h.ledger.block i).len - rounded layout.size :=
      Nat.dvd_sub (hv.len_eq ▸ eight_dvd_rounded _) (eight_dvd_rounded _)
    refine ⟨?_, hvalid, hbytes, ?_, ?_, fun hzero => absurd hzero hpos⟩
    · rw [hw.trim_stackTop_of_last hi hle htop]
      exact hw.packed.resize_last hi hlen htop rfl
    · rw [hstack]
      exact Nat.dvd_sub h8 h8len
    · rw [hstack]
      exact (Nat.sub_le _ _).trans hw.stackOffset_le
  · have hstack : (h.trim i layout).alloc.stackOffset = h.alloc.stackOffset := if_neg htop
    refine ⟨?_, hvalid, hbytes, ?_, ?_, fun hzero => absurd hzero hpos⟩
    · rw [trim_stackTop_of_ne htop]
      exact hw.packed.trim hi rfl hle
    · rw [hstack]
      exact hw.eight_dvd_stackOffset
    · rw [hstack]
      exact hw.stackOffset_le

theorem extend (hw : h.WellFormed) (hi : i ∈ h.ledger.live)
    (hlen : (h.ledger.block i).len ≠ 0) (hle : (h.ledger.block i).len ≤ rounded layout.size)
    (halign : layout.align ∣ (h.ledger.block i).addr)
    (htop : (h.ledger.block i).addr + (h.ledger.block i).len = h.alloc.stackTop)
    (hroom : (h.ledger.block i).addr + rounded layout.size ≤ h.alloc.pageEnd) :
    (h.extend i layout).WellFormed := by
  have hv := hw.valid i hi
  have h8 := hw.eight_dvd_stackOffset
  have h8len : 8 ∣ rounded layout.size - (h.ledger.block i).len :=
    Nat.dvd_sub (eight_dvd_rounded _) (hv.len_eq ▸ eight_dvd_rounded _)
  have htotal := Ledger.total_insert_add (f := Block.len)
    (b := ⟨(h.ledger.block i).addr, rounded layout.size, layout.size, layout.align⟩) hi
  rw [← hw.bytes_eq] at htotal
  dsimp only at htotal
  constructor
  · rw [extend_stackTop hle htop]
    exact hw.packed.resize_last hi hlen htop rfl
  · exact hw.insert_valid (valid_resized hv hlen halign)
  · show h.alloc.bytes + (rounded layout.size - _) = (h.ledger.insert i _).total Block.len
    omega
  · exact Nat.dvd_add h8 h8len
  · show h.alloc.stackOffset + _ ≤ h.alloc.page.pageSize
    simp only [SecStackSinglePageAlloc.stackTop, SecStackSinglePageAlloc.pageEnd] at *
    omega
  · intro hzero
    have : h.alloc.bytes + (rounded layout.size - (h.ledger.block i).len) = 0 := hzero
    have := hw.len_le_bytes hi
    omega

theorem store (hw : h.WellFormed) (off : ℕ) (v : UInt8) : (h.store i off v).WellFormed :=
  ⟨hw.packed, hw.valid, hw.bytes_eq, hw.eight_dvd_stackOffset, hw.stackOffset_le, hw.reset⟩

end WellFormed

end Heap

end SecmemAlloc
