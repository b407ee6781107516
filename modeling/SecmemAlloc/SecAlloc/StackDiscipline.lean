import SecmemAlloc.Lib.BlockStack
import SecmemAlloc.SecAlloc.Zeroization

/-!
# The stack discipline

A client that only ever works on its newest block, and asks for no more than 8 byte
alignment, never fragments the page: wherever it starts, its blocks lie on top of each
other from the stack top on, and giving all of them back restores the allocator and the
page exactly.
-/

namespace SecmemAlloc

variable {cfg : Cfg}

namespace Heap

/-- The alignments a stack-like client may ask for on behalf of the block `i`: up to 8, and
up to the page size while no other block has bytes. -/
def AlignOk (h : Heap cfg) (i : ℕ) (layout : Layout cfg) : Prop :=
  layout.align ≤ 8 ∨ layout.align ≤ h.alloc.page.pageSize ∧
    ∀ j ∈ h.ledger.live, j ≠ i → (h.ledger.block j).size = 0

/-- The steps of a client that holds the blocks `ids`, newest first, and resizes or gives
back the newest one only. -/
inductive StackStep : Heap cfg × List ℕ → Event cfg → Heap cfg × List ℕ → Prop
  | allocate {h h' : Heap cfg} {ids : List ℕ} {zeroed : Bool} {i : ℕ} {layout : Layout cfg}
      {slice : NonNullSlice} (halign : h.AlignOk i layout)
      (hs : h.Step (.allocate zeroed i layout, some (.ok slice)) h') :
      StackStep (h, ids) (.allocate zeroed i layout, some (.ok slice)) (h', i :: ids)
  | allocateFailed {h h' : Heap cfg} {ids : List ℕ} {zeroed : Bool} {i : ℕ} {layout : Layout cfg}
      (halign : h.AlignOk i layout)
      (hs : h.Step (.allocate zeroed i layout, some (.error ⟨⟩)) h') :
      StackStep (h, ids) (.allocate zeroed i layout, some (.error ⟨⟩)) (h', ids)
  | deallocate {h h' : Heap cfg} {ids : List ℕ} {i : ℕ} {ptr : NonNull} {layout : Layout cfg}
      {ans : Option AllocResult} (hs : h.Step (.deallocate i ptr layout, ans) h') :
      StackStep (h, i :: ids) (.deallocate i ptr layout, ans) (h', ids)
  | resize {h h' : Heap cfg} {ids : List ℕ} {kind : Resize} {i : ℕ} {ptr : NonNull}
      {oldLayout newLayout : Layout cfg} {ans : Option AllocResult}
      (hkind : kind = .shrink ∨ kind.mayExtend = true) (halign : h.AlignOk i newLayout)
      (hs : h.Step (.resize kind i ptr oldLayout newLayout, ans) h') :
      StackStep (h, i :: ids) (.resize kind i ptr oldLayout newLayout, ans) (h', i :: ids)
  | write {h h' : Heap cfg} {ids : List ℕ} {i off : ℕ} {v : UInt8} {ans : Option AllocResult}
      (hi : i ∈ ids) (hs : h.Step (.write i off v, ans) h') :
      StackStep (h, ids) (.write i off v, ans) (h', ids)

/-- The sizes last requested for the listed blocks, each rounded up to 8. -/
def demand (h : Heap cfg) (ids : List ℕ) : ℕ :=
  (ids.map fun i => rounded (h.ledger.block i).size).sum

/-! ## Alignment costs nothing -/

section Alignment

variable {h : Heap cfg} {i : ℕ} {layout : Layout cfg}

/-- With no other bytes allocated the block `i` is all that is on the stack. -/
theorem WellFormed.bytes_eq_of_alone (hw : h.WellFormed) (hi : i ∈ h.ledger.live)
    (halone : ∀ j ∈ h.ledger.live, j ≠ i → (h.ledger.block j).size = 0) :
    h.alloc.bytes = (h.ledger.block i).len := by
  have hrest : (h.ledger.erase i).total Block.len = 0 := by
    rw [Ledger.total_eq_zero_iff]
    intro j hj
    obtain ⟨hji, hj'⟩ := Finset.mem_erase.1 hj
    exact (hw.len_eq_zero_iff hj').2 (halone j hj' hji)
  rw [hw.bytes_eq, ← Ledger.total_erase_add hi, hrest, Nat.zero_add]

/-- Every alignment up to the page size divides the address of the page. -/
theorem align_dvd_pagePtr (page : Page cfg) {align : ℕ} (hpow : align.isPowerOfTwo)
    (hle : align ≤ page.pageSize) : align ∣ page.pagePtr :=
  (dvd_of_isPowerOfTwo_of_le hpow page.isPowerOfTwo_pageSize hle).trans page.pageSize_dvd_pagePtr

/-- A fresh block starts at the stack top, without padding. -/
theorem AlignOk.freshAddr_eq (halign : h.AlignOk i layout) (hw : h.WellFormed)
    (hempty : i ∈ h.ledger.live → (h.ledger.block i).len = 0) :
    h.alloc.freshAddr layout.align = h.alloc.stackTop := by
  rcases halign with hle | ⟨hle, halone⟩
  · exact hw.consistent.freshAddr_of_le hle
  -- nothing has bytes, so the stack was reset to the start of the page
  · have hbytes : h.alloc.bytes = 0 := by
      rw [hw.bytes_eq, Ledger.total_eq_zero_iff]
      intro j hj
      by_cases hji : j = i
      · subst hji
        exact hempty hj
      · exact (hw.len_eq_zero_iff hj).2 (halone j hj hji)
    have htop : h.alloc.stackTop = h.alloc.page.pagePtr := by
      rw [SecStackSinglePageAlloc.stackTop, hw.reset hbytes, Nat.add_zero]
    have hmax := align_dvd_pagePtr h.alloc.page
      (SecStackSinglePageAlloc.isPowerOfTwo_max layout.isPowerOfTwo_align)
      (max_le h.alloc.page.eight_le_pageSize hle)
    rw [SecStackSinglePageAlloc.freshAddr, htop, alignUp_eq_self (by omega) hmax]

/-- The newest block has every alignment the client may ask for. -/
theorem AlignOk.dvd_addr (halign : h.AlignOk i layout) (hw : h.WellFormed)
    (hi : i ∈ h.ledger.live) (hne : (h.ledger.block i).len ≠ 0)
    (htop : (h.ledger.block i).addr + (h.ledger.block i).len = h.alloc.stackTop)
    (hreset : h.alloc.bytes = (h.ledger.block i).len →
      h.alloc.stackOffset = (h.ledger.block i).len) :
    layout.align ∣ (h.ledger.block i).addr := by
  rcases halign with hle | ⟨hle, halone⟩
  · have h8 : layout.align ∣ 8 :=
      dvd_of_isPowerOfTwo_of_le layout.isPowerOfTwo_align ⟨3, rfl⟩ hle
    exact h8.trans ((hw.valid i hi).eight_dvd hne)
  -- the block is all there is, so it starts where the page does
  · have hoff := hreset (hw.bytes_eq_of_alone hi halone)
    have haddr : (h.ledger.block i).addr = h.alloc.page.pagePtr := by
      simp only [SecStackSinglePageAlloc.stackTop] at htop
      omega
    rw [haddr]
    exact align_dvd_pagePtr h.alloc.page layout.isPowerOfTwo_align hle

end Alignment

/-! ## The invariant of a bracketed sequence -/

/-- Since `s`, the blocks `ids`, newest first, were put on the stack, and nothing else has
changed. -/
structure Bracket (s h : Heap cfg) (ids : List ℕ) : Prop where
  wellFormed : h.WellFormed
  page_eq : h.alloc.page = s.alloc.page
  nodup : ids.Nodup
  live : ∀ i ∈ ids, i ∈ h.ledger.live
  bytes_eq : h.alloc.bytes = s.alloc.bytes + h.ledger.extent Block.span ids
  stackOffset_eq : h.alloc.stackOffset = s.alloc.stackOffset + h.ledger.extent Block.span ids
  stacked : h.ledger.Stacked Block.span s.alloc.stackTop ids
  mem_eq : ∀ a, (∀ i ∈ ids, a ∉ (h.ledger.block i).span) → h.mem a = s.mem a

namespace Bracket

variable {s h h' : Heap cfg} {ids : List ℕ} {i : ℕ} {layout : Layout cfg}

theorem nil (hw : s.WellFormed) : s.Bracket s [] where
  wellFormed := hw
  page_eq := rfl
  nodup := List.nodup_nil
  live := fun _ hi => absurd hi List.not_mem_nil
  bytes_eq := rfl
  stackOffset_eq := rfl
  stacked := trivial
  mem_eq := fun _ _ => rfl

theorem stackTop_eq (hb : s.Bracket h ids) :
    h.alloc.stackTop = s.alloc.stackTop + h.ledger.extent Block.span ids := by
  simp only [SecStackSinglePageAlloc.stackTop]
  rw [hb.page_eq, hb.stackOffset_eq, Nat.add_assoc]

/-- The newest block, if it has bytes, ends at the stack top. -/
theorem top_eq (hb : s.Bracket h (i :: ids)) (hne : (h.ledger.block i).len ≠ 0) :
    (h.ledger.block i).addr + (h.ledger.block i).len = h.alloc.stackTop := by
  have hstart : (h.ledger.block i).addr = s.alloc.stackTop + h.ledger.extent Block.span ids :=
    hb.stacked.1 hne
  have htop := hb.stackTop_eq
  rw [Ledger.extent_cons, Block.len_span] at htop
  omega

/-- If the newest block has all the bytes, it has all of the stack. -/
theorem reset (hb : s.Bracket h (i :: ids)) (hs : s.WellFormed)
    (hbytes : h.alloc.bytes = (h.ledger.block i).len) :
    h.alloc.stackOffset = (h.ledger.block i).len := by
  have hb' := hb.bytes_eq
  have ho := hb.stackOffset_eq
  have hreset := hs.reset
  rw [Ledger.extent_cons, Block.len_span] at hb' ho
  omega

/-- Putting a block on the stack, or replacing the newest one. -/
theorem push {b : Block} (hw : h'.WellFormed) (hpage : h'.alloc.page = s.alloc.page)
    (hledger : h'.ledger = h.ledger.insert i b) (hi : i ∉ ids) (hnodup : ids.Nodup)
    (hlive : ∀ j ∈ ids, j ∈ h.ledger.live)
    (hstacked : h.ledger.Stacked Block.span s.alloc.stackTop ids)
    (hbytes : h'.alloc.bytes = s.alloc.bytes + (b.len + h.ledger.extent Block.span ids))
    (hoff : h'.alloc.stackOffset =
      s.alloc.stackOffset + (b.len + h.ledger.extent Block.span ids))
    (haddr : b.len ≠ 0 → b.addr = s.alloc.stackTop + h.ledger.extent Block.span ids)
    (hmem : ∀ a, a ∉ b.span → (∀ j ∈ ids, a ∉ (h.ledger.block j).span) → h'.mem a = s.mem a) :
    s.Bracket h' (i :: ids) := by
  have hsame : ∀ j ∈ ids, h'.ledger.block j = h.ledger.block j := by
    rw [hledger]
    exact Ledger.block_insert_of_notMem hi
  have hself : h'.ledger.block i = b := by rw [hledger, Ledger.block_insert_self]
  have hextent : h'.ledger.extent Block.span (i :: ids) =
      b.len + h.ledger.extent Block.span ids := by
    rw [Ledger.extent_cons, hself, Ledger.extent_congr hsame, Block.len_span]
  constructor
  · exact hw
  · exact hpage
  · exact List.nodup_cons.2 ⟨hi, hnodup⟩
  · intro j hj
    rw [hledger]
    rcases List.mem_cons.1 hj with rfl | hj
    · exact Finset.mem_insert_self _ _
    · exact Finset.mem_insert_of_mem (hlive j hj)
  · rw [hextent, hbytes]
  · rw [hextent, hoff]
  · refine ⟨?_, hstacked.congr hsame⟩
    rw [hself, Ledger.extent_congr hsame]
    exact haddr
  · intro a ha
    have hb := ha i List.mem_cons_self
    rw [hself] at hb
    refine hmem a hb fun j hj => ?_
    rw [← hsame j hj]
    exact ha j (List.mem_cons_of_mem i hj)

/-- Outside the blocks below the newest one the memory was zero or is unchanged. -/
theorem mem_eq_zero (hb : s.Bracket h (i :: ids))
    (hzero : ∀ a, s.alloc.stackTop ≤ a → a < s.alloc.pageEnd → s.mem a = 0) {a : ℕ}
    (ha : a ∈ (h.ledger.block i).span) : s.mem a = 0 := by
  rw [Block.mem_span] at ha
  have hlive := hb.live i List.mem_cons_self
  have hstart : (h.ledger.block i).addr = s.alloc.stackTop + h.ledger.extent Block.span ids :=
    hb.stacked.1 (by omega : (h.ledger.block i).len ≠ 0)
  have hstop := (hb.wellFormed.bounds hlive (by omega)).2
  have hend := hb.wellFormed.stackTop_le
  have hpage : h.alloc.pageEnd = s.alloc.pageEnd := by
    simp only [SecStackSinglePageAlloc.pageEnd]
    rw [hb.page_eq]
  exact hzero a (by omega) (by omega)

theorem mem_eq_of_notMem (hb : s.Bracket h (i :: ids)) {a : ℕ}
    (ha : a ∉ (h.ledger.block i).span) (hrest : ∀ j ∈ ids, a ∉ (h.ledger.block j).span) :
    h.mem a = s.mem a := by
  apply hb.mem_eq
  intro j hj
  rcases List.mem_cons.1 hj with rfl | hj
  · exact ha
  · exact hrest j hj

theorem notMem (hb : s.Bracket h ids) (hi : i ∉ h.ledger.live) : i ∉ ids :=
  fun hmem => hi (hb.live i hmem)

theorem empty (hb : s.Bracket h ids) (hi : i ∉ h.ledger.live) (h0 : layout.size = 0) :
    s.Bracket (h.empty i layout) (i :: ids) := by
  refine push (hb.wellFormed.empty hi h0) hb.page_eq rfl (hb.notMem hi) hb.nodup hb.live
    hb.stacked ?_ ?_ (fun hne => absurd rfl hne) fun a _ hrest => hb.mem_eq a hrest
  · rw [show (Block.ofSlice (Exact.zeroSlice layout) layout).len = 0 from rfl, Nat.zero_add]
    exact hb.bytes_eq
  · rw [show (Block.ofSlice (Exact.zeroSlice layout) layout).len = 0 from rfl, Nat.zero_add]
    exact hb.stackOffset_eq

theorem place (hb : s.Bracket h ids) (hi : i ∉ h.ledger.live) (hne : layout.size ≠ 0)
    (hfit : h.alloc.Fits layout) (hfresh : h.alloc.freshAddr layout.align = h.alloc.stackTop) :
    s.Bracket (h.place i layout) (i :: ids) := by
  have hbytes := hb.bytes_eq
  have hoff := hb.stackOffset_eq
  refine push (hb.wellFormed.place hi hne hfit) hb.page_eq rfl (hb.notMem hi) hb.nodup hb.live
    hb.stacked ?_ ?_ (fun _ => hfresh.trans hb.stackTop_eq) fun a _ hrest => hb.mem_eq a hrest
  · show h.alloc.bytes + rounded layout.size = s.alloc.bytes + (rounded layout.size + _)
    omega
  · show h.alloc.freshAddr layout.align - h.alloc.page.pagePtr + rounded layout.size =
      s.alloc.stackOffset + (rounded layout.size + _)
    rw [hfresh, SecStackSinglePageAlloc.stackTop]
    omega

/-- The stack after its newest block is taken back. -/
theorem release_stackOffset (hb : s.Bracket h (i :: ids)) (hs : s.WellFormed) :
    (h.release i).alloc.stackOffset = s.alloc.stackOffset + h.ledger.extent Block.span ids := by
  have hoff := hb.stackOffset_eq
  have hbytes := hb.bytes_eq
  rw [Ledger.extent_cons, Block.len_span] at hoff hbytes
  -- an empty block, then the only one with bytes, then one of several
  by_cases hlen : (h.ledger.block i).len = 0
  · show (h.alloc.release _ (h.ledger.block i).len).stackOffset = _
    rw [hlen, hb.wellFormed.release_zero]
    omega
  by_cases hall : h.alloc.bytes = (h.ledger.block i).len
  · have hreset := hs.reset
    rw [show (h.release i).alloc.stackOffset = 0 from if_pos hall]
    omega
  · have htop := hb.top_eq hlen
    have hstart : (h.ledger.block i).addr = s.alloc.stackTop + h.ledger.extent Block.span ids :=
      hb.stacked.1 hlen
    rw [show (h.release i).alloc.stackOffset = (h.ledger.block i).addr - h.alloc.page.pagePtr
      from (if_neg hall).trans (if_pos htop), hstart, SecStackSinglePageAlloc.stackTop, hb.page_eq]
    omega

theorem release (hb : s.Bracket h (i :: ids)) (hs : s.WellFormed)
    (hzero : ∀ a, s.alloc.stackTop ≤ a → a < s.alloc.pageEnd → s.mem a = 0) :
    s.Bracket (h.release i) ids := by
  have hlive := hb.live i List.mem_cons_self
  obtain ⟨hi, hnodup⟩ := List.nodup_cons.1 hb.nodup
  constructor
  · exact hb.wellFormed.release hlive
  · exact hb.page_eq
  · exact hnodup
  · intro j hj
    exact Finset.mem_erase.2 ⟨ne_of_mem_of_not_mem hj hi, hb.live j (List.mem_cons_of_mem i hj)⟩
  · have hbytes := hb.bytes_eq
    rw [Ledger.extent_cons, Block.len_span] at hbytes
    show h.alloc.bytes - (h.ledger.block i).len = _ + h.ledger.extent Block.span ids
    omega
  · exact hb.release_stackOffset hs
  · exact hb.stacked.2.congr fun _ _ => rfl
  · intro a hrest
    show h.mem.fill _ _ 0 a = s.mem a
    by_cases ha : a ∈ (h.ledger.block i).span
    · rw [Block.fill_of_mem ha, hb.mem_eq_zero hzero ha]
    · rw [Block.fill_of_notMem ha, hb.mem_eq_of_notMem ha hrest]

/-- Replacing the newest block by one with the same start, if both have bytes. -/
theorem replace (hb : s.Bracket h (i :: ids)) {b : Block} (hw : h'.WellFormed)
    (hpage : h'.alloc.page = h.alloc.page) (hledger : h'.ledger = h.ledger.insert i b)
    (hbytes : h'.alloc.bytes + (h.ledger.block i).len = h.alloc.bytes + b.len)
    (hoff : h'.alloc.stackOffset + (h.ledger.block i).len = h.alloc.stackOffset + b.len)
    (haddr : b.addr = s.alloc.stackTop + h.ledger.extent Block.span ids)
    (hmem : ∀ a, a ∉ b.span → (∀ j ∈ ids, a ∉ (h.ledger.block j).span) → h'.mem a = s.mem a) :
    s.Bracket h' (i :: ids) := by
  have hb' := hb.bytes_eq
  have ho := hb.stackOffset_eq
  obtain ⟨hi, hnodup⟩ := List.nodup_cons.1 hb.nodup
  rw [Ledger.extent_cons, Block.len_span] at hb' ho
  refine push hw (hpage.trans hb.page_eq) hledger hi hnodup
    (fun j hj => hb.live j (List.mem_cons_of_mem i hj)) hb.stacked.2 ?_ ?_ (fun _ => haddr) hmem
  · omega
  · omega

theorem trim (hb : s.Bracket h (i :: ids))
    (hzero : ∀ a, s.alloc.stackTop ≤ a → a < s.alloc.pageEnd → s.mem a = 0)
    (hne : layout.size ≠ 0) (hle : rounded layout.size ≤ (h.ledger.block i).len)
    (halign : layout.align ∣ (h.ledger.block i).addr) :
    s.Bracket (h.trim i layout) (i :: ids) := by
  have hw := hb.wellFormed
  have hlive := hb.live i List.mem_cons_self
  have hr := rounded_ne_zero hne
  have hlen : (h.ledger.block i).len ≠ 0 := by omega
  have htop := hb.top_eq hlen
  have hbytes := hw.len_le_bytes hlive
  have hoff := hw.bytes_le
  refine hb.replace (hw.trim hlive hne hle halign) rfl rfl ?_ ?_ (hb.stacked.1 hlen) ?_
  · show h.alloc.bytes - (_ - rounded layout.size) + _ = h.alloc.bytes + rounded layout.size
    omega
  · rw [show (h.trim i layout).alloc.stackOffset =
      h.alloc.stackOffset - ((h.ledger.block i).len - rounded layout.size) from if_pos htop]
    dsimp only
    omega
  · intro a ha hrest
    rw [Block.mem_span] at ha
    dsimp only at ha
    show h.mem.fill _ _ 0 a = s.mem a
    by_cases hold : a ∈ (h.ledger.block i).span
    · have hin := Block.mem_span.1 hold
      rw [Memory.fill_of_mem (by omega), hb.mem_eq_zero hzero hold]
    · have hout := mt Block.mem_span.2 hold
      rw [Memory.fill_of_notMem (by omega), hb.mem_eq_of_notMem hold hrest]

theorem extend (hb : s.Bracket h (i :: ids)) (hlen : (h.ledger.block i).len ≠ 0)
    (hle : (h.ledger.block i).len ≤ rounded layout.size)
    (halign : layout.align ∣ (h.ledger.block i).addr)
    (hroom : (h.ledger.block i).addr + rounded layout.size ≤ h.alloc.pageEnd) :
    s.Bracket (h.extend i layout) (i :: ids) := by
  have hw := hb.wellFormed
  have hlive := hb.live i List.mem_cons_self
  refine hb.replace (hw.extend hlive hlen hle halign (hb.top_eq hlen) hroom) rfl rfl ?_ ?_
    (hb.stacked.1 hlen) ?_
  · show h.alloc.bytes + (rounded layout.size - _) + _ = h.alloc.bytes + rounded layout.size
    omega
  · show h.alloc.stackOffset + (rounded layout.size - _) + _ =
      h.alloc.stackOffset + rounded layout.size
    omega
  · intro a ha hrest
    rw [Block.mem_span] at ha
    dsimp only at ha
    refine hb.mem_eq_of_notMem ?_ hrest
    rw [Block.mem_span]
    omega

/-- An empty newest block grows into a fresh one. -/
theorem move (hb : s.Bracket h (i :: ids)) (hne : layout.size ≠ 0)
    (hlen : (h.ledger.block i).len = 0) (hfit : h.alloc.Fits layout)
    (hfresh : h.alloc.freshAddr layout.align = h.alloc.stackTop) :
    s.Bracket (h.move i layout 0) (i :: ids) := by
  have hw := hb.wellFormed
  have hlive := hb.live i List.mem_cons_self
  have htop := hb.stackTop_eq
  have halloc := hw.release_place hlive hne
  rw [Ledger.extent_cons, Block.len_span, hlen, Nat.zero_add] at htop
  have hbytes : (h.move i layout 0).alloc.bytes = h.alloc.bytes + rounded layout.size := by
    show (h.alloc.bytes + rounded layout.size) - (h.ledger.block i).len = _
    rw [hlen, Nat.sub_zero]
  have hoff : (h.move i layout 0).alloc.stackOffset =
      h.alloc.stackOffset + rounded layout.size := by
    have hplace : (h.alloc.place layout).stackOffset = h.alloc.stackOffset + rounded layout.size := by
      show h.alloc.freshAddr layout.align - _ + _ = _
      rw [hfresh, SecStackSinglePageAlloc.stackTop, Nat.add_sub_cancel_left]
    exact (congrArg SecStackSinglePageAlloc.stackOffset halloc).trans hplace
  refine hb.replace (hw.move hlive hne hfit 0) rfl rfl ?_ ?_ (hfresh.trans htop) ?_
  · rw [hbytes, hlen]
    rfl
  · rw [hoff, hlen]
    rfl
  · intro a _ hrest
    have hmem : (h.move i layout 0).mem = h.mem := by
      show (h.mem.copy _ _ 0).fill _ (h.ledger.block i).len 0 = h.mem
      rw [hlen, Memory.fill_zero, Memory.copy_zero]
    rw [hmem]
    refine hb.mem_eq_of_notMem ?_ hrest
    rw [Block.mem_span]
    omega

theorem store (hb : s.Bracket h ids) (hi : i ∈ ids) {off : ℕ}
    (hoff : off < (h.ledger.block i).len) (v : UInt8) : s.Bracket (h.store i off v) ids := by
  refine ⟨hb.wellFormed.store off v, hb.page_eq, hb.nodup, hb.live, hb.bytes_eq,
    hb.stackOffset_eq, hb.stacked, fun a ha => ?_⟩
  have hne : a ≠ (h.ledger.block i).addr + off := by
    rintro rfl
    exact ha i hi (Block.add_mem_span hoff)
  exact (Memory.store_of_ne hne).trans (hb.mem_eq a ha)

/-- A resizing call works on the newest block where it is, if that has bytes. -/
theorem inPlace (hb : s.Bracket h (i :: ids)) (hs : s.WellFormed) {kind : Resize}
    (hkind : kind = .shrink ∨ kind.mayExtend = true) (halign : h.AlignOk i layout)
    (hlen : (h.ledger.block i).len ≠ 0) : h.InPlace kind i layout := by
  have htop := hb.top_eq hlen
  have hdvd := halign.dvd_addr hb.wellFormed (hb.live i List.mem_cons_self) hlen htop (hb.reset hs)
  rcases hkind with rfl | hmay
  · exact hdvd
  · exact (inPlace_iff hmay).2 ⟨hlen, hdvd, htop⟩

/-- So only an empty block is moved. -/
theorem len_eq_zero (hb : s.Bracket h (i :: ids)) (hs : s.WellFormed) {kind : Resize}
    (hkind : kind = .shrink ∨ kind.mayExtend = true) (halign : h.AlignOk i layout)
    (hin : ¬ h.InPlace kind i layout) : (h.ledger.block i).len = 0 := by
  by_contra hlen
  exact hin (hb.inPlace hs hkind halign hlen)

end Bracket

/-- Every step of a stack-like client keeps the bracket. -/
theorem StackStep.bracket {s h h' : Heap cfg} {ids ids' : List ℕ} {e : Event cfg}
    (hs : s.WellFormed) (hzero : ∀ a, s.alloc.stackTop ≤ a → a < s.alloc.pageEnd → s.mem a = 0)
    (hb : s.Bracket h ids) (hstep : StackStep (h, ids) e (h', ids')) : s.Bracket h' ids' := by
  have hw := hb.wellFormed
  cases hstep with
  | allocate halign hstep =>
    cases Step.effect hw hstep with
    | allocateEmpty hi h0 => exact hb.empty hi h0
    | allocate hi hne hfit =>
      exact hb.place hi hne hfit (halign.freshAddr_eq hw fun hmem => absurd hmem hi)
  | allocateFailed halign hstep =>
    cases Step.effect hw hstep with
    | allocateFailed _ _ _ => exact hb
  | deallocate hstep =>
    cases Step.effect hw hstep with
    | deallocate _ => exact hb.release hs hzero
  | @resize _ _ _ kind i _ oldLayout newLayout _ hkind halign hstep =>
    cases Step.effect hw hstep with
    | vacate _ _ h0 => exact (hb.release hs hzero).empty (Finset.notMem_erase _ _) h0
    | trim hheld hle hne hin =>
      have hlen := hw.rounded_eq hheld.live hheld.fit
      exact hb.trim hzero hne ((rounded_mono hle).trans_eq hlen) hin
    | extend hmay hheld hle _ hin hroom =>
      have hlen := hw.rounded_eq hheld.live hheld.fit
      obtain ⟨hne, halign', -⟩ := (inPlace_iff hmay).1 hin
      exact hb.extend hne (hlen.ge.trans (rounded_mono hle)) halign' hroom
    | move hheld _ hne hin hfit =>
      have hlen := hb.len_eq_zero hs hkind halign hin
      have hold := hheld.fit.2
      -- only an empty block is ever moved, and nothing is copied
      rw [show min oldLayout.size newLayout.size = 0 by omega]
      exact hb.move hne hlen hfit (halign.freshAddr_eq hw fun _ => hlen)
    | extendFailed | moveFailed => exact hb
  | write hi hstep =>
    cases Step.effect hw hstep with
    | write _ _ hoff => exact hb.store hi hoff _

/-! ## What the discipline guarantees -/

namespace Bracket

variable {s h h' : Heap cfg} {ids : List ℕ} {i : ℕ} {layout : Layout cfg}

theorem demand_eq (hb : s.Bracket h ids) :
    h.demand ids = h.ledger.extent Block.span ids := by
  simp only [demand, Ledger.extent]
  congr 1
  apply List.map_congr_left
  intro j hj
  exact (hb.wellFormed.valid j (hb.live j hj)).len_eq.symm

/-- What a stack-like client was given fits the page. -/
theorem demand_le (hb : s.Bracket h ids) :
    s.alloc.stackOffset + h.demand ids ≤ s.alloc.page.pageSize := by
  rw [hb.demand_eq, ← hb.stackOffset_eq, ← hb.page_eq]
  exact hb.wellFormed.stackOffset_le

/-- A fresh block fits exactly when the demand, counted with it, fits the page. -/
theorem fits_iff (hb : s.Bracket h ids)
    (hfresh : h.alloc.freshAddr layout.align = h.alloc.stackTop) :
    h.alloc.Fits layout ↔
      s.alloc.stackOffset + (rounded layout.size + h.demand ids) ≤ s.alloc.page.pageSize := by
  have htop := hb.stackTop_eq
  simp only [SecStackSinglePageAlloc.Fits, SecStackSinglePageAlloc.pageEnd]
  rw [hfresh, htop, hb.page_eq, hb.demand_eq]
  simp only [SecStackSinglePageAlloc.stackTop]
  omega

theorem allocate_error_iff (hb : s.Bracket h ids) (halign : h.AlignOk i layout) {zeroed : Bool}
    {ans : AllocResult} (heff : Effect h (.allocate zeroed i layout, some ans) h') :
    ans = .error ⟨⟩ ↔
      s.alloc.page.pageSize < s.alloc.stackOffset + (rounded layout.size + h.demand ids) := by
  have hdemand := hb.demand_le
  cases heff with
  | allocateEmpty _ h0 =>
    refine iff_of_false (by rintro ⟨⟩) ?_
    rw [h0, rounded_zero]
    omega
  | allocate hi _ hfit =>
    have hfresh := halign.freshAddr_eq hb.wellFormed fun hmem => absurd hmem hi
    exact iff_of_false (by rintro ⟨⟩) ((hb.fits_iff hfresh).1 hfit).not_gt
  | allocateFailed hi _ hfit =>
    have hfresh := halign.freshAddr_eq hb.wellFormed fun hmem => absurd hmem hi
    exact iff_of_true rfl (not_le.1 (mt (hb.fits_iff hfresh).2 hfit))

theorem grow_error_iff (hb : s.Bracket h (i :: ids)) (hs : s.WellFormed)
    {ptr : NonNull} {kind : Resize} {oldLayout : Layout cfg} (hkind : kind.mayExtend = true)
    (halign : h.AlignOk i layout) {ans : AllocResult}
    (heff : Effect h (.resize kind i ptr oldLayout layout, some ans) h') :
    ans = .error ⟨⟩ ↔
      s.alloc.page.pageSize < s.alloc.stackOffset + (rounded layout.size + h.demand ids) := by
  have hw := hb.wellFormed
  have hdemand := hb.demand_le
  have hcons : h.demand (i :: ids) = rounded (h.ledger.block i).size + h.demand ids := rfl
  -- extending in place needs room for the demand with the new size
  have hroom_iff (hlen : (h.ledger.block i).len ≠ 0) :
      (h.ledger.block i).addr + rounded layout.size ≤ h.alloc.pageEnd ↔
        s.alloc.stackOffset + (rounded layout.size + h.demand ids) ≤ s.alloc.page.pageSize := by
    have hv := (hw.valid i (hb.live i List.mem_cons_self)).len_eq
    have htop := hb.top_eq hlen
    have hstack := hb.stackTop_eq
    rw [← hb.demand_eq, hcons, ← hv] at hstack
    simp only [SecStackSinglePageAlloc.pageEnd]
    rw [hb.page_eq]
    simp only [SecStackSinglePageAlloc.stackTop] at hstack
    rw [SecStackSinglePageAlloc.stackTop] at htop
    omega
  cases heff with
  | vacate _ _ h0 =>
    refine iff_of_false (by rintro ⟨⟩) ?_
    rw [h0, rounded_zero]
    omega
  | trim _ _ _ _ => cases hkind
  | extend hmay _ _ _ hin hroom =>
    exact iff_of_false (by rintro ⟨⟩) ((hroom_iff ((inPlace_iff hmay).1 hin).1).1 hroom).not_gt
  | extendFailed hmay _ _ _ hin hroom =>
    exact iff_of_true rfl (not_le.1 (mt (hroom_iff ((inPlace_iff hmay).1 hin).1).2 hroom))
  | move hheld _ _ hin hfit =>
    have hlen := hb.len_eq_zero hs (Or.inr hkind) halign hin
    have hfit' := (hb.fits_iff (halign.freshAddr_eq hw fun _ => hlen)).1 hfit
    rw [hcons] at hfit'
    exact iff_of_false (by rintro ⟨⟩) (by omega)
  | moveFailed hheld _ _ hin hfit =>
    have hlen := hb.len_eq_zero hs (Or.inr hkind) halign hin
    have hv := (hw.valid i hheld.live).len_eq
    have hfit' := mt (hb.fits_iff (halign.freshAddr_eq hw fun _ => hlen)).2 hfit
    rw [hcons] at hfit'
    exact iff_of_true rfl (by omega)

theorem shrink_ne_error (hb : s.Bracket h (i :: ids)) (hs : s.WellFormed) {ptr : NonNull}
    {oldLayout : Layout cfg} (halign : h.AlignOk i layout) {ans : AllocResult}
    (heff : Effect h (.resize .shrink i ptr oldLayout layout, some ans) h') :
    ans ≠ .error ⟨⟩ := by
  cases heff with
  | vacate _ _ _ => rintro ⟨⟩
  | trim _ _ _ _ => rintro ⟨⟩
  | extend hmay _ _ _ _ _ => cases hmay
  | extendFailed hmay _ _ _ _ _ => cases hmay
  | move _ _ _ _ _ => rintro ⟨⟩
  | moveFailed hheld hord hne hin _ =>
    -- a block shrinking to some bytes is not empty
    have hlen := hb.len_eq_zero hs (Or.inl rfl) halign hin
    have hle : layout.size ≤ _ := hord
    have hfit := hheld.fit.2
    omega

/-- No resize between nonzero sizes moves the block. -/
theorem resize_addr (hb : s.Bracket h (i :: ids)) (hs : s.WellFormed) {ptr : NonNull}
    {kind : Resize} {oldLayout : Layout cfg} (hkind : kind = .shrink ∨ kind.mayExtend = true)
    (halign : h.AlignOk i layout) {slice : NonNullSlice}
    (heff : Effect h (.resize kind i ptr oldLayout layout, some (.ok slice)) h')
    (hold : (h.ledger.block i).size ≠ 0) (hnew : layout.size ≠ 0) :
    slice.asPtr.addr = (h.ledger.block i).addr := by
  cases heff with
  | vacate _ _ h0 => exact absurd h0 hnew
  | trim hheld _ _ _ => exact hheld.addr_eq
  | extend _ hheld _ _ _ _ => exact hheld.addr_eq
  | move hheld _ _ hin _ =>
    have hlen := hb.len_eq_zero hs hkind halign hin
    exact absurd ((hb.wellFormed.len_eq_zero_iff hheld.live).1 hlen) hold

end Bracket

section Runs

variable {s h : Heap cfg} {page : Page cfg} {mem : Memory UInt8} {es es' : List (Event cfg)}
  {ids : List ℕ}

theorem run_bracket (hzero : page.Zeroed mem) (hrun : Run Step (new page mem) es s)
    (hseq : Run StackStep (s, []) es' (h, ids)) : s.Bracket h ids := by
  have hw := run_wellFormed hrun
  refine hseq.invariant (I := fun g => s.Bracket g.1 g.2) ?_ (Bracket.nil hw)
  rintro ⟨g, ids⟩ e ⟨g', ids'⟩ hb hstep
  exact hstep.bracket hw (fun a => run_mem_eq_zero hzero hrun) hb

/-- **Stack discipline.**  From any heap `s` reached from `new`, a client that works on its
newest block only is refused a block, or growth, exactly when the page is too small for all
it asks for; it is never refused to shrink, its blocks never move, and once it has given
everything back the allocator and the memory are those of `s`. -/
theorem stack_discipline (hzero : page.Zeroed mem) (hrun : Run Step (new page mem) es s)
    (hseq : Run StackStep (s, []) es' (h, ids)) :
    (∀ zeroed i layout, h.Legal (.allocate zeroed i layout) → h.AlignOk i layout →
      ∃ ans h', h.exec (.allocate zeroed i layout) = .ok (some ans, h') ∧
        (ans = .error ⟨⟩ ↔
          page.pageSize < s.alloc.stackOffset + (rounded layout.size + h.demand ids))) ∧
    (∀ i rest kind ptr oldLayout newLayout, ids = i :: rest →
      (kind = .shrink ∨ Resize.mayExtend kind = true) →
      h.Legal (.resize kind i ptr oldLayout newLayout) → h.AlignOk i newLayout →
      ∃ ans h', h.exec (.resize kind i ptr oldLayout newLayout) = .ok (some ans, h') ∧
        (kind = .shrink → ans ≠ .error ⟨⟩) ∧
        (kind ≠ .shrink → (ans = .error ⟨⟩ ↔
          page.pageSize < s.alloc.stackOffset + (rounded newLayout.size + h.demand rest))) ∧
        ((h.ledger.block i).size ≠ 0 → newLayout.size ≠ 0 →
          ∀ slice, ans = .ok slice → slice.asPtr.addr = (h.ledger.block i).addr)) ∧
    (ids = [] → h.alloc.bytes = s.alloc.bytes ∧ h.alloc.stackOffset = s.alloc.stackOffset ∧
      h.alloc.page = s.alloc.page ∧ h.mem = s.mem) := by
  have hw := run_wellFormed hrun
  have hb := run_bracket hzero hrun hseq
  obtain rfl := run_page_eq hrun
  refine ⟨?_, ?_, ?_⟩
  · intro zeroed i layout hl halign
    obtain ⟨ans, h', hexec, heff⟩ := exec_allocate_effect hb.wellFormed hl
    exact ⟨ans, h', hexec, hb.allocate_error_iff halign heff⟩
  · rintro i rest kind ptr oldLayout newLayout rfl hkind hl halign
    obtain ⟨ans, h', hexec, heff⟩ := exec_resize_effect hb.wellFormed hl
    refine ⟨ans, h', hexec, ?_, ?_, ?_⟩
    · rintro rfl
      exact hb.shrink_ne_error hw halign heff
    · intro hne
      exact hb.grow_error_iff hw (hkind.resolve_left hne) halign heff
    · rintro hold hnew slice rfl
      exact hb.resize_addr hw hkind halign heff hold hnew
  · rintro rfl
    refine ⟨hb.bytes_eq, hb.stackOffset_eq, hb.page_eq, ?_⟩
    funext a
    exact hb.mem_eq a fun i hi => absurd hi List.not_mem_nil

/-- A pointer to the third block on the sample page. -/
def thirdPtr : NonNull := ⟨⟨65568, 65568, 65577⟩, by decide⟩

/-- A block placed on the sample, written to and given back. -/
def sampleBack : Heap sampleCfg := ((sampleEnd.place 2 nineBytes).store 2 5 1).release 2

theorem sampleSeq : Run StackStep (sampleEnd, [])
    [(.allocate false 2 nineBytes, some (.ok (Exact.freshSlice sampleEnd.alloc nineBytes))),
      (.write 2 5 1, none), (.deallocate 2 thirdPtr nineBytes, none)] (sampleBack, []) :=
  .snoc (.snoc (.snoc (.nil _) (.allocate (.inl (by decide)) ⟨by decide, rfl⟩))
    (.write (by decide) ⟨by decide, rfl⟩)) (.deallocate ⟨by decide, rfl⟩)

theorem stack_discipline_sample : sampleBack.mem = sampleEnd.mem :=
  ((stack_discipline sampleStart_zeroed sampleRun sampleSeq).2.2 rfl).2.2.2

end Runs

end Heap

end SecmemAlloc
