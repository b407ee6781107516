import SecmemAlloc.SecAlloc.WellFormed

/-!
# What an operation can do

`Effect` lists every outcome of a legal operation on a well-formed heap, with the condition
under which it occurs.  Each legal operation returns and has one of these effects, so the
invariants are proved by cases on `Effect` and never look at the code.
-/

namespace SecmemAlloc

variable {cfg : Cfg}

namespace Resize

/-- The two calls that may extend a block in place. -/
def mayExtend : Resize → Bool
  | .grow | .growZeroed => true
  | .shrink | .reallocGrow | .reallocShrink => false

end Resize

namespace Heap

/-- Whether a call that resizes block `i` works on the block where it is. -/
def InPlace (h : Heap cfg) (kind : Resize) (i : ℕ) (newLayout : Layout cfg) : Prop :=
  match kind with
  | .grow | .growZeroed =>
    (h.ledger.block i).len ≠ 0 ∧ newLayout.align ∣ (h.ledger.block i).addr ∧
      (h.ledger.block i).addr + (h.ledger.block i).len = h.alloc.stackTop
  | .shrink => newLayout.align ∣ (h.ledger.block i).addr
  | .reallocGrow | .reallocShrink => False

/-- The two growing calls extend the block that ends at the stack top. -/
theorem inPlace_iff {h : Heap cfg} {kind : Resize} (hkind : kind.mayExtend = true) {i : ℕ}
    {newLayout : Layout cfg} : h.InPlace kind i newLayout ↔ (h.ledger.block i).len ≠ 0 ∧
      Exact.GrowsInPlace h.alloc (h.ledger.block i).addr (h.ledger.block i).len
        newLayout.align := by
  cases kind with
  | grow | growZeroed => rfl
  | shrink | reallocGrow | reallocShrink => cases hkind

/-- The slice of a block resized where it is, through the client's pointer. -/
def resizedSlice (ptr : NonNull) (layout : Layout cfg) : NonNullSlice :=
  ⟨⟨ptr.asPtr, rounded layout.size⟩, ptr.addr_ne_zero⟩

/-- `Effect h e h'`: on `h`, the operation and answer of the event `e` lead to `h'`. -/
inductive Effect (h : Heap cfg) : Event cfg → Heap cfg → Prop
  | allocateEmpty {zeroed : Bool} {i : ℕ} {layout : Layout cfg} (hi : i ∉ h.ledger.live)
      (h0 : layout.size = 0) :
      Effect h (.allocate zeroed i layout, some (.ok (Exact.zeroSlice layout))) (h.empty i layout)
  | allocate {zeroed : Bool} {i : ℕ} {layout : Layout cfg} (hi : i ∉ h.ledger.live)
      (hne : layout.size ≠ 0) (hfit : h.alloc.Fits layout) :
      Effect h (.allocate zeroed i layout, some (.ok (Exact.freshSlice h.alloc layout)))
        (h.place i layout)
  | allocateFailed {zeroed : Bool} {i : ℕ} {layout : Layout cfg} (hi : i ∉ h.ledger.live)
      (hne : layout.size ≠ 0) (hfit : ¬ h.alloc.Fits layout) :
      Effect h (.allocate zeroed i layout, some (.error ⟨⟩)) h
  | deallocate {i : ℕ} {ptr : NonNull} {layout : Layout cfg} (hheld : h.Held i ptr layout) :
      Effect h (.deallocate i ptr layout, none) (h.release i)
  | write {i off : ℕ} (v : UInt8) (hi : i ∈ h.ledger.live)
      (hoff : off < (h.ledger.block i).len) :
      Effect h (.write i off v, none) (h.store i off v)
  /-- Resizing to zero bytes. -/
  | vacate {kind : Resize} {i : ℕ} {ptr : NonNull} {oldLayout newLayout : Layout cfg}
      (hheld : h.Held i ptr oldLayout) (hord : kind.Ordered oldLayout.size newLayout.size)
      (h0 : newLayout.size = 0) :
      Effect h (.resize kind i ptr oldLayout newLayout, some (.ok (Exact.zeroSlice newLayout)))
        ((h.release i).empty i newLayout)
  | trim {i : ℕ} {ptr : NonNull} {oldLayout newLayout : Layout cfg}
      (hheld : h.Held i ptr oldLayout) (hord : newLayout.size ≤ oldLayout.size)
      (hne : newLayout.size ≠ 0) (hin : h.InPlace .shrink i newLayout) :
      Effect h (.resize .shrink i ptr oldLayout newLayout,
        some (.ok (resizedSlice ptr newLayout))) (h.trim i newLayout)
  | extend {kind : Resize} {i : ℕ} {ptr : NonNull} {oldLayout newLayout : Layout cfg}
      (hkind : kind.mayExtend = true) (hheld : h.Held i ptr oldLayout)
      (hord : oldLayout.size ≤ newLayout.size) (hne : newLayout.size ≠ 0)
      (hin : h.InPlace kind i newLayout)
      (hroom : (h.ledger.block i).addr + rounded newLayout.size ≤ h.alloc.pageEnd) :
      Effect h (.resize kind i ptr oldLayout newLayout,
        some (.ok (resizedSlice ptr newLayout))) (h.extend i newLayout)
  /-- The last block does not fit the page with its new size. -/
  | extendFailed {kind : Resize} {i : ℕ} {ptr : NonNull} {oldLayout newLayout : Layout cfg}
      (hkind : kind.mayExtend = true) (hheld : h.Held i ptr oldLayout)
      (hord : oldLayout.size ≤ newLayout.size) (hne : newLayout.size ≠ 0)
      (hin : h.InPlace kind i newLayout)
      (hroom : ¬ (h.ledger.block i).addr + rounded newLayout.size ≤ h.alloc.pageEnd) :
      Effect h (.resize kind i ptr oldLayout newLayout, some (.error ⟨⟩)) h
  | move {kind : Resize} {i : ℕ} {ptr : NonNull} {oldLayout newLayout : Layout cfg}
      (hheld : h.Held i ptr oldLayout) (hord : kind.Ordered oldLayout.size newLayout.size)
      (hne : newLayout.size ≠ 0) (hin : ¬ h.InPlace kind i newLayout)
      (hfit : h.alloc.Fits newLayout) :
      Effect h (.resize kind i ptr oldLayout newLayout,
        some (.ok (Exact.freshSlice h.alloc newLayout)))
        (h.move i newLayout (min oldLayout.size newLayout.size))
  | moveFailed {kind : Resize} {i : ℕ} {ptr : NonNull} {oldLayout newLayout : Layout cfg}
      (hheld : h.Held i ptr oldLayout) (hord : kind.Ordered oldLayout.size newLayout.size)
      (hne : newLayout.size ≠ 0) (hin : ¬ h.InPlace kind i newLayout)
      (hfit : ¬ h.alloc.Fits newLayout) :
      Effect h (.resize kind i ptr oldLayout newLayout, some (.error ⟨⟩)) h

/-! ## Every legal operation has an effect -/

section

variable {h : Heap cfg} {i : ℕ} {ptr : NonNull} {oldLayout newLayout : Layout cfg}

theorem deallocate_mem (ptr : NonNull) (layout : Layout cfg) (s : SecMachine cfg) :
    (Exact.deallocate ptr layout s).mem = s.mem.fill ptr.asPtr.addr (rounded layout.size) 0 := by
  simp only [Exact.deallocate]
  split
  · rw [‹layout.size = 0›, rounded_zero, Memory.fill_zero]
  · rfl

theorem deallocate_self {ptr : NonNull} {layout : Layout cfg} {s : SecMachine cfg}
    (h0 : layout.size = 0 → s.self.release ptr.asPtr.addr 0 = s.self) :
    (Exact.deallocate ptr layout s).self =
      s.self.release ptr.asPtr.addr (rounded layout.size) := by
  simp only [Exact.deallocate]
  split
  · rw [‹layout.size = 0›, rounded_zero, h0 ‹_›]
  · rfl

/-- A call of `deallocate` releases the block. -/
theorem deallocate_eq_release (hw : h.WellFormed) (hheld : h.Held i ptr oldLayout) :
    (⟨(Exact.deallocate ptr oldLayout h.machine).self,
      (Exact.deallocate ptr oldLayout h.machine).mem, h.ledger.erase i⟩ : Heap cfg) =
      h.release i := by
  rw [deallocate_mem, deallocate_self fun _ => hw.release_zero _, hheld.addr_eq,
    hw.rounded_eq hheld.live hheld.fit]
  rfl

/-- Resizing to zero bytes, whatever happens to the old block first. -/
theorem settle_zeroSlice (hw : h.WellFormed) (hheld : h.Held i ptr oldLayout) :
    h.settle i newLayout
      (.ok (Exact.zeroSlice newLayout), Exact.deallocate ptr oldLayout h.machine) =
      (some (.ok (Exact.zeroSlice newLayout)), (h.release i).empty i newLayout) := by
  rw [← deallocate_eq_release hw hheld]
  simp only [settle, empty, Ledger.insert_erase _ hheld.live]

/-- Reallocation to zero bytes. -/
theorem realloc_zero (n : ℕ) (hn : n = min oldLayout.size newLayout.size)
    (h0 : newLayout.size = 0) (s : SecMachine cfg) :
    Exact.realloc n ptr oldLayout newLayout s =
      (.ok (Exact.zeroSlice newLayout), Exact.deallocate ptr oldLayout s) := by
  have hn0 : n = 0 := by omega
  simp only [Exact.realloc, Exact.allocate, if_pos h0, hn0, Machine.copy_zero]

/-- Reallocation moves the block, or fails if a fresh block does not fit. -/
theorem settle_realloc (hw : h.WellFormed) (hheld : h.Held i ptr oldLayout)
    (hne : newLayout.size ≠ 0) (n : ℕ) :
    h.settle i newLayout (Exact.realloc n ptr oldLayout newLayout h.machine) =
      if h.alloc.Fits newLayout then
        (some (.ok (Exact.freshSlice h.alloc newLayout)), h.move i newLayout n)
      else (some (.error ⟨⟩), h) := by
  simp only [Exact.realloc]
  by_cases hfit : h.alloc.Fits newLayout
  · rw [Exact.allocate_of_fits (s := h.machine) hne hfit, if_pos hfit]
    have hr := hw.rounded_eq hheld.live hheld.fit
    -- the old block is taken back from the stack that already has the new one
    have hself : ∀ s : SecMachine cfg, s.self = h.alloc.place newLayout →
        (Exact.deallocate ptr oldLayout s).self =
          (h.alloc.place newLayout).release (h.ledger.block i).addr (h.ledger.block i).len := by
      intro s hs
      rw [deallocate_self, hheld.addr_eq, hr, hs]
      intro h0
      have hlen : (h.ledger.block i).len = 0 := by rw [← hr, h0, rounded_zero]
      have hrel := hw.release_place hheld.live hne
      rw [hlen] at hrel
      rw [hs, hheld.addr_eq, hrel]
      rfl
    simp only [settle, deallocate_mem, hheld.addr_eq, hr]
    rw [hself _ (by rfl)]
    simp only [move, Machine.copy_mem, hheld.addr_eq]
    rfl
  · rw [Exact.allocate_of_not_fits (s := h.machine) hne hfit, if_neg hfit]
    rfl

theorem effect_allocate {zeroed : Bool} {layout : Layout cfg} (hi : i ∉ h.ledger.live) :
    Effect h (.allocate zeroed i layout, (h.settle i layout (Exact.allocate layout h.machine)).1)
      (h.settle i layout (Exact.allocate layout h.machine)).2 := by
  simp only [Exact.allocate]
  split
  · exact .allocateEmpty hi ‹_›
  · split
    · exact .allocate hi ‹_› ‹_›
    · exact .allocateFailed hi ‹_› ‹_›

/-- A resizing call that gives up on the old place. -/
theorem effect_realloc (hw : h.WellFormed) {kind : Resize} (hheld : h.Held i ptr oldLayout)
    (hord : kind.Ordered oldLayout.size newLayout.size) (hin : ¬ h.InPlace kind i newLayout)
    {n : ℕ} (hn : n = min oldLayout.size newLayout.size) :
    Effect h (.resize kind i ptr oldLayout newLayout,
        (h.settle i newLayout (Exact.realloc n ptr oldLayout newLayout h.machine)).1)
      (h.settle i newLayout (Exact.realloc n ptr oldLayout newLayout h.machine)).2 := by
  by_cases h0 : newLayout.size = 0
  · rw [realloc_zero n hn h0, settle_zeroSlice hw hheld]
    exact .vacate hheld hord h0
  · rw [settle_realloc hw hheld h0, hn]
    split
    · exact .move hheld hord h0 hin ‹_›
    · exact .moveFailed hheld hord h0 hin ‹_›

theorem effect_shrink (hw : h.WellFormed) (hheld : h.Held i ptr oldLayout)
    (hle : newLayout.size ≤ oldLayout.size) :
    Effect h (.resize .shrink i ptr oldLayout newLayout,
        (h.settle i newLayout (Exact.shrink ptr oldLayout newLayout h.machine)).1)
      (h.settle i newLayout (Exact.shrink ptr oldLayout newLayout h.machine)).2 := by
  unfold Exact.shrink
  by_cases h0 : newLayout.size = 0
  · rw [if_pos h0, settle_zeroSlice hw hheld]
    exact .vacate hheld hle h0
  rw [if_neg h0, hheld.addr_eq]
  by_cases hin : newLayout.align ∣ (h.ledger.block i).addr
  · have htrim : h.settle i newLayout (.ok (resizedSlice ptr newLayout),
        { h.machine.fill (ptr.asPtr.offset (rounded newLayout.size))
            (rounded oldLayout.size - rounded newLayout.size) 0 with
          self := h.alloc.trim (h.ledger.block i).addr (rounded oldLayout.size)
            (rounded newLayout.size) }) =
        (some (.ok (resizedSlice ptr newLayout)), h.trim i newLayout) := by
      simp only [settle, trim, resizedSlice, Block.ofSlice, Machine.fill_mem, Ptr.offset_addr,
        hheld.addr_eq, hw.rounded_eq hheld.live hheld.fit]
      rfl
    rw [if_pos hin]
    dsimp only
    exact htrim ▸ .trim hheld hle h0 hin
  · rw [if_neg hin]
    have hord : Resize.shrink.Ordered oldLayout.size newLayout.size := hle
    exact effect_realloc hw hheld hord hin (Nat.min_eq_right hle).symm

theorem effect_grow (hw : h.WellFormed) {kind : Resize} (hkind : kind.mayExtend = true)
    (hheld : h.Held i ptr oldLayout) (hle : oldLayout.size ≤ newLayout.size) :
    Effect h (.resize kind i ptr oldLayout newLayout,
        (h.settle i newLayout (Exact.grow ptr oldLayout newLayout h.machine)).1)
      (h.settle i newLayout (Exact.grow ptr oldLayout newLayout h.machine)).2 := by
  have hr := hw.rounded_eq hheld.live hheld.fit
  have hord : kind.Ordered oldLayout.size newLayout.size := by
    cases kind with
    | grow | growZeroed => exact hle
    | shrink | reallocGrow | reallocShrink => cases hkind
  unfold Exact.grow
  by_cases hold : oldLayout.size = 0
  · -- an empty block grows like a fresh one
    have hin : ¬ h.InPlace kind i newLayout := by
      rw [inPlace_iff hkind, ← hr, hold]
      exact fun hin => hin.1 rfl
    have hreal : Exact.realloc 0 ptr oldLayout newLayout h.machine =
        Exact.allocate newLayout h.machine := by
      simp only [Exact.realloc]
      rcases Exact.allocate newLayout h.machine with ⟨e | newPtr, t⟩
      · rfl
      · simp only [Machine.copy_zero, Exact.deallocate, if_pos hold]
    rw [if_pos hold, ← hreal]
    exact effect_realloc hw hheld hord hin (by omega)
  have hlen : (h.ledger.block i).len ≠ 0 := hr ▸ rounded_ne_zero hold
  have h0 : newLayout.size ≠ 0 := by omega
  rw [if_neg hold, hheld.addr_eq, hr]
  dsimp only
  by_cases hin : Exact.GrowsInPlace h.alloc (h.ledger.block i).addr (h.ledger.block i).len
      newLayout.align
  · rw [if_pos (show Exact.GrowsInPlace h.machine.self _ _ _ from hin)]
    by_cases hroom : (h.ledger.block i).addr + rounded newLayout.size ≤ h.alloc.pageEnd
    · have hextend : h.settle i newLayout (.ok (resizedSlice ptr newLayout),
          { h.machine with self :=
              h.alloc.extend (h.ledger.block i).len (rounded newLayout.size) }) =
          (some (.ok (resizedSlice ptr newLayout)), h.extend i newLayout) := by
        simp only [settle, extend, resizedSlice, Block.ofSlice, hheld.addr_eq]
        rfl
      rw [if_pos (show _ ≤ h.machine.self.pageEnd from hroom)]
      exact hextend ▸ .extend hkind hheld hle h0 ((inPlace_iff hkind).2 ⟨hlen, hin⟩) hroom
    · rw [if_neg (show ¬ _ ≤ h.machine.self.pageEnd from hroom)]
      exact .extendFailed hkind hheld hle h0 ((inPlace_iff hkind).2 ⟨hlen, hin⟩) hroom
  · rw [if_neg (show ¬ Exact.GrowsInPlace h.machine.self _ _ _ from hin)]
    exact effect_realloc hw hheld hord (fun hin' => hin ((inPlace_iff hkind).1 hin').2)
      (Nat.min_eq_left hle).symm

/-- A legal operation on a well-formed heap returns, in every build, with an effect. -/
theorem exec_effect (hw : h.WellFormed) {op : Op cfg} (hl : h.Legal op) :
    ∃ r, h.exec op = .ok r ∧ Effect h (op, r.1) r.2 := by
  have hc := hw.consistent
  cases op with
  | allocate zeroed i layout =>
    refine ⟨h.settle i layout (Exact.allocate layout h.machine), ?_, effect_allocate hl⟩
    have hrun : (SecStackSinglePageAlloc.allocateZeroed cfg layout).run h.machine =
        .ok (Exact.allocate layout h.machine) :=
      SecStackSinglePageAlloc.allocateZeroed_run hc layout
    cases zeroed <;> exact congrArg (Except.map (h.settle i layout)) hrun
  | deallocate i ptr layout =>
    have hrun : (SecStackSinglePageAlloc.deallocate cfg ptr layout).run h.machine =
        .ok ((), Exact.deallocate ptr layout h.machine) :=
      SecStackSinglePageAlloc.deallocate_run hc (hw.owned hl)
    refine ⟨(none, h.release i), ?_, .deallocate hl⟩
    rw [exec, hrun, ← deallocate_eq_release hw hl]
    rfl
  | resize kind i ptr oldLayout newLayout =>
    obtain ⟨hheld, hord⟩ := hl
    have hrun : (kind.code ptr oldLayout newLayout).run h.machine =
        .ok (kind.exact ptr oldLayout newLayout h.machine) :=
      kind.code_run hc (hw.owned hheld) hord
    refine ⟨h.settle i newLayout (kind.exact ptr oldLayout newLayout h.machine), ?_, ?_⟩
    · rw [exec, hrun]
      rfl
    · cases kind with
      | grow => exact effect_grow hw rfl hheld hord
      | growZeroed => exact effect_grow hw rfl hheld hord
      | shrink => exact effect_shrink hw hheld hord
      | reallocGrow => exact effect_realloc hw hheld hord id (Nat.min_eq_left hord).symm
      | reallocShrink => exact effect_realloc hw hheld hord id (Nat.min_eq_right hord).symm
  | write i off v => exact ⟨(none, h.store i off v), rfl, .write v hl.1 hl.2⟩

/-- The calls that answer with a slice or an error. -/
theorem exec_allocate_effect (hw : h.WellFormed) {zeroed : Bool} {layout : Layout cfg}
    (hl : h.Legal (.allocate zeroed i layout)) :
    ∃ ans h', h.exec (.allocate zeroed i layout) = .ok (some ans, h') ∧
      Effect h (.allocate zeroed i layout, some ans) h' := by
  obtain ⟨⟨ans?, h'⟩, hexec, heff⟩ := exec_effect hw hl
  obtain ⟨ans, rfl⟩ : ∃ ans, ans? = some ans := by cases heff <;> exact ⟨_, rfl⟩
  exact ⟨ans, h', hexec, heff⟩

theorem exec_resize_effect (hw : h.WellFormed) {kind : Resize}
    (hl : h.Legal (.resize kind i ptr oldLayout newLayout)) :
    ∃ ans h', h.exec (.resize kind i ptr oldLayout newLayout) = .ok (some ans, h') ∧
      Effect h (.resize kind i ptr oldLayout newLayout, some ans) h' := by
  obtain ⟨⟨ans?, h'⟩, hexec, heff⟩ := exec_effect hw hl
  obtain ⟨ans, rfl⟩ : ∃ ans, ans? = some ans := by cases heff <;> exact ⟨_, rfl⟩
  exact ⟨ans, h', hexec, heff⟩

/-- A step is an effect. -/
theorem Step.effect (hw : h.WellFormed) {e : Event cfg} {h' : Heap cfg} (hs : h.Step e h') :
    Effect h e h' := by
  obtain ⟨r, hexec, heff⟩ := exec_effect hw hs.1
  rw [hs.2] at hexec
  cases hexec
  exact heff

end

/-! ## The representation invariant over runs -/

variable {h h' : Heap cfg}

theorem Effect.page_eq {e : Event cfg} (heff : Effect h e h') : h'.alloc.page = h.alloc.page := by
  cases heff <;> rfl

theorem Effect.wellFormed (hw : h.WellFormed) {e : Event cfg} (heff : Effect h e h') :
    h'.WellFormed := by
  cases heff with
  | allocateEmpty hi h0 => exact hw.empty hi h0
  | allocate hi hne hfit => exact hw.place hi hne hfit
  | deallocate hheld => exact hw.release hheld.live
  | write v hi hoff => exact hw.store _ v
  | vacate hheld hord h0 => exact (hw.release hheld.live).empty (Finset.notMem_erase _ _) h0
  | trim hheld hle hne hin =>
    exact hw.trim hheld.live hne ((rounded_mono hle).trans_eq (hw.rounded_eq hheld.live hheld.fit))
      hin
  | extend hkind hheld hle hne hin hroom =>
    obtain ⟨hlen, halign, htop⟩ := (inPlace_iff hkind).1 hin
    exact hw.extend hheld.live hlen
      ((hw.rounded_eq hheld.live hheld.fit).ge.trans (rounded_mono hle)) halign htop hroom
  | move hheld hord hne hin hfit => exact hw.move hheld.live hne hfit _
  | allocateFailed | extendFailed | moveFailed => exact hw

/-- Every heap reached from `new` is well formed. -/
theorem run_wellFormed {page : Page cfg} {mem : Memory UInt8} {es : List (Event cfg)}
    (hrun : Run Step (new page mem) es h) : h.WellFormed :=
  hrun.invariant (fun _ _ _ hw hs => (Step.effect hw hs).wellFormed hw)
    (new_wellFormed page mem)

theorem run_page_eq {page : Page cfg} {mem : Memory UInt8} {es : List (Event cfg)}
    (hrun : Run Step (new page mem) es h) : h.alloc.page = page := by
  have hinv : h.WellFormed ∧ h.alloc.page = page := by
    refine hrun.invariant (I := fun g => g.WellFormed ∧ g.alloc.page = page) ?_
      ⟨new_wellFormed page mem, rfl⟩
    rintro g e g' ⟨hw, hpage⟩ hs
    have heff := Step.effect hw hs
    exact ⟨heff.wellFormed hw, heff.page_eq.trans hpage⟩
  exact hinv.2

/-! ## A small run -/

/-- A 64-bit build with all checks. -/
def sampleCfg : Cfg := ⟨64, true, true, false, false, true⟩

def samplePage : Page sampleCfg where
  pagePtr := 65536
  pageSize := 4096
  isPowerOfTwo_pageSize := ⟨12, rfl⟩
  eight_dvd_pageSize := by decide
  pageSize_dvd_pagePtr := by decide
  pagePtr_pos := by decide
  pageEnd_le := by decide

/-- A layout of alignment 1. -/
def sampleLayout (size : ℕ) (hsize : size + (1 - 1) ≤ sampleCfg.isizeMax) : Layout sampleCfg :=
  ⟨size, 1, ⟨0, rfl⟩, hsize⟩

def nineBytes : Layout sampleCfg := sampleLayout 9 (by decide)

def sampleStart : Heap sampleCfg := new samplePage fun _ => 0

/-- Two blocks of nine bytes, of which the first one was written to. -/
def sampleEnd : Heap sampleCfg := ((sampleStart.place 0 nineBytes).store 0 3 7).place 1 nineBytes

def sampleEvents : List (Event sampleCfg) :=
  [(.allocate false 0 nineBytes, some (.ok (Exact.freshSlice sampleStart.alloc nineBytes))),
    (.write 0 3 7, none),
    (.allocate true 1 nineBytes, some (.ok
      (Exact.freshSlice (sampleStart.place 0 nineBytes).alloc nineBytes)))]

theorem sampleStart_zeroed : samplePage.Zeroed fun _ => 0 := fun _ _ _ => rfl

theorem sampleRun : Run Step sampleStart sampleEvents sampleEnd :=
  .snoc (.snoc (.snoc (.nil _) ⟨by decide, rfl⟩) ⟨by decide, rfl⟩) ⟨by decide, rfl⟩

end Heap

end SecmemAlloc
