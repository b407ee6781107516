import SecmemAlloc.SecAlloc.Effect

/-!
# What pointers may be used for

A client may pass back a pointer that is usable for no more than the size of the layout it
names.  The calls that relocate or release a block reach it through the pointer to the
page; the calls that work on it in place go through the client's pointer, and return it.
So those two are within their rights only if the pointer reaches further than the contract
asks.
-/

namespace SecmemAlloc

variable {cfg : Cfg}

/-- The pointer may be used for `n` bytes; any pointer may be used for none. -/
def Ptr.UsableFor (p : Ptr) (n : ℕ) : Prop := n = 0 ∨ p.Covers n

instance (p : Ptr) (n : ℕ) : Decidable (p.UsableFor n) :=
  inferInstanceAs (Decidable (n = 0 ∨ p.Covers n))

theorem Ptr.UsableFor.mono {p : Ptr} {k n : ℕ} (h : p.UsableFor n) (hk : k ≤ n) :
    p.UsableFor k := by
  rcases h with h0 | hcov
  · exact Or.inl (by omega)
  · exact Or.inr (hcov.mono hk)

/-- Every access lies in the range of its pointer. -/
def InRange (log : List Access) : Prop := ∀ a ∈ log, a.InRange

instance (log : List Access) : Decidable (InRange log) :=
  inferInstanceAs (Decidable (∀ a ∈ log, a.InRange))

theorem inRange_nil : InRange [] := fun _ ha => absurd ha List.not_mem_nil

theorem inRange_append {log log' : List Access} :
    InRange (log ++ log') ↔ InRange log ∧ InRange log' := List.forall_mem_append

theorem inRange_iff_usableFor {kind : AccessKind} {p : Ptr} {n : ℕ} :
    InRange (accesses kind p n) ↔ p.UsableFor n := inRange_accesses_iff

/-- A call that keeps to the ranges of the pointers it uses, and whose slice, if any, comes
with a pointer to all of its bytes. -/
def Disciplined (r : AllocResult × SecMachine cfg) : Prop :=
  InRange r.2.log ∧ ∀ slice, r.1 = .ok slice → slice.asPtr.UsableFor slice.len

namespace SecStackSinglePageAlloc

/-! ## Allocating and releasing -/

variable {s : SecMachine cfg} {ptr : NonNull} {layout oldLayout newLayout : Layout cfg}

theorem deallocate_log (ptr : NonNull) (layout : Layout cfg) (s : SecMachine cfg) :
    (Exact.deallocate ptr layout s).log = s.log ++
      accesses .write (s.self.page.asPtrMut.withAddr ptr.asPtr.addr) (rounded layout.size) := by
  simp only [Exact.deallocate]
  split
  · rw [‹layout.size = 0›, rounded_zero, accesses_zero, List.append_nil]
  · rfl

/-- Releasing a block goes through the pointer to the page. -/
theorem deallocate_inRange (hc : s.self.Consistent) (hheld : Owned s ptr layout)
    (hlog : InRange s.log) : InRange (Exact.deallocate ptr layout s).log := by
  rw [deallocate_log, inRange_append, inRange_iff_usableFor]
  refine ⟨hlog, ?_⟩
  by_cases h0 : layout.size = 0
  · exact Or.inl (rounded_eq_zero_iff.2 h0)
  · obtain ⟨hlo, -, hstop, -⟩ := hheld h0
    exact Or.inr ⟨hlo, hstop.trans hc.stackTop_le⟩

/-- A fresh block comes with the pointer to the page. -/
theorem freshSlice_usableFor {a : SecStackSinglePageAlloc cfg} (hfit : a.Fits layout) :
    (Exact.freshSlice a layout).asPtr.UsableFor (rounded layout.size) := by
  have hlo : a.page.pagePtr ≤ a.freshAddr layout.align :=
    (Nat.le_add_right _ _).trans (a.freshAddr_ge layout.align)
  exact Or.inr ⟨hlo, hfit⟩

theorem allocate_disciplined (layout : Layout cfg) (hlog : InRange s.log) :
    Disciplined (Exact.allocate layout s) := by
  simp only [Exact.allocate]
  split
  · refine ⟨hlog, ?_⟩
    rintro _ ⟨⟩
    exact Or.inl rfl
  · split
    · refine ⟨hlog, ?_⟩
      rintro _ ⟨⟩
      exact freshSlice_usableFor ‹_›
    · refine ⟨hlog, ?_⟩
      rintro _ ⟨⟩

theorem allocate_len {s t : SecMachine cfg} {slice : NonNullSlice}
    (h : Exact.allocate layout s = (.ok slice, t)) : slice.len = rounded layout.size := by
  simp only [Exact.allocate] at h
  split at h
  · cases h
    exact (rounded_eq_zero_iff.2 ‹_›).symm
  · split at h <;> cases h
    rfl

/-- A relocating call reads through the client's pointer what its layout allows, and does
everything else through the pointer to the page. -/
theorem realloc_disciplined (hc : s.self.Consistent) (hheld : Owned s ptr oldLayout)
    (hptr : ptr.asPtr.UsableFor oldLayout.size) (hlog : InRange s.log) {n : ℕ}
    (hn : n ≤ oldLayout.size) (hn' : n ≤ newLayout.size) :
    Disciplined (Exact.realloc n ptr oldLayout newLayout s) := by
  obtain ⟨htc, hkeep⟩ := allocate_keeps hc newLayout
  have hdisc := allocate_disciplined newLayout hlog
  simp only [Exact.realloc]
  rcases hres : Exact.allocate newLayout s with ⟨e | newPtr, t⟩ <;> rw [hres] at htc hkeep hdisc
  · exact hdisc
  · have hlen := allocate_len hres
    have hnew := hdisc.2 newPtr rfl
    have hcopy : InRange (t.copy ptr.asPtr newPtr.asPtr n).log := by
      rw [Machine.copy_log, inRange_append, inRange_append, inRange_iff_usableFor,
        inRange_iff_usableFor]
      refine ⟨⟨hdisc.1, hptr.mono hn⟩, hnew.mono ?_⟩
      rw [hlen]
      exact hn'.trans (le_rounded _)
    refine ⟨deallocate_inRange htc (fun hne => hkeep _ _ (hheld hne)) hcopy, ?_⟩
    rintro _ ⟨⟩
    exact hnew

/-! ## Working in place -/

theorem shrink_disciplined_iff (hc : s.self.Consistent) (hheld : Owned s ptr oldLayout)
    (hptr : ptr.asPtr.UsableFor oldLayout.size) (hlog : InRange s.log)
    (hle : newLayout.size ≤ oldLayout.size) :
    Disciplined (Exact.shrink ptr oldLayout newLayout s) ↔
      newLayout.size = 0 ∨ ¬ newLayout.align ∣ ptr.asPtr.addr ∨
        ptr.asPtr.Covers (rounded oldLayout.size) := by
  simp only [Exact.shrink]
  by_cases h0 : newLayout.size = 0
  · rw [if_pos h0]
    refine ⟨fun _ => Or.inl h0, fun _ => ⟨deallocate_inRange hc hheld hlog, ?_⟩⟩
    rintro _ ⟨⟩
    exact Or.inl rfl
  rw [if_neg h0]
  by_cases halign : newLayout.align ∣ ptr.asPtr.addr
  · have hmono := rounded_mono hle
    have hne := rounded_ne_zero h0
    rw [if_pos halign, or_iff_right h0, or_iff_right (not_not.2 halign)]
    -- the wiped end and the kept start together are the whole block
    have hfill : InRange ((s.fill (ptr.asPtr.offset (rounded newLayout.size))
        (rounded oldLayout.size - rounded newLayout.size) 0).log) ↔
        (ptr.asPtr.offset (rounded newLayout.size)).UsableFor
          (rounded oldLayout.size - rounded newLayout.size) := by
      rw [Machine.fill_log, inRange_append, inRange_iff_usableFor, and_iff_right hlog]
    constructor
    · rintro ⟨hrange, hslice⟩
      have hwipe := hfill.1 hrange
      have hret : ptr.asPtr.UsableFor (rounded newLayout.size) := hslice _ rfl
      unfold Ptr.UsableFor Ptr.Covers Ptr.offset at *
      dsimp only at hwipe
      omega
    · intro hcov
      refine ⟨hfill.2 (Or.inr ?_), ?_⟩
      · unfold Ptr.Covers Ptr.offset at *
        dsimp only
        omega
      · rintro _ ⟨⟩
        exact Or.inr (hcov.mono hmono)
  · rw [if_neg halign]
    exact ⟨fun _ => Or.inr (Or.inl halign), fun _ =>
      realloc_disciplined hc hheld hptr hlog hle le_rfl⟩

theorem grow_disciplined_iff (hc : s.self.Consistent) (hheld : Owned s ptr oldLayout)
    (hptr : ptr.asPtr.UsableFor oldLayout.size) (hlog : InRange s.log)
    (hle : oldLayout.size ≤ newLayout.size) :
    Disciplined (Exact.grow ptr oldLayout newLayout s) ↔
      oldLayout.size = 0 ∨
        ¬ Exact.GrowsInPlace s.self ptr.asPtr.addr (rounded oldLayout.size) newLayout.align ∨
        ¬ ptr.asPtr.addr + rounded newLayout.size ≤ s.self.pageEnd ∨
        ptr.asPtr.Covers (rounded newLayout.size) := by
  unfold Exact.grow
  by_cases h0 : oldLayout.size = 0
  · rw [if_pos h0]
    exact ⟨fun _ => Or.inl h0, fun _ => allocate_disciplined newLayout hlog⟩
  rw [if_neg h0, or_iff_right h0]
  dsimp only
  by_cases hin : Exact.GrowsInPlace s.self ptr.asPtr.addr (rounded oldLayout.size)
      newLayout.align
  · rw [if_pos hin, or_iff_right (not_not.2 hin)]
    by_cases hroom : ptr.asPtr.addr + rounded newLayout.size ≤ s.self.pageEnd
    · have hne : rounded newLayout.size ≠ 0 := rounded_ne_zero (by omega)
      rw [if_pos hroom, or_iff_right (not_not.2 hroom)]
      constructor
      · rintro ⟨-, hslice⟩
        have hret : ptr.asPtr.UsableFor (rounded newLayout.size) := hslice _ rfl
        exact hret.resolve_left hne
      · intro hcov
        refine ⟨hlog, ?_⟩
        rintro _ ⟨⟩
        exact Or.inr hcov
    · rw [if_neg hroom]
      refine ⟨fun _ => Or.inl hroom, fun _ => ⟨hlog, ?_⟩⟩
      rintro _ ⟨⟩
  · rw [if_neg hin]
    exact ⟨fun _ => Or.inl hin, fun _ => realloc_disciplined hc hheld hptr hlog le_rfl hle⟩

end SecStackSinglePageAlloc

/-! ## Every call -/

namespace Heap

/-- The range of the client's pointer suffices for a resizing call: the call does not touch
the block in place, or the pointer reaches all of the block before a `shrink`, all of the
block after a `grow`. -/
def RangeSuffices (h : Heap cfg) (kind : Resize) (i : ℕ) (ptr : NonNull)
    (newLayout : Layout cfg) : Prop :=
  match kind with
  | .shrink => newLayout.size = 0 ∨ ¬ h.InPlace .shrink i newLayout ∨
      ptr.asPtr.Covers (h.ledger.block i).len
  | .grow | .growZeroed => ¬ h.InPlace .grow i newLayout ∨
      ¬ (h.ledger.block i).addr + rounded newLayout.size ≤ h.alloc.pageEnd ∨
      ptr.asPtr.Covers (rounded newLayout.size)
  | .reallocGrow | .reallocShrink => True

section

variable {h : Heap cfg} {i : ℕ} {ptr : NonNull} {oldLayout newLayout : Layout cfg}

theorem grow_suffices_iff (hw : h.WellFormed) (hheld : h.Held i ptr oldLayout) :
    (oldLayout.size = 0 ∨
      ¬ Exact.GrowsInPlace h.alloc ptr.asPtr.addr (rounded oldLayout.size) newLayout.align ∨
      ¬ ptr.asPtr.addr + rounded newLayout.size ≤ h.alloc.pageEnd ∨
      ptr.asPtr.Covers (rounded newLayout.size)) ↔ h.RangeSuffices .grow i ptr newLayout := by
  have hr := hw.rounded_eq hheld.live hheld.fit
  have hzero : oldLayout.size = 0 ↔ (h.ledger.block i).len = 0 := by
    rw [← hr]
    exact rounded_eq_zero_iff.symm
  have hin : h.InPlace .grow i newLayout ↔ _ := inPlace_iff rfl
  rw [hr, hheld.addr_eq, hzero]
  simp only [RangeSuffices, hin, not_and_or, not_not, or_assoc, ne_eq]

/-- A resizing call keeps to the ranges of its pointers exactly when the client's pointer
reaches far enough. -/
theorem resize_disciplined_iff (hw : h.WellFormed) {kind : Resize}
    (hl : h.Legal (.resize kind i ptr oldLayout newLayout))
    (hptr : ptr.asPtr.UsableFor oldLayout.size) :
    Disciplined (kind.exact ptr oldLayout newLayout h.machine) ↔
      h.RangeSuffices kind i ptr newLayout := by
  obtain ⟨hheld, hord⟩ := hl
  have hc : h.machine.self.Consistent := hw.consistent
  have howned := hw.owned hheld
  have hlog : InRange h.machine.log := inRange_nil
  cases kind with
  | grow | growZeroed =>
    exact (SecStackSinglePageAlloc.grow_disciplined_iff hc howned hptr hlog hord).trans
      (grow_suffices_iff hw hheld)
  | shrink =>
    have hiff := SecStackSinglePageAlloc.shrink_disciplined_iff hc howned hptr hlog hord
    rwa [hw.rounded_eq hheld.live hheld.fit, hheld.addr_eq] at hiff
  | reallocGrow =>
    exact iff_of_true (SecStackSinglePageAlloc.realloc_disciplined hc howned hptr hlog le_rfl hord)
      trivial
  | reallocShrink =>
    exact iff_of_true (SecStackSinglePageAlloc.realloc_disciplined hc howned hptr hlog hord le_rfl)
      trivial

end

section Runs

variable {h : Heap cfg} {page : Page cfg} {mem : Memory UInt8} {es : List (Event cfg)}

/-- **Permitted ranges.**  In every heap reached from `new`, for every pointer that is usable
for the size of the layout passed with it, `deallocate` keeps to the ranges of its pointers,
and a resizing call does so exactly when the range suffices. -/
theorem permitted_ranges (hrun : Run Step (new page mem) es h) :
    (∀ i ptr layout, h.Legal (.deallocate i ptr layout) → ptr.asPtr.UsableFor layout.size →
      ∃ t, (SecStackSinglePageAlloc.deallocate cfg ptr layout).run h.machine = .ok ((), t) ∧
        InRange t.log) ∧
    (∀ kind i ptr oldLayout newLayout, h.Legal (.resize kind i ptr oldLayout newLayout) →
      ptr.asPtr.UsableFor oldLayout.size →
      ∃ r, (kind.code ptr oldLayout newLayout).run h.machine = .ok r ∧
        (Disciplined r ↔ h.RangeSuffices kind i ptr newLayout)) := by
  have hw := run_wellFormed hrun
  constructor
  · intro i ptr layout hl _
    refine ⟨_, SecStackSinglePageAlloc.deallocate_run hw.consistent (hw.owned hl), ?_⟩
    exact SecStackSinglePageAlloc.deallocate_inRange hw.consistent (hw.owned hl) inRange_nil
  · intro kind i ptr oldLayout newLayout hl hptr
    exact ⟨_, kind.code_run hw.consistent (hw.owned hl.1) hl.2, resize_disciplined_iff hw hl hptr⟩

/-- A pointer to the first nine bytes of the page. -/
def ninePtr : NonNull := ⟨⟨65536, 65536, 65545⟩, by decide⟩

theorem permitted_ranges_sample :
    ∃ r, (Resize.shrink.code ninePtr nineBytes (sampleLayout 1 (by decide))).run
        sampleEnd.machine = .ok r ∧
      (Disciplined r ↔ sampleEnd.RangeSuffices .shrink 0 ninePtr (sampleLayout 1 (by decide))) :=
  (permitted_ranges sampleRun).2 .shrink 0 ninePtr nineBytes _ (by decide) (by decide)

/-- Shrinking a block of nine bytes to one through a pointer to the nine bytes wipes the
whole end of the block through that pointer. -/
theorem not_permitted_ranges :
    ¬ ∀ (cfg : Cfg) (page : Page cfg) (mem : Memory UInt8) (es : List (Event cfg)) (h : Heap cfg),
      Run Step (new page mem) es h →
      ∀ kind i ptr oldLayout newLayout, h.Legal (.resize kind i ptr oldLayout newLayout) →
        ptr.asPtr.UsableFor oldLayout.size →
        ∀ r, (kind.code ptr oldLayout newLayout).run h.machine = .ok r → Disciplined r := by
  intro hall
  have hdisc := hall sampleCfg samplePage (fun _ => 0) sampleEvents sampleEnd sampleRun .shrink 0
    ninePtr nineBytes (sampleLayout 1 (by decide)) (by decide) (by decide) _ rfl
  exact absurd hdisc.1 (by decide)

end Runs

end Heap

end SecmemAlloc
