import SecmemAlloc.SecAlloc.Effect

/-!
# When resizing fails

The exact condition under which each resizing call answers with an allocation error, in
integers, and that a failed call changes nothing.  Growing the last block never tries to
relocate it; that loses nothing, since a fresh block would start behind it.
-/

namespace SecmemAlloc

variable {cfg : Cfg}

namespace SecStackSinglePageAlloc

/-- A fresh block fits: the least aligned offset at or above the stack offset leaves room
for it on the page. -/
def FreshFits (a : SecStackSinglePageAlloc cfg) (layout : Layout cfg) : Prop :=
  ∃ o, IsLeast {o | a.stackOffset ≤ o ∧ max 8 layout.align ∣ a.page.pagePtr + o} o ∧
    o + rounded layout.size ≤ a.page.pageSize

variable {a : SecStackSinglePageAlloc cfg}

/-- The offset of a fresh block is the least aligned one at or above the stack offset. -/
theorem isLeast_freshOffset (a : SecStackSinglePageAlloc cfg) (align : ℕ) :
    IsLeast {o | a.stackOffset ≤ o ∧ max 8 align ∣ a.page.pagePtr + o}
      (a.freshAddr align - a.page.pagePtr) := by
  have hge := a.freshAddr_ge align
  have hbase : a.page.pagePtr ≤ a.freshAddr align := (Nat.le_add_right _ _).trans hge
  have hleast := isLeast_alignUp (d := max 8 align) (by omega) a.stackTop
  simp only [stackTop] at hge
  constructor
  · refine ⟨by omega, ?_⟩
    rw [Nat.add_sub_cancel' hbase]
    exact hleast.1.2
  · rintro o ⟨hle, hdvd⟩
    have hmin : a.freshAddr align ≤ a.page.pagePtr + o :=
      hleast.2 ⟨Nat.add_le_add_left hle _, hdvd⟩
    omega

theorem freshAddr_eq_of_isLeast {align o : ℕ}
    (ho : IsLeast {o | a.stackOffset ≤ o ∧ max 8 align ∣ a.page.pagePtr + o} o) :
    a.freshAddr align = a.page.pagePtr + o := by
  have hge := a.freshAddr_ge align
  simp only [stackTop] at hge
  rw [ho.unique (a.isLeast_freshOffset align)]
  omega

theorem fits_iff_of_isLeast {layout : Layout cfg} {o : ℕ}
    (ho : IsLeast {o | a.stackOffset ≤ o ∧ max 8 layout.align ∣ a.page.pagePtr + o} o) :
    a.Fits layout ↔ o + rounded layout.size ≤ a.page.pageSize := by
  rw [Fits, freshAddr_eq_of_isLeast ho, pageEnd]
  omega

theorem freshFits_iff {layout : Layout cfg} : a.FreshFits layout ↔ a.Fits layout := by
  constructor
  · rintro ⟨o, ho, hroom⟩
    exact (fits_iff_of_isLeast ho).2 hroom
  · intro hfit
    have ho := a.isLeast_freshOffset layout.align
    exact ⟨_, ho, (fits_iff_of_isLeast ho).1 hfit⟩

end SecStackSinglePageAlloc

namespace Heap

variable {h : Heap cfg} {i : ℕ} {ptr : NonNull} {oldLayout newLayout : Layout cfg}

/-- The live block `i` can be extended where it is. -/
def CanExtend (h : Heap cfg) (i : ℕ) (newLayout : Layout cfg) : Prop :=
  newLayout.align ∣ (h.ledger.block i).addr ∧
    (h.ledger.block i).addr - h.alloc.page.pagePtr + (h.ledger.block i).len =
      h.alloc.stackOffset ∧
    (h.ledger.block i).addr - h.alloc.page.pagePtr + rounded newLayout.size ≤
      h.alloc.page.pageSize

theorem canExtend_iff (hw : h.WellFormed) (hi : i ∈ h.ledger.live)
    (hne : (h.ledger.block i).len ≠ 0) {kind : Resize} (hkind : kind.mayExtend = true) :
    h.CanExtend i newLayout ↔ h.InPlace kind i newLayout ∧
      (h.ledger.block i).addr + rounded newLayout.size ≤ h.alloc.pageEnd := by
  obtain ⟨hlo, -⟩ := hw.bounds hi hne
  rw [inPlace_iff hkind, and_iff_right hne]
  unfold CanExtend Exact.GrowsInPlace SecStackSinglePageAlloc.stackTop
    SecStackSinglePageAlloc.pageEnd
  rw [and_assoc]
  refine and_congr_right fun _ => ?_
  omega

/-- A block larger than the rest of the page from the last block on fits nowhere behind it. -/
theorem not_fits_of_extendFailed (hin : (h.ledger.block i).addr + (h.ledger.block i).len =
      h.alloc.stackTop)
    (hroom : ¬ (h.ledger.block i).addr + rounded newLayout.size ≤ h.alloc.pageEnd) :
    ¬ h.alloc.Fits newLayout := by
  intro hfit
  have hge := h.alloc.freshAddr_ge newLayout.align
  simp only [SecStackSinglePageAlloc.Fits] at hfit
  omega

/-- A failed operation changes nothing. -/
theorem Effect.eq_of_error {op : Op cfg} {h' : Heap cfg}
    (heff : Effect h (op, some (.error ⟨⟩)) h') : h' = h := by
  cases heff <;> rfl

theorem Effect.grow_error_iff (hw : h.WellFormed) {kind : Resize} {ans : AllocResult}
    {h' : Heap cfg} (hkind : kind.mayExtend = true)
    (heff : Effect h (.resize kind i ptr oldLayout newLayout, some ans) h')
    (hne : (h.ledger.block i).len ≠ 0) (hnew : newLayout.size ≠ 0) :
    ans = .error ⟨⟩ ↔ ¬ h.alloc.FreshFits newLayout ∧ ¬ h.CanExtend i newLayout := by
  rw [SecStackSinglePageAlloc.freshFits_iff]
  cases heff with
  | vacate _ _ h0 => exact absurd h0 hnew
  | trim _ _ _ _ => cases hkind
  | extend hk hheld _ _ hin hroom =>
    have hcan := (canExtend_iff hw hheld.live hne hk).2 ⟨hin, hroom⟩
    exact iff_of_false (by rintro ⟨⟩) fun hnot => hnot.2 hcan
  | extendFailed hk hheld _ _ hin hroom =>
    refine iff_of_true rfl ⟨not_fits_of_extendFailed ((inPlace_iff hk).1 hin).2.2 hroom, ?_⟩
    exact fun hcan => hroom ((canExtend_iff hw hheld.live hne hk).1 hcan).2
  | move _ _ _ _ hfit => exact iff_of_false (by rintro ⟨⟩) fun hnot => hnot.1 hfit
  | moveFailed hheld _ _ hin hfit =>
    refine iff_of_true rfl ⟨hfit, fun hcan => hin ?_⟩
    exact ((canExtend_iff hw hheld.live hne hkind).1 hcan).1

theorem Effect.grow_addr (hw : h.WellFormed) {kind : Resize} {ans : AllocResult}
    {h' : Heap cfg} (hkind : kind.mayExtend = true)
    (heff : Effect h (.resize kind i ptr oldLayout newLayout, some ans) h')
    (hne : (h.ledger.block i).len ≠ 0) (hnew : newLayout.size ≠ 0)
    (hcan : h.CanExtend i newLayout) :
    ∃ slice, ans = .ok slice ∧ slice.asPtr.addr = (h.ledger.block i).addr := by
  cases heff with
  | vacate _ _ h0 => exact absurd h0 hnew
  | trim _ _ _ _ => cases hkind
  | extend _ hheld _ _ _ _ => exact ⟨_, rfl, hheld.addr_eq⟩
  | extendFailed hk hheld _ _ _ hroom =>
    exact absurd ((canExtend_iff hw hheld.live hne hk).1 hcan).2 hroom
  | move hheld _ _ hin _ => exact absurd ((canExtend_iff hw hheld.live hne hkind).1 hcan).1 hin
  | moveFailed hheld _ _ hin _ =>
    exact absurd ((canExtend_iff hw hheld.live hne hkind).1 hcan).1 hin

theorem Effect.shrink_error_iff {ans : AllocResult} {h' : Heap cfg}
    (heff : Effect h (.resize .shrink i ptr oldLayout newLayout, some ans) h')
    (hnew : newLayout.size ≠ 0) :
    (ans = .error ⟨⟩ ↔
      ¬ newLayout.align ∣ (h.ledger.block i).addr ∧ ¬ h.alloc.FreshFits newLayout) ∧
    (newLayout.align ∣ (h.ledger.block i).addr →
      ∃ slice, ans = .ok slice ∧ slice.asPtr.addr = (h.ledger.block i).addr) := by
  rw [SecStackSinglePageAlloc.freshFits_iff]
  cases heff with
  | vacate _ _ h0 => exact absurd h0 hnew
  | trim hheld _ _ hin =>
    exact ⟨iff_of_false (by rintro ⟨⟩) fun hnot => hnot.1 hin, fun _ => ⟨_, rfl, hheld.addr_eq⟩⟩
  | extend hk _ _ _ _ _ => cases hk
  | extendFailed hk _ _ _ _ _ => cases hk
  | move _ _ _ hin hfit =>
    exact ⟨iff_of_false (by rintro ⟨⟩) fun hnot => hnot.2 hfit, fun halign => absurd halign hin⟩
  | moveFailed _ _ _ hin hfit =>
    exact ⟨iff_of_true rfl ⟨hin, hfit⟩, fun halign => absurd halign hin⟩

theorem Effect.realloc_error_iff {kind : Resize} {ans : AllocResult} {h' : Heap cfg}
    (hkind : kind = .reallocGrow ∨ kind = .reallocShrink)
    (heff : Effect h (.resize kind i ptr oldLayout newLayout, some ans) h')
    (hnew : newLayout.size ≠ 0) : ans = .error ⟨⟩ ↔ ¬ h.alloc.FreshFits newLayout := by
  rw [SecStackSinglePageAlloc.freshFits_iff]
  cases heff with
  | vacate _ _ h0 => exact absurd h0 hnew
  | trim _ _ _ _ => rcases hkind with h | h <;> cases h
  | extend hk _ _ _ _ _ => rcases hkind with rfl | rfl <;> cases hk
  | extendFailed hk _ _ _ _ _ => rcases hkind with rfl | rfl <;> cases hk
  | move _ _ _ _ hfit => exact iff_of_false (by rintro ⟨⟩) fun hnot => hnot hfit
  | moveFailed _ _ _ _ hfit => exact iff_of_true rfl hfit

/-- Resizing to zero bytes does not fail. -/
theorem Effect.ne_error_of_zero {kind : Resize} {ans : AllocResult} {h' : Heap cfg}
    (heff : Effect h (.resize kind i ptr oldLayout newLayout, some ans) h')
    (h0 : newLayout.size = 0) : ans ≠ .error ⟨⟩ := by
  cases heff with
  | vacate _ _ _ => rintro ⟨⟩
  | trim _ _ hne _ | extend _ _ _ hne _ _ | extendFailed _ _ _ hne _ _ | move _ _ hne _ _
  | moveFailed _ _ hne _ _ => exact absurd h0 hne

section Runs

variable {page : Page cfg} {mem : Memory UInt8} {es : List (Event cfg)}

/-- **Failure of resizing.**  In every heap reached from `new` a legal resizing call on a
block with bytes returns; it fails exactly under the stated condition, stays in place where
it can, and changes nothing if it fails. -/
theorem resize_failure (hrun : Run Step (new page mem) es h) {kind : Resize}
    (hl : h.Legal (.resize kind i ptr oldLayout newLayout))
    (hne : (h.ledger.block i).size ≠ 0) :
    ∃ ans h', h.exec (.resize kind i ptr oldLayout newLayout) = .ok (some ans, h') ∧
      (ans = .error ⟨⟩ → h' = h) ∧
      match kind with
      | .grow | .growZeroed =>
        (ans = .error ⟨⟩ ↔ ¬ h.alloc.FreshFits newLayout ∧ ¬ h.CanExtend i newLayout) ∧
        (h.CanExtend i newLayout →
          ∃ slice, ans = .ok slice ∧ slice.asPtr.addr = (h.ledger.block i).addr)
      | .shrink =>
        (newLayout.size = 0 → ans ≠ .error ⟨⟩) ∧
        (newLayout.size ≠ 0 → (ans = .error ⟨⟩ ↔
            ¬ newLayout.align ∣ (h.ledger.block i).addr ∧ ¬ h.alloc.FreshFits newLayout) ∧
          (newLayout.align ∣ (h.ledger.block i).addr →
            ∃ slice, ans = .ok slice ∧ slice.asPtr.addr = (h.ledger.block i).addr))
      | .reallocGrow | .reallocShrink =>
        (newLayout.size = 0 → ans ≠ .error ⟨⟩) ∧
        (newLayout.size ≠ 0 → (ans = .error ⟨⟩ ↔ ¬ h.alloc.FreshFits newLayout)) := by
  have hw := run_wellFormed hrun
  obtain ⟨ans, h', hexec, heff⟩ := exec_resize_effect hw hl
  refine ⟨ans, h', hexec, ?_, ?_⟩
  · rintro rfl
    exact heff.eq_of_error
  have hlen := mt (hw.len_eq_zero_iff hl.1.live).1 hne
  have hold := hl.1.fit.1
  cases kind with
  | grow | growZeroed =>
    have hle : oldLayout.size ≤ newLayout.size := hl.2
    exact ⟨heff.grow_error_iff hw rfl hlen (by omega), heff.grow_addr hw rfl hlen (by omega)⟩
  | shrink => exact ⟨heff.ne_error_of_zero, heff.shrink_error_iff⟩
  | reallocGrow => exact ⟨heff.ne_error_of_zero, heff.realloc_error_iff (Or.inl rfl)⟩
  | reallocShrink => exact ⟨heff.ne_error_of_zero, heff.realloc_error_iff (Or.inr rfl)⟩

/-- A pointer to the second block of the sample. -/
def secondPtr : NonNull := ⟨⟨65552, 65552, 65561⟩, by decide⟩

/-- More bytes than the page has. -/
def fiveThousandBytes : Layout sampleCfg := sampleLayout 5000 (by decide)

/-- The second block cannot grow so far, in place or elsewhere. -/
theorem resize_failure_sample :
    ∃ h', sampleEnd.exec (.resize .growZeroed 1 secondPtr nineBytes fiveThousandBytes) =
        .ok (some (.error ⟨⟩), h') ∧ h' = sampleEnd := by
  have hl : sampleEnd.Legal (.resize .growZeroed 1 secondPtr nineBytes fiveThousandBytes) := by
    decide
  obtain ⟨ans, h', hexec, hsame, herror, -⟩ := resize_failure sampleRun hl (by decide)
  have hfresh : ¬ sampleEnd.alloc.FreshFits fiveThousandBytes :=
    mt SecStackSinglePageAlloc.freshFits_iff.1 (by decide)
  have hextend : ¬ sampleEnd.CanExtend 1 fiveThousandBytes := fun h => absurd h.2.2 (by decide)
  obtain rfl : ans = .error ⟨⟩ := herror.2 ⟨hfresh, hextend⟩
  exact ⟨h', hexec, hsame rfl⟩

end Runs

end Heap

end SecmemAlloc
