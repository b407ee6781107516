import SecmemAlloc.Rust.Machine

/-!
# Layouts and allocation results
-/

namespace SecmemAlloc

/-- `core::alloc::Layout`: the alignment is a power of two and the size, rounded up to it,
fits an `isize`. -/
structure Layout (cfg : Cfg) where
  size : ℕ
  align : ℕ
  isPowerOfTwo_align : align.isPowerOfTwo
  size_le : size + (align - 1) ≤ cfg.isizeMax
deriving DecidableEq

namespace Layout

variable {cfg : Cfg}

/-- `Layout::from_size_align`. -/
def fromSizeAlign (cfg : Cfg) (size align : ℕ) : Option (Layout cfg) :=
  if h : align.isPowerOfTwo ∧ size + (align - 1) ≤ cfg.isizeMax then
    some ⟨size, align, h.1, h.2⟩
  else none

@[simp] theorem fromSizeAlign_self (layout : Layout cfg) :
    fromSizeAlign cfg layout.size layout.align = some layout :=
  dif_pos ⟨layout.isPowerOfTwo_align, layout.size_le⟩

/-- `Layout::from_size_align_unchecked`. -/
def fromSizeAlignUnchecked {σ : Type} (cfg : Cfg) (size align : ℕ) : Code σ (Layout cfg) :=
  match fromSizeAlign cfg size align with
  | some layout => pure layout
  | none => throw .undefined

theorem fromSizeAlignUnchecked_run {σ : Type} {s : Machine σ} (layout : Layout cfg) :
    (fromSizeAlignUnchecked cfg layout.size layout.align).run s = .ok (layout, s) := by
  rw [fromSizeAlignUnchecked, fromSizeAlign_self, Exec.run_pure]

theorem align_pos (layout : Layout cfg) : 0 < layout.align :=
  pos_of_isPowerOfTwo layout.isPowerOfTwo_align

theorem size_add_align_le (layout : Layout cfg) :
    layout.size + layout.align ≤ 2 ^ (cfg.pointerWidth - 1) := by
  have := layout.size_le
  have := layout.align_pos
  have := Nat.two_pow_pos (cfg.pointerWidth - 1)
  simp only [Cfg.isizeMax] at *
  omega

/-- On words of at least four bits sizes and alignments stay far enough below `2 ^ w` to be
rounded up. -/
theorem bounds (layout : Layout cfg) (hw : 4 ≤ cfg.pointerWidth) :
    layout.align < 2 ^ cfg.pointerWidth ∧ layout.size + 8 ≤ 2 ^ cfg.pointerWidth := by
  have h := layout.size_add_align_le
  have hdouble : 2 ^ cfg.pointerWidth = 2 * 2 ^ (cfg.pointerWidth - 1) := by
    rw [← Nat.pow_succ', Nat.succ_eq_add_one, Nat.sub_add_cancel (by omega)]
  have height : 2 ^ 3 ≤ 2 ^ (cfg.pointerWidth - 1) :=
    Nat.pow_le_pow_right (by decide) (by omega)
  omega

end Layout

/-- `AllocError`. -/
structure AllocError where
deriving DecidableEq, Repr

/-- `Result<NonNull<[u8]>, AllocError>`. -/
abbrev AllocResult := Except AllocError NonNullSlice

end SecmemAlloc
