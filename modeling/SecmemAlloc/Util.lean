import SecmemAlloc.Rust.Machine

/-!
# `util.rs`: alignment helpers
-/

namespace SecmemAlloc

variable {σ : Type} (cfg : Cfg)

/-- `usize::is_power_of_two`. -/
def isPowerOfTwo (n : ℕ) : Bool := decide n.isPowerOfTwo

/-- The branch hint; both builds return the condition. -/
def unlikely (b : Bool) : Bool := b

/-- Stable version of `NonNull::<[T]>::as_mut_ptr`. -/
def nonnullAsMutPtr (ptr : NonNullSlice) : Ptr := ptr.asPtr

/-- Round `x` up to the smallest multiple of `div` that is at least `x`. -/
def alignUpUsize (x div : ℕ) : Code σ ℕ := do
  debugCheckedPrecondition cfg (pure (isPowerOfTwo div))
  let addend ← usizeSub cfg div 1
  let mask ← usizeSub cfg div 1
  pure (wrappingAdd cfg x addend &&& usizeNot cfg mask)

/-- Align `ptr` upwards; the result is null if this wraps the address space. -/
def alignUpPtrMut (ptr : Ptr) (align : ℕ) : Code σ Ptr := do
  debugCheckedPrecondition cfg (pure (isPowerOfTwo align))
  let addr ← alignUpUsize cfg ptr.addr align
  pure (ptr.withAddr addr)

/-- Whether `ptr` is `align` byte aligned. -/
def isAlignedPtr (ptr : Ptr) (align : ℕ) : Code σ Bool := do
  debugCheckedPrecondition cfg (pure (isPowerOfTwo align))
  pure (ptr.addr % align == 0)

/-- The offset in bytes of `ptr` relative to `base`. -/
def largeOffsetFrom (ptr base : Ptr) : Code σ ℕ := do
  debugCheckedPrecondition cfg (pure (decide (base.addr ≤ ptr.addr)))
  usizeSub cfg ptr.addr base.addr

/-! ## What the helpers compute -/

variable {cfg} {s : Machine σ} {x div align : ℕ} {ptr base : Ptr}

theorem isPowerOfTwo_eq_true {n : ℕ} (h : n.isPowerOfTwo) : isPowerOfTwo n = true :=
  decide_eq_true h

theorem alignUpUsize_run (hdiv : div.isPowerOfTwo) (hw : div < 2 ^ cfg.pointerWidth) :
    (alignUpUsize cfg x div).run s = .ok (alignUp x div % 2 ^ cfg.pointerWidth, s) := by
  have hpos := pos_of_isPowerOfTwo hdiv
  rw [alignUpUsize,
    Exec.run_bind_ok (debugCheckedPrecondition_pure (isPowerOfTwo_eq_true hdiv)),
    Exec.run_bind_ok (usizeSub_run hpos), Exec.run_bind_ok (usizeSub_run hpos),
    Exec.run_pure, wrappingAdd, usizeNot, wrapping_mask_eq_alignUp hdiv hw]

/-- Rounding up that does not leave the word range is rounding up of integers. -/
theorem alignUpUsize_run_of_lt (hdiv : div.isPowerOfTwo) (hw : div < 2 ^ cfg.pointerWidth)
    (h : alignUp x div < 2 ^ cfg.pointerWidth) :
    (alignUpUsize cfg x div).run s = .ok (alignUp x div, s) := by
  rw [alignUpUsize_run hdiv hw, Nat.mod_eq_of_lt h]

theorem alignUpPtrMut_run (halign : align.isPowerOfTwo) (hw : align < 2 ^ cfg.pointerWidth) :
    (alignUpPtrMut cfg ptr align).run s =
      .ok (ptr.withAddr (alignUp ptr.addr align % 2 ^ cfg.pointerWidth), s) := by
  rw [alignUpPtrMut,
    Exec.run_bind_ok (debugCheckedPrecondition_pure (isPowerOfTwo_eq_true halign)),
    Exec.run_bind_ok (alignUpUsize_run halign hw), Exec.run_pure]

theorem isAlignedPtr_run (halign : align.isPowerOfTwo) :
    (isAlignedPtr cfg ptr align).run s = .ok (ptr.addr % align == 0, s) := by
  rw [isAlignedPtr,
    Exec.run_bind_ok (debugCheckedPrecondition_pure (isPowerOfTwo_eq_true halign)),
    Exec.run_pure]

theorem isAlignedPtr_run_dvd (halign : align.isPowerOfTwo) :
    (isAlignedPtr cfg ptr align).run s = .ok (decide (align ∣ ptr.addr), s) := by
  simp only [isAlignedPtr_run halign, Nat.dvd_iff_mod_eq_zero, Bool.beq_eq_decide_eq]

theorem largeOffsetFrom_run (h : base.addr ≤ ptr.addr) :
    (largeOffsetFrom cfg ptr base).run s = .ok (ptr.addr - base.addr, s) := by
  rw [largeOffsetFrom, Exec.run_bind_ok (debugCheckedPrecondition_pure (decide_eq_true h)),
    usizeSub_run h]

/-! ## Rounding of words -/

/-- Some multiple of `div` at or above `x` is a word. -/
def Alignable (cfg : Cfg) (x div : ℕ) : Prop := ∃ m < 2 ^ cfg.pointerWidth, x ≤ m ∧ div ∣ m

theorem alignUp_lt_iff_alignable (hdiv : div.isPowerOfTwo) :
    alignUp x div < 2 ^ cfg.pointerWidth ↔ Alignable cfg x div :=
  alignUp_lt_iff (pos_of_isPowerOfTwo hdiv)

/-- What is alignable is rounded as an integer. -/
theorem Alignable.mod_eq (h : Alignable cfg x div) (hdiv : div.isPowerOfTwo) :
    alignUp x div % 2 ^ cfg.pointerWidth = alignUp x div :=
  Nat.mod_eq_of_lt ((alignUp_lt_iff_alignable hdiv).2 h)

theorem Alignable.of_le {y : ℕ} (h : Alignable cfg y div) (hxy : x ≤ y) : Alignable cfg x div := by
  obtain ⟨m, hm, hym, hdvd⟩ := h
  exact ⟨m, hm, hxy.trans hym, hdvd⟩

/-- **Rounding of words.**  `align_up_usize` computes a function of its first argument: the
least multiple of `div` at or above it, reduced to a word.  So zero stands for a number that
cannot be aligned, the aligned numbers are the fixed points, and rounding is idempotent and
monotone.  For `div = 8` it is what `allocate_zeroed` writes out with masks, and every size
from `size` to the length of its block rounds to that length. -/
theorem word_rounding (hdiv : div.isPowerOfTwo) (hw : div < 2 ^ cfg.pointerWidth) :
    ∃ f : ℕ → ℕ,
      (∀ (σ : Type) (s : Machine σ) x, (alignUpUsize cfg x div).run s = .ok (f x, s)) ∧
      (∀ x < 2 ^ cfg.pointerWidth,
        ∃ m, IsLeast {m | x ≤ m ∧ div ∣ m} m ∧ f x = m % 2 ^ cfg.pointerWidth) ∧
      (∀ x < 2 ^ cfg.pointerWidth, 0 < x → (f x = 0 ↔ ¬ Alignable cfg x div)) ∧
      (∀ (σ : Type) (s : Machine σ) (ptr : Ptr), ptr.addr < 2 ^ cfg.pointerWidth → 0 < ptr.addr →
        ∃ p, (alignUpPtrMut cfg ptr div).run s = .ok (p, s) ∧
          (p.isNull = true ↔ ¬ Alignable cfg ptr.addr div)) ∧
      (∀ (σ : Type) (s : Machine σ) (ptr : Ptr), ptr.addr < 2 ^ cfg.pointerWidth →
        ∃ b, (isAlignedPtr cfg ptr div).run s = .ok (b, s) ∧
          (f ptr.addr = ptr.addr ↔ b = true)) ∧
      (∀ x, f (f x) = f x) ∧
      (∀ x y, x ≤ y → Alignable cfg y div → f x ≤ f y) ∧
      (div = 8 → (∀ x, wrappingAdd cfg x 7 &&& usizeNot cfg 7 = f x) ∧
        ∀ size, 1 ≤ size → Alignable cfg size 8 →
          ∀ n, size ≤ n → n ≤ f size → f n = f size) := by
  have hpos := pos_of_isPowerOfTwo hdiv
  refine ⟨fun x => alignUp x div % 2 ^ cfg.pointerWidth, fun σ s x => alignUpUsize_run hdiv hw,
    ?_, ?_, ?_, ?_, ?_, ?_, ?_⟩
  · intro x _
    exact ⟨alignUp x div, isLeast_alignUp hpos x, rfl⟩
  · intro x hx hx₀
    exact alignUp_mod_two_pow_eq_zero_iff hdiv hw hx₀ hx
  · intro σ s ptr hx hx₀
    refine ⟨_, alignUpPtrMut_run hdiv hw, ?_⟩
    exact beq_iff_eq.trans (alignUp_mod_two_pow_eq_zero_iff hdiv hw hx₀ hx)
  · intro σ s ptr hx
    refine ⟨_, isAlignedPtr_run_dvd hdiv, ?_⟩
    rw [decide_eq_true_iff]
    exact alignUp_mod_two_pow_eq_self_iff hdiv hw hx
  · intro x
    exact alignUp_mod_two_pow_idem hdiv hw x
  · intro x y hxy hy
    dsimp only
    rw [hy.mod_eq hdiv, (hy.of_le hxy).mod_eq hdiv]
    exact alignUp_mono hpos hxy
  · rintro rfl
    refine ⟨fun x => wrapping_mask_eq_alignUp hdiv hw, ?_⟩
    intro size _ hsize n hle hn
    dsimp only at hn ⊢
    rw [hsize.mod_eq hdiv] at hn
    rw [alignUp_eq_of_le_of_le hpos hle hn]

/-- On 64-bit words 13 bytes take 16. -/
theorem word_rounding_thirteen :
    (alignUpUsize ⟨64, true, true, false, false, true⟩ 13 8).run
        (⟨(), fun _ => 0, []⟩ : Machine Unit) =
      .ok (16, ⟨(), fun _ => 0, []⟩) := by
  obtain ⟨f, hrun, hleast, -⟩ :=
    @word_rounding ⟨64, true, true, false, false, true⟩ 8 ⟨3, rfl⟩ (by decide)
  obtain ⟨m, hm, hf⟩ := hleast 13 (by decide)
  have hsixteen : IsLeast {m | 13 ≤ m ∧ 8 ∣ m} 16 := by
    refine ⟨⟨by decide, by decide⟩, ?_⟩
    rintro k ⟨hk, hdvd⟩
    omega
  rw [hrun, hf, hm.unique hsixteen]
  rfl

end SecmemAlloc
