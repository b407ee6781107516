import SecmemAlloc.SecAlloc.Code

/-!
# The allocator in exact integers

What every call of the allocator does, without words, wrapping or checks: the rounded size
of a request, the offset at which a fresh block would start, and the cells, memory and
accesses after the call.  The second half of the file shows that the code computes exactly
this, without a fault and in every build, whenever the cells are consistent and the block
handed back is one the allocator holds.
-/

namespace SecmemAlloc

/-- The length of a block for a request of `n` bytes. -/
def rounded (n : ℕ) : ℕ := alignUp n 8

theorem rounded_eq (n : ℕ) : rounded n = (n + 7) / 8 * 8 := alignUp_eq_div_mul n 8

theorem le_rounded (n : ℕ) : n ≤ rounded n := le_alignUp (by decide) n

theorem eight_dvd_rounded (n : ℕ) : 8 ∣ rounded n := dvd_alignUp n 8

theorem rounded_mono {m n : ℕ} (h : m ≤ n) : rounded m ≤ rounded n := alignUp_mono (by decide) h

@[simp] theorem rounded_zero : rounded 0 = 0 := rfl

theorem rounded_eq_zero_iff {n : ℕ} : rounded n = 0 ↔ n = 0 := by
  rw [rounded_eq]
  omega

theorem rounded_ne_zero {n : ℕ} (h : n ≠ 0) : rounded n ≠ 0 := mt rounded_eq_zero_iff.1 h

/-- Every size that fits a block rounds to the length of the block. -/
theorem rounded_of_fits {m n : ℕ} (hmn : m ≤ n) (hn : n ≤ rounded m) : rounded n = rounded m := by
  rw [rounded_eq] at *
  rw [rounded_eq]
  omega

namespace Page

variable {cfg : Cfg}

section

variable (page : Page cfg)

theorem pageSize_pos : 0 < page.pageSize := pos_of_isPowerOfTwo page.isPowerOfTwo_pageSize

theorem eight_le_pageSize : 8 ≤ page.pageSize :=
  Nat.le_of_dvd page.pageSize_pos page.eight_dvd_pageSize

theorem eight_dvd_pagePtr : 8 ∣ page.pagePtr :=
  page.eight_dvd_pageSize.trans page.pageSize_dvd_pagePtr

theorem pageSize_le_pagePtr : page.pageSize ≤ page.pagePtr :=
  Nat.le_of_dvd page.pagePtr_pos page.pageSize_dvd_pagePtr

theorem pageEnd_lt : page.pagePtr + page.pageSize < 2 ^ cfg.pointerWidth :=
  Cfg.lt_two_pow_of_le_usizeMax page.pageEnd_le

end

/-- A page and the addresses before it need words of at least five bits. -/
theorem four_le_pointerWidth (page : Page cfg) : 4 ≤ cfg.pointerWidth := by
  have h8 := page.eight_le_pageSize
  have hp := page.pageSize_le_pagePtr
  have hlt : 2 ^ 4 < 2 ^ cfg.pointerWidth := by
    have := page.pageEnd_lt
    omega
  exact ((Nat.pow_lt_pow_iff_right (by decide)).1 hlt).le

theorem eight_lt (page : Page cfg) : 8 < 2 ^ cfg.pointerWidth :=
  calc 8 < 2 ^ 4 := by decide
    _ ≤ 2 ^ cfg.pointerWidth := Nat.pow_le_pow_right (by decide) page.four_le_pointerWidth

end Page

namespace SecStackSinglePageAlloc

variable {cfg : Cfg} (a : SecStackSinglePageAlloc cfg)

/-- The address of the first available byte. -/
def stackTop : ℕ := a.page.pagePtr + a.stackOffset

/-- The address after the page. -/
def pageEnd : ℕ := a.page.pagePtr + a.page.pageSize

/-- The address of a fresh block of alignment `align`: the first one at or above the stack
top that is a multiple of 8 and of `align`. -/
def freshAddr (align : ℕ) : ℕ := alignUp a.stackTop (max 8 align)

/-- A fresh block for `layout` fits the page. -/
def Fits (layout : Layout cfg) : Prop :=
  a.freshAddr layout.align + rounded layout.size ≤ a.pageEnd

instance (layout : Layout cfg) : Decidable (a.Fits layout) :=
  inferInstanceAs (Decidable (_ ≤ _))

/-- The cells after a fresh block for `layout`. -/
def place (layout : Layout cfg) : SecStackSinglePageAlloc cfg :=
  { a with
    bytes := a.bytes + rounded layout.size
    stackOffset := a.freshAddr layout.align - a.page.pagePtr + rounded layout.size }

/-- The cells after the `len` bytes at `addr` are released: with nothing else allocated the
stack is reset, and a last block is rewound. -/
def release (addr len : ℕ) : SecStackSinglePageAlloc cfg :=
  { a with
    bytes := a.bytes - len
    stackOffset :=
      if a.bytes = len then 0
      else if addr + len = a.stackTop then addr - a.page.pagePtr
      else a.stackOffset }

/-- The cells after the `len` bytes at `addr` shrink to `newLen` in place. -/
def trim (addr len newLen : ℕ) : SecStackSinglePageAlloc cfg :=
  { a with
    bytes := a.bytes - (len - newLen)
    stackOffset :=
      if addr + len = a.stackTop then a.stackOffset - (len - newLen) else a.stackOffset }

/-- The cells after the last block grows in place from `len` to `newLen` bytes. -/
def extend (len newLen : ℕ) : SecStackSinglePageAlloc cfg :=
  { a with
    bytes := a.bytes + (newLen - len)
    stackOffset := a.stackOffset + (newLen - len) }

@[simp] theorem place_page (layout : Layout cfg) : (a.place layout).page = a.page := rfl

@[simp] theorem release_page (addr len : ℕ) : (a.release addr len).page = a.page := rfl

@[simp] theorem trim_page (addr len newLen : ℕ) : (a.trim addr len newLen).page = a.page := rfl

@[simp] theorem extend_page (len newLen : ℕ) : (a.extend len newLen).page = a.page := rfl

theorem freshAddr_ge (align : ℕ) : a.stackTop ≤ a.freshAddr align :=
  le_alignUp (by omega) a.stackTop

theorem isPowerOfTwo_max {align : ℕ} (h : align.isPowerOfTwo) : (max 8 align).isPowerOfTwo := by
  rcases Nat.le_total 8 align with hle | hle
  · rwa [Nat.max_eq_right hle]
  · rw [Nat.max_eq_left hle]
    exact ⟨3, rfl⟩

theorem eight_dvd_freshAddr {align : ℕ} (h : align.isPowerOfTwo) : 8 ∣ a.freshAddr align :=
  (dvd_of_isPowerOfTwo_of_le ⟨3, rfl⟩ (isPowerOfTwo_max h) (Nat.le_max_left 8 align)).trans
    (dvd_alignUp _ _)

theorem align_dvd_freshAddr {align : ℕ} (h : align.isPowerOfTwo) : align ∣ a.freshAddr align :=
  (dvd_of_isPowerOfTwo_of_le h (isPowerOfTwo_max h) (Nat.le_max_right 8 align)).trans
    (dvd_alignUp _ _)

theorem stackTop_place (layout : Layout cfg) :
    (a.place layout).stackTop = a.freshAddr layout.align + rounded layout.size := by
  have h := a.freshAddr_ge layout.align
  simp only [stackTop] at h
  simp only [stackTop, place]
  omega

theorem freshAddr_ne_zero (align : ℕ) : a.freshAddr align ≠ 0 := by
  have h := a.freshAddr_ge align
  have hp := a.page.pagePtr_pos
  simp only [stackTop] at h
  omega

/-- What `consistency_check` asserts of the cells. -/
structure Consistent : Prop where
  eight_dvd_stackOffset : 8 ∣ a.stackOffset
  stackOffset_le : a.stackOffset ≤ a.page.pageSize
  bytes_le : a.bytes ≤ a.stackOffset
  eight_dvd_bytes : 8 ∣ a.bytes

/-- The `rounded size` bytes at `addr` are in use. -/
structure Holds (addr size : ℕ) : Prop where
  base_le : a.page.pagePtr ≤ addr
  eight_dvd : 8 ∣ addr
  stop_le : addr + rounded size ≤ a.stackTop
  len_le : rounded size ≤ a.bytes

variable {a}

theorem Consistent.place {layout : Layout cfg} (hc : a.Consistent) (hfit : a.Fits layout) :
    (a.place layout).Consistent := by
  have hge := a.freshAddr_ge layout.align
  have hdvd := a.eight_dvd_freshAddr layout.isPowerOfTwo_align
  have hbase := a.page.eight_dvd_pagePtr
  have hr := eight_dvd_rounded layout.size
  obtain ⟨hoff, hle, hbytes, hbytes8⟩ := hc
  simp only [Fits, pageEnd] at hfit
  simp only [stackTop] at hge
  constructor <;> dsimp only [SecStackSinglePageAlloc.place] <;> omega

/-- A block in use stays in use when another one is placed. -/
theorem Holds.place {addr size : ℕ} (h : a.Holds addr size) (layout : Layout cfg) :
    (a.place layout).Holds addr size := by
  obtain ⟨hlo, hdvd, hstop, hlen⟩ := h
  refine ⟨hlo, hdvd, ?_, ?_⟩
  · have := a.freshAddr_ge layout.align
    rw [stackTop_place]
    omega
  · exact hlen.trans (Nat.le_add_right _ _)

end SecStackSinglePageAlloc

/-! ## The calls -/

namespace Exact

open SecStackSinglePageAlloc

variable {cfg : Cfg}

/-- The slice of a zero-sized block. -/
def zeroSlice (layout : Layout cfg) : NonNullSlice :=
  ⟨⟨Ptr.withoutProvenance layout.align, 0⟩, layout.align_pos.ne'⟩

/-- The slice of a fresh block, through the pointer to the page. -/
def freshSlice (a : SecStackSinglePageAlloc cfg) (layout : Layout cfg) : NonNullSlice :=
  ⟨⟨a.page.asPtrMut.withAddr (a.freshAddr layout.align), rounded layout.size⟩,
    a.freshAddr_ne_zero layout.align⟩

/-- `allocate` and `allocate_zeroed`. -/
def allocate (layout : Layout cfg) (s : SecMachine cfg) : AllocResult × SecMachine cfg :=
  if layout.size = 0 then (.ok (zeroSlice layout), s)
  else if s.self.Fits layout then
    (.ok (freshSlice s.self layout), { s with self := s.self.place layout })
  else (.error ⟨⟩, s)

theorem allocate_of_fits {layout : Layout cfg} {s : SecMachine cfg} (hne : layout.size ≠ 0)
    (hfit : s.self.Fits layout) : allocate layout s =
      (.ok (freshSlice s.self layout), { s with self := s.self.place layout }) := by
  rw [allocate, if_neg hne, if_pos hfit]

theorem allocate_of_not_fits {layout : Layout cfg} {s : SecMachine cfg} (hne : layout.size ≠ 0)
    (hfit : ¬ s.self.Fits layout) : allocate layout s = (.error ⟨⟩, s) := by
  rw [allocate, if_neg hne, if_neg hfit]

/-- `deallocate`. -/
def deallocate (ptr : NonNull) (layout : Layout cfg) (s : SecMachine cfg) : SecMachine cfg :=
  if layout.size = 0 then s
  else
    { s.fill (s.self.page.asPtrMut.withAddr ptr.asPtr.addr) (rounded layout.size) 0 with
      self := s.self.release ptr.asPtr.addr (rounded layout.size) }

/-- `realloc_shrink` and `realloc_grow`, which copy `n` bytes. -/
def realloc (n : ℕ) (ptr : NonNull) (oldLayout newLayout : Layout cfg) (s : SecMachine cfg) :
    AllocResult × SecMachine cfg :=
  match allocate newLayout s with
  | (.error e, t) => (.error e, t)
  | (.ok newPtr, t) => (.ok newPtr, deallocate ptr oldLayout (t.copy ptr.asPtr newPtr.asPtr n))

/-- `shrink`. -/
def shrink (ptr : NonNull) (oldLayout newLayout : Layout cfg) (s : SecMachine cfg) :
    AllocResult × SecMachine cfg :=
  if newLayout.size = 0 then (.ok (zeroSlice newLayout), deallocate ptr oldLayout s)
  else if newLayout.align ∣ ptr.asPtr.addr then
    let len := rounded oldLayout.size
    let newLen := rounded newLayout.size
    (.ok ⟨⟨ptr.asPtr, newLen⟩, ptr.addr_ne_zero⟩,
      { s.fill (ptr.asPtr.offset newLen) (len - newLen) 0 with
        self := s.self.trim ptr.asPtr.addr len newLen })
  else realloc newLayout.size ptr oldLayout newLayout s

/-- A block of `len` bytes at `addr` ends at the stack top and is aligned to `align`: it can
only grow in place. -/
def GrowsInPlace (a : SecStackSinglePageAlloc cfg) (addr len align : ℕ) : Prop :=
  align ∣ addr ∧ addr + len = a.stackTop

instance (a : SecStackSinglePageAlloc cfg) (addr len align : ℕ) :
    Decidable (GrowsInPlace a addr len align) :=
  inferInstanceAs (Decidable (_ ∧ _))

/-- `grow` and `grow_zeroed`. -/
def grow (ptr : NonNull) (oldLayout newLayout : Layout cfg) (s : SecMachine cfg) :
    AllocResult × SecMachine cfg :=
  if oldLayout.size = 0 then allocate newLayout s
  else
    let len := rounded oldLayout.size
    let newLen := rounded newLayout.size
    if GrowsInPlace s.self ptr.asPtr.addr len newLayout.align then
      if ptr.asPtr.addr + newLen ≤ s.self.pageEnd then
        (.ok ⟨⟨ptr.asPtr, newLen⟩, ptr.addr_ne_zero⟩,
          { s with self := s.self.extend len newLen })
      else (.error ⟨⟩, s)
    else realloc oldLayout.size ptr oldLayout newLayout s

end Exact

end SecmemAlloc
