import SecmemAlloc.Lib.Ledger
import SecmemAlloc.Rust.Layout

/-!
# The allocator traits

`GlobalAlloc` and `Allocator`, with the methods their implementors inherit, and the blocks
that clients of an allocator hold.
-/

namespace SecmemAlloc

variable {cfg : Cfg} {β : Type}

/-! ## The traits -/

/-- `core::alloc::GlobalAlloc`, implemented by an allocator with cells `β`. -/
structure GlobalAlloc (cfg : Cfg) (β : Type) where
  alloc : Layout cfg → Code β Ptr
  dealloc : Ptr → Layout cfg → Code β Unit
  allocZeroed : Layout cfg → Code β Ptr
  realloc : Ptr → Layout cfg → ℕ → Code β Ptr

/-- `allocator_api2::alloc::Allocator`, implemented by an allocator with cells `β`. -/
structure Allocator (cfg : Cfg) (β : Type) where
  allocate : Layout cfg → Code β AllocResult
  allocateZeroed : Layout cfg → Code β AllocResult
  deallocate : NonNull → Layout cfg → Code β Unit
  grow : NonNull → Layout cfg → Layout cfg → Code β AllocResult
  growZeroed : NonNull → Layout cfg → Layout cfg → Code β AllocResult
  shrink : NonNull → Layout cfg → Layout cfg → Code β AllocResult

/-- The default `GlobalAlloc::realloc`. -/
def GlobalAlloc.defaultRealloc (alloc : Layout cfg → Code β Ptr)
    (dealloc : Ptr → Layout cfg → Code β Unit) (ptr : Ptr) (layout : Layout cfg) (newSize : ℕ) :
    Code β Ptr := do
  let newLayout ← Layout.fromSizeAlignUnchecked cfg newSize layout.align
  let newPtr ← alloc newLayout
  if newPtr.isNull then pure newPtr
  else do
    copyNonoverlapping ptr newPtr (min layout.size newSize)
    dealloc ptr layout
    pure newPtr

/-- The default `Allocator::grow`, `grow_zeroed` (where `allocate` is `allocate_zeroed`) and
`shrink`. -/
def Allocator.defaultResize (allocate : Layout cfg → Code β AllocResult)
    (deallocate : NonNull → Layout cfg → Code β Unit) (ptr : NonNull)
    (oldLayout newLayout : Layout cfg) : Code β AllocResult := do
  match ← allocate newLayout with
  | .error e => pure (.error e)
  | .ok newPtr => do
    copyNonoverlapping ptr.asPtr newPtr.asPtr (min oldLayout.size newLayout.size)
    deallocate ptr oldLayout
    pure (.ok newPtr)

/-! ## Blocks -/

/-- A block a client holds: the slice it was given, and the size and alignment it last asked
for. -/
structure Block where
  addr : ℕ
  len : ℕ
  size : ℕ
  align : ℕ
deriving DecidableEq, Repr

namespace Block

/-- The addresses of the block. -/
def span (b : Block) : Span := ⟨b.addr, b.len⟩

/-- The block a client holds after `slice` was returned for `layout`. -/
def ofSlice (slice : NonNullSlice) (layout : Layout cfg) : Block :=
  ⟨slice.asPtr.addr, slice.len, layout.size, layout.align⟩

/-- The layouts that fit a block: from the size last requested up to the returned length. -/
def Fit (b : Block) (layout : Layout cfg) : Prop := b.size ≤ layout.size ∧ layout.size ≤ b.len

instance (b : Block) (layout : Layout cfg) : Decidable (b.Fit layout) :=
  inferInstanceAs (Decidable (_ ∧ _))

@[simp] theorem len_span (b : Block) : b.span.len = b.len := rfl

theorem mem_span {b : Block} {a : ℕ} : a ∈ b.span ↔ b.addr ≤ a ∧ a < b.addr + b.len := Iff.rfl

theorem add_mem_span {b : Block} {k : ℕ} (h : k < b.len) : b.addr + k ∈ b.span :=
  ⟨Nat.le_add_right _ k, Nat.add_lt_add_left h _⟩

theorem fill_of_mem {b : Block} {a : ℕ} {m : Memory UInt8} {v : UInt8} (h : a ∈ b.span) :
    m.fill b.addr b.len v a = v := Memory.fill_of_mem h

theorem fill_of_notMem {b : Block} {a : ℕ} {m : Memory UInt8} {v : UInt8} (h : a ∉ b.span) :
    m.fill b.addr b.len v a = m a := Memory.fill_of_notMem h

end Block

end SecmemAlloc
