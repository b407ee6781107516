import SecmemAlloc.Rust.Alloc
import SecmemAlloc.Zeroize

/-!
# `ZeroizeAlloc`, as the source has it

Every function of `zeroizing_alloc.rs`.  The wrapper has no cells of its own: the cells `β`
are those of the backend.  Resizing is inherited from the traits.
-/

namespace SecmemAlloc

variable {cfg : Cfg} {β : Type}

/-- `debug_handleallocerror_precondition!`; the MIRAI precondition compiles to nothing. -/
def debugHandleallocerrorPrecondition (cfg : Cfg) (condition : Bool) : Code β Unit :=
  if cfg.debugAssertions then
    if condition then pure () else throw .handleAllocError
  else pure ()

/-- `debug_handleallocerror_precondition_valid_layout!`. -/
def debugHandleallocerrorPreconditionValidLayout (layout : Layout cfg) : Code β Unit :=
  debugHandleallocerrorPrecondition cfg
    (Layout.fromSizeAlign cfg layout.size layout.align).isSome

/-- `ZeroizeAlloc`. -/
structure ZeroizeAlloc (α : Type) where
  backendAlloc : α

namespace ZeroizeAlloc

/-- `new`. -/
def new {α : Type} (backendAlloc : α) : ZeroizeAlloc α := { backendAlloc }

section GlobalAlloc

variable (self : ZeroizeAlloc (GlobalAlloc cfg β))

/-- `<ZeroizeAlloc as GlobalAlloc>::alloc`. -/
def alloc (layout : Layout cfg) : Code β Ptr := do
  debugHandleallocerrorPreconditionValidLayout layout
  debugHandleallocerrorPrecondition cfg (layout.size != 0)
  self.backendAlloc.alloc layout

/-- `<ZeroizeAlloc as GlobalAlloc>::dealloc`. -/
def dealloc (ptr : Ptr) (layout : Layout cfg) : Code β Unit := do
  debugHandleallocerrorPrecondition cfg (!ptr.isNull)
  debugHandleallocerrorPreconditionValidLayout layout
  debugHandleallocerrorPrecondition cfg (layout.size != 0)
  preconditionMemoryRange ptr layout.size
  -- the range may not wrap around the address space
  debugHandleallocerrorPrecondition cfg (decide (ptr.addr + layout.size < 2 ^ cfg.pointerWidth))
  zeroizeMem cfg ptr layout.size
  self.backendAlloc.dealloc ptr layout

/-- `<ZeroizeAlloc as GlobalAlloc>::alloc_zeroed`. -/
def allocZeroed (layout : Layout cfg) : Code β Ptr := do
  debugHandleallocerrorPreconditionValidLayout layout
  debugHandleallocerrorPrecondition cfg (layout.size != 0)
  self.backendAlloc.allocZeroed layout

/-- `impl GlobalAlloc for ZeroizeAlloc`, with the default `realloc`. -/
def globalAlloc : GlobalAlloc cfg β where
  alloc := self.alloc
  dealloc := self.dealloc
  allocZeroed := self.allocZeroed
  realloc := GlobalAlloc.defaultRealloc self.alloc self.dealloc

end GlobalAlloc

section Allocator

variable (self : ZeroizeAlloc (Allocator cfg β))

/-- `<ZeroizeAlloc as Allocator>::allocate`. -/
def allocate (layout : Layout cfg) : Code β AllocResult := do
  debugHandleallocerrorPreconditionValidLayout layout
  self.backendAlloc.allocate layout

/-- `<ZeroizeAlloc as Allocator>::allocate_zeroed`. -/
def allocateZeroed (layout : Layout cfg) : Code β AllocResult := do
  debugHandleallocerrorPreconditionValidLayout layout
  self.backendAlloc.allocateZeroed layout

/-- `<ZeroizeAlloc as Allocator>::deallocate`. -/
def deallocate (ptr : NonNull) (layout : Layout cfg) : Code β Unit := do
  debugHandleallocerrorPreconditionValidLayout layout
  zeroizeMem cfg ptr.asPtr layout.size
  self.backendAlloc.deallocate ptr layout

/-- `impl Allocator for ZeroizeAlloc`, with the default `grow`, `grow_zeroed` and `shrink`. -/
def allocator : Allocator cfg β where
  allocate := self.allocate
  allocateZeroed := self.allocateZeroed
  deallocate := self.deallocate
  grow := Allocator.defaultResize self.allocate self.deallocate
  growZeroed := Allocator.defaultResize self.allocateZeroed self.deallocate
  shrink := Allocator.defaultResize self.allocate self.deallocate

end Allocator

/-! ## Running the functions -/

variable {m : Machine β}

theorem debugHandleallocerrorPrecondition_run {condition : Bool} (h : condition = true) :
    (debugHandleallocerrorPrecondition cfg condition).run m = .ok ((), m) := by
  simp only [debugHandleallocerrorPrecondition]
  rw [if_pos h]
  split <;> rfl

theorem validLayout_run (layout : Layout cfg) :
    (debugHandleallocerrorPreconditionValidLayout layout).run m = .ok ((), m) := by
  apply debugHandleallocerrorPrecondition_run
  rw [Layout.fromSizeAlign_self]
  rfl

section GlobalAlloc

variable {self : ZeroizeAlloc (GlobalAlloc cfg β)} {layout : Layout cfg}

/-- `alloc` is `alloc` of the backend. -/
theorem alloc_run (h0 : layout.size ≠ 0) :
    (self.alloc layout).run m = (self.backendAlloc.alloc layout).run m := by
  rw [alloc, Exec.run_bind_ok (validLayout_run layout),
    Exec.run_bind_ok (debugHandleallocerrorPrecondition_run (bne_iff_ne.2 h0))]

theorem allocZeroed_run (h0 : layout.size ≠ 0) :
    (self.allocZeroed layout).run m = (self.backendAlloc.allocZeroed layout).run m := by
  rw [allocZeroed, Exec.run_bind_ok (validLayout_run layout),
    Exec.run_bind_ok (debugHandleallocerrorPrecondition_run (bne_iff_ne.2 h0))]

/-- `dealloc` hands the wiped block to the backend. -/
theorem dealloc_run {ptr : Ptr} (hptr : ptr.addr ≠ 0) (h0 : layout.size ≠ 0)
    (hend : ptr.addr + layout.size < 2 ^ cfg.pointerWidth) :
    (self.dealloc ptr layout).run m =
      (self.backendAlloc.dealloc ptr layout).run (m.fill ptr layout.size 0) := by
  have hnull : (!ptr.isNull) = true := by simpa [Ptr.isNull] using hptr
  have hrange : (preconditionMemoryRange ptr layout.size : Code β Unit).run m = .ok ((), m) := rfl
  rw [dealloc, Exec.run_bind_ok (debugHandleallocerrorPrecondition_run hnull),
    Exec.run_bind_ok (validLayout_run layout),
    Exec.run_bind_ok (debugHandleallocerrorPrecondition_run (bne_iff_ne.2 h0)),
    Exec.run_bind_ok hrange,
    Exec.run_bind_ok (debugHandleallocerrorPrecondition_run (decide_eq_true hend)),
    Exec.run_bind_ok (zeroizeMem_run m hend)]

end GlobalAlloc

section Allocator

variable {self : ZeroizeAlloc (Allocator cfg β)} {layout : Layout cfg}

theorem allocate_run : (self.allocate layout).run m = (self.backendAlloc.allocate layout).run m := by
  rw [allocate, Exec.run_bind_ok (validLayout_run layout)]

theorem allocateZeroed_run :
    (self.allocateZeroed layout).run m = (self.backendAlloc.allocateZeroed layout).run m := by
  rw [allocateZeroed, Exec.run_bind_ok (validLayout_run layout)]

/-- `deallocate` wipes `layout.size` bytes and hands the block to the backend. -/
theorem deallocate_run {ptr : NonNull}
    (hend : ptr.asPtr.addr + layout.size < 2 ^ cfg.pointerWidth) :
    (self.deallocate ptr layout).run m =
      (self.backendAlloc.deallocate ptr layout).run (m.fill ptr.asPtr layout.size 0) := by
  rw [deallocate, Exec.run_bind_ok (validLayout_run layout), Exec.run_bind_ok (zeroizeMem_run m hend)]

end Allocator

end ZeroizeAlloc

end SecmemAlloc
