import SecmemAlloc.Rust.Layout
import SecmemAlloc.Util
import SecmemAlloc.Zeroize

/-!
# `SecStackSinglePageAlloc`, as the source has it

Every function of `sec_alloc.rs`, on machine words and with its checks.
-/

namespace SecmemAlloc

/-- `mem::Page`, with what is assumed of `mmap` and `VirtualAlloc`: the page size is a power
of two and a multiple of 8, the page starts at a nonzero multiple of it and does not end past
`usize::MAX`. -/
structure Page (cfg : Cfg) where
  pagePtr : ℕ
  pageSize : ℕ
  isPowerOfTwo_pageSize : pageSize.isPowerOfTwo
  eight_dvd_pageSize : 8 ∣ pageSize
  pageSize_dvd_pagePtr : pageSize ∣ pagePtr
  pagePtr_pos : 0 < pagePtr
  pageEnd_le : pagePtr + pageSize ≤ cfg.usizeMax

namespace Page

variable {cfg : Cfg}

/-- `Page::as_ptr_mut`. -/
def asPtrMut (page : Page cfg) : Ptr :=
  ⟨page.pagePtr, page.pagePtr, page.pagePtr + page.pageSize⟩

/-- `Page::as_ptr`. -/
def asPtr (page : Page cfg) : Ptr := page.asPtrMut

@[simp] theorem asPtrMut_addr (page : Page cfg) : page.asPtrMut.addr = page.pagePtr := rfl

@[simp] theorem asPtr_addr (page : Page cfg) : page.asPtr.addr = page.pagePtr := rfl

end Page

/-- The allocator: the number of bytes allocated, the page, and the offset of its first
available byte. -/
structure SecStackSinglePageAlloc (cfg : Cfg) where
  bytes : ℕ
  page : Page cfg
  stackOffset : ℕ

/-- The machine an allocator runs on. -/
abbrev SecMachine (cfg : Cfg) := Machine (SecStackSinglePageAlloc cfg)

/-- Programs over the cells of an allocator. -/
abbrev SecCode (cfg : Cfg) := Code (SecStackSinglePageAlloc cfg)

namespace SecStackSinglePageAlloc

/-- `new`; `allocNewLock` is the answer of the system to `Page::alloc_new_lock`. -/
def new {cfg : Cfg} {ε : Type} (allocNewLock : Except ε (Page cfg)) :
    Except ε (SecStackSinglePageAlloc cfg) := do
  let page ← allocNewLock
  pure { bytes := 0, page, stackOffset := 0 }

section Cells

variable {cfg : Cfg}

/-- `self.page`. -/
def getPage : SecCode cfg (Page cfg) := do
  let m ← get
  pure m.self.page

/-- `self.bytes.get()`. -/
def getBytes : SecCode cfg ℕ := do
  let m ← get
  pure m.self.bytes

/-- `self.stack_offset.get()`. -/
def getStackOffset : SecCode cfg ℕ := do
  let m ← get
  pure m.self.stackOffset

/-- `self.bytes.set(v)`. -/
def setBytes (v : ℕ) : SecCode cfg Unit :=
  modify fun m => { m with self := { m.self with bytes := v } }

/-- `self.stack_offset.set(v)`. -/
def setStackOffset (v : ℕ) : SecCode cfg Unit :=
  modify fun m => { m with self := { m.self with stackOffset := v } }

end Cells

variable (cfg : Cfg)

/-- `consistency_check`, which the tests call. -/
def consistencyCheck : SecCode cfg Unit := do
  let bytes ← getBytes
  let stackOffset ← getStackOffset
  assert (stackOffset % 8 == 0)
  let page ← getPage
  assert (decide (stackOffset ≤ page.pageSize))
  let aligned ← isAlignedPtr cfg page.asPtr 8
  assert aligned
  assert (decide (bytes ≤ stackOffset))
  assert (bytes % 8 == 0)

/-- `drop`, which exists in builds with debug assertions only: check for leaks and that the
whole page is zero. -/
def drop : SecCode cfg Unit :=
  if cfg.debugAssertions then do
    if cfg.std then
      if (← getBytes) ≠ 0 then throw .abort
    else debugAssert cfg do pure ((← getBytes) == 0)
    let page ← getPage
    let pagePtr := page.asPtr
    (List.range page.pageSize).forM fun offset => do
      let byte ← readByte (pagePtr.withAddr (wrappingAdd cfg pagePtr.addr offset))
      if byte ≠ 0 then throw (if cfg.std then .abort else .assertion) else pure ()
  else pure ()

/-- Whether `ptr` points to the final allocation on the page. -/
def ptrIsLastAllocation (ptr : NonNull) (roundedSize : ℕ) : SecCode cfg Bool := do
  let allocStartOffset ← largeOffsetFrom cfg ptr.asPtr (← getPage).asPtr
  let allocEndOffset ← usizeAdd cfg allocStartOffset roundedSize
  pure (allocEndOffset == (← getStackOffset))

/-- Create a zero-sized allocation. -/
def allocateZerosized (align : ℕ) : SecCode cfg NonNullSlice := do
  debugCheckedPrecondition cfg (pure (isPowerOfTwo align))
  let dangling := Ptr.withoutProvenance align
  newUnchecked ⟨dangling, 0⟩

/-- `<SecStackSinglePageAlloc as Allocator>::allocate_zeroed`. -/
def allocateZeroed (layout : Layout cfg) : SecCode cfg AllocResult := do
  debugCheckedPrecondition cfg (pure (isPowerOfTwo layout.align))
  if layout.size = 0 then do
    let zerosized ← allocateZerosized cfg layout.align
    pure (.ok zerosized)
  else do
    -- a size that wraps when rounded up gives 0
    let roundedReqSize := wrappingAdd cfg layout.size 7 &&& usizeNot cfg 7
    if unlikely (roundedReqSize == 0) then pure (.error ⟨⟩)
    else do
      let page ← getPage
      let available ← usizeSub cfg page.pageSize (← getStackOffset)
      if roundedReqSize > available then pure (.error ⟨⟩)
      else do
        let stackPtr ← ptrAdd cfg page.asPtrMut (← getStackOffset)
        if layout.align ≤ 8 then do
          -- fast path for low align
          debugAssert cfg (pure (layout.align == 1 || layout.align == 2 || layout.align == 4 ||
            layout.align == 8))
          let allocSlicePtr ← newUnchecked ⟨stackPtr, roundedReqSize⟩
          setStackOffset (← usizeAdd cfg (← getStackOffset) roundedReqSize)
          setBytes (← usizeAdd cfg (← getBytes) roundedReqSize)
          pure (.ok allocSlicePtr)
        else do
          let nextAlignedPtr ← alignUpPtrMut cfg stackPtr layout.align
          -- null when aligning wraps the address space
          if unlikely nextAlignedPtr.isNull then pure (.error ⟨⟩)
          else do
            let nextAlignPageoffset ← largeOffsetFrom cfg nextAlignedPtr page.asPtr
            if nextAlignPageoffset ≥ page.pageSize then pure (.error ⟨⟩)
            else do
              let available ← usizeSub cfg page.pageSize nextAlignPageoffset
              if roundedReqSize > available then pure (.error ⟨⟩)
              else do
                let allocSlicePtr ← newUnchecked ⟨nextAlignedPtr, roundedReqSize⟩
                setStackOffset (← usizeAdd cfg nextAlignPageoffset roundedReqSize)
                setBytes (← usizeAdd cfg (← getBytes) roundedReqSize)
                pure (.ok allocSlicePtr)

/-- `<SecStackSinglePageAlloc as Allocator>::allocate`. -/
def allocate (layout : Layout cfg) : SecCode cfg AllocResult := allocateZeroed cfg layout

/-- The two checks that `ptr` lies in the used part of the page. -/
def checkInUse (ptr : NonNull) : SecCode cfg Unit := do
  let page ← getPage
  debugCheckedPrecondition cfg (pure (decide (page.asPtr.addr ≤ ptr.asPtr.addr)))
  debugCheckedPrecondition cfg do
    let stackTop ← usizeAdd cfg page.asPtr.addr (← getStackOffset)
    pure (decide (ptr.asPtr.addr ≤ stackTop))

/-- `<SecStackSinglePageAlloc as Allocator>::deallocate`. -/
def deallocate (ptr : NonNull) (layout : Layout cfg) : SecCode cfg Unit := do
  if layout.size = 0 then pure ()
  else do
    checkInUse cfg ptr
    let roundedReqSize ← alignUpUsize cfg layout.size 8
    let page ← getPage
    -- the caller's pointer may cover `layout.size` bytes only, the page pointer covers all
    let ptr := page.asPtrMut.withAddr ptr.asPtr.addr
    zeroizeMem cfg ptr roundedReqSize
    setBytes (← usizeSub cfg (← getBytes) roundedReqSize)
    if (← getBytes) = 0 then setStackOffset 0
    else do
      let allocStartOffset ← largeOffsetFrom cfg ptr page.asPtr
      let allocEndOffset ← usizeAdd cfg allocStartOffset roundedReqSize
      if allocEndOffset = (← getStackOffset) then setStackOffset allocStartOffset
      else pure ()

/-- What `realloc_shrink` and `realloc_grow` share: make a new block, copy `len` bytes, and
release the old block.  They differ in the order of the sizes they check and in `len`. -/
def reallocCopying (ordered : Bool) (len : ℕ) (ptr : NonNull) (oldLayout newLayout : Layout cfg) :
    SecCode cfg AllocResult := do
  debugCheckedPrecondition cfg (pure ordered)
  match ← allocate cfg newLayout with
  | .error e => pure (.error e)
  | .ok newPtr => do
    copyNonoverlapping ptr.asPtr (nonnullAsMutPtr newPtr) len
    deallocate cfg ptr oldLayout
    pure (.ok newPtr)

/-- Reallocate into a smaller block, without trying to reuse the old one. -/
def reallocShrink (ptr : NonNull) (oldLayout newLayout : Layout cfg) : SecCode cfg AllocResult :=
  reallocCopying cfg (newLayout.size ≤ oldLayout.size) newLayout.size ptr oldLayout newLayout

/-- Reallocate into a larger block, without trying to reuse the old one. -/
def reallocGrow (ptr : NonNull) (oldLayout newLayout : Layout cfg) : SecCode cfg AllocResult :=
  reallocCopying cfg (newLayout.size ≥ oldLayout.size) oldLayout.size ptr oldLayout newLayout

/-- `<SecStackSinglePageAlloc as Allocator>::shrink`. -/
def shrink (ptr : NonNull) (oldLayout newLayout : Layout cfg) : SecCode cfg AllocResult := do
  debugCheckedPrecondition cfg (pure (decide (newLayout.size ≤ oldLayout.size)))
  if newLayout.size = 0 then do
    deallocate cfg ptr oldLayout
    let zerosized ← allocateZerosized cfg newLayout.align
    pure (.ok zerosized)
  else do
    checkInUse cfg ptr
    if ← isAlignedPtr cfg ptr.asPtr newLayout.align then do
      -- shrink in place, also when the block is not the last one
      let roundedSize ← alignUpUsize cfg oldLayout.size 8
      let newRoundedSize ← alignUpUsize cfg newLayout.size 8
      let newAllocEnd ← ptrAdd cfg ptr.asPtr newRoundedSize
      let sizeDecrease ← usizeSub cfg roundedSize newRoundedSize
      zeroizeMem cfg newAllocEnd sizeDecrease
      setBytes (← usizeSub cfg (← getBytes) sizeDecrease)
      if ← ptrIsLastAllocation cfg ptr roundedSize then
        setStackOffset (← usizeSub cfg (← getStackOffset) sizeDecrease)
      let allocSlicePtr ← newUnchecked ⟨ptr.asPtr, newRoundedSize⟩
      pure (.ok allocSlicePtr)
    else reallocShrink cfg ptr oldLayout newLayout

/-- `<SecStackSinglePageAlloc as Allocator>::grow_zeroed`. -/
def growZeroed (ptr : NonNull) (oldLayout newLayout : Layout cfg) : SecCode cfg AllocResult := do
  debugCheckedPrecondition cfg (pure (decide (newLayout.size ≥ oldLayout.size)))
  if oldLayout.size = 0 then allocate cfg newLayout
  else do
    checkInUse cfg ptr
    if ← isAlignedPtr cfg ptr.asPtr newLayout.align then do
      let roundedSize ← alignUpUsize cfg oldLayout.size 8
      if ← ptrIsLastAllocation cfg ptr roundedSize then do
        -- grow in place; a size that wraps when rounded up gives 0
        let newRoundedSize ← alignUpUsize cfg newLayout.size 8
        if unlikely (newRoundedSize == 0) then pure (.error ⟨⟩)
        else do
          let page ← getPage
          let allocStartOffset ← largeOffsetFrom cfg ptr.asPtr page.asPtr
          let available ← usizeSub cfg page.pageSize allocStartOffset
          if newRoundedSize > available then pure (.error ⟨⟩)
          else do
            let sizeIncrease ← usizeSub cfg newRoundedSize roundedSize
            setBytes (← usizeAdd cfg (← getBytes) sizeIncrease)
            setStackOffset (← usizeAdd cfg (← getStackOffset) sizeIncrease)
            let allocSlicePtr ← newUnchecked ⟨ptr.asPtr, newRoundedSize⟩
            pure (.ok allocSlicePtr)
      else reallocGrow cfg ptr oldLayout newLayout
    else reallocGrow cfg ptr oldLayout newLayout

/-- `<SecStackSinglePageAlloc as Allocator>::grow`. -/
def grow (ptr : NonNull) (oldLayout newLayout : Layout cfg) : SecCode cfg AllocResult :=
  growZeroed cfg ptr oldLayout newLayout

end SecStackSinglePageAlloc

end SecmemAlloc
