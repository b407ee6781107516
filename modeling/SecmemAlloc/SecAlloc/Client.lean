import SecmemAlloc.Lib.Run
import SecmemAlloc.Rust.Alloc
import SecmemAlloc.SecAlloc.Correct

/-!
# An allocator and its clients

The allocator runs together with the clients that hold its blocks.  A ledger remembers, as
ghost state, which blocks are live, with the length of the slice that was returned and the
size and alignment last requested.  One step is a call that respects the `Allocator`
contract, or a client's write of one byte into a slice it holds; a run is any sequence of
steps.
-/

namespace SecmemAlloc

variable {cfg : Cfg}

/-- The calls that resize a block. -/
inductive Resize
  | grow
  | growZeroed
  | shrink
  | reallocGrow
  | reallocShrink
deriving DecidableEq, Repr

namespace Resize

/-- The calls that take a block to a larger size. -/
def grows : Resize → Bool
  | .grow | .growZeroed | .reallocGrow => true
  | .shrink | .reallocShrink => false

/-- What the call asks of the two sizes. -/
def Ordered (kind : Resize) (oldSize newSize : ℕ) : Prop :=
  if kind.grows then oldSize ≤ newSize else newSize ≤ oldSize

instance (kind : Resize) (m n : ℕ) : Decidable (kind.Ordered m n) :=
  inferInstanceAs (Decidable (if kind.grows then m ≤ n else n ≤ m))

/-- The code of the call. -/
def code : Resize → NonNull → Layout cfg → Layout cfg → SecCode cfg AllocResult
  | .grow => SecStackSinglePageAlloc.grow cfg
  | .growZeroed => SecStackSinglePageAlloc.growZeroed cfg
  | .shrink => SecStackSinglePageAlloc.shrink cfg
  | .reallocGrow => SecStackSinglePageAlloc.reallocGrow cfg
  | .reallocShrink => SecStackSinglePageAlloc.reallocShrink cfg

/-- The call in exact integers. -/
def exact (kind : Resize) (ptr : NonNull) (oldLayout newLayout : Layout cfg) :
    SecMachine cfg → AllocResult × SecMachine cfg :=
  match kind with
  | .grow | .growZeroed => Exact.grow ptr oldLayout newLayout
  | .shrink => Exact.shrink ptr oldLayout newLayout
  | .reallocGrow => Exact.realloc oldLayout.size ptr oldLayout newLayout
  | .reallocShrink => Exact.realloc newLayout.size ptr oldLayout newLayout

theorem code_run (kind : Resize) {s : SecMachine cfg} {ptr : NonNull}
    {oldLayout newLayout : Layout cfg} (hc : s.self.Consistent)
    (hheld : SecStackSinglePageAlloc.Owned s ptr oldLayout)
    (hord : kind.Ordered oldLayout.size newLayout.size) :
    (kind.code ptr oldLayout newLayout).run s =
      .ok (kind.exact ptr oldLayout newLayout s) := by
  cases kind with
  | grow => exact SecStackSinglePageAlloc.grow_run hc hheld hord
  | growZeroed => exact SecStackSinglePageAlloc.growZeroed_run hc hheld hord
  | shrink => exact SecStackSinglePageAlloc.shrink_run hc hheld hord
  | reallocGrow => exact SecStackSinglePageAlloc.reallocGrow_run hc hheld hord
  | reallocShrink => exact SecStackSinglePageAlloc.reallocShrink_run hc hheld hord

end Resize

/-! ## The heap and its steps -/

/-- An allocator, the memory, and the blocks its clients hold. -/
structure Heap (cfg : Cfg) where
  alloc : SecStackSinglePageAlloc cfg
  mem : Memory UInt8
  ledger : Ledger Block

/-- What can happen to a heap.  Blocks go by names that the clients choose. -/
inductive Op (cfg : Cfg)
  /-- `allocate`, or `allocate_zeroed`. -/
  | allocate (zeroed : Bool) (i : ℕ) (layout : Layout cfg)
  | deallocate (i : ℕ) (ptr : NonNull) (layout : Layout cfg)
  | resize (kind : Resize) (i : ℕ) (ptr : NonNull) (oldLayout newLayout : Layout cfg)
  /-- A client writes the byte at offset `off` of its block `i`. -/
  | write (i off : ℕ) (v : UInt8)

/-- An operation, and what the allocator answered. -/
abbrev Event (cfg : Cfg) := Op cfg × Option AllocResult

/-- The bytes of the page are zero. -/
def Page.Zeroed (page : Page cfg) (mem : Memory UInt8) : Prop :=
  ∀ a, page.pagePtr ≤ a → a < page.pagePtr + page.pageSize → mem a = 0

namespace Heap

/-- The heap `new` makes of a page. -/
def new (page : Page cfg) (mem : Memory UInt8) : Heap cfg :=
  ⟨⟨0, page, 0⟩, mem, ⟨∅, fun _ => ⟨0, 0, 0, 0⟩⟩⟩

theorem new_alloc {ε : Type} (page : Page cfg) (mem : Memory UInt8) :
    SecStackSinglePageAlloc.new (.ok page : Except ε (Page cfg)) = .ok (new page mem).alloc := rfl

variable (h : Heap cfg) (i : ℕ)

/-- The machine a call starts from, with no access made yet. -/
def machine : SecMachine cfg := ⟨h.alloc, h.mem, []⟩

/-- `ptr` points to the live block `i`, and `layout` fits it. -/
structure Held (ptr : NonNull) (layout : Layout cfg) : Prop where
  live : i ∈ h.ledger.live
  addr_eq : ptr.asPtr.addr = (h.ledger.block i).addr
  fit : (h.ledger.block i).Fit layout

instance (ptr : NonNull) (layout : Layout cfg) : Decidable (h.Held i ptr layout) :=
  decidable_of_iff (i ∈ h.ledger.live ∧ ptr.asPtr.addr = (h.ledger.block i).addr ∧
      (h.ledger.block i).Fit layout)
    ⟨fun ⟨h₁, h₂, h₃⟩ => ⟨h₁, h₂, h₃⟩, fun ⟨h₁, h₂, h₃⟩ => ⟨h₁, h₂, h₃⟩⟩

/-- The operations that respect the contract. -/
def Legal : Op cfg → Prop
  | .allocate _ i _ => i ∉ h.ledger.live
  | .deallocate i ptr layout => h.Held i ptr layout
  | .resize kind i ptr oldLayout newLayout =>
    h.Held i ptr oldLayout ∧ kind.Ordered oldLayout.size newLayout.size
  | .write i off _ => i ∈ h.ledger.live ∧ off < (h.ledger.block i).len

instance (op : Op cfg) : Decidable (h.Legal op) :=
  match op with
  | .allocate _ i _ => inferInstanceAs (Decidable (i ∉ h.ledger.live))
  | .deallocate i ptr layout => inferInstanceAs (Decidable (h.Held i ptr layout))
  | .resize kind i ptr oldLayout newLayout => inferInstanceAs (Decidable
      (h.Held i ptr oldLayout ∧ kind.Ordered oldLayout.size newLayout.size))
  | .write i off _ => inferInstanceAs (Decidable
      (i ∈ h.ledger.live ∧ off < (h.ledger.block i).len))

/-- A client writes one byte of its block. -/
def store (off : ℕ) (v : UInt8) : Heap cfg :=
  { h with mem := h.mem.store ((h.ledger.block i).addr + off) v }

/-- The client notes the slice it was given, if any. -/
def settle (layout : Layout cfg) (r : AllocResult × SecMachine cfg) :
    Option AllocResult × Heap cfg :=
  (some r.1, ⟨r.2.self, r.2.mem, match r.1 with
    | .ok slice => h.ledger.insert i (.ofSlice slice layout)
    | .error _ => h.ledger⟩)

/-- Carry out an operation. -/
def exec : Op cfg → Except Fault (Option AllocResult × Heap cfg)
  | .allocate zeroed i layout =>
    ((if zeroed then SecStackSinglePageAlloc.allocateZeroed cfg layout
      else SecStackSinglePageAlloc.allocate cfg layout).run h.machine).map (h.settle i layout)
  | .deallocate i ptr layout =>
    ((SecStackSinglePageAlloc.deallocate cfg ptr layout).run h.machine).map
      fun r => (none, ⟨r.2.self, r.2.mem, h.ledger.erase i⟩)
  | .resize kind i ptr oldLayout newLayout =>
    ((kind.code ptr oldLayout newLayout).run h.machine).map (h.settle i newLayout)
  | .write i off v => .ok (none, h.store i off v)

/-- One step: a legal operation, its answer, and the heap after it. -/
def Step (h : Heap cfg) (e : Event cfg) (h' : Heap cfg) : Prop :=
  h.Legal e.1 ∧ h.exec e.1 = .ok (e.2, h')

end Heap

end SecmemAlloc
