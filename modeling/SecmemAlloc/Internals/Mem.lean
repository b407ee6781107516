import Mathlib.Data.Set.Lattice
import Mathlib.Order.CompletePartialOrder
import SecmemAlloc.Lib.Ledger
import SecmemAlloc.SecAlloc.Code

/-!
# Memory pages

`mem::Page` as a backend makes it, and what the allocator relies on: a new page is one that
`Page` describes, filled with zeros, on addresses of its own, and it is the process's until it
is dropped.  Three backends follow, one for each kind of system.
-/

namespace SecmemAlloc

variable {cfg : Cfg} {ω ε : Type}

/-! ## Pages -/

/-- `mem::Page`, as the source has it. -/
structure RawPage where
  pagePtr : NonNull
  pageSize : ℕ
deriving DecidableEq, Repr

namespace RawPage

/-- `Page::as_ptr_mut`, and `as_c_ptr_mut`. -/
def asPtrMut (page : RawPage) : Ptr := page.pagePtr.asPtr

/-- What the allocator assumes of a page. -/
structure Valid (cfg : Cfg) (page : RawPage) : Prop where
  isPowerOfTwo_pageSize : page.pageSize.isPowerOfTwo
  eight_dvd_pageSize : 8 ∣ page.pageSize
  pageSize_dvd_addr : page.pageSize ∣ page.asPtrMut.addr
  stop_le : page.asPtrMut.addr + page.pageSize ≤ cfg.usizeMax
  lo_eq : page.asPtrMut.lo = page.asPtrMut.addr
  hi_eq : page.asPtrMut.hi = page.asPtrMut.addr + page.pageSize

end RawPage

namespace Page

/-- The addresses of the page. -/
def range (page : Page cfg) : Set ℕ := Set.Ico page.pagePtr (page.pagePtr + page.pageSize)

theorem mem_range {page : Page cfg} {a : ℕ} :
    a ∈ page.range ↔ page.pagePtr ≤ a ∧ a < page.pagePtr + page.pageSize := Set.mem_Ico

/-- Pages of one size that start at different addresses do not meet. -/
theorem disjoint_range {page page' : Page cfg} (hsize : page.pageSize = page'.pageSize)
    (hne : page.pagePtr ≠ page'.pagePtr) : Disjoint page.range page'.range := by
  rw [Set.disjoint_left]
  intro a ha ha'
  rw [mem_range] at ha ha'
  apply hne
  obtain ⟨x, hx⟩ := page.pageSize_dvd_pagePtr
  obtain ⟨y, hy⟩ := page'.pageSize_dvd_pagePtr
  -- both starts are the multiple of the page size at or below `a`
  have hxa : a / page.pageSize = x := Nat.div_eq_of_lt_le
    (by rw [Nat.mul_comm]; omega) (by rw [Nat.succ_mul, Nat.mul_comm]; omega)
  have hya : a / page'.pageSize = y := Nat.div_eq_of_lt_le
    (by rw [Nat.mul_comm]; omega) (by rw [Nat.succ_mul, Nat.mul_comm]; omega)
  rw [hx, hy, ← hxa, ← hya, hsize]

/-- The page without what is assumed of it. -/
def raw (page : Page cfg) : RawPage :=
  ⟨⟨page.asPtrMut, page.pagePtr_pos.ne'⟩, page.pageSize⟩

@[simp] theorem asPtrMut_raw (page : Page cfg) : page.raw.asPtrMut = page.asPtrMut := rfl

@[simp] theorem pageSize_raw (page : Page cfg) : page.raw.pageSize = page.pageSize := rfl

end Page

/-- A page that is what the allocator assumes. -/
def RawPage.toPage (page : RawPage) (h : page.Valid cfg) : Page cfg where
  pagePtr := page.asPtrMut.addr
  pageSize := page.pageSize
  isPowerOfTwo_pageSize := h.isPowerOfTwo_pageSize
  eight_dvd_pageSize := h.eight_dvd_pageSize
  pageSize_dvd_pagePtr := h.pageSize_dvd_addr
  pagePtr_pos := Nat.pos_of_ne_zero page.pagePtr.addr_ne_zero
  pageEnd_le := h.stop_le

theorem RawPage.raw_toPage {page : RawPage} (h : page.Valid cfg) : (page.toPage h).raw = page := by
  obtain ⟨⟨⟨addr, lo, hi⟩, hne⟩, size⟩ := page
  have hlo : lo = addr := h.lo_eq
  have hhi : hi = addr + size := h.hi_eq
  subst hlo hhi
  rfl

/-- `NonNull::new_unchecked`. -/
def NonNull.newUnchecked {σ : Type} (p : Ptr) : Code σ NonNull :=
  if h : p.addr ≠ 0 then pure ⟨p, h⟩ else throw .undefined

theorem NonNull.newUnchecked_run {σ : Type} {p : Ptr} {m : Machine σ} (h : p.addr ≠ 0) :
    (NonNull.newUnchecked p).run m = .ok (⟨p, h⟩, m) := by
  rw [NonNull.newUnchecked, dif_pos h]
  rfl

/-! ## Backends -/

/-- A backend of `mem`: `Page::alloc_new_lock` and `Drop for Page`, on a system with states
`ω`. -/
structure PageBackend (ω ε : Type) where
  allocNewLock : Code ω (Except ε RawPage)
  drop : RawPage → Code ω Unit

/-- The bytes of the live pages are the same in both memories. -/
def Ledger.Kept (L : Ledger (Page cfg)) (mem mem' : Memory UInt8) : Prop :=
  ∀ i ∈ L.live, Set.EqOn mem' mem (L.block i).range

/-- The new page `raw`, recorded under the name `i`: it is what the allocator assumes, filled
with zeros, and does not meet the other pages. -/
structure Obtains (Rep : Ledger (Page cfg) → ω → Memory UInt8 → Prop) (L : Ledger (Page cfg))
    (i : ℕ) (raw : RawPage) (page : Page cfg) (m' : Machine ω) : Prop where
  raw_eq : raw = page.raw
  zero : ∀ a ∈ page.range, m'.mem a = 0
  disjoint : ∀ j ∈ L.live, Disjoint page.range (L.block j).range
  rep : Rep (L.insert i page) m'.self m'.mem

/-- What the allocator relies on.  `Rep L k mem` is the backend's own invariant: in state `k`
of the system the pages of `L` are those made and not yet dropped.  The only way for a call
not to return is a panic, when the system fails to take a page back. -/
structure PageBackend.Contract (B : PageBackend ω ε)
    (Rep : Ledger (Page cfg) → ω → Memory UInt8 → Prop) : Prop where
  /-- The pages may be written to. -/
  client {L : Ledger (Page cfg)} {k : ω} {mem mem' : Memory UInt8} : Rep L k mem →
    (∀ a, (∀ i ∈ L.live, a ∉ (L.block i).range) → mem' a = mem a) → Rep L k mem'
  alloc_ok {L : Ledger (Page cfg)} {m m' : Machine ω} {i : ℕ} {raw : RawPage} :
    Rep L m.self m.mem → i ∉ L.live → B.allocNewLock.run m = .ok (.ok raw, m') →
    L.Kept m.mem m'.mem ∧ ∃ page, Obtains Rep L i raw page m'
  alloc_error {L : Ledger (Page cfg)} {m m' : Machine ω} {e : ε} :
    Rep L m.self m.mem → B.allocNewLock.run m = .ok (.error e, m') →
    L.Kept m.mem m'.mem ∧ Rep L m'.self m'.mem
  alloc_fault {L : Ledger (Page cfg)} {m : Machine ω} {f : Fault} :
    Rep L m.self m.mem → B.allocNewLock.run m = .error f → f = .assertion
  drop_ok {L : Ledger (Page cfg)} {m m' : Machine ω} {i : ℕ} :
    Rep L m.self m.mem → i ∈ L.live → (B.drop (L.block i).raw).run m = .ok ((), m') →
    (L.erase i).Kept m.mem m'.mem ∧ Rep (L.erase i) m'.self m'.mem
  drop_fault {L : Ledger (Page cfg)} {m : Machine ω} {i : ℕ} {f : Fault} :
    Rep L m.self m.mem → i ∈ L.live → (B.drop (L.block i).raw).run m = .error f → f = .assertion

/-- A backend that does the same, on the pages there can be, does what the allocator relies
on. -/
theorem PageBackend.Contract.congr {B B' : PageBackend ω ε}
    {Rep : Ledger (Page cfg) → ω → Memory UInt8 → Prop} (h : B.Contract Rep)
    (halloc : B'.allocNewLock = B.allocNewLock)
    (hdrop : ∀ {L : Ledger (Page cfg)} {k : ω} {mem : Memory UInt8} {i : ℕ}, Rep L k mem →
      i ∈ L.live → B'.drop (L.block i).raw = B.drop (L.block i).raw) : B'.Contract Rep where
  client := h.client
  alloc_ok := by
    rw [halloc]
    exact h.alloc_ok
  alloc_error := by
    rw [halloc]
    exact h.alloc_error
  alloc_fault := by
    rw [halloc]
    exact h.alloc_fault
  drop_ok := by
    intro L m m' i hrep hi hrun
    rw [hdrop hrep hi] at hrun
    exact h.drop_ok hrep hi hrun
  drop_fault := by
    intro L m i f hrep hi hrun
    rw [hdrop hrep hi] at hrun
    exact h.drop_fault hrep hi hrun

/-- A family of invariants, of which one holds. -/
theorem PageBackend.Contract.exists {ι : Type*} {B : PageBackend ω ε}
    {Rep : ι → Ledger (Page cfg) → ω → Memory UInt8 → Prop} (h : ∀ x, B.Contract (Rep x)) :
    B.Contract fun L k mem => ∃ x, Rep x L k mem where
  client := by
    rintro L k mem mem' ⟨x, hrep⟩ hmem
    exact ⟨x, (h x).client hrep hmem⟩
  alloc_ok := by
    rintro L m m' i raw ⟨x, hrep⟩ hi hrun
    obtain ⟨hkeep, page, hpage⟩ := (h x).alloc_ok hrep hi hrun
    exact ⟨hkeep, page, hpage.raw_eq, hpage.zero, hpage.disjoint, x, hpage.rep⟩
  alloc_error := by
    rintro L m m' e ⟨x, hrep⟩ hrun
    obtain ⟨hkeep, hrep'⟩ := (h x).alloc_error hrep hrun
    exact ⟨hkeep, x, hrep'⟩
  alloc_fault := by
    rintro L m f ⟨x, hrep⟩ hrun
    exact (h x).alloc_fault hrep hrun
  drop_ok := by
    rintro L m m' i ⟨x, hrep⟩ hi hrun
    obtain ⟨hkeep, hrep'⟩ := (h x).drop_ok hrep hi hrun
    exact ⟨hkeep, x, hrep'⟩
  drop_fault := by
    rintro L m i f ⟨x, hrep⟩ hi hrun
    exact (h x).drop_fault hrep hi hrun

end SecmemAlloc
