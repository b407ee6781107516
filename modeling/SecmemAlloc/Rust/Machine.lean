import SecmemAlloc.Lib.AlignUp
import SecmemAlloc.Lib.ByteMemory
import SecmemAlloc.Lib.Exec

/-!
# The machine the crate runs on

Words of a configurable width, raw pointers that carry the address range they may be used
for, a flat byte memory, and the faults a program can stop with.  A pointer is never
prevented from being used outside its range: every byte read or written is logged together
with the pointer it went through, so that a run can be judged afterwards.
-/

namespace SecmemAlloc

/-- What the crate is compiled for. -/
structure Cfg where
  /-- The number of bits of a `usize`. -/
  pointerWidth : ℕ
  /-- Whether `debug_assert!` is compiled in. -/
  debugAssertions : Bool
  /-- Whether `+` and `-` panic instead of wrapping. -/
  overflowChecks : Bool
  /-- Whether the crate runs under miri. -/
  miri : Bool
  /-- The cargo feature `nightly_core_intrinsics`. -/
  nightlyCoreIntrinsics : Bool
  /-- The cargo feature `std`. -/
  std : Bool
deriving DecidableEq, Repr

/-- `usize::MAX`. -/
def Cfg.usizeMax (cfg : Cfg) : ℕ := 2 ^ cfg.pointerWidth - 1

/-- `isize::MAX`, as a `usize`. -/
def Cfg.isizeMax (cfg : Cfg) : ℕ := 2 ^ (cfg.pointerWidth - 1) - 1

theorem Cfg.lt_two_pow_of_le_usizeMax {cfg : Cfg} {x : ℕ} (h : x ≤ cfg.usizeMax) :
    x < 2 ^ cfg.pointerWidth := by
  have := Nat.two_pow_pos cfg.pointerWidth
  simp only [Cfg.usizeMax] at h
  omega

/-- The ways a run can stop without returning. -/
inductive Fault
  /-- An addition or subtraction left the range of `usize` with overflow checks on. -/
  | overflow
  /-- A failed `assert!`, `debug_assert!` or `debug_checked_precondition!`. -/
  | assertion
  /-- Undefined behaviour: pointer arithmetic past the address space, a null `NonNull`. -/
  | undefined
  /-- `std::process::abort`. -/
  | abort
  /-- `alloc::alloc::handle_alloc_error`. -/
  | handleAllocError
deriving DecidableEq, Repr

/-! ## Pointers -/

/-- A raw `*mut u8`: an address, and the range `[lo, hi)` it may be used for. -/
structure Ptr where
  addr : ℕ
  lo : ℕ
  hi : ℕ
deriving DecidableEq, Repr

namespace Ptr

/-- The pointer `n` bytes further, with the same range. -/
def offset (p : Ptr) (n : ℕ) : Ptr := { p with addr := p.addr + n }

/-- `with_addr`. -/
def withAddr (p : Ptr) (addr : ℕ) : Ptr := { p with addr }

/-- `ptr::without_provenance_mut`. -/
def withoutProvenance (addr : ℕ) : Ptr := ⟨addr, 0, 0⟩

/-- `is_null`. -/
def isNull (p : Ptr) : Bool := p.addr == 0

/-- The pointer may be used for the `n` bytes from its address on. -/
def Covers (p : Ptr) (n : ℕ) : Prop := p.lo ≤ p.addr ∧ p.addr + n ≤ p.hi

instance (p : Ptr) (n : ℕ) : Decidable (p.Covers n) :=
  inferInstanceAs (Decidable (p.lo ≤ p.addr ∧ p.addr + n ≤ p.hi))

@[simp] theorem offset_zero (p : Ptr) : p.offset 0 = p := rfl

@[simp] theorem offset_addr (p : Ptr) (n : ℕ) : (p.offset n).addr = p.addr + n := rfl

@[simp] theorem withAddr_addr (p : Ptr) (a : ℕ) : (p.withAddr a).addr = a := rfl

theorem offset_offset (p : Ptr) (k n : ℕ) : (p.offset k).offset n = p.offset (k + n) := by
  simp [offset, Nat.add_assoc]

theorem Covers.mono {p : Ptr} {k n : ℕ} (h : p.Covers n) (hk : k ≤ n) : p.Covers k := by
  simp only [Covers] at *
  omega

end Ptr

/-- A `NonNull<u8>`. -/
structure NonNull where
  asPtr : Ptr
  addr_ne_zero : asPtr.addr ≠ 0
deriving DecidableEq, Repr

/-- A raw `*mut [u8]`, as `ptr::slice_from_raw_parts_mut` makes it. -/
structure RawSlice where
  asPtr : Ptr
  len : ℕ
deriving DecidableEq, Repr

/-- A `NonNull<[u8]>`. -/
structure NonNullSlice extends RawSlice where
  addr_ne_zero : asPtr.addr ≠ 0
deriving DecidableEq, Repr

/-- `NonNull::<[u8]>::cast`. -/
def NonNullSlice.cast (s : NonNullSlice) : NonNull := ⟨s.asPtr, s.addr_ne_zero⟩

/-! ## Accesses -/

inductive AccessKind
  | read
  | write
deriving DecidableEq, Repr

/-- One byte read or written, and the pointer it went through. -/
structure Access where
  kind : AccessKind
  ptr : Ptr
deriving DecidableEq, Repr

/-- The byte lies in the range of the pointer. -/
def Access.InRange (a : Access) : Prop := a.ptr.lo ≤ a.ptr.addr ∧ a.ptr.addr < a.ptr.hi

instance (a : Access) : Decidable a.InRange :=
  inferInstanceAs (Decidable (a.ptr.lo ≤ a.ptr.addr ∧ a.ptr.addr < a.ptr.hi))

/-- The accesses to the `n` bytes from `p` on, through `p`. -/
def accesses (kind : AccessKind) (p : Ptr) (n : ℕ) : List Access :=
  (List.range n).map fun i => ⟨kind, p.offset i⟩

@[simp] theorem accesses_zero (kind : AccessKind) (p : Ptr) : accesses kind p 0 = [] := rfl

theorem accesses_succ (kind : AccessKind) (p : Ptr) (n : ℕ) :
    accesses kind p (n + 1) = ⟨kind, p⟩ :: accesses kind (p.offset 1) n := by
  simp only [accesses, List.range_succ_eq_map, List.map_cons, List.map_map, Ptr.offset_zero,
    Function.comp_def, Ptr.offset_offset, Nat.succ_eq_add_one, Nat.add_comm]

/-- The `n` bytes from `p` on are accessed one after the other. -/
theorem map_addr_accesses (kind : AccessKind) (p : Ptr) (n : ℕ) :
    (accesses kind p n).map (fun a => a.ptr.addr) = List.range' p.addr n := by
  induction n generalizing p with
  | zero => rfl
  | succ n ih => rw [accesses_succ, List.map_cons, ih, Ptr.offset_addr, List.range'_succ]

theorem count_addr_accesses (kind : AccessKind) (p : Ptr) (n x : ℕ) :
    ((accesses kind p n).map fun a => a.ptr.addr).count x =
      if p.addr ≤ x ∧ x < p.addr + n then 1 else 0 := by
  rw [map_addr_accesses, List.count_range_1']

theorem kind_of_mem_accesses {kind : AccessKind} {p : Ptr} {n : ℕ} {a : Access}
    (h : a ∈ accesses kind p n) : a.kind = kind := by
  obtain ⟨i, -, rfl⟩ := List.mem_map.1 h
  rfl

/-- Accesses to `n` bytes are in range exactly when the pointer covers them. -/
theorem inRange_accesses_iff {kind : AccessKind} {p : Ptr} {n : ℕ} :
    (∀ a ∈ accesses kind p n, a.InRange) ↔ n = 0 ∨ p.Covers n := by
  simp only [accesses, List.mem_map, List.mem_range, forall_exists_index, and_imp,
    forall_apply_eq_imp_iff₂, Access.InRange, Ptr.offset, Ptr.Covers]
  constructor
  · intro h
    by_cases hn : n = 0
    · exact Or.inl hn
    · have h₀ := h 0 (by omega)
      have h₁ := h (n - 1) (by omega)
      omega
  · intro h i hi
    omega

/-! ## The state of a run -/

/-- The cells of the allocator at work, the memory, and the accesses made so far. -/
structure Machine (σ : Type) where
  self : σ
  mem : Memory UInt8
  log : List Access

namespace Machine

variable {σ : Type} (m : Machine σ)

/-- The machine after setting `n` bytes through `p`. -/
def fill (p : Ptr) (n : ℕ) (v : UInt8) : Machine σ :=
  { m with mem := m.mem.fill p.addr n v, log := m.log ++ accesses .write p n }

/-- The machine after copying `n` bytes through `src` and `dst`. -/
def copy (src dst : Ptr) (n : ℕ) : Machine σ :=
  { m with
    mem := m.mem.copy src.addr dst.addr n
    log := m.log ++ accesses .read src n ++ accesses .write dst n }

@[simp] theorem fill_self (p : Ptr) (n : ℕ) (v : UInt8) : (m.fill p n v).self = m.self := rfl

@[simp] theorem fill_mem (p : Ptr) (n : ℕ) (v : UInt8) :
    (m.fill p n v).mem = m.mem.fill p.addr n v := rfl

@[simp] theorem fill_log (p : Ptr) (n : ℕ) (v : UInt8) :
    (m.fill p n v).log = m.log ++ accesses .write p n := rfl

@[simp] theorem copy_self (p q : Ptr) (n : ℕ) : (m.copy p q n).self = m.self := rfl

@[simp] theorem copy_mem (p q : Ptr) (n : ℕ) :
    (m.copy p q n).mem = m.mem.copy p.addr q.addr n := rfl

@[simp] theorem copy_log (p q : Ptr) (n : ℕ) :
    (m.copy p q n).log = m.log ++ accesses .read p n ++ accesses .write q n := rfl

@[simp] theorem fill_zero (p : Ptr) (v : UInt8) : m.fill p 0 v = m := by simp [fill]

@[simp] theorem copy_zero (p q : Ptr) : m.copy p q 0 = m := by simp [copy]

end Machine

/-- Programs over the cells `σ` of an allocator. -/
abbrev Code (σ : Type) := Exec Fault (Machine σ)

variable {σ : Type} (cfg : Cfg)

/-! ## Word arithmetic -/

/-- `a + b`. -/
def usizeAdd (a b : ℕ) : Code σ ℕ :=
  if a + b < 2 ^ cfg.pointerWidth then pure (a + b)
  else if cfg.overflowChecks then throw .overflow
  else pure ((a + b) % 2 ^ cfg.pointerWidth)

/-- `a - b`. -/
def usizeSub (a b : ℕ) : Code σ ℕ :=
  if b ≤ a then pure (a - b)
  else if cfg.overflowChecks then throw .overflow
  else pure (a + 2 ^ cfg.pointerWidth - b)

/-- `a.wrapping_add(b)`. -/
def wrappingAdd (a b : ℕ) : ℕ := (a + b) % 2 ^ cfg.pointerWidth

/-- `!a`. -/
def usizeNot (a : ℕ) : ℕ := 2 ^ cfg.pointerWidth - 1 - a

/-! ## Checks -/

/-- `assert!`. -/
def assert (cond : Bool) : Code σ Unit := if cond then pure () else throw .assertion

/-- `debug_assert!`; the condition is evaluated in builds with debug assertions only. -/
def debugAssert (cond : Code σ Bool) : Code σ Unit :=
  if cfg.debugAssertions then do
    if ← cond then pure () else throw .assertion
  else pure ()

/-- `mirai_annotations::debug_checked_precondition!`, a `debug_assert!` when not compiled by
MIRAI. -/
def debugCheckedPrecondition (cond : Code σ Bool) : Code σ Unit := debugAssert cfg cond

/-! ## Pointers and memory -/

/-- `p.add(n)`. -/
def ptrAdd (p : Ptr) (n : ℕ) : Code σ Ptr :=
  if p.addr + n < 2 ^ cfg.pointerWidth then pure (p.offset n) else throw .undefined

/-- `NonNull::new_unchecked` on slices. -/
def newUnchecked (s : RawSlice) : Code σ NonNullSlice :=
  if h : s.asPtr.addr ≠ 0 then pure ⟨s, h⟩ else throw .undefined

/-- `p.write_bytes(v, n)`. -/
def writeBytes (p : Ptr) (v : UInt8) (n : ℕ) : Code σ Unit := modify fun m => m.fill p n v

/-- `core::intrinsics::volatile_set_memory(p, v, n)`. -/
def volatileSetMemory (p : Ptr) (v : UInt8) (n : ℕ) : Code σ Unit := modify fun m => m.fill p n v

/-- `ptr::write_volatile(p, v)`. -/
def writeVolatile (p : Ptr) (v : UInt8) : Code σ Unit :=
  modify fun m => { m with mem := m.mem.store p.addr v, log := m.log ++ [Access.mk .write p] }

/-- `p.read()`. -/
def readByte (p : Ptr) : Code σ UInt8 := do
  let m ← get
  set { m with log := m.log ++ [Access.mk .read p] }
  pure (m.mem p.addr)

/-- `ptr::copy_nonoverlapping(src, dst, n)`. -/
def copyNonoverlapping (src dst : Ptr) (n : ℕ) : Code σ Unit :=
  modify fun m => m.copy src dst n

/-! ## Running the primitives -/

variable {cfg} {s : Machine σ} {a b n : ℕ} {p : Ptr}

theorem usizeAdd_run (h : a + b < 2 ^ cfg.pointerWidth) :
    (usizeAdd cfg a b).run s = .ok (a + b, s) := by
  rw [usizeAdd, if_pos h]
  rfl

theorem usizeSub_run (h : b ≤ a) : (usizeSub cfg a b).run s = .ok (a - b, s) := by
  rw [usizeSub, if_pos h]
  rfl

theorem ptrAdd_run (h : p.addr + n < 2 ^ cfg.pointerWidth) :
    (ptrAdd cfg p n).run s = .ok (p.offset n, s) := by
  rw [ptrAdd, if_pos h]
  rfl

theorem newUnchecked_run {sl : RawSlice} (h : sl.asPtr.addr ≠ 0) :
    (newUnchecked sl).run s = .ok (⟨sl, h⟩, s) := by
  rw [newUnchecked, dif_pos h]
  rfl

theorem assert_run {cond : Bool} (h : cond = true) : (assert cond).run s = .ok ((), s) := by
  rw [assert, if_pos h, Exec.run_pure]

/-- A check whose condition holds does nothing, in every build. -/
theorem debugAssert_run {cond : Code σ Bool} (h : cond.run s = .ok (true, s)) :
    (debugAssert cfg cond).run s = .ok ((), s) := by
  simp only [debugAssert]
  split
  · rw [Exec.run_bind_ok h]
    rfl
  · rfl

theorem debugCheckedPrecondition_run {cond : Code σ Bool} (h : cond.run s = .ok (true, s)) :
    (debugCheckedPrecondition cfg cond).run s = .ok ((), s) := debugAssert_run h

theorem debugCheckedPrecondition_pure {c : Bool} (h : c = true) :
    (debugCheckedPrecondition cfg (pure c)).run s = .ok ((), s) :=
  debugCheckedPrecondition_run (by rw [h]; rfl)

end SecmemAlloc
