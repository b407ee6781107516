import SecmemAlloc.Rust.Machine

/-!
# `zeroize`: wiping memory

The three zeroizers and the choice between them.  Two are a memset; the third stores one
byte at a time through a moving pointer.
-/

namespace SecmemAlloc

variable {σ : Type}

/-- `precondition_memory_range!`: two `mirai_annotations::precondition!`s, which compile to
nothing outside MIRAI. -/
def preconditionMemoryRange (_ptr : Ptr) (_len : ℕ) : Code σ Unit := pure ()

namespace Nightly

/-- `nightly::zeroize_mem`. -/
def zeroizeMem (ptr : Ptr) (len : ℕ) : Code σ Unit := do
  preconditionMemoryRange ptr len
  volatileSetMemory ptr 0 len

end Nightly

namespace AsmBarier

/-- `asm_barier::zeroize_mem`; the empty `asm!` block after the memset has no effect. -/
def zeroizeMem (ptr : Ptr) (len : ℕ) : Code σ Unit := do
  preconditionMemoryRange ptr len
  writeBytes ptr 0 len

end AsmBarier

namespace Fallback

variable (cfg : Cfg)

/-- The loop `for _i in 0..len` with `n` iterations to go. -/
def zeroizeLoop : ℕ → Ptr → Code σ Unit
  | 0, _ => pure ()
  | n + 1, ptr => do
    writeVolatile ptr 0
    let ptr ← ptrAdd cfg ptr 1
    zeroizeLoop n ptr

/-- `fallback::zeroize_mem`. -/
def zeroizeMem (ptr : Ptr) (len : ℕ) : Code σ Unit := do
  preconditionMemoryRange ptr len
  zeroizeLoop cfg len ptr

end Fallback

/-- The zeroizer the crate is built with. -/
def zeroizeMem (cfg : Cfg) (ptr : Ptr) (len : ℕ) : Code σ Unit :=
  if cfg.miri then Fallback.zeroizeMem cfg ptr len
  else if cfg.nightlyCoreIntrinsics then Nightly.zeroizeMem ptr len
  else AsmBarier.zeroizeMem ptr len

/-! ## All zeroizers clear the range and nothing else -/

variable {cfg : Cfg}

theorem Nightly.zeroizeMem_run (ptr : Ptr) (len : ℕ) (s : Machine σ) :
    (Nightly.zeroizeMem ptr len).run s = .ok ((), s.fill ptr len 0) := rfl

theorem AsmBarier.zeroizeMem_run (ptr : Ptr) (len : ℕ) (s : Machine σ) :
    (AsmBarier.zeroizeMem ptr len).run s = .ok ((), s.fill ptr len 0) := rfl

/-- The loop, from any pointer on: by induction on the iterations to go, the first store and
the stores of the rest make up one fill. -/
theorem Fallback.zeroizeLoop_run {n : ℕ} {ptr : Ptr} {s : Machine σ}
    (h : ptr.addr + n < 2 ^ cfg.pointerWidth) :
    (Fallback.zeroizeLoop cfg n ptr).run s = .ok ((), s.fill ptr n 0) := by
  induction n generalizing ptr s with
  | zero => rw [Machine.fill_zero]; rfl
  | succ n ih =>
    have hadd : (ptrAdd cfg ptr 1 : Code σ Ptr).run
        { s with mem := s.mem.store ptr.addr 0, log := s.log ++ [Access.mk .write ptr] } =
          .ok (ptr.offset 1, _) := ptrAdd_run (by omega)
    have hstore : (writeVolatile ptr 0 : Code σ Unit).run s = .ok ((),
        { s with mem := s.mem.store ptr.addr 0, log := s.log ++ [Access.mk .write ptr] }) := rfl
    have hrest : (ptr.offset 1).addr + n < 2 ^ cfg.pointerWidth := by
      rw [Ptr.offset_addr]
      omega
    rw [Fallback.zeroizeLoop, Exec.run_bind_ok hstore, Exec.run_bind_ok hadd, ih hrest]
    simp only [Machine.fill, accesses_succ, Memory.fill_succ, Ptr.offset_addr,
      List.append_assoc, List.singleton_append]

theorem Fallback.zeroizeMem_run {ptr : Ptr} {len : ℕ} (s : Machine σ)
    (h : ptr.addr + len < 2 ^ cfg.pointerWidth) :
    (Fallback.zeroizeMem cfg ptr len).run s = .ok ((), s.fill ptr len 0) :=
  Fallback.zeroizeLoop_run h

theorem zeroizeMem_run {ptr : Ptr} {len : ℕ} (s : Machine σ)
    (h : ptr.addr + len < 2 ^ cfg.pointerWidth) :
    (zeroizeMem cfg ptr len).run s = .ok ((), s.fill ptr len 0) := by
  simp only [zeroizeMem]
  split
  · exact Fallback.zeroizeMem_run s h
  · split
    · exact Nightly.zeroizeMem_run ptr len s
    · exact AsmBarier.zeroizeMem_run ptr len s

/-- **Agreement of the zeroizers.**  If the range does not end past `usize::MAX`, all three
return, the byte loop without its pointer wrapping, after writing every address of the range
once and no other, and leave the same memory: zero in the range and unchanged outside it. -/
theorem zeroizers_agree {ptr : Ptr} {len : ℕ} (s : Machine σ)
    (h : ptr.addr + len ≤ cfg.usizeMax) :
    ∃ ws mem,
      (Fallback.zeroizeMem cfg ptr len).run s = .ok ((), ⟨s.self, mem, s.log ++ ws⟩) ∧
      (AsmBarier.zeroizeMem ptr len).run s = .ok ((), ⟨s.self, mem, s.log ++ ws⟩) ∧
      (Nightly.zeroizeMem ptr len).run s = .ok ((), ⟨s.self, mem, s.log ++ ws⟩) ∧
      (∀ a ∈ ws, a.kind = .write) ∧
      (∀ x, (ws.map fun a => a.ptr.addr).count x =
        if ptr.addr ≤ x ∧ x < ptr.addr + len then 1 else 0) ∧
      ∀ x, mem x = if ptr.addr ≤ x ∧ x < ptr.addr + len then 0 else s.mem x := by
  refine ⟨accesses .write ptr len, s.mem.fill ptr.addr len 0, ?_, ?_, ?_, ?_, ?_, ?_⟩
  · exact Fallback.zeroizeMem_run s (Cfg.lt_two_pow_of_le_usizeMax h)
  · exact AsmBarier.zeroizeMem_run ptr len s
  · exact Nightly.zeroizeMem_run ptr len s
  · intro a ha
    exact kind_of_mem_accesses ha
  · intro x
    exact count_addr_accesses .write ptr len x
  · intro x
    rfl

/-- Three bytes at an odd address. -/
theorem zeroizers_agree_three :
    ∃ mem : Memory UInt8, mem 11 = 0 ∧ mem 12 = 7 ∧ ∃ ws : List Access,
      (Fallback.zeroizeMem ⟨64, true, true, true, false, true⟩ ⟨9, 9, 12⟩ 3).run
        (⟨(), fun _ => 7, []⟩ : Machine Unit) = .ok ((), ⟨(), mem, ws⟩) := by
  obtain ⟨ws, mem, hrun, -, -, -, -, hmem⟩ :=
    @zeroizers_agree Unit ⟨64, true, true, true, false, true⟩ ⟨9, 9, 12⟩ 3
      ⟨(), fun _ => 7, []⟩ (by decide)
  refine ⟨mem, ?_, ?_, ws, hrun⟩
  · rw [hmem]
    rfl
  · rw [hmem]
    rfl

end SecmemAlloc
