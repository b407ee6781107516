import SecmemAlloc.SecAlloc.DropCheck
import SecmemAlloc.SecAlloc.Zeroization

/-!
# Draining and the leak check

Once no block with bytes is live, whatever the order in which the blocks were given back,
the allocator and the memory are what they were at the start.  The check on drop tells the
two situations apart.
-/

namespace SecmemAlloc

variable {cfg : Cfg}

namespace Heap

variable {h : Heap cfg} {page : Page cfg} {mem : Memory UInt8} {es : List (Event cfg)}

/-- The allocator counts no bytes exactly when no live block has any. -/
theorem WellFormed.bytes_eq_zero_iff (hw : h.WellFormed) :
    h.alloc.bytes = 0 ↔ ∀ i ∈ h.ledger.live, (h.ledger.block i).size = 0 := by
  rw [hw.bytes_eq, Ledger.total_eq_zero_iff]
  constructor
  · intro hall i hi
    exact (hw.len_eq_zero_iff hi).1 (hall i hi)
  · intro hall i hi
    exact (hw.len_eq_zero_iff hi).2 (hall i hi)

/-- Without live bytes the heap has the cells and the memory of a new one. -/
theorem run_drained (hzero : page.Zeroed mem) (hrun : Run Step (new page mem) es h)
    (hnone : ∀ i ∈ h.ledger.live, (h.ledger.block i).size = 0) :
    h.machine = (new page mem).machine := by
  have hw := run_wellFormed hrun
  have hbytes := hw.bytes_eq_zero_iff.2 hnone
  have hmem : h.mem = mem := by
    funext a
    apply run_clean hzero hrun a
    intro i hi ha
    have hlen := (hw.len_eq_zero_iff hi).2 (hnone i hi)
    rw [Block.mem_span] at ha
    omega
  have halloc : h.alloc = (new page mem).alloc := by
    show SecStackSinglePageAlloc.mk h.alloc.bytes h.alloc.page h.alloc.stackOffset = _
    rw [hbytes, hw.reset hbytes, run_page_eq hrun]
    rfl
  rw [machine, hmem, halloc]
  rfl

/-- **Draining.**  A heap reached from `new` without live bytes has the cells and the memory
of a new one, and passes the check on drop; one with live bytes does not pass it. -/
theorem drain (hzero : page.Zeroed mem) (hrun : Run Step (new page mem) es h) :
    ((∀ i ∈ h.ledger.live, (h.ledger.block i).size = 0) →
      h.alloc.bytes = 0 ∧ h.alloc.stackOffset = 0 ∧ h.alloc.page = page ∧ h.mem = mem ∧
      (∀ (α : Type) (code : SecCode cfg α),
        code.run h.machine = code.run (new page mem).machine) ∧
      ∃ t, (SecStackSinglePageAlloc.drop cfg).run h.machine = .ok ((), t)) ∧
    ((∃ i ∈ h.ledger.live, (h.ledger.block i).size ≠ 0) → cfg.debugAssertions = true →
      (SecStackSinglePageAlloc.drop cfg).run h.machine =
        .error (if cfg.std then .abort else .assertion)) := by
  have hw := run_wellFormed hrun
  constructor
  · intro hnone
    have hsame := run_drained hzero hrun hnone
    have halloc : h.alloc = (new page mem).alloc := congrArg Machine.self hsame
    have hmem : h.mem = mem := congrArg Machine.mem hsame
    refine ⟨by rw [halloc]; rfl, by rw [halloc]; rfl, by rw [halloc]; rfl, hmem, ?_, ?_⟩
    · intro α code
      rw [hsame]
    · rw [hsame]
      exact SecStackSinglePageAlloc.drop_run_of_zeroed rfl hzero
  · rintro ⟨i, hi, hne⟩ hdebug
    have hbytes : h.alloc.bytes ≠ 0 := fun h0 => hne (hw.bytes_eq_zero_iff.1 h0 i hi)
    exact SecStackSinglePageAlloc.drop_run_of_leak hdebug hbytes

/-- The first block of the sample, given back. -/
def sampleDrained : Heap sampleCfg := ((sampleStart.place 0 nineBytes).store 0 3 7).release 0

theorem sampleDrained_run : Run Step sampleStart
    [(.allocate false 0 nineBytes, some (.ok (Exact.freshSlice sampleStart.alloc nineBytes))),
      (.write 0 3 7, none),
      (.deallocate 0 (Exact.freshSlice sampleStart.alloc nineBytes).cast nineBytes, none)]
    sampleDrained :=
  .snoc (.snoc (.snoc (.nil _) ⟨by decide, rfl⟩) ⟨by decide, rfl⟩) ⟨by decide, rfl⟩

/-- The run that gives its block back passes the check on drop, the other one does not. -/
theorem drain_sample :
    (∃ t, (SecStackSinglePageAlloc.drop sampleCfg).run sampleDrained.machine = .ok ((), t)) ∧
    (SecStackSinglePageAlloc.drop sampleCfg).run sampleEnd.machine = .error .abort := by
  constructor
  · obtain ⟨-, -, -, -, -, hdrop⟩ := (drain sampleStart_zeroed sampleDrained_run).1 (by decide)
    exact hdrop
  · exact (drain sampleStart_zeroed sampleRun).2 ⟨0, by decide, by decide⟩ rfl

end Heap

end SecmemAlloc
