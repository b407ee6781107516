import SecmemAlloc.Process.History
import SecmemAlloc.SecAlloc.Drain

/-!
# Allocators that go out of scope

In every process: what the check on drop finds, in which state a page goes back to the system,
and that in the end everything has gone back, in whatever order.
-/

namespace SecmemAlloc

variable {cfg : Cfg} {ω ε : Type}

/-- No block of the tenant has bytes. -/
def Tenant.Drained (t : Tenant cfg) : Prop := ∀ k ∈ t.ledger.live, (t.ledger.block k).size = 0

namespace Process

variable {P Q : Process cfg ω} {B : PageBackend ω ε}
  {Rep : Ledger (Page cfg) → ω → Memory UInt8 → Prop} {es : List (ProcessEvent cfg)} {i : ℕ}

/-- An allocator whose blocks were all given back has a page of zeros. -/
theorem zeroed_of_drained (hB : B.Contract Rep) (hP : P.Fresh Rep)
    (hrun : Run (Step B Rep) P es Q) (hi : i ∈ Q.tenants.live)
    (hdrained : (Q.tenants.block i).Drained) :
    (Q.tenants.block i).alloc.bytes = 0 ∧ (Q.tenants.block i).alloc.page.Zeroed Q.mem := by
  obtain ⟨t, mem₀, mem, ⟨page, hzero, rfl⟩, hsolo, hmem⟩ := solo hB hP hrun hi
  have halone := heap_run hsolo
  have hsame := Heap.run_drained hzero halone hdrained
  have halloc : (Q.tenants.block i).alloc = ⟨0, page, 0⟩ := congrArg Machine.self hsame
  refine ⟨by rw [halloc], fun a hlo hhi => ?_⟩
  have hbyte := hmem (show a ∈ (Q.tenants.block i).alloc.page.range from
    Page.mem_range.2 ⟨hlo, hhi⟩)
  have hstart : mem = mem₀ := congrArg Machine.mem hsame
  rw [halloc] at hlo hhi
  refine hbyte.symm.trans ?_
  rw [hstart]
  exact hzero a hlo hhi

/-- The check on drop is passed exactly by the allocators that have no live bytes. -/
theorem checked_iff (hB : B.Contract Rep) (hP : P.Fresh Rep)
    (hrun : Run (Step B Rep) P es Q) (hi : i ∈ Q.tenants.live) :
    (Q.tenants.block i).alloc.Checked Q.mem ↔
      (cfg.debugAssertions = true → (Q.tenants.block i).Drained) := by
  obtain ⟨-, hsep, -⟩ := run_pool hB hP hrun
  have hw : (Q.heap i).WellFormed := hsep.inv i hi Q.mem
  constructor
  · intro h hdebug
    exact hw.bytes_eq_zero_iff.1 (h hdebug).1
  · intro h hdebug
    exact zeroed_of_drained hB hP hrun hi (h hdebug)

/-- The system always takes a page back. -/
def Returns (B : PageBackend ω ε) (Rep : Ledger (Page cfg) → ω → Memory UInt8 → Prop) : Prop :=
  ∀ (L : Ledger (Page cfg)) (m : Machine ω), Rep L m.self m.mem → ∀ i ∈ L.live,
    ∃ m', (B.drop (L.block i).raw).run m = .ok ((), m')

/-- An allocator that passes the check can be dropped. -/
theorem exists_drop (hreturns : Returns B Rep) (hrep : Rep Q.pages Q.sys Q.mem)
    (hi : i ∈ Q.tenants.live) (hcheck : (Q.tenants.block i).alloc.Checked Q.mem) :
    ∃ sys mem, Step B Rep Q (.drop i) ⟨sys, mem, Q.tenants.erase i⟩ := by
  obtain ⟨log, hglue⟩ :=
    SecStackSinglePageAlloc.dropGlue_of_checked (B := B) (m := Q.dropMachine i) hcheck
  obtain ⟨m', hdrop⟩ := hreturns Q.pages ⟨Q.sys, Q.mem, log⟩ hrep i hi
  have hrun : (SecStackSinglePageAlloc.dropGlue B).run (Q.dropMachine i) =
      .ok ((), ⟨((Q.tenants.block i).alloc, m'.self), m'.mem, m'.log⟩) := by
    rw [hglue]
    show Except.map _ ((B.drop (Q.pages.block i).raw).run ⟨Q.sys, Q.mem, log⟩) = _
    rw [hdrop]
    rfl
  exact ⟨m'.self, m'.mem, .drop hi hrun⟩

/-- Distinct allocators that pass the check can be dropped one after the other. -/
theorem exists_drops (hB : B.Contract Rep) (hP : P.Fresh Rep) (hreturns : Returns B Rep)
    (hrun : Run (Step B Rep) P es Q) {order : List ℕ} (hnodup : order.Nodup)
    (hlive : ∀ i ∈ order, i ∈ Q.tenants.live)
    (hdrained : cfg.debugAssertions = true → ∀ i ∈ order, (Q.tenants.block i).Drained) :
    ∃ R, Run (Step B Rep) Q (order.map .drop) R ∧ R.tenants.block = Q.tenants.block ∧
      ∀ i, i ∈ R.tenants.live ↔ i ∈ Q.tenants.live ∧ i ∉ order := by
  induction order using List.reverseRecOn with
  | nil => exact ⟨Q, .nil Q, rfl, by simp⟩
  | append_singleton order j ih =>
    simp only [List.nodup_append, List.mem_append, List.mem_singleton] at *
    obtain ⟨hnodup', -, hj⟩ := hnodup
    obtain ⟨R, hdrops, hblock, hleft⟩ := ih hnodup' (fun i hi => hlive i (Or.inl hi))
      fun hdebug i hi => hdrained hdebug i (Or.inl hi)
    have hj' : j ∈ R.tenants.live :=
      (hleft j).2 ⟨hlive j (Or.inr rfl), fun hmem => hj j hmem j rfl rfl⟩
    -- the others have left the blocks of this one alone
    have hcheck : (R.tenants.block j).alloc.Checked R.mem := by
      rw [checked_iff hB hP (hrun.append hdrops) hj', hblock]
      exact fun hdebug => hdrained hdebug j (Or.inr rfl)
    obtain ⟨hrep, -⟩ := run_pool hB hP (hrun.append hdrops)
    obtain ⟨sys, mem, hstep⟩ := exists_drop hreturns hrep hj' hcheck
    refine ⟨⟨sys, mem, R.tenants.erase j⟩, ?_, hblock, fun i => ?_⟩
    · rw [List.map_append]
      exact hdrops.snoc hstep
    · simp only [Ledger.live_erase, Finset.mem_erase, hleft]
      tauto

/-- **Shutdown.**  In every process that a run leads to, all allocators can go out of scope in
every order, if no block has bytes or the build has no debug assertions, and the system always
takes pages back; in the end the system holds no page for them. -/
theorem shutdown (hB : B.Contract Rep) (hP : P.Fresh Rep) (hreturns : Returns B Rep)
    (hrun : Run (Step B Rep) P es Q) {order : List ℕ} (hnodup : order.Nodup)
    (horder : ∀ i, i ∈ order ↔ i ∈ Q.tenants.live)
    (hdrained : cfg.debugAssertions = true → ∀ i ∈ Q.tenants.live, (Q.tenants.block i).Drained) :
    ∃ R, Run (Step B Rep) Q (order.map .drop) R ∧ R.Fresh Rep := by
  obtain ⟨R, hdrops, -, hleft⟩ := exists_drops hB hP hreturns hrun hnodup
    (fun i hi => (horder i).1 hi) fun hdebug i hi => hdrained hdebug i ((horder i).1 hi)
  refine ⟨R, hdrops, ?_, (run_pool hB hP (hrun.append hdrops)).1⟩
  ext i
  rw [hleft, horder]
  simp

theorem sampleReturns : Returns sampleBackend sampleRep := fun _ _ hrep =>
  (Unix.returns (Unix.smallKernel_lawful Heap.sampleCfg) .other (fun m _ hp => by
    obtain ⟨m', hrun, -⟩ := Unix.smallKernel_munmap _ m hp
    exact ⟨m', hrun⟩) hrep).2

/-- The second allocator of the small process goes first. -/
theorem shutdown_sample : ∃ R, Run (Step sampleBackend sampleRep) sampleMade [.drop 1, .drop 0] R ∧
    R.Fresh sampleRep := by
  have hnone : ∀ i ∈ sampleMade.tenants.live, (sampleMade.tenants.block i).ledger.live = ∅ := by
    intro i hi
    rcases Finset.mem_insert.1 hi with rfl | hi
    · rfl
    · rcases Finset.mem_singleton.1 hi with rfl
      rfl
  have hnodup : [1, 0].Nodup := by decide
  refine shutdown sampleContract sampleFresh sampleReturns sampleMade_run hnodup (fun i => ?_)
    fun _ i hi k hk => absurd (hnone i hi ▸ hk) (Finset.notMem_empty k)
  simp [sampleMade, sampleStart]

end Process

end SecmemAlloc
