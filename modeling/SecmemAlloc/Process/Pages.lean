import SecmemAlloc.Process.Teardown

/-!
# The pages of a process

What the system sees of the allocators of a process: which pages they have mapped and locked,
and that what their clients keep secret is on these pages and nowhere else.
-/

namespace SecmemAlloc

variable {cfg : Cfg} {ω ε : Type}

namespace Process

/-- The pages of the live allocators. -/
def pageAddrs (P : Process cfg ω) : Set ℕ :=
  {p | ∃ i ∈ P.tenants.live, (P.tenants.block i).alloc.page.pagePtr = p}

/-- What is mapped for the rest of the process. -/
def otherMapped (T : PageTable ω) (P : Process cfg ω) : Set ℕ := T.mapped P.sys \ P.pageAddrs

/-- What is locked for the rest of the process. -/
def otherLocked (T : PageTable ω) (P : Process cfg ω) : Set ℕ := T.locked P.sys \ P.pageAddrs

variable {P Q R : Process cfg ω} {B : PageBackend ω ε} {T : PageTable ω} {n : ℕ}
  {es es' : List (ProcessEvent cfg)}

/-- A process without allocators, whatever it has mapped and locked. -/
theorem fresh_of_empty (hP : P.tenants.live = ∅) : P.Fresh fun L k _ =>
    ∃ base : Set ℕ × Set ℕ, T.Holds n base.1 base.2 L k :=
  ⟨hP, (_, _), .of_empty hP⟩

/-- What is mapped and locked in a process that a run leads to. -/
theorem holds_of_run
    (hB : ∀ base baseLocked, B.Contract
      fun (L : Ledger (Page cfg)) k _ => T.Holds n base baseLocked L k)
    (hP : P.tenants.live = ∅)
    (hrun : Run (Step B fun L k _ => ∃ base : Set ℕ × Set ℕ, T.Holds n base.1 base.2 L k) P es Q) :
    T.Holds n (otherMapped T Q) (otherLocked T Q) Q.pages Q.sys ∧
      Q.pool.Separate Tenant.component Tenant.WellFormed := by
  have hcontract : B.Contract fun L k _ => ∃ base : Set ℕ × Set ℕ, T.Holds n base.1 base.2 L k :=
    .exists fun base => hB base.1 base.2
  obtain ⟨⟨base, hrep⟩, hsep, -⟩ := run_pool hcontract (fresh_of_empty hP) hrun
  have hmapped : otherMapped T Q = base.1 := hrep.mapped.sdiff_keys
  have hlocked : otherLocked T Q = base.2 := hrep.locked.sdiff_keys
  rw [hmapped, hlocked]
  exact ⟨hrep, hsep⟩

/-- **Pages are not lost.**  On a backend that maps and locks pages, take any process that a run
leads to, whatever the rest of the process has mapped, unmapped, locked and unlocked meanwhile,
and from there on any run in which the rest leaves its own pages as they are.  Calls may fail,
but every page that is given back is taken; otherwise there is a panic, and no step.  At the end
the pages mapped and locked are those that the rest had and one for each live allocator; without
live allocators they are those of the rest. -/
theorem pages_of_process
    (hB : ∀ base baseLocked, B.Contract
      fun (L : Ledger (Page cfg)) k _ => T.Holds n base baseLocked L k)
    (hP : P.tenants.live = ∅)
    (hrun : Run (Step B fun L k _ => ∃ base : Set ℕ × Set ℕ, T.Holds n base.1 base.2 L k) P es Q)
    (hrun' : Run (Step B fun L k _ => T.Holds n (otherMapped T Q) (otherLocked T Q) L k) Q es' R) :
    T.mapped R.sys = otherMapped T Q ∪ R.pageAddrs ∧
    T.locked R.sys = otherLocked T Q ∪ R.pageAddrs ∧
    Disjoint (otherMapped T Q) R.pageAddrs ∧ Disjoint (otherLocked T Q) R.pageAddrs ∧
    (∀ i ∈ R.tenants.live, ∀ j ∈ R.tenants.live,
      (R.tenants.block i).alloc.page.pagePtr = (R.tenants.block j).alloc.page.pagePtr → i = j) ∧
    (R.tenants.live = ∅ → T.mapped R.sys = otherMapped T Q ∧ T.locked R.sys = otherLocked T Q) := by
  obtain ⟨hrep, hsep⟩ := holds_of_run hB hP hrun
  obtain ⟨hrep', -⟩ := run_pool_from (hB _ _) hrep hsep hrun'
  refine ⟨hrep'.mapped.eq_union, hrep'.locked.eq_union, hrep'.mapped.disjoint_keys,
    hrep'.locked.disjoint_keys, hrep'.mapped.inj, fun hempty => ?_⟩
  exact ⟨hrep'.mapped.eq_base hempty, hrep'.locked.eq_base hempty⟩

/-- The small process with one allocator, after the rest of it has unmapped a page. -/
def sampleShrunk : Process Heap.sampleCfg SmallKernel :=
  { sampleOne with sys := ⟨[3, 1], [3, 1], 4⟩ }

/-- That process with a second allocator. -/
def sampleAgain : Process Heap.sampleCfg SmallKernel where
  sys := ⟨[4, 3, 1], [4, 3, 1], 4⟩
  mem := sampleOne.mem.fill 16384 4096 0
  tenants := sampleMade.tenants

theorem sampleShrunk_holds :
    SmallKernel.table.Holds 4096 {4096} {4096} sampleOne.pages sampleShrunk.sys := by
  have hpages : sampleOne.pages =
      sampleStart.pages.insert 0 (samplePage 3 (by decide) (by decide)) := Ledger.map_insert _
  have howns : sampleOne.pages.Owns Page.pagePtr {4096} {12288, 4096} := by
    rw [hpages]
    exact (Ledger.Owns.of_empty rfl).insert (Finset.notMem_empty 0) (by decide : 12288 ∉ _)
  have hmapped : SmallKernel.table.mapped sampleShrunk.sys = {12288, 4096} := by
    ext p
    simp [SmallKernel.table, sampleShrunk, eq_comm]
  have hlocked : SmallKernel.table.locked sampleShrunk.sys = {12288, 4096} := by
    ext p
    simp [SmallKernel.table, sampleShrunk, eq_comm]
  refine ⟨hmapped ▸ howns, hlocked ▸ howns, fun i hi => ?_⟩
  rw [hpages] at hi ⊢
  obtain rfl : i = 0 := by simpa [sampleStart, pages] using hi
  rfl

/-- One page was unmapped and one was mapped, and the others are still there. -/
theorem pages_of_process_sample : SmallKernel.table.mapped sampleAgain.sys =
    otherMapped SmallKernel.table sampleShrunk ∪ sampleAgain.pageAddrs := by
  have hone : Step sampleBackend (fun L k _ => ∃ base : Set ℕ × Set ℕ,
      SmallKernel.table.Holds 4096 base.1 base.2 L k) sampleStart (.create 0) sampleOne :=
    sampleOne_step.mono fun L k _ h => ⟨(_, _), h⟩
  have hother : Step sampleBackend (fun L k _ => ∃ base : Set ℕ × Set ℕ,
      SmallKernel.table.Holds 4096 base.1 base.2 L k) sampleOne .other sampleShrunk :=
    .other ⟨({4096}, {4096}), sampleShrunk_holds⟩ fun _ _ _ _ => rfl
  have hagain : Step sampleBackend (fun L k _ => SmallKernel.table.Holds 4096
      (otherMapped SmallKernel.table sampleShrunk) (otherLocked SmallKernel.table sampleShrunk) L k)
      sampleShrunk (.create 1) sampleAgain :=
    @Step.create _ _ _ _ _ _ 1 (samplePage 4 (by decide) (by decide)) sampleAgain.machine _
      (by decide) rfl rfl
  have hB := Unix.backend_contract (Unix.smallKernel_lawful Heap.sampleCfg) .other
  exact (pages_of_process hB rfl (.snoc (.snoc (.nil _) hone) hother) (.snoc (.nil _) hagain)).1

/-- **Secrets are on locked pages.**  On a backend that maps and locks pages, and whatever the
rest of the process maps and unmaps elsewhere, in every process that a run leads to each byte of
each live block lies on a page that is mapped and locked, of no other allocator, and all bytes
of that page that are in no live block are zero. -/
theorem blocks_locked
    (hB : ∀ base baseLocked, B.Contract
      fun (L : Ledger (Page cfg)) k _ => T.Holds n base baseLocked L k)
    (hP : P.tenants.live = ∅)
    (hrun : Run (Step B fun L k _ => ∃ base : Set ℕ × Set ℕ, T.Holds n base.1 base.2 L k) P es Q)
    {i : ℕ} (hi : i ∈ Q.tenants.live) :
    ∃ p ∈ T.mapped Q.sys ∩ T.locked Q.sys,
      (∀ k ∈ (Q.tenants.block i).ledger.live, ∀ a ∈ ((Q.tenants.block i).ledger.block k).span,
        p ≤ a ∧ a < p + n) ∧
      (∀ j ∈ Q.tenants.live, j ≠ i → ∀ k ∈ (Q.tenants.block j).ledger.live,
        ∀ a ∈ ((Q.tenants.block j).ledger.block k).span, ¬ (p ≤ a ∧ a < p + n)) ∧
      ∀ a, p ≤ a → a < p + n → (Q.tenants.block i).ledger.Free Block.span a → Q.mem a = 0 := by
  obtain ⟨hrep, hsep⟩ := holds_of_run hB hP hrun
  have hsize : (Q.tenants.block i).alloc.page.pageSize = n := hrep.pageSize_eq i hi
  have hrange : ∀ a, a ∈ (Q.tenants.block i).alloc.page.range ↔
      (Q.tenants.block i).alloc.page.pagePtr ≤ a ∧
        a < (Q.tenants.block i).alloc.page.pagePtr + n := fun a => hsize ▸ Page.mem_range
  have hw : ∀ j ∈ Q.tenants.live, (Q.heap j).WellFormed := fun j hj => hsep.inv j hj Q.mem
  refine ⟨(Q.tenants.block i).alloc.page.pagePtr,
    ⟨hrep.mapped.key_mem hi, hrep.locked.key_mem hi⟩, ?_, ?_, ?_⟩
  · intro k hk a ha
    exact (hrange a).1 ((hw i hi).mem_range hk ha)
  · intro j hj hji k hk a ha hmem
    have hdisj := hsep.disjoint j hj i hi hji
    exact Set.disjoint_left.1 hdisj ((hw j hj).mem_range hk ha) ((hrange a).2 hmem)
  · intro a hlo hhi hfree
    obtain ⟨t, mem₀, mem, ⟨page, hzero, rfl⟩, hsolo, hmem⟩ :=
      solo (.exists fun base : Set ℕ × Set ℕ => hB base.1 base.2) (fresh_of_empty hP) hrun hi
    have halone := heap_run hsolo
    have hpage : (Q.tenants.block i).alloc.page = page := Heap.run_page_eq halone
    have ha := (hrange a).2 ⟨hlo, hhi⟩
    refine (hmem ha).symm.trans ((Heap.run_clean hzero halone a hfree).trans ?_)
    obtain ⟨hlo', hhi'⟩ := Page.mem_range.1 (hpage ▸ ha)
    exact hzero a hlo' hhi'

/-- The first allocator of the small process, after the calls of both. -/
theorem blocks_locked_sample :
    ∃ p ∈ SmallKernel.table.locked (sampleCalled (sampleCalled sampleMade 0) 1).sys,
      p ≤ 12303 ∧ 12303 < p + 4096 := by
  have hrun : Run (Step sampleBackend fun L k _ => ∃ base : Set ℕ × Set ℕ,
      SmallKernel.table.Holds 4096 base.1 base.2 L k) sampleStart _ _ :=
    sampleRun.mono fun _ _ _ => Step.mono fun L k _ h => ⟨(_, _), h⟩
  obtain ⟨p, ⟨-, hlocked⟩, hblocks, -⟩ := blocks_locked
    (Unix.backend_contract (Unix.smallKernel_lawful Heap.sampleCfg) .other) rfl hrun
    (i := 0) (by decide)
  exact ⟨p, hlocked, hblocks 0 (by decide) 12303 ⟨by decide, by decide⟩⟩

end Process

end SecmemAlloc
