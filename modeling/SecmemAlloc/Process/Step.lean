import SecmemAlloc.Internals.Unix
import SecmemAlloc.Rust.Contract
import SecmemAlloc.SecAlloc.DropCheck
import SecmemAlloc.SecAlloc.Locality

/-!
# A process with many allocators

The allocators of a process share its memory and the system.  They are made and dropped at any
time, their clients call them in any order, and the rest of the process goes on meanwhile.
The process is a pool of tenants, and what the system may do is kept out of their pages by
the contract of the backend.
-/

namespace SecmemAlloc

variable {cfg : Cfg} {ω ε : Type}

/-! ## Going out of scope -/

/-- Run a program on the second of two cells. -/
def Code.liftSnd {α β γ : Type} (x : Code γ α) : Code (β × γ) α := fun m =>
  (x.run ⟨m.self.2, m.mem, m.log⟩).map fun r => (r.1, ⟨(m.self.1, r.2.self), r.2.mem, r.2.log⟩)

/-- What happens when an allocator goes out of scope: its own `drop`, then that of its page. -/
def SecStackSinglePageAlloc.dropGlue (B : PageBackend ω ε) :
    Code (SecStackSinglePageAlloc cfg × ω) Unit := do
  Code.lift (SecStackSinglePageAlloc.drop cfg)
  let m ← get
  Code.liftSnd (B.drop m.self.1.page.raw)

namespace SecStackSinglePageAlloc

variable {B : PageBackend ω ε} {m : Machine (SecStackSinglePageAlloc cfg × ω)}

/-- What the check of `drop` asks for. -/
def Checked (alloc : SecStackSinglePageAlloc cfg) (mem : Memory UInt8) : Prop :=
  cfg.debugAssertions = true → alloc.bytes = 0 ∧ alloc.page.Zeroed mem

/-- An allocator that fails the check stops the process. -/
theorem dropGlue_of_not_checked (h : ¬ m.self.1.Checked m.mem) :
    (dropGlue B).run m = .error (dropFault cfg) := by
  obtain ⟨hdebug, hclean⟩ := Classical.not_imp.1 h
  have hdrop := drop_run (⟨m.self.1, m.mem, m.log⟩ : SecMachine cfg)
  rw [if_pos hdebug, if_neg hclean] at hdrop
  apply Exec.run_bind_error
  show ((SecStackSinglePageAlloc.drop cfg).run ⟨m.self.1, m.mem, m.log⟩).map _ = _
  rw [hdrop]
  rfl

/-- An allocator that passes the check gives its page back. -/
theorem dropGlue_of_checked (h : m.self.1.Checked m.mem) : ∃ log, (dropGlue B).run m =
    ((B.drop m.self.1.page.raw).run ⟨m.self.2, m.mem, log⟩).map
      fun r => (r.1, ⟨(m.self.1, r.2.self), r.2.mem, r.2.log⟩) := by
  have hdrop : ∃ log, (SecStackSinglePageAlloc.drop cfg).run ⟨m.self.1, m.mem, m.log⟩ =
      .ok ((), ⟨m.self.1, m.mem, log⟩) := by
    rw [drop_run]
    by_cases hdebug : cfg.debugAssertions = true
    · rw [if_pos hdebug, if_pos (h hdebug)]
      exact ⟨_, rfl⟩
    · rw [if_neg hdebug]
      exact ⟨_, rfl⟩
  obtain ⟨log, hdrop⟩ := hdrop
  exact ⟨log, Exec.run_bind_ok (Code.lift_run hdrop)⟩

/-- What an allocator that went out of scope has left. -/
theorem of_dropGlue_ok {m' : Machine (SecStackSinglePageAlloc cfg × ω)}
    (h : (dropGlue B).run m = .ok ((), m')) :
    m.self.1.Checked m.mem ∧
      ∃ log n, (B.drop m.self.1.page.raw).run ⟨m.self.2, m.mem, log⟩ = .ok ((), n) ∧
        n.self = m'.self.2 ∧ n.mem = m'.mem := by
  by_cases hcheck : m.self.1.Checked m.mem
  swap
  · rw [dropGlue_of_not_checked hcheck] at h
    cases h
  obtain ⟨log, hglue⟩ := dropGlue_of_checked (B := B) hcheck
  rw [hglue] at h
  refine ⟨hcheck, log, ?_⟩
  rcases hrun : (B.drop m.self.1.page.raw).run ⟨m.self.2, m.mem, log⟩ with f | ⟨u, n⟩
  · rw [hrun] at h
    cases h
  · rw [hrun] at h
    cases h
    exact ⟨n, rfl, rfl, rfl⟩

end SecStackSinglePageAlloc

/-! ## The process and its steps -/

/-- The system, the memory, and the live allocators with the blocks their clients hold. -/
structure Process (cfg : Cfg) (ω : Type) where
  sys : ω
  mem : Memory UInt8
  tenants : Ledger (Tenant cfg)

/-- What can happen in a process.  Allocators go by names. -/
inductive ProcessEvent (cfg : Cfg)
  /-- `SecStackSinglePageAlloc::new` returns an allocator. -/
  | create (i : ℕ)
  /-- `SecStackSinglePageAlloc::new` returns an error. -/
  | createFailed
  /-- A call of allocator `i`, or a write to one of its blocks. -/
  | call (i : ℕ) (e : Event cfg)
  /-- Allocator `i` goes out of scope. -/
  | drop (i : ℕ)
  /-- Anything else. -/
  | other

namespace Process

variable (P : Process cfg ω)

/-- The pages of the live allocators. -/
def pages : Ledger (Page cfg) := P.tenants.map fun t => t.alloc.page

/-- Allocator `i` with the blocks its clients hold. -/
def heap (i : ℕ) : Heap cfg := (P.tenants.block i).heap P.mem

/-- The machine a call of the system starts from. -/
def machine : Machine ω := ⟨P.sys, P.mem, []⟩

/-- The machine on which allocator `i` goes out of scope. -/
def dropMachine (i : ℕ) : Machine (SecStackSinglePageAlloc cfg × ω) :=
  ⟨((P.tenants.block i).alloc, P.sys), P.mem, []⟩

/-- The steps of a process whose pages come from `B`.  `Rep` is the invariant of the backend,
which the rest of the process keeps, as it keeps off the pages of the allocators. -/
inductive Step (B : PageBackend ω ε) (Rep : Ledger (Page cfg) → ω → Memory UInt8 → Prop)
    (P : Process cfg ω) : ProcessEvent cfg → Process cfg ω → Prop
  | create {i : ℕ} {page : Page cfg} {m : Machine ω} {alloc : SecStackSinglePageAlloc cfg}
      (hi : i ∉ P.tenants.live) (hrun : B.allocNewLock.run P.machine = .ok (.ok page.raw, m))
      (hnew : SecStackSinglePageAlloc.new (.ok page : Except ε (Page cfg)) = .ok alloc) :
      Step B Rep P (.create i)
        ⟨m.self, m.mem, P.tenants.insert i ⟨alloc, (Heap.new page m.mem).ledger⟩⟩
  | createFailed {e : ε} {m : Machine ω}
      (hrun : B.allocNewLock.run P.machine = .ok (.error e, m)) :
      Step B Rep P .createFailed ⟨m.self, m.mem, P.tenants⟩
  | call {i : ℕ} {e : Event cfg} {h : Heap cfg} (hi : i ∈ P.tenants.live)
      (hstep : (P.heap i).Step e h) :
      Step B Rep P (.call i e) ⟨P.sys, h.mem, P.tenants.insert i h.tenant⟩
  | drop {i : ℕ} {m : Machine (SecStackSinglePageAlloc cfg × ω)} (hi : i ∈ P.tenants.live)
      (hrun : (SecStackSinglePageAlloc.dropGlue B).run (P.dropMachine i) = .ok ((), m)) :
      Step B Rep P (.drop i) ⟨m.self.2, m.mem, P.tenants.erase i⟩
  | other {k : ω} {mem : Memory UInt8} (hrep : Rep P.pages k mem)
      (hkeep : P.pages.Kept P.mem mem) : Step B Rep P .other ⟨k, mem, P.tenants⟩

/-- A process without allocators. -/
structure Fresh (Rep : Ledger (Page cfg) → ω → Memory UInt8 → Prop) : Prop where
  live_eq : P.tenants.live = ∅
  rep : Rep P.pages P.sys P.mem

/-! ## The process is a pool -/

/-- The tenants and the memory they share. -/
def pool : Pool (Tenant cfg) UInt8 := ⟨P.tenants, P.mem⟩

end Process

/-- What the event is to the pool. -/
def ProcessEvent.toPool : ProcessEvent cfg → PoolEvent (Event cfg)
  | .create i => .join i
  | .createFailed => .other
  | .call i e => .act i e
  | .drop i => .leave i
  | .other => .other

/-- A tenant that has just been made, on a page of zeros. -/
def Tenant.Init (t : Tenant cfg) (mem : Memory UInt8) : Prop :=
  ∃ page : Page cfg, page.Zeroed mem ∧ t = (Heap.new page mem).tenant

theorem Tenant.WellFormed.new (page : Page cfg) {mem : Memory UInt8} :
    (Heap.new page mem).tenant.WellFormed := fun n => Heap.new_wellFormed page n

theorem Tenant.Init.wellFormed {t : Tenant cfg} {mem : Memory UInt8} (h : t.Init mem) :
    t.WellFormed := by
  obtain ⟨page, -, rfl⟩ := h
  exact .new page

theorem Page.raw_injective : Function.Injective (Page.raw : Page cfg → RawPage) := by
  intro page page' h
  obtain ⟨hptr, hsize⟩ := RawPage.mk.inj h
  have haddr : page.pagePtr = page'.pagePtr := congrArg (fun p => p.asPtr.addr) hptr
  cases page
  cases page'
  cases hsize
  cases haddr
  rfl

namespace Process

variable {P Q : Process cfg ω} {B : PageBackend ω ε}
  {Rep : Ledger (Page cfg) → ω → Memory UInt8 → Prop}

/-- The invariant limits the rest of the process only. -/
theorem Step.mono {Rep' : Ledger (Page cfg) → ω → Memory UInt8 → Prop}
    (h : ∀ L k mem, Rep L k mem → Rep' L k mem) {e : ProcessEvent cfg} (hstep : Step B Rep P e Q) :
    Step B Rep' P e Q := by
  cases hstep with
  | create hi hrun hnew => exact .create hi hrun hnew
  | createFailed hrun => exact .createFailed hrun
  | call hi hstep => exact .call hi hstep
  | drop hi hrun => exact .drop hi hrun
  | other hrep hkeep => exact .other (h _ _ _ hrep) hkeep

/-- Every step of the process is one of the pool, and keeps the invariant of the backend. -/
theorem Step.pool (hB : B.Contract Rep) (hrep : Rep P.pages P.sys P.mem)
    (hsep : P.pool.Separate Tenant.component Tenant.WellFormed) {e : ProcessEvent cfg}
    (hstep : Step B Rep P e Q) :
    Rep Q.pages Q.sys Q.mem ∧
      Pool.Step Tenant.component Tenant.Init P.pool e.toPool Q.pool := by
  cases hstep with
  | @create i page m alloc hi hrun hnew =>
    obtain ⟨hkeep, page', hobtains⟩ := hB.alloc_ok hrep hi hrun
    obtain rfl := Page.raw_injective hobtains.raw_eq
    obtain rfl : ⟨0, page, 0⟩ = alloc := Except.ok.inj hnew
    refine ⟨?_, .join hi ⟨page, ?_, rfl⟩ hobtains.disjoint ?_⟩
    · rw [pages, Ledger.map_insert]
      exact hobtains.rep
    · intro a hlo hhi
      exact hobtains.zero a (Page.mem_range.2 ⟨hlo, hhi⟩)
    · intro j hj _
      exact hkeep j hj
  | createFailed hrun =>
    obtain ⟨hkeep, hrep'⟩ := hB.alloc_error hrep hrun
    exact ⟨hrep', .other hkeep⟩
  | @call i e h hi hstep =>
    have hact : P.pool.Act Tenant.component (i, e)
        ⟨P.tenants.insert i h.tenant, h.mem⟩ := ⟨hi, (h.tenant, h.mem), hstep, rfl⟩
    refine ⟨?_, .act hact⟩
    have hw : (P.tenants.block i).WellFormed := hsep.inv i hi
    have hpage : h.alloc.page = P.pages.block i :=
      (Heap.Step.effect (hw P.mem) hstep).page_eq
    have hpages : (P.tenants.insert i h.tenant).map (fun t => t.alloc.page) = P.pages := by
      rw [Ledger.map_insert]
      show P.pages.insert i h.alloc.page = _
      rw [hpage]
      exact Ledger.insert_block_self hi
    rw [pages, hpages]
    refine hB.client hrep fun a ha => ?_
    exact Tenant.isLocal.frame (x := (P.tenants.block i, P.mem)) (y := (h.tenant, h.mem)) hw hstep
      (ha i hi)
  | @drop i m hi hrun =>
    obtain ⟨-, log, n, hdrop, hself, hmem⟩ := SecStackSinglePageAlloc.of_dropGlue_ok hrun
    obtain ⟨hkeep, hrep'⟩ := hB.drop_ok (L := P.pages) (m := ⟨P.sys, P.mem, log⟩) hrep hi hdrop
    rw [hself, hmem] at hrep'
    rw [hmem] at hkeep
    refine ⟨?_, .leave ?_⟩
    · rw [pages, Ledger.map_erase]
      exact hrep'
    · intro j hj hji
      exact hkeep j (Finset.mem_erase.2 ⟨hji, hj⟩)
  | other hrep' hkeep => exact ⟨hrep', .other hkeep⟩

/-- Every run of the process is one of the pool, from wherever its invariants hold. -/
theorem run_pool_from (hB : B.Contract Rep) (hrep : Rep P.pages P.sys P.mem)
    (hsep : P.pool.Separate Tenant.component Tenant.WellFormed) {es : List (ProcessEvent cfg)}
    (hrun : Run (Step B Rep) P es Q) :
    Rep Q.pages Q.sys Q.mem ∧ Q.pool.Separate Tenant.component Tenant.WellFormed ∧
      Run (Pool.Step Tenant.component Tenant.Init) P.pool (es.map ProcessEvent.toPool) Q.pool := by
  induction hrun with
  | nil => exact ⟨hrep, hsep, .nil _⟩
  | snoc _ hlast ih =>
    obtain ⟨hrep', hsep', hrun⟩ := ih
    obtain ⟨hrep'', hstep⟩ := hlast.pool hB hrep' hsep'
    rw [List.map_append]
    exact ⟨hrep'', hsep'.step Tenant.isLocal (fun _ _ => Tenant.Init.wellFormed) hstep,
      hrun.snoc hstep⟩

theorem run_pool (hB : B.Contract Rep) (hP : P.Fresh Rep) {es : List (ProcessEvent cfg)}
    (hrun : Run (Step B Rep) P es Q) :
    Rep Q.pages Q.sys Q.mem ∧ Q.pool.Separate Tenant.component Tenant.WellFormed ∧
      Run (Pool.Step Tenant.component Tenant.Init) P.pool (es.map ProcessEvent.toPool) Q.pool :=
  run_pool_from hB hP.rep (.of_empty hP.live_eq) hrun

/-! ## A small process -/

open Heap (sampleCfg nineBytes)

/-- The page with number `n` of the small system. -/
def samplePage (n : ℕ) (hpos : 0 < n) (hend : 4096 * n + 4096 ≤ sampleCfg.usizeMax) :
    Page sampleCfg where
  pagePtr := 4096 * n
  pageSize := Heap.samplePage.pageSize
  isPowerOfTwo_pageSize := Heap.samplePage.isPowerOfTwo_pageSize
  eight_dvd_pageSize := Heap.samplePage.eight_dvd_pageSize
  pageSize_dvd_pagePtr := Nat.dvd_mul_right 4096 n
  pagePtr_pos := Nat.mul_pos (Nat.succ_pos 4095) hpos
  pageEnd_le := hend

/-- An allocator that was just made on that page. -/
def sampleTenant (n : ℕ) (hpos : 0 < n) (hend : 4096 * n + 4096 ≤ sampleCfg.usizeMax) :
    Tenant sampleCfg := (Heap.new (samplePage n hpos hend) fun _ => 0).tenant

/-- A process without allocators that has mapped two pages, of which one is locked. -/
def sampleStart : Process sampleCfg SmallKernel :=
  ⟨⟨[1, 2], [1], 4⟩, fun _ => 5, ⟨∅, fun _ => sampleTenant 1 (by decide) (by decide)⟩⟩

/-- The process with two allocators. -/
def sampleMade : Process sampleCfg SmallKernel where
  sys := ⟨[4, 3, 1, 2], [4, 3, 1], 4⟩
  mem := (sampleStart.mem.fill 12288 4096 0).fill 16384 4096 0
  tenants := (sampleStart.tenants.insert 0 (sampleTenant 3 (by decide) (by decide))).insert 1
    (sampleTenant 4 (by decide) (by decide))

/-- A client of allocator `i` asks for nine bytes. -/
def sampleCall (Q : Process sampleCfg SmallKernel) (i : ℕ) : ℕ × Event sampleCfg :=
  (i, .allocate false 0 nineBytes,
    some (.ok (Exact.freshSlice (Q.tenants.block i).alloc nineBytes)))

/-- The process after that call. -/
def sampleCalled (Q : Process sampleCfg SmallKernel) (i : ℕ) : Process sampleCfg SmallKernel :=
  { Q with tenants := Q.tenants.insert i ((Q.heap i).place 0 nineBytes).tenant }

abbrev sampleBackend : PageBackend SmallKernel (Unix.PageAllocError Unit) :=
  Unix.backend .other (Unix.smallKernel sampleCfg)

abbrev sampleRep (L : Ledger (Page sampleCfg)) (k : SmallKernel) (_ : Memory UInt8) : Prop :=
  SmallKernel.table.Holds 4096 (SmallKernel.table.mapped sampleStart.sys)
    (SmallKernel.table.locked sampleStart.sys) L k

theorem sampleContract : sampleBackend.Contract sampleRep :=
  Unix.backend_contract (Unix.smallKernel_lawful sampleCfg) .other _ _

theorem sampleFresh : sampleStart.Fresh sampleRep :=
  ⟨rfl, .of_empty rfl, .of_empty rfl, fun i hi => absurd hi (Finset.notMem_empty i)⟩

/-- The process with one allocator. -/
def sampleOne : Process sampleCfg SmallKernel where
  sys := ⟨[3, 1, 2], [3, 1], 4⟩
  mem := sampleStart.mem.fill 12288 4096 0
  tenants := sampleStart.tenants.insert 0 (sampleTenant 3 (by decide) (by decide))

theorem sampleOne_step : Step sampleBackend sampleRep sampleStart (.create 0) sampleOne :=
  @Step.create _ _ _ _ _ _ 0 (samplePage 3 (by decide) (by decide)) sampleOne.machine _
    (by decide) rfl rfl

theorem sampleMade_run : Run (Step sampleBackend sampleRep) sampleStart [.create 0, .create 1]
    sampleMade := by
  have htwo : Step sampleBackend sampleRep sampleOne (.create 1) sampleMade :=
    @Step.create _ _ _ _ _ _ 1 (samplePage 4 (by decide) (by decide)) sampleMade.machine _
      (by decide) rfl rfl
  exact .snoc (.snoc (.nil _) sampleOne_step) htwo

theorem sampleCalled_step : Step sampleBackend sampleRep sampleMade
    (.call 0 (sampleCall sampleMade 0).2) (sampleCalled sampleMade 0) :=
  .call (h := (sampleMade.heap 0).place 0 nineBytes) (by decide) ⟨by decide, rfl⟩

theorem sampleCalled_step' : Step sampleBackend sampleRep (sampleCalled sampleMade 0)
    (.call 1 (sampleCall sampleMade 1).2) (sampleCalled (sampleCalled sampleMade 0) 1) :=
  .call (h := ((sampleCalled sampleMade 0).heap 1).place 0 nineBytes) (by decide) ⟨by decide, rfl⟩

/-- The names of the allocators do not change when they are called. -/
theorem sampleRun : Run (Step sampleBackend sampleRep) sampleStart
    ([.create 0, .create 1] ++
      [(0, (sampleCall sampleMade 0).2), (1, (sampleCall sampleMade 1).2)].map
        fun e => .call e.1 e.2) (sampleCalled (sampleCalled sampleMade 0) 1) :=
  (sampleMade_run.snoc sampleCalled_step).snoc sampleCalled_step'

end Process

end SecmemAlloc
