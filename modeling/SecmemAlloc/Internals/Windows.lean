import SecmemAlloc.Internals.SmallKernel
import SecmemAlloc.SecAlloc.Effect

/-!
# Pages on windows

`mem/windows.rs`: regions of one page, reserved and committed at once, and locked.  The
regions of one page are what is called mapped here; releasing frees a whole region, so it
gives back what one call of `VirtualAlloc` gave.
-/

namespace SecmemAlloc

variable {ω ε : Type}

/-- `VIRTUAL_ALLOCATION_TYPE`. -/
inductive AllocationType
  | memReserve
  | memCommit
deriving DecidableEq, Repr

/-- `PAGE_PROTECTION_FLAGS`. -/
inductive PageProtection
  | pageReadwrite
deriving DecidableEq, Repr

/-- `VIRTUAL_FREE_TYPE`. -/
inductive FreeType
  | memRelease
deriving DecidableEq, Repr

/-- The calls of the `windows` crate.  `ω` are the states of the system, `ε` is its `Error`. -/
structure Win32 (ω ε : Type) where
  /-- The field `dwPageSize` that `GetSystemInfo` fills in. -/
  dwPageSize : ℕ
  /-- The pointer is null when the call fails. -/
  virtualAlloc : Option Ptr → ℕ → Finset AllocationType → PageProtection → Code ω Ptr
  virtualLock : Ptr → ℕ → Code ω (Except ε Unit)
  virtualFree : Ptr → ℕ → FreeType → Code ω (Except ε Unit)

namespace Windows

/-- `PageAllocError`. -/
inductive PageAllocError (ε : Type)
  | virtualAlloc
  | virtualLock (e : ε)
deriving DecidableEq, Repr

variable (cfg : Cfg) (sys : Win32 ω ε)

/-- `page_size`, with the cast to `usize`. -/
def pageSize : ℕ := sys.dwPageSize % 2 ^ cfg.pointerWidth

/-- `Page::alloc_new`. -/
def allocNew : Code ω (Except Unit RawPage) := do
  let pageSize := pageSize cfg sys
  let allocType := {.memReserve, .memCommit}
  let protect := .pageReadwrite
  let pagePtr ← sys.virtualAlloc none pageSize allocType protect
  if pagePtr.isNull then pure (.error ())
  else do
    let pagePtr ← NonNull.newUnchecked pagePtr
    pure (.ok { pagePtr, pageSize })

/-- `Page::lock`. -/
def lock (page : RawPage) : Code ω (Except ε Unit) := sys.virtualLock page.asPtrMut page.pageSize

/-- `Drop for Page`; `unwrap` panics on an error. -/
def drop (page : RawPage) : Code ω Unit := do
  match ← sys.virtualFree page.asPtrMut 0 .memRelease with
  | .error _ => throw .assertion
  | .ok () => pure ()

/-- `Page::alloc_new_lock`. -/
def allocNewLock : Code ω (Except (PageAllocError ε) RawPage) := do
  match ← allocNew cfg sys with
  | .error () => pure (.error .virtualAlloc)
  | .ok page => do
    match ← lock sys page with
    | .error e => do
      -- the early return drops `page`
      drop sys page
      pure (.error (.virtualLock e))
    | .ok () => pure (.ok page)

/-- `mem` on windows. -/
def backend : PageBackend ω (PageAllocError ε) := ⟨allocNewLock cfg sys, drop sys⟩

/-- The calls of the backend, for pages of the size it uses. -/
def calls : PageCalls ω (PageAllocError ε) where
  pageSize := pageSize cfg sys
  map := do
    let p ← sys.virtualAlloc none (pageSize cfg sys) {.memReserve, .memCommit} .pageReadwrite
    if p.isNull then pure (.error .virtualAlloc) else pure (.ok p)
  lock p := do
    match ← sys.virtualLock p (pageSize cfg sys) with
    | .error e => pure (.error (.virtualLock e))
    | .ok () => pure (.ok ())
  unmap p := do
    match ← sys.virtualFree p 0 .memRelease with
    | .error _ => pure false
    | .ok () => pure true

theorem drop_eq (page : RawPage) : drop sys page = (calls cfg sys).drop page := by
  simp only [drop, PageCalls.drop, calls, bind_assoc]
  congr 1
  funext r
  rcases r with e | u <;> simp

theorem allocNewLock_eq : allocNewLock cfg sys = (calls cfg sys).allocNewLock := by
  simp only [allocNewLock, allocNew, PageCalls.allocNewLock, calls, bind_assoc]
  congr 1
  funext p
  by_cases hp : p.isNull = true
  · simp [hp]
  simp only [hp, Bool.false_eq_true, if_false, bind_assoc, pure_bind]
  congr 1
  funext pagePtr
  simp only [lock]
  congr 1
  funext r
  rcases r with e | u
  · simp only [pure_bind]
    rw [drop_eq cfg]
    rfl
  · simp

end Windows

/-! ## What the documentation says -/

/-- What the documentation says about the calls, for regions of one page. -/
structure Win32.Lawful (sys : Win32 ω ε) (cfg : Cfg) (T : PageTable ω) : Prop where
  isPowerOfTwo_pageSize : (Windows.pageSize cfg sys).isPowerOfTwo
  eight_dvd_pageSize : 8 ∣ Windows.pageSize cfg sys
  /-- Only committed pages can be locked. -/
  locked_subset (k : ω) : T.locked k ⊆ T.mapped k
  virtualAlloc (m : Machine ω) :
    ∃ p m', (sys.virtualAlloc none (Windows.pageSize cfg sys) {.memReserve, .memCommit}
        .pageReadwrite).run m = .ok (p, m') ∧
      if p.isNull then T.Unchanged (Windows.pageSize cfg sys) m m'
      else T.Maps (Windows.pageSize cfg sys) cfg m p m'
  virtualLock {p : Ptr} (m : Machine ω) : p.addr ∈ T.mapped m.self →
    ∃ r m', (sys.virtualLock p (Windows.pageSize cfg sys)).run m = .ok (r, m') ∧
      match r with
      | .error _ => T.Unchanged (Windows.pageSize cfg sys) m m'
      | .ok () => T.Locks (Windows.pageSize cfg sys) m p m'
  virtualFree {p : Ptr} (m : Machine ω) : p.addr ∈ T.mapped m.self →
    ∃ r m', (sys.virtualFree p 0 .memRelease).run m = .ok (r, m') ∧
      match r with
      | .error _ => T.Unchanged (Windows.pageSize cfg sys) m m'
      | .ok () => T.Unmaps (Windows.pageSize cfg sys) m p m'

namespace Windows

variable {cfg : Cfg} {sys : Win32 ω ε} {T : PageTable ω}

theorem calls_lawful (hsys : sys.Lawful cfg T) : (calls cfg sys).Lawful cfg T where
  isPowerOfTwo_pageSize := hsys.isPowerOfTwo_pageSize
  eight_dvd_pageSize := hsys.eight_dvd_pageSize
  locked_subset := hsys.locked_subset
  map := by
    intro m
    obtain ⟨p, m', hrun, hp⟩ := hsys.virtualAlloc m
    have hmap : (calls cfg sys).map.run m = _ := Exec.run_bind_ok hrun
    by_cases hnull : p.isNull = true
    · rw [if_pos hnull] at hmap hp
      exact ⟨_, _, hmap, hp⟩
    · rw [if_neg hnull] at hmap hp
      exact ⟨_, _, hmap, hp⟩
  lock := by
    intro p m hp
    obtain ⟨r, m', hrun, hr⟩ := hsys.virtualLock m hp
    have hlock : ((calls cfg sys).lock p).run m = _ := Exec.run_bind_ok hrun
    rcases r with e | u
    · exact ⟨_, _, hlock, hr⟩
    · exact ⟨_, _, hlock, hr⟩
  unmap := by
    intro p m hp
    obtain ⟨r, m', hrun, hr⟩ := hsys.virtualFree m hp
    have hunmap : ((calls cfg sys).unmap p).run m = _ := Exec.run_bind_ok hrun
    rcases r with e | u
    · exact ⟨_, _, hunmap, hr⟩
    · exact ⟨_, _, hunmap, hr⟩

/-- The backend does what the allocator relies on. -/
theorem backend_contract (hsys : sys.Lawful cfg T) (base baseLocked : Set ℕ) :
    (backend cfg sys).Contract
      fun (L : Ledger (Page cfg)) k _ => T.Holds (pageSize cfg sys) base baseLocked L k := by
  refine (PageCalls.backend_contract (calls_lawful hsys) base baseLocked).congr
    (allocNewLock_eq cfg sys) ?_
  intro L k mem i _ _
  exact drop_eq cfg sys _

/-- **Pages on windows.**  On every system that does what the documentation says, and whatever
other regions the process has, the backend does what the allocator relies on: a new page is a
region of its own and locked once, an error leaves the regions and the locks as they were, and
a dropped page is neither allocated nor locked.  If regions can always be released, the calls
return. -/
theorem pages_on_windows (hsys : sys.Lawful cfg T) (base baseLocked : Set ℕ) :
    ((backend cfg sys).Contract
      fun (L : Ledger (Page cfg)) k _ => T.Holds (pageSize cfg sys) base baseLocked L k) ∧
    ((∀ (m : Machine ω) (p : Ptr), p.addr ∈ T.mapped m.self →
        ∃ m', (sys.virtualFree p 0 .memRelease).run m = .ok (.ok (), m')) →
      ∀ (L : Ledger (Page cfg)) (m : Machine ω),
        T.Holds (pageSize cfg sys) base baseLocked L m.self →
        (∃ r, (allocNewLock cfg sys).run m = .ok r) ∧
        ∀ i ∈ L.live, ∃ m', (drop sys (L.block i).raw).run m = .ok ((), m')) := by
  refine ⟨backend_contract hsys base baseLocked, fun hfree L m hrep => ?_⟩
  have hunmap : ∀ (m : Machine ω) (p : Ptr), p.addr ∈ T.mapped m.self →
      ∃ m', ((calls cfg sys).unmap p).run m = .ok (true, m') := by
    intro m p hp
    obtain ⟨m', hrun⟩ := hfree m p hp
    exact ⟨m', Exec.run_bind_ok hrun⟩
  obtain ⟨halloc, hdrop⟩ := PageCalls.returns (calls_lawful hsys) hunmap hrep
  rw [allocNewLock_eq]
  refine ⟨halloc, fun i hi => ?_⟩
  rw [drop_eq cfg]
  exact hdrop i hi

/-- The small system, with one error. -/
def smallSystem (cfg : Cfg) : Win32 SmallKernel Unit where
  dwPageSize := 4096
  virtualAlloc _ _ _ _ := do pure ((← SmallKernel.map cfg).getD (.withoutProvenance 0))
  virtualLock p _ := do pure (if ← SmallKernel.lock p then .ok () else .error ())
  virtualFree p _ _ := do
    SmallKernel.unmap p
    pure (.ok ())

theorem smallSystem_virtualFree (cfg : Cfg) {p : Ptr} (m : Machine SmallKernel)
    (hp : p.addr ∈ SmallKernel.table.mapped m.self) :
    ∃ m', ((smallSystem cfg).virtualFree p 0 .memRelease).run m = .ok (.ok (), m') ∧
      SmallKernel.table.Unmaps 4096 m p m' := by
  obtain ⟨m', hrun, hm⟩ := SmallKernel.unmap_run m hp
  exact ⟨m', Exec.run_bind_ok hrun, hm⟩

theorem smallSystem_pageSize : pageSize Heap.sampleCfg (smallSystem Heap.sampleCfg) = 4096 := rfl

theorem smallSystem_lawful :
    (smallSystem Heap.sampleCfg).Lawful Heap.sampleCfg SmallKernel.table where
  isPowerOfTwo_pageSize := ⟨12, rfl⟩
  eight_dvd_pageSize := ⟨512, rfl⟩
  locked_subset := SmallKernel.locked_subset
  virtualAlloc := by
    intro m
    rw [smallSystem_pageSize]
    obtain ⟨r, m', hrun, hr⟩ := SmallKernel.map_run Heap.sampleCfg m
    refine ⟨r.getD (.withoutProvenance 0), m', Exec.run_bind_ok hrun, ?_⟩
    rcases r with _ | p
    · exact hr
    · have hnull : ¬ p.isNull = true := fun h => hr.addr_ne_zero (beq_iff_eq.1 h)
      exact (if_neg hnull).mpr hr
  virtualLock := by
    intro p m hp
    rw [smallSystem_pageSize]
    obtain ⟨r, m', hrun, hr⟩ := SmallKernel.lock_run m hp
    refine ⟨if r then .ok () else .error (), m', Exec.run_bind_ok hrun, ?_⟩
    rcases r with _ | _ <;> exact hr
  virtualFree := by
    intro p m hp
    obtain ⟨m', hrun, hm⟩ := smallSystem_virtualFree Heap.sampleCfg m hp
    exact ⟨_, m', hrun, hm⟩

/-- A new region is locked, and a region that cannot be locked is released. -/
theorem pages_on_windows_sample :
    (∃ (page : Page Heap.sampleCfg) (m' : Machine SmallKernel),
      (allocNewLock Heap.sampleCfg (smallSystem Heap.sampleCfg)).run SmallKernel.sampleState =
        .ok (.ok page.raw, m') ∧ page.raw = SmallKernel.samplePage ∧
      (∀ a ∈ page.range, m'.mem a = 0) ∧
      SmallKernel.table.locked m'.self =
        SmallKernel.table.locked SmallKernel.sampleState.self ∪ {page.pagePtr}) ∧
    ∃ m', (allocNewLock Heap.sampleCfg (smallSystem Heap.sampleCfg)).run SmallKernel.fullState =
        .ok (.error (.virtualLock ()), m') ∧
      SmallKernel.table.mapped m'.self = SmallKernel.table.mapped SmallKernel.fullState.self := by
  let L : Ledger (Page Heap.sampleCfg) := ⟨∅, fun _ => Heap.samplePage⟩
  have hpages : ∀ m : Machine SmallKernel, _ := fun m =>
    pages_on_windows smallSystem_lawful (SmallKernel.table.mapped m.self)
      (SmallKernel.table.locked m.self)
  have hreturns : ∀ m : Machine SmallKernel,
      ∃ r, (allocNewLock Heap.sampleCfg (smallSystem Heap.sampleCfg)).run m = .ok r := by
    intro m
    refine ((hpages m).2 (fun m p hp => ?_) L m (.of_empty rfl)).1
    obtain ⟨m', hrun, -⟩ := smallSystem_virtualFree _ m hp
    exact ⟨m', hrun⟩
  constructor
  · obtain ⟨⟨r, m'⟩, hrun⟩ := hreturns SmallKernel.sampleState
    have hfirst : ((allocNewLock Heap.sampleCfg (smallSystem Heap.sampleCfg)).run
        SmallKernel.sampleState).map Prod.fst = .ok (.ok SmallKernel.samplePage) := by decide
    rw [hrun] at hfirst
    obtain rfl : r = .ok SmallKernel.samplePage := Except.ok.inj hfirst
    obtain ⟨page, hraw, hzero, -, hlocked⟩ := (hpages SmallKernel.sampleState).1.page_of_run
      (L := L) rfl hrun
    exact ⟨page, m', hraw ▸ hrun, hraw.symm, hzero, hlocked⟩
  · obtain ⟨⟨r, m'⟩, hrun⟩ := hreturns SmallKernel.fullState
    have hfirst : ((allocNewLock Heap.sampleCfg (smallSystem Heap.sampleCfg)).run
        SmallKernel.fullState).map Prod.fst = .ok (.error (.virtualLock ())) := by decide
    rw [hrun] at hfirst
    obtain rfl : r = .error (.virtualLock ()) := Except.ok.inj hfirst
    exact ⟨m', hrun, ((hpages SmallKernel.fullState).1.unchanged_of_run (L := L) rfl hrun).1⟩

end Windows

end SecmemAlloc
