import SecmemAlloc.Internals.SmallKernel
import SecmemAlloc.SecAlloc.Effect

/-!
# Pages on unix

`mem/unix.rs`: anonymous private mappings of one page, locked into physical memory.  The
kernel is a parameter; what is relied on of its calls is what their manual pages say about
single pages.
-/

namespace SecmemAlloc

variable {ω ε : Type}

/-- `ProtFlags`. -/
inductive ProtFlag
  | read
  | write
deriving DecidableEq, Repr

/-- `MapFlags`, under the names of the C constants. -/
inductive MapFlag
  | mapPrivate
  | mapNoreserve
  | mapNocore
deriving DecidableEq, Repr

/-- `cfg(target_os)`, as far as the flags depend on it. -/
inductive TargetOs
  | redox
  | freebsd
  | dragonfly
  | other
deriving DecidableEq, Repr

/-- The calls of the `rustix` crate.  `ω` are the states of the kernel, `ε` is `Errno`. -/
structure Rustix (ω ε : Type) where
  pageSize : ℕ
  mmapAnonymous : Ptr → ℕ → Finset ProtFlag → Finset MapFlag → Code ω (Except ε Ptr)
  mlock : Ptr → ℕ → Code ω (Except ε Unit)
  munmap : Ptr → ℕ → Code ω (Except ε Unit)

namespace Unix

/-- `PageAllocError`. -/
inductive PageAllocError (ε : Type)
  | mmap (e : ε)
  | mlock (e : ε)
deriving DecidableEq, Repr

/-- The flags of the mapping.  Systems without `NORESERVE` may have `NOCORE`. -/
def mapFlags : TargetOs → Finset MapFlag
  | .redox => {.mapPrivate}
  | .freebsd | .dragonfly => {.mapPrivate, .mapNocore}
  | .other => {.mapPrivate, .mapNoreserve}

variable (os : TargetOs) (sys : Rustix ω ε)

/-- `page_size`. -/
def pageSize : ℕ := sys.pageSize

/-- `Page::alloc_new_noreserve`. -/
def allocNewNoreserve : Code ω (Except ε RawPage) := do
  let addr := Ptr.withoutProvenance 0
  let pageSize := pageSize sys
  let prot := {.read, .write}
  let flags := mapFlags os
  match ← sys.mmapAnonymous addr pageSize prot flags with
  | .error e => pure (.error e)
  | .ok pagePtr => do
    let pagePtr ← NonNull.newUnchecked pagePtr
    pure (.ok { pagePtr, pageSize })

/-- `Page::mlock`. -/
def mlock (page : RawPage) : Code ω (Except ε Unit) := sys.mlock page.asPtrMut page.pageSize

/-- `Drop for Page`; `unwrap` panics on an error. -/
def drop (page : RawPage) : Code ω Unit := do
  let ptr := page.asPtrMut
  match ← sys.munmap ptr page.pageSize with
  | .error _ => throw .assertion
  | .ok () => pure ()

/-- `Page::alloc_new_lock`. -/
def allocNewLock : Code ω (Except (PageAllocError ε) RawPage) := do
  match ← allocNewNoreserve os sys with
  | .error e => pure (.error (.mmap e))
  | .ok page => do
    match ← mlock sys page with
    | .error e => do
      -- the early return drops `page`
      drop sys page
      pure (.error (.mlock e))
    | .ok () => pure (.ok page)

/-- `mem` on unix. -/
def backend : PageBackend ω (PageAllocError ε) := ⟨allocNewLock os sys, drop sys⟩

/-- The calls of the backend, for pages of the size it uses. -/
def calls : PageCalls ω (PageAllocError ε) where
  pageSize := pageSize sys
  map := do
    match ← sys.mmapAnonymous (.withoutProvenance 0) (pageSize sys) {.read, .write}
      (mapFlags os) with
    | .error e => pure (.error (.mmap e))
    | .ok p => pure (.ok p)
  lock p := do
    match ← sys.mlock p (pageSize sys) with
    | .error e => pure (.error (.mlock e))
    | .ok () => pure (.ok ())
  unmap p := do
    match ← sys.munmap p (pageSize sys) with
    | .error _ => pure false
    | .ok () => pure true

variable {sys}

theorem drop_eq {page : RawPage} (h : page.pageSize = sys.pageSize) :
    drop sys page = (calls os sys).drop page := by
  simp only [drop, PageCalls.drop, calls, pageSize, h, bind_assoc]
  congr 1
  funext r
  rcases r with e | u <;> simp

theorem allocNewLock_eq : allocNewLock os sys = (calls os sys).allocNewLock := by
  simp only [allocNewLock, allocNewNoreserve, PageCalls.allocNewLock, calls, bind_assoc]
  congr 1
  funext r
  rcases r with e | p
  · simp
  simp only [bind_assoc, pure_bind]
  congr 1
  funext pagePtr
  simp only [mlock]
  congr 1
  funext r
  rcases r with e | u
  · simp only [pure_bind]
    rw [drop_eq os rfl]
    rfl
  · simp

end Unix

/-! ## What the manual pages say -/

/-- What the manual pages say about the calls, for single pages. -/
structure Rustix.Lawful (sys : Rustix ω ε) (cfg : Cfg) (T : PageTable ω) : Prop where
  isPowerOfTwo_pageSize : sys.pageSize.isPowerOfTwo
  eight_dvd_pageSize : 8 ∣ sys.pageSize
  /-- Only mapped pages can be locked. -/
  locked_subset (k : ω) : T.locked k ⊆ T.mapped k
  mmapAnonymous {prot : Finset ProtFlag} {flags : Finset MapFlag} (m : Machine ω) :
    .read ∈ prot → .write ∈ prot → .mapPrivate ∈ flags →
    ∃ r m', (sys.mmapAnonymous (.withoutProvenance 0) sys.pageSize prot flags).run m = .ok (r, m') ∧
      match r with
      | .error _ => T.Unchanged sys.pageSize m m'
      | .ok p => T.Maps sys.pageSize cfg m p m'
  mlock {p : Ptr} (m : Machine ω) : p.addr ∈ T.mapped m.self →
    ∃ r m', (sys.mlock p sys.pageSize).run m = .ok (r, m') ∧
      match r with
      | .error _ => T.Unchanged sys.pageSize m m'
      | .ok () => T.Locks sys.pageSize m p m'
  munmap {p : Ptr} (m : Machine ω) : p.addr ∈ T.mapped m.self →
    ∃ r m', (sys.munmap p sys.pageSize).run m = .ok (r, m') ∧
      match r with
      | .error _ => T.Unchanged sys.pageSize m m'
      | .ok () => T.Unmaps sys.pageSize m p m'

namespace Unix

variable {cfg : Cfg} {sys : Rustix ω ε} {T : PageTable ω} {os : TargetOs} {m m' : Machine ω}

/-- Whatever the system, the mapping is private. -/
theorem mapPrivate_mem_mapFlags (os : TargetOs) : MapFlag.mapPrivate ∈ mapFlags os := by
  cases os <;> decide

theorem calls_lawful (hsys : sys.Lawful cfg T) (os : TargetOs) : (calls os sys).Lawful cfg T where
  isPowerOfTwo_pageSize := hsys.isPowerOfTwo_pageSize
  eight_dvd_pageSize := hsys.eight_dvd_pageSize
  locked_subset := hsys.locked_subset
  map := by
    intro m
    have hread : ProtFlag.read ∈ ({.read, .write} : Finset ProtFlag) := by decide
    have hwrite : ProtFlag.write ∈ ({.read, .write} : Finset ProtFlag) := by decide
    obtain ⟨r, m', hrun, hr⟩ := hsys.mmapAnonymous m hread hwrite (mapPrivate_mem_mapFlags os)
    have hmap : (calls os sys).map.run m = _ := Exec.run_bind_ok hrun
    rcases r with e | p
    · exact ⟨_, _, hmap, hr⟩
    · exact ⟨_, _, hmap, hr⟩
  lock := by
    intro p m hp
    obtain ⟨r, m', hrun, hr⟩ := hsys.mlock m hp
    have hlock : ((calls os sys).lock p).run m = _ := Exec.run_bind_ok hrun
    rcases r with e | u
    · exact ⟨_, _, hlock, hr⟩
    · exact ⟨_, _, hlock, hr⟩
  unmap := by
    intro p m hp
    obtain ⟨r, m', hrun, hr⟩ := hsys.munmap m hp
    have hunmap : ((calls os sys).unmap p).run m = _ := Exec.run_bind_ok hrun
    rcases r with e | u
    · exact ⟨_, _, hunmap, hr⟩
    · exact ⟨_, _, hunmap, hr⟩

/-- The backend does what the allocator relies on. -/
theorem backend_contract (hsys : sys.Lawful cfg T) (os : TargetOs) (base baseLocked : Set ℕ) :
    (backend os sys).Contract
      fun (L : Ledger (Page cfg)) k _ => T.Holds sys.pageSize base baseLocked L k := by
  refine (PageCalls.backend_contract (calls_lawful hsys os) base baseLocked).congr
    (allocNewLock_eq os) ?_
  intro L k mem i hrep hi
  exact drop_eq os (hrep.pageSize_eq i hi)

/-- If pages can always be unmapped, the calls return. -/
theorem returns (hsys : sys.Lawful cfg T) (os : TargetOs) {base baseLocked : Set ℕ}
    (hmunmap : ∀ (m : Machine ω) (p : Ptr), p.addr ∈ T.mapped m.self →
      ∃ m', (sys.munmap p sys.pageSize).run m = .ok (.ok (), m'))
    {L : Ledger (Page cfg)} (hrep : T.Holds sys.pageSize base baseLocked L m.self) :
    (∃ r, (allocNewLock os sys).run m = .ok r) ∧
      ∀ i ∈ L.live, ∃ m', (drop sys (L.block i).raw).run m = .ok ((), m') := by
  have hunmap : ∀ (m : Machine ω) (p : Ptr), p.addr ∈ T.mapped m.self →
      ∃ m', ((calls os sys).unmap p).run m = .ok (true, m') := by
    intro m p hp
    obtain ⟨m', hrun⟩ := hmunmap m p hp
    exact ⟨m', Exec.run_bind_ok hrun⟩
  obtain ⟨halloc, hdrop⟩ := PageCalls.returns (calls_lawful hsys os) hunmap hrep
  rw [allocNewLock_eq]
  refine ⟨halloc, fun i hi => ?_⟩
  rw [drop_eq os (hrep.pageSize_eq i hi)]
  exact hdrop i hi

/-- **Pages on unix.**  On every kernel that does what the manual pages say, and whatever else
the process has mapped and locked, the backend does what the allocator relies on: a new page is
mapped and locked once, an error leaves what is mapped and locked as it was, and a dropped page
is neither mapped nor locked.  If pages can always be unmapped, the calls return. -/
theorem pages_on_unix (hsys : sys.Lawful cfg T) (os : TargetOs) (base baseLocked : Set ℕ) :
    ((backend os sys).Contract
      fun (L : Ledger (Page cfg)) k _ => T.Holds sys.pageSize base baseLocked L k) ∧
    ((∀ (m : Machine ω) (p : Ptr), p.addr ∈ T.mapped m.self →
        ∃ m', (sys.munmap p sys.pageSize).run m = .ok (.ok (), m')) →
      ∀ (L : Ledger (Page cfg)) (m : Machine ω), T.Holds sys.pageSize base baseLocked L m.self →
        (∃ r, (allocNewLock os sys).run m = .ok r) ∧
        ∀ i ∈ L.live, ∃ m', (drop sys (L.block i).raw).run m = .ok ((), m')) := by
  exact ⟨backend_contract hsys os base baseLocked, fun hmunmap L m hrep =>
    returns hsys os hmunmap hrep⟩

/-- The small system, with one error. -/
def smallKernel (cfg : Cfg) : Rustix SmallKernel Unit where
  pageSize := 4096
  mmapAnonymous _ _ _ _ := do pure ((← SmallKernel.map cfg).elim (.error ()) .ok)
  mlock p _ := do pure (if ← SmallKernel.lock p then .ok () else .error ())
  munmap p _ := do
    SmallKernel.unmap p
    pure (.ok ())

theorem smallKernel_munmap (cfg : Cfg) {p : Ptr} (m : Machine SmallKernel)
    (hp : p.addr ∈ SmallKernel.table.mapped m.self) :
    ∃ m', ((smallKernel cfg).munmap p 4096).run m = .ok (.ok (), m') ∧
      SmallKernel.table.Unmaps 4096 m p m' := by
  obtain ⟨m', hrun, hm⟩ := SmallKernel.unmap_run m hp
  exact ⟨m', Exec.run_bind_ok hrun, hm⟩

theorem smallKernel_lawful (cfg : Cfg) : (smallKernel cfg).Lawful cfg SmallKernel.table where
  isPowerOfTwo_pageSize := ⟨12, rfl⟩
  eight_dvd_pageSize := ⟨512, rfl⟩
  locked_subset := SmallKernel.locked_subset
  mmapAnonymous := by
    intro prot flags m _ _ _
    obtain ⟨r, m', hrun, hr⟩ := SmallKernel.map_run cfg m
    refine ⟨r.elim (.error ()) .ok, m', Exec.run_bind_ok hrun, ?_⟩
    rcases r with _ | p <;> exact hr
  mlock := by
    intro p m hp
    obtain ⟨r, m', hrun, hr⟩ := SmallKernel.lock_run m hp
    refine ⟨if r then .ok () else .error (), m', Exec.run_bind_ok hrun, ?_⟩
    rcases r with _ | _ <;> exact hr
  munmap := by
    intro p m hp
    obtain ⟨m', hrun, hm⟩ := smallKernel_munmap cfg m hp
    exact ⟨_, m', hrun, hm⟩

/-- A new page is locked, and a page that cannot be locked is not mapped. -/
theorem pages_on_unix_sample :
    (∃ (page : Page Heap.sampleCfg) (m' : Machine SmallKernel),
      (allocNewLock .other (smallKernel Heap.sampleCfg)).run SmallKernel.sampleState =
        .ok (.ok page.raw, m') ∧ page.raw = SmallKernel.samplePage ∧
      (∀ a ∈ page.range, m'.mem a = 0) ∧
      SmallKernel.table.locked m'.self =
        SmallKernel.table.locked SmallKernel.sampleState.self ∪ {page.pagePtr}) ∧
    ∃ m', (allocNewLock .other (smallKernel Heap.sampleCfg)).run SmallKernel.fullState =
        .ok (.error (.mlock ()), m') ∧
      SmallKernel.table.mapped m'.self = SmallKernel.table.mapped SmallKernel.fullState.self := by
  let L : Ledger (Page Heap.sampleCfg) := ⟨∅, fun _ => Heap.samplePage⟩
  have hpages : ∀ m : Machine SmallKernel, _ := fun m =>
    pages_on_unix (smallKernel_lawful Heap.sampleCfg) .other (SmallKernel.table.mapped m.self)
      (SmallKernel.table.locked m.self)
  have hreturns : ∀ m : Machine SmallKernel,
      ∃ r, (allocNewLock .other (smallKernel Heap.sampleCfg)).run m = .ok r := by
    intro m
    refine ((hpages m).2 (fun m p hp => ?_) L m (.of_empty rfl)).1
    obtain ⟨m', hrun, -⟩ := smallKernel_munmap _ m hp
    exact ⟨m', hrun⟩
  constructor
  · obtain ⟨⟨r, m'⟩, hrun⟩ := hreturns SmallKernel.sampleState
    have hfirst : ((allocNewLock .other (smallKernel Heap.sampleCfg)).run
        SmallKernel.sampleState).map Prod.fst = .ok (.ok SmallKernel.samplePage) := by decide
    rw [hrun] at hfirst
    obtain rfl : r = .ok SmallKernel.samplePage := Except.ok.inj hfirst
    obtain ⟨page, hraw, hzero, -, hlocked⟩ := (hpages SmallKernel.sampleState).1.page_of_run
      (L := L) rfl hrun
    exact ⟨page, m', hraw ▸ hrun, hraw.symm, hzero, hlocked⟩
  · obtain ⟨⟨r, m'⟩, hrun⟩ := hreturns SmallKernel.fullState
    have hfirst : ((allocNewLock .other (smallKernel Heap.sampleCfg)).run
        SmallKernel.fullState).map Prod.fst = .ok (.error (.mlock ())) := by decide
    rw [hrun] at hfirst
    obtain rfl : r = .error (.mlock ()) := Except.ok.inj hfirst
    exact ⟨m', hrun, ((hpages SmallKernel.fullState).1.unchanged_of_run (L := L) rfl hrun).1⟩

end Unix

end SecmemAlloc
