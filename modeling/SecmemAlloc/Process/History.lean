import SecmemAlloc.Process.Step

/-!
# The histories of the allocators of a process

Whatever happens in a process, each of its allocators is where its own clients have brought
it: it cannot be told from an allocator that is alone in the world, and what the clients of one
do cannot be told from the others.
-/

namespace SecmemAlloc

variable {cfg : Cfg} {ω ω' ε ε' : Type}

namespace Process

/-- The calls of allocator `i` since it was made. -/
def calls (i : ℕ) (es : List (ProcessEvent cfg)) : List (Event cfg) :=
  PoolEvent.since i (es.map ProcessEvent.toPool)

variable {P Q R : Process cfg ω} {B : PageBackend ω ε}
  {Rep : Ledger (Page cfg) → ω → Memory UInt8 → Prop} {es : List (ProcessEvent cfg)} {i j : ℕ}

/-- A run of a tenant is one of its heap. -/
theorem heap_run {x y : Tenant cfg × Memory UInt8} {ls : List (Event cfg)}
    (h : Run Tenant.component.step x ls y) : Run Heap.Step (x.1.heap x.2) ls (y.1.heap y.2) := by
  have hsim : ∃ h', Run Heap.Step (x.1.heap x.2) ls h' ∧ h' = y.1.heap y.2 :=
    h.simulation (R := fun x h => h = x.1.heap x.2) (by
      rintro x e y _ rfl hstep
      exact ⟨_, hstep, rfl⟩) rfl
  obtain ⟨h', hrun, rfl⟩ := hsim
  exact hrun

/-- A live allocator is where a run of its own with the same calls leads. -/
theorem solo (hB : B.Contract Rep) (hP : P.Fresh Rep) (hrun : Run (Step B Rep) P es Q)
    (hi : i ∈ Q.tenants.live) :
    Q.pool.Solo Tenant.component Tenant.Init i (calls i es) := by
  obtain ⟨-, -, hpool⟩ := run_pool hB hP hrun
  have hsolo := Pool.run_solo Tenant.isLocal (fun _ _ => Tenant.Init.wellFormed) hpool hP.live_eq
  exact hsolo.2 i hi

/-- **History.**  In every run of a process, whatever other allocators, the system and the rest
of the process have done, each live allocator has answered every call of its clients as it
would have alone on its page, and has left there what it would have left. -/
theorem history (hB : B.Contract Rep) (hP : P.Fresh Rep) (hrun : Run (Step B Rep) P es Q)
    (hi : i ∈ Q.tenants.live) :
    ∃ (page : Page cfg) (mem₀ mem : Memory UInt8), page.Zeroed mem₀ ∧
      Run Heap.Step (Heap.new page mem₀) (calls i es) ((Q.tenants.block i).heap mem) ∧
      ∀ a ∈ page.range, mem a = Q.mem a := by
  obtain ⟨t, mem₀, mem, ⟨page, hzero, rfl⟩, hsolo, hmem⟩ := solo hB hP hrun hi
  have halone := heap_run hsolo
  refine ⟨page, mem₀, mem, hzero, halone, fun a ha => hmem ?_⟩
  have hpage : (Q.tenants.block i).alloc.page = page := Heap.run_page_eq halone
  rwa [← hpage] at ha

/-- The first allocator of the small process, among the calls of the other. -/
theorem history_sample : ∃ (page : Page Heap.sampleCfg) (mem₀ mem : Memory UInt8),
    page.Zeroed mem₀ ∧
    Run Heap.Step (Heap.new page mem₀) [(sampleCall sampleMade 0).2]
      (((sampleCalled (sampleCalled sampleMade 0) 1).tenants.block 0).heap mem) ∧
    ∀ a ∈ page.range, mem a = sampleMade.mem a :=
  history sampleContract sampleFresh sampleRun (i := 0) (by decide)

/-! ## What an allocator depends on -/

/-- The operation determines the answer, and what it leads to. -/
theorem component_det : ∀ (x : Tenant cfg × Memory UInt8) (e e' : Event cfg)
    (y z : Tenant cfg × Memory UInt8), e.1 = e'.1 → Tenant.component.step x e y →
    Tenant.component.step x e' z → e = e' ∧ y = z := by
  rintro x ⟨op, a⟩ ⟨op', a'⟩ y z (rfl : op = op') hy hz
  have heq : (a, y.1.heap y.2) = (a', z.1.heap z.2) := Except.ok.inj (hy.2.symm.trans hz.2)
  obtain ⟨rfl, -⟩ := Prod.mk.inj heq
  exact ⟨rfl, Tenant.deterministic x _ y z hy hz⟩

/-- **Noninterference.**  Take two processes of the same build on any two systems, any run of
each, and in each run a live allocator, both on the same page: at the same address and of the
same size.  If the clients of the two have made the same calls and writes since the allocators
were made, then they got the same answers, the cells and the blocks are the same, and so is each
byte of the page. -/
theorem noninterference {P' Q' : Process cfg ω'} {B' : PageBackend ω' ε'}
    {Rep' : Ledger (Page cfg) → ω' → Memory UInt8 → Prop} {es' : List (ProcessEvent cfg)}
    (hB : B.Contract Rep) (hB' : B'.Contract Rep') (hP : P.Fresh Rep) (hP' : P'.Fresh Rep')
    (hrun : Run (Step B Rep) P es Q) (hrun' : Run (Step B' Rep') P' es' Q')
    (hi : i ∈ Q.tenants.live) (hj : j ∈ Q'.tenants.live)
    (hpage : (Q.tenants.block i).alloc.page = (Q'.tenants.block j).alloc.page)
    (hops : (calls i es).map Prod.fst = (calls j es').map Prod.fst) :
    calls i es = calls j es' ∧ Q.tenants.block i = Q'.tenants.block j ∧
      ∀ a ∈ (Q.tenants.block i).alloc.page.range, Q.mem a = Q'.mem a := by
  obtain ⟨t, mem₀, mem, ⟨page, hzero, rfl⟩, hsolo, hmem⟩ := solo hB hP hrun hi
  obtain ⟨t', mem₀', mem', ⟨page', hzero', rfl⟩, hsolo', hmem'⟩ := solo hB' hP' hrun' hj
  have heq : (Q.tenants.block i).alloc.page = page := Heap.run_page_eq (heap_run hsolo)
  have heq' : (Q'.tenants.block j).alloc.page = page' := Heap.run_page_eq (heap_run hsolo')
  obtain rfl : page = page' := heq.symm.trans (hpage.trans heq')
  -- both started on a page of zeros
  have hstart : Set.EqOn mem₀' mem₀ page.range := by
    intro a ha
    obtain ⟨hlo, hhi⟩ := Page.mem_range.1 ha
    rw [hzero a hlo hhi, hzero' a hlo hhi]
  obtain ⟨hcalls, hblock, hend⟩ := Tenant.isLocal.run_det component_det hsolo hsolo'
    (Tenant.WellFormed.new page) hstart hops
  refine ⟨hcalls, hblock, fun a ha => ?_⟩
  have ha₀ : a ∈ page.range := heq ▸ ha
  have ha' : a ∈ (Q'.tenants.block j).alloc.page.range := hpage ▸ ha
  exact (hmem ha).symm.trans ((hend ha₀).symm.trans (hmem' ha'))

/-- The first allocator of the small process, before and after a call of the other. -/
theorem noninterference_sample :
    (sampleCalled sampleMade 0).tenants.block 0 =
      (sampleCalled (sampleCalled sampleMade 0) 1).tenants.block 0 :=
  (noninterference sampleContract sampleContract sampleFresh sampleFresh
    (sampleMade_run.snoc sampleCalled_step) sampleRun (i := 0) (j := 0) (by decide) (by decide)
    rfl rfl).2.1

/-! ## The order of calls -/

/-- The run of calls of the pool. -/
theorem act_run_of_run {es : List (ℕ × Event cfg)}
    (hrun : Run (Step B Rep) Q (es.map fun e => .call e.1 e.2) R) :
    R.sys = Q.sys ∧ Run (Pool.Act Tenant.component) Q.pool es R.pool := by
  rw [Run.map_iff] at hrun
  induction hrun with
  | nil => exact ⟨rfl, .nil _⟩
  | snoc _ hlast ih =>
    obtain ⟨hsys, hact⟩ := ih
    cases hlast with
    | @call _ _ h hi hstep =>
      exact ⟨hsys, hact.snoc ⟨hi, (h.tenant, h.mem), hstep, rfl⟩⟩

/-- The run of calls of the process. -/
theorem run_of_act_run {es : List (ℕ × Event cfg)} {X : Pool (Tenant cfg) UInt8}
    (hrun : Run (Pool.Act Tenant.component) Q.pool es X) :
    Run (Step B Rep) Q (es.map fun e => .call e.1 e.2) ⟨Q.sys, X.mem, X.parts⟩ := by
  rw [Run.map_iff]
  induction hrun with
  | nil => exact .nil _
  | snoc _ hlast ih =>
    obtain ⟨hi, y, hstep, rfl⟩ := hlast
    exact ih.snoc (.call (h := y.1.heap y.2) hi hstep)

/-- **Order of calls.**  In every process that a run leads to, calls of different allocators
can change places: any other order of them that keeps the calls of each allocator in their
order is possible, each call gets the same answer, and the process ends the same. -/
theorem order_of_calls (hB : B.Contract Rep) (hP : P.Fresh Rep) (hrun : Run (Step B Rep) P es Q)
    {cs cs' : List (ℕ × Event cfg)}
    (hsame : ∀ i, Pool.acts i cs' = Pool.acts i cs)
    (hcalls : Run (Step B Rep) Q (cs.map fun e => .call e.1 e.2) R) :
    Run (Step B Rep) Q (cs'.map fun e => .call e.1 e.2) R := by
  obtain ⟨-, hsep, -⟩ := run_pool hB hP hrun
  obtain ⟨hsys, hact⟩ := act_run_of_run hcalls
  have hother : Run (Step B Rep) Q (cs'.map fun e => .call e.1 e.2) ⟨Q.sys, R.mem, R.tenants⟩ :=
    run_of_act_run (Pool.reorder Tenant.deterministic Tenant.isLocal hsep hsame hact)
  obtain ⟨sys, mem, tenants⟩ := R
  obtain rfl : sys = Q.sys := hsys
  exact hother

/-- The two calls of the small process in the other order. -/
theorem order_of_calls_sample : Run (Step sampleBackend sampleRep) sampleMade
    [.call 1 (sampleCall sampleMade 1).2, .call 0 (sampleCall sampleMade 0).2]
    (sampleCalled (sampleCalled sampleMade 0) 1) := by
  have hsame : ∀ i, Pool.acts i [sampleCall sampleMade 1, sampleCall sampleMade 0] =
      Pool.acts i [sampleCall sampleMade 0, sampleCall sampleMade 1] := by
    intro i
    by_cases h0 : 0 = i <;> by_cases h1 : 1 = i <;> simp [Pool.acts, sampleCall, h0, h1]
  exact order_of_calls sampleContract sampleFresh sampleMade_run hsame
    (((Run.nil _).snoc sampleCalled_step).snoc sampleCalled_step')

end Process

end SecmemAlloc
