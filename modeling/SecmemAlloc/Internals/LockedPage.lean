import SecmemAlloc.Internals.Mem
import SecmemAlloc.Lib.Ownership

/-!
# Mapping and locking a page

Unix and windows make a page in the same way: map it, lock it, and give it back at once if it
cannot be locked.  Here the three calls are parameters, with what their documentation says
about single pages, and what the allocator relies on is shown of them.
-/

namespace SecmemAlloc

variable {ω ε : Type}

/-- The system calls about pages of one size.  `ω` are the states of the system. -/
structure PageCalls (ω ε : Type) where
  pageSize : ℕ
  map : Code ω (Except ε Ptr)
  lock : Ptr → Code ω (Except ε Unit)
  /-- Whether the page was given back. -/
  unmap : Ptr → Code ω Bool

namespace PageCalls

variable (calls : PageCalls ω ε)

/-- `Drop for Page`; `unwrap` panics on an error. -/
def drop (page : RawPage) : Code ω Unit := do
  if ← calls.unmap page.asPtrMut then pure () else throw .assertion

/-- `Page::alloc_new_lock`. -/
def allocNewLock : Code ω (Except ε RawPage) := do
  match ← calls.map with
  | .error e => pure (.error e)
  | .ok pagePtr => do
    let pagePtr ← NonNull.newUnchecked pagePtr
    let page : RawPage := { pagePtr, pageSize := calls.pageSize }
    match ← calls.lock page.asPtrMut with
    | .error e => do
      -- the early return drops `page`
      calls.drop page
      pure (.error e)
    | .ok () => pure (.ok page)

/-- A backend made of the three calls. -/
def backend : PageBackend ω ε := ⟨calls.allocNewLock, calls.drop⟩

end PageCalls

/-! ## What the documentation says -/

/-- What can be seen of the system: the pages the process has mapped and those it has locked,
by their start addresses. -/
structure PageTable (ω : Type) where
  mapped : ω → Set ℕ
  locked : ω → Set ℕ

namespace PageTable

variable (T : PageTable ω) (n : ℕ)

/-- The bytes of the pages of size `n` that start in `S` are the same. -/
def SameBytes (S : Set ℕ) (mem mem' : Memory UInt8) : Prop :=
  ∀ p ∈ S, Set.EqOn mem' mem (Set.Ico p (p + n))

/-- The call failed, and nothing happened. -/
structure Unchanged (m m' : Machine ω) : Prop where
  mapped_eq : T.mapped m'.self = T.mapped m.self
  locked_eq : T.locked m'.self = T.locked m.self
  same : SameBytes n (T.mapped m.self) m.mem m'.mem

/-- A page of zeros is mapped at `p`, where there was none.  The system may lock it at once. -/
structure Maps (cfg : Cfg) (m : Machine ω) (p : Ptr) (m' : Machine ω) : Prop where
  notMem : p.addr ∉ T.mapped m.self
  addr_ne_zero : p.addr ≠ 0
  dvd_addr : n ∣ p.addr
  stop_le : p.addr + n ≤ cfg.usizeMax
  lo_eq : p.lo = p.addr
  hi_eq : p.hi = p.addr + n
  zero : ∀ a, p.addr ≤ a → a < p.addr + n → m'.mem a = 0
  mapped_eq : T.mapped m'.self = insert p.addr (T.mapped m.self)
  locked_ge : T.locked m.self ⊆ T.locked m'.self
  locked_le : T.locked m'.self ⊆ insert p.addr (T.locked m.self)
  same : SameBytes n (T.mapped m.self) m.mem m'.mem

/-- The page at `p` is locked. -/
structure Locks (m : Machine ω) (p : Ptr) (m' : Machine ω) : Prop where
  mapped_eq : T.mapped m'.self = T.mapped m.self
  locked_eq : T.locked m'.self = insert p.addr (T.locked m.self)
  same : SameBytes n (T.mapped m.self) m.mem m'.mem

/-- The page at `p` is no longer mapped, and no longer locked. -/
structure Unmaps (m : Machine ω) (p : Ptr) (m' : Machine ω) : Prop where
  mapped_eq : T.mapped m'.self = T.mapped m.self \ {p.addr}
  locked_eq : T.locked m'.self = T.locked m.self \ {p.addr}
  same : SameBytes n (T.mapped m.self \ {p.addr}) m.mem m'.mem

variable {T n} {m m' m'' : Machine ω} {p : Ptr}

theorem SameBytes.trans {S : Set ℕ} {mem mem' mem'' : Memory UInt8} (h : SameBytes n S mem mem')
    (h' : SameBytes n S mem' mem'') : SameBytes n S mem mem'' :=
  fun q hq => (h' q hq).trans (h q hq)

theorem SameBytes.mono {S S' : Set ℕ} {mem mem' : Memory UInt8} (h : SameBytes n S' mem mem')
    (hS : S ⊆ S') : SameBytes n S mem mem' := fun q hq => h q (hS hq)

/-- Mapping a page and unmapping it again leaves everything as it was, whatever failed in
between. -/
theorem Maps.unmaps {cfg : Cfg} (hmaps : T.Maps n cfg m p m')
    (hlocked : ∀ k, T.locked k ⊆ T.mapped k) {m₂ : Machine ω} (hfail : T.Unchanged n m' m₂)
    (hunmaps : T.Unmaps n m₂ p m'') : T.Unchanged n m m'' := by
  have hsub : T.mapped m.self ⊆ T.mapped m'.self := hmaps.mapped_eq ▸ Set.subset_insert _ _
  have hout : ∀ q ∈ T.mapped m.self, q ≠ p.addr := by
    rintro q hq rfl
    exact hmaps.notMem hq
  constructor
  · rw [hunmaps.mapped_eq, hfail.mapped_eq, hmaps.mapped_eq]
    exact Set.insert_sdiff_self_of_notMem hmaps.notMem
  · rw [hunmaps.locked_eq, hfail.locked_eq]
    ext q
    rw [Set.mem_sdiff, Set.mem_singleton_iff]
    constructor
    · rintro ⟨hq, hqp⟩
      exact (hmaps.locked_le hq).resolve_left hqp
    · intro hq
      exact ⟨hmaps.locked_ge hq, hout q (hlocked _ hq)⟩
  · refine hmaps.same.trans ((hfail.same.mono hsub).trans (hunmaps.same.mono ?_))
    intro q hq
    rw [hfail.mapped_eq]
    exact ⟨hsub hq, hout q hq⟩

end PageTable

/-! ## The pages of a process -/

namespace PageTable

/-- The pages of `L`, of size `n`, are mapped and locked, each once; otherwise the process has
mapped `base` and locked `baseLocked`. -/
structure Holds {cfg : Cfg} (T : PageTable ω) (n : ℕ) (base baseLocked : Set ℕ)
    (L : Ledger (Page cfg)) (k : ω) : Prop where
  mapped : L.Owns Page.pagePtr base (T.mapped k)
  locked : L.Owns Page.pagePtr baseLocked (T.locked k)
  pageSize_eq : ∀ i ∈ L.live, (L.block i).pageSize = n

namespace Holds

variable {cfg : Cfg} {T : PageTable ω} {n : ℕ} {base baseLocked : Set ℕ} {L : Ledger (Page cfg)}
  {i : ℕ} {m m' : Machine ω}

theorem of_empty {k : ω} (h : L.live = ∅) : T.Holds n (T.mapped k) (T.locked k) L k :=
  ⟨.of_empty h, .of_empty h, fun i hi => absurd hi (h ▸ Finset.notMem_empty i)⟩

theorem kept {k : ω} (h : T.Holds n base baseLocked L k) {mem mem' : Memory UInt8} {S : Set ℕ}
    (hsame : SameBytes n S mem mem') (hS : ∀ i ∈ L.live, (L.block i).pagePtr ∈ S) :
    L.Kept mem mem' := by
  intro i hi
  have hi' := hsame _ (hS i hi)
  rwa [← h.pageSize_eq i hi] at hi'

/-- A failed call leaves the pages as they are. -/
theorem unchanged (h : T.Holds n base baseLocked L m.self) (hm : T.Unchanged n m m') :
    L.Kept m.mem m'.mem ∧ T.Holds n base baseLocked L m'.self := by
  refine ⟨h.kept hm.same fun _ hi => h.mapped.key_mem hi, ?_, ?_, h.pageSize_eq⟩
  · rw [hm.mapped_eq]
    exact h.mapped
  · rw [hm.locked_eq]
    exact h.locked

/-- A page that was unmapped. -/
theorem erase (h : T.Holds n base baseLocked L m.self) (hi : i ∈ L.live)
    (hm : T.Unmaps n m (L.block i).asPtrMut m') :
    (L.erase i).Kept m.mem m'.mem ∧ T.Holds n base baseLocked (L.erase i) m'.self := by
  have herase : T.Holds n base baseLocked (L.erase i) m'.self := by
    refine ⟨?_, ?_, fun j hj => h.pageSize_eq j (Finset.mem_of_mem_erase hj)⟩
    · rw [hm.mapped_eq]
      exact h.mapped.erase hi
    · rw [hm.locked_eq]
      exact h.locked.erase hi
  refine ⟨herase.kept hm.same fun j hj => ?_, herase⟩
  rw [← hm.mapped_eq]
  exact herase.mapped.key_mem hj

/-- A page that was just mapped and locked. -/
theorem insert (h : T.Holds n base baseLocked L m.self) (hlocked : ∀ k, T.locked k ⊆ T.mapped k)
    (hi : i ∉ L.live) {raw : RawPage} (hvalid : raw.Valid cfg) (hsize : raw.pageSize = n)
    {m₁ : Machine ω} (hmaps : T.Maps n cfg m raw.asPtrMut m₁)
    (hlocks : T.Locks n m₁ raw.asPtrMut m') :
    L.Kept m.mem m'.mem ∧ Obtains (fun L k _ => T.Holds n base baseLocked L k) L i raw
      (raw.toPage hvalid) m' := by
  have hsub : T.mapped m.self ⊆ T.mapped m₁.self := hmaps.mapped_eq ▸ Set.subset_insert _ _
  have hself : raw.asPtrMut.addr ∈ T.mapped m₁.self := hmaps.mapped_eq ▸ Set.mem_insert _ _
  have hnew : ∀ j ∈ L.live, raw.asPtrMut.addr ≠ (L.block j).pagePtr := by
    intro j hj heq
    exact hmaps.notMem (heq ▸ h.mapped.key_mem hj)
  refine ⟨h.kept (hmaps.same.trans (hlocks.same.mono hsub)) fun _ hj => h.mapped.key_mem hj,
    (RawPage.raw_toPage hvalid).symm, ?_, ?_, ?_, ?_, ?_⟩
  · intro a ha
    have hrange : a ∈ Set.Ico raw.asPtrMut.addr (raw.asPtrMut.addr + n) := hsize ▸ ha
    rw [hlocks.same _ hself hrange]
    exact hmaps.zero a hrange.1 hrange.2
  · intro j hj
    exact Page.disjoint_range (hsize.trans (h.pageSize_eq j hj).symm) (hnew j hj)
  · rw [hlocks.mapped_eq, hmaps.mapped_eq]
    exact h.mapped.insert (b := raw.toPage hvalid) hi hmaps.notMem
  · -- locked at once or only now, the page is the one that is new
    have heq : T.locked m'.self = Insert.insert raw.asPtrMut.addr (T.locked m.self) := by
      rw [hlocks.locked_eq]
      apply Set.Subset.antisymm
      · exact Set.insert_subset (Set.mem_insert _ _) hmaps.locked_le
      · exact Set.insert_subset_insert hmaps.locked_ge
    rw [heq]
    exact h.locked.insert (b := raw.toPage hvalid) hi fun hmem => hmaps.notMem (hlocked _ hmem)
  · exact Ledger.forall_mem_insert (b := raw.toPage hvalid) (p := fun _ page => page.pageSize = n)
      hsize fun j hj _ => h.pageSize_eq j hj

end Holds

end PageTable

namespace PageBackend.Contract

variable {cfg : Cfg} {B : PageBackend ω ε} {T : PageTable ω} {n : ℕ} {L : Ledger (Page cfg)}
  {m m' : Machine ω}

/-- A page that is made in any state of the system. -/
theorem page_of_run (hB : B.Contract fun (L : Ledger (Page cfg)) k _ =>
      T.Holds n (T.mapped m.self) (T.locked m.self) L k) (hL : L.live = ∅) {raw : RawPage}
    (hrun : B.allocNewLock.run m = .ok (.ok raw, m')) :
    ∃ page : Page cfg, raw = page.raw ∧ (∀ a ∈ page.range, m'.mem a = 0) ∧
      T.mapped m'.self = T.mapped m.self ∪ {page.pagePtr} ∧
      T.locked m'.self = T.locked m.self ∪ {page.pagePtr} := by
  have hi : 0 ∉ L.live := hL ▸ Finset.notMem_empty 0
  obtain ⟨-, page, hpage⟩ := hB.alloc_ok (.of_empty hL) hi hrun
  have hkeys : (L.insert 0 page).keys Page.pagePtr = {page.pagePtr} := by
    rw [Ledger.keys_insert hi, Ledger.keys_of_empty hL]
    exact insert_empty_eq _
  refine ⟨page, hpage.raw_eq, hpage.zero, ?_, ?_⟩
  · rw [← hkeys]
    exact hpage.rep.mapped.eq_union
  · rw [← hkeys]
    exact hpage.rep.locked.eq_union

/-- An error leaves the system as it was. -/
theorem unchanged_of_run (hB : B.Contract fun (L : Ledger (Page cfg)) k _ =>
      T.Holds n (T.mapped m.self) (T.locked m.self) L k) (hL : L.live = ∅) {e : ε}
    (hrun : B.allocNewLock.run m = .ok (.error e, m')) :
    T.mapped m'.self = T.mapped m.self ∧ T.locked m'.self = T.locked m.self := by
  obtain ⟨-, hrep⟩ := hB.alloc_error (.of_empty hL) hrun
  exact ⟨hrep.mapped.eq_base hL, hrep.locked.eq_base hL⟩

end PageBackend.Contract

/-- What is documented about the calls. -/
structure PageCalls.Lawful (calls : PageCalls ω ε) (cfg : Cfg) (T : PageTable ω) : Prop where
  isPowerOfTwo_pageSize : calls.pageSize.isPowerOfTwo
  eight_dvd_pageSize : 8 ∣ calls.pageSize
  /-- Only mapped pages can be locked. -/
  locked_subset (k : ω) : T.locked k ⊆ T.mapped k
  map (m : Machine ω) : ∃ r m', calls.map.run m = .ok (r, m') ∧
    match r with
    | .error _ => T.Unchanged calls.pageSize m m'
    | .ok p => T.Maps calls.pageSize cfg m p m'
  lock {p : Ptr} (m : Machine ω) : p.addr ∈ T.mapped m.self →
    ∃ r m', (calls.lock p).run m = .ok (r, m') ∧
      match r with
      | .error _ => T.Unchanged calls.pageSize m m'
      | .ok () => T.Locks calls.pageSize m p m'
  unmap {p : Ptr} (m : Machine ω) : p.addr ∈ T.mapped m.self →
    ∃ r m', (calls.unmap p).run m = .ok (r, m') ∧
      match r with
      | false => T.Unchanged calls.pageSize m m'
      | true => T.Unmaps calls.pageSize m p m'

/-! ## What a call does -/

namespace PageCalls

variable {cfg : Cfg} {calls : PageCalls ω ε} {T : PageTable ω} {m m' : Machine ω}

theorem drop_run (page : RawPage) {r : Bool}
    (h : (calls.unmap page.asPtrMut).run m = .ok (r, m')) :
    (calls.drop page).run m = if r then .ok ((), m') else .error .assertion := by
  rw [drop, Exec.run_bind_ok h]
  cases r <;> rfl

/-- What a call of `alloc_new_lock` can do. -/
inductive AllocOutcome (calls : PageCalls ω ε) (cfg : Cfg) (T : PageTable ω) (m : Machine ω) :
    Except Fault (Except ε RawPage × Machine ω) → Prop
  | error {e : ε} {m' : Machine ω} (h : T.Unchanged calls.pageSize m m') :
      AllocOutcome calls cfg T m (.ok (.error e, m'))
  /-- The page cannot be locked, nor given back. -/
  | panic {p : Ptr} {m₁ m₂ : Machine ω} (hp : p.addr ∈ T.mapped m₁.self)
      (hunmap : (calls.unmap p).run m₁ = .ok (false, m₂)) :
      AllocOutcome calls cfg T m (.error .assertion)
  | page {page : RawPage} {m₁ m' : Machine ω} (h : T.Maps calls.pageSize cfg m page.asPtrMut m₁)
      (hsize : page.pageSize = calls.pageSize)
      (h' : T.Locks calls.pageSize m₁ page.asPtrMut m') :
      AllocOutcome calls cfg T m (.ok (.ok page, m'))

theorem allocNewLock_outcome (hcalls : calls.Lawful cfg T) (m : Machine ω) :
    AllocOutcome calls cfg T m (calls.allocNewLock.run m) := by
  obtain ⟨r, m₁, hmap, hr⟩ := hcalls.map m
  rw [allocNewLock, Exec.run_bind_ok hmap]
  rcases r with e | p
  · exact .error hr
  let page : RawPage := ⟨⟨p, hr.addr_ne_zero⟩, calls.pageSize⟩
  have hmapped : page.asPtrMut.addr ∈ T.mapped m₁.self := hr.mapped_eq ▸ Set.mem_insert _ _
  obtain ⟨r', m₂, hlock, hr'⟩ := hcalls.lock m₁ hmapped
  dsimp only
  rw [Exec.run_bind_ok (NonNull.newUnchecked_run hr.addr_ne_zero), Exec.run_bind_ok hlock]
  rcases r' with e | u
  · -- the page is mapped but not locked, and has to go
    have hmapped₂ : page.asPtrMut.addr ∈ T.mapped m₂.self := hr'.mapped_eq ▸ hmapped
    obtain ⟨r'', m₃, hunmap, hr''⟩ := hcalls.unmap m₂ hmapped₂
    dsimp only
    rcases r'' with _ | _
    · rw [Exec.run_bind_error (drop_run page hunmap)]
      exact .panic hmapped₂ hunmap
    · rw [Exec.run_bind_ok (drop_run page hunmap)]
      exact .error (hr.unmaps hcalls.locked_subset hr' hr'')
  · exact .page hr rfl hr'

/-! ## The contract -/

section

variable {base baseLocked : Set ℕ} {L : Ledger (Page cfg)} {i : ℕ}

/-- The backend does what the allocator relies on. -/
theorem backend_contract (hcalls : calls.Lawful cfg T) (base baseLocked : Set ℕ) :
    calls.backend.Contract
      fun (L : Ledger (Page cfg)) k _ => T.Holds calls.pageSize base baseLocked L k where
  client := fun h _ => h
  alloc_ok := by
    intro L m m' i raw h hi hrun
    have hout := allocNewLock_outcome hcalls m
    rw [show calls.allocNewLock.run m = _ from hrun] at hout
    cases hout with
    | page hmaps hsize hlocks =>
      have hvalid : raw.Valid cfg :=
        ⟨hsize ▸ hcalls.isPowerOfTwo_pageSize, hsize ▸ hcalls.eight_dvd_pageSize,
          hsize ▸ hmaps.dvd_addr, hsize ▸ hmaps.stop_le, hmaps.lo_eq, hsize ▸ hmaps.hi_eq⟩
      obtain ⟨hkeep, hpage⟩ := h.insert hcalls.locked_subset hi hvalid hsize hmaps hlocks
      exact ⟨hkeep, _, hpage⟩
  alloc_error := by
    intro L m m' e h hrun
    have hout := allocNewLock_outcome hcalls m
    rw [show calls.allocNewLock.run m = _ from hrun] at hout
    cases hout with
    | error hm => exact h.unchanged hm
  alloc_fault := by
    intro L m f h hrun
    have hout := allocNewLock_outcome hcalls m
    rw [show calls.allocNewLock.run m = _ from hrun] at hout
    cases hout with
    | panic => rfl
  drop_ok := by
    intro L m m' i h hi hrun
    obtain ⟨r, m₁, hunmap, hr⟩ :=
      hcalls.unmap (p := (L.block i).asPtrMut) m (h.mapped.key_mem hi)
    have hdrop := (drop_run (L.block i).raw hunmap).symm.trans hrun
    rcases r with _ | _
    · cases hdrop
    · cases hdrop
      exact h.erase hi hr
  drop_fault := by
    intro L m i f h hi hrun
    obtain ⟨r, m₁, hunmap, -⟩ :=
      hcalls.unmap (p := (L.block i).asPtrMut) m (h.mapped.key_mem hi)
    have hdrop := (drop_run (L.block i).raw hunmap).symm.trans hrun
    rcases r with _ | _ <;> cases hdrop
    rfl

/-- If the system always takes a page back, the calls return. -/
theorem returns (hcalls : calls.Lawful cfg T)
    (hunmap : ∀ (m : Machine ω) (p : Ptr), p.addr ∈ T.mapped m.self →
      ∃ m', (calls.unmap p).run m = .ok (true, m'))
    (h : T.Holds calls.pageSize base baseLocked L m.self) :
    (∃ r, calls.allocNewLock.run m = .ok r) ∧
      ∀ i ∈ L.live, ∃ m', (calls.drop (L.block i).raw).run m = .ok ((), m') := by
  constructor
  · have hout := allocNewLock_outcome hcalls m
    generalize calls.allocNewLock.run m = r at hout
    cases hout with
    | error | page => exact ⟨_, rfl⟩
    | @panic p m₁ m₂ hp hfail =>
      obtain ⟨m₃, hok⟩ := hunmap m₁ p hp
      cases hfail.symm.trans hok
  · intro i hi
    obtain ⟨m', hok⟩ := hunmap m (L.block i).asPtrMut (h.mapped.key_mem hi)
    exact ⟨m', drop_run (L.block i).raw hok⟩

end

end PageCalls

end SecmemAlloc
