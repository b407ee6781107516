import SecmemAlloc.Clients.SecAlloc
import SecmemAlloc.Lib.Ownership

/-!
# Pages under miri

`mem/miri.rs`: a page is a block of the global allocator, which is a parameter here, and nothing
is locked.  For the allocator this is as good as a page of the system, whatever other blocks the
process has.
-/

namespace SecmemAlloc

variable {cfg : Cfg} {ω : Type}

namespace Miri

/-- `PageAllocError`; a `LayoutError` carries nothing. -/
inductive PageAllocError
  | layout
  | alloc
  | lock
deriving DecidableEq, Repr

/-- `page_size`. -/
def pageSize : ℕ := 4096

section

variable (G : GlobalAlloc cfg ω)

/-- `Page::alloc_new`. -/
def allocNew : Code ω (Except PageAllocError RawPage) := do
  let pageSize := pageSize
  match Layout.fromSizeAlign cfg pageSize pageSize with
  | none => pure (.error .layout)
  | some layout => do
    let pagePtr ← G.allocZeroed layout
    if pagePtr.isNull then pure (.error .alloc)
    else do
      let pagePtr ← NonNull.newUnchecked pagePtr
      pure (.ok { pagePtr, pageSize })

/-- `Page::mlock`, which locks nothing. -/
def mlock (_page : RawPage) : Code ω (Except PageAllocError Unit) := do
  let res := 0
  if res = 0 then pure (.ok ()) else pure (.error .lock)

/-- `Drop for Page`; `unwrap` panics on an error. -/
def drop (page : RawPage) : Code ω Unit := do
  let ptr := page.asPtrMut
  let pageSize := page.pageSize
  match Layout.fromSizeAlign cfg pageSize pageSize with
  | none => throw .assertion
  | some layout => G.dealloc ptr layout

/-- `Page::alloc_new_lock`. -/
def allocNewLock : Code ω (Except PageAllocError RawPage) := do
  match ← allocNew G with
  | .error e => pure (.error e)
  | .ok page => do
    match ← mlock page with
    | .error e => do
      -- the early return drops `page`
      drop G page
      pure (.error e)
    | .ok () => pure (.ok page)

/-- `mem` under miri. -/
def backend : PageBackend ω PageAllocError := ⟨allocNewLock G, drop G⟩

end

/-! ## Pages among the blocks -/

/-- A page and the addresses before it leave room for its layout. -/
theorem pageSize_le_isizeMax (page : Page cfg) :
    page.pageSize + (page.pageSize - 1) ≤ cfg.isizeMax := by
  obtain ⟨k, hk⟩ := page.isPowerOfTwo_pageSize
  have hle := page.pageSize_le_pagePtr
  have hlt := page.pageEnd_lt
  have hpow : 2 ^ (k + 1) < 2 ^ cfg.pointerWidth := by
    rw [Nat.pow_succ]
    omega
  have hwidth : k + 1 < cfg.pointerWidth := (Nat.pow_lt_pow_iff_right (by decide)).1 hpow
  have hhalf : 2 ^ (k + 1) ≤ 2 ^ (cfg.pointerWidth - 1) :=
    Nat.pow_le_pow_right (by decide) (by omega)
  rw [Nat.pow_succ] at hhalf
  simp only [Cfg.isizeMax]
  omega

/-- The layout of a page. -/
def pageLayout (page : Page cfg) : Layout cfg :=
  ⟨page.pageSize, page.pageSize, page.isPowerOfTwo_pageSize, pageSize_le_isizeMax page⟩

/-- The block of a page. -/
def pageBlock (page : Page cfg) : Block :=
  ⟨page.pagePtr, page.pageSize, page.pageSize, page.pageSize⟩

theorem mem_span_pageBlock {page : Page cfg} {a : ℕ} : a ∈ (pageBlock page).span ↔ a ∈ page.range :=
  Iff.rfl

/-- The blocks of `M` are those of `base` and, under the names of `names`, the pages of `L`. -/
structure Holds (base : Ledger Block) (L : Ledger (Page cfg)) (M : Ledger Block)
    (names : Ledger ℕ) : Prop where
  live_eq : names.live = L.live
  owns : names.Owns id (base.live : Set ℕ) M.live
  base_eq : ∀ j ∈ base.live, M.block j = base.block j
  block_eq : ∀ i ∈ L.live, M.block (names.block i) = pageBlock (L.block i)
  pageSize_eq : ∀ i ∈ L.live, (L.block i).pageSize = pageSize

namespace Holds

variable {base M : Ledger Block} {L : Ledger (Page cfg)} {names : Ledger ℕ} {i j : ℕ}
  {page : Page cfg} {mem mem' : Memory UInt8}

/-- Without pages all blocks are other ones. -/
theorem of_empty (hL : L.live = ∅) (hnames : names.live = ∅) : Holds M L M names where
  live_eq := hnames.trans hL.symm
  owns := .of_empty hnames
  base_eq := fun _ _ => rfl
  block_eq := fun i hi => absurd hi (hL ▸ Finset.notMem_empty i)
  pageSize_eq := fun i hi => absurd hi (hL ▸ Finset.notMem_empty i)

theorem live (h : Holds base L M names) (hi : i ∈ L.live) : names.block i ∈ M.live :=
  h.owns.key_mem (h.live_eq ▸ hi)

theorem mem_span (h : Holds base L M names) (hi : i ∈ L.live) {a : ℕ} :
    a ∈ (M.block (names.block i)).span ↔ a ∈ (L.block i).range := by
  rw [h.block_eq i hi, mem_span_pageBlock]

theorem kept (h : Holds base L M names) (hkeep : M.Untouched mem mem') : L.Kept mem mem' :=
  fun _ hi a ha => hkeep _ (h.live hi) a ((h.mem_span hi).2 ha)

theorem insert (h : Holds base L M names) (hi : i ∉ L.live) (hj : j ∉ M.live)
    (hsize : page.pageSize = pageSize) :
    Holds base (L.insert i page) (M.insert j (pageBlock page)) (names.insert i j) := by
  have hbase : ∀ k ∈ base.live, k ∈ M.live := fun k hk => h.owns.base_subset hk
  constructor
  · simp [h.live_eq]
  · have howns := h.owns.insert (i := i) (b := j) (h.live_eq ▸ hi) hj
    simpa using howns
  · intro k hk
    rw [Ledger.block_insert_of_ne (ne_of_mem_of_not_mem (hbase k hk) hj)]
    exact h.base_eq k hk
  · intro k hk
    rcases Finset.mem_insert.1 hk with rfl | hk'
    · simp
    · have hki : k ≠ i := ne_of_mem_of_not_mem hk' hi
      rw [Ledger.block_insert_of_ne hki, Ledger.block_insert_of_ne hki,
        Ledger.block_insert_of_ne (ne_of_mem_of_not_mem (h.live hk') hj)]
      exact h.block_eq k hk'
  · exact Ledger.forall_mem_insert (p := fun _ c => c.pageSize = pageSize) hsize
      fun k hk _ => h.pageSize_eq k hk

theorem erase (h : Holds base L M names) (hi : i ∈ L.live) :
    Holds base (L.erase i) (M.erase (names.block i)) (names.erase i) where
  live_eq := congrArg (Finset.erase · i) h.live_eq
  owns := by
    have howns := h.owns.erase (h.live_eq ▸ hi)
    simpa using howns
  base_eq := h.base_eq
  block_eq := fun k hk => h.block_eq k (Finset.mem_of_mem_erase hk)
  pageSize_eq := fun k hk => h.pageSize_eq k (Finset.mem_of_mem_erase hk)

end Holds

/-! ## The calls -/

/-- The pages of `L` are live blocks of the global allocator, each its own; the other ones are
those of `base`. -/
def Rep (GRep : Ledger Block → ω → Memory UInt8 → Prop) (base : Ledger Block)
    (L : Ledger (Page cfg)) (k : ω) (mem : Memory UInt8) : Prop :=
  ∃ M names, GRep M k mem ∧ Holds base L M names

/-- The pointers to new pages may be used for the page, and for nothing else. -/
def Covers (G : GlobalAlloc cfg ω) (GRep : Ledger Block → ω → Memory UInt8 → Prop) : Prop :=
  ∀ (M : Ledger Block) (m m' : Machine ω) (layout : Layout cfg) (p : Ptr), GRep M m.self m.mem →
    layout.size = pageSize → (G.allocZeroed layout).run m = .ok (p, m') → p.addr ≠ 0 →
    p.lo = p.addr ∧ p.hi = p.addr + pageSize

section

variable {G : GlobalAlloc cfg ω} {GRep : Ledger Block → ω → Memory UInt8 → Prop}
  {base M : Ledger Block} {L : Ledger (Page cfg)} {m m' : Machine ω} {i j : ℕ}

theorem size_of_fromSizeAlign {n : ℕ} {layout : Layout cfg}
    (h : Layout.fromSizeAlign cfg n n = some layout) : layout.size = n ∧ layout.align = n := by
  simp only [Layout.fromSizeAlign] at h
  split at h
  · cases h
    exact ⟨rfl, rfl⟩
  · cases h

/-- A pointer that the global allocator has returned makes a page. -/
theorem valid_of_grants {layout : Layout cfg} {p : Ptr} (hp : p.addr ≠ 0)
    (hsize : layout.size = pageSize) (halign : layout.align = pageSize)
    (hgrants : Grants M layout (GlobalAlloc.blockAt p.addr layout))
    (hrange : p.lo = p.addr ∧ p.hi = p.addr + pageSize) :
    (RawPage.mk ⟨p, hp⟩ pageSize).Valid cfg where
  isPowerOfTwo_pageSize := ⟨12, rfl⟩
  eight_dvd_pageSize := ⟨512, rfl⟩
  pageSize_dvd_addr := halign ▸ hgrants.align_dvd
  stop_le := by
    have hstop := hgrants.stop_lt
    simp only [GlobalAlloc.blockAt, hsize] at hstop
    exact Nat.le_sub_one_of_lt hstop
  lo_eq := hrange.1
  hi_eq := hrange.2

/-- What a call of `alloc_new_lock` does to the blocks of the process. -/
theorem allocNewLock_run (hG : G.Contract GRep) (hcovers : Covers G GRep)
    (hrep : GRep M m.self m.mem) (hj : j ∉ M.live) :
    ∃ r m', (allocNewLock G).run m = .ok (r, m') ∧ M.Untouched m.mem m'.mem ∧
      match r with
      | .error e => e ≠ .lock ∧ GRep M m'.self m'.mem
      | .ok raw => ∃ page : Page cfg, raw = page.raw ∧ page.pageSize = pageSize ∧
          (∀ a ∈ page.range, m'.mem a = 0) ∧
          (∀ k ∈ M.live, (pageBlock page).span.Apart (M.block k).span) ∧
          GRep (M.insert j (pageBlock page)) m'.self m'.mem := by
  cases hlayout : Layout.fromSizeAlign cfg pageSize pageSize with
  | none =>
    refine ⟨.error .layout, m, ?_, fun _ _ _ _ => rfl, by simp, hrep⟩
    simp only [allocNewLock, allocNew, hlayout, pure_bind]
    rfl
  | some layout =>
    obtain ⟨hsize, halign⟩ := size_of_fromSizeAlign hlayout
    have h0 : layout.size ≠ 0 := by
      rw [hsize]
      decide
    obtain ⟨p, m', hrun, hkeep, hans, hzero⟩ := hG.allocZeroed hrep hj h0
    simp only [GlobalAlloc.Answers] at hans
    by_cases hp : p.addr = 0
    · rw [if_pos hp] at hans
      refine ⟨.error .alloc, m', ?_, hkeep, by simp, hans⟩
      have hnull : p.isNull = true := beq_iff_eq.2 hp
      simp only [allocNewLock, allocNew, hlayout, bind_assoc]
      rw [Exec.run_bind_ok hrun, if_pos hnull]
      rfl
    · rw [if_neg hp] at hans
      obtain ⟨hgrants, hrep'⟩ := hans
      have hrange := hcovers M m m' layout p hrep hsize hrun hp
      have hvalid := valid_of_grants hp hsize halign hgrants hrange
      let page : Page cfg := (RawPage.mk ⟨p, hp⟩ pageSize).toPage hvalid
      have hblock : GlobalAlloc.blockAt p.addr layout = pageBlock page := by
        simp only [GlobalAlloc.blockAt, hsize, halign]
        rfl
      rw [hblock] at hgrants hrep'
      refine ⟨.ok ⟨⟨p, hp⟩, pageSize⟩, m', ?_, hkeep, page, (RawPage.raw_toPage hvalid).symm, rfl,
        ?_, hgrants.apart, hrep'⟩
      · have hnull : ¬ p.isNull = true := fun h => hp (beq_iff_eq.1 h)
        simp only [allocNewLock, allocNew, hlayout, bind_assoc]
        rw [Exec.run_bind_ok hrun, if_neg hnull, bind_assoc,
          Exec.run_bind_ok (NonNull.newUnchecked_run hp)]
        rfl
      · intro a ha
        have ha' : p.addr ≤ a ∧ a < p.addr + pageSize := Page.mem_range.1 ha
        have hbyte := hzero hp (a - p.addr) (by rw [hsize]; omega)
        rwa [Nat.add_sub_cancel' ha'.1] at hbyte

/-- A page that was made can be given back. -/
theorem drop_run (hG : G.Contract GRep) {names : Ledger ℕ} (hrep : GRep M m.self m.mem)
    (h : Holds base L M names) (hi : i ∈ L.live) :
    ∃ m', (drop G (L.block i).raw).run m = .ok ((), m') ∧
      (M.erase (names.block i)).Untouched m.mem m'.mem ∧
      GRep (M.erase (names.block i)) m'.self m'.mem := by
  have hheld : GlobalAlloc.Held M (names.block i) (L.block i).raw.asPtrMut
      (pageLayout (L.block i)) := ⟨h.live hi, h.block_eq i hi⟩
  obtain ⟨m', hrun, hkeep, hrep'⟩ := hG.dealloc hrep hheld
  refine ⟨m', ?_, hkeep, hrep'⟩
  have hlayout := Layout.fromSizeAlign_self (pageLayout (L.block i))
  simp only [drop, Page.pageSize_raw]
  rw [show Layout.fromSizeAlign cfg (L.block i).pageSize (L.block i).pageSize = _ from hlayout]
  exact hrun

/-- Pages of the global allocator do what the allocator relies on. -/
theorem backend_contract (hG : G.Contract GRep) (hcovers : Covers G GRep) (base : Ledger Block) :
    (backend G).Contract fun (L : Ledger (Page cfg)) k mem => Rep GRep base L k mem where
  client := by
    rintro L k mem mem' ⟨M, names, hrep, h⟩ hmem
    refine ⟨M, names, hG.client hrep fun a ha => hmem a fun i hi hai => ?_, h⟩
    exact ha _ (h.live hi) ((h.mem_span hi).2 hai)
  alloc_ok := by
    rintro L m m' i raw ⟨M, names, hrep, h⟩ hi hrun
    obtain ⟨j, hj⟩ := Infinite.exists_notMem_finset M.live
    obtain ⟨r, m'', hrun', hkeep, hr⟩ := allocNewLock_run hG hcovers hrep hj
    obtain ⟨rfl, rfl⟩ : r = .ok raw ∧ m'' = m' := by simpa using hrun'.symm.trans hrun
    obtain ⟨page, hraw, hsize, hzero, hapart, hrep'⟩ := hr
    refine ⟨h.kept hkeep, page, hraw, hzero, ?_, _, _, hrep', h.insert hi hj hsize⟩
    intro k hk
    rw [Set.disjoint_left]
    intro a ha ha'
    exact (hapart _ (h.live hk)).notMem ha ((h.mem_span hk).2 ha')
  alloc_error := by
    rintro L m m' e ⟨M, names, hrep, h⟩ hrun
    obtain ⟨j, hj⟩ := Infinite.exists_notMem_finset M.live
    obtain ⟨r, m'', hrun', hkeep, hr⟩ := allocNewLock_run hG hcovers hrep hj
    obtain ⟨rfl, rfl⟩ : r = .error e ∧ m'' = m' := by simpa using hrun'.symm.trans hrun
    exact ⟨h.kept hkeep, M, names, hr.2, h⟩
  alloc_fault := by
    rintro L m f ⟨M, names, hrep, h⟩ hrun
    obtain ⟨j, hj⟩ := Infinite.exists_notMem_finset M.live
    obtain ⟨r, m', hrun', -⟩ := allocNewLock_run hG hcovers hrep hj
    have habsurd := hrun'.symm.trans hrun
    cases habsurd
  drop_ok := by
    rintro L m m' i ⟨M, names, hrep, h⟩ hi hrun
    obtain ⟨m'', hrun', hkeep, hrep'⟩ := drop_run hG hrep h hi
    obtain rfl : m'' = m' := by simpa using hrun'.symm.trans hrun
    exact ⟨(h.erase hi).kept hkeep, _, _, hrep', h.erase hi⟩
  drop_fault := by
    rintro L m i f ⟨M, names, hrep, h⟩ hi hrun
    obtain ⟨m', hrun', -⟩ := drop_run hG hrep h hi
    have habsurd := hrun'.symm.trans hrun
    cases habsurd

/-- **Pages under miri.**  With every global allocator that meets its contract, and whatever other
blocks the process has, the backend does what the allocator relies on.  Making a page returns, and
never for want of a lock; a new page does not meet any block of the process, and all their bytes
stay as they are.  Giving a page back never panics, and only its block is gone. -/
theorem pages_on_miri (hG : G.Contract GRep) (hcovers : Covers G GRep) (base : Ledger Block) :
    ((backend G).Contract fun (L : Ledger (Page cfg)) k mem => Rep GRep base L k mem) ∧
    ∀ (L : Ledger (Page cfg)) (M : Ledger Block) (names : Ledger ℕ) (m : Machine ω),
      GRep M m.self m.mem → Holds base L M names →
      (∃ r m', (allocNewLock G).run m = .ok (r, m') ∧ r ≠ .error .lock ∧
        M.Untouched m.mem m'.mem ∧
        match r with
        | .error _ => GRep M m'.self m'.mem
        | .ok raw => ∃ page : Page cfg, raw = page.raw ∧ page.pageSize = pageSize ∧
            (∀ a ∈ page.range, m'.mem a = 0) ∧
            (∀ k ∈ M.live, (pageBlock page).span.Apart (M.block k).span) ∧
            ∃ j ∉ M.live, GRep (M.insert j (pageBlock page)) m'.self m'.mem) ∧
      ∀ i ∈ L.live, ∃ m', (drop G (L.block i).raw).run m = .ok ((), m') ∧
        (M.erase (names.block i)).Untouched m.mem m'.mem ∧
        GRep (M.erase (names.block i)) m'.self m'.mem := by
  refine ⟨backend_contract hG hcovers base, fun L M names m hrep h => ⟨?_, ?_⟩⟩
  · obtain ⟨j, hj⟩ := Infinite.exists_notMem_finset M.live
    obtain ⟨r, m', hrun, hkeep, hr⟩ := allocNewLock_run hG hcovers hrep hj
    refine ⟨r, m', hrun, ?_, hkeep, ?_⟩
    · rintro rfl
      exact hr.1 rfl
    · cases r with
      | error e => exact hr.2
      | ok raw =>
        obtain ⟨page, hraw, hsize, hzero, hapart, hrep'⟩ := hr
        exact ⟨page, hraw, hsize, hzero, hapart, j, hj, hrep'⟩
  · intro i hi
    exact drop_run hG hrep h hi

end

/-! ## A small global allocator -/

open Heap (sampleCfg samplePage sampleStart nineBytes sampleStart_zeroed)

/-- The allocator on one page, as the global allocator. -/
def smallGlobal : GlobalAlloc sampleCfg (SecStackSinglePageAlloc sampleCfg) :=
  SecStackSinglePageAlloc.allocator.toGlobalAlloc

def smallRep : Ledger Block → SecStackSinglePageAlloc sampleCfg → Memory UInt8 → Prop :=
  Allocator.Thinned (Tends samplePage fun _ => 0)

theorem smallGlobal_contract : smallGlobal.Contract smallRep :=
  (SecStackSinglePageAlloc.allocator_fullContract sampleStart_zeroed).toContract.toGlobalAlloc

/-- A page takes all of it. -/
theorem smallGlobal_covers : Covers smallGlobal smallRep := by
  rintro M m m' layout p ⟨L', -, h⟩ hsize hrun hp
  have hrun' : (smallGlobal.allocZeroed layout).run m =
      .ok ((Exact.allocate layout m).1.asPtr, (Exact.allocate layout m).2) :=
    Allocator.asPtr_run
      (SecStackSinglePageAlloc.allocateZeroed_run h.wellFormed.consistent layout)
  obtain ⟨hans, -⟩ := Prod.mk.inj (Except.ok.inj (hrun'.symm.trans hrun))
  have hpage : m.self.page = samplePage := h.page_eq
  have h0 : layout.size ≠ 0 := by
    rw [hsize]
    decide
  by_cases hfit : m.self.Fits layout
  · rw [Exact.allocate_of_fits h0 hfit] at hans
    subst hans
    have hge := m.self.freshAddr_ge layout.align
    have hround := le_rounded layout.size
    simp only [SecStackSinglePageAlloc.Fits, SecStackSinglePageAlloc.pageEnd] at hfit
    simp only [SecStackSinglePageAlloc.stackTop] at hge
    have hsample : m.self.page.pageSize = pageSize := congrArg Page.pageSize hpage
    show m.self.page.pagePtr = m.self.freshAddr layout.align ∧
      m.self.page.pagePtr + m.self.page.pageSize = m.self.freshAddr layout.align + pageSize
    omega
  · rw [Exact.allocate_of_not_fits h0 hfit] at hans
    subst hans
    exact absurd rfl hp

/-- The small allocator has a page to give unless it has given out another block. -/
theorem pages_on_miri_sample :
    (∃ (page : Page sampleCfg) (m' : Machine (SecStackSinglePageAlloc sampleCfg)),
      (allocNewLock smallGlobal).run sampleStart.machine = .ok (.ok page.raw, m') ∧
      page.pageSize = 4096 ∧ ∀ a ∈ page.range, m'.mem a = 0) ∧
    ∃ m', (allocNewLock smallGlobal).run (sampleStart.place 0 nineBytes).machine =
        .ok (.error .alloc, m') ∧
      ∀ a ∈ Set.Ico 65536 65545, m'.mem a = (sampleStart.place 0 nineBytes).mem a := by
  have hrep : smallRep sampleStart.ledger sampleStart.alloc fun _ => 0 :=
    ⟨_, .of_empty rfl, Tends.start samplePage fun _ => 0⟩
  have hpages : ∀ (M : Ledger Block) (m : Machine (SecStackSinglePageAlloc sampleCfg)),
      smallRep M m.self m.mem → _ := fun M m hrep =>
    (pages_on_miri smallGlobal_contract smallGlobal_covers M).2 ⟨∅, fun _ => samplePage⟩ M
      ⟨∅, fun _ => 0⟩ m hrep (.of_empty rfl rfl)
  constructor
  · obtain ⟨⟨r, m', hrun, -, -, hr⟩, -⟩ := hpages _ sampleStart.machine hrep
    have hfirst : ((allocNewLock smallGlobal).run sampleStart.machine).map Prod.fst =
        .ok (.ok samplePage.raw) := by decide
    rw [hrun] at hfirst
    obtain rfl : r = .ok samplePage.raw := Except.ok.inj hfirst
    obtain ⟨page, hraw, hsize, hzero, -⟩ := hr
    exact ⟨page, m', hraw ▸ hrun, hsize, hzero⟩
  · let L : Ledger Block := sampleStart.ledger.insert 0 (GlobalAlloc.blockAt 65536 nineBytes)
    have h0 : nineBytes.size ≠ 0 := by decide
    obtain ⟨p, m₁, halloc, -, hans⟩ :=
      smallGlobal_contract.alloc (m := sampleStart.machine) (i := 0) hrep (Finset.notMem_empty 0) h0
    obtain ⟨rfl, rfl⟩ := Prod.mk.inj (Except.ok.inj halloc)
    have hrep' : smallRep L (sampleStart.place 0 nineBytes).alloc fun _ => 0 := hans.2
    obtain ⟨⟨r, m', hrun, -, hkeep, -⟩, -⟩ :=
      hpages L (sampleStart.place 0 nineBytes).machine hrep'
    have hfirst : ((allocNewLock smallGlobal).run (sampleStart.place 0 nineBytes).machine).map
        Prod.fst = .ok (.error .alloc) := by decide
    rw [hrun] at hfirst
    obtain rfl : r = .error .alloc := Except.ok.inj hfirst
    exact ⟨m', hrun, fun a ha => hkeep 0 (Finset.mem_insert_self 0 _) a ha⟩

end Miri

end SecmemAlloc
