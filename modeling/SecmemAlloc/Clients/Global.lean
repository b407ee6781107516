import SecmemAlloc.Clients.Secrecy
import SecmemAlloc.ZeroizingAlloc.GlobalAlloc

/-!
# Nothing is left of a secret behind the global allocator

As a `GlobalAlloc` the wrapper is told the exact size of every block, so all bytes of a block are
wiped that clients could have written.  Secrets may be anywhere in a block, then.
-/

namespace SecmemAlloc

variable {cfg : Cfg} {β : Type}

/-! ## The blocks of global allocators -/

namespace Ledger

/-- Blocks that do not meet, have bytes, and are as long as clients asked for. -/
structure Requested (L : Ledger Block) (cfg : Cfg) : Prop where
  sound : L.Sound cfg
  len_ne_zero : ∀ i ∈ L.live, (L.block i).len ≠ 0
  size_eq : ∀ i ∈ L.live, (L.block i).size = (L.block i).len

variable {L : Ledger Block}

theorem Requested.of_empty (h : L.live = ∅) : L.Requested cfg := by
  have hnone : ∀ i, i ∉ L.live := fun i => h ▸ Finset.notMem_empty i
  exact ⟨.of_empty h, fun i hi => absurd hi (hnone i), fun i hi => absurd hi (hnone i)⟩

theorem Requested.insert {layout : Layout cfg} {addr : ℕ} (h : L.Requested cfg)
    (hb : Grants L layout (GlobalAlloc.blockAt addr layout)) (h0 : layout.size ≠ 0) (i : ℕ) :
    (L.insert i (GlobalAlloc.blockAt addr layout)).Requested cfg where
  sound := h.sound.insert hb i
  len_ne_zero := forall_mem_insert (p := fun _ c => Block.len c ≠ 0) h0
    fun j hj _ => h.len_ne_zero j hj
  size_eq := forall_mem_insert (p := fun _ c => Block.size c = c.len) rfl
    fun j hj _ => h.size_eq j hj

theorem Requested.erase (h : L.Requested cfg) (i : ℕ) : (L.erase i).Requested cfg where
  sound := h.sound.erase i
  len_ne_zero := fun j hj => h.len_ne_zero j (Finset.mem_of_mem_erase hj)
  size_eq := fun j hj => h.size_eq j (Finset.mem_of_mem_erase hj)

theorem Requested.sized (h : L.Requested cfg) : L.Sized := fun i hi => (h.size_eq i hi).le

end Ledger

namespace GlobalAlloc

variable {G : GlobalAlloc cfg β} {Rep Rep' : Ledger Block → β → Memory UInt8 → Prop}
  {L : Ledger Block} {m m' : Machine β} {i : ℕ} {ptr : Ptr} {layout : Layout cfg}

theorem Answers.requested (hans : Answers Rep L i layout m' ptr) (h : L.Requested cfg)
    (h0 : layout.size ≠ 0) :
    Answers (fun L b mem => Rep L b mem ∧ L.Requested cfg) L i layout m' ptr := by
  simp only [Answers] at hans ⊢
  split at hans
  · rw [if_pos ‹_›]
    exact ⟨hans, h⟩
  · rw [if_neg ‹_›]
    exact ⟨hans.1, hans.2, h.insert hans.1 h0 i⟩

/-- What holds of the blocks of any global allocator may be added to its invariant. -/
theorem Contract.requested (hG : G.Contract Rep) :
    G.Contract fun L b mem => Rep L b mem ∧ L.Requested cfg where
  client := fun h hmem => ⟨hG.client h.1 hmem, h.2⟩
  alloc := by
    intro L m i layout h hi h0
    obtain ⟨p, m', hrun, hkeep, hans⟩ := hG.alloc h.1 hi h0
    exact ⟨p, m', hrun, hkeep, hans.requested h.2 h0⟩
  allocZeroed := by
    intro L m i layout h hi h0
    obtain ⟨p, m', hrun, hkeep, hans, hzero⟩ := hG.allocZeroed h.1 hi h0
    exact ⟨p, m', hrun, hkeep, hans.requested h.2 h0, hzero⟩
  dealloc := by
    intro L m i ptr layout h hheld
    obtain ⟨m', hrun, hkeep, hrep⟩ := hG.dealloc h.1 hheld
    exact ⟨m', hrun, hkeep, hrep, h.2.erase i⟩

/-- `alloc`, or `alloc_zeroed`. -/
def allocWith (G : GlobalAlloc cfg β) (zeroed : Bool) (layout : Layout cfg) : Code β Ptr :=
  if zeroed then G.allocZeroed layout else G.alloc layout

theorem Contract.allocWith_run (hG : G.Contract Rep) (hrep : Rep L m.self m.mem) (hi : i ∉ L.live)
    (h0 : layout.size ≠ 0) (zeroed : Bool) : ∃ p m',
      (G.allocWith zeroed layout).run m = .ok (p, m') ∧ L.Untouched m.mem m'.mem ∧
      Answers Rep L i layout m' p := by
  cases zeroed with
  | false => exact hG.alloc hrep hi h0
  | true =>
    obtain ⟨p, m', hrun, hkeep, hans, -⟩ := hG.allocZeroed hrep hi h0
    exact ⟨p, m', hrun, hkeep, hans⟩

/-- Wiping a block writes to this block only. -/
theorem Held.fill_of_notMem {a : ℕ} (h : Held L i ptr layout) (m : Machine β)
    (ha : a ∉ (L.block i).span) : (m.fill ptr layout.size 0).mem a = m.mem a := by
  rw [h.block_eq] at ha
  exact Block.fill_of_notMem (b := blockAt ptr.addr layout) ha

/-! ## Global allocators that do not look -/

/-- What the allocator answers and does depends on no byte of a live block.  The same goes for
the bytes `W` of a block that is given back, of which nothing is left either. -/
structure Oblivious (G : GlobalAlloc cfg β) (Rep : Ledger Block → β → Memory UInt8 → Prop)
    (W : Ptr → Layout cfg → Set ℕ) : Prop where
  allocWith {L : Ledger Block} {m g m' : Machine β} {D : Set ℕ} {layout : Layout cfg} {p : Ptr}
    (zeroed : Bool) : Rep L m.self m.mem → layout.size ≠ 0 →
    (∀ a ∈ D, ¬ L.Free Block.span a) → m.Twins D g →
    (G.allocWith zeroed layout).run m = .ok (p, m') →
    ∃ g', (G.allocWith zeroed layout).run g = .ok (p, g') ∧ m'.Twins D g'
  dealloc {L : Ledger Block} {m g m' : Machine β} {D : Set ℕ} {i : ℕ} {ptr : Ptr}
    {layout : Layout cfg} : Rep L m.self m.mem → Held L i ptr layout →
    (∀ a ∈ D, a ∈ W ptr layout ∨ ¬ (L.erase i).Free Block.span a) → m.Twins D g →
    (G.dealloc ptr layout).run m = .ok ((), m') →
    ∃ g', (G.dealloc ptr layout).run g = .ok ((), g') ∧ m'.Twins (D \ W ptr layout) g'

theorem Oblivious.mono {W W' : Ptr → Layout cfg → Set ℕ} (h : G.Oblivious Rep W)
    (hRep : ∀ {L : Ledger Block} {b : β} {mem : Memory UInt8}, Rep' L b mem → Rep L b mem)
    (hW : ∀ ptr layout, W' ptr layout ⊆ W ptr layout) : G.Oblivious Rep' W' where
  allocWith := fun zeroed hrep => h.allocWith zeroed (hRep hrep)
  dealloc := by
    intro L m g m' D i ptr layout hrep hheld hD hg hrun
    obtain ⟨g', hrun', hg'⟩ := h.dealloc (hRep hrep) hheld
      (fun a ha => (hD a ha).imp_left fun hmem => hW ptr layout hmem) hg hrun
    exact ⟨g', hrun', hg'.mono (Set.sdiff_subset_sdiff_right (hW ptr layout))⟩

/-- The bytes of a request for `layout` that was served at `ptr`. -/
def extent (ptr : Ptr) (layout : Layout cfg) : Set ℕ := ptr.extent layout.size

end GlobalAlloc

namespace Allocator

/-- The block behind a cut down one. -/
theorem Thins.held {L L' : Ledger Block} {i : ℕ} {ptr : Ptr} {layout : Layout cfg}
    (h : Thins L L') (hheld : GlobalAlloc.Held L i ptr layout) :
    ∃ hptr : ptr.addr ≠ 0, Held L' i ⟨ptr, hptr⟩ layout := by
  have hi : i ∈ L'.live := h.live_eq ▸ hheld.live
  have hblock := (h.block_eq i hi).symm.trans hheld.block_eq
  obtain ⟨haddr, -, hsize, halign⟩ := Block.mk.inj hblock
  exact ⟨haddr ▸ h.addr_ne_zero i hi, hi, haddr.symm, ⟨hsize.le, hsize ▸ h.size_le i hi⟩,
    halign.symm⟩

/-- An `Allocator` that does not look at the bytes of live blocks is a `GlobalAlloc` that does
not. -/
theorem Oblivious.toGlobalAlloc {A : Allocator cfg β}
    {Rep : Ledger Block → β → Memory UInt8 → Prop} (hO : A.Oblivious Rep fun _ _ => ∅)
    (hA : A.Contract Rep) : A.toGlobalAlloc.Oblivious (Thinned Rep) fun _ _ => ∅ where
  allocWith := by
    rintro L m g m' D layout p zeroed ⟨L', hthin, hrep⟩ h0 hD hg hrun
    have hcall : ∀ {s s' : Machine β} {r : AllocResult},
        (A.allocateWith zeroed layout).run s = .ok (r, s') →
          (A.toGlobalAlloc.allocWith zeroed layout).run s = .ok (r.asPtr, s') := by
      intro s s' r h
      cases zeroed
      · exact asPtr_run h
      · exact asPtr_run h
    obtain ⟨i, hi⟩ := Infinite.exists_notMem_finset L'.live
    obtain ⟨r, m'', halloc, -⟩ := hA.allocateWith_run hrep hi zeroed layout
    obtain ⟨rfl, rfl⟩ := Prod.mk.inj (Except.ok.inj ((hcall halloc).symm.trans hrun))
    obtain ⟨g', halloc', hg'⟩ := hO.allocateWith zeroed layout hrep
      (fun a ha hfree => hD a ha (hthin.free hfree)) hg halloc
    exact ⟨g', hcall halloc', hg'⟩
  dealloc := by
    rintro L m g m' D i ptr layout ⟨L', hthin, hrep⟩ hheld hD hg hrun
    obtain ⟨hptr, hheld'⟩ := hthin.held hheld
    have hcall : A.toGlobalAlloc.dealloc ptr layout = A.deallocate ⟨ptr, hptr⟩ layout :=
      dif_pos hptr
    rw [hcall] at hrun ⊢
    exact hO.deallocate hrep hheld'
      (fun a ha => (hD a ha).imp_right fun hnot hfree => hnot ((hthin.erase i).free hfree)) hg hrun

end Allocator

/-! ## The wrapper -/

namespace ZeroizeAlloc

open GlobalAlloc (Held Oblivious extent)

variable {G : GlobalAlloc cfg β} {Rep : Ledger Block → β → Memory UInt8 → Prop} {L : Ledger Block}
  {i : ℕ} {ptr : Ptr} {layout : Layout cfg}

/-- Every block that clients hold may be given back. -/
theorem dealloc_run_of_held (h : L.Requested cfg) (hheld : Held L i ptr layout) (m : Machine β) :
    ((ZeroizeAlloc.new G).globalAlloc.dealloc ptr layout).run m =
      (G.dealloc ptr layout).run (m.fill ptr layout.size 0) := by
  have hptr := h.sound.addr_ne_zero i hheld.live
  have h0 := h.len_ne_zero i hheld.live
  have hend := h.sound.stop_lt i hheld.live
  rw [hheld.block_eq] at hptr h0 hend
  exact dealloc_run hptr h0 hend

/-- Wiping a block is something that its client may do as well. -/
theorem wiped_rep (hG : G.Contract Rep) {m : Machine β} (hrep : Rep L m.self m.mem)
    (hheld : Held L i ptr layout) :
    Rep L (m.fill ptr layout.size 0).self (m.fill ptr layout.size 0).mem :=
  hG.client hrep (Ledger.free_of_writes hheld.live fun _ ha => hheld.fill_of_notMem m ha)

theorem globalAlloc_contract (hG : G.Contract Rep)
    (hreq : ∀ {L : Ledger Block} {b : β} {mem : Memory UInt8}, Rep L b mem → L.Requested cfg) :
    (ZeroizeAlloc.new G).globalAlloc.Contract Rep where
  client := hG.client
  alloc := by
    intro L m i layout hrep hi h0
    obtain ⟨p, m', hrun, hrest⟩ := hG.alloc hrep hi h0
    exact ⟨p, m', (alloc_run h0).trans hrun, hrest⟩
  allocZeroed := by
    intro L m i layout hrep hi h0
    obtain ⟨p, m', hrun, hrest⟩ := hG.allocZeroed hrep hi h0
    exact ⟨p, m', (allocZeroed_run h0).trans hrun, hrest⟩
  dealloc := by
    intro L m i ptr layout hrep hheld
    obtain ⟨m', hrun, hkeep, hrep'⟩ := hG.dealloc (wiped_rep hG hrep hheld) hheld
    have hwipe : (L.erase i).Untouched m.mem (m.fill ptr layout.size 0).mem :=
      (hreq hrep).sound.untouched_erase hheld.live fun _ ha => hheld.fill_of_notMem m ha
    exact ⟨m', (dealloc_run_of_held (hreq hrep) hheld m).trans hrun, hwipe.trans hkeep, hrep'⟩

/-- Of a block that is given back to the wrapper nothing is left. -/
theorem globalAlloc_oblivious (hG : G.Contract Rep)
    (hreq : ∀ {L : Ledger Block} {b : β} {mem : Memory UInt8}, Rep L b mem → L.Requested cfg)
    (hO : G.Oblivious Rep fun _ _ => ∅) :
    (ZeroizeAlloc.new G).globalAlloc.Oblivious Rep extent where
  allocWith := by
    intro L m g m' D layout p zeroed hrep h0 hD hg hrun
    have hcall : ∀ s : Machine β,
        ((ZeroizeAlloc.new G).globalAlloc.allocWith zeroed layout).run s =
          (G.allocWith zeroed layout).run s := by
      intro s
      cases zeroed
      · exact alloc_run h0
      · exact allocZeroed_run h0
    rw [hcall] at hrun ⊢
    exact hO.allocWith zeroed hrep h0 hD hg hrun
  dealloc := by
    intro L m g m' D i ptr layout hrep hheld hD hg hrun
    rw [dealloc_run_of_held (hreq hrep) hheld] at hrun ⊢
    obtain ⟨g', hrun', hg'⟩ := hO.dealloc (wiped_rep hG hrep hheld) hheld
      (fun a ha => Or.inr ((hD a ha.1).resolve_left ha.2)) (hg.fill ptr layout.size 0) hrun
    exact ⟨g', hrun', hg'.mono Set.sdiff_subset⟩

/-- `n` wrappers around each other, with `G` inside. -/
def nestedGlobal (G : GlobalAlloc cfg β) (n : ℕ) : GlobalAlloc cfg β :=
  (fun G => (ZeroizeAlloc.new G).globalAlloc)^[n] G

theorem nestedGlobal_succ (G : GlobalAlloc cfg β) (n : ℕ) :
    nestedGlobal G (n + 1) = (ZeroizeAlloc.new (nestedGlobal G n)).globalAlloc :=
  Function.iterate_succ_apply' _ n G

theorem nestedGlobal_contract (hG : G.Contract Rep)
    (hreq : ∀ {L : Ledger Block} {b : β} {mem : Memory UInt8}, Rep L b mem → L.Requested cfg)
    (n : ℕ) : (nestedGlobal G n).Contract Rep := by
  induction n with
  | zero => exact hG
  | succ n ih =>
    rw [nestedGlobal_succ]
    exact globalAlloc_contract ih hreq

theorem nestedGlobal_oblivious (hG : G.Contract Rep)
    (hreq : ∀ {L : Ledger Block} {b : β} {mem : Memory UInt8}, Rep L b mem → L.Requested cfg)
    (hO : G.Oblivious Rep fun _ _ => ∅) (n : ℕ) :
    (nestedGlobal G (n + 1)).Oblivious Rep extent := by
  induction n with
  | zero => exact globalAlloc_oblivious hG hreq hO
  | succ n ih =>
    rw [nestedGlobal_succ]
    exact globalAlloc_oblivious (nestedGlobal_contract hG hreq (n + 1)) hreq
      (ih.mono id fun _ _ => Set.empty_subset _)

end ZeroizeAlloc

/-! ## One call in two runs -/

namespace GlobalAlloc

/-- A global allocator with the methods of a wrapper, that forgets what was in the blocks. -/
structure Discreet (G : GlobalAlloc cfg β) (Rep : Ledger Block → β → Memory UInt8 → Prop) :
    Prop where
  contract : G.Contract Rep
  oblivious : G.Oblivious Rep extent
  requested {L : Ledger Block} {b : β} {mem : Memory UInt8} : Rep L b mem → L.Requested cfg
  realloc_eq : G.realloc = defaultRealloc G.alloc G.dealloc

/-- As a block of an `Allocator`. -/
theorem Held.toAllocator {L : Ledger Block} {i : ℕ} {ptr : Ptr} {layout : Layout cfg}
    (h : Held L i ptr layout) (hptr : ptr.addr ≠ 0) : Allocator.Held L i ⟨ptr, hptr⟩ layout where
  live := h.live
  addr_eq := h.block_eq ▸ rfl
  fit := h.block_eq ▸ ⟨le_rfl, le_rfl⟩
  align_eq := h.block_eq ▸ rfl

namespace Discreet

variable {G : GlobalAlloc cfg β} {Rep : Ledger Block → β → Memory UInt8 → Prop} {L : Ledger Block}
  {S : Set ℕ} {m g m' : Machine β} {i j : ℕ} {ptr : Ptr} {layout newLayout : Layout cfg}

theorem allocWith_twins (hG : G.Discreet Rep) {p : Ptr} {zeroed : Bool}
    (hrep : Rep L m.self m.mem) (h0 : layout.size ≠ 0) (hg : m.Twins (L.hidden S) g)
    (hrun : (G.allocWith zeroed layout).run m = .ok (p, m')) :
    ∃ g', (G.allocWith zeroed layout).run g = .ok (p, g') ∧ m'.Twins (L.hidden S) g' :=
  hG.oblivious.allocWith zeroed hrep h0
    (fun _ ha => Ledger.not_free_of_hidden (hG.requested hrep).sized ha) hg hrun

/-- Of a block that is given back nothing is hidden any more. -/
theorem dealloc_twins (hG : G.Discreet Rep) (hrep : Rep L m.self m.mem)
    (hheld : Held L i ptr layout) (hg : m.Twins (L.hidden S) g) :
    ∃ m' g', (G.dealloc ptr layout).run m = .ok ((), m') ∧
      (G.dealloc ptr layout).run g = .ok ((), g') ∧ Rep (L.erase i) m'.self m'.mem ∧
      m'.Twins ((L.erase i).hidden S) g' := by
  have hptr := (hG.requested hrep).sound.addr_ne_zero i hheld.live
  rw [hheld.block_eq] at hptr
  have hrelease : ∀ a ∈ L.hidden S, a ∈ extent ptr layout ∨ a ∈ (L.erase i).hidden S :=
    fun a ha => Ledger.hidden_release (hheld.toAllocator hptr) ha
  obtain ⟨m', hrun, -, hrep'⟩ := hG.contract.dealloc hrep hheld
  obtain ⟨g', hrun', hg'⟩ := hG.oblivious.dealloc hrep hheld (fun a ha =>
    (hrelease a ha).imp_right (Ledger.not_free_of_hidden (hG.requested hrep').sized)) hg hrun
  refine ⟨m', g', hrun, hrun', hrep', hg'.mono ?_⟩
  rintro a ⟨ha, hout⟩
  exact (hrelease a ha).resolve_left hout

variable (newLayout) in
/-- What is hidden in a block stays hidden when the block is moved. -/
theorem realloc_twins (hG : G.Discreet Rep) (hrep : Rep L m.self m.mem)
    (hheld : Held L i ptr layout) (hj : j ∉ L.live) (h0 : newLayout.size ≠ 0)
    (halign : newLayout.align = layout.align) (hS : i ∈ S → j ∈ S)
    (hg : m.Twins (L.hidden S) g) : ∃ p m' g' L',
      (G.realloc ptr layout newLayout.size).run m = .ok (p, m') ∧
      (G.realloc ptr layout newLayout.size).run g = .ok (p, g') ∧
      L' = (if p.addr = 0 then L else (L.insert j (blockAt p.addr newLayout)).erase i) ∧
      Rep L' m'.self m'.mem ∧ m'.Twins (L'.hidden S) g' := by
  obtain ⟨p, m₁, halloc, hkeep, hans⟩ := hG.contract.allocWith_run hrep hj h0 false
  obtain ⟨g₁, halloc', hg₁⟩ := hG.allocWith_twins hrep h0 hg halloc
  rw [hG.realloc_eq]
  simp only [Answers] at hans
  by_cases hp : p.addr = 0
  · rw [if_pos hp] at hans
    exact ⟨p, m₁, g₁, L, defaultRealloc_run_null halign halloc hp,
      defaultRealloc_run_null halign halloc' hp, (if_pos hp).symm, hans, hg₁⟩
  rw [if_neg hp] at hans
  obtain ⟨hgrants, hrep₁⟩ := hans
  have hreq := hG.requested hrep
  have hcopied := copied_of_grants hreq.sound hheld hj hgrants hkeep
    fun _ => hG.contract.client hrep₁
  have hg₂ : (m₁.copy ptr p (min layout.size newLayout.size)).Twins
      ((L.insert j (blockAt p.addr newLayout)).hidden S)
      (g₁.copy ptr p (min layout.size newLayout.size)) :=
    hg₁.copy_block hreq.sound hreq.sized hheld.live hj hS hheld.addr_eq rfl
      ((min_le_left _ _).trans_eq hheld.size_eq) (min_le_right _ _)
  obtain ⟨m₂, g₂, hdealloc, hdealloc', hrep₃, hg₃⟩ :=
    hG.dealloc_twins hcopied.rep (hheld.insert hj) hg₂
  exact ⟨p, m₂, g₂, _, defaultRealloc_run_ok halign halloc hp hdealloc,
    defaultRealloc_run_ok halign halloc' hp hdealloc', (if_neg hp).symm, hrep₃, hg₃⟩

end Discreet

end GlobalAlloc

theorem ZeroizeAlloc.nestedGlobal_discreet {G : GlobalAlloc cfg β}
    {Rep : Ledger Block → β → Memory UInt8 → Prop} (hG : G.Contract Rep)
    (hO : G.Oblivious Rep fun _ _ => ∅) (n : ℕ) : (nestedGlobal G (n + 1)).Discreet
      fun L b mem => Rep L b mem ∧ L.Requested cfg where
  contract := nestedGlobal_contract hG.requested And.right (n + 1)
  oblivious := nestedGlobal_oblivious hG.requested And.right
    (hO.mono And.left fun _ _ => subset_rfl) n
  requested := And.right
  realloc_eq := by
    rw [nestedGlobal_succ]
    rfl

/-! ## Two runs -/

namespace GlobalHeap

open GlobalAlloc (Answers blockAt)

/-- The same operation, but for the byte that is written to a block of `S`. -/
inductive SameBut (S : Set ℕ) : Op cfg → Op cfg → Prop
  | refl (op : Op cfg) : SameBut S op op
  | write {i : ℕ} (off : ℕ) (v w : UInt8) (hi : i ∈ S) : SameBut S (.write i off v) (.write i off w)

/-- Blocks of `S` become blocks of `S` when they are moved. -/
def Contained (S : Set ℕ) : Op cfg → Prop
  | .realloc i j _ _ _ => i ∈ S → j ∈ S
  | .alloc _ _ _ | .dealloc _ _ _ | .write _ _ _ => True

/-- The same heap, but for the bytes of the blocks of `S`. -/
structure Agree (S : Set ℕ) (h g : GlobalHeap β) : Prop where
  cells_eq : g.cells = h.cells
  ledger_eq : g.ledger = h.ledger
  mem_eq : ∀ a ∉ h.ledger.hidden S, g.mem a = h.mem a

variable {G : GlobalAlloc cfg β} {Rep : Ledger Block → β → Memory UInt8 → Prop} {S : Set ℕ}
  {h g : GlobalHeap β}

/-- Without blocks of `S` nothing differs. -/
theorem Agree.eq (hg : Agree S h g) (hS : ∀ i ∈ h.ledger.live, i ∉ S) : g = h := by
  obtain ⟨cells, mem, ledger⟩ := g
  obtain ⟨rfl, rfl, hmem⟩ := hg
  congr 1
  ext1 a
  refine hmem a ?_
  rintro ⟨i, hi, hiS, -⟩
  exact hS i hi hiS

/-- Operations that differ in what is hidden have the same answers, keep the invariant, and lead
to the same but for what is hidden. -/
theorem exec_agree (hG : G.Discreet Rep) (hrep : Rep h.ledger h.cells h.mem) (hg : Agree S h g)
    {op op' : Op cfg} (hop : SameBut S op op') (hl : h.Legal op) (hin : Contained S op) :
    g.Legal op' ∧ ∃ ans h' g', h.exec G op = .ok (ans, h') ∧ g.exec G op' = .ok (ans, g') ∧
      Rep h'.ledger h'.cells h'.mem ∧ Agree S h' g' := by
  obtain ⟨cells, mem, ledger⟩ := g
  obtain ⟨rfl, rfl, hmem⟩ := hg
  have htwins : h.machine.Twins (h.ledger.hidden S) (GlobalHeap.mk h.cells mem h.ledger).machine :=
    ⟨rfl, hmem⟩
  have hreq := hG.requested hrep
  cases hop with
  | @write i off v w hS =>
    obtain ⟨hi, hoff⟩ := hl
    have hsize := hreq.size_eq i hi
    have hmem' : (h.ledger.block i).addr + off ∈ h.ledger.hidden S :=
      ⟨i, hi, hS, Nat.le_add_right _ _, Nat.add_lt_add_left (hoff.trans_eq hsize.symm) _⟩
    refine ⟨⟨hi, hoff⟩, none, _, _, rfl, rfl,
      hG.contract.client hrep (Ledger.store_of_free hi hoff h.mem v), rfl, rfl, ?_⟩
    intro a ha
    have hne : a ≠ (h.ledger.block i).addr + off := fun heq => ha (heq ▸ hmem')
    show mem.store _ w a = h.mem.store _ v a
    rw [Memory.store_of_ne hne, Memory.store_of_ne hne]
    exact hmem a ha
  | refl =>
    refine ⟨by cases op <;> exact hl, ?_⟩
    cases op with
    | alloc zeroed i layout =>
      obtain ⟨hi, h0⟩ := hl
      obtain ⟨p, m', hrun, -, hans⟩ := hG.contract.allocWith_run (m := h.machine) hrep hi h0 zeroed
      obtain ⟨g', hrun', hg'⟩ := hG.allocWith_twins (m := h.machine) hrep h0 htwins hrun
      have hrun₁ : (if zeroed then G.allocZeroed layout else G.alloc layout).run h.machine =
          .ok (p, m') := hrun
      have hrun₂ : (if zeroed then G.allocZeroed layout else G.alloc layout).run
          (GlobalHeap.mk h.cells mem h.ledger).machine = .ok (p, g') := hrun'
      let L := if p.addr = 0 then h.ledger else h.ledger.insert i (blockAt p.addr layout)
      refine ⟨some p, ⟨m'.self, m'.mem, L⟩, ⟨g'.self, g'.mem, L⟩, by rw [exec, hrun₁]; rfl,
        by rw [exec, hrun₂]; rfl, ?_, hg'.self_eq, rfl, ?_⟩
      · simp only [Answers] at hans
        show Rep (if _ then _ else _) m'.self m'.mem
        split at hans
        · rwa [if_pos ‹_›]
        · rw [if_neg ‹_›]
          exact hans.2
      · intro a ha
        refine hg'.mem_eq a fun hold => ha ?_
        show a ∈ Ledger.hidden (if _ then _ else _) S
        split
        · exact hold
        · exact (Ledger.mem_hidden_insert_of_notMem hi).2 (Or.inr hold)
    | dealloc i ptr layout =>
      obtain ⟨m', g', hrun, hrun', hrep', hg'⟩ := hG.dealloc_twins (m := h.machine) hrep hl htwins
      exact ⟨none, ⟨m'.self, m'.mem, h.ledger.erase i⟩, ⟨g'.self, g'.mem, h.ledger.erase i⟩,
        by rw [exec, hrun]; rfl, by rw [exec, hrun']; rfl, hrep', hg'.self_eq, rfl, hg'.mem_eq⟩
    | realloc i j ptr layout newSize =>
      obtain ⟨hheld, hj, h0, hsize⟩ := hl
      let newLayout : Layout cfg := ⟨newSize, layout.align, layout.isPowerOfTwo_align, hsize⟩
      obtain ⟨p, m', g', L', hrun, hrun', hL, hrep', hg'⟩ :=
        hG.realloc_twins (m := h.machine) newLayout hrep hheld hj h0 rfl hin htwins
      refine ⟨some p, ⟨m'.self, m'.mem, L'⟩, ⟨g'.self, g'.mem, L'⟩, ?_, ?_, hrep', hg'.self_eq, rfl,
        hg'.mem_eq⟩
      · rw [exec, hrun, hL]
        rfl
      · rw [exec, hrun', hL]
        rfl
    | write i off v =>
      have hkeep := Ledger.store_of_free hl.1 hl.2 h.mem v
      exact ⟨none, _, _, rfl, rfl, hG.contract.client hrep hkeep, rfl, rfl,
        fun a ha => Memory.store_congr fun _ => hmem a ha⟩

/-- The events are the same, but for the bytes that are written to the blocks of `S`. -/
def SameEvent (S : Set ℕ) (e e' : Op cfg × Option Ptr) : Prop := SameBut S e.1 e'.1 ∧ e.2 = e'.2

theorem Step.agree (hG : G.Discreet Rep) (hrep : Rep h.ledger h.cells h.mem)
    {e e' : Op cfg × Option Ptr} {h' : GlobalHeap β} (hs : Step G h e h')
    (hin : Contained S e.1) (hg : Agree S h g) (he : SameEvent S e e') :
    ∃ g', Step G g e' g' ∧ Rep h'.ledger h'.cells h'.mem ∧ Agree S h' g' := by
  obtain ⟨hl', ans, h₂, g', hexec, hexec', hrep', hg'⟩ := exec_agree hG hrep hg he.1 hs.1 hin
  rw [hs.2] at hexec
  obtain ⟨hans, rfl⟩ := Prod.mk.inj (Except.ok.inj hexec)
  exact ⟨g', ⟨hl', by rw [hexec', ← he.2, hans]⟩, hrep', hg'⟩

/-- **Secrecy behind the global allocator.**  Put one or more wrappers around any global allocator
that does not look at the bytes of live blocks, whatever it does with the bytes of blocks it got
back.  With any other bytes written to the blocks of `S` every run goes through with the same
pointers and ends in the same cells, blocks and memory, but for the bytes of the blocks of `S`
that are live at its end.  Once these are given back nothing is left of them. -/
theorem global_secrecy (hG : G.Contract Rep) (hO : G.Oblivious Rep fun _ _ => ∅) {b : β}
    {mem : Memory UInt8} (hinit : Rep (init b mem).ledger b mem) (n : ℕ)
    {es es' : List (Op cfg × Option Ptr)}
    (hrun : Run (Step (ZeroizeAlloc.nestedGlobal G (n + 1))) (init b mem) es h)
    (hin : ∀ e ∈ es, Contained S e.1) (hes : List.Forall₂ (SameEvent S) es es') :
    ∃ h', Run (Step (ZeroizeAlloc.nestedGlobal G (n + 1))) (init b mem) es' h' ∧ Agree S h h' ∧
      ((∀ i ∈ h.ledger.live, i ∉ S) → h' = h) := by
  have hW := ZeroizeAlloc.nestedGlobal_discreet hG hO n
  have hes' : List.Forall₂ (fun e e' => Contained S e.1 ∧ SameEvent S e e') es es' :=
    (List.forall₂_and_left ..).2 ⟨hin, hes⟩
  obtain ⟨h', hrun', -, hagree⟩ := hrun.simulation_forall₂
    (R := fun h g => (Rep h.ledger h.cells h.mem ∧ h.ledger.Requested cfg) ∧ Agree S h g)
    (by
      rintro h e h₁ g e' ⟨hw, hg⟩ ⟨hin, he⟩ hs
      exact hs.agree hW hw hin hg he)
    ⟨⟨hinit, .of_empty rfl⟩, rfl, rfl, fun _ _ => rfl⟩ hes'
  exact ⟨h', hrun', hagree, hagree.eq⟩

/-- The block of nine bytes, given back to a wrapper around the allocator of one page. -/
def sampleReturned : GlobalHeap (SecStackSinglePageAlloc Heap.sampleCfg) :=
  ⟨sampleEnd.cells.1, sampleEnd.mem, sampleEnd.ledger⟩

def sampleReturn (v : UInt8) : List (Op Heap.sampleCfg × Option Ptr) :=
  [(.alloc false 0 Heap.nineBytes, some samplePtr), (.write 0 3 v, none),
    (.dealloc 0 samplePtr Heap.nineBytes, none)]

theorem sampleReturn_run : Run (Step (ZeroizeAlloc.nestedGlobal sampleBackend 1))
    (init Heap.sampleStart.alloc fun _ => 0) (sampleReturn 7) sampleReturned :=
  .snoc (.snoc (.snoc (.nil _) ⟨⟨Finset.notMem_empty 0, by decide⟩, rfl⟩)
    ⟨⟨Finset.mem_insert_self 0 ∅, by decide⟩, rfl⟩) ⟨⟨Finset.mem_insert_self 0 ∅, rfl⟩, rfl⟩

/-- With 9 in place of 7 the small run ends the same. -/
theorem global_secrecy_sample : Run (Step (ZeroizeAlloc.nestedGlobal sampleBackend 1))
    (init Heap.sampleStart.alloc fun _ => 0) (sampleReturn 9) sampleReturned := by
  have hA := SecStackSinglePageAlloc.allocator_fullContract Heap.sampleStart_zeroed
  have hes : List.Forall₂ (SameEvent {0}) (sampleReturn 7) (sampleReturn 9) :=
    .cons ⟨.refl _, rfl⟩ (.cons ⟨.write 3 7 9 rfl, rfl⟩ (.cons ⟨.refl _, rfl⟩ .nil))
  have hin : ∀ e ∈ sampleReturn 7, Contained {0} e.1 := by
    intro e he
    rcases List.mem_cons.1 he with rfl | he
    · trivial
    rcases List.mem_cons.1 he with rfl | he
    · trivial
    · rw [List.mem_singleton.1 he]
      trivial
  obtain ⟨h', hrun, -, heq⟩ := global_secrecy hA.toContract.toGlobalAlloc
    (SecStackSinglePageAlloc.allocator_oblivious.toGlobalAlloc hA.toContract)
    ⟨_, .of_empty rfl, Tends.start Heap.samplePage fun _ => 0⟩ 0 sampleReturn_run hin hes
  exact heq (by decide) ▸ hrun

end GlobalHeap

end SecmemAlloc
