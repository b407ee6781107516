import SecmemAlloc.Clients.Contract
import SecmemAlloc.SecAlloc.Failure
import SecmemAlloc.SecAlloc.IdealHeap
import SecmemAlloc.SecAlloc.Locality

/-!
# The allocator meets the whole contract

The three resizing methods of `SecStackSinglePageAlloc` have bodies of their own: they work in
place where they can.  Each of their effects on a block is one that the contract allows.
-/

namespace SecmemAlloc

variable {cfg : Cfg}

/-! ## Earlier accesses do not matter -/

namespace Exact

variable (ptr : NonNull) (layout oldLayout newLayout : Layout cfg) (s : SecMachine cfg)

theorem allocate_withLog (log : List Access) : allocate layout { s with log } =
    ((allocate layout s).1, { (allocate layout s).2 with log }) := by
  simp only [allocate]
  split
  · rfl
  · split <;> rfl

theorem deallocate_withLog (log : List Access) : ∃ log', deallocate ptr layout { s with log } =
    { deallocate ptr layout s with log := log' } := by
  simp only [deallocate]
  split
  · exact ⟨log, rfl⟩
  · exact ⟨_, rfl⟩

theorem realloc_withLog (n : ℕ) (log : List Access) :
    ∃ log', realloc n ptr oldLayout newLayout { s with log } =
      ((realloc n ptr oldLayout newLayout s).1,
        { (realloc n ptr oldLayout newLayout s).2 with log := log' }) := by
  simp only [realloc, allocate_withLog]
  rcases allocate newLayout s with ⟨e | newPtr, t⟩
  · exact ⟨log, rfl⟩
  · obtain ⟨log', hlog⟩ := deallocate_withLog ptr oldLayout (t.copy ptr.asPtr newPtr.asPtr n)
      (({ t with log } : SecMachine cfg).copy ptr.asPtr newPtr.asPtr n).log
    exact ⟨log', congrArg (Prod.mk _) hlog⟩

end Exact

/-- What a resizing call answers and leaves does not depend on the accesses made before it. -/
theorem Resize.exact_withLog (kind : Resize) (ptr : NonNull) (oldLayout newLayout : Layout cfg)
    (s : SecMachine cfg) (log : List Access) :
    ∃ log', kind.exact ptr oldLayout newLayout { s with log } =
      ((kind.exact ptr oldLayout newLayout s).1,
        { (kind.exact ptr oldLayout newLayout s).2 with log := log' }) := by
  have hgrow : ∃ log', Exact.grow ptr oldLayout newLayout { s with log } =
      ((Exact.grow ptr oldLayout newLayout s).1,
        { (Exact.grow ptr oldLayout newLayout s).2 with log := log' }) := by
    simp only [Exact.grow]
    split
    · exact ⟨log, Exact.allocate_withLog newLayout s log⟩
    split
    · split <;> exact ⟨log, rfl⟩
    · exact Exact.realloc_withLog ptr oldLayout newLayout s _ log
  cases kind with
  | grow | growZeroed => exact hgrow
  | shrink =>
    simp only [Resize.exact, Exact.shrink]
    split
    · obtain ⟨log', hlog⟩ := Exact.deallocate_withLog ptr oldLayout s log
      exact ⟨log', congrArg (Prod.mk _) hlog⟩
    split
    · exact ⟨_, rfl⟩
    · exact Exact.realloc_withLog ptr oldLayout newLayout s _ log
  | reallocGrow | reallocShrink => exact Exact.realloc_withLog ptr oldLayout newLayout s _ log

/-! ## What a resizing call does to the bytes -/

namespace Heap

variable {h h' : Heap cfg} {mem₀ : Memory UInt8} {kind : Resize} {i : ℕ} {ptr : NonNull}
  {layout oldLayout newLayout : Layout cfg} {slice : NonNullSlice}

/-- The bytes of the blocks other than `i`. -/
theorem Effect.untouched (hw : h.WellFormed) {ans : AllocResult}
    (heff : Effect h (.resize kind i ptr oldLayout newLayout, some ans) h') :
    (h.ledger.erase i).Untouched h.mem h'.mem := by
  intro j hj a ha
  obtain ⟨hji, hj'⟩ := Finset.mem_erase.1 hj
  cases heff with
  | vacate hheld => exact hw.fill_other hheld.live le_rfl le_rfl h.mem hj' hji ha
  | trim hheld hle =>
    have hlen := (rounded_mono hle).trans_eq (hw.rounded_eq hheld.live hheld.fit)
    exact hw.fill_other hheld.live (Nat.le_add_right _ _) (by omega) h.mem hj' hji ha
  | move hheld =>
    have hge := h.alloc.freshAddr_ge newLayout.align
    have hbelow : ¬ h.alloc.stackTop ≤ a :=
      fun hle => hw.packed.free_of_lt_or_le (Or.inr hle) j hj' ha
    show (h.mem.copy _ _ _).fill _ _ 0 a = h.mem a
    rw [hw.fill_other hheld.live le_rfl le_rfl _ hj' hji ha, Memory.copy_of_notMem (by omega)]
  | extend | extendFailed | moveFailed => rfl

/-- Every byte of a resized block is zero or the old one at its place, and the bytes that both
sizes have in common are the old ones. -/
theorem Effect.resized (hw : h.WellFormed) (hzero : h.alloc.page.Zeroed mem₀) (hm : h.Clean mem₀)
    (heff : Effect h (.resize kind i ptr oldLayout newLayout, some (.ok slice)) h') {k : ℕ}
    (hk : k < slice.len) :
    (k < (h.ledger.block i).len ∧
        h'.mem (slice.asPtr.addr + k) = h.mem ((h.ledger.block i).addr + k)) ∨
      min oldLayout.size newLayout.size ≤ k ∧ h'.mem (slice.asPtr.addr + k) = 0 := by
  cases heff with
  | vacate => exact absurd hk (Nat.not_lt_zero k)
  | trim hheld hle hne hin =>
    have hk' : k < rounded newLayout.size := hk
    have hlen := (rounded_mono hle).trans_eq (hw.rounded_eq hheld.live hheld.fit)
    refine Or.inl ⟨by omega, ?_⟩
    show h.mem.fill _ _ 0 (ptr.asPtr.addr + k) = _
    rw [hheld.addr_eq, Memory.fill_of_notMem (by omega)]
  | extend hkind hheld hle hne hin hroom =>
    have hk' : k < rounded newLayout.size := hk
    obtain ⟨-, -, htop⟩ := (inPlace_iff hkind).1 hin
    have hfit := hheld.fit.2
    show (_ ∧ h.mem (ptr.asPtr.addr + k) = _) ∨ _ ∧ h.mem (ptr.asPtr.addr + k) = 0
    rw [hheld.addr_eq]
    by_cases hold : k < (h.ledger.block i).len
    · exact Or.inl ⟨hold, rfl⟩
    · exact Or.inr ⟨by omega, hm.eq_zero hw hzero (by omega) (by omega)⟩
  | move hheld hord hne hin hfit =>
    have hk' : k < rounded newLayout.size := hk
    have hbyte := move_mem (n := min oldLayout.size newLayout.size) hw hheld.live
      (hm.fresh_eq_zero hw hzero hfit) hk'
    have hlen := hheld.fit.2
    by_cases hold : k < min oldLayout.size newLayout.size
    · rw [if_pos hold] at hbyte
      exact Or.inl ⟨by omega, hbyte⟩
    · rw [if_neg hold] at hbyte
      exact Or.inr ⟨by omega, hbyte⟩

/-- A resized block keeps its name. -/
theorem Effect.ledger_eq
    (heff : Effect h (.resize kind i ptr oldLayout newLayout, some (.ok slice)) h') :
    h'.ledger = h.ledger.insert i (.ofSlice slice newLayout) := by
  cases heff with
  | vacate hheld => exact Ledger.insert_erase _ hheld.live
  | trim hheld | extend _ hheld =>
    simp only [Block.ofSlice, resizedSlice, hheld.addr_eq]
    rfl
  | move => rfl

/-- The block of a resizing call may be given out while the others are live. -/
theorem Effect.grants (hw : h.WellFormed)
    (heff : Effect h (.resize kind i ptr oldLayout newLayout, some (.ok slice)) h') :
    Grants (h.ledger.erase i) newLayout (.ofSlice slice newLayout) := by
  have hw' := heff.wellFormed hw
  have hledger := heff.ledger_eq
  have hi : i ∈ h'.ledger.live := hledger ▸ Finset.mem_insert_self i _
  have hblock : h'.ledger.block i = .ofSlice slice newLayout := by
    rw [hledger, Ledger.block_insert_self]
  have hv : (Block.ofSlice slice newLayout).Valid := hblock ▸ hw'.valid i hi
  have hlen : slice.len = rounded newLayout.size := hv.len_eq
  by_cases h0 : newLayout.size = 0
  · -- an empty block is apart from everything, but may be anywhere
    cases heff with
    | vacate => exact SecStackSinglePageAlloc.grants_zeroSlice h.alloc.page _ h0
    | trim _ _ hne | extend _ _ _ hne | move _ _ hne => exact absurd h0 hne
  have hne : (h'.ledger.block i).len ≠ 0 := by
    rw [hblock]
    exact hlen.trans_ne (rounded_ne_zero h0)
  have hstop := (hw'.bounds hi hne).2.trans hw'.stackTop_le
  rw [hblock] at hstop
  refine ⟨hv.addr_ne_zero, hv.align_dvd, (le_rounded _).trans_eq hlen.symm,
    hstop.trans_lt h'.alloc.pageEnd_lt, ?_⟩
  intro j hj
  obtain ⟨hji, hj'⟩ := Finset.mem_erase.1 hj
  have hap := hw'.packed.apart i hi j (by rw [hledger]; exact Finset.mem_insert_of_mem hj') hji.symm
  rw [hblock, hledger, Ledger.block_insert_of_ne hji] at hap
  exact hap

end Heap

/-! ## The contract -/

/-- The allocator on `page` has the live blocks of `L`, and outside of them the memory is as it
was at the start. -/
structure Tends (page : Page cfg) (mem₀ : Memory UInt8) (L : Ledger Block)
    (a : SecStackSinglePageAlloc cfg) (mem : Memory UInt8) : Prop where
  wellFormed : (Heap.mk a mem L).WellFormed
  page_eq : a.page = page
  clean : (Heap.mk a mem L).Clean mem₀
  sound : L.Sound cfg

namespace Tends

variable {page : Page cfg} {mem₀ mem : Memory UInt8} {L L' : Ledger Block}
  {a : SecStackSinglePageAlloc cfg}

theorem start (page : Page cfg) (mem₀ : Memory UInt8) :
    Tends page mem₀ (Heap.new page mem₀).ledger (Heap.new page mem₀).alloc mem₀ :=
  ⟨Heap.new_wellFormed page mem₀, rfl, fun _ _ => rfl, .of_empty rfl⟩

theorem serves (h : Tends page mem₀ L a mem) (hzero : page.Zeroed mem₀) :
    SecStackSinglePageAlloc.Serves L a mem :=
  ⟨h.wellFormed, mem₀, h.page_eq ▸ hzero, h.clean⟩

/-- Every effect that leaves a sound ledger is tended to. -/
theorem effect (h : Tends page mem₀ L a mem) (hzero : page.Zeroed mem₀) {e : Event cfg}
    {h' : Heap cfg} (heff : Heap.Effect ⟨a, mem, L⟩ e h') (hs : h'.ledger.Sound cfg) :
    Tends page mem₀ h'.ledger h'.alloc h'.mem where
  wellFormed := heff.wellFormed h.wellFormed
  page_eq := heff.page_eq.trans h.page_eq
  clean := heff.clean h.wellFormed (h.page_eq ▸ hzero) h.clean
  sound := hs

/-- The allocator does not know the names of the blocks. -/
theorem rename {f : ℕ → ℕ} (h : Tends page mem₀ L a mem) (hf : L.Renames L' f)
    (hs : L'.Sound cfg) : Tends page mem₀ L' a mem where
  wellFormed := ⟨h.wellFormed.packed.rename hf, hf.forall_block h.wellFormed.valid,
    h.wellFormed.bytes_eq.trans (hf.total_eq _).symm, h.wellFormed.eight_dvd_stackOffset,
    h.wellFormed.stackOffset_le, h.wellFormed.reset⟩
  page_eq := h.page_eq
  clean := fun x hx => h.clean x (hf.free hx)
  sound := hs

end Tends

namespace SecStackSinglePageAlloc

open Allocator (Held Answers FullContract Resized)

variable {page : Page cfg} {mem₀ : Memory UInt8} {L : Ledger Block} {m : SecMachine cfg} {i j : ℕ}
  {ptr : NonNull} {layout oldLayout newLayout : Layout cfg}

theorem tends_allocate (hzero : page.Zeroed mem₀) (h : Tends page mem₀ L m.self m.mem)
    (hi : i ∉ L.live) : ∃ r m', (allocateZeroed cfg layout).run m = .ok (r, m') ∧
      L.Untouched m.mem m'.mem ∧ Answers (Tends page mem₀) L i layout m' r ∧
      ∀ slice, r = .ok slice → ∀ k < slice.len, m'.mem (slice.asPtr.addr + k) = 0 := by
  obtain ⟨hkeep, hans, hfresh⟩ := serves_allocate (h.serves hzero) hi layout
  refine ⟨(Exact.allocate layout m).1, (Exact.allocate layout m).2,
    allocateZeroed_run h.wellFormed.consistent layout, hkeep, ?_, hfresh⟩
  let g : Heap cfg := ⟨m.self, m.mem, L⟩
  have heff : Heap.Effect g (.allocate true i layout, _) _ := Heap.effect_allocate hi
  have hlog : Exact.allocate layout m = _ := Exact.allocate_withLog layout g.machine m.log
  rw [hlog] at hans ⊢
  rcases hr : Exact.allocate layout g.machine with ⟨r, t⟩
  rw [hr] at heff hans
  cases r with
  | error e => exact h.effect hzero heff h.sound
  | ok slice => exact ⟨hans.1, h.effect hzero heff (h.sound.insert hans.1 i)⟩

theorem tends_deallocate (hzero : page.Zeroed mem₀) (h : Tends page mem₀ L m.self m.mem)
    (hheld : Held L i ptr layout) : ∃ m', (deallocate cfg ptr layout).run m = .ok ((), m') ∧
      (L.erase i).Untouched m.mem m'.mem ∧ Tends page mem₀ (L.erase i) m'.self m'.mem := by
  let g : Heap cfg := ⟨m.self, m.mem, L⟩
  have hheld' : g.Held i ptr layout := ⟨hheld.live, hheld.addr_eq, hheld.fit⟩
  have howned : Owned m ptr layout := h.wellFormed.owned (h := g) hheld'
  refine ⟨Exact.deallocate ptr layout m, deallocate_run h.wellFormed.consistent howned,
    (serves_deallocate (h.serves hzero) hheld).1, ?_⟩
  have heff : Heap.Effect g (.deallocate i ptr layout, none) (g.release i) := .deallocate hheld'
  rw [← Heap.deallocate_eq_release h.wellFormed hheld'] at heff
  obtain ⟨log, hlog⟩ := Exact.deallocate_withLog ptr layout g.machine m.log
  have hlog' : Exact.deallocate ptr layout m = _ := hlog
  rw [hlog']
  exact h.effect hzero heff (h.sound.erase i)

/-- The call behind a resizing method. -/
def resizeCall : ZeroizeHeap.Resize → Resize
  | .grow => .grow
  | .growZeroed => .growZeroed
  | .shrink => .shrink

theorem tends_resize (hzero : page.Zeroed mem₀) (h : Tends page mem₀ L m.self m.mem)
    (hheld : Held L i ptr oldLayout) (hj : j ∉ L.live) (kind : ZeroizeHeap.Resize)
    (hord : kind.Ordered oldLayout.size newLayout.size) :
    ∃ r m', (kind.method allocator ptr oldLayout newLayout).run m = .ok (r, m') ∧
      match r with
      | .error _ => Tends page mem₀ L m'.self m'.mem ∧ L.Untouched m.mem m'.mem
      | .ok slice => Resized (Tends page mem₀) L i j kind oldLayout newLayout m m' slice := by
  let g : Heap cfg := ⟨m.self, m.mem, L⟩
  have hw : g.WellFormed := h.wellFormed
  have hheld' : g.Held i ptr oldLayout := ⟨hheld.live, hheld.addr_eq, hheld.fit⟩
  have hord' : (resizeCall kind).Ordered oldLayout.size newLayout.size := by
    cases kind <;> exact hord
  have hcode : kind.method allocator ptr oldLayout newLayout =
      (resizeCall kind).code ptr oldLayout newLayout := by
    cases kind <;> rfl
  -- the step of the heap says what the call does
  have hl : g.Legal (.resize (resizeCall kind) i ptr oldLayout newLayout) := ⟨hheld', hord'⟩
  obtain ⟨ans, g', hexec, heff⟩ := Heap.exec_resize_effect hw hl
  rw [Heap.exec, (resizeCall kind).code_run (s := g.machine) hw.consistent (hw.owned hheld') hord']
    at hexec
  obtain ⟨log, hlog⟩ := (resizeCall kind).exact_withLog ptr oldLayout newLayout g.machine m.log
  rcases hr : (resizeCall kind).exact ptr oldLayout newLayout g.machine with ⟨r, t⟩
  rw [hr] at hexec hlog
  have hsettle : g.settle i newLayout (r, t) = (some ans, g') := Except.ok.inj hexec
  obtain rfl : r = ans := Option.some.inj (congrArg Prod.fst hsettle)
  obtain rfl : _ = g' := congrArg Prod.snd hsettle
  refine ⟨r, { t with log }, ?_, ?_⟩
  · rw [hcode, (resizeCall kind).code_run (s := m) hw.consistent (hw.owned hheld') hord']
    exact congrArg Except.ok hlog
  cases r with
  | error e =>
    have hmem : t.mem = m.mem := congrArg Heap.mem heff.eq_of_error
    exact ⟨h.effect hzero heff h.sound, fun k _ x _ => congrFun hmem x⟩
  | ok slice =>
    have hzero' : g.alloc.page.Zeroed mem₀ := h.page_eq ▸ hzero
    have hgrants := heff.grants hw
    have hsize : newLayout.size ≤ slice.len := hgrants.size_le
    have hsound := (h.sound.erase i).insert hgrants i
    rw [Ledger.insert_erase _ hheld.live] at hsound
    refine ⟨hgrants, (h.effect hzero heff hsound).rename (.replace _ hheld.live hj)
      ((h.sound.erase i).insert hgrants j), heff.untouched hw, ?_, ?_⟩
    · intro k hk
      rcases heff.resized hw hzero' h.clean (k := k) (by omega) with ⟨-, hbyte⟩ | ⟨hle, -⟩
      · exact hbyte
      · omega
    · intro _ k _ hk
      rcases heff.resized hw hzero' h.clean hk with hold | ⟨-, hbyte⟩
      · exact Or.inr hold
      · exact Or.inl hbyte

/-- `SecStackSinglePageAlloc` meets the contract of all methods. -/
theorem allocator_fullContract (hzero : page.Zeroed mem₀) :
    (allocator : Allocator cfg (SecStackSinglePageAlloc cfg)).FullContract (Tends page mem₀) where
  client := by
    intro L a mem mem' h hmem
    exact ⟨h.wellFormed.heap mem', h.page_eq, fun x hx => (hmem x hx).trans (h.clean x hx), h.sound⟩
  allocate := by
    intro L m i layout h hi
    obtain ⟨r, m', hrun, hkeep, hans, -⟩ := tends_allocate hzero h hi
    exact ⟨r, m', hrun, hkeep, hans⟩
  allocateZeroed := fun layout h hi => tends_allocate hzero h hi
  deallocate := tends_deallocate hzero
  sound := Tends.sound
  resize := fun kind h hheld hj hord => tends_resize hzero h hheld hj kind hord

end SecStackSinglePageAlloc

end SecmemAlloc
