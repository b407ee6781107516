import SecmemAlloc.ZeroizingAlloc.Allocator

/-!
# The contract of the whole `Allocator` trait

The methods that resize a block have their contract, too: the bytes that both sizes have in
common are kept, `grow_zeroed` shows no stale bytes, and after an error nothing has happened.
The defaults of the trait meet it for every allocator whose other methods meet theirs; so does
`ZeroizeAlloc`, around every backend and around itself.
-/

namespace SecmemAlloc

variable {cfg : Cfg} {β : Type}

/-- The invariant of an implementation, and what holds of the blocks of any. -/
def Guarded (cfg : Cfg) (Rep : Ledger Block → β → Memory UInt8 → Prop) (L : Ledger Block) (b : β)
    (mem : Memory UInt8) : Prop := Rep L b mem ∧ L.Sound cfg

namespace Allocator

/-- Block `i` of `L` has become block `j`, in a call of `kind` that answered `slice`. -/
structure Resized (Rep : Ledger Block → β → Memory UInt8 → Prop) (L : Ledger Block) (i j : ℕ)
    (kind : ZeroizeHeap.Resize) (oldLayout newLayout : Layout cfg) (m m' : Machine β)
    (slice : NonNullSlice) : Prop where
  grants : Grants (L.erase i) newLayout (.ofSlice slice newLayout)
  rep : Rep ((L.erase i).insert j (.ofSlice slice newLayout)) m'.self m'.mem
  untouched : (L.erase i).Untouched m.mem m'.mem
  kept : ∀ k < min oldLayout.size newLayout.size,
    m'.mem (slice.asPtr.addr + k) = m.mem ((L.block i).addr + k)
  /-- Bytes of the old block past its layout may show up again. -/
  zeroed : kind.zeroed = true → ∀ k, oldLayout.size ≤ k → k < slice.len →
    m'.mem (slice.asPtr.addr + k) = 0 ∨
      k < (L.block i).len ∧ m'.mem (slice.asPtr.addr + k) = m.mem ((L.block i).addr + k)

/-- The contract of `Allocator`, for all its methods. -/
structure FullContract (A : Allocator cfg β) (Rep : Ledger Block → β → Memory UInt8 → Prop) :
    Prop extends A.Contract Rep where
  sound {L : Ledger Block} {b : β} {mem : Memory UInt8} : Rep L b mem → L.Sound cfg
  resize {L : Ledger Block} {m : Machine β} {i j : ℕ} {ptr : NonNull}
    {oldLayout newLayout : Layout cfg} (kind : ZeroizeHeap.Resize) : Rep L m.self m.mem →
    Held L i ptr oldLayout → j ∉ L.live → kind.Ordered oldLayout.size newLayout.size →
    ∃ r m', (kind.method A ptr oldLayout newLayout).run m = .ok (r, m') ∧
      match r with
      | .error _ => Rep L m'.self m'.mem ∧ L.Untouched m.mem m'.mem
      | .ok slice => Resized Rep L i j kind oldLayout newLayout m m' slice

end Allocator

namespace Allocator

variable {A : Allocator cfg β} {Rep : Ledger Block → β → Memory UInt8 → Prop} {L : Ledger Block}
  {m : Machine β} {i j : ℕ} {ptr : NonNull} {layout oldLayout newLayout : Layout cfg}

/-- What holds of no blocks, and of the blocks that allocators may give out, may be added to the
invariant. -/
theorem Contract.and {P : Ledger Block → Prop} (hA : A.Contract Rep)
    (hinsert : ∀ {L : Ledger Block} {layout : Layout cfg} {slice : NonNullSlice}, P L →
      Grants L layout (.ofSlice slice layout) → ∀ i, P (L.insert i (.ofSlice slice layout)))
    (herase : ∀ {L : Ledger Block}, P L → ∀ i, P (L.erase i)) :
    A.Contract fun L b mem => Rep L b mem ∧ P L where
  client := fun h hmem => ⟨hA.client h.1 hmem, h.2⟩
  allocate := by
    intro L m i layout h hi
    obtain ⟨r, m', hrun, hkeep, hans⟩ := hA.allocate layout h.1 hi
    refine ⟨r, m', hrun, hkeep, ?_⟩
    cases r with
    | error e => exact ⟨hans, h.2⟩
    | ok slice => exact ⟨hans.1, hans.2, hinsert h.2 hans.1 i⟩
  allocateZeroed := by
    intro L m i layout h hi
    obtain ⟨r, m', hrun, hkeep, hans, hzero⟩ := hA.allocateZeroed layout h.1 hi
    refine ⟨r, m', hrun, hkeep, ?_, hzero⟩
    cases r with
    | error e => exact ⟨hans, h.2⟩
    | ok slice => exact ⟨hans.1, hans.2, hinsert h.2 hans.1 i⟩
  deallocate := by
    intro L m i ptr layout h hheld
    obtain ⟨m', hrun, hkeep, hrep⟩ := hA.deallocate h.1 hheld
    exact ⟨m', hrun, hkeep, hrep, herase h.2 i⟩

theorem Contract.guarded (hA : A.Contract Rep) : A.Contract (Guarded cfg Rep) :=
  hA.and (P := fun L => L.Sound cfg) Ledger.Sound.insert Ledger.Sound.erase

/-- `allocate`, or `allocate_zeroed`. -/
def allocateWith (A : Allocator cfg β) (zeroed : Bool) : Layout cfg → Code β AllocResult :=
  if zeroed then A.allocateZeroed else A.allocate

theorem Contract.allocateWith_run (hA : A.Contract Rep) (hrep : Rep L m.self m.mem)
    (hi : i ∉ L.live) (zeroed : Bool) (layout : Layout cfg) :
    ∃ r m', (A.allocateWith zeroed layout).run m = .ok (r, m') ∧ L.Untouched m.mem m'.mem ∧
      Answers Rep L i layout m' r ∧ (zeroed = true → ∀ slice, r = .ok slice →
        ∀ k < slice.len, m'.mem (slice.asPtr.addr + k) = 0) := by
  cases zeroed with
  | false =>
    obtain ⟨r, m', hrun, hkeep, hans⟩ := hA.allocate layout hrep hi
    exact ⟨r, m', hrun, hkeep, hans, fun h => nomatch h⟩
  | true =>
    obtain ⟨r, m', hrun, hkeep, hans, hzero⟩ := hA.allocateZeroed layout hrep hi
    exact ⟨r, m', hrun, hkeep, hans, fun _ => hzero⟩

/-! ## The defaults of the trait -/

/-- The default of a resizing method meets its contract. -/
theorem Contract.defaultResize_run (hA : A.Contract Rep)
    (hsound : ∀ {L : Ledger Block} {b : β} {mem : Memory UInt8}, Rep L b mem → L.Sound cfg)
    (hrep : Rep L m.self m.mem) (hheld : Held L i ptr oldLayout) (hj : j ∉ L.live)
    (kind : ZeroizeHeap.Resize) : ∃ r m',
      (defaultResize (A.allocateWith kind.zeroed) A.deallocate ptr oldLayout newLayout).run m =
        .ok (r, m') ∧
      match r with
      | .error _ => Rep L m'.self m'.mem ∧ L.Untouched m.mem m'.mem
      | .ok slice => Resized Rep L i j kind oldLayout newLayout m m' slice := by
  obtain ⟨r, m₁, halloc, hkeep, hans, hzero⟩ := hA.allocateWith_run hrep hj kind.zeroed newLayout
  cases r with
  | error e => exact ⟨.error e, m₁, defaultResize_run_error halloc, hans, hkeep⟩
  | ok slice =>
    obtain ⟨hgrants, hrep₁⟩ := hans
    have hcopied :=
      copied_of_grants (hsound hrep) hheld hj hgrants hkeep fun _ => hA.client hrep₁
    obtain ⟨m₂, hdealloc, hkeep₂, hrep₂⟩ := hA.deallocate hcopied.rep (hheld.insert hj)
    obtain ⟨hother, hnew⟩ := hcopied.release hheld.live hj hkeep₂
    have hsize : newLayout.size ≤ slice.len := hgrants.size_le
    refine ⟨.ok slice, m₂, defaultResize_run_ok halloc hdealloc, hgrants.erase i, ?_, hother, ?_,
      ?_⟩
    · rw [← Ledger.erase_insert_of_ne (ne_of_mem_of_not_mem hheld.live hj)]
      exact hrep₂
    · intro k hk
      rw [← hcopied.kept k hk]
      exact hnew k (show k < slice.len by omega)
    · intro hzeroed k hk hk'
      have hrest : (m₁.copy ptr.asPtr slice.asPtr (min oldLayout.size newLayout.size)).mem
          (slice.asPtr.addr + k) = m₁.mem (slice.asPtr.addr + k) :=
        Memory.copy_of_notMem (by omega)
      exact Or.inl ((hnew k hk').trans (hrest.trans (hzero hzeroed slice rfl k hk')))

end Allocator

/-! ## The wrapper -/

namespace ZeroizeAlloc

open Allocator (Held Answers FullContract Resized)

variable {A : Allocator cfg β} {Rep : Ledger Block → β → Memory UInt8 → Prop}

/-- Around a backend that meets the contract the wrapper meets it. -/
theorem allocator_contract (hA : A.Contract Rep)
    (hsound : ∀ {L : Ledger Block} {b : β} {mem : Memory UInt8}, Rep L b mem → L.Sound cfg) :
    (ZeroizeAlloc.new A).allocator.Contract Rep where
  client := hA.client
  allocate := by
    intro L m i layout hrep hi
    obtain ⟨r, m', hrun, hrest⟩ := hA.allocate layout hrep hi
    exact ⟨r, m', allocate_run.trans hrun, hrest⟩
  allocateZeroed := by
    intro L m i layout hrep hi
    obtain ⟨r, m', hrun, hrest⟩ := hA.allocateZeroed layout hrep hi
    exact ⟨r, m', allocateZeroed_run.trans hrun, hrest⟩
  deallocate := by
    intro L m i ptr layout hrep hheld
    have hs := hsound hrep
    have hend := hheld.end_lt hs
    -- the wrapper wipes part of the block, which a client may do as well
    let wiped := m.fill ptr.asPtr layout.size 0
    have hwrites : ∀ a, a ∉ (L.block i).span → wiped.mem a = m.mem a :=
      fun a ha => hheld.fill_of_notMem m ha
    have hrep' : Rep L wiped.self wiped.mem :=
      hA.client hrep (Ledger.free_of_writes hheld.live hwrites)
    obtain ⟨m', hrun, hkeep, hrep''⟩ := hA.deallocate hrep' hheld
    exact ⟨m', (deallocate_run hend).trans hrun,
      (hs.untouched_erase hheld.live hwrites).trans hkeep, hrep''⟩

theorem method_allocator (self : ZeroizeAlloc (Allocator cfg β)) (kind : ZeroizeHeap.Resize) :
    kind.method self.allocator = Allocator.defaultResize
      (self.allocator.allocateWith kind.zeroed) self.allocator.deallocate := by
  cases kind <;> rfl

/-- The wrapper inherits the resizing methods, and with them their contract. -/
theorem allocator_fullContract (hA : A.Contract Rep)
    (hsound : ∀ {L : Ledger Block} {b : β} {mem : Memory UInt8}, Rep L b mem → L.Sound cfg) :
    (ZeroizeAlloc.new A).allocator.FullContract Rep where
  toContract := allocator_contract hA hsound
  sound := hsound
  resize := by
    intro L m i j ptr oldLayout newLayout kind hrep hheld hj _
    rw [method_allocator]
    exact (allocator_contract hA hsound).defaultResize_run hsound hrep hheld hj kind

/-- `n` wrappers around each other, with `A` inside. -/
def nested (A : Allocator cfg β) (n : ℕ) : Allocator cfg β :=
  (fun A => (ZeroizeAlloc.new A).allocator)^[n] A

theorem nested_succ (A : Allocator cfg β) (n : ℕ) :
    nested A (n + 1) = (ZeroizeAlloc.new (nested A n)).allocator :=
  Function.iterate_succ_apply' _ n A

theorem nested_contract (hA : A.Contract Rep)
    (hsound : ∀ {L : Ledger Block} {b : β} {mem : Memory UInt8}, Rep L b mem → L.Sound cfg)
    (n : ℕ) : (nested A n).Contract Rep := by
  induction n with
  | zero => exact hA
  | succ n ih =>
    rw [nested_succ]
    exact allocator_contract ih hsound

/-- Wrappers keep the contract of an allocator that meets all of it. -/
theorem nested_fullContract (hA : A.FullContract Rep) (n : ℕ) :
    (nested A n).FullContract Rep := by
  cases n with
  | zero => exact hA
  | succ n =>
    rw [nested_succ]
    exact allocator_fullContract (nested_contract hA.toContract hA.sound n) hA.sound

/-- **The wrapper is an `Allocator`.**  Around every backend whose methods without a default meet
their contract, one or more wrappers meet the contract of all methods: whatever the backend
answers, a resized block keeps the bytes that both sizes have in common, `grow_zeroed` adds no
stale bytes, the other blocks are left alone, and after an error nothing has happened. -/
theorem full_contract (hA : A.Contract Rep) (n : ℕ) :
    (nested A (n + 1)).FullContract (Guarded cfg Rep) := by
  rw [nested_succ]
  exact allocator_fullContract (nested_contract hA.guarded And.right n) And.right

/-- Two wrappers around the allocator on a locked page. -/
theorem full_contract_sample :
    (nested (SecStackSinglePageAlloc.allocator :
      Allocator Heap.sampleCfg (SecStackSinglePageAlloc Heap.sampleCfg)) 2).FullContract
      (Guarded Heap.sampleCfg SecStackSinglePageAlloc.Serves) :=
  full_contract SecStackSinglePageAlloc.contract 1

end ZeroizeAlloc

end SecmemAlloc
