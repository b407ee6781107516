import SecmemAlloc.Clients.SecAlloc
import SecmemAlloc.SecAlloc.Drain

/-!
# Clients see byte arrays

Clients that respect the contract of an allocator cannot tell it from a collection of byte
arrays: for them every block is an array of its own, whose bytes change by their own writes
only and are carried along when the block is resized.  This holds of every allocator that
meets the contract, and so of the one on a locked page and of wrappers around it.
-/

namespace SecmemAlloc

variable {cfg : Cfg} {β : Type}

open Allocator (Held FullContract)

/-! ## The array behind a block -/

namespace Ledger

variable {L : Ledger Block} {i : ℕ} {b : Block} {mem mem' : Memory UInt8}

/-- The array of each live block. -/
def contents (L : Ledger Block) (mem : Memory UInt8) (i : ℕ) : Option (List UInt8) :=
  if i ∈ L.live then some (mem.read (L.block i).addr (L.block i).len) else none

theorem contents_of_live (hi : i ∈ L.live) :
    L.contents mem i = some (mem.read (L.block i).addr (L.block i).len) := if_pos hi

theorem contents_of_not_live (hi : i ∉ L.live) : L.contents mem i = none := if_neg hi

/-- Untouched blocks keep their arrays. -/
theorem Untouched.contents_eq (h : L.Untouched mem mem') : L.contents mem' = L.contents mem := by
  ext1 i
  by_cases hi : i ∈ L.live
  · rw [contents_of_live hi, contents_of_live hi]
    congr 1
    exact Memory.read_congr fun k hk => h i hi _ (Block.add_mem_span hk)
  · rw [contents_of_not_live hi, contents_of_not_live hi]

theorem contents_erase : (L.erase i).contents mem = Function.update (L.contents mem) i none := by
  ext1 j
  by_cases hji : j = i
  · subst hji
    simp [contents]
  · simp [contents, erase, hji]

theorem contents_insert : (L.insert i b).contents mem =
    Function.update (L.contents mem) i (some (mem.read b.addr b.len)) := by
  ext1 j
  by_cases hji : j = i
  · subst hji
    simp [contents]
  · simp [contents, insert, hji]

end Ledger

/-! ## Clients -/

/-- An allocator with cells `β` and its clients. -/
structure Clients (β : Type) where
  cells : β
  mem : Memory UInt8
  ledger : Ledger Block

namespace Clients

/-- No block is live yet. -/
def start (b : β) (mem : Memory UInt8) : Clients β := ⟨b, mem, ⟨∅, fun _ => ⟨0, 0, 0, 0⟩⟩⟩

section

variable (h : Clients β)

/-- The machine a call starts from. -/
def machine : Machine β := ⟨h.cells, h.mem, []⟩

def Legal (op : ZeroizeHeap.Op cfg) : Prop := op.Legal h.ledger

/-- The client notes the block it was given, if any, in a ledger of the others. -/
def settle (others : Ledger Block) (i : ℕ) (layout : Layout cfg) (r : AllocResult × Machine β) :
    Option AllocResult × Clients β :=
  (some r.1, ⟨r.2.self, r.2.mem, match r.1 with
    | .ok slice => others.insert i (.ofSlice slice layout)
    | .error _ => h.ledger⟩)

/-- Carry out an operation. -/
def exec (A : Allocator cfg β) : ZeroizeHeap.Op cfg → Except Fault (Option AllocResult × Clients β)
  | .allocate zeroed i layout =>
    ((A.allocateWith zeroed layout).run h.machine).map (h.settle h.ledger i layout)
  | .deallocate i ptr layout =>
    ((A.deallocate ptr layout).run h.machine).map
      fun r => (none, ⟨r.2.self, r.2.mem, h.ledger.erase i⟩)
  | .resize kind i j ptr oldLayout newLayout =>
    ((kind.method A ptr oldLayout newLayout).run h.machine).map
      (h.settle (h.ledger.erase i) j newLayout)
  | .write i off v => .ok (none, { h with mem := h.mem.store ((h.ledger.block i).addr + off) v })

/-- The arrays of the live blocks. -/
def contents : ℕ → Option (List UInt8) := h.ledger.contents h.mem

end

/-- One step. -/
def Step (A : Allocator cfg β) (h : Clients β) (e : ZeroizeHeap.Op cfg × Option AllocResult)
    (h' : Clients β) : Prop := h.Legal e.1 ∧ h.exec A e.1 = .ok (e.2, h')

end Clients

/-! ## Byte arrays -/

/-- Byte arrays that go by names. -/
abbrev ByteArrays := ℕ → Option (List UInt8)

namespace ByteArrays

/-- The slice can be an answer for `layout`, with the array `bytes` behind it. -/
structure Behind (slice : NonNullSlice) (layout : Layout cfg) (bytes : List UInt8) : Prop where
  length_eq : bytes.length = slice.len
  size_le : layout.size ≤ slice.len
  align_dvd : layout.align ∣ slice.asPtr.addr

/-- What may happen to byte arrays.  A request may fail, which changes nothing. -/
inductive Step (I : ByteArrays) : ZeroizeHeap.Op cfg × Option AllocResult → ByteArrays → Prop
  | allocate {zeroed : Bool} {i : ℕ} {layout : Layout cfg} {slice : NonNullSlice}
      {bytes : List UInt8} (hi : I i = none) (hbehind : Behind slice layout bytes)
      (hzero : zeroed = true → ∀ v ∈ bytes, v = 0) :
      Step I (.allocate zeroed i layout, some (.ok slice)) (Function.update I i (some bytes))
  | allocateFailed {zeroed : Bool} {i : ℕ} {layout : Layout cfg} {e : AllocError} :
      Step I (.allocate zeroed i layout, some (.error e)) I
  | deallocate {i : ℕ} {ptr : NonNull} {layout : Layout cfg} {bytes : List UInt8}
      (hi : I i = some bytes) : Step I (.deallocate i ptr layout, none) (Function.update I i none)
  | write {i off : ℕ} {v : UInt8} {bytes : List UInt8} (hi : I i = some bytes)
      (hoff : off < bytes.length) :
      Step I (.write i off v, none) (Function.update I i (some (bytes.set off v)))
  /-- With `grow_zeroed` a byte that is not zero is the old one at its place. -/
  | resize {kind : ZeroizeHeap.Resize} {i j : ℕ} {ptr : NonNull} {oldLayout newLayout : Layout cfg}
      {slice : NonNullSlice} {bytes bytes' : List UInt8} (hi : I i = some bytes) (hj : I j = none)
      (hbehind : Behind slice newLayout bytes')
      (hkept : ∀ k < min oldLayout.size newLayout.size, bytes'[k]? = bytes[k]?)
      (hzeroed : kind.zeroed = true → ∀ k < bytes'.length,
        bytes'[k]? = some 0 ∨ bytes'[k]? = bytes[k]?) :
      Step I (.resize kind i j ptr oldLayout newLayout, some (.ok slice))
        (Function.update (Function.update I i none) j (some bytes'))
  | resizeFailed {kind : ZeroizeHeap.Resize} {i j : ℕ} {ptr : NonNull}
      {oldLayout newLayout : Layout cfg} {e : AllocError} :
      Step I (.resize kind i j ptr oldLayout newLayout, some (.error e)) I

end ByteArrays

/-! ## One operation -/

namespace Clients

variable {A : Allocator cfg β} {Rep : Ledger Block → β → Memory UInt8 → Prop} {h h' : Clients β}
  {i j : ℕ} {ptr : NonNull} {oldLayout newLayout : Layout cfg}

/-- Writing a byte of a block writes it to the array. -/
theorem contents_write (hs : h.ledger.Sound cfg) (hi : i ∈ h.ledger.live) {off : ℕ}
    (hoff : off < (h.ledger.block i).len) (v : UInt8) :
    h.ledger.contents (h.mem.store ((h.ledger.block i).addr + off) v) = Function.update h.contents i
      (some ((h.mem.read (h.ledger.block i).addr (h.ledger.block i).len).set off v)) := by
  have hkeep : (h.ledger.erase i).Untouched h.mem
      (h.mem.store ((h.ledger.block i).addr + off) v) := by
    refine hs.untouched_erase hi fun a ha => Memory.store_of_ne ?_
    rintro rfl
    exact ha (Block.add_mem_span hoff)
  have hself : (h.ledger.erase i).insert i (h.ledger.block i) = h.ledger := by
    rw [Ledger.insert_erase _ hi, Ledger.insert_block_self hi]
  have hcontents : ((h.ledger.erase i).insert i (h.ledger.block i)).contents
      (h.mem.store ((h.ledger.block i).addr + off) v) = _ := Ledger.contents_insert
  rw [hself, hkeep.contents_eq, Ledger.contents_erase, Function.update_idem, Memory.read_store]
    at hcontents
  exact hcontents

/-- A resized block, as arrays. -/
theorem resized_step {m' : Machine β} {slice : NonNullSlice} {kind : ZeroizeHeap.Resize}
    (hheld : Held h.ledger i ptr oldLayout) (hj : j ∉ h.ledger.live)
    (hord : kind.Ordered oldLayout.size newLayout.size)
    (hres : Allocator.Resized Rep h.ledger i j kind oldLayout newLayout h.machine m' slice) :
    ByteArrays.Step h.contents (.resize kind i j ptr oldLayout newLayout, some (.ok slice))
      (((h.ledger.erase i).insert j (.ofSlice slice newLayout)).contents m'.mem) := by
  have hsize : newLayout.size ≤ slice.len := hres.grants.size_le
  have hold : oldLayout.size ≤ (h.ledger.block i).len := hheld.fit.2
  rw [Ledger.contents_insert, hres.untouched.contents_eq, Ledger.contents_erase]
  refine .resize (Ledger.contents_of_live hheld.live) (Ledger.contents_of_not_live hj)
    ⟨Memory.length_read, hsize, hres.grants.align_dvd⟩ ?_ ?_
  · intro k hk
    have hk' : k < (Block.ofSlice slice newLayout).len :=
      (hk.trans_le (min_le_right _ _)).trans_le hsize
    rw [Memory.getElem?_read hk', Memory.getElem?_read (by omega)]
    exact congrArg some (hres.kept k hk)
  · intro hzeroed k hk
    rw [Memory.length_read] at hk
    have hk' : k < slice.len := hk
    rw [Memory.getElem?_read hk]
    by_cases hin : k < min oldLayout.size newLayout.size
    · rw [Memory.getElem?_read (by omega)]
      exact Or.inr (congrArg some (hres.kept k hin))
    -- `grow_zeroed` keeps all bytes of the old size
    have hle : oldLayout.size ≤ newLayout.size := by
      cases kind with
      | growZeroed => exact hord
      | grow | shrink => cases hzeroed
    rcases hres.zeroed hzeroed k (by omega) hk' with hz | ⟨hlen, hbyte⟩
    · exact Or.inl (congrArg some hz)
    · rw [Memory.getElem?_read hlen]
      exact Or.inr (congrArg some hbyte)

/-- A legal operation returns, keeps the invariant of the allocator, and is a step of the
arrays. -/
theorem exec_spec (hA : A.FullContract Rep) (hrep : Rep h.ledger h.cells h.mem)
    {op : ZeroizeHeap.Op cfg} (hl : h.Legal op) : ∃ ans h', h.exec A op = .ok (ans, h') ∧
      Rep h'.ledger h'.cells h'.mem ∧ ByteArrays.Step h.contents (op, ans) h'.contents := by
  have hs := hA.sound hrep
  cases op with
  | allocate zeroed i layout =>
    obtain ⟨r, m', hrun, hkeep, hans, hzero⟩ :=
      hA.toContract.allocateWith_run (m := h.machine) hrep hl zeroed layout
    refine ⟨_, _, by rw [exec, hrun]; rfl, ?_⟩
    cases r with
    | error e =>
      refine ⟨hans, ?_⟩
      show ByteArrays.Step _ _ (h.ledger.contents m'.mem)
      rw [hkeep.contents_eq]
      exact .allocateFailed
    | ok slice =>
      refine ⟨hans.2, ?_⟩
      show ByteArrays.Step _ _ ((h.ledger.insert i (.ofSlice slice layout)).contents m'.mem)
      rw [Ledger.contents_insert, hkeep.contents_eq]
      refine .allocate (Ledger.contents_of_not_live hl)
        ⟨Memory.length_read, hans.1.size_le, hans.1.align_dvd⟩ ?_
      intro hz v hv
      obtain ⟨k, hk, rfl⟩ := List.mem_map.1 hv
      exact hzero hz slice rfl k (List.mem_range.1 hk)
  | deallocate i ptr layout =>
    have hheld : Held h.ledger i ptr layout := hl
    obtain ⟨m', hrun, hkeep, hrep'⟩ := hA.deallocate (m := h.machine) hrep hheld
    refine ⟨_, _, by rw [exec, hrun]; rfl, hrep', ?_⟩
    show ByteArrays.Step _ _ ((h.ledger.erase i).contents m'.mem)
    rw [hkeep.contents_eq, Ledger.contents_erase]
    exact .deallocate (Ledger.contents_of_live hheld.live)
  | resize kind i j ptr oldLayout newLayout =>
    obtain ⟨hheld, hj, hord⟩ := hl
    obtain ⟨r, m', hrun, hans⟩ := hA.resize (m := h.machine) kind hrep hheld hj hord
    refine ⟨_, _, by rw [exec, hrun]; rfl, ?_⟩
    cases r with
    | error e =>
      refine ⟨hans.1, ?_⟩
      show ByteArrays.Step _ _ (h.ledger.contents m'.mem)
      rw [hans.2.contents_eq]
      exact .resizeFailed
    | ok slice => exact ⟨hans.rep, resized_step hheld hj hord hans⟩
  | write i off v =>
    obtain ⟨hi, hoff⟩ := hl
    refine ⟨none, _, rfl, hA.client hrep (Ledger.store_of_free hi hoff h.mem v), ?_⟩
    show ByteArrays.Step _ _ (h.ledger.contents _)
    rw [contents_write hs hi hoff]
    exact .write (Ledger.contents_of_live hi) (by rwa [Memory.length_read])

/-! ## All operations -/

theorem Step.spec (hA : A.FullContract Rep) (hrep : Rep h.ledger h.cells h.mem)
    {e : ZeroizeHeap.Op cfg × Option AllocResult} (hs : Step A h e h') :
    Rep h'.ledger h'.cells h'.mem ∧ ByteArrays.Step h.contents e h'.contents := by
  obtain ⟨ans, h₂, hexec, hrep', hstep⟩ := exec_spec hA hrep hs.1
  rw [hs.2] at hexec
  obtain ⟨rfl, rfl⟩ := Prod.mk.inj (Except.ok.inj hexec)
  exact ⟨hrep', hstep⟩

/-- What clients do in any order is a run of the arrays, and keeps the invariant. -/
theorem run_spec (hA : A.FullContract Rep) (hrep : Rep h.ledger h.cells h.mem)
    {es : List (ZeroizeHeap.Op cfg × Option AllocResult)} (hrun : Run (Step A) h es h') :
    Rep h'.ledger h'.cells h'.mem ∧ Run ByteArrays.Step h.contents es h'.contents := by
  obtain ⟨I, hideal, hrep', rfl⟩ := hrun.simulation
    (R := fun g I => Rep g.ledger g.cells g.mem ∧ g.contents = I)
    (by
      rintro g e g' _ ⟨hg, rfl⟩ hs
      obtain ⟨hg', hstep⟩ := hs.spec hA hg
      exact ⟨g'.contents, hstep, hg', rfl⟩) ⟨hrep, rfl⟩
  exact ⟨hrep', hideal⟩

/-- **Refinement.**  Clients that respect the contract of an allocator see byte arrays, whatever
they do and in whatever order; their blocks never meet, are not null and do not wrap around the
address space; and every operation that respects the contract returns. -/
theorem client_refinement {b : β} {mem : Memory UInt8} (hA : A.FullContract Rep)
    (hrep : Rep (start b mem).ledger b mem) {es : List (ZeroizeHeap.Op cfg × Option AllocResult)}
    (hrun : Run (Step A) (start b mem) es h) :
    Run ByteArrays.Step (fun _ => none) es h.contents ∧ h.ledger.Sound cfg ∧
      ∀ op, h.Legal op → ∃ ans h', h.exec A op = .ok (ans, h') ∧
        ByteArrays.Step h.contents (op, ans) h'.contents := by
  obtain ⟨hrep', hideal⟩ := run_spec hA hrep hrun
  refine ⟨hideal, hA.sound hrep', fun op hl => ?_⟩
  obtain ⟨ans, h', hexec, -, hstep⟩ := exec_spec hA hrep' hl
  exact ⟨ans, h', hexec, hstep⟩

/-! ## Wrappers around a locked page -/

section

variable {page : Page cfg} {mem : Memory UInt8} {h : Clients (SecStackSinglePageAlloc cfg)}
  {es : List (ZeroizeHeap.Op cfg × Option AllocResult)}

/-- **Wrappers around a locked page.**  However many wrappers are put around the allocator on a
page, and whatever their clients do: clients see byte arrays; their blocks lie on the page; every
byte outside the blocks, on the page and off it, is what it was at the start; and with all blocks
given back the memory is the one at the start and the check on drop passes. -/
theorem wrapped_page (hzero : page.Zeroed mem) (n : ℕ)
    (hrun : Run (Step (ZeroizeAlloc.nested SecStackSinglePageAlloc.allocator n))
      (start (Heap.new page mem).alloc mem) es h) :
    Run ByteArrays.Step (fun _ => none) es h.contents ∧
    (∀ i ∈ h.ledger.live, (h.ledger.block i).len ≠ 0 → page.pagePtr ≤ (h.ledger.block i).addr ∧
      (h.ledger.block i).addr + (h.ledger.block i).len ≤ page.pagePtr + page.pageSize) ∧
    (∀ a, (∀ i ∈ h.ledger.live, a ∉ (h.ledger.block i).span) → h.mem a = mem a) ∧
    (h.ledger.live = ∅ → h.mem = mem ∧
      ∃ t, (SecStackSinglePageAlloc.drop cfg).run ⟨h.cells, h.mem, []⟩ = .ok ((), t)) := by
  have hA := ZeroizeAlloc.nested_fullContract
    (SecStackSinglePageAlloc.allocator_fullContract hzero) n
  obtain ⟨htends, hideal⟩ := run_spec hA (Tends.start page mem) hrun
  have hw := htends.wellFormed
  refine ⟨hideal, ?_, htends.clean, ?_⟩
  · intro i hi hne
    obtain ⟨hlo, hstop⟩ := hw.bounds hi hne
    have hpage : h.cells.page = page := htends.page_eq
    have htop := hstop.trans hw.stackTop_le
    simp only [SecStackSinglePageAlloc.pageEnd] at htop
    rw [hpage] at htop hlo
    exact ⟨hlo, htop⟩
  · intro hnone
    have hno : ∀ i, i ∉ h.ledger.live := fun i => hnone ▸ Finset.notMem_empty i
    have hmem : h.mem = mem := by
      ext1 a
      exact htends.clean a fun i hi => absurd hi (hno i)
    have hbytes : h.cells.bytes = 0 :=
      hw.bytes_eq_zero_iff.2 fun i hi => absurd hi (hno i)
    refine ⟨hmem, SecStackSinglePageAlloc.drop_run_of_zeroed hbytes ?_⟩
    show h.cells.page.Zeroed h.mem
    rw [htends.page_eq, hmem]
    exact hzero

end

/-! ## A small run -/

open Heap (sampleCfg samplePage sampleStart nineBytes sampleStart_zeroed)

/-- A block of nine bytes that was written to, behind two wrappers. -/
def sampleTaken : Clients (SecStackSinglePageAlloc sampleCfg) :=
  let g := (sampleStart.place 0 nineBytes).store 0 3 7
  ⟨g.alloc, g.mem, g.ledger⟩

def sampleOps : List (ZeroizeHeap.Op sampleCfg × Option AllocResult) :=
  [(.allocate true 0 nineBytes, some (.ok (Exact.freshSlice sampleStart.alloc nineBytes))),
    (.write 0 3 7, none)]

theorem sampleTaken_run :
    Run (Step (ZeroizeAlloc.nested SecStackSinglePageAlloc.allocator 2))
      (start sampleStart.alloc fun _ => 0) sampleOps sampleTaken :=
  .snoc (.snoc (.nil _) ⟨Finset.notMem_empty 0, rfl⟩) ⟨⟨by decide, by decide⟩, rfl⟩

theorem client_refinement_sample :
    Run ByteArrays.Step (fun _ => none) sampleOps sampleTaken.contents :=
  (client_refinement (ZeroizeAlloc.nested_fullContract
    (SecStackSinglePageAlloc.allocator_fullContract sampleStart_zeroed) 2)
    (Tends.start samplePage fun _ => 0) sampleTaken_run).1

theorem wrapped_page_sample : sampleTaken.mem 65600 = 0 :=
  (wrapped_page sampleStart_zeroed 2 sampleTaken_run).2.2.1 65600 (by decide)

end Clients

end SecmemAlloc
