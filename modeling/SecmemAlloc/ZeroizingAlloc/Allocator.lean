import SecmemAlloc.Lib.Run
import SecmemAlloc.Rust.Contract
import SecmemAlloc.SecAlloc.Contract
import SecmemAlloc.ZeroizingAlloc.Code

/-!
# `ZeroizeAlloc` as an `Allocator`

What the backend gets to see when blocks are given back to it.  The wrapper wipes as many
bytes as the client's layout says; the backend may have returned a longer slice, whose
other bytes the client may have written as well.
-/

namespace SecmemAlloc

variable {cfg : Cfg} {β : Type}

/-- A call of `deallocate` that the backend received, with the memory at that moment. -/
structure Release (cfg : Cfg) where
  ptr : NonNull
  layout : Layout cfg
  mem : Memory UInt8

namespace Allocator

/-- The backend, watched: every call of `deallocate` is noted before it is carried out. -/
def watched (A : Allocator cfg β) : Allocator cfg (β × List (Release cfg)) where
  allocate layout := Code.lift (A.allocate layout)
  allocateZeroed layout := Code.lift (A.allocateZeroed layout)
  deallocate ptr layout := do
    let m ← get
    record ⟨ptr, layout, m.mem⟩
    Code.lift (A.deallocate ptr layout)
  grow ptr oldLayout newLayout := Code.lift (A.grow ptr oldLayout newLayout)
  growZeroed ptr oldLayout newLayout := Code.lift (A.growZeroed ptr oldLayout newLayout)
  shrink ptr oldLayout newLayout := Code.lift (A.shrink ptr oldLayout newLayout)

end Allocator

namespace ZeroizeHeap

/-- The methods that resize a block. -/
inductive Resize
  | grow
  | growZeroed
  | shrink
deriving DecidableEq, Repr

/-- The method of an allocator. -/
def Resize.method (A : Allocator cfg β) :
    Resize → NonNull → Layout cfg → Layout cfg → Code β AllocResult
  | .grow => A.grow
  | .growZeroed => A.growZeroed
  | .shrink => A.shrink

/-- Whether the method asks for zeroed memory. -/
def Resize.zeroed : Resize → Bool
  | .growZeroed => true
  | .grow | .shrink => false

/-- What the method asks of the two sizes. -/
def Resize.Ordered : Resize → ℕ → ℕ → Prop
  | .grow, m, n | .growZeroed, m, n => m ≤ n
  | .shrink, m, n => n ≤ m

/-- What clients do.  A resized block gets a new name. -/
inductive Op (cfg : Cfg)
  | allocate (zeroed : Bool) (i : ℕ) (layout : Layout cfg)
  | deallocate (i : ℕ) (ptr : NonNull) (layout : Layout cfg)
  | resize (kind : Resize) (i j : ℕ) (ptr : NonNull) (oldLayout newLayout : Layout cfg)
  | write (i off : ℕ) (v : UInt8)

/-- The operations that respect the contract when the blocks of `L` are live. -/
def Op.Legal (L : Ledger Block) : Op cfg → Prop
  | .allocate _ i _ => i ∉ L.live
  | .deallocate i ptr layout => Allocator.Held L i ptr layout
  | .resize kind i j ptr oldLayout newLayout =>
    Allocator.Held L i ptr oldLayout ∧ j ∉ L.live ∧ kind.Ordered oldLayout.size newLayout.size
  | .write i off _ => i ∈ L.live ∧ off < (L.block i).len

end ZeroizeHeap

open Allocator (Held Answers)

/-- `ZeroizeAlloc` and its clients: the cells of the backend, the memory, the live blocks,
and all blocks given back to the backend so far. -/
structure ZeroizeHeap (cfg : Cfg) (β : Type) where
  backend : β
  mem : Memory UInt8
  ledger : Ledger Block
  released : List (Block × Release cfg)

namespace ZeroizeHeap

variable (A : Allocator cfg β) (h : ZeroizeHeap cfg β)

/-- The machine a call starts from. -/
def machine : Machine (β × List (Release cfg)) := ⟨(h.backend, []), h.mem, []⟩

/-- The wrapper around the watched backend. -/
def zeroizing : Allocator cfg (β × List (Release cfg)) :=
  (ZeroizeAlloc.new A.watched).allocator

/-- `allocate`, or `allocate_zeroed`, of the wrapper. -/
def allocateWith (zeroed : Bool) : Layout cfg → Code (β × List (Release cfg)) AllocResult :=
  if zeroed then (zeroizing A).allocateZeroed else (zeroizing A).allocate

def Legal (op : Op cfg) : Prop := op.Legal h.ledger

/-- The heap after a call, with the releases of the call noted as those of the block `i`. -/
def after (i : ℕ) (m : Machine (β × List (Release cfg))) (ledger : Ledger Block) :
    ZeroizeHeap cfg β :=
  ⟨m.self.1, m.mem, ledger, h.released ++ m.self.2.map fun r => (h.ledger.block i, r)⟩

/-- Carry out an operation. -/
def exec : Op cfg → Except Fault (Option AllocResult × ZeroizeHeap cfg β)
  | .allocate zeroed i layout =>
    ((allocateWith A zeroed layout).run h.machine).map fun r =>
      (some r.1, h.after i r.2 (match r.1 with
        | .ok slice => h.ledger.insert i (.ofSlice slice layout)
        | .error _ => h.ledger))
  | .deallocate i ptr layout =>
    (((zeroizing A).deallocate ptr layout).run h.machine).map fun r =>
      (none, h.after i r.2 (h.ledger.erase i))
  | .resize kind i j ptr oldLayout newLayout =>
    ((kind.method (zeroizing A) ptr oldLayout newLayout).run h.machine).map fun r =>
      (some r.1, h.after i r.2 (match r.1 with
        | .ok slice => (h.ledger.insert j (.ofSlice slice newLayout)).erase i
        | .error _ => h.ledger))
  | .write i off v =>
    .ok (none, { h with mem := h.mem.store ((h.ledger.block i).addr + off) v })

/-- One step. -/
def Step (h : ZeroizeHeap cfg β) (e : Op cfg × Option AllocResult) (h' : ZeroizeHeap cfg β) : Prop :=
  h.Legal e.1 ∧ h.exec A e.1 = .ok (e.2, h')

/-- A fresh wrapper: no block is live and none was given back. -/
def init (b : β) (mem : Memory UInt8) : ZeroizeHeap cfg β := ⟨b, mem, ⟨∅, fun _ => ⟨0, 0, 0, 0⟩⟩, []⟩

/-- The bytes of the block `i` that `layout` leaves out are zero. -/
def SlackZero (i : ℕ) (layout : Layout cfg) : Prop :=
  ∀ k, layout.size ≤ k → k < (h.ledger.block i).len → h.mem ((h.ledger.block i).addr + k) = 0

/-- An operation gives a block back with all bytes zero that its layout leaves out. -/
def Tidy : Op cfg → Prop
  | .deallocate i _ layout => h.SlackZero i layout
  | .resize _ i _ _ oldLayout _ => h.SlackZero i oldLayout
  | .allocate _ _ _ | .write _ _ _ => True

/-- How many blocks an operation with this answer gives back. -/
def releaseCount : Op cfg × Option AllocResult → ℕ
  | (.deallocate _ _ _, _) | (.resize _ _ _ _ _ _, some (.ok _)) => 1
  | _ => 0

/-- A step that is tidy in case it gives a block back. -/
def TidyStep (h : ZeroizeHeap cfg β) (e : Op cfg × Option AllocResult) (h' : ZeroizeHeap cfg β) :
    Prop := Step A h e h' ∧ (releaseCount e ≠ 0 → h.Tidy e.1)

end ZeroizeHeap

/-- Every byte of the slice that was returned for the block was zero when the backend got
it back. -/
def Release.Clean (x : Block × Release cfg) : Prop :=
  ∀ k < x.1.len, x.2.mem (x.1.addr + k) = 0

/-! ## What one call does -/

namespace ZeroizeHeap

variable {A : Allocator cfg β} {Rep : Ledger Block → β → Memory UInt8 → Prop}
  {m : Machine (β × List (Release cfg))} {L : Ledger Block} {i j : ℕ} {ptr : NonNull}
  {layout oldLayout : Layout cfg}

theorem allocate_run (hA : A.Contract Rep) (hrep : Rep L m.self.1 m.mem) (hi : i ∉ L.live)
    (zeroed : Bool) : ∃ (r : AllocResult) (m' : Machine β), (allocateWith A zeroed layout).run m =
        .ok (r, ⟨(m'.self, m.self.2), m'.mem, m'.log⟩) ∧
      L.Untouched m.mem m'.mem ∧ Answers Rep L i layout m' r := by
  cases zeroed with
  | false =>
    obtain ⟨r, m', hrun, hkeep, hans⟩ := hA.allocate (m := ⟨m.self.1, m.mem, m.log⟩) layout hrep hi
    exact ⟨r, m', ZeroizeAlloc.allocate_run.trans (Code.lift_run hrun), hkeep, hans⟩
  | true =>
    obtain ⟨r, m', hrun, hkeep, hans, -⟩ :=
      hA.allocateZeroed (m := ⟨m.self.1, m.mem, m.log⟩) layout hrep hi
    exact ⟨r, m', ZeroizeAlloc.allocateZeroed_run.trans (Code.lift_run hrun), hkeep, hans⟩

/-- `deallocate` shows the backend the block with the first `layout.size` bytes wiped. -/
theorem deallocate_run (hA : A.Contract Rep) (hs : L.Sound cfg) (hrep : Rep L m.self.1 m.mem)
    (hheld : Held L i ptr layout) :
    ∃ m' : Machine β, ((zeroizing A).deallocate ptr layout).run m =
        .ok ((), ⟨(m'.self, m.self.2 ++ [⟨ptr, layout, m.mem.fill ptr.asPtr.addr layout.size 0⟩]),
          m'.mem, m'.log⟩) ∧ Rep (L.erase i) m'.self m'.mem := by
  let wiped := m.fill ptr.asPtr layout.size 0
  have hrep' : Rep L wiped.self.1 wiped.mem :=
    hA.client hrep (Ledger.free_of_writes hheld.live fun _ ha => hheld.fill_of_notMem m ha)
  obtain ⟨m', hrun, -, hrep''⟩ :=
    hA.deallocate (m := ⟨wiped.self.1, wiped.mem, wiped.log⟩) hrep' hheld
  have hget : (get : Code (β × List (Release cfg)) _).run wiped = .ok (wiped, wiped) := rfl
  refine ⟨m', ?_, hrep''⟩
  rw [show (zeroizing A).deallocate ptr layout =
      (ZeroizeAlloc.new A.watched).deallocate ptr layout from rfl,
    ZeroizeAlloc.deallocate_run (hheld.end_lt hs)]
  show (A.watched.deallocate ptr layout).run wiped = _
  rw [Allocator.watched, Exec.run_bind_ok hget, Exec.run_bind_ok (record_run _ wiped)]
  exact Code.lift_run hrun

theorem method_eq (kind : Resize) : kind.method (zeroizing A) =
    Allocator.defaultResize (allocateWith A kind.zeroed) (zeroizing A).deallocate := by
  cases kind <;> rfl

/-- What a resizing method does: fail without a release, or show the backend the old block
with the bytes of the old layout wiped and the others as they were. -/
theorem resize_run (hA : A.Contract Rep) (hs : L.Sound cfg) (hrep : Rep L m.self.1 m.mem)
    (hheld : Held L i ptr oldLayout) (hj : j ∉ L.live) (kind : Resize) (newLayout : Layout cfg) :
    ∃ (r : AllocResult) (m' : Machine β) (rs : List (Release cfg)),
      (kind.method (zeroizing A) ptr oldLayout newLayout).run m =
        .ok (r, ⟨(m'.self, m.self.2 ++ rs), m'.mem, m'.log⟩) ∧
      match r with
      | .error _ => rs = [] ∧ Rep L m'.self m'.mem
      | .ok slice => Grants L newLayout (.ofSlice slice newLayout) ∧
          Rep ((L.insert j (.ofSlice slice newLayout)).erase i) m'.self m'.mem ∧
          ∃ mem : Memory UInt8, rs = [⟨ptr, oldLayout, mem.fill ptr.asPtr.addr oldLayout.size 0⟩] ∧
            ∀ a ∈ (L.block i).span, mem a = m.mem a := by
  obtain ⟨r, m₁, halloc, hkeep, hans⟩ := allocate_run (m := m) hA hrep hj kind.zeroed
  rw [method_eq]
  cases r with
  | error e =>
    refine ⟨.error e, m₁, [], ?_, rfl, hans⟩
    rw [List.append_nil]
    exact Allocator.defaultResize_run_error halloc
  | ok slice =>
    obtain ⟨hgrants, hrep₁⟩ := hans
    have hcopied : Copied cfg (fun L c mem => Rep L c.1 mem) L i j (.ofSlice slice newLayout)
        (min oldLayout.size newLayout.size) m
        ((Machine.mk (m₁.self, m.self.2) m₁.mem m₁.log).copy ptr.asPtr slice.asPtr
          (min oldLayout.size newLayout.size)) :=
      Allocator.copied_of_grants hs hheld hj hgrants hkeep fun _ => hA.client hrep₁
    obtain ⟨m₂, hdealloc, hrep₂⟩ := deallocate_run hA hcopied.sound hcopied.rep (hheld.insert hj)
    exact ⟨.ok slice, m₂, _, Allocator.defaultResize_run_ok halloc hdealloc, hgrants, hrep₂, _, rfl,
      hcopied.untouched i hheld.live⟩

/-! ## What a step does -/

/-- The invariant of all runs. -/
structure Inv (Rep : Ledger Block → β → Memory UInt8 → Prop) (h : ZeroizeHeap cfg β) : Prop where
  rep : Rep h.ledger h.backend h.mem
  sound : h.ledger.Sound cfg

variable {h : ZeroizeHeap cfg β}

/-- A block is given back clean exactly when the bytes its layout leaves out were zero. -/
theorem clean_iff {mem : Memory UInt8} (hheld : Held h.ledger i ptr layout)
    (hmem : ∀ a ∈ (h.ledger.block i).span, mem a = h.mem a) :
    Release.Clean (h.ledger.block i, ⟨ptr, layout, mem.fill ptr.asPtr.addr layout.size 0⟩) ↔
      h.SlackZero i layout := by
  unfold Release.Clean SlackZero
  dsimp only
  -- up to the size of the layout the bytes are wiped, after it they are the block's own
  rw [hheld.addr_eq]
  constructor
  · intro hclean k hk hk'
    have hbyte := hclean k hk'
    rwa [Memory.fill_of_notMem (by omega), hmem _ (Block.add_mem_span hk')] at hbyte
  · intro hslack k hk
    by_cases hin : k < layout.size
    · exact Memory.fill_of_mem (by omega)
    · rw [Memory.fill_of_notMem (by omega), hmem _ (Block.add_mem_span hk)]
      exact hslack k (by omega) hk

/-- Every legal operation returns; what it gives back to the backend is clean exactly when
the operation is tidy. -/
theorem exec_spec (hA : A.Contract Rep) (hinv : h.Inv Rep) {op : Op cfg} (hl : h.Legal op) :
    ∃ ans h' new, h.exec A op = .ok (ans, h') ∧ h'.Inv Rep ∧ h'.released = h.released ++ new ∧
      new.length = releaseCount (op, ans) ∧ ∀ x ∈ new, Release.Clean x ↔ h.Tidy op := by
  obtain ⟨hrep, hs⟩ := hinv
  have hnone : ∀ x ∈ ([] : List (Block × Release cfg)), Release.Clean x ↔ h.Tidy op :=
    fun x hx => absurd hx List.not_mem_nil
  cases op with
  | allocate zeroed i layout =>
    obtain ⟨r, m', hrun, -, hans⟩ := allocate_run (m := h.machine) hA hrep hl zeroed
    refine ⟨some r, _, [], by rw [exec, hrun]; rfl, ?_, rfl, rfl, hnone⟩
    cases r with
    | error e => exact ⟨hans, hs⟩
    | ok slice => exact ⟨hans.2, hs.insert hans.1 i⟩
  | deallocate i ptr layout =>
    obtain ⟨m', hrun, hrep'⟩ := deallocate_run (m := h.machine) hA hs hrep hl
    refine ⟨none, _, _, by rw [exec, hrun]; rfl, ⟨hrep', hs.erase i⟩, rfl, rfl, ?_⟩
    intro x hx
    obtain rfl := List.mem_singleton.1 hx
    exact clean_iff hl fun _ _ => rfl
  | resize kind i j ptr oldLayout newLayout =>
    obtain ⟨hheld, hj, -⟩ := hl
    obtain ⟨r, m', rs, hrun, hans⟩ := resize_run (m := h.machine) hA hs hrep hheld hj kind newLayout
    refine ⟨some r, _, rs.map fun x => (h.ledger.block i, x), by rw [exec, hrun]; rfl, ?_⟩
    cases r with
    | error e =>
      obtain ⟨rfl, hrep'⟩ := hans
      exact ⟨⟨hrep', hs⟩, rfl, rfl, hnone⟩
    | ok slice =>
      obtain ⟨hgrants, hrep', mem, rfl, hmem⟩ := hans
      refine ⟨⟨hrep', (hs.insert hgrants j).erase i⟩, rfl, rfl, ?_⟩
      intro x hx
      obtain rfl := List.mem_singleton.1 hx
      exact clean_iff hheld hmem
  | write i off v =>
    exact ⟨none, _, [], rfl, ⟨hA.client hrep (Ledger.store_of_free hl.1 hl.2 h.mem v), hs⟩,
      (List.append_nil _).symm, rfl, hnone⟩

theorem Step.spec (hA : A.Contract Rep) (hinv : h.Inv Rep) {e : Op cfg × Option AllocResult}
    {h' : ZeroizeHeap cfg β} (hstep : Step A h e h') :
    h'.Inv Rep ∧ ∃ new, h'.released = h.released ++ new ∧ new.length = releaseCount e ∧
      ∀ x ∈ new, Release.Clean x ↔ h.Tidy e.1 := by
  obtain ⟨ans, h'', new, hexec, hinv', hnew⟩ := exec_spec hA hinv hstep.1
  rw [hstep.2] at hexec
  cases hexec
  exact ⟨hinv', new, hnew⟩

/-! ## Whole runs -/

variable {b : β} {mem : Memory UInt8} {es : List (Op cfg × Option AllocResult)}

theorem init_inv (hinit : Rep (init b mem : ZeroizeHeap cfg β).ledger b mem) :
    (init b mem : ZeroizeHeap cfg β).Inv Rep := ⟨hinit, .of_empty rfl⟩

theorem run_inv (hA : A.Contract Rep) (hinit : Rep (init b mem : ZeroizeHeap cfg β).ledger b mem)
    (hrun : Run (Step A) (init b mem) es h) : h.Inv Rep :=
  hrun.invariant (fun _ _ _ hinv hstep => (hstep.spec hA hinv).1) (init_inv hinit)

theorem run_length (hA : A.Contract Rep)
    (hinit : Rep (init b mem : ZeroizeHeap cfg β).ledger b mem)
    (hrun : Run (Step A) (init b mem) es h) :
    h.released.length = (es.map releaseCount).sum := by
  induction hrun with
  | nil => rfl
  | snoc hrun hlast ih =>
    obtain ⟨-, new, hnew, hlen, -⟩ := hlast.spec hA (run_inv hA hinit hrun)
    rw [hnew, List.length_append, ih, hlen, List.map_append, List.sum_append,
      List.map_singleton, List.sum_singleton]

/-- In a run whose releasing steps are all tidy every block is given back clean. -/
theorem clean_of_tidy (hA : A.Contract Rep)
    (hinit : Rep (init b mem : ZeroizeHeap cfg β).ledger b mem)
    (hrun : Run (TidyStep A) (init b mem) es h) : ∀ x ∈ h.released, Release.Clean x := by
  have hinv : h.Inv Rep ∧ ∀ x ∈ h.released, Release.Clean x := by
    refine hrun.invariant (I := fun g => g.Inv Rep ∧ ∀ x ∈ g.released, Release.Clean x) ?_
      ⟨init_inv hinit, fun x hx => absurd hx List.not_mem_nil⟩
    rintro g e g' ⟨hinv, hclean⟩ ⟨hstep, htidy⟩
    obtain ⟨hinv', new, hnew, hlen, hiff⟩ := hstep.spec hA hinv
    refine ⟨hinv', ?_⟩
    rw [hnew]
    intro x hx
    rcases List.mem_append.1 hx with hx | hx
    · exact hclean x hx
    · exact (hiff x hx).2 (htidy (hlen ▸ (List.length_pos_of_mem hx).ne'))
  exact hinv.2

/-- A run that gives every block back clean has tidy steps only. -/
theorem tidy_of_clean (hA : A.Contract Rep)
    (hinit : Rep (init b mem : ZeroizeHeap cfg β).ledger b mem)
    (hrun : Run (Step A) (init b mem) es h) (hclean : ∀ x ∈ h.released, Release.Clean x) :
    Run (TidyStep A) (init b mem) es h := by
  induction hrun with
  | nil => exact .nil _
  | snoc hrun hlast ih =>
    obtain ⟨-, new, hnew, hlen, hiff⟩ := hlast.spec hA (run_inv hA hinit hrun)
    rw [hnew] at hclean
    refine (ih fun x hx => hclean x (List.mem_append_left new hx)).snoc ⟨hlast, ?_⟩
    intro hcount
    obtain ⟨x, hx⟩ := List.exists_mem_of_length_pos (Nat.pos_of_ne_zero (hlen.trans_ne hcount))
    exact (hiff x hx).1 (hclean x (List.mem_append_right _ hx))

/-- **Release.**  In a run every block is given back to the backend with all bytes of its
slice zero exactly when every step that gives a block back finds the bytes zero that its
layout leaves out.  Every deallocation and every successful resize gives back one block, and
every legal operation returns. -/
theorem release_clean (hA : A.Contract Rep)
    (hinit : Rep (init b mem : ZeroizeHeap cfg β).ledger b mem)
    (hrun : Run (Step A) (init b mem) es h) :
    ((∀ x ∈ h.released, Release.Clean x) ↔ Run (TidyStep A) (init b mem) es h) ∧
    h.released.length = (es.map releaseCount).sum ∧
    ∀ op, h.Legal op → ∃ ans h', Step A h (op, ans) h' := by
  refine ⟨⟨tidy_of_clean hA hinit hrun, clean_of_tidy hA hinit⟩, run_length hA hinit hrun, ?_⟩
  intro op hl
  obtain ⟨ans, h', -, hexec, -⟩ := exec_spec hA (run_inv hA hinit hrun) hl
  exact ⟨ans, h', hl, hexec⟩

/-! ## Nine bytes in a block of sixteen -/

/-- The allocator of one page as the backend. -/
def sampleBackend : Allocator Heap.sampleCfg (SecStackSinglePageAlloc Heap.sampleCfg) :=
  SecStackSinglePageAlloc.allocator

abbrev SampleHeap := ZeroizeHeap Heap.sampleCfg (SecStackSinglePageAlloc Heap.sampleCfg)

def sampleStart : SampleHeap := init Heap.sampleStart.alloc fun _ => 0

def sampleSlice : NonNullSlice := Exact.freshSlice Heap.sampleStart.alloc Heap.nineBytes

/-- The memory with one byte of the block set. -/
def sampleMem (off : ℕ) : Memory UInt8 := Memory.store (fun _ => 0) (65536 + off) 7

/-- A block of nine bytes with the byte at `off` set. -/
def sampleHeld (off : ℕ) : SampleHeap :=
  ⟨(Heap.sampleStart.place 0 Heap.nineBytes).alloc, sampleMem off,
    sampleStart.ledger.insert 0 (.ofSlice sampleSlice Heap.nineBytes), []⟩

/-- The block was given back: the wrapper wiped nine bytes, then the backend all sixteen. -/
def sampleEnd (off : ℕ) : SampleHeap :=
  ⟨Heap.sampleStart.alloc, ((sampleMem off).fill 65536 9 0).fill 65536 16 0,
    (sampleHeld off).ledger.erase 0,
    [(.ofSlice sampleSlice Heap.nineBytes,
      ⟨sampleSlice.cast, Heap.nineBytes, (sampleMem off).fill 65536 9 0⟩)]⟩

def sampleEvents (off : ℕ) : List (Op Heap.sampleCfg × Option AllocResult) :=
  [(.allocate false 0 Heap.nineBytes, some (.ok sampleSlice)), (.write 0 off 7, none),
    (.deallocate 0 sampleSlice.cast Heap.nineBytes, none)]

theorem sampleHeld_held (off : ℕ) :
    Held (sampleHeld off).ledger 0 sampleSlice.cast Heap.nineBytes :=
  ⟨Finset.mem_insert_self 0 ∅, rfl, ⟨le_rfl, (by decide : 9 ≤ 16)⟩, rfl⟩

theorem sampleRun {off : ℕ} (h : off < 16) :
    Run (Step sampleBackend) sampleStart (sampleEvents off) (sampleEnd off) :=
  .snoc (.snoc (.snoc (.nil _) ⟨Finset.notMem_empty 0, rfl⟩)
    ⟨⟨Finset.mem_insert_self 0 ∅, h⟩, rfl⟩) ⟨sampleHeld_held off, rfl⟩

theorem sampleRun_tidy : Run (TidyStep sampleBackend) sampleStart (sampleEvents 3) (sampleEnd 3) := by
  refine .snoc (.snoc (.snoc (.nil _) ⟨⟨Finset.notMem_empty 0, rfl⟩, fun _ => trivial⟩)
    ⟨⟨⟨Finset.mem_insert_self 0 ∅, by decide⟩, rfl⟩, fun _ => trivial⟩)
    ⟨⟨sampleHeld_held 3, rfl⟩, fun _ k hk _ => ?_⟩
  have hne : 65536 + k ≠ 65536 + 3 := by
    have hnine : 9 ≤ k := hk
    omega
  have hzero : sampleMem 3 (65536 + k) = 0 := Memory.store_of_ne hne
  exact hzero

/-- With the byte at offset 3 set the block is given back clean. -/
theorem release_clean_sample :
    (sampleEnd 3).released.length = 1 ∧ ∀ x ∈ (sampleEnd 3).released, Release.Clean x := by
  obtain ⟨hiff, hlength, -⟩ := release_clean SecStackSinglePageAlloc.contract
    (SecStackSinglePageAlloc.serves_new Heap.sampleStart_zeroed) (sampleRun (by decide : 3 < 16))
  exact ⟨hlength, hiff.2 sampleRun_tidy⟩

/-- With the byte at offset 12 set the block is given back as it is there. -/
theorem not_release_clean : ¬ ∀ (cfg : Cfg) (β : Type) (A : Allocator cfg β)
    (Rep : Ledger Block → β → Memory UInt8 → Prop), A.Contract Rep → ∀ (b : β) (mem : Memory UInt8),
    Rep (init b mem : ZeroizeHeap cfg β).ledger b mem → ∀ es h, Run (Step A) (init b mem) es h →
    ∀ x ∈ h.released, Release.Clean x := by
  intro hall
  have hclean := hall _ _ sampleBackend _ SecStackSinglePageAlloc.contract _ _
    (SecStackSinglePageAlloc.serves_new Heap.sampleStart_zeroed) _ _
    (sampleRun (by decide : 12 < 16)) _ (List.mem_singleton_self _)
  exact absurd (hclean 12 (by decide)) (by decide)

end ZeroizeHeap

end SecmemAlloc
