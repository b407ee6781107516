import SecmemAlloc.Lib.Run
import SecmemAlloc.Rust.Contract
import SecmemAlloc.SecAlloc.Contract
import SecmemAlloc.ZeroizingAlloc.Code

/-!
# `ZeroizeAlloc` as a `GlobalAlloc`

Every call of the backend is noted.  The notes alone tell which blocks the backend has
handed out and not got back, and the runs are judged by them: each block is given back at
most once, with the layout it was allocated with and wiped, and the backend is never asked
to resize one.

The wrapper around a watched backend meets the contract of `GlobalAlloc` again, with what the
notes have to satisfy as part of its invariant.  `realloc` is the default of the trait, so
it inherits all of this from `alloc` and `dealloc`.
-/

namespace SecmemAlloc

variable {cfg : Cfg} {β γ : Type}

/-! ## The calls of the backend -/

/-- A call that the backend received: what it answered, and for `dealloc` the memory it was
shown. -/
inductive BackendCall (cfg : Cfg)
  | alloc (zeroed : Bool) (layout : Layout cfg) (ptr : Ptr)
  | dealloc (ptr : Ptr) (layout : Layout cfg) (mem : Memory UInt8)
  | realloc (ptr : Ptr) (layout : Layout cfg) (newSize : ℕ) (newPtr : Ptr)

/-- The layouts of the blocks that were handed out and not given back, by address. -/
abbrev Outstanding (cfg : Cfg) := ℕ → Option (Layout cfg)

/-- Account for one call.  A block is handed out at an address where none is outstanding, it
is given back with the layout it was handed out for, and it is never resized. -/
def BackendCall.account (o : Outstanding cfg) : BackendCall cfg → Option (Outstanding cfg)
  | .alloc _ layout ptr =>
    if ptr.addr = 0 then some o
    else if o ptr.addr = none then some (Function.update o ptr.addr (some layout))
    else none
  | .dealloc ptr layout _ =>
    if o ptr.addr = some layout then some (Function.update o ptr.addr none) else none
  | .realloc _ _ _ _ => none

/-- Account for all calls, from the first one on. -/
def BackendCall.accountAll (calls : List (BackendCall cfg)) : Option (Outstanding cfg) :=
  calls.foldlM account fun _ => none

/-- A block that is given back has all its bytes zero. -/
def BackendCall.Wiped : BackendCall cfg → Prop
  | .dealloc ptr layout mem => ∀ k < layout.size, mem (ptr.addr + k) = 0
  | .alloc _ _ _ | .realloc _ _ _ _ => True

/-- The outstanding blocks are the live ones. -/
def Outstanding.Matches (o : Outstanding cfg) (L : Ledger Block) : Prop :=
  ∀ addr layout, o addr = some layout ↔ ∃ i ∈ L.live, L.block i = GlobalAlloc.blockAt addr layout

namespace GlobalAlloc

/-- Call the backend for a pointer and note the call. -/
def watch (x : Code β Ptr) (call : Ptr → BackendCall cfg) :
    Code (β × List (BackendCall cfg)) Ptr := do
  let ptr ← Code.lift x
  record (call ptr)
  pure ptr

/-- The backend, watched. -/
def watched (A : GlobalAlloc cfg β) : GlobalAlloc cfg (β × List (BackendCall cfg)) where
  alloc layout := watch (A.alloc layout) (.alloc false layout)
  allocZeroed layout := watch (A.allocZeroed layout) (.alloc true layout)
  dealloc ptr layout := do
    let m ← get
    record (.dealloc ptr layout m.mem)
    Code.lift (A.dealloc ptr layout)
  realloc ptr layout newSize := watch (A.realloc ptr layout newSize) (.realloc ptr layout newSize)

/-- The wrapper around the watched backend. -/
def zeroizing (A : GlobalAlloc cfg β) : GlobalAlloc cfg (β × List (BackendCall cfg)) :=
  (ZeroizeAlloc.new A.watched).globalAlloc

theorem watch_run {x : Code β Ptr} {call : Ptr → BackendCall cfg}
    {m : Machine (β × List (BackendCall cfg))} {p : Ptr} {m' : Machine β}
    (h : x.run ⟨m.self.1, m.mem, m.log⟩ = .ok (p, m')) :
    (watch x call).run m = .ok (p, ⟨(m'.self, m.self.2 ++ [call p]), m'.mem, m'.log⟩) := by
  rw [watch, Exec.run_bind_ok (Code.lift_run h), Exec.run_bind_ok (record_run _ _), Exec.run_pure]

end GlobalAlloc

/-! ## Accounting -/

section Accounting

variable {o : Outstanding cfg} {L : Ledger Block} {i : ℕ} {addr : ℕ} {layout : Layout cfg}
  {calls : List (BackendCall cfg)} {call : BackendCall cfg}

theorem BackendCall.accountAll_snoc {o' : Outstanding cfg} (h : accountAll calls = some o)
    (h' : account o call = some o') : accountAll (calls ++ [call]) = some o' := by
  simp only [accountAll] at *
  rw [List.foldlM_append, h]
  simpa using h'

theorem GlobalAlloc.blockAt_inj {addr' : ℕ} {layout' : Layout cfg}
    (h : blockAt addr layout = blockAt addr' layout') : addr = addr' ∧ layout = layout' := by
  obtain ⟨haddr, -, hsize, halign⟩ := Block.mk.inj h
  refine ⟨haddr, ?_⟩
  cases layout
  cases layout'
  cases hsize
  cases halign
  rfl

/-- The live blocks are told apart by their addresses. -/
def Ledger.Distinct (L : Ledger Block) : Prop :=
  ∀ i ∈ L.live, ∀ j ∈ L.live, (L.block i).addr = (L.block j).addr → i = j

theorem Ledger.Sound.distinct (hs : L.Sound cfg) (hne : ∀ i ∈ L.live, (L.block i).len ≠ 0) :
    L.Distinct := by
  intro i hi j hj haddr
  by_contra hij
  have hmem : (L.block i).addr ∈ (L.block i).span :=
    Block.add_mem_span (k := 0) (Nat.pos_of_ne_zero (hne i hi))
  apply hs.notMem_span hi hj hij hmem
  rw [haddr]
  exact Block.add_mem_span (k := 0) (Nat.pos_of_ne_zero (hne j hj))

namespace Outstanding.Matches

/-- No block is outstanding where no live block starts. -/
theorem eq_none (h : o.Matches L) (hfresh : ∀ j ∈ L.live, (L.block j).addr ≠ addr) :
    o addr = none := by
  cases ho : o addr with
  | none => rfl
  | some layout =>
    obtain ⟨j, hj, hblock⟩ := (h addr layout).1 ho
    exact absurd (congrArg Block.addr hblock) (hfresh j hj)

theorem insert (h : o.Matches L) (hi : i ∉ L.live) (hfresh : ∀ j ∈ L.live, (L.block j).addr ≠ addr) :
    Matches (Function.update o addr (some layout)) (L.insert i (GlobalAlloc.blockAt addr layout)) := by
  intro addr' layout'
  by_cases haddr : addr' = addr
  · subst haddr
    rw [Function.update_self]
    constructor
    · rintro ⟨⟩
      exact ⟨i, Finset.mem_insert_self i L.live, Ledger.block_insert_self ..⟩
    · rintro ⟨k, hk, hblock⟩
      by_cases hki : k = i
      · subst hki
        rw [Ledger.block_insert_self] at hblock
        rw [(GlobalAlloc.blockAt_inj hblock).2]
      · rw [Ledger.block_insert_of_ne hki] at hblock
        exact absurd (congrArg Block.addr hblock)
          (hfresh k ((Finset.mem_insert.1 hk).resolve_left hki))
  · rw [Function.update_of_ne haddr, h addr' layout']
    constructor
    · rintro ⟨k, hk, hblock⟩
      have hki : k ≠ i := ne_of_mem_of_not_mem hk hi
      exact ⟨k, Finset.mem_insert_of_mem hk, (Ledger.block_insert_of_ne hki).trans hblock⟩
    · rintro ⟨k, hk, hblock⟩
      by_cases hki : k = i
      · subst hki
        rw [Ledger.block_insert_self] at hblock
        exact absurd (GlobalAlloc.blockAt_inj hblock).1.symm haddr
      · rw [Ledger.block_insert_of_ne hki] at hblock
        exact ⟨k, (Finset.mem_insert.1 hk).resolve_left hki, hblock⟩

theorem erase (h : o.Matches L) (hd : L.Distinct) (hi : i ∈ L.live) :
    Matches (Function.update o (L.block i).addr none) (L.erase i) := by
  intro addr' layout'
  by_cases haddr : addr' = (L.block i).addr
  · subst haddr
    rw [Function.update_self]
    constructor
    · rintro ⟨⟩
    · rintro ⟨k, hk, hblock⟩
      obtain ⟨hki, hk'⟩ := Finset.mem_erase.1 hk
      have haddr := congrArg Block.addr hblock
      exact absurd (hd k hk' i hi haddr) hki
  · rw [Function.update_of_ne haddr, h addr' layout']
    constructor
    · rintro ⟨k, hk, hblock⟩
      have hki : k ≠ i := by
        rintro rfl
        exact haddr (congrArg Block.addr hblock).symm
      exact ⟨k, Finset.mem_erase.2 ⟨hki, hk⟩, hblock⟩
    · rintro ⟨k, hk, hblock⟩
      exact ⟨k, Finset.mem_of_mem_erase hk, hblock⟩

end Outstanding.Matches

end Accounting

/-! ## The wrapper meets the contract again -/

namespace GlobalAlloc

open BackendCall

/-- The backend's invariant, and what the notes have to satisfy. -/
structure Audited (Rep : Ledger Block → β → Memory UInt8 → Prop) (L : Ledger Block)
    (s : β × List (BackendCall cfg)) (mem : Memory UInt8) : Prop where
  rep : Rep L s.1 mem
  sound : L.Sound cfg
  len_ne_zero : ∀ i ∈ L.live, (L.block i).len ≠ 0
  wiped : ∀ call ∈ s.2, call.Wiped
  accounted : ∃ o, accountAll s.2 = some o ∧ o.Matches L

variable {A : GlobalAlloc cfg β} {Rep : Ledger Block → β → Memory UInt8 → Prop}
  {L : Ledger Block} {m : Machine (β × List (BackendCall cfg))} {m' : Machine β} {i : ℕ}
  {ptr : Ptr} {layout : Layout cfg}

/-- One more call keeps the notes clean if it is itself. -/
theorem Audited.wiped_snoc (h : Audited Rep L m.self m.mem) {c : BackendCall cfg} (hc : c.Wiped) :
    ∀ call ∈ m.self.2 ++ [c], call.Wiped := by
  intro call hcall
  rcases List.mem_append.1 hcall with hcall | hcall
  · exact h.wiped call hcall
  · rw [List.mem_singleton.1 hcall]
    exact hc

theorem Audited.alloc (h : Audited Rep L m.self m.mem) (hi : i ∉ L.live) (h0 : layout.size ≠ 0)
    (zeroed : Bool) (hans : Answers Rep L i layout m' ptr) :
    Answers (Audited Rep) L i layout
      ⟨(m'.self, m.self.2 ++ [.alloc zeroed layout ptr]), m'.mem, m'.log⟩ ptr := by
  obtain ⟨o, ho, hmatch⟩ := h.accounted
  have hwiped := h.wiped_snoc (c := .alloc zeroed layout ptr) trivial
  simp only [Answers] at hans ⊢
  by_cases hp : ptr.addr = 0
  · rw [if_pos hp] at hans ⊢
    exact ⟨hans, h.sound, h.len_ne_zero, hwiped, o, accountAll_snoc ho (if_pos hp), hmatch⟩
  · rw [if_neg hp] at hans ⊢
    obtain ⟨hgrants, hrep⟩ := hans
    -- blocks with bytes that do not meet start at different addresses
    have hfresh : ∀ j ∈ L.live, (L.block j).addr ≠ ptr.addr := by
      intro j hj haddr
      apply (hgrants.apart j hj).notMem (a := ptr.addr)
      · exact Block.add_mem_span (b := blockAt ptr.addr layout) (k := 0) (Nat.pos_of_ne_zero h0)
      · rw [← haddr]
        exact Block.add_mem_span (k := 0) (Nat.pos_of_ne_zero (h.len_ne_zero j hj))
    have hlen : (blockAt ptr.addr layout).len ≠ 0 := h0
    exact ⟨hgrants, hrep, h.sound.insert hgrants i,
      Ledger.forall_mem_insert (p := fun _ c => c.len ≠ 0) hlen fun j hj _ => h.len_ne_zero j hj,
      hwiped, _, accountAll_snoc ho ((if_neg hp).trans (if_pos (hmatch.eq_none hfresh))),
      hmatch.insert hi hfresh⟩

theorem Audited.dealloc (h : Audited Rep L m.self m.mem) (hheld : Held L i ptr layout)
    {mem : Memory UInt8} (hwiped : ∀ k < layout.size, mem (ptr.addr + k) = 0)
    (hrep : Rep (L.erase i) m'.self m'.mem) :
    Audited Rep (L.erase i) (m'.self, m.self.2 ++ [.dealloc ptr layout mem]) m'.mem where
  rep := hrep
  sound := h.sound.erase i
  len_ne_zero := fun j hj => h.len_ne_zero j (Finset.mem_of_mem_erase hj)
  wiped := h.wiped_snoc hwiped
  accounted := by
    obtain ⟨o, ho, hmatch⟩ := h.accounted
    have hold : o ptr.addr = some layout :=
      (hmatch ptr.addr layout).2 ⟨i, hheld.live, hheld.block_eq⟩
    have herase := hmatch.erase (h.sound.distinct h.len_ne_zero) hheld.live
    rw [hheld.block_eq] at herase
    exact ⟨_, accountAll_snoc ho (if_pos hold), herase⟩

theorem watched_dealloc_run {m : Machine (β × List (BackendCall cfg))}
    (h : (A.dealloc ptr layout).run ⟨m.self.1, m.mem, m.log⟩ = .ok ((), m')) :
    (A.watched.dealloc ptr layout).run m =
      .ok ((), ⟨(m'.self, m.self.2 ++ [.dealloc ptr layout m.mem]), m'.mem, m'.log⟩) := by
  have hget : (get : Code (β × List (BackendCall cfg)) _).run m = .ok (m, m) := rfl
  rw [watched, Exec.run_bind_ok hget, Exec.run_bind_ok (record_run _ m)]
  exact Code.lift_run h

/-- **Contract.**  Around a backend that meets the contract of `GlobalAlloc` the wrapper
meets it as well, and keeps the notes in order. -/
theorem Contract.zeroizing (hA : A.Contract Rep) : A.zeroizing.Contract (Audited Rep) where
  client := fun h hmem =>
    ⟨hA.client h.rep hmem, h.sound, h.len_ne_zero, h.wiped, h.accounted⟩
  alloc := by
    intro L m i layout h hi h0
    obtain ⟨p, m', hrun, hkeep, hans⟩ :=
      hA.alloc (m := ⟨m.self.1, m.mem, m.log⟩) h.rep hi h0
    exact ⟨p, _, (ZeroizeAlloc.alloc_run h0).trans (watch_run hrun), hkeep,
      h.alloc hi h0 false hans⟩
  allocZeroed := by
    intro L m i layout h hi h0
    obtain ⟨p, m', hrun, hkeep, hans, hzero⟩ :=
      hA.allocZeroed (m := ⟨m.self.1, m.mem, m.log⟩) h.rep hi h0
    exact ⟨p, _, (ZeroizeAlloc.allocZeroed_run h0).trans (watch_run hrun), hkeep,
      h.alloc hi h0 true hans, hzero⟩
  dealloc := by
    intro L m i ptr layout h hheld
    have hptr : ptr.addr ≠ 0 := by
      have hne := h.sound.addr_ne_zero i hheld.live
      rwa [hheld.block_eq] at hne
    have h0 : layout.size ≠ 0 := by
      have hne := h.len_ne_zero i hheld.live
      rwa [hheld.block_eq] at hne
    have hend : ptr.addr + layout.size < 2 ^ cfg.pointerWidth := by
      have hlt := h.sound.stop_lt i hheld.live
      rwa [hheld.block_eq] at hlt
    -- the wrapper wipes the block, which a client may do as well, and no other
    let wiped := m.fill ptr layout.size 0
    have hwrites : ∀ a, a ∉ (L.block i).span → wiped.mem a = m.mem a := by
      intro a ha
      rw [hheld.block_eq] at ha
      exact Block.fill_of_notMem (b := blockAt ptr.addr layout) ha
    have hrep : Rep L m.self.1 wiped.mem :=
      hA.client h.rep (Ledger.free_of_writes hheld.live hwrites)
    obtain ⟨m', hrun, hkeep, hrep'⟩ :=
      hA.dealloc (m := ⟨wiped.self.1, wiped.mem, wiped.log⟩) hrep hheld
    refine ⟨_, (ZeroizeAlloc.dealloc_run hptr h0 hend).trans (watched_dealloc_run (m := wiped) hrun),
      (h.sound.untouched_erase hheld.live hwrites).trans hkeep, ?_⟩
    refine h.dealloc hheld (fun k hk => ?_) hrep'
    exact Memory.fill_of_mem ⟨Nat.le_add_right _ k, Nat.add_lt_add_left hk _⟩

end GlobalAlloc

/-! ## The wrapper and its clients -/

namespace GlobalHeap

/-- What clients do.  A block that `realloc` moved gets a new name. -/
inductive Op (cfg : Cfg)
  /-- `alloc`, or `alloc_zeroed`. -/
  | alloc (zeroed : Bool) (i : ℕ) (layout : Layout cfg)
  | dealloc (i : ℕ) (ptr : Ptr) (layout : Layout cfg)
  | realloc (i j : ℕ) (ptr : Ptr) (layout : Layout cfg) (newSize : ℕ)
  | write (i off : ℕ) (v : UInt8)

end GlobalHeap

/-- A global allocator with cells `γ`, the memory, and the live blocks. -/
structure GlobalHeap (γ : Type) where
  cells : γ
  mem : Memory UInt8
  ledger : Ledger Block

open GlobalAlloc (Held Answers Audited blockAt)

namespace GlobalHeap

/-- An allocator before its first call. -/
def init (c : γ) (mem : Memory UInt8) : GlobalHeap γ := ⟨c, mem, ⟨∅, fun _ => ⟨0, 0, 0, 0⟩⟩⟩

variable (G : GlobalAlloc cfg γ) (h : GlobalHeap γ)

/-- The machine a call starts from. -/
def machine : Machine γ := ⟨h.cells, h.mem, []⟩

/-- The operations that respect the contract. -/
def Legal : Op cfg → Prop
  | .alloc _ i layout => i ∉ h.ledger.live ∧ layout.size ≠ 0
  | .dealloc i ptr layout => Held h.ledger i ptr layout
  | .realloc i j ptr layout newSize => Held h.ledger i ptr layout ∧ j ∉ h.ledger.live ∧
    newSize ≠ 0 ∧ newSize + (layout.align - 1) ≤ cfg.isizeMax
  | .write i off _ => i ∈ h.ledger.live ∧ off < (h.ledger.block i).len

/-- Carry out an operation. -/
def exec : Op cfg → Except Fault (Option Ptr × GlobalHeap γ)
  | .alloc zeroed i layout =>
    ((if zeroed then G.allocZeroed layout else G.alloc layout).run h.machine).map fun r =>
      (some r.1, ⟨r.2.self, r.2.mem,
        if r.1.addr = 0 then h.ledger else h.ledger.insert i (blockAt r.1.addr layout)⟩)
  | .dealloc i ptr layout =>
    ((G.dealloc ptr layout).run h.machine).map fun r =>
      (none, ⟨r.2.self, r.2.mem, h.ledger.erase i⟩)
  | .realloc i j ptr layout newSize =>
    ((G.realloc ptr layout newSize).run h.machine).map fun r =>
      (some r.1, ⟨r.2.self, r.2.mem,
        if r.1.addr = 0 then h.ledger
        else (h.ledger.insert j ⟨r.1.addr, newSize, newSize, layout.align⟩).erase i⟩)
  | .write i off v =>
    .ok (none, { h with mem := h.mem.store ((h.ledger.block i).addr + off) v })

/-- One step. -/
def Step (h : GlobalHeap γ) (e : Op cfg × Option Ptr) (h' : GlobalHeap γ) : Prop :=
  h.Legal e.1 ∧ h.exec G e.1 = .ok (e.2, h')

/-- The live blocks that an operation with this answer gives back or writes to. -/
def touched : Op cfg × Option Ptr → Finset ℕ
  | (.alloc _ _ _, _) | (.realloc _ _ _ _ _, none) => ∅
  | (.realloc i _ _ _ _, some newPtr) => if newPtr.addr = 0 then ∅ else {i}
  | (.dealloc i _ _, _) | (.write i _ _, _) => {i}

/-- What an operation with this answer does to the blocks of its clients. -/
structure Effect (h : GlobalHeap γ) (e : Op cfg × Option Ptr) (h' : GlobalHeap γ) : Prop where
  /-- Blocks that are not touched stay live and keep their bytes. -/
  others : ∀ k ∈ h.ledger.live, k ∉ touched e → k ∈ h'.ledger.live ∧
    h'.ledger.block k = h.ledger.block k ∧ ∀ a ∈ (h.ledger.block k).span, h'.mem a = h.mem a
  /-- A block from `alloc_zeroed` is zero. -/
  zeroed : ∀ i layout ptr, e = (.alloc true i layout, some ptr) → ptr.addr ≠ 0 →
    ∀ k < layout.size, h'.mem (ptr.addr + k) = 0
  /-- A `realloc` that returns null leaves the old block live, and all bytes unchanged. -/
  failed : ∀ i j ptr layout newSize newPtr, e = (.realloc i j ptr layout newSize, some newPtr) →
    newPtr.addr = 0 → h'.ledger = h.ledger ∧ h.ledger.Untouched h.mem h'.mem
  /-- A `realloc` that succeeds replaces the old block and preserves its bytes. -/
  moved : ∀ i j ptr layout newSize newPtr, e = (.realloc i j ptr layout newSize, some newPtr) →
    newPtr.addr ≠ 0 →
    h'.ledger = (h.ledger.insert j ⟨newPtr.addr, newSize, newSize, layout.align⟩).erase i ∧
    ∀ k < min layout.size newSize, h'.mem (newPtr.addr + k) = h.mem (ptr.addr + k)

/-! ## What a step does -/

section

variable {A : GlobalAlloc cfg β} {Rep : Ledger Block → β → Memory UInt8 → Prop}
  {h : GlobalHeap (β × List (BackendCall cfg))}

/-- The invariant of all runs. -/
def Inv (Rep : Ledger Block → β → Memory UInt8 → Prop)
    (h : GlobalHeap (β × List (BackendCall cfg))) : Prop := Audited Rep h.ledger h.cells h.mem

/-- The operation returns, keeps the invariant and has the effect it should have. -/
def Succeeds (A : GlobalAlloc cfg β) (Rep : Ledger Block → β → Memory UInt8 → Prop)
    (h : GlobalHeap (β × List (BackendCall cfg))) (op : Op cfg) : Prop :=
  ∃ ans h', h.exec A.zeroizing op = .ok (ans, h') ∧ h'.Inv Rep ∧ Effect h (op, ans) h'

theorem kept_insert {L : Ledger Block} {i k : ℕ} {b : Block} (hi : i ∉ L.live) (hk : k ∈ L.live) :
    k ∈ (L.insert i b).live ∧ (L.insert i b).block k = L.block k :=
  ⟨Finset.mem_insert_of_mem hk, Ledger.block_insert_of_ne (ne_of_mem_of_not_mem hk hi)⟩

theorem alloc_succeeds (hA : A.Contract Rep) (hinv : h.Inv Rep) {zeroed : Bool} {i : ℕ}
    {layout : Layout cfg} (hi : i ∉ h.ledger.live) (h0 : layout.size ≠ 0) :
    Succeeds A Rep h (.alloc zeroed i layout) := by
  have hcall : ∃ (p : Ptr) (m' : Machine (β × List (BackendCall cfg))),
      (if zeroed then A.zeroizing.allocZeroed layout else A.zeroizing.alloc layout).run h.machine =
        .ok (p, m') ∧ h.ledger.Untouched h.mem m'.mem ∧
      Answers (Audited Rep) h.ledger i layout m' p ∧
      (zeroed = true → p.addr ≠ 0 → ∀ k < layout.size, m'.mem (p.addr + k) = 0) := by
    cases zeroed with
    | false =>
      obtain ⟨p, m', hrun, hkeep, hans⟩ := hA.zeroizing.alloc (m := h.machine) hinv hi h0
      exact ⟨p, m', hrun, hkeep, hans, fun hfalse => absurd hfalse Bool.false_ne_true⟩
    | true =>
      obtain ⟨p, m', hrun, hkeep, hans, hzero⟩ :=
        hA.zeroizing.allocZeroed (m := h.machine) hinv hi h0
      exact ⟨p, m', hrun, hkeep, hans, fun _ => hzero⟩
  obtain ⟨p, m', hrun, hkeep, hans, hzero⟩ := hcall
  refine ⟨some p, _, by rw [exec, hrun]; rfl, ?_, ?_, ?_, ?_, ?_⟩
  · simp only [Answers] at hans
    show Audited Rep (if p.addr = 0 then h.ledger else _) m'.self m'.mem
    split at hans
    · rwa [if_pos ‹_›]
    · rw [if_neg ‹_›]
      exact hans.2
  · intro k hk _
    dsimp only
    split
    · exact ⟨hk, rfl, hkeep k hk⟩
    · obtain ⟨hk', hblock⟩ := kept_insert (b := blockAt p.addr layout) hi hk
      exact ⟨hk', hblock, hkeep k hk⟩
  · rintro _ _ _ ⟨⟩ hp
    exact hzero rfl hp
  · rintro _ _ _ _ _ _ ⟨⟩
  · rintro _ _ _ _ _ _ ⟨⟩

theorem dealloc_succeeds (hA : A.Contract Rep) (hinv : h.Inv Rep) {i : ℕ} {ptr : Ptr}
    {layout : Layout cfg} (hheld : Held h.ledger i ptr layout) :
    Succeeds A Rep h (.dealloc i ptr layout) := by
  obtain ⟨m', hrun, hkeep, hrep⟩ := hA.zeroizing.dealloc (m := h.machine) hinv hheld
  refine ⟨none, _, by rw [exec, hrun]; rfl, ?_, ?_, ?_, ?_, ?_⟩
  · exact hrep
  · intro k hk hki
    have hk' := Finset.mem_erase.2 ⟨fun heq => hki (Finset.mem_singleton.2 heq), hk⟩
    exact ⟨hk', rfl, hkeep k hk'⟩
  · rintro _ _ _ ⟨⟩
  · rintro _ _ _ _ _ _ ⟨⟩
  · rintro _ _ _ _ _ _ ⟨⟩

theorem realloc_succeeds (hA : A.Contract Rep) (hinv : h.Inv Rep) {i j : ℕ} {ptr : Ptr}
    {layout : Layout cfg} (newLayout : Layout cfg) (hheld : Held h.ledger i ptr layout)
    (hj : j ∉ h.ledger.live) (h0 : newLayout.size ≠ 0) (halign : newLayout.align = layout.align) :
    Succeeds A Rep h (.realloc i j ptr layout newLayout.size) := by
  obtain ⟨p, m', hrun, hout⟩ := hA.zeroizing.defaultRealloc_run (m := h.machine) hinv.sound hinv
    hheld hj h0 halign
  have hexec : (A.zeroizing.realloc ptr layout newLayout.size).run h.machine = .ok (p, m') := hrun
  refine ⟨some p, _, by rw [exec, hexec]; rfl, ?_⟩
  by_cases hp : p.addr = 0
  · rw [if_pos hp] at hout
    obtain ⟨hrep, hkeep⟩ := hout
    refine ⟨?_, ?_, ?_, ?_, ?_⟩
    · show Audited Rep (if p.addr = 0 then h.ledger else _) m'.self m'.mem
      rwa [if_pos hp]
    · intro k hk _
      dsimp only
      rw [if_pos hp]
      exact ⟨hk, rfl, hkeep k hk⟩
    · rintro _ _ _ ⟨⟩
    · rintro _ _ _ _ _ _ ⟨⟩ _
      exact ⟨if_pos hp, hkeep⟩
    · rintro _ _ _ _ _ _ ⟨⟩ hne
      exact absurd hp hne
  · rw [if_neg hp] at hout
    obtain ⟨hrep, hkeep, hcopy⟩ := hout
    have hblock : (⟨p.addr, newLayout.size, newLayout.size, layout.align⟩ : Block) =
        blockAt p.addr newLayout := by rw [← halign]; rfl
    refine ⟨?_, ?_, ?_, ?_, ?_⟩
    · show Audited Rep (if p.addr = 0 then h.ledger else _) m'.self m'.mem
      rwa [if_neg hp, hblock]
    · intro k hk hki
      have hki' : k ≠ i := by
        rintro rfl
        apply hki
        rw [touched, if_neg hp]
        exact Finset.mem_singleton_self k
      dsimp only
      rw [if_neg hp]
      obtain ⟨hk', hkept⟩ := kept_insert (b := ⟨p.addr, newLayout.size, newLayout.size, layout.align⟩)
        hj hk
      exact ⟨Finset.mem_erase.2 ⟨hki', hk'⟩, hkept, hkeep k (Finset.mem_erase.2 ⟨hki', hk⟩)⟩
    · rintro _ _ _ ⟨⟩
    · rintro _ _ _ _ _ _ ⟨⟩ heq
      exact absurd heq hp
    · rintro _ _ _ _ _ _ ⟨⟩ _
      exact ⟨if_neg hp, hcopy⟩

theorem write_succeeds (hA : A.Contract Rep) (hinv : h.Inv Rep) {i off : ℕ} {v : UInt8}
    (hi : i ∈ h.ledger.live) (hoff : off < (h.ledger.block i).len) :
    Succeeds A Rep h (.write i off v) := by
  have hwrites : ∀ a, a ∉ (h.ledger.block i).span →
      h.mem.store ((h.ledger.block i).addr + off) v a = h.mem a := by
    intro a ha
    apply Memory.store_of_ne
    rintro rfl
    exact ha (Block.add_mem_span hoff)
  refine ⟨none, _, rfl, hA.zeroizing.client hinv (Ledger.free_of_writes hi hwrites), ?_, ?_, ?_, ?_⟩
  · intro k hk hki
    have hne : k ≠ i := fun heq => hki (Finset.mem_singleton.2 heq)
    exact ⟨hk, rfl, fun a ha => hwrites a (hinv.sound.notMem_span hk hi hne ha)⟩
  · rintro _ _ _ ⟨⟩
  · rintro _ _ _ _ _ _ ⟨⟩
  · rintro _ _ _ _ _ _ ⟨⟩

/-- Every legal operation succeeds. -/
theorem exec_spec (hA : A.Contract Rep) (hinv : h.Inv Rep) {op : Op cfg} (hl : h.Legal op) :
    Succeeds A Rep h op := by
  cases op with
  | alloc zeroed i layout => exact alloc_succeeds hA hinv hl.1 hl.2
  | dealloc i ptr layout => exact dealloc_succeeds hA hinv hl
  | realloc i j ptr layout newSize =>
    obtain ⟨hheld, hj, h0, hsize⟩ := hl
    exact realloc_succeeds hA hinv ⟨newSize, layout.align, layout.isPowerOfTwo_align, hsize⟩ hheld
      hj h0 rfl
  | write i off v => exact write_succeeds hA hinv hl.1 hl.2

theorem Step.spec (hA : A.Contract Rep) (hinv : h.Inv Rep) {e : Op cfg × Option Ptr}
    {h' : GlobalHeap (β × List (BackendCall cfg))} (hstep : Step A.zeroizing h e h') :
    h'.Inv Rep ∧ Effect h e h' := by
  obtain ⟨ans, h'', hexec, hinv', heff⟩ := exec_spec hA hinv hstep.1
  rw [hstep.2] at hexec
  cases hexec
  exact ⟨hinv', heff⟩

/-! ## Whole runs -/

variable {b : β} {mem : Memory UInt8} {es : List (Op cfg × Option Ptr)}

theorem run_inv (hA : A.Contract Rep) (hinit : Rep (init b mem).ledger b mem)
    (hrun : Run (Step A.zeroizing) (init (b, []) mem) es h) : h.Inv Rep := by
  refine hrun.invariant (fun _ _ _ hinv hstep => (hstep.spec hA hinv).1) ⟨hinit, .of_empty rfl,
    fun i hi => absurd hi (Finset.notMem_empty i), fun c hc => absurd hc List.not_mem_nil,
    _, rfl, ?_⟩
  intro addr layout
  constructor
  · rintro ⟨⟩
  · rintro ⟨i, hi, -⟩
    exact absurd hi (Finset.notMem_empty i)

/-- **Global allocator.**  In every run, blocks are given back to the backend wiped; they
are given back at most once, with the layout they were allocated with, and never resized;
the ones not given back are the live ones.  Every legal operation returns, and every step
has the effect it should have on the blocks of the clients. -/
theorem global_alloc (hA : A.Contract Rep) (hinit : Rep (init b mem).ledger b mem)
    (hrun : Run (Step A.zeroizing) (init (b, []) mem) es h) :
    (∀ call ∈ h.cells.2, call.Wiped) ∧
    (∃ o, BackendCall.accountAll h.cells.2 = some o ∧ o.Matches h.ledger) ∧
    (∀ op, h.Legal op → ∃ ans h', Step A.zeroizing h (op, ans) h') ∧
    ∀ e h', Step A.zeroizing h e h' → Effect h e h' := by
  have hinv := run_inv hA hinit hrun
  refine ⟨hinv.wiped, hinv.accounted, fun op hl => ?_, fun e h' hstep => (hstep.spec hA hinv).2⟩
  obtain ⟨ans, h', hexec, -⟩ := exec_spec hA hinv hl
  exact ⟨ans, h', hl, hexec⟩

end

/-! ## A block of nine bytes -/

/-- The allocator of one page as the backend. -/
def sampleBackend : GlobalAlloc Heap.sampleCfg (SecStackSinglePageAlloc Heap.sampleCfg) :=
  SecStackSinglePageAlloc.allocator.toGlobalAlloc

abbrev SampleHeap :=
  GlobalHeap (SecStackSinglePageAlloc Heap.sampleCfg × List (BackendCall Heap.sampleCfg))

def sampleStart : SampleHeap := init (Heap.sampleStart.alloc, []) fun _ => 0

def samplePtr : Ptr := (Exact.freshSlice Heap.sampleStart.alloc Heap.nineBytes).asPtr

/-- A block of nine bytes, one of which is set. -/
def sampleHeld : SampleHeap :=
  ⟨((Heap.sampleStart.place 0 Heap.nineBytes).alloc, [.alloc false Heap.nineBytes samplePtr]),
    Memory.store (fun _ => 0) (65536 + 3) 7,
    sampleStart.ledger.insert 0 (blockAt 65536 Heap.nineBytes)⟩

/-- The block was given back. -/
def sampleEnd : SampleHeap :=
  ⟨(Heap.sampleStart.alloc, [.alloc false Heap.nineBytes samplePtr,
      .dealloc samplePtr Heap.nineBytes (sampleHeld.mem.fill 65536 9 0)]),
    (sampleHeld.mem.fill 65536 9 0).fill 65536 16 0, sampleHeld.ledger.erase 0⟩

theorem sampleHeld_held : Held sampleHeld.ledger 0 samplePtr Heap.nineBytes :=
  ⟨Finset.mem_insert_self 0 ∅, rfl⟩

theorem sampleRun : Run (Step sampleBackend.zeroizing) sampleStart
    [(.alloc false 0 Heap.nineBytes, some samplePtr), (.write 0 3 7, none)] sampleHeld :=
  .snoc (.snoc (.nil _) ⟨⟨Finset.notMem_empty 0, by decide⟩, rfl⟩)
    ⟨⟨Finset.mem_insert_self 0 ∅, by decide⟩, rfl⟩

theorem sampleRun_dealloc : Run (Step sampleBackend.zeroizing) sampleStart
    [(.alloc false 0 Heap.nineBytes, some samplePtr), (.write 0 3 7, none),
      (.dealloc 0 samplePtr Heap.nineBytes, none)] sampleEnd :=
  sampleRun.snoc ⟨sampleHeld_held, rfl⟩

/-- The block, moved. -/
def sampleMove : Op Heap.sampleCfg := .realloc 0 1 samplePtr Heap.nineBytes 20

def sampleNewPtr : Ptr := samplePtr.offset 16

/-- The backend is shown zeros when the block is given back, and when the block moves
instead its byte moves with it. -/
theorem global_alloc_sample :
    (∀ k < 9, sampleHeld.mem.fill 65536 9 0 (65536 + k) = 0) ∧
    ∃ h', Step sampleBackend.zeroizing sampleHeld (sampleMove, some sampleNewPtr) h' ∧
      h'.mem (sampleNewPtr.addr + 3) = 7 := by
  have hinit : Allocator.Thinned SecStackSinglePageAlloc.Serves
      (init Heap.sampleStart.alloc fun _ => 0).ledger Heap.sampleStart.alloc fun _ => 0 :=
    ⟨_, .of_empty rfl, SecStackSinglePageAlloc.serves_new Heap.sampleStart_zeroed⟩
  have hbackend : sampleBackend.Contract (Allocator.Thinned SecStackSinglePageAlloc.Serves) :=
    SecStackSinglePageAlloc.contract.toGlobalAlloc
  constructor
  · exact (global_alloc hbackend hinit sampleRun_dealloc).1 _ (List.mem_of_getLast? rfl)
  · obtain ⟨-, -, hreturns, heffect⟩ := global_alloc hbackend hinit sampleRun
    obtain ⟨ans, h', hstep⟩ := hreturns sampleMove ⟨sampleHeld_held, by decide, by decide, by decide⟩
    have hans : (sampleHeld.exec sampleBackend.zeroizing sampleMove).map Prod.fst =
        .ok (some sampleNewPtr) := rfl
    have hexec : sampleHeld.exec sampleBackend.zeroizing sampleMove = .ok (ans, h') := hstep.2
    rw [hexec] at hans
    obtain rfl : ans = some sampleNewPtr := Except.ok.inj hans
    have hmoved := (heffect _ _ hstep).moved _ _ _ _ _ _ rfl (by decide)
    exact ⟨h', hstep, hmoved.2 3 (by decide)⟩

end GlobalHeap

end SecmemAlloc
