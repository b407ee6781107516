import SecmemAlloc.Rust.Alloc

/-!
# The contracts of the allocator traits

What a client may rely on and what it owes, for any implementation.  `Rep L b mem` is the
implementation's own invariant: with cells `b` and memory `mem`, the blocks of the ledger `L`
are live.  An implementation chooses addresses freely and may return longer slices than it
was asked for; of the memory it may change everything but the bytes of live blocks.
-/

namespace SecmemAlloc

variable {cfg : Cfg} {β γ : Type}

/-- The bytes of the live blocks are the same in both memories. -/
def Ledger.Untouched (L : Ledger Block) (mem mem' : Memory UInt8) : Prop :=
  ∀ i ∈ L.live, ∀ a ∈ (L.block i).span, mem' a = mem a

/-- The block `b` may be given out for `layout` while the blocks of `L` are live. -/
structure Grants (L : Ledger Block) (layout : Layout cfg) (b : Block) : Prop where
  addr_ne_zero : b.addr ≠ 0
  align_dvd : layout.align ∣ b.addr
  size_le : layout.size ≤ b.len
  stop_lt : b.addr + b.len < 2 ^ cfg.pointerWidth
  apart : ∀ j ∈ L.live, b.span.Apart (L.block j).span

namespace Allocator

/-- `ptr` points to the live block `i`, and `layout` fits it. -/
structure Held (L : Ledger Block) (i : ℕ) (ptr : NonNull) (layout : Layout cfg) : Prop where
  live : i ∈ L.live
  addr_eq : ptr.asPtr.addr = (L.block i).addr
  fit : (L.block i).Fit layout
  align_eq : layout.align = (L.block i).align

/-- What `allocate` may answer to a request for `layout`, recorded under the name `i`. -/
def Answers (Rep : Ledger Block → β → Memory UInt8 → Prop) (L : Ledger Block) (i : ℕ)
    (layout : Layout cfg) (m' : Machine β) : AllocResult → Prop
  | .error _ => Rep L m'.self m'.mem
  | .ok slice => Grants L layout (.ofSlice slice layout) ∧
      Rep (L.insert i (.ofSlice slice layout)) m'.self m'.mem

/-- The contract of `Allocator`, for the methods without a default. -/
structure Contract (A : Allocator cfg β) (Rep : Ledger Block → β → Memory UInt8 → Prop) :
    Prop where
  /-- Clients may write to their blocks. -/
  client {L : Ledger Block} {b : β} {mem mem' : Memory UInt8} : Rep L b mem →
    (∀ a, L.Free Block.span a → mem' a = mem a) → Rep L b mem'
  allocate {L : Ledger Block} {m : Machine β} {i : ℕ} (layout : Layout cfg) :
    Rep L m.self m.mem → i ∉ L.live → ∃ r m', (A.allocate layout).run m = .ok (r, m') ∧
      L.Untouched m.mem m'.mem ∧ Answers Rep L i layout m' r
  allocateZeroed {L : Ledger Block} {m : Machine β} {i : ℕ} (layout : Layout cfg) :
    Rep L m.self m.mem → i ∉ L.live → ∃ r m', (A.allocateZeroed layout).run m = .ok (r, m') ∧
      L.Untouched m.mem m'.mem ∧ Answers Rep L i layout m' r ∧
      ∀ slice, r = .ok slice → ∀ k < slice.len, m'.mem (slice.asPtr.addr + k) = 0
  deallocate {L : Ledger Block} {m : Machine β} {i : ℕ} {ptr : NonNull} {layout : Layout cfg} :
    Rep L m.self m.mem → Held L i ptr layout →
    ∃ m', (A.deallocate ptr layout).run m = .ok ((), m') ∧
      (L.erase i).Untouched m.mem m'.mem ∧ Rep (L.erase i) m'.self m'.mem

end Allocator

namespace GlobalAlloc

/-- The block at `addr` for a request of `layout`. -/
def blockAt (addr : ℕ) (layout : Layout cfg) : Block :=
  ⟨addr, layout.size, layout.size, layout.align⟩

/-- `ptr` points to the live block `i`, which was allocated with `layout`. -/
structure Held (L : Ledger Block) (i : ℕ) (ptr : Ptr) (layout : Layout cfg) : Prop where
  live : i ∈ L.live
  block_eq : L.block i = blockAt ptr.addr layout

/-- What `alloc` may answer to a request for `layout`, recorded under the name `i`. -/
def Answers (Rep : Ledger Block → β → Memory UInt8 → Prop) (L : Ledger Block) (i : ℕ)
    (layout : Layout cfg) (m' : Machine β) (ptr : Ptr) : Prop :=
  if ptr.addr = 0 then Rep L m'.self m'.mem
  else Grants L layout (blockAt ptr.addr layout) ∧
    Rep (L.insert i (blockAt ptr.addr layout)) m'.self m'.mem

/-- The contract of `GlobalAlloc`, for the methods `ZeroizeAlloc` may call. -/
structure Contract (A : GlobalAlloc cfg β) (Rep : Ledger Block → β → Memory UInt8 → Prop) :
    Prop where
  /-- Clients may write to their blocks. -/
  client {L : Ledger Block} {b : β} {mem mem' : Memory UInt8} : Rep L b mem →
    (∀ a, L.Free Block.span a → mem' a = mem a) → Rep L b mem'
  alloc {L : Ledger Block} {m : Machine β} {i : ℕ} {layout : Layout cfg} :
    Rep L m.self m.mem → i ∉ L.live → layout.size ≠ 0 →
    ∃ p m', (A.alloc layout).run m = .ok (p, m') ∧
      L.Untouched m.mem m'.mem ∧ Answers Rep L i layout m' p
  allocZeroed {L : Ledger Block} {m : Machine β} {i : ℕ} {layout : Layout cfg} :
    Rep L m.self m.mem → i ∉ L.live → layout.size ≠ 0 →
    ∃ p m', (A.allocZeroed layout).run m = .ok (p, m') ∧
      L.Untouched m.mem m'.mem ∧ Answers Rep L i layout m' p ∧
      (p.addr ≠ 0 → ∀ k < layout.size, m'.mem (p.addr + k) = 0)
  dealloc {L : Ledger Block} {m : Machine β} {i : ℕ} {ptr : Ptr} {layout : Layout cfg} :
    Rep L m.self m.mem → Held L i ptr layout →
    ∃ m', (A.dealloc ptr layout).run m = .ok ((), m') ∧
      (L.erase i).Untouched m.mem m'.mem ∧ Rep (L.erase i) m'.self m'.mem

end GlobalAlloc

/-! ## The blocks of any allocator -/

/-- Live blocks do not meet, are not null and do not wrap around the address space. -/
structure Ledger.Sound (L : Ledger Block) (cfg : Cfg) : Prop where
  packed : L.Packed Block.span 0 (2 ^ cfg.pointerWidth)
  addr_ne_zero : ∀ i ∈ L.live, (L.block i).addr ≠ 0
  stop_lt : ∀ i ∈ L.live, (L.block i).addr + (L.block i).len < 2 ^ cfg.pointerWidth

namespace Ledger

variable {L : Ledger Block} {i j : ℕ} {b : Block} {mem mem' : Memory UInt8}

theorem Sound.of_empty (h : L.live = ∅) : L.Sound cfg := by
  have hnone : ∀ i, i ∉ L.live := fun i => h ▸ Finset.notMem_empty i
  exact ⟨Packed.of_empty fun i hi => absurd hi (hnone i), fun i hi => absurd hi (hnone i),
    fun i hi => absurd hi (hnone i)⟩

theorem Sound.erase (h : L.Sound cfg) (i : ℕ) : (L.erase i).Sound cfg :=
  ⟨h.packed.erase i, fun j hj => h.addr_ne_zero j (Finset.mem_of_mem_erase hj),
    fun j hj => h.stop_lt j (Finset.mem_of_mem_erase hj)⟩

theorem Sound.insert {layout : Layout cfg} (h : L.Sound cfg) (hb : Grants L layout b) (i : ℕ) :
    (L.insert i b).Sound cfg where
  packed := (h.packed.erase i).insert (fun _ => ⟨Nat.zero_le _, hb.stop_lt.le⟩)
    fun j hj _ => hb.apart j hj
  addr_ne_zero := forall_mem_insert (p := fun _ c => c.addr ≠ 0) hb.addr_ne_zero
    fun j hj _ => h.addr_ne_zero j hj
  stop_lt := forall_mem_insert (p := fun _ c => c.addr + c.len < 2 ^ cfg.pointerWidth) hb.stop_lt
    fun j hj _ => h.stop_lt j hj

theorem Sound.notMem_span (h : L.Sound cfg) (hi : i ∈ L.live) (hj : j ∈ L.live) (hij : i ≠ j)
    {a : ℕ} (ha : a ∈ (L.block i).span) : a ∉ (L.block j).span :=
  (h.packed.apart i hi j hj hij).notMem ha

theorem Untouched.trans {mem'' : Memory UInt8} (h : L.Untouched mem mem')
    (h' : L.Untouched mem' mem'') : L.Untouched mem mem'' :=
  fun i hi a ha => (h' i hi a ha).trans (h i hi a ha)

/-- Writes to one block leave the others alone. -/
theorem Sound.untouched_erase (h : L.Sound cfg) (hi : i ∈ L.live)
    (hmem : ∀ a, a ∉ (L.block i).span → mem' a = mem a) : (L.erase i).Untouched mem mem' := by
  intro j hj a ha
  obtain ⟨hji, hj'⟩ := Finset.mem_erase.1 hj
  exact hmem a (h.notMem_span hj' hi hji ha)

/-- Writes to one live block are a client's writes. -/
theorem free_of_writes (hi : i ∈ L.live) (hmem : ∀ a, a ∉ (L.block i).span → mem' a = mem a) :
    ∀ a, L.Free Block.span a → mem' a = mem a := fun a ha => hmem a (ha i hi)

/-- A client writes to a block of its own. -/
theorem store_of_free {off : ℕ} (hi : i ∈ L.live) (hoff : off < (L.block i).len)
    (mem : Memory UInt8) (v : UInt8) :
    ∀ a, L.Free Block.span a → mem.store ((L.block i).addr + off) v a = mem a := by
  intro a ha
  refine Memory.store_of_ne ?_
  rintro rfl
  exact ha i hi (Block.add_mem_span hoff)

end Ledger

theorem Grants.erase {L : Ledger Block} {layout : Layout cfg} {b : Block} (h : Grants L layout b)
    (i : ℕ) : Grants (L.erase i) layout b :=
  ⟨h.addr_ne_zero, h.align_dvd, h.size_le, h.stop_lt, fun j hj =>
    h.apart j (Finset.mem_of_mem_erase hj)⟩

namespace Allocator.Held

variable {L : Ledger Block} {i j a : ℕ} {b : Block} {ptr : NonNull} {layout : Layout cfg}

theorem insert (h : Held L i ptr layout) (hj : j ∉ L.live) :
    Held (L.insert j b) i ptr layout := by
  have hblock : (L.insert j b).block i = L.block i :=
    Ledger.block_insert_of_ne (ne_of_mem_of_not_mem h.live hj)
  exact ⟨Finset.mem_insert_of_mem h.live, hblock ▸ h.addr_eq, hblock ▸ h.fit, hblock ▸ h.align_eq⟩

/-- Wiping as many bytes as the layout of a block has writes to this block only. -/
theorem fill_of_notMem (h : Held L i ptr layout) (m : Machine β) (ha : a ∉ (L.block i).span) :
    (m.fill ptr.asPtr layout.size 0).mem a = m.mem a := by
  have hfit := h.fit.2
  have haddr := h.addr_eq
  rw [Block.mem_span] at ha
  exact Memory.fill_of_notMem (by omega)

theorem end_lt (h : Held L i ptr layout) (hs : L.Sound cfg) :
    ptr.asPtr.addr + layout.size < 2 ^ cfg.pointerWidth := by
  have hstop := hs.stop_lt i h.live
  have hfit := h.fit.2
  rw [h.addr_eq]
  omega

end Allocator.Held

/-! ## Moving a block

The traits have defaults that allocate a new block, copy, and release the old block. -/

/-- A copy into a block writes to this block only. -/
theorem Machine.copy_mem_of_notMem (m : Machine β) {b : Block} {src dst : Ptr} {n a : ℕ}
    (hdst : dst.addr = b.addr) (hn : n ≤ b.len) (ha : a ∉ b.span) :
    (m.copy src dst n).mem a = m.mem a := by
  rw [Block.mem_span] at ha
  exact Memory.copy_of_notMem (by omega)

/-- From `m` to `m'` a new block `b`, recorded under the name `j`, was allocated and `n` bytes of
the block `i` were copied to it. -/
structure Copied (cfg : Cfg) (Rep : Ledger Block → β → Memory UInt8 → Prop) (L : Ledger Block)
    (i j : ℕ) (b : Block) (n : ℕ) (m m' : Machine β) : Prop where
  sound : (L.insert j b).Sound cfg
  rep : Rep (L.insert j b) m'.self m'.mem
  untouched : L.Untouched m.mem m'.mem
  kept : ∀ k < n, m'.mem (b.addr + k) = m.mem ((L.block i).addr + k)

namespace Copied

variable {Rep : Ledger Block → β → Memory UInt8 → Prop} {L : Ledger Block} {i j n : ℕ} {b : Block}
  {m m₁ m' : Machine β}

/-- A block that was granted, and the copy to it. -/
theorem of_grants {newLayout : Layout cfg} {src dst : Ptr} (hs : L.Sound cfg) (hi : i ∈ L.live)
    (hj : j ∉ L.live) (hgrants : Grants L newLayout b) (hkeep : L.Untouched m.mem m₁.mem)
    (hrep : ∀ mem, (∀ a, (L.insert j b).Free Block.span a → mem a = m₁.mem a) →
      Rep (L.insert j b) m₁.self mem)
    (hsrc : src.addr = (L.block i).addr) (hdst : dst.addr = b.addr) (hn : n ≤ (L.block i).len)
    (hn' : n ≤ b.len) : Copied cfg Rep L i j b n m (m₁.copy src dst n) := by
  have hs₁ : (L.insert j b).Sound cfg := hs.insert hgrants j
  have hj₁ : j ∈ (L.insert j b).live := Finset.mem_insert_self j _
  have hnew : (L.insert j b).block j = b := Ledger.block_insert_self ..
  -- the copy writes to the new block only
  have hcopy : ∀ a, a ∉ ((L.insert j b).block j).span →
      (m₁.copy src dst n).mem a = m₁.mem a := by
    intro a ha
    exact m₁.copy_mem_of_notMem hdst hn' (hnew ▸ ha)
  refine ⟨hs₁, hrep _ (Ledger.free_of_writes hj₁ hcopy), ?_, ?_⟩
  · intro k hk a ha
    have hkj : k ≠ j := ne_of_mem_of_not_mem hk hj
    have hblock : (L.insert j b).block k = L.block k := Ledger.block_insert_of_ne hkj
    have hk₁ : k ∈ (L.insert j b).live := Finset.mem_insert_of_mem hk
    rw [hcopy a (hs₁.notMem_span hk₁ hj₁ hkj (hblock ▸ ha)), hkeep k hk a ha]
  · intro k hk
    have hmem : (L.block i).addr + k ∈ (L.block i).span := Block.add_mem_span (by omega)
    rw [← hkeep i hi _ hmem, ← hsrc, ← hdst]
    show m₁.mem.copy src.addr dst.addr n (dst.addr + k) = _
    rw [Memory.copy_of_mem (by omega), Nat.add_sub_cancel_left]

/-- Releasing the old block leaves the new one alone, and the others. -/
theorem release (h : Copied cfg Rep L i j b n m m') (hi : i ∈ L.live) (hj : j ∉ L.live)
    {mem : Memory UInt8} (hkeep : ((L.insert j b).erase i).Untouched m'.mem mem) :
    (L.erase i).Untouched m.mem mem ∧ ∀ k < b.len, mem (b.addr + k) = m'.mem (b.addr + k) := by
  have hij : i ≠ j := ne_of_mem_of_not_mem hi hj
  have hnew : (L.insert j b).block j = b := Ledger.block_insert_self ..
  constructor
  · intro k hk a ha
    obtain ⟨hki, hk'⟩ := Finset.mem_erase.1 hk
    have hblock : (L.insert j b).block k = L.block k :=
      Ledger.block_insert_of_ne (ne_of_mem_of_not_mem hk' hj)
    rw [hkeep k (Finset.mem_erase.2 ⟨hki, Finset.mem_insert_of_mem hk'⟩) a (hblock ▸ ha),
      h.untouched k hk' a ha]
  · intro k hk
    have hmem : b.addr + k ∈ ((L.insert j b).block j).span := by
      rw [hnew]
      exact Block.add_mem_span hk
    exact hkeep j (Finset.mem_erase.2 ⟨hij.symm, Finset.mem_insert_self j _⟩) _ hmem

end Copied

/-! ## The default resizing methods -/

namespace Allocator

variable {allocate : Layout cfg → Code β AllocResult}
  {deallocate : NonNull → Layout cfg → Code β Unit} {m m₁ m₂ : Machine β} {ptr : NonNull}
  {oldLayout newLayout : Layout cfg} {slice : NonNullSlice}

theorem defaultResize_run_error {e : AllocError}
    (halloc : (allocate newLayout).run m = .ok (.error e, m₁)) :
    (defaultResize allocate deallocate ptr oldLayout newLayout).run m = .ok (.error e, m₁) := by
  rw [defaultResize, Exec.run_bind_ok halloc]
  rfl

theorem defaultResize_run_ok (halloc : (allocate newLayout).run m = .ok (.ok slice, m₁))
    (hdealloc : (deallocate ptr oldLayout).run
      (m₁.copy ptr.asPtr slice.asPtr (min oldLayout.size newLayout.size)) = .ok ((), m₂)) :
    (defaultResize allocate deallocate ptr oldLayout newLayout).run m = .ok (.ok slice, m₂) := by
  have hcopy : (copyNonoverlapping ptr.asPtr slice.asPtr (min oldLayout.size newLayout.size) :
      Code β Unit).run m₁ =
        .ok ((), m₁.copy ptr.asPtr slice.asPtr (min oldLayout.size newLayout.size)) := rfl
  rw [defaultResize, Exec.run_bind_ok halloc]
  dsimp only
  rw [Exec.run_bind_ok hcopy, Exec.run_bind_ok hdealloc]
  rfl

/-- The new block of a resizing default, before the old one is released. -/
theorem copied_of_grants {Rep : Ledger Block → β → Memory UInt8 → Prop} {L : Ledger Block}
    {i j : ℕ} (hs : L.Sound cfg) (hheld : Held L i ptr oldLayout) (hj : j ∉ L.live)
    (hgrants : Grants L newLayout (.ofSlice slice newLayout)) (hkeep : L.Untouched m.mem m₁.mem)
    (hrep : ∀ mem, (∀ a, (L.insert j (.ofSlice slice newLayout)).Free Block.span a →
      mem a = m₁.mem a) → Rep (L.insert j (.ofSlice slice newLayout)) m₁.self mem) :
    Copied cfg Rep L i j (.ofSlice slice newLayout) (min oldLayout.size newLayout.size) m
      (m₁.copy ptr.asPtr slice.asPtr (min oldLayout.size newLayout.size)) :=
  .of_grants hs hheld.live hj hgrants hkeep hrep hheld.addr_eq rfl
    ((min_le_left _ _).trans hheld.fit.2) ((min_le_right _ _).trans hgrants.size_le)

end Allocator

/-! ## The default `realloc` -/

namespace GlobalAlloc

variable {G : GlobalAlloc cfg β} {Rep : Ledger Block → β → Memory UInt8 → Prop} {L : Ledger Block}
  {m : Machine β} {i j : ℕ} {ptr : Ptr} {layout newLayout : Layout cfg}

namespace Held

variable {b : Block}

theorem insert (h : Held L i ptr layout) (hj : j ∉ L.live) :
    Held (L.insert j b) i ptr layout where
  live := Finset.mem_insert_of_mem h.live
  block_eq := (Ledger.block_insert_of_ne (ne_of_mem_of_not_mem h.live hj)).trans h.block_eq

theorem addr_eq (h : Held L i ptr layout) : ptr.addr = (L.block i).addr := by
  rw [h.block_eq]
  rfl

theorem size_eq (h : Held L i ptr layout) : layout.size = (L.block i).len := by
  rw [h.block_eq]
  rfl

end Held

section

variable {alloc : Layout cfg → Code β Ptr} {dealloc : Ptr → Layout cfg → Code β Unit}
  {m₁ m₂ : Machine β} {p : Ptr}

theorem defaultRealloc_run_null (halign : newLayout.align = layout.align)
    (halloc : (alloc newLayout).run m = .ok (p, m₁)) (hp : p.addr = 0) :
    (defaultRealloc alloc dealloc ptr layout newLayout.size).run m = .ok (p, m₁) := by
  have hlayout := Layout.fromSizeAlignUnchecked_run (s := m) newLayout
  rw [halign] at hlayout
  rw [defaultRealloc, Exec.run_bind_ok hlayout, Exec.run_bind_ok halloc,
    if_pos (show p.isNull = true from beq_iff_eq.2 hp)]
  rfl

theorem defaultRealloc_run_ok (halign : newLayout.align = layout.align)
    (halloc : (alloc newLayout).run m = .ok (p, m₁)) (hp : p.addr ≠ 0)
    (hdealloc : (dealloc ptr layout).run
      (m₁.copy ptr p (min layout.size newLayout.size)) = .ok ((), m₂)) :
    (defaultRealloc alloc dealloc ptr layout newLayout.size).run m = .ok (p, m₂) := by
  have hlayout := Layout.fromSizeAlignUnchecked_run (s := m) newLayout
  rw [halign] at hlayout
  have hnull : ¬ p.isNull = true := fun h => hp (beq_iff_eq.1 h)
  have hcopy : (copyNonoverlapping ptr p (min layout.size newLayout.size) : Code β Unit).run m₁ =
      .ok ((), m₁.copy ptr p (min layout.size newLayout.size)) := rfl
  rw [defaultRealloc, Exec.run_bind_ok hlayout, Exec.run_bind_ok halloc, if_neg hnull,
    Exec.run_bind_ok hcopy, Exec.run_bind_ok hdealloc]
  rfl

end

/-- The new block of a `realloc`, before the old one is released. -/
theorem copied_of_grants {m₁ : Machine β} {p : Ptr} (hs : L.Sound cfg)
    (hheld : Held L i ptr layout) (hj : j ∉ L.live)
    (hgrants : Grants L newLayout (blockAt p.addr newLayout)) (hkeep : L.Untouched m.mem m₁.mem)
    (hrep : ∀ mem, (∀ a, (L.insert j (blockAt p.addr newLayout)).Free Block.span a →
      mem a = m₁.mem a) → Rep (L.insert j (blockAt p.addr newLayout)) m₁.self mem) :
    Copied cfg Rep L i j (blockAt p.addr newLayout) (min layout.size newLayout.size) m
      (m₁.copy ptr p (min layout.size newLayout.size)) :=
  .of_grants hs hheld.live hj hgrants hkeep hrep hheld.addr_eq rfl
    ((min_le_left _ _).trans_eq hheld.size_eq) (min_le_right _ _)

/-- The default `realloc` of any allocator: with a null answer nothing happened to the live
blocks, else the old block moved to the new one. -/
theorem Contract.defaultRealloc_run (hG : G.Contract Rep) (hs : L.Sound cfg)
    (hrep : Rep L m.self m.mem) (hheld : Held L i ptr layout) (hj : j ∉ L.live)
    (h0 : newLayout.size ≠ 0) (halign : newLayout.align = layout.align) :
    ∃ (p : Ptr) (m' : Machine β),
      (defaultRealloc G.alloc G.dealloc ptr layout newLayout.size).run m = .ok (p, m') ∧
      if p.addr = 0 then Rep L m'.self m'.mem ∧ L.Untouched m.mem m'.mem
      else Rep ((L.insert j (blockAt p.addr newLayout)).erase i) m'.self m'.mem ∧
        (L.erase i).Untouched m.mem m'.mem ∧
        ∀ k < min layout.size newLayout.size, m'.mem (p.addr + k) = m.mem (ptr.addr + k) := by
  obtain ⟨p, m₁, halloc, hkeep, hans⟩ := hG.alloc hrep hj h0
  simp only [Answers] at hans
  by_cases hp : p.addr = 0
  · rw [if_pos hp] at hans
    refine ⟨p, m₁, defaultRealloc_run_null halign halloc hp, ?_⟩
    rw [if_pos hp]
    exact ⟨hans, hkeep⟩
  rw [if_neg hp] at hans
  obtain ⟨hgrants, hrep₁⟩ := hans
  have hcopied := copied_of_grants hs hheld hj hgrants hkeep fun _ => hG.client hrep₁
  obtain ⟨m₂, hdealloc, hkeep₂, hrep₂⟩ := hG.dealloc hcopied.rep (hheld.insert hj)
  obtain ⟨hother, hnew⟩ := hcopied.release hheld.live hj hkeep₂
  refine ⟨p, m₂, defaultRealloc_run_ok halign halloc hp hdealloc, ?_⟩
  rw [if_neg hp]
  refine ⟨hrep₂, hother, fun k hk => ?_⟩
  rw [hheld.addr_eq, ← hcopied.kept k hk]
  exact hnew k (hk.trans_le (min_le_right _ _))

end GlobalAlloc

/-! ## An `Allocator` as a `GlobalAlloc` -/

/-- The pointer of an answer; an error becomes null. -/
def AllocResult.asPtr : AllocResult → Ptr
  | .ok slice => slice.asPtr
  | .error _ => .withoutProvenance 0

namespace Allocator

/-- An `Allocator` used as a `GlobalAlloc`: the lengths of its slices are forgotten. -/
def toGlobalAlloc (A : Allocator cfg β) : GlobalAlloc cfg β where
  alloc layout := AllocResult.asPtr <$> A.allocate layout
  allocZeroed layout := AllocResult.asPtr <$> A.allocateZeroed layout
  dealloc ptr layout :=
    if h : ptr.addr ≠ 0 then A.deallocate ⟨ptr, h⟩ layout else throw .undefined
  realloc := GlobalAlloc.defaultRealloc (fun layout => AllocResult.asPtr <$> A.allocate layout)
    fun ptr layout => if h : ptr.addr ≠ 0 then A.deallocate ⟨ptr, h⟩ layout else throw .undefined

/-- The block, cut down to the size asked for. -/
def cut (b : Block) : Block := { b with len := b.size }

/-- `L` is `L'` with every block cut down. -/
structure Thins (L L' : Ledger Block) : Prop where
  live_eq : L.live = L'.live
  block_eq : ∀ i ∈ L'.live, L.block i = cut (L'.block i)
  size_le : ∀ i ∈ L'.live, (L'.block i).size ≤ (L'.block i).len
  addr_ne_zero : ∀ i ∈ L'.live, (L'.block i).addr ≠ 0

variable {A : Allocator cfg β} {Rep : Ledger Block → β → Memory UInt8 → Prop}
  {L L' : Ledger Block} {m m' : Machine β} {i : ℕ} {layout : Layout cfg}

theorem Thins.of_empty (h : L.live = ∅) : Thins L L := by
  have hnone : ∀ i, i ∉ L.live := fun i => h ▸ Finset.notMem_empty i
  exact ⟨rfl, fun i hi => absurd hi (hnone i), fun i hi => absurd hi (hnone i),
    fun i hi => absurd hi (hnone i)⟩

theorem Thins.mem_span (h : Thins L L') (hi : i ∈ L'.live) {a : ℕ} (ha : a ∈ (L.block i).span) :
    a ∈ (L'.block i).span := by
  rw [h.block_eq i hi, Block.mem_span] at ha
  exact ⟨ha.1, ha.2.trans_le (Nat.add_le_add_left (h.size_le i hi) _)⟩

theorem Thins.free (h : Thins L L') {a : ℕ} (ha : L'.Free Block.span a) : L.Free Block.span a :=
  fun i hi hmem => ha i (h.live_eq ▸ hi) (h.mem_span (h.live_eq ▸ hi) hmem)

theorem Thins.untouched (h : Thins L L') {mem mem' : Memory UInt8} (hkeep : L'.Untouched mem mem') :
    L.Untouched mem mem' :=
  fun i hi a ha => hkeep i (h.live_eq ▸ hi) a (h.mem_span (h.live_eq ▸ hi) ha)

theorem Thins.erase (h : Thins L L') (i : ℕ) : Thins (L.erase i) (L'.erase i) where
  live_eq := congrArg (Finset.erase · i) h.live_eq
  block_eq := fun j hj => h.block_eq j (Finset.mem_of_mem_erase hj)
  size_le := fun j hj => h.size_le j (Finset.mem_of_mem_erase hj)
  addr_ne_zero := fun j hj => h.addr_ne_zero j (Finset.mem_of_mem_erase hj)

theorem Thins.insert (h : Thins L L') {slice : NonNullSlice} (hsize : layout.size ≤ slice.len)
    (i : ℕ) :
    Thins (L.insert i (GlobalAlloc.blockAt slice.asPtr.addr layout))
      (L'.insert i (.ofSlice slice layout)) where
  live_eq := congrArg (Insert.insert i) h.live_eq
  block_eq := by
    refine Ledger.forall_mem_insert (p := fun j c =>
      (L.insert i (GlobalAlloc.blockAt slice.asPtr.addr layout)).block j = cut c)
      (Ledger.block_insert_self L i _) fun j hj hji => ?_
    rw [Ledger.block_insert_of_ne hji]
    exact h.block_eq j hj
  size_le := Ledger.forall_mem_insert (p := fun _ c => c.size ≤ c.len) hsize
    fun j hj _ => h.size_le j hj
  addr_ne_zero := Ledger.forall_mem_insert (p := fun _ c => c.addr ≠ 0) slice.addr_ne_zero
    fun j hj _ => h.addr_ne_zero j hj

theorem Thins.grants (h : Thins L L') {slice : NonNullSlice}
    (hgrants : Grants L' layout (.ofSlice slice layout)) :
    Grants L layout (GlobalAlloc.blockAt slice.asPtr.addr layout) where
  addr_ne_zero := hgrants.addr_ne_zero
  align_dvd := hgrants.align_dvd
  size_le := le_rfl
  stop_lt := (Nat.add_le_add_left hgrants.size_le _).trans_lt hgrants.stop_lt
  apart := by
    intro j hj
    have hj' : j ∈ L'.live := h.live_eq ▸ hj
    have hcut : (Block.span (GlobalAlloc.blockAt slice.asPtr.addr layout)).Apart
        (L'.block j).span :=
      (hgrants.apart j hj').of_le le_rfl (Nat.add_le_add_left hgrants.size_le _)
    rw [h.block_eq j hj']
    apply Span.Apart.symm
    exact hcut.symm.of_le le_rfl (Nat.add_le_add_left (h.size_le j hj') _)

/-- The invariant of the `Allocator`, for the cut down blocks. -/
def Thinned (Rep : Ledger Block → β → Memory UInt8 → Prop) (L : Ledger Block) (b : β)
    (mem : Memory UInt8) : Prop := ∃ L', Thins L L' ∧ Rep L' b mem

theorem Thins.answers (h : Thins L L') {r : AllocResult} (hans : Answers Rep L' i layout m' r) :
    GlobalAlloc.Answers (Thinned Rep) L i layout m' r.asPtr := by
  cases r with
  | error e => exact (if_pos rfl).mpr ⟨L', h, hans⟩
  | ok slice =>
    exact (if_neg slice.addr_ne_zero).mpr
      ⟨h.grants hans.1, _, h.insert hans.1.size_le i, hans.2⟩

theorem asPtr_run {x : Code β AllocResult} {r : AllocResult} (h : x.run m = .ok (r, m')) :
    (AllocResult.asPtr <$> x).run m = .ok (r.asPtr, m') := by
  rw [map_eq_pure_bind, Exec.run_bind_ok h, Exec.run_pure]

/-- An `Allocator` that meets its contract is a `GlobalAlloc` that meets its contract. -/
theorem Contract.toGlobalAlloc (hA : A.Contract Rep) : A.toGlobalAlloc.Contract (Thinned Rep) where
  client := by
    rintro L b mem mem' ⟨L', h, hrep⟩ hmem
    exact ⟨L', h, hA.client hrep fun a ha => hmem a (h.free ha)⟩
  alloc := by
    rintro L m i layout ⟨L', h, hrep⟩ hi -
    obtain ⟨r, m', hrun, hkeep, hans⟩ := hA.allocate layout hrep (h.live_eq ▸ hi)
    exact ⟨r.asPtr, m', asPtr_run hrun, h.untouched hkeep, h.answers hans⟩
  allocZeroed := by
    rintro L m i layout ⟨L', h, hrep⟩ hi -
    obtain ⟨r, m', hrun, hkeep, hans, hzero⟩ := hA.allocateZeroed layout hrep (h.live_eq ▸ hi)
    refine ⟨r.asPtr, m', asPtr_run hrun, h.untouched hkeep, h.answers hans, ?_⟩
    cases r with
    | error e => exact fun hne => absurd rfl hne
    | ok slice => exact fun _ k hk => hzero slice rfl k (hk.trans_le hans.1.size_le)
  dealloc := by
    rintro L m i ptr layout ⟨L', h, hrep⟩ hheld
    have hi : i ∈ L'.live := h.live_eq ▸ hheld.live
    have hblock := (h.block_eq i hi).symm.trans hheld.block_eq
    obtain ⟨haddr, -, hsize, halign⟩ := Block.mk.inj hblock
    have hptr : ptr.addr ≠ 0 := haddr ▸ h.addr_ne_zero i hi
    have hfit : (L'.block i).Fit layout := ⟨hsize.le, hsize ▸ h.size_le i hi⟩
    have hheld' : Held L' i ⟨ptr, hptr⟩ layout := ⟨hi, haddr.symm, hfit, halign.symm⟩
    obtain ⟨m', hrun, hkeep, hrep'⟩ := hA.deallocate hrep hheld'
    refine ⟨m', ?_, (h.erase i).untouched hkeep, _, h.erase i, hrep'⟩
    dsimp only [Allocator.toGlobalAlloc]
    rw [dif_pos hptr]
    exact hrun

end Allocator

/-! ## Watching an allocator -/

/-- Run a program on the first of two cells. -/
def Code.lift {α : Type} (x : Code β α) : Code (β × γ) α := fun m =>
  (x.run ⟨m.self.1, m.mem, m.log⟩).map fun r => (r.1, ⟨(r.2.self, m.self.2), r.2.mem, r.2.log⟩)

theorem Code.lift_run {α : Type} {x : Code β α} {m : Machine (β × γ)} {r : α} {m' : Machine β}
    (h : x.run ⟨m.self.1, m.mem, m.log⟩ = .ok (r, m')) :
    (Code.lift x).run m = .ok (r, ⟨(m'.self, m.self.2), m'.mem, m'.log⟩) := by
  show (x.run ⟨m.self.1, m.mem, m.log⟩).map _ = _
  rw [h]
  rfl

/-- Append to the second of two cells. -/
def record (x : γ) : Code (β × List γ) Unit :=
  modify fun m => { m with self := (m.self.1, m.self.2 ++ [x]) }

theorem record_run (x : γ) (m : Machine (β × List γ)) :
    (record x).run m = .ok ((), { m with self := (m.self.1, m.self.2 ++ [x]) }) := rfl

end SecmemAlloc
