import SecmemAlloc.Clients.Refinement
import SecmemAlloc.SecAlloc.Secrecy

/-!
# Nothing is left of a secret behind the wrapper

An allocator does not look at the bytes of live blocks, but it may keep the bytes of a block it
got back, and even go by them.  With `ZeroizeAlloc` around it neither happens to the bytes that
clients asked for: with other secrets in their place clients get the same answers, and once the
blocks are given back there is the same memory and there are the same cells.
-/

namespace SecmemAlloc

variable {cfg : Cfg} {β : Type}

open Allocator (Held FullContract cut)

/-! ## Machines that differ in some bytes -/

/-- The `n` addresses from that of the pointer on. -/
def Ptr.extent (p : Ptr) (n : ℕ) : Set ℕ := {a | p.addr ≤ a ∧ a < p.addr + n}

/-- The same cells, and the same bytes but for those of `D`. -/
structure Machine.Twins (D : Set ℕ) (m g : Machine β) : Prop where
  self_eq : g.self = m.self
  mem_eq : ∀ a ∉ D, g.mem a = m.mem a

namespace Machine.Twins

variable {D D' : Set ℕ} {m g : Machine β}

theorem mono (h : m.Twins D g) (hD : D ⊆ D') : m.Twins D' g :=
  ⟨h.self_eq, fun a ha => h.mem_eq a fun hmem => ha (hD hmem)⟩

/-- Filled bytes are the same. -/
theorem fill (h : m.Twins D g) (p : Ptr) (n : ℕ) (v : UInt8) :
    (m.fill p n v).Twins (D \ p.extent n) (g.fill p n v) :=
  ⟨h.self_eq, fun a ha => Memory.fill_congr fun hout => h.mem_eq a fun hD => ha ⟨hD, hout⟩⟩

/-- Bytes that differ may be copied along. -/
theorem copy {src dst : Ptr} {n : ℕ} (h : m.Twins D g) (hD : D ⊆ D')
    (hcopy : ∀ k < n, src.addr + k ∈ D → dst.addr + k ∈ D') :
    (m.copy src dst n).Twins D' (g.copy src dst n) where
  self_eq := h.self_eq
  mem_eq := by
    intro a ha
    refine Memory.copy_congr (fun hdst => h.mem_eq _ fun hsrc => ha ?_) fun _ =>
      h.mem_eq a fun hmem => ha (hD hmem)
    have hmem := hcopy (a - dst.addr) (by omega) hsrc
    rwa [Nat.add_sub_cancel' hdst.1] at hmem

end Machine.Twins

/-! ## Allocators that do not look -/

namespace Allocator

/-- The bytes of a request for `layout` that was served at `ptr`. -/
def extent (ptr : NonNull) (layout : Layout cfg) : Set ℕ := ptr.asPtr.extent layout.size

/-- What the allocator answers and does depends on no byte of a live block.  The same goes for
the bytes `W` of a block that is given back, of which nothing is left either. -/
structure Oblivious (A : Allocator cfg β) (Rep : Ledger Block → β → Memory UInt8 → Prop)
    (W : NonNull → Layout cfg → Set ℕ) : Prop where
  allocateWith {L : Ledger Block} {m g m' : Machine β} {D : Set ℕ} {r : AllocResult}
    (zeroed : Bool) (layout : Layout cfg) : Rep L m.self m.mem →
    (∀ a ∈ D, ¬ L.Free Block.span a) → m.Twins D g →
    (A.allocateWith zeroed layout).run m = .ok (r, m') →
    ∃ g', (A.allocateWith zeroed layout).run g = .ok (r, g') ∧ m'.Twins D g'
  deallocate {L : Ledger Block} {m g m' : Machine β} {D : Set ℕ} {i : ℕ} {ptr : NonNull}
    {layout : Layout cfg} : Rep L m.self m.mem → Held L i ptr layout →
    (∀ a ∈ D, a ∈ W ptr layout ∨ ¬ (L.erase i).Free Block.span a) → m.Twins D g →
    (A.deallocate ptr layout).run m = .ok ((), m') →
    ∃ g', (A.deallocate ptr layout).run g = .ok ((), g') ∧ m'.Twins (D \ W ptr layout) g'

variable {A : Allocator cfg β} {Rep Rep' : Ledger Block → β → Memory UInt8 → Prop}
  {W W' : NonNull → Layout cfg → Set ℕ}

theorem Oblivious.mono (h : A.Oblivious Rep W)
    (hRep : ∀ {L : Ledger Block} {b : β} {mem : Memory UInt8}, Rep' L b mem → Rep L b mem)
    (hW : ∀ ptr layout, W' ptr layout ⊆ W ptr layout) : A.Oblivious Rep' W' where
  allocateWith := fun zeroed layout hrep => h.allocateWith zeroed layout (hRep hrep)
  deallocate := by
    intro L m g m' D i ptr layout hrep hheld hD hg hrun
    obtain ⟨g', hrun', hg'⟩ := h.deallocate (hRep hrep) hheld
      (fun a ha => (hD a ha).imp_left fun hmem => hW ptr layout hmem) hg hrun
    exact ⟨g', hrun', hg'.mono (Set.sdiff_subset_sdiff_right (hW ptr layout))⟩

end Allocator

namespace ZeroizeAlloc

open Allocator (Oblivious extent)

variable {A : Allocator cfg β} {Rep : Ledger Block → β → Memory UInt8 → Prop}

/-- Of a block that is given back to the wrapper nothing is left of the bytes of its layout. -/
theorem allocator_oblivious (hA : A.Contract Rep)
    (hsound : ∀ {L : Ledger Block} {b : β} {mem : Memory UInt8}, Rep L b mem → L.Sound cfg)
    (hO : A.Oblivious Rep fun _ _ => ∅) :
    (ZeroizeAlloc.new A).allocator.Oblivious Rep extent where
  allocateWith := by
    intro L m g m' D r zeroed layout hrep hD hg hrun
    have hcall : ∀ s : Machine β,
        ((ZeroizeAlloc.new A).allocator.allocateWith zeroed layout).run s =
          (A.allocateWith zeroed layout).run s := by
      intro s
      cases zeroed
      · exact allocate_run
      · exact allocateZeroed_run
    rw [hcall] at hrun ⊢
    exact hO.allocateWith zeroed layout hrep hD hg hrun
  deallocate := by
    intro L m g m' D i ptr layout hrep hheld hD hg hrun
    have hcall : ∀ s : Machine β, ((ZeroizeAlloc.new A).allocator.deallocate ptr layout).run s =
        (A.deallocate ptr layout).run (s.fill ptr.asPtr layout.size 0) :=
      fun s => deallocate_run (hheld.end_lt (hsound hrep))
    -- the backend gets to see a block whose bytes are the same
    let wiped := m.fill ptr.asPtr layout.size 0
    have hwrites : ∀ a, a ∉ (L.block i).span → wiped.mem a = m.mem a :=
      fun a ha => hheld.fill_of_notMem m ha
    have hrep' : Rep L wiped.self wiped.mem :=
      hA.client hrep (Ledger.free_of_writes hheld.live hwrites)
    rw [hcall] at hrun ⊢
    obtain ⟨g', hrun', hg'⟩ := hO.deallocate hrep' hheld
      (fun a ha => Or.inr ((hD a ha.1).resolve_left ha.2)) (hg.fill ptr.asPtr layout.size 0) hrun
    exact ⟨g', hrun', hg'.mono Set.sdiff_subset⟩

theorem nested_oblivious (hA : A.Contract Rep)
    (hsound : ∀ {L : Ledger Block} {b : β} {mem : Memory UInt8}, Rep L b mem → L.Sound cfg)
    (hO : A.Oblivious Rep fun _ _ => ∅) (n : ℕ) : (nested A (n + 1)).Oblivious Rep extent := by
  induction n with
  | zero => exact allocator_oblivious hA hsound hO
  | succ n ih =>
    rw [nested_succ]
    exact allocator_oblivious (nested_contract hA hsound (n + 1)) hsound
      (ih.mono id fun _ _ => Set.empty_subset _)

end ZeroizeAlloc

namespace Exact

variable {D : Set ℕ} {m g : SecMachine cfg}

theorem allocate_twins (hg : m.Twins D g) (layout : Layout cfg) :
    (allocate layout g).1 = (allocate layout m).1 ∧
      (allocate layout m).2.Twins D (allocate layout g).2 := by
  by_cases h0 : layout.size = 0
  · simp only [allocate, if_pos h0]
    exact ⟨trivial, hg⟩
  by_cases hfit : m.self.Fits layout
  · have hfit' : g.self.Fits layout := hg.self_eq ▸ hfit
    rw [allocate_of_fits h0 hfit, allocate_of_fits h0 hfit', hg.self_eq]
    exact ⟨rfl, rfl, hg.mem_eq⟩
  · have hfit' : ¬ g.self.Fits layout := hg.self_eq ▸ hfit
    rw [allocate_of_not_fits h0 hfit, allocate_of_not_fits h0 hfit']
    exact ⟨rfl, hg⟩

theorem deallocate_twins (hg : m.Twins D g) (ptr : NonNull) (layout : Layout cfg) :
    (deallocate ptr layout m).Twins D (deallocate ptr layout g) := by
  simp only [deallocate, hg.self_eq]
  split
  · exact hg
  · exact ⟨rfl, ((hg.fill _ _ 0).mono Set.sdiff_subset).mem_eq⟩

end Exact

namespace SecStackSinglePageAlloc

variable {page : Page cfg} {mem₀ : Memory UInt8}

/-- `SecStackSinglePageAlloc` goes by its cells alone. -/
theorem allocator_oblivious : (allocator : Allocator cfg (SecStackSinglePageAlloc cfg)).Oblivious
    (Tends page mem₀) fun _ _ => ∅ where
  allocateWith := by
    intro L m g m' D r zeroed layout h hD hg hrun
    have hcall : ∀ s : SecMachine cfg, s.self.Consistent →
        (allocator.allocateWith zeroed layout).run s = .ok (Exact.allocate layout s) := by
      intro s hc
      cases zeroed
      · exact allocate_run hc layout
      · exact allocateZeroed_run hc layout
    have hc : m.self.Consistent := h.wellFormed.consistent
    obtain ⟨hans, htwins⟩ := Exact.allocate_twins hg layout
    rw [hcall m hc] at hrun
    have hpair : Exact.allocate layout m = (r, m') := Except.ok.inj hrun
    rw [hpair] at hans htwins
    exact ⟨_, (hcall g (hg.self_eq ▸ hc)).trans (congrArg (fun x => Except.ok (x, _)) hans), htwins⟩
  deallocate := by
    intro L m g m' D i ptr layout h hheld hD hg hrun
    have hcall : ∀ s : SecMachine cfg, s.self.Consistent → Owned s ptr layout →
        (allocator.deallocate ptr layout).run s = .ok ((), Exact.deallocate ptr layout s) :=
      fun s hc howned => deallocate_run hc howned
    have hc : m.self.Consistent := h.wellFormed.consistent
    have howned : Owned m ptr layout := h.wellFormed.owned (h := ⟨m.self, m.mem, L⟩)
      ⟨hheld.live, hheld.addr_eq, hheld.fit⟩
    have howned' : Owned g ptr layout := by
      rw [Owned, hg.self_eq]
      exact howned
    rw [hcall m hc howned] at hrun
    obtain rfl := congrArg Prod.snd (Except.ok.inj hrun)
    refine ⟨_, hcall g (hg.self_eq ▸ hc) howned', ?_⟩
    rw [Set.sdiff_empty]
    exact Exact.deallocate_twins hg ptr layout

end SecStackSinglePageAlloc

/-! ## What clients asked for -/

namespace Ledger

variable {L : Ledger Block} {S : Set ℕ} {i : ℕ} {b : Block} {a : ℕ}

/-- Clients may use as many bytes of each block as they asked for. -/
def Sized (L : Ledger Block) : Prop := ∀ i ∈ L.live, (L.block i).size ≤ (L.block i).len

theorem Sized.insert {layout : Layout cfg} {slice : NonNullSlice} (h : L.Sized)
    (hb : Grants L layout (.ofSlice slice layout)) (i : ℕ) :
    (L.insert i (.ofSlice slice layout)).Sized := by
  intro j hj
  exact forall_mem_insert (p := fun _ c => Block.size c ≤ c.len) hb.size_le
    (fun k hk _ => h k hk) j hj

theorem Sized.erase (h : L.Sized) (i : ℕ) : (L.erase i).Sized :=
  fun j hj => h j (Finset.mem_of_mem_erase hj)

/-- The bytes that clients asked for in the blocks of `S`. -/
def hidden (L : Ledger Block) (S : Set ℕ) : Set ℕ := {a | (L.map cut).Secret S a}

theorem mem_hidden_insert : a ∈ (L.insert i b).hidden S ↔
    (i ∈ S ∧ a ∈ (cut b).span) ∨ a ∈ (L.erase i).hidden S := by
  simp only [hidden, Set.mem_ofPred_eq, map_insert, map_erase, secret_insert_iff]

theorem mem_hidden_insert_of_notMem (hi : i ∉ L.live) : a ∈ (L.insert i b).hidden S ↔
    (i ∈ S ∧ a ∈ (cut b).span) ∨ a ∈ L.hidden S := by
  have hself : L.erase i = L := by
    simp only [erase, Finset.erase_eq_of_notMem hi]
  rw [mem_hidden_insert, hself]

theorem not_free_of_hidden (h : L.Sized) (ha : a ∈ L.hidden S) : ¬ L.Free Block.span a := by
  obtain ⟨i, hi, -, hlo, hhi⟩ := ha
  exact fun hfree => hfree i hi ⟨hlo, hhi.trans_le (Nat.add_le_add_left (h i hi) _)⟩

/-- The layout a block is given back with has all bytes that clients asked for. -/
theorem hidden_release {ptr : NonNull} {layout : Layout cfg} (hheld : Held L i ptr layout)
    (ha : a ∈ L.hidden S) : a ∈ Allocator.extent ptr layout ∨ a ∈ (L.erase i).hidden S := by
  obtain ⟨j, hj, hS, ha⟩ := ha
  by_cases hji : j = i
  · subst hji
    refine Or.inl ⟨hheld.addr_eq.trans_le ha.1, ha.2.trans_le ?_⟩
    rw [hheld.addr_eq]
    exact Nat.add_le_add_left hheld.fit.1 _
  · exact Or.inr ⟨j, Finset.mem_erase.2 ⟨hji, hj⟩, hS, ha⟩

end Ledger

/-- What is hidden in a block may be copied to a new one that hides it, too. -/
theorem Machine.Twins.copy_block {L : Ledger Block} {S : Set ℕ} {m g : Machine β} {i j : ℕ}
    {b : Block} {src dst : Ptr} {n : ℕ} (h : m.Twins (L.hidden S) g) (hs : L.Sound cfg)
    (hsized : L.Sized) (hi : i ∈ L.live) (hj : j ∉ L.live) (hS : i ∈ S → j ∈ S)
    (hsrc : src.addr = (L.block i).addr) (hdst : dst.addr = b.addr) (hlen : n ≤ (L.block i).len)
    (hsize : n ≤ b.size) :
    (m.copy src dst n).Twins ((L.insert j b).hidden S) (g.copy src dst n) := by
  refine h.copy (fun a ha => (Ledger.mem_hidden_insert_of_notMem hj).2 (Or.inr ha)) ?_
  rintro k hk ⟨l, hl, hlS, ha⟩
  have hmem : src.addr + k ∈ (L.block i).span := by
    rw [hsrc]
    exact Block.add_mem_span (by omega)
  have hown : src.addr + k ∈ (L.block l).span :=
    ⟨ha.1, ha.2.trans_le (Nat.add_le_add_left (hsized l hl) _)⟩
  have hli : l = i := by
    by_contra hne
    exact hs.notMem_span hl hi hne hown hmem
  refine (Ledger.mem_hidden_insert_of_notMem hj).2 (Or.inl ⟨hS (hli ▸ hlS), ?_⟩)
  rw [Block.mem_span]
  dsimp only [cut]
  omega

namespace Allocator

/-- An allocator with the methods of a wrapper, that forgets what was in the blocks. -/
structure Discreet (A : Allocator cfg β) (Rep : Ledger Block → β → Memory UInt8 → Prop) : Prop where
  contract : A.FullContract Rep
  oblivious : A.Oblivious Rep extent
  sized {L : Ledger Block} {b : β} {mem : Memory UInt8} : Rep L b mem → L.Sized
  method_eq (kind : ZeroizeHeap.Resize) :
    kind.method A = defaultResize (A.allocateWith kind.zeroed) A.deallocate

variable {A : Allocator cfg β} {Rep : Ledger Block → β → Memory UInt8 → Prop} {L : Ledger Block}
  {S : Set ℕ} {m g m' : Machine β} {i j : ℕ} {ptr : NonNull}
  {layout oldLayout newLayout : Layout cfg}

namespace Discreet

theorem allocateWith_twins (hA : A.Discreet Rep) {r : AllocResult} {zeroed : Bool}
    (hrep : Rep L m.self m.mem) (hg : m.Twins (L.hidden S) g)
    (hrun : (A.allocateWith zeroed layout).run m = .ok (r, m')) :
    ∃ g', (A.allocateWith zeroed layout).run g = .ok (r, g') ∧ m'.Twins (L.hidden S) g' :=
  hA.oblivious.allocateWith zeroed layout hrep
    (fun _ ha => Ledger.not_free_of_hidden (hA.sized hrep) ha) hg hrun

/-- Of a block that is given back nothing is hidden any more. -/
theorem deallocate_twins (hA : A.Discreet Rep) (hrep : Rep L m.self m.mem)
    (hheld : Held L i ptr layout) (hg : m.Twins (L.hidden S) g) :
    ∃ m' g', (A.deallocate ptr layout).run m = .ok ((), m') ∧
      (A.deallocate ptr layout).run g = .ok ((), g') ∧ m'.Twins ((L.erase i).hidden S) g' := by
  obtain ⟨m', hrun, -, hrep'⟩ := hA.contract.deallocate hrep hheld
  obtain ⟨g', hrun', hg'⟩ := hA.oblivious.deallocate hrep hheld (fun a ha =>
    (Ledger.hidden_release hheld ha).imp_right (Ledger.not_free_of_hidden (hA.sized hrep'))) hg hrun
  refine ⟨m', g', hrun, hrun', hg'.mono ?_⟩
  rintro a ⟨ha, hout⟩
  exact (Ledger.hidden_release hheld ha).resolve_left hout

variable (newLayout) in
/-- What is hidden in a block stays hidden when the block is resized. -/
theorem resize_twins (hA : A.Discreet Rep) (hrep : Rep L m.self m.mem)
    (hheld : Held L i ptr oldLayout) (hj : j ∉ L.live) (hS : i ∈ S → j ∈ S)
    (hg : m.Twins (L.hidden S) g) (kind : ZeroizeHeap.Resize) : ∃ r m' g',
      (kind.method A ptr oldLayout newLayout).run m = .ok (r, m') ∧
      (kind.method A ptr oldLayout newLayout).run g = .ok (r, g') ∧
      match r with
      | .error _ => m'.Twins (L.hidden S) g'
      | .ok slice => m'.Twins (((L.erase i).insert j (.ofSlice slice newLayout)).hidden S) g' := by
  obtain ⟨r, m₁, halloc, hkeep, hans, -⟩ :=
    hA.contract.toContract.allocateWith_run hrep hj kind.zeroed newLayout
  obtain ⟨g₁, halloc', hg₁⟩ := hA.allocateWith_twins hrep hg halloc
  rw [hA.method_eq]
  cases r with
  | error e =>
    exact ⟨_, m₁, g₁, defaultResize_run_error halloc, defaultResize_run_error halloc', hg₁⟩
  | ok slice =>
    obtain ⟨hgrants, hrep₁⟩ := hans
    have hcopied := copied_of_grants (hA.contract.sound hrep) hheld hj hgrants hkeep
      fun _ => hA.contract.client hrep₁
    have hg₂ : (m₁.copy ptr.asPtr slice.asPtr (min oldLayout.size newLayout.size)).Twins
        ((L.insert j (.ofSlice slice newLayout)).hidden S)
        (g₁.copy ptr.asPtr slice.asPtr (min oldLayout.size newLayout.size)) :=
      hg₁.copy_block (hA.contract.sound hrep) (hA.sized hrep) hheld.live hj hS hheld.addr_eq rfl
        ((min_le_left _ _).trans hheld.fit.2) (min_le_right _ _)
    obtain ⟨m₂, g₂, hdealloc, hdealloc', hg₃⟩ :=
      hA.deallocate_twins hcopied.rep (hheld.insert hj) hg₂
    refine ⟨_, m₂, g₂, defaultResize_run_ok halloc hdealloc,
      defaultResize_run_ok halloc' hdealloc', ?_⟩
    dsimp only
    rw [← Ledger.erase_insert_of_ne (ne_of_mem_of_not_mem hheld.live hj)]
    exact hg₃

end Discreet

end Allocator

theorem ZeroizeAlloc.nested_discreet {A : Allocator cfg β}
    {Rep : Ledger Block → β → Memory UInt8 → Prop} (hA : A.Contract Rep)
    (hO : A.Oblivious Rep fun _ _ => ∅) (n : ℕ) : (nested A (n + 1)).Discreet
      fun L b mem => Rep L b mem ∧ L.Sound cfg ∧ L.Sized := by
  have hA' : A.Contract fun L b mem => Rep L b mem ∧ L.Sound cfg ∧ L.Sized :=
    hA.and (fun h hb i => ⟨h.1.insert hb i, h.2.insert hb i⟩) fun h i => ⟨h.1.erase i, h.2.erase i⟩
  refine ⟨?_, nested_oblivious hA' (fun h => h.2.1) (hO.mono And.left fun _ _ => subset_rfl) n,
    fun h => h.2.2, ?_⟩
  · rw [nested_succ]
    exact allocator_fullContract (nested_contract hA' (fun h => h.2.1) n) fun h => h.2.1
  · intro kind
    rw [nested_succ]
    exact method_allocator _ kind

/-! ## Two runs -/

namespace Clients

/-- The same operation, but for the byte that is written to a block of `S`. -/
inductive SameBut (S : Set ℕ) : ZeroizeHeap.Op cfg → ZeroizeHeap.Op cfg → Prop
  | refl (op : ZeroizeHeap.Op cfg) : SameBut S op op
  | write {i : ℕ} (off : ℕ) (v w : UInt8) (hi : i ∈ S) : SameBut S (.write i off v) (.write i off w)

/-- Clients keep what they write to blocks of `S` within the bytes they asked for, and in blocks
of `S`. -/
def Contained (S : Set ℕ) (h : Clients β) : ZeroizeHeap.Op cfg → Prop
  | .write i off _ => i ∈ S → off < (h.ledger.block i).size
  | .resize _ i j _ _ _ => i ∈ S → j ∈ S
  | .allocate _ _ _ | .deallocate _ _ _ => True

/-- The same clients, but for the bytes they asked for in the blocks of `S`. -/
structure Agree (S : Set ℕ) (h g : Clients β) : Prop where
  cells_eq : g.cells = h.cells
  ledger_eq : g.ledger = h.ledger
  mem_eq : ∀ a ∉ h.ledger.hidden S, g.mem a = h.mem a

variable {A : Allocator cfg β} {Rep : Ledger Block → β → Memory UInt8 → Prop} {S : Set ℕ}
  {h g : Clients β}

/-- Without blocks of `S` nothing differs. -/
theorem Agree.eq (hg : Agree S h g) (hS : ∀ i ∈ h.ledger.live, i ∉ S) : g = h := by
  obtain ⟨cells, mem, ledger⟩ := g
  obtain ⟨rfl, rfl, hmem⟩ := hg
  congr 1
  ext1 a
  refine hmem a ?_
  rintro ⟨i, hi, hiS, -⟩
  exact hS i hi hiS

/-- Operations that differ in what is hidden have the same answers, and lead to the same but for
what is hidden. -/
theorem exec_agree (hA : A.Discreet Rep) (hrep : Rep h.ledger h.cells h.mem) (hg : Agree S h g)
    {op op' : ZeroizeHeap.Op cfg} (hop : SameBut S op op') (hl : h.Legal op)
    (hin : h.Contained S op) : g.Legal op' ∧ ∃ ans h' g', h.exec A op = .ok (ans, h') ∧
      g.exec A op' = .ok (ans, g') ∧ Agree S h' g' := by
  obtain ⟨cells, mem, ledger⟩ := g
  obtain ⟨rfl, rfl, hmem⟩ := hg
  have htwins : h.machine.Twins (h.ledger.hidden S) (Clients.mk h.cells mem h.ledger).machine :=
    ⟨rfl, hmem⟩
  cases hop with
  | @write i off v w hS =>
    obtain ⟨hi, hoff⟩ := hl
    refine ⟨⟨hi, hoff⟩, none, _, _, rfl, rfl, rfl, rfl, fun a ha => ?_⟩
    have hne : a ≠ (h.ledger.block i).addr + off := by
      rintro rfl
      exact ha ⟨i, hi, hS, Nat.le_add_right _ _, Nat.add_lt_add_left (hin hS) _⟩
    show mem.store _ w a = h.mem.store _ v a
    rw [Memory.store_of_ne hne, Memory.store_of_ne hne]
    exact hmem a ha
  | refl =>
    refine ⟨by cases op <;> exact hl, ?_⟩
    cases op with
    | allocate zeroed i layout =>
      obtain ⟨r, m', hrun, -, hans, -⟩ :=
        hA.contract.toContract.allocateWith_run (m := h.machine) hrep hl zeroed layout
      obtain ⟨g', hrun', hg'⟩ := hA.allocateWith_twins (m := h.machine) hrep htwins hrun
      refine ⟨some r, (h.settle h.ledger i layout (r, m')).2,
        (h.settle h.ledger i layout (r, g')).2, by rw [exec, hrun]; rfl,
        by rw [exec, hrun']; rfl, hg'.self_eq, rfl, ?_⟩
      intro a ha
      refine hg'.mem_eq a fun hold => ha ?_
      cases r with
      | error e => exact hold
      | ok slice => exact (Ledger.mem_hidden_insert_of_notMem hl).2 (Or.inr hold)
    | deallocate i ptr layout =>
      obtain ⟨m', g', hrun, hrun', hg'⟩ := hA.deallocate_twins (m := h.machine) hrep hl htwins
      exact ⟨none, ⟨m'.self, m'.mem, h.ledger.erase i⟩, ⟨g'.self, g'.mem, h.ledger.erase i⟩,
        by rw [exec, hrun]; rfl, by rw [exec, hrun']; rfl, hg'.self_eq, rfl, hg'.mem_eq⟩
    | resize kind i j ptr oldLayout newLayout =>
      obtain ⟨hheld, hj, -⟩ := hl
      obtain ⟨r, m', g', hrun, hrun', hg'⟩ :=
        hA.resize_twins (m := h.machine) newLayout hrep hheld hj hin htwins kind
      refine ⟨some r, (h.settle (h.ledger.erase i) j newLayout (r, m')).2,
        (h.settle (h.ledger.erase i) j newLayout (r, g')).2, by rw [exec, hrun]; rfl,
        by rw [exec, hrun']; rfl, ?_⟩
      cases r with
      | error e => exact ⟨hg'.self_eq, rfl, hg'.mem_eq⟩
      | ok slice => exact ⟨hg'.self_eq, rfl, hg'.mem_eq⟩
    | write i off v =>
      exact ⟨none, _, _, rfl, rfl, rfl, rfl, fun a ha => Memory.store_congr fun _ => hmem a ha⟩

/-- The events are the same, but for the bytes that are written to the blocks of `S`. -/
def SameEvent (S : Set ℕ) (e e' : ZeroizeHeap.Op cfg × Option AllocResult) : Prop :=
  SameBut S e.1 e'.1 ∧ e.2 = e'.2

theorem Step.agree (hA : A.Discreet Rep) (hrep : Rep h.ledger h.cells h.mem)
    {e e' : ZeroizeHeap.Op cfg × Option AllocResult} {h' : Clients β} (hs : Step A h e h')
    (hin : h.Contained S e.1) (hg : Agree S h g) (he : SameEvent S e e') :
    ∃ g', Step A g e' g' ∧ Rep h'.ledger h'.cells h'.mem ∧ Agree S h' g' := by
  obtain ⟨hl', ans, h₂, g', hexec, hexec', hg'⟩ := exec_agree hA hrep hg he.1 hs.1 hin
  rw [hs.2] at hexec
  obtain ⟨hans, rfl⟩ := Prod.mk.inj (Except.ok.inj hexec)
  exact ⟨g', ⟨hl', by rw [hexec', ← he.2, hans]⟩, (hs.spec hA.contract hrep).1, hg'⟩

/-- **Secrecy behind the wrapper.**  Put one or more wrappers around any allocator that does not
look at the bytes of live blocks, whatever it does with the bytes of blocks it got back.  With any
other bytes written to the blocks of `S`, within the sizes that clients asked for, every run goes
through with the same answers and ends in the same cells, blocks and memory, but for these bytes
of the blocks of `S` that are live at its end.  Once these are given back nothing is left of
them. -/
theorem wrapped_secrecy (hA : A.Contract Rep) (hO : A.Oblivious Rep fun _ _ => ∅) {b : β}
    {mem : Memory UInt8} (hrep : Rep (start b mem).ledger b mem) (n : ℕ)
    {es es' : List (ZeroizeHeap.Op cfg × Option AllocResult)}
    (hrun : Run (fun h e h' => Step (ZeroizeAlloc.nested A (n + 1)) h e h' ∧ h.Contained S e.1)
      (start b mem) es h) (hes : List.Forall₂ (SameEvent S) es es') :
    ∃ h', Run (Step (ZeroizeAlloc.nested A (n + 1))) (start b mem) es' h' ∧ Agree S h h' ∧
      ((∀ i ∈ h.ledger.live, i ∉ S) → h' = h) := by
  have hW := ZeroizeAlloc.nested_discreet hA hO n
  have hnone : ∀ i, i ∉ (start b mem).ledger.live := Finset.notMem_empty
  obtain ⟨h', hrun', -, hagree⟩ := hrun.simulation_forall₂
    (R := fun h g => (Rep h.ledger h.cells h.mem ∧ h.ledger.Sound cfg ∧ h.ledger.Sized) ∧
      Agree S h g)
    (by
      rintro h e h₁ g e' ⟨hw, hg⟩ he ⟨hs, hin⟩
      exact hs.agree hW hw hin hg he)
    ⟨⟨hrep, .of_empty rfl, fun i hi => absurd hi (hnone i)⟩, rfl, rfl, fun _ _ => rfl⟩ hes
  exact ⟨h', hrun', hagree, hagree.eq⟩

/-! ## A small run -/

open Heap (sampleCfg samplePage sampleStart nineBytes sampleStart_zeroed)

/-- The block of nine bytes, given back to a wrapper. -/
def sampleReturned : Clients (SecStackSinglePageAlloc sampleCfg) :=
  let g := (sampleStart.place 0 nineBytes).store 0 3 7
  let wiped : Heap sampleCfg := { g with mem := g.mem.fill (g.ledger.block 0).addr 9 0 }
  ⟨(wiped.release 0).alloc, (wiped.release 0).mem, (wiped.release 0).ledger⟩

def sampleReturn (v : UInt8) : List (ZeroizeHeap.Op sampleCfg × Option AllocResult) :=
  [(.allocate false 0 nineBytes, some (.ok (Exact.freshSlice sampleStart.alloc nineBytes))),
    (.write 0 3 v, none),
    (.deallocate 0 (Exact.freshSlice sampleStart.alloc nineBytes).cast nineBytes, none)]

theorem sampleReturn_run : Run (fun h e h' =>
      Step (ZeroizeAlloc.nested SecStackSinglePageAlloc.allocator 1) h e h' ∧ h.Contained {0} e.1)
    (start sampleStart.alloc fun _ => 0) (sampleReturn 7) sampleReturned :=
  .snoc (.snoc (.snoc (.nil _) ⟨⟨Finset.notMem_empty 0, rfl⟩, trivial⟩)
    ⟨⟨⟨by decide, by decide⟩, rfl⟩, fun _ => by decide⟩)
    ⟨⟨⟨by decide, rfl, by decide, rfl⟩, rfl⟩, trivial⟩

/-- With 9 in place of 7 the small run ends the same. -/
theorem wrapped_secrecy_sample :
    Run (Step (ZeroizeAlloc.nested SecStackSinglePageAlloc.allocator 1))
      (start sampleStart.alloc fun _ => 0) (sampleReturn 9) sampleReturned := by
  have hes : List.Forall₂ (SameEvent {0}) (sampleReturn 7) (sampleReturn 9) :=
    .cons ⟨.refl _, rfl⟩ (.cons ⟨.write 3 7 9 rfl, rfl⟩ (.cons ⟨.refl _, rfl⟩ .nil))
  obtain ⟨h', hrun, -, heq⟩ := wrapped_secrecy
    (SecStackSinglePageAlloc.allocator_fullContract sampleStart_zeroed).toContract
    SecStackSinglePageAlloc.allocator_oblivious (Tends.start samplePage fun _ => 0) 0
    sampleReturn_run hes
  exact heq (by decide) ▸ hrun

end Clients

end SecmemAlloc
