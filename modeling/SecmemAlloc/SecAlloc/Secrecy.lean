import SecmemAlloc.SecAlloc.Drain
import SecmemAlloc.SecAlloc.Locality

/-!
# Nothing is left of a secret

What clients write to a block has an effect on the bytes of that block and on nothing else,
for as long as the block lives and after it: not on the answers of the allocator, not on its
cells, not on the addresses it gives out and not on any other byte of the memory.  So with
other secrets in their place the same operations lead to the same heap, up to the bytes of the
blocks that still hold secrets.
-/

namespace SecmemAlloc

variable {cfg : Cfg}

/-! ## Secret bytes -/

namespace Ledger

variable {L : Ledger Block} {S : Set ℕ} {i : ℕ} {b : Block} {a : ℕ}

/-- A byte of a live block of `S`. -/
def Secret (L : Ledger Block) (S : Set ℕ) (a : ℕ) : Prop :=
  ∃ i ∈ L.live, i ∈ S ∧ a ∈ (L.block i).span

theorem not_secret_of_erase (h : ¬ (L.erase i).Secret S a)
    (hi : i ∈ L.live → i ∈ S → a ∉ (L.block i).span) : ¬ L.Secret S a := by
  rintro ⟨j, hj, hS, ha⟩
  by_cases hji : j = i
  · subst hji
    exact hi hj hS ha
  · exact h ⟨j, Finset.mem_erase.2 ⟨hji, hj⟩, hS, ha⟩

theorem secret_insert_iff :
    (L.insert i b).Secret S a ↔ (i ∈ S ∧ a ∈ b.span) ∨ (L.erase i).Secret S a := by
  constructor
  · rintro ⟨j, hj, hS, ha⟩
    by_cases hji : j = i
    · subst hji
      rw [block_insert_self] at ha
      exact Or.inl ⟨hS, ha⟩
    · rw [block_insert_of_ne hji] at ha
      have hj' := (Finset.mem_insert.1 hj).resolve_left hji
      exact Or.inr ⟨j, Finset.mem_erase.2 ⟨hji, hj'⟩, hS, ha⟩
  · rintro (⟨hS, ha⟩ | ⟨j, hj, hS, ha⟩)
    · exact ⟨i, Finset.mem_insert_self _ _, hS, by rwa [block_insert_self]⟩
    · obtain ⟨hji, hj'⟩ := Finset.mem_erase.1 hj
      exact ⟨j, Finset.mem_insert_of_mem hj', hS, by rwa [block_insert_of_ne hji]⟩

end Ledger

namespace Heap

/-- The same operation, but for the byte that is written to a block of `S`. -/
inductive SameBut (S : Set ℕ) : Op cfg → Op cfg → Prop
  | refl (op : Op cfg) : SameBut S op op
  | write {i : ℕ} (off : ℕ) (v w : UInt8) (hi : i ∈ S) : SameBut S (.write i off v) (.write i off w)

/-- The same heap, but for the bytes of the blocks of `S`. -/
structure Agree (S : Set ℕ) (h g : Heap cfg) : Prop where
  alloc_eq : g.alloc = h.alloc
  ledger_eq : g.ledger = h.ledger
  mem_eq : ∀ a, ¬ h.ledger.Secret S a → g.mem a = h.mem a

variable {S : Set ℕ} {h g : Heap cfg} {i : ℕ} {layout : Layout cfg}

/-- Without blocks of `S` the heaps are the same. -/
theorem Agree.eq (hg : Agree S h g) (hS : ∀ i ∈ h.ledger.live, i ∉ S) : g = h := by
  obtain ⟨alloc, mem, ledger⟩ := g
  obtain ⟨rfl, rfl, hmem⟩ := hg
  congr 1
  ext1 a
  refine hmem a ?_
  rintro ⟨i, hi, hiS, -⟩
  exact hS i hi hiS

/-! ## The moves keep secrets -/

namespace Agree

theorem empty (hg : Agree S h g) (hi : i ∉ h.ledger.live) :
    Agree S (h.empty i layout) (g.empty i layout) := by
  obtain ⟨alloc, mem, ledger⟩ := g
  obtain ⟨rfl, rfl, hmem⟩ := hg
  refine ⟨rfl, rfl, fun a ha => hmem a ?_⟩
  obtain ⟨-, hrest⟩ := not_or.1 (mt Ledger.secret_insert_iff.2 ha)
  exact Ledger.not_secret_of_erase hrest fun hmem => absurd hmem hi

theorem place (hg : Agree S h g) (hi : i ∉ h.ledger.live) :
    Agree S (h.place i layout) (g.place i layout) := by
  obtain ⟨alloc, mem, ledger⟩ := g
  obtain ⟨rfl, rfl, hmem⟩ := hg
  refine ⟨rfl, rfl, fun a ha => hmem a ?_⟩
  obtain ⟨-, hrest⟩ := not_or.1 (mt Ledger.secret_insert_iff.2 ha)
  exact Ledger.not_secret_of_erase hrest fun hmem => absurd hmem hi

/-- A block that is taken back is wiped, whatever it held. -/
theorem release (hg : Agree S h g) (i : ℕ) : Agree S (h.release i) (g.release i) := by
  obtain ⟨alloc, mem, ledger⟩ := g
  obtain ⟨rfl, rfl, hmem⟩ := hg
  refine ⟨rfl, rfl, fun a ha => ?_⟩
  refine Memory.fill_congr fun hold => hmem a ?_
  exact Ledger.not_secret_of_erase ha fun _ _ => hold

/-- The end of a trimmed block is wiped, whatever it held. -/
theorem trim (hg : Agree S h g) (hle : rounded layout.size ≤ (h.ledger.block i).len) :
    Agree S (h.trim i layout) (g.trim i layout) := by
  obtain ⟨alloc, mem, ledger⟩ := g
  obtain ⟨rfl, rfl, hmem⟩ := hg
  refine ⟨rfl, rfl, fun a ha => ?_⟩
  obtain ⟨hkept, hrest⟩ := not_or.1 (mt Ledger.secret_insert_iff.2 ha)
  refine Memory.fill_congr fun hend => hmem a ?_
  refine Ledger.not_secret_of_erase hrest fun _ hS hold => hkept ⟨hS, ?_⟩
  rw [Block.mem_span] at hold ⊢
  dsimp only at hend ⊢
  omega

theorem extend (hg : Agree S h g) (hle : (h.ledger.block i).len ≤ rounded layout.size) :
    Agree S (h.extend i layout) (g.extend i layout) := by
  obtain ⟨alloc, mem, ledger⟩ := g
  obtain ⟨rfl, rfl, hmem⟩ := hg
  refine ⟨rfl, rfl, fun a ha => hmem a ?_⟩
  obtain ⟨hnew, hrest⟩ := not_or.1 (mt Ledger.secret_insert_iff.2 ha)
  refine Ledger.not_secret_of_erase hrest fun _ hS hold => hnew ⟨hS, ?_⟩
  rw [Block.mem_span] at hold ⊢
  exact ⟨hold.1, hold.2.trans_le (Nat.add_le_add_left hle _)⟩

/-- The copy of a moved block is as secret as the block. -/
theorem move (hg : Agree S h g) (hw : h.WellFormed) (hi : i ∈ h.ledger.live) {n : ℕ}
    (hlen : n ≤ (h.ledger.block i).len) (hn : n ≤ rounded layout.size) :
    Agree S (h.move i layout n) (g.move i layout n) := by
  obtain ⟨alloc, mem, ledger⟩ := g
  obtain ⟨rfl, rfl, hmem⟩ := hg
  refine ⟨rfl, rfl, fun a ha => ?_⟩
  obtain ⟨hfresh, hrest⟩ := not_or.1 (mt Ledger.secret_insert_iff.2 ha)
  refine Memory.fill_congr fun hold => Memory.copy_congr (fun hdst => hmem _ ?_) fun _ => hmem a ?_
  · -- the byte comes from the old block, which is not of `S`
    dsimp only at hdst ⊢
    have hsrc : (h.ledger.block i).addr + (a - h.alloc.freshAddr layout.align) ∈
        (h.ledger.block i).span := Block.add_mem_span (by omega)
    rintro ⟨j, hj, hS, hsrc'⟩
    by_cases hji : j = i
    · subst hji
      exact hfresh ⟨hS, hdst.1, hdst.2.trans_le (Nat.add_le_add_left hn _)⟩
    · exact (hw.packed.apart j hj i hi hji).notMem hsrc' hsrc
  · exact Ledger.not_secret_of_erase hrest fun _ _ => hold

/-- A client writes the same byte, or any two bytes to a block of `S`. -/
theorem store (hg : Agree S h g) (hi : i ∈ h.ledger.live) {off : ℕ}
    (hoff : off < (h.ledger.block i).len) {v w : UInt8} (hvw : i ∈ S ∨ w = v) :
    Agree S (h.store i off v) (g.store i off w) := by
  obtain ⟨alloc, mem, ledger⟩ := g
  obtain ⟨rfl, rfl, hmem⟩ := hg
  refine ⟨rfl, rfl, fun a ha => ?_⟩
  rcases hvw with hS | rfl
  · have hx : a ≠ (h.ledger.block i).addr + off := by
      rintro rfl
      exact ha ⟨i, hi, hS, Block.add_mem_span hoff⟩
    show mem.store _ w a = h.mem.store _ v a
    rw [Memory.store_of_ne hx, Memory.store_of_ne hx]
    exact hmem a ha
  · exact Memory.store_congr fun _ => hmem a ha

end Agree

/-! ## Runs -/

/-- An effect on one heap is one on the other, with the same answer. -/
theorem Effect.agree (hw : h.WellFormed) {e e' : Event cfg} {h₁ : Heap cfg}
    (heff : Effect h e h₁) (hg : Agree S h g) (hop : SameBut S e.1 e'.1) (hans : e.2 = e'.2) :
    ∃ g₁, Effect g e' g₁ ∧ Agree S h₁ g₁ := by
  obtain ⟨op, ans⟩ := e
  obtain ⟨op', ans'⟩ := e'
  obtain rfl : ans = ans' := hans
  have heq := hg
  obtain ⟨alloc, mem, ledger⟩ := g
  obtain ⟨rfl, rfl, -⟩ := heq
  cases hop with
  | write off v w hS =>
    cases heff with
    | write _ hi hoff => exact ⟨_, .write w hi hoff, hg.store hi hoff (Or.inl hS)⟩
  | refl =>
    cases heff with
    | allocateEmpty hi h0 => exact ⟨_, .allocateEmpty hi h0, hg.empty hi⟩
    | allocate hi hne hfit => exact ⟨_, .allocate hi hne hfit, hg.place hi⟩
    | allocateFailed hi hne hfit => exact ⟨_, .allocateFailed hi hne hfit, hg⟩
    | deallocate hheld =>
      exact ⟨_, .deallocate ⟨hheld.live, hheld.addr_eq, hheld.fit⟩, hg.release _⟩
    | write v hi hoff => exact ⟨_, .write v hi hoff, hg.store hi hoff (Or.inr rfl)⟩
    | vacate hheld hord h0 =>
      exact ⟨_, .vacate ⟨hheld.live, hheld.addr_eq, hheld.fit⟩ hord h0,
        (hg.release _).empty (Finset.notMem_erase _ _)⟩
    | trim hheld hle hne hin =>
      exact ⟨_, .trim ⟨hheld.live, hheld.addr_eq, hheld.fit⟩ hle hne hin,
        hg.trim ((rounded_mono hle).trans_eq (hw.rounded_eq hheld.live hheld.fit))⟩
    | extend hkind hheld hle hne hin hroom =>
      refine ⟨_, .extend hkind ⟨hheld.live, hheld.addr_eq, hheld.fit⟩ hle hne ?_ hroom,
        hg.extend ((hw.rounded_eq hheld.live hheld.fit).ge.trans (rounded_mono hle))⟩
      exact hin
    | extendFailed hkind hheld hle hne hin hroom =>
      refine ⟨_, .extendFailed hkind ⟨hheld.live, hheld.addr_eq, hheld.fit⟩ hle hne ?_ hroom, hg⟩
      exact hin
    | move hheld hord hne hin hfit =>
      refine ⟨_, .move ⟨hheld.live, hheld.addr_eq, hheld.fit⟩ hord hne ?_ hfit,
        hg.move hw hheld.live ((Nat.min_le_left _ _).trans hheld.fit.2)
          ((Nat.min_le_right _ _).trans (le_rounded _))⟩
      exact hin
    | moveFailed hheld hord hne hin hfit =>
      refine ⟨_, .moveFailed ⟨hheld.live, hheld.addr_eq, hheld.fit⟩ hord hne ?_ hfit, hg⟩
      exact hin

/-- The events are the same, but for the bytes that are written to the blocks of `S`. -/
def SameEvent (S : Set ℕ) (e e' : Event cfg) : Prop := SameBut S e.1 e'.1 ∧ e.2 = e'.2

theorem Agree.wellFormed (hg : Agree S h g) (hw : h.WellFormed) : g.WellFormed := by
  obtain ⟨alloc, mem, ledger⟩ := g
  obtain ⟨rfl, rfl, -⟩ := hg
  exact hw.heap mem

theorem Step.agree (hw : h.WellFormed) {e e' : Event cfg} {h₁ : Heap cfg} (hs : h.Step e h₁)
    (hg : Agree S h g) (he : SameEvent S e e') :
    ∃ g₁, g.Step e' g₁ ∧ h₁.WellFormed ∧ Agree S h₁ g₁ := by
  have heff := hs.effect hw
  obtain ⟨g₁, heff', hg₁⟩ := heff.agree hw hg he.1 he.2
  exact ⟨g₁, heff'.step (hg.wellFormed hw), heff.wellFormed hw, hg₁⟩

/-- **Secrecy.**  With any other bytes written to the blocks of `S` a run from `new` goes through
with the same answers, and ends in the same cells, blocks and memory, but for the bytes of the
blocks of `S` that are live at its end.  Once these are given back nothing is left of them. -/
theorem secrecy {page : Page cfg} {mem : Memory UInt8} {es es' : List (Event cfg)}
    (hrun : Run Step (new page mem) es h) (hes : List.Forall₂ (SameEvent S) es es') :
    ∃ h', Run Step (new page mem) es' h' ∧ Agree S h h' ∧
      ((∀ i ∈ h.ledger.live, i ∉ S) → h' = h) := by
  obtain ⟨h', hrun', -, hagree⟩ := hrun.simulation_forall₂
    (R := fun h g => h.WellFormed ∧ Agree S h g)
    (by
      rintro h e h₁ g e' ⟨hw, hg⟩ he hs
      exact hs.agree hw hg he)
    ⟨new_wellFormed page mem, rfl, rfl, fun _ _ => rfl⟩ hes
  exact ⟨h', hrun', hagree, hagree.eq⟩

/-- With 9 in place of 7 the small run leaves the same memory, once the block is given back. -/
theorem secrecy_sample : Run Step sampleStart
    [(.allocate false 0 nineBytes, some (.ok (Exact.freshSlice sampleStart.alloc nineBytes))),
      (.write 0 3 9, none),
      (.deallocate 0 (Exact.freshSlice sampleStart.alloc nineBytes).cast nineBytes, none)]
    sampleDrained := by
  obtain ⟨h', hrun, -, heq⟩ := secrecy (S := {0}) sampleDrained_run
    (.cons ⟨.refl _, rfl⟩ (.cons (b := (.write 0 3 9, none))
      ⟨.write 3 7 9 (Set.mem_singleton 0), rfl⟩ (.cons ⟨.refl _, rfl⟩ .nil)))
  exact heq (by decide) ▸ hrun

end Heap

end SecmemAlloc
