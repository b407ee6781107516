import SecmemAlloc.Lib.Ledger

/-!
# The topmost block

In a packed ledger a block that ends at the top is the topmost one.  The converse needs a
cap: some block with bytes that ends at the top.
-/

namespace SecmemAlloc

namespace Ledger

variable {β : Type*} {L : Ledger β} {span : β → Span} {bot top i : ℕ} {b : β}

variable (L) (span) in
/-- No nonempty span starts above that of the block `i`. -/
def Topmost (i : ℕ) : Prop :=
  ∀ j ∈ L.live, (span (L.block j)).len ≠ 0 → (span (L.block j)).start ≤ (span (L.block i)).start

variable (L) (span) in
/-- One of the nonempty spans, if there are any, reaches up to `top`. -/
def Capped (top : ℕ) : Prop :=
  (∃ i ∈ L.live, (span (L.block i)).len ≠ 0) →
    ∃ i ∈ L.live, (span (L.block i)).len ≠ 0 ∧ (span (L.block i)).stop = top

theorem exists_topmost (h : ∃ i ∈ L.live, (span (L.block i)).len ≠ 0) :
    ∃ i ∈ L.live, (span (L.block i)).len ≠ 0 ∧ L.Topmost span i := by
  obtain ⟨i, hi, hne⟩ := h
  obtain ⟨j, hj, hmax⟩ := Finset.exists_max_image
    (L.live.filter fun k => (span (L.block k)).len ≠ 0) (fun k => (span (L.block k)).start)
    ⟨i, Finset.mem_filter.2 ⟨hi, hne⟩⟩
  obtain ⟨hj, hjne⟩ := Finset.mem_filter.1 hj
  exact ⟨j, hj, hjne, fun k hk hkne => hmax k (Finset.mem_filter.2 ⟨hk, hkne⟩)⟩

/-- The block that ends at the top is the topmost one. -/
theorem Packed.topmost (h : L.Packed span bot top) (hi : i ∈ L.live)
    (hlast : (span (L.block i)).stop = top) : L.Topmost span i := by
  intro j hj hjne
  by_cases hji : j = i
  · rw [hji]
  · have hle := h.stop_le_start_of_last hi hlast hj hji hjne
    simp only [Span.stop] at hle
    omega

/-- Under a cap the topmost block ends at the top. -/
theorem Packed.stop_eq_of_topmost (h : L.Packed span bot top) (hcap : L.Capped span top)
    (hi : i ∈ L.live) (hne : (span (L.block i)).len ≠ 0) (htop : L.Topmost span i) :
    (span (L.block i)).stop = top := by
  obtain ⟨j, hj, hjne, hstop⟩ := hcap ⟨i, hi, hne⟩
  by_cases hij : i = j
  · rw [hij, hstop]
  · have hle := h.stop_le_start_of_last hj hstop hi hij hne
    have hge := htop j hj hjne
    simp only [Span.stop] at hle
    omega

/-- Ending at the top and being topmost are the same for all blocks if there is a cap, and
only then. -/
theorem Packed.capped_iff (h : L.Packed span bot top) : L.Capped span top ↔
    ∀ i ∈ L.live, (span (L.block i)).len ≠ 0 →
      ((span (L.block i)).stop = top ↔ L.Topmost span i) := by
  constructor
  · intro hcap i hi hne
    exact ⟨h.topmost hi, h.stop_eq_of_topmost hcap hi hne⟩
  · intro hall hsome
    obtain ⟨i, hi, hne, htop⟩ := exists_topmost hsome
    exact ⟨i, hi, hne, (hall i hi hne).2 htop⟩

/-! ## How a cap survives -/

theorem capped_of_empty (h : ∀ i ∈ L.live, (span (L.block i)).len = 0) : L.Capped span top := by
  rintro ⟨i, hi, hne⟩
  exact absurd (h i hi) hne

/-- Recording a block that ends at the top. -/
theorem capped_insert (hne : (span b).len ≠ 0) (hstop : (span b).stop = top) :
    (L.insert i b).Capped span top := by
  intro _
  refine ⟨i, Finset.mem_insert_self i L.live, ?_⟩
  rw [block_insert_self]
  exact ⟨hne, hstop⟩

/-- A block without bytes under a new name matters to no cap. -/
theorem capped_insert_empty (hi : i ∉ L.live) (hb : (span b).len = 0) :
    (L.insert i b).Capped span top ↔ L.Capped span top := by
  have hiff {p : Span → Prop} (hp : ∀ s, p s → s.len ≠ 0) :
      (∃ j ∈ (L.insert i b).live, p (span ((L.insert i b).block j))) ↔
        ∃ j ∈ L.live, p (span (L.block j)) := by
    constructor
    · rintro ⟨j, hj, hpj⟩
      have hji : j ≠ i := by
        rintro rfl
        rw [block_insert_self] at hpj
        exact hp _ hpj hb
      rw [block_insert_of_ne hji] at hpj
      exact ⟨j, (Finset.mem_insert.1 hj).resolve_left hji, hpj⟩
    · rintro ⟨j, hj, hpj⟩
      refine ⟨j, Finset.mem_insert_of_mem hj, ?_⟩
      rwa [block_insert_of_ne (by rintro rfl; exact hi hj)]
  exact imp_congr (hiff fun _ hne => hne) (hiff (p := fun s => s.len ≠ 0 ∧ s.stop = top)
    fun _ h => h.1)

/-- A block that does not end at the top can be dropped. -/
theorem Capped.erase (h : L.Capped span top)
    (hi : (span (L.block i)).len ≠ 0 → (span (L.block i)).stop ≠ top) :
    (L.erase i).Capped span top := by
  rintro ⟨j, hj, hjne⟩
  obtain ⟨k, hk, hkne, hstop⟩ := h ⟨j, Finset.mem_of_mem_erase hj, hjne⟩
  have hki : k ≠ i := by
    rintro rfl
    exact hi hkne hstop
  exact ⟨k, Finset.mem_erase.2 ⟨hki, hk⟩, hkne, hstop⟩

/-- A block that does not end at the top can be replaced by any other one. -/
theorem Capped.replace (h : L.Capped span top) (hi : i ∈ L.live)
    (hne : (span (L.block i)).len ≠ 0) (hstop : (span (L.block i)).stop ≠ top) :
    (L.insert i b).Capped span top := by
  intro _
  obtain ⟨k, hk, hkne, hkstop⟩ := h ⟨i, hi, hne⟩
  refine ⟨k, Finset.mem_insert_of_mem hk, ?_⟩
  rw [block_insert_of_ne (by rintro rfl; exact hstop hkstop)]
  exact ⟨hkne, hkstop⟩

end Ledger

end SecmemAlloc
