import Mathlib.Data.Set.Lattice
import Mathlib.Order.CompletePartialOrder
import SecmemAlloc.Lib.Ledger

/-!
# Sets owned through a ledger

Of a set of resources some were there from the start and the others are those of the live
entries of a ledger, one for each entry.  Acquiring a new resource and giving one back keep
it so: nothing is owned twice, nothing is lost, and what was there at the start stays.
-/

namespace SecmemAlloc

namespace Ledger

variable {α β : Type*} {L : Ledger β} {key : β → α} {base S : Set α} {i j : ℕ} {b : β}

/-- The set `S` consists of `base` and of the keys of the live entries, without overlap. -/
structure Owns (L : Ledger β) (key : β → α) (base S : Set α) : Prop where
  mem_iff : ∀ x, x ∈ S ↔ x ∈ base ∨ ∃ i ∈ L.live, key (L.block i) = x
  notMem_base : ∀ i ∈ L.live, key (L.block i) ∉ base
  inj : ∀ i ∈ L.live, ∀ j ∈ L.live, key (L.block i) = key (L.block j) → i = j

/-- The keys of the live entries. -/
def keys (L : Ledger β) (key : β → α) : Set α := {x | ∃ i ∈ L.live, key (L.block i) = x}

theorem mem_keys {x : α} : x ∈ L.keys key ↔ ∃ i ∈ L.live, key (L.block i) = x := Iff.rfl

theorem keys_of_empty (h : L.live = ∅) : L.keys key = ∅ := by
  ext x
  simp [mem_keys, h]

theorem keys_insert (hi : i ∉ L.live) :
    (L.insert i b).keys key = Insert.insert (key b) (L.keys key) := by
  ext x
  simp only [mem_keys, Set.mem_insert_iff, live_insert, Finset.mem_insert, exists_eq_or_imp,
    block_insert_self, eq_comm (a := x)]
  refine or_congr_right (exists_congr fun j => and_congr_right fun hj => ?_)
  rw [block_insert_of_ne (ne_of_mem_of_not_mem hj hi)]

namespace Owns

theorem of_empty (h : L.live = ∅) : L.Owns key base base := by
  constructor <;> simp [h]

theorem eq_union (h : L.Owns key base S) : S = base ∪ L.keys key := by
  ext x
  exact h.mem_iff x

theorem disjoint_keys (h : L.Owns key base S) : Disjoint base (L.keys key) := by
  rw [Set.disjoint_right]
  rintro x ⟨i, hi, rfl⟩
  exact h.notMem_base i hi

/-- What is left without the keys of the live entries. -/
theorem sdiff_keys (h : L.Owns key base S) : S \ L.keys key = base := by
  rw [h.eq_union, Set.union_sdiff_right]
  exact h.disjoint_keys.sdiff_eq_left

/-- A ledger without live entries owns nothing. -/
theorem eq_base (h : L.Owns key base S) (hL : L.live = ∅) : S = base := by
  rw [h.eq_union, keys_of_empty hL, Set.union_empty]

theorem key_mem (h : L.Owns key base S) (hi : i ∈ L.live) : key (L.block i) ∈ S :=
  (h.mem_iff _).2 (Or.inr ⟨i, hi, rfl⟩)

theorem base_subset (h : L.Owns key base S) : base ⊆ S := fun x hx => (h.mem_iff x).2 (Or.inl hx)

/-- Acquiring a resource that was not there. -/
theorem insert (h : L.Owns key base S) (hi : i ∉ L.live) (hb : key b ∉ S) :
    (L.insert i b).Owns key base (Insert.insert (key b) S) := by
  have hother : ∀ j ∈ L.live, (L.insert i b).block j = L.block j :=
    fun j hj => block_insert_of_ne (ne_of_mem_of_not_mem hj hi)
  have hne : ∀ j ∈ L.live, key (L.block j) ≠ key b := by
    intro j hj heq
    exact hb (heq ▸ h.key_mem hj)
  constructor
  · intro x
    rw [← mem_keys, keys_insert hi, h.eq_union]
    exact or_left_comm
  · exact forall_mem_insert (p := fun _ c => key c ∉ base) (fun hmem => hb (h.base_subset hmem))
      fun j hj _ => h.notMem_base j hj
  · intro j hj k hk heq
    rcases Finset.mem_insert.1 hj with rfl | hj' <;> rcases Finset.mem_insert.1 hk with rfl | hk'
    · rfl
    · rw [block_insert_self, hother k hk'] at heq
      exact absurd heq.symm (hne k hk')
    · rw [block_insert_self, hother j hj'] at heq
      exact absurd heq (hne j hj')
    · rw [hother j hj', hother k hk'] at heq
      exact h.inj j hj' k hk' heq

/-- Giving a resource back. -/
theorem erase (h : L.Owns key base S) (hi : i ∈ L.live) :
    (L.erase i).Owns key base (S \ {key (L.block i)}) := by
  constructor
  · intro x
    rw [Set.mem_sdiff, h.mem_iff, Set.mem_singleton_iff]
    constructor
    · rintro ⟨hbase | ⟨j, hj, rfl⟩, hx⟩
      · exact Or.inl hbase
      · refine Or.inr ⟨j, Finset.mem_erase.2 ⟨?_, hj⟩, rfl⟩
        rintro rfl
        exact hx rfl
    · rintro (hbase | ⟨j, hj, rfl⟩)
      · refine ⟨Or.inl hbase, ?_⟩
        rintro rfl
        exact h.notMem_base i hi hbase
      · obtain ⟨hji, hj'⟩ := Finset.mem_erase.1 hj
        exact ⟨Or.inr ⟨j, hj', rfl⟩, fun heq => hji (h.inj j hj' i hi heq)⟩
  · intro j hj
    exact h.notMem_base j (Finset.mem_of_mem_erase hj)
  · intro j hj k hk
    exact h.inj j (Finset.mem_of_mem_erase hj) k (Finset.mem_of_mem_erase hk)

end Owns

end Ledger

end SecmemAlloc
