import SecmemAlloc.Lib.Ledger

/-!
# Stacks of blocks

Some of the blocks of a ledger, listed newest first, are stacked on a base when each
nonempty one starts where the ones made before it end.
-/

namespace SecmemAlloc

namespace Ledger

variable {β : Type*} (L : Ledger β) (span : β → Span)

/-- The total length of the listed blocks. -/
def extent (ids : List ℕ) : ℕ := (ids.map fun i => (span (L.block i)).len).sum

/-- The listed blocks lie on top of each other from `base` on. -/
def Stacked (base : ℕ) : List ℕ → Prop
  | [] => True
  | i :: ids =>
    ((span (L.block i)).len ≠ 0 → (span (L.block i)).start = base + L.extent span ids) ∧
      Stacked base ids

variable {L span} {L' : Ledger β} {base i : ℕ} {ids : List ℕ} {b : β}

@[simp] theorem extent_cons :
    L.extent span (i :: ids) = (span (L.block i)).len + L.extent span ids := rfl

theorem extent_congr (h : ∀ j ∈ ids, L'.block j = L.block j) :
    L'.extent span ids = L.extent span ids := by
  simp only [extent]
  congr 1
  apply List.map_congr_left
  intro j hj
  rw [h j hj]

theorem Stacked.congr (hs : L.Stacked span base ids) (h : ∀ j ∈ ids, L'.block j = L.block j) :
    L'.Stacked span base ids := by
  induction ids with
  | nil => trivial
  | cons i ids ih =>
    obtain ⟨hi, hs⟩ := hs
    have hrest : ∀ j ∈ ids, L'.block j = L.block j := fun j hj => h j (List.mem_cons_of_mem i hj)
    refine ⟨?_, ih hs hrest⟩
    rw [h i List.mem_cons_self, extent_congr hrest]
    exact hi

theorem block_insert_of_notMem (hi : i ∉ ids) : ∀ j ∈ ids, (L.insert i b).block j = L.block j :=
  fun _ hj => block_insert_of_ne (ne_of_mem_of_not_mem hj hi)

end Ledger

end SecmemAlloc
