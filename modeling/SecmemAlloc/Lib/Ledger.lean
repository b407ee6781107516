import Mathlib.Algebra.BigOperators.Ring.Finset
import Mathlib.Order.Interval.Finset.Nat

/-!
# Ledgers of live blocks

A ledger names the blocks a client holds: a finite set of live names and the block each of
them stands for.  When every block covers a span of addresses, a ledger is *packed* in
`[bot, top)` when the nonempty spans lie in that range and no two of them meet.  The rules
below say how packing survives what an allocator does to one block: placing it above the
top, dropping it, rewinding the top over it, trimming it and extending the last one.
-/

namespace SecmemAlloc

/-! ## Spans of addresses -/

/-- The half-open range of `len` addresses from `start` on. -/
structure Span where
  start : ℕ
  len : ℕ
deriving DecidableEq, Repr

namespace Span

/-- The first address after the span. -/
def stop (s : Span) : ℕ := s.start + s.len

instance : Membership ℕ Span := ⟨fun s a => s.start ≤ a ∧ a < s.start + s.len⟩

instance (s : Span) (a : ℕ) : Decidable (a ∈ s) :=
  inferInstanceAs (Decidable (s.start ≤ a ∧ a < s.start + s.len))

theorem mem_iff {s : Span} {a : ℕ} : a ∈ s ↔ s.start ≤ a ∧ a < s.start + s.len := Iff.rfl

/-- Two spans share no address. -/
def Apart (s t : Span) : Prop := s.len = 0 ∨ t.len = 0 ∨ s.stop ≤ t.start ∨ t.stop ≤ s.start

instance (s t : Span) : Decidable (s.Apart t) :=
  inferInstanceAs (Decidable (_ ∨ _ ∨ _ ∨ _))

theorem Apart.symm {s t : Span} (h : s.Apart t) : t.Apart s := by
  simp only [Apart] at *
  omega

theorem Apart.notMem {s t : Span} (h : s.Apart t) {a : ℕ} (ha : a ∈ s) : a ∉ t := by
  rw [mem_iff] at *
  simp only [Apart, stop] at h
  omega

/-- Part of a span is apart from whatever the span is apart from. -/
theorem Apart.of_le {s s' t : Span} (h : s.Apart t) (hstart : s.start ≤ s'.start)
    (hstop : s'.stop ≤ s.stop) : s'.Apart t := by
  simp only [Apart, stop] at *
  omega

end Span

/-! ## Ledgers -/

/-- The live names and the block of each. -/
structure Ledger (β : Type*) where
  live : Finset ℕ
  block : ℕ → β

namespace Ledger

variable {β : Type*} (L : Ledger β) (i j : ℕ) (b : β)

/-- Record the block `b` under the name `i`. -/
def insert : Ledger β := ⟨Insert.insert i L.live, Function.update L.block i b⟩

/-- Forget the block named `i`. -/
def erase : Ledger β := ⟨L.live.erase i, L.block⟩

@[simp] theorem live_insert : (L.insert i b).live = Insert.insert i L.live := rfl

@[simp] theorem live_erase : (L.erase i).live = L.live.erase i := rfl

@[simp] theorem block_insert_self : (L.insert i b).block i = b := by
  simp [insert]

variable {L i j b}

theorem block_insert_of_ne (h : j ≠ i) : (L.insert i b).block j = L.block j := by
  simp [insert, h]

theorem insert_erase (b : β) (hi : i ∈ L.live) : (L.erase i).insert i b = L.insert i b := by
  simp only [insert, erase, Finset.insert_erase hi, Finset.insert_eq_of_mem hi]

theorem erase_insert_of_ne (h : i ≠ j) : (L.insert j b).erase i = (L.erase i).insert j b := by
  simp only [insert, erase, Finset.erase_insert_of_ne h.symm]

/-- What holds of the new block and of every other live block holds of all blocks after
recording. -/
theorem forall_mem_insert {p : ℕ → β → Prop} (hb : p i b)
    (h : ∀ j ∈ L.live, j ≠ i → p j (L.block j)) :
    ∀ j ∈ (L.insert i b).live, p j ((L.insert i b).block j) := by
  intro j hj
  by_cases hji : j = i
  · subst hji
    rwa [block_insert_self]
  · rw [block_insert_of_ne hji]
    exact h j ((Finset.mem_insert.1 hj).resolve_left hji) hji

section Map

variable {γ : Type*} (f : β → γ)

/-- Another block for every name. -/
def map (L : Ledger β) : Ledger γ := ⟨L.live, fun i => f (L.block i)⟩

@[simp] theorem live_map : (L.map f).live = L.live := rfl

@[simp] theorem block_map : (L.map f).block i = f (L.block i) := rfl

@[simp] theorem map_erase : (L.erase i).map f = (L.map f).erase i := rfl

@[simp] theorem map_insert : (L.insert i b).map f = (L.map f).insert i (f b) := by
  show Ledger.mk _ (f ∘ Function.update L.block i b) = _
  rw [Function.comp_update]
  rfl

/-- Recording the block that is there already. -/
theorem insert_block_self (hi : i ∈ L.live) : L.insert i (L.block i) = L := by
  simp only [insert, Finset.insert_eq_of_mem hi, Function.update_eq_self]

end Map

variable (L)

/-- The sum of a measure over the live blocks. -/
def total (f : β → ℕ) : ℕ := ∑ i ∈ L.live, f (L.block i)

variable {L} {f : β → ℕ}

theorem total_erase_add (hi : i ∈ L.live) : (L.erase i).total f + f (L.block i) = L.total f :=
  Finset.sum_erase_add L.live (fun j => f (L.block j)) hi

theorem total_insert_of_notMem (hi : i ∉ L.live) : (L.insert i b).total f = f b + L.total f := by
  rw [total, live_insert, Finset.sum_insert hi, block_insert_self, total]
  congr 1
  apply Finset.sum_congr rfl
  intro j hj
  rw [block_insert_of_ne (by rintro rfl; exact hi hj)]

theorem total_insert_add (hi : i ∈ L.live) :
    (L.insert i b).total f + f (L.block i) = f b + L.total f := by
  rw [← insert_erase b hi, total_insert_of_notMem (by simp), Nat.add_assoc, total_erase_add hi]

theorem le_total (hi : i ∈ L.live) : f (L.block i) ≤ L.total f := by
  rw [← total_erase_add hi]
  omega

theorem dvd_total {d : ℕ} (h : ∀ i ∈ L.live, d ∣ f (L.block i)) : d ∣ L.total f :=
  Finset.dvd_sum h

theorem total_eq_zero_iff : L.total f = 0 ↔ ∀ i ∈ L.live, f (L.block i) = 0 := by
  simp [total]

/-! ## Free addresses -/

variable (L) in
/-- The address `a` belongs to no live block. -/
def Free (span : β → Span) (a : ℕ) : Prop := ∀ i ∈ L.live, a ∉ span (L.block i)

section

variable {span : β → Span} {a : ℕ}

theorem Free.of_erase (h : (L.erase i).Free span a) (hi : i ∈ L.live → a ∉ span (L.block i)) :
    L.Free span a := by
  intro j hj
  by_cases hji : j = i
  · subst hji
    exact hi hj
  · exact h j (Finset.mem_erase.2 ⟨hji, hj⟩)

theorem free_insert_iff : (L.insert i b).Free span a ↔ a ∉ span b ∧ (L.erase i).Free span a := by
  constructor
  · intro h
    have hself := h i (Finset.mem_insert_self i L.live)
    rw [block_insert_self] at hself
    refine ⟨hself, fun j hj => ?_⟩
    obtain ⟨hji, hj'⟩ := Finset.mem_erase.1 hj
    have hother := h j (Finset.mem_insert_of_mem hj')
    rwa [block_insert_of_ne hji] at hother
  · rintro ⟨hb, h⟩
    exact forall_mem_insert (p := fun _ c => a ∉ span c) hb fun j hj hji =>
      h j (Finset.mem_erase.2 ⟨hji, hj⟩)

end

/-! ## Other names for the same blocks -/

/-- `L'` has the blocks of `L` under other names: `f` gives the old name of each. -/
structure Renames (L L' : Ledger β) (f : ℕ → ℕ) : Prop where
  bijOn : Set.BijOn f L'.live L.live
  block_eq : ∀ i ∈ L'.live, L'.block i = L.block (f i)

namespace Renames

variable {L' : Ledger β} {f : ℕ → ℕ} {span : β → Span}

/-- The block that replaces another one may have a name of its own. -/
theorem replace (b : β) (hi : i ∈ L.live) (hj : j ∉ L.live) :
    (L.insert i b).Renames ((L.erase i).insert j b) fun k => if k = j then i else k where
  bijOn := by
    have hij : i ≠ j := ne_of_mem_of_not_mem hi hj
    refine ⟨?_, ?_, ?_⟩
    · intro k hk
      simp only [Finset.mem_coe, live_insert, live_erase, Finset.mem_insert, Finset.mem_erase] at *
      split <;> simp_all
    · intro k hk k' hk' heq
      simp only [Finset.mem_coe, live_insert, live_erase, Finset.mem_insert, Finset.mem_erase] at *
      by_cases hkj : k = j <;> by_cases hkj' : k' = j <;> simp_all
    · intro k hk
      simp only [Finset.mem_coe, live_insert, Finset.mem_insert] at hk
      by_cases hki : k = i
      · exact ⟨j, by simp, by simp [hki]⟩
      · have hkj : k ≠ j := ne_of_mem_of_not_mem (hk.resolve_left hki) hj
        exact ⟨k, by simp [hki, hk.resolve_left hki], by simp [hkj]⟩
  block_eq := by
    refine forall_mem_insert (p := fun k c => c = (L.insert i b).block (if k = j then i else k))
      (by simp) fun k hk hkj => ?_
    rw [if_neg hkj, block_insert_of_ne (Finset.mem_erase.1 hk).1]
    rfl

theorem forall_block (h : L.Renames L' f) {p : β → Prop} (hp : ∀ i ∈ L.live, p (L.block i)) :
    ∀ i ∈ L'.live, p (L'.block i) := by
  intro i hi
  rw [h.block_eq i hi]
  exact hp _ (h.bijOn.mapsTo hi)

theorem total_eq (h : L.Renames L' f) (g : β → ℕ) : L'.total g = L.total g := by
  refine Finset.sum_nbij f (fun i hi => h.bijOn.mapsTo hi) h.bijOn.injOn h.bijOn.surjOn ?_
  intro i hi
  rw [h.block_eq i hi]

theorem free (h : L.Renames L' f) {a : ℕ} (ha : L'.Free span a) : L.Free span a := by
  intro i hi
  obtain ⟨k, hk, rfl⟩ := h.bijOn.surjOn hi
  rw [← h.block_eq k hk]
  exact ha k hk

end Renames

/-! ## Packed ledgers -/

variable (L) in
/-- The nonempty spans of the live blocks lie in `[bot, top)` and no two of them meet. -/
structure Packed (span : β → Span) (bot top : ℕ) : Prop where
  bounds : ∀ i ∈ L.live, (span (L.block i)).len ≠ 0 →
    bot ≤ (span (L.block i)).start ∧ (span (L.block i)).stop ≤ top
  apart : ∀ i ∈ L.live, ∀ j ∈ L.live, i ≠ j → (span (L.block i)).Apart (span (L.block j))

namespace Packed

variable {span : β → Span} {bot top top' : ℕ}

/-- A ledger without nonempty spans is packed in every range. -/
theorem of_empty (h : ∀ i ∈ L.live, (span (L.block i)).len = 0) : L.Packed span bot top :=
  ⟨fun i hi hne => absurd (h i hi) hne, fun i hi _ _ _ => Or.inl (h i hi)⟩

theorem mono_top (h : L.Packed span bot top) (ht : top ≤ top') : L.Packed span bot top' :=
  ⟨fun i hi hne => ⟨(h.bounds i hi hne).1, (h.bounds i hi hne).2.trans ht⟩, h.apart⟩

theorem erase (h : L.Packed span bot top) (i : ℕ) : (L.erase i).Packed span bot top :=
  ⟨fun j hj => h.bounds j (Finset.mem_of_mem_erase hj),
    fun j hj k hk => h.apart j (Finset.mem_of_mem_erase hj) k (Finset.mem_of_mem_erase hk)⟩

theorem rename {L' : Ledger β} {f : ℕ → ℕ} (h : L.Packed span bot top) (hf : L.Renames L' f) :
    L'.Packed span bot top := by
  refine ⟨hf.forall_block (p := fun c => (span c).len ≠ 0 →
    bot ≤ (span c).start ∧ (span c).stop ≤ top) h.bounds, ?_⟩
  intro i hi j hj hij
  rw [hf.block_eq i hi, hf.block_eq j hj]
  exact h.apart _ (hf.bijOn.mapsTo hi) _ (hf.bijOn.mapsTo hj) (hf.bijOn.injOn.ne hi hj hij)

/-- Recording a block that keeps to the range and apart from all others. -/
theorem insert (h : (L.erase i).Packed span bot top)
    (hb : (span b).len ≠ 0 → bot ≤ (span b).start ∧ (span b).stop ≤ top)
    (hap : ∀ j ∈ L.live, j ≠ i → (span b).Apart (span (L.block j))) :
    (L.insert i b).Packed span bot top := by
  have hmem : ∀ j ∈ L.live, j ≠ i → j ∈ (L.erase i).live :=
    fun j hj hji => Finset.mem_erase.2 ⟨hji, hj⟩
  refine ⟨forall_mem_insert (p := fun _ c => (span c).len ≠ 0 →
    bot ≤ (span c).start ∧ (span c).stop ≤ top) hb fun j hj hji => h.bounds j (hmem j hj hji), ?_⟩
  intro j hj k hk hjk
  by_cases hji : j = i
  · subst hji
    have hk' := (Finset.mem_insert.1 hk).resolve_left hjk.symm
    rw [block_insert_self, block_insert_of_ne hjk.symm]
    exact hap k hk' hjk.symm
  · have hj' := (Finset.mem_insert.1 hj).resolve_left hji
    rw [block_insert_of_ne hji]
    by_cases hki : k = i
    · subst hki
      rw [block_insert_self]
      exact (hap j hj' hji).symm
    · rw [block_insert_of_ne hki]
      have hk' := (Finset.mem_insert.1 hk).resolve_left hki
      exact h.apart j (hmem j hj' hji) k (hmem k hk' hki) hjk

/-- Recording a block without bytes. -/
theorem insert_empty (h : L.Packed span bot top) (i : ℕ) (hb : (span b).len = 0) :
    (L.insert i b).Packed span bot top :=
  (h.erase i).insert (fun hne => absurd hb hne) fun _ _ _ => Or.inl hb

/-- Recording a block above the top. -/
theorem place (h : L.Packed span bot top) (i : ℕ) (hbot : bot ≤ (span b).start)
    (hstart : top ≤ (span b).start) (hstop : (span b).stop ≤ top') :
    (L.insert i b).Packed span bot top' := by
  refine (h.erase i |>.mono_top ?_).insert (fun _ => ⟨hbot, hstop⟩) fun j hj _ => ?_
  · simp only [Span.stop] at hstop
    omega
  · by_cases hne : (span (L.block j)).len = 0
    · exact Or.inr (Or.inl hne)
    · exact Or.inr (Or.inr (Or.inr ((h.bounds j hj hne).2.trans hstart)))

/-- Replacing a block by part of it. -/
theorem trim (h : L.Packed span bot top) (hi : i ∈ L.live)
    (hstart : (span b).start = (span (L.block i)).start)
    (hlen : (span b).len ≤ (span (L.block i)).len) : (L.insert i b).Packed span bot top := by
  have hstop : (span b).stop ≤ (span (L.block i)).stop := by
    simp only [Span.stop]
    omega
  refine (h.erase i).insert (fun hne => ?_) fun j hj hji =>
    (h.apart i hi j hj hji.symm).of_le hstart.ge hstop
  have hb := h.bounds i hi (by omega)
  exact ⟨hstart ▸ hb.1, hstop.trans hb.2⟩

/-- The spans other than the last one end where it starts. -/
theorem stop_le_start_of_last (h : L.Packed span bot top) (hi : i ∈ L.live)
    (hlast : (span (L.block i)).stop = top)
    (hj : j ∈ L.live) (hji : j ≠ i) (hjne : (span (L.block j)).len ≠ 0) :
    (span (L.block j)).stop ≤ (span (L.block i)).start := by
  have hap := h.apart i hi j hj hji.symm
  have hb := (h.bounds j hj hjne).2
  simp only [Span.Apart] at hap
  simp only [Span.stop] at *
  omega

/-- Every address below the bottom or from the top on is free. -/
theorem free_of_lt_or_le (h : L.Packed span bot top) {a : ℕ} (ha : a < bot ∨ top ≤ a) :
    L.Free span a := by
  intro i hi hmem
  rw [Span.mem_iff] at hmem
  have hb := h.bounds i hi (by omega)
  simp only [Span.stop] at hb
  omega

/-- Dropping the last block frees everything from its start on. -/
theorem rewind (h : L.Packed span bot top) (hi : i ∈ L.live)
    (hlast : (span (L.block i)).stop = top) :
    (L.erase i).Packed span bot (span (L.block i)).start := by
  refine ⟨fun j hj hjne => ?_, (h.erase i).apart⟩
  obtain ⟨hji, hj'⟩ := Finset.mem_erase.1 hj
  exact ⟨(h.bounds j hj' hjne).1, h.stop_le_start_of_last hi hlast hj' hji hjne⟩

/-- Replacing the last block by one with the same start makes the new end the top. -/
theorem resize_last (h : L.Packed span bot top) (hi : i ∈ L.live)
    (hne : (span (L.block i)).len ≠ 0) (hlast : (span (L.block i)).stop = top)
    (hstart : (span b).start = (span (L.block i)).start) :
    (L.insert i b).Packed span bot (span b).stop := by
  have hbot := (h.bounds i hi hne).1
  rw [← insert_erase b hi]
  exact (h.rewind hi hlast).place i (hstart ▸ hbot) hstart.ge le_rfl

/-- The lengths of the spans packed in a range add up to at most its length. -/
theorem total_len_le (h : L.Packed span bot top) :
    L.total (fun b => (span b).len) ≤ top - bot := by
  classical
  have hdisj : ∀ i ∈ L.live, ∀ j ∈ L.live, i ≠ j →
      Disjoint (Finset.Ico (span (L.block i)).start (span (L.block i)).stop)
        (Finset.Ico (span (L.block j)).start (span (L.block j)).stop) := by
    intro i hi j hj hij
    rw [Finset.disjoint_left]
    intro a ha ha'
    exact (h.apart i hi j hj hij).notMem (Finset.mem_Ico.1 ha) (Finset.mem_Ico.1 ha')
  -- count the addresses of the disjoint intervals
  have hcard : L.total (fun b => (span b).len) =
      (L.live.biUnion fun i => Finset.Ico (span (L.block i)).start (span (L.block i)).stop).card := by
    rw [Finset.card_biUnion hdisj, total]
    apply Finset.sum_congr rfl
    intro i _
    rw [Nat.card_Ico, Span.stop, Nat.add_sub_cancel_left]
  rw [hcard, ← Nat.card_Ico]
  apply Finset.card_le_card
  intro a ha
  obtain ⟨i, hi, hai⟩ := Finset.mem_biUnion.1 ha
  rw [Finset.mem_Ico] at hai ⊢
  have hb := h.bounds i hi (by unfold Span.stop at hai; omega)
  omega

end Packed

end Ledger

end SecmemAlloc
