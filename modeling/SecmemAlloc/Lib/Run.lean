import Mathlib.Data.List.Forall2
import Mathlib.Data.List.Induction

/-!
# Runs of labelled transition systems

A run is a finite sequence of labelled steps.  An invariant needs to be checked for one
step only, and a simulation for one step only.
-/

namespace SecmemAlloc

variable {σ τ ℓ : Type*}

/-- `Run step s ls t`: the steps labelled `ls` lead from `s` to `t`. -/
inductive Run (step : σ → ℓ → σ → Prop) : σ → List ℓ → σ → Prop
  | nil (s : σ) : Run step s [] s
  | snoc {s t u : σ} {ls : List ℓ} {l : ℓ} :
      Run step s ls t → step t l u → Run step s (ls ++ [l]) u

namespace Run

variable {step : σ → ℓ → σ → Prop} {s t u : σ} {ls : List ℓ}

/-- What every step preserves holds at the end of a run. -/
theorem invariant {I : σ → Prop} (hstep : ∀ s l t, I s → step s l t → I t)
    (h : Run step s ls t) (hs : I s) : I t := by
  induction h with
  | nil => exact hs
  | snoc _ hlast ih => exact hstep _ _ _ ih hlast

/-- A forward simulation carries runs over: related states stay related along runs with
the same labels. -/
theorem simulation {step' : τ → ℓ → τ → Prop} {R : σ → τ → Prop}
    (hstep : ∀ s l t s', R s s' → step s l t → ∃ t', step' s' l t' ∧ R t t')
    (h : Run step s ls t) {s' : τ} (hs : R s s') : ∃ t', Run step' s' ls t' ∧ R t t' := by
  induction h with
  | nil => exact ⟨s', .nil s', hs⟩
  | snoc _ hlast ih =>
    obtain ⟨t', hrun, ht⟩ := ih
    obtain ⟨u', hlast', hu⟩ := hstep _ _ _ _ ht hlast
    exact ⟨u', hrun.snoc hlast', hu⟩

theorem mono {step' : σ → ℓ → σ → Prop} (hstep : ∀ s l t, step s l t → step' s l t)
    (h : Run step s ls t) : Run step' s ls t := by
  induction h with
  | nil => exact .nil _
  | snoc _ hlast ih => exact ih.snoc (hstep _ _ _ hlast)

theorem nil_iff : Run step s [] t ↔ t = s := by
  constructor
  · generalize hes : ([] : List ℓ) = es
    intro h
    cases h with
    | nil => rfl
    | snoc => simp at hes
  · rintro rfl
    exact .nil _

/-- A run with the last step taken off. -/
theorem snoc_iff {l : ℓ} : Run step s (ls ++ [l]) u ↔ ∃ t, Run step s ls t ∧ step t l u := by
  constructor
  · generalize hes : ls ++ [l] = es
    intro h
    cases h with
    | nil => simp at hes
    | snoc hrun hlast =>
      obtain ⟨rfl, hl⟩ := List.append_inj' hes rfl
      obtain rfl := List.singleton_inj.1 hl
      exact ⟨_, hrun, hlast⟩
  · rintro ⟨t, hrun, hlast⟩
    exact hrun.snoc hlast

/-- A simulation with labels of its own, which correspond to the others one by one. -/
theorem simulation_forall₂ {κ : Type*} {step' : τ → κ → τ → Prop} {Q : ℓ → κ → Prop}
    {R : σ → τ → Prop}
    (hstep : ∀ s l t s' k, R s s' → Q l k → step s l t → ∃ t', step' s' k t' ∧ R t t')
    (h : Run step s ls t) {s' : τ} (hs : R s s') {ks : List κ} (hls : List.Forall₂ Q ls ks) :
    ∃ t', Run step' s' ks t' ∧ R t t' := by
  induction h generalizing ks with
  | nil =>
    obtain rfl := List.forall₂_nil_left_iff.1 hls
    exact ⟨s', .nil s', hs⟩
  | snoc _ hlast ih =>
    -- the last label is the first of the reversed lists
    rw [← List.forall₂_reverse_iff, List.reverse_append, List.reverse_singleton,
      List.singleton_append, List.forall₂_cons_left_iff] at hls
    obtain ⟨k, us, hk, hus, hks⟩ := hls
    obtain rfl : ks = us.reverse ++ [k] := by
      rw [← List.reverse_reverse ks, hks, List.reverse_cons]
    rw [← List.reverse_reverse us, List.forall₂_reverse_iff] at hus
    obtain ⟨t', hrun, ht⟩ := ih hus
    obtain ⟨u', hlast', hu⟩ := hstep _ _ _ _ _ ht hk hlast
    exact ⟨u', hrun.snoc hlast', hu⟩

/-- One run after the other. -/
theorem append {ls' : List ℓ} (h : Run step s ls t) (h' : Run step t ls' u) :
    Run step s (ls ++ ls') u := by
  induction h' with
  | nil => rwa [List.append_nil]
  | snoc _ hlast ih =>
    rw [← List.append_assoc]
    exact ih.snoc hlast

/-- If a part of the label determines a step and the rest of the label, these parts determine
a run and the rest of its labels. -/
theorem det_map {κ : Type*} {f : ℓ → κ}
    (hdet : ∀ s l l' t u, f l = f l' → step s l t → step s l' u → l = l' ∧ t = u)
    {ls' : List ℓ} (h : Run step s ls t) (h' : Run step s ls' u) (hls : ls.map f = ls'.map f) :
    ls = ls' ∧ t = u := by
  induction h generalizing ls' u with
  | nil =>
    obtain rfl := List.map_eq_nil_iff.1 hls.symm
    exact ⟨rfl, (nil_iff.1 h').symm⟩
  | snoc _ hlast ih =>
    rcases List.eq_nil_or_concat ls' with rfl | ⟨ks, k, rfl⟩
    · simp at hls
    rw [List.concat_eq_append] at h' hls ⊢
    obtain ⟨t', hrun', hlast'⟩ := snoc_iff.1 h'
    rw [List.map_append, List.map_append] at hls
    obtain ⟨hks, hk⟩ := List.append_inj' hls rfl
    obtain ⟨rfl, rfl⟩ := ih hrun' hks
    obtain ⟨rfl, rfl⟩ := hdet _ _ _ _ _ (List.singleton_inj.1 hk) hlast hlast'
    exact ⟨rfl, rfl⟩

/-- If the labels determine each step, they determine the run. -/
theorem det (hdet : ∀ s l t u, step s l t → step s l u → t = u)
    (h : Run step s ls t) (h' : Run step s ls u) : t = u := by
  refine (det_map (f := id) ?_ h h' rfl).2
  rintro s l _ t u rfl hlast hlast'
  exact ⟨rfl, hdet s _ t u hlast hlast'⟩

/-- Relabelling the steps of a run. -/
theorem map_iff {κ : Type*} {f : κ → ℓ} {ks : List κ} :
    Run step s (ks.map f) t ↔ Run (fun s k t => step s (f k) t) s ks t := by
  induction ks using List.reverseRecOn generalizing t with
  | nil => simp only [List.map_nil, nil_iff]
  | append_singleton ks k ih =>
    simp only [List.map_append, List.map_cons, List.map_nil, snoc_iff, ih]

/-- Two systems have the same runs if their steps agree wherever an invariant holds. -/
theorem congr {step' : σ → ℓ → σ → Prop} {I : σ → Prop}
    (hinv : ∀ s l t, I s → step s l t → I t)
    (hiff : ∀ s l t, I s → (step s l t ↔ step' s l t)) (hs : I s) :
    Run step s ls t ↔ Run step' s ls t := by
  constructor <;> intro h
  · obtain ⟨t', hrun, rfl, -⟩ := h.simulation (R := fun a b => a = b ∧ I a)
      (by
        rintro a l b _ ⟨rfl, ha⟩ hab
        exact ⟨b, (hiff a l b ha).1 hab, rfl, hinv a l b ha hab⟩) ⟨rfl, hs⟩
    exact hrun
  · obtain ⟨t', hrun, rfl, -⟩ := h.simulation (R := fun a b => a = b ∧ I a)
      (by
        rintro a l b _ ⟨rfl, ha⟩ hab
        have hab' := (hiff a l b ha).2 hab
        exact ⟨b, hab', rfl, hinv a l b ha hab'⟩) ⟨rfl, hs⟩
    exact hrun

end Run

end SecmemAlloc
