import Mathlib.Data.Nat.Notation
import Mathlib.Logic.Basic

/-!
# Computations over a state that may stop with a fault

`Exec ε σ α` reads and updates a state `σ` and either returns a value or stops with a fault
`ε`.  The rules below run such a computation one step at a time: a specification
`x.run s = .ok (a, s')` of the first step turns the run of `x >>= f` into a run of `f a`.
-/

namespace SecmemAlloc

/-- Computations over a state `σ` that may stop with a fault `ε`. -/
abbrev Exec (ε σ : Type*) := StateT σ (Except ε)

namespace Exec

variable {ε σ α β : Type} {x : Exec ε σ α} {f : α → Exec ε σ β} {s s' : σ} {a : α} {e : ε}

@[simp] theorem run_pure (a : α) (s : σ) : (pure a : Exec ε σ α).run s = .ok (a, s) := rfl

theorem run_bind_ok (h : x.run s = .ok (a, s')) : (x >>= f).run s = (f a).run s' := by
  rw [StateT.run_bind, h]
  rfl

theorem run_bind_error (h : x.run s = .error e) : (x >>= f).run s = .error e := by
  rw [StateT.run_bind, h]
  rfl

/-- A loop of checks: it ends in the state after the last one, or stops at the first that
fails. -/
theorem run_forM_range {body : ℕ → Exec ε σ PUnit} {p : ℕ → Prop} [DecidablePred p] {t : ℕ → σ}
    {n : ℕ} (h : ∀ k < n, (body k).run (t k) =
      if p k then .ok (⟨⟩, t (k + 1)) else .error e) :
    ((List.range n).forM body).run (t 0) =
      if ∀ k < n, p k then .ok (⟨⟩, t n) else .error e := by
  induction n with
  | zero =>
    rw [if_pos fun k hk => absurd hk (Nat.not_lt_zero k)]
    rfl
  | succ n ih =>
    have hinit := ih fun k hk => h k (Nat.lt_succ_of_lt hk)
    have hlast : ([n].forM body).run (t n) = (body n).run (t n) := by
      show (body n >>= fun _ => pure PUnit.unit).run (t n) = _
      simp
    have hsplit : (List.range (n + 1)).forM body =
        (List.range n).forM body >>= fun _ => [n].forM body := by
      rw [List.range_succ]
      exact List.forM_append
    rw [hsplit]
    by_cases hall : ∀ k < n, p k
    · have hiff : (∀ k < n + 1, p k) ↔ p n := by
        rw [Nat.forall_lt_succ_right]
        exact and_iff_right hall
      rw [if_pos hall] at hinit
      rw [run_bind_ok hinit, hlast, h n (Nat.lt_succ_self n)]
      simp only [hiff]
    · rw [if_neg hall] at hinit
      rw [run_bind_error hinit, if_neg fun hall' => hall fun k hk => hall' k (Nat.lt_succ_of_lt hk)]

end Exec

end SecmemAlloc
