import Mathlib.Logic.Function.Basic
import Mathlib.Data.List.Basic
import Mathlib.Data.Set.Function
import Mathlib.Order.Basic

/-!
# Flat memories

A memory gives a byte at every address.  The three writes a program can make to it are a
single store, filling a range with one byte and copying a range; each comes with the bytes
it sets and the bytes it leaves alone.
-/

namespace SecmemAlloc

/-- A flat memory with bytes of type `β`. -/
abbrev Memory (β : Type*) := ℕ → β

namespace Memory

variable {β : Type*} (m : Memory β)

/-- Store one byte. -/
def store (a : ℕ) (v : β) : Memory β := Function.update m a v

/-- Set the `n` bytes from `a` on to `v`. -/
def fill (a n : ℕ) (v : β) : Memory β := fun x => if a ≤ x ∧ x < a + n then v else m x

/-- Copy the `n` bytes from `src` on to `dst`. -/
def copy (src dst n : ℕ) : Memory β :=
  fun x => if dst ≤ x ∧ x < dst + n then m (src + (x - dst)) else m x

/-- The `n` bytes from `a` on, as an array. -/
def read (a n : ℕ) : List β := (List.range n).map fun k => m (a + k)

variable {m} {a n x src dst : ℕ} {v : β}

@[simp] theorem store_self : m.store a v a = v := by simp [store]

theorem store_of_ne (h : x ≠ a) : m.store a v x = m x := by
  rw [store, Function.update_of_ne h]

theorem fill_of_mem (h : a ≤ x ∧ x < a + n) : m.fill a n v x = v := if_pos h

theorem fill_of_notMem (h : ¬ (a ≤ x ∧ x < a + n)) : m.fill a n v x = m x := if_neg h

@[simp] theorem fill_zero : m.fill a 0 v = m := by
  funext x
  exact fill_of_notMem (by omega)

/-- Filling a range is storing its first byte and filling the rest. -/
theorem fill_succ : m.fill a (n + 1) v = (m.store a v).fill (a + 1) n v := by
  funext x
  by_cases hx : a + 1 ≤ x ∧ x < a + 1 + n
  · rw [fill_of_mem (by omega), fill_of_mem hx]
  · rw [fill_of_notMem hx]
    by_cases hxa : x = a
    · subst hxa
      rw [fill_of_mem (by omega), store_self]
    · rw [fill_of_notMem (by omega), store_of_ne hxa]

theorem copy_of_mem (h : dst ≤ x ∧ x < dst + n) : m.copy src dst n x = m (src + (x - dst)) :=
  if_pos h

theorem copy_of_notMem (h : ¬ (dst ≤ x ∧ x < dst + n)) : m.copy src dst n x = m x :=
  if_neg h

@[simp] theorem copy_zero : m.copy src dst 0 = m := by
  funext x
  exact copy_of_notMem (by omega)

@[simp] theorem length_read : (m.read a n).length = n := by simp [read]

theorem getElem_read {k : ℕ} (h : k < (m.read a n).length) : (m.read a n)[k] = m (a + k) := by
  simp [read]

theorem getElem?_read {k : ℕ} (h : k < n) : (m.read a n)[k]? = some (m (a + k)) := by
  simp [read, h]

/-- Arrays read from two places agree when their bytes do. -/
theorem read_congr {m' : Memory β} {b : ℕ} (h : ∀ k < n, m (a + k) = m' (b + k)) :
    m.read a n = m'.read b n := by
  apply List.map_congr_left
  intro k hk
  exact h k (List.mem_range.1 hk)

/-- Storing a byte of an array sets it there. -/
theorem read_store {k : ℕ} : (m.store (a + k) v).read a n = (m.read a n).set k v := by
  apply List.ext_getElem (by simp)
  intro j hj hj'
  rw [getElem_read, List.getElem_set, getElem_read]
  split
  · rw [‹k = j›, store_self]
  · exact store_of_ne (by omega)

/-! ## The same edit of two memories -/

section

variable {m' : Memory β}

theorem store_congr (h : x ≠ a → m x = m' x) : m.store a v x = m'.store a v x := by
  by_cases hx : x = a
  · rw [hx, store_self, store_self]
  · rw [store_of_ne hx, store_of_ne hx, h hx]

theorem fill_congr (h : ¬ (a ≤ x ∧ x < a + n) → m x = m' x) : m.fill a n v x = m'.fill a n v x := by
  by_cases hx : a ≤ x ∧ x < a + n
  · rw [fill_of_mem hx, fill_of_mem hx]
  · rw [fill_of_notMem hx, fill_of_notMem hx, h hx]

theorem copy_congr (hdst : dst ≤ x ∧ x < dst + n → m (src + (x - dst)) = m' (src + (x - dst)))
    (h : ¬ (dst ≤ x ∧ x < dst + n) → m x = m' x) : m.copy src dst n x = m'.copy src dst n x := by
  by_cases hx : dst ≤ x ∧ x < dst + n
  · rw [copy_of_mem hx, copy_of_mem hx, hdst hx]
  · rw [copy_of_notMem hx, copy_of_notMem hx, h hx]

end

/-! ## Local edits -/

/-- An edit of the memory that writes to the addresses in `A` only, and writes what depends on
the bytes there only. -/
structure LocalTo (F : Memory β → Memory β) (A : Set ℕ) : Prop where
  frame : ∀ m, Set.EqOn (F m) m Aᶜ
  congr : ∀ m n, Set.EqOn m n A → Set.EqOn (F m) (F n) A

namespace LocalTo

variable {F G : Memory β → Memory β} {A : Set ℕ}

theorem id (A : Set ℕ) : LocalTo (fun m : Memory β => m) A :=
  ⟨fun _ _ _ => rfl, fun _ _ h => h⟩

theorem comp (hG : LocalTo G A) (hF : LocalTo F A) : LocalTo (fun m => G (F m)) A :=
  ⟨fun m => (hG.frame (F m)).trans (hF.frame m), fun m n h => hG.congr _ _ (hF.congr m n h)⟩

theorem store (ha : a ∈ A) (v : β) : LocalTo (fun m => m.store a v) A where
  frame := by
    intro m x hx
    apply store_of_ne
    rintro rfl
    exact hx ha
  congr := by
    intro m n h x hx
    by_cases hxa : x = a
    · simp [hxa]
    · simp [store_of_ne hxa, h hx]

theorem fill (hA : ∀ x, a ≤ x → x < a + n → x ∈ A) (v : β) : LocalTo (fun m => m.fill a n v) A where
  frame := fun m x hx => fill_of_notMem fun h => hx (hA x h.1 h.2)
  congr := by
    intro m m' h x hx
    by_cases hxa : a ≤ x ∧ x < a + n
    · simp [fill_of_mem hxa]
    · simp [fill_of_notMem hxa, h hx]

theorem copy (hsrc : ∀ k < n, src + k ∈ A) (hdst : ∀ k < n, dst + k ∈ A) :
    LocalTo (fun m : Memory β => m.copy src dst n) A where
  frame := by
    intro m x hx
    refine copy_of_notMem fun h => hx ?_
    have hmem := hdst (x - dst) (by omega)
    rwa [Nat.add_sub_cancel' h.1] at hmem
  congr := by
    intro m m' h x hx
    by_cases hxd : dst ≤ x ∧ x < dst + n
    · simp only [copy_of_mem hxd]
      exact h (hsrc _ (by omega))
    · simp [copy_of_notMem hxd, h hx]

end LocalTo

theorem read_eq_replicate (h : ∀ k < n, m (a + k) = v) : m.read a n = List.replicate n v := by
  rw [List.eq_replicate_iff]
  refine ⟨length_read, fun b hb => ?_⟩
  obtain ⟨k, hk, rfl⟩ := List.mem_map.1 hb
  exact h k (List.mem_range.1 hk)

end Memory

end SecmemAlloc
