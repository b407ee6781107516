import Mathlib.Algebra.Order.Floor.Div
import Mathlib.Data.Nat.Bitwise

/-!
# Rounding up to a multiple

`alignUp x d` is the least multiple of `d` that is at least `x`, over the integers.  The
second half of the file relates it to the bit trick that computes it on machine words:
add `d - 1` modulo `2 ^ w`, then mask with the complement of `d - 1`.
-/

namespace SecmemAlloc

/-- The least multiple of `d` that is at least `x`. -/
def alignUp (x d : ℕ) : ℕ := d * (x ⌈/⌉ d)

variable {x y d m : ℕ}

theorem dvd_alignUp (x d : ℕ) : d ∣ alignUp x d := dvd_mul_right _ _

/-- Rounding up is adjoint to the inclusion of the multiples of `d`. -/
theorem alignUp_le_iff (hd : 0 < d) (hm : d ∣ m) : alignUp x d ≤ m ↔ x ≤ m := by
  obtain ⟨c, rfl⟩ := hm
  rw [alignUp, Nat.mul_le_mul_left_iff hd, ceilDiv_le_iff_le_mul hd]

theorem le_alignUp (hd : 0 < d) (x : ℕ) : x ≤ alignUp x d :=
  (alignUp_le_iff hd (dvd_alignUp x d)).1 le_rfl

theorem isLeast_alignUp (hd : 0 < d) (x : ℕ) : IsLeast {m | x ≤ m ∧ d ∣ m} (alignUp x d) :=
  ⟨⟨le_alignUp hd x, dvd_alignUp x d⟩, fun _ hm => (alignUp_le_iff hd hm.2).2 hm.1⟩

theorem alignUp_mono (hd : 0 < d) (hxy : x ≤ y) : alignUp x d ≤ alignUp y d :=
  (alignUp_le_iff hd (dvd_alignUp y d)).2 (hxy.trans (le_alignUp hd y))

theorem alignUp_eq_self (hd : 0 < d) (hx : d ∣ x) : alignUp x d = x :=
  le_antisymm ((alignUp_le_iff hd hx).2 le_rfl) (le_alignUp hd x)

/-- Rounding up is constant between a number and its rounding. -/
theorem alignUp_eq_of_le_of_le (hd : 0 < d) (hxy : x ≤ y) (hy : y ≤ alignUp x d) :
    alignUp y d = alignUp x d :=
  le_antisymm ((alignUp_le_iff hd (dvd_alignUp x d)).2 hy) (alignUp_mono hd hxy)

/-- The rounding stays below a bound when some multiple of `d` at or above the number does. -/
theorem alignUp_lt_iff {n : ℕ} (hd : 0 < d) : alignUp x d < n ↔ ∃ m < n, x ≤ m ∧ d ∣ m := by
  constructor
  · intro h
    exact ⟨alignUp x d, h, le_alignUp hd x, dvd_alignUp x d⟩
  · rintro ⟨m, hmn, hxm, hdm⟩
    exact ((alignUp_le_iff hd hdm).2 hxm).trans_lt hmn

theorem alignUp_eq_div_mul (x d : ℕ) : alignUp x d = (x + d - 1) / d * d := by
  rw [alignUp, Nat.ceilDiv_eq_add_pred_div, mul_comm]

/-! ## Powers of two -/

theorem dvd_of_isPowerOfTwo_of_le {e : ℕ} (hd : d.isPowerOfTwo) (he : e.isPowerOfTwo)
    (hde : d ≤ e) : d ∣ e := by
  obtain ⟨k, rfl⟩ := hd
  obtain ⟨l, rfl⟩ := he
  exact Nat.pow_dvd_pow 2 ((Nat.pow_le_pow_iff_right (by decide)).1 hde)

theorem pos_of_isPowerOfTwo (hd : d.isPowerOfTwo) : 0 < d := by
  obtain ⟨k, rfl⟩ := hd
  exact Nat.two_pow_pos k

theorem dvd_two_pow_of_lt {w : ℕ} (hd : d.isPowerOfTwo) (hw : d < 2 ^ w) : d ∣ 2 ^ w :=
  dvd_of_isPowerOfTwo_of_le hd ⟨w, rfl⟩ hw.le

/-! ## The mask on machine words -/

/-- Masking with the complement of `2 ^ k - 1` clears the remainder modulo `2 ^ k`. -/
theorem land_compl_two_pow_sub_one {w k : ℕ} (hk : k ≤ w) (hy : y < 2 ^ w) :
    y &&& (2 ^ w - 1 - (2 ^ k - 1)) = y / 2 ^ k * 2 ^ k := by
  have hpow : 2 ^ k ≤ 2 ^ w := Nat.pow_le_pow_right (by decide) hk
  have hpos : 0 < 2 ^ k := Nat.two_pow_pos k
  apply Nat.eq_of_testBit_eq
  intro i
  have hmask : 2 ^ w - 1 - (2 ^ k - 1) = 2 ^ w - (2 ^ k - 1 + 1) := by omega
  rw [Nat.testBit_land, hmask, Nat.testBit_two_pow_sub_succ (by omega),
    Nat.testBit_two_pow_sub_one, Nat.testBit_mul_two_pow, Nat.testBit_div_two_pow]
  by_cases hik : k ≤ i
  · by_cases hiw : i < w
    · simp [hik, hiw, Nat.sub_add_cancel hik]
    · have hyi : y.testBit i = false :=
        Nat.testBit_lt_two_pow (hy.trans_le (Nat.pow_le_pow_right (by decide) (by omega)))
      simp [hiw, hyi, Nat.sub_add_cancel hik]
  · simp [hik, Nat.lt_of_not_le hik]

/-- Taking a multiple-of-`d` floor commutes with reduction modulo a multiple of `d`. -/
theorem mod_div_mul_self (x d n : ℕ) : x % (d * n) / d * d = x / d * d % (d * n) := by
  rw [Nat.mod_mul_right_div_self, mul_comm (x / d) d, Nat.mul_mod_mul_left, mul_comm]

/-- The wrapping sum with `d - 1` masked by the complement of `d - 1` is the integer
rounding reduced modulo the word size. -/
theorem wrapping_mask_eq_alignUp {w : ℕ} (hd : d.isPowerOfTwo) (hw : d < 2 ^ w) :
    (x + (d - 1)) % 2 ^ w &&& (2 ^ w - 1 - (d - 1)) = alignUp x d % 2 ^ w := by
  have hpos := pos_of_isPowerOfTwo hd
  obtain ⟨n, hn⟩ := dvd_two_pow_of_lt hd hw
  obtain ⟨k, rfl⟩ := hd
  have hk : k ≤ w := ((Nat.pow_lt_pow_iff_right (by decide)).1 hw).le
  rw [land_compl_two_pow_sub_one hk (Nat.mod_lt _ (Nat.two_pow_pos w)), hn, mod_div_mul_self,
    alignUp_eq_div_mul, Nat.add_sub_assoc hpos]

/-- The rounding of a word is at most `2 ^ w`: it wraps to zero or not at all. -/
theorem alignUp_le_two_pow {w : ℕ} (hd : d.isPowerOfTwo) (hw : d < 2 ^ w) (hx : x ≤ 2 ^ w) :
    alignUp x d ≤ 2 ^ w :=
  (alignUp_le_iff (pos_of_isPowerOfTwo hd) (dvd_two_pow_of_lt hd hw)).2 hx

theorem alignUp_mod_two_pow_of_lt {w : ℕ} (h : alignUp x d < 2 ^ w) :
    alignUp x d % 2 ^ w = alignUp x d := Nat.mod_eq_of_lt h

/-- The rounding of a nonzero word wraps to zero exactly when no multiple of `d` at or
above it is representable. -/
theorem alignUp_mod_two_pow_eq_zero_iff {w : ℕ} (hd : d.isPowerOfTwo) (hw : d < 2 ^ w)
    (hx₀ : 0 < x) (hx : x < 2 ^ w) :
    alignUp x d % 2 ^ w = 0 ↔ ¬ ∃ a < 2 ^ w, x ≤ a ∧ d ∣ a := by
  have hpos := pos_of_isPowerOfTwo hd
  have hle := alignUp_le_two_pow hd hw hx.le
  have hge := le_alignUp hpos x
  rw [← alignUp_lt_iff hpos]
  constructor
  · intro h hlt
    rw [alignUp_mod_two_pow_of_lt hlt] at h
    omega
  · intro h
    rw [le_antisymm hle (not_lt.1 h), Nat.mod_self]

/-- A word that is rounded already is left alone, also when the rounding wrapped. -/
theorem alignUp_mod_two_pow_idem {w : ℕ} (hd : d.isPowerOfTwo) (hw : d < 2 ^ w) (x : ℕ) :
    alignUp (alignUp x d % 2 ^ w) d % 2 ^ w = alignUp x d % 2 ^ w := by
  have hdvd : d ∣ alignUp x d % 2 ^ w :=
    (Nat.dvd_mod_iff (dvd_two_pow_of_lt hd hw)).2 (dvd_alignUp x d)
  rw [alignUp_eq_self (pos_of_isPowerOfTwo hd) hdvd, Nat.mod_mod]

theorem alignUp_mod_two_pow_eq_self_iff {w : ℕ} (hd : d.isPowerOfTwo) (hw : d < 2 ^ w)
    (hx : x < 2 ^ w) : alignUp x d % 2 ^ w = x ↔ d ∣ x := by
  constructor
  · intro h
    rw [← h]
    exact (Nat.dvd_mod_iff (dvd_two_pow_of_lt hd hw)).2 (dvd_alignUp x d)
  · intro h
    rw [alignUp_eq_self (pos_of_isPowerOfTwo hd) h, Nat.mod_eq_of_lt hx]

end SecmemAlloc
