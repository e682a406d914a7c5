/-!
# Rounding up

`ceilLog2 n` is the exponent of the least power of two that is at least `n`, and `roundUp n step`
the least multiple of `step` that is at least `n`. The lemmas say so: the rounded value is not below
the number, and nothing smaller of the same form is.
-/

namespace ReadThrough

/-! ## Powers of two -/

/-- The exponent of the least power of two that is at least `n`. -/
def ceilLog2 (n : Nat) : Nat :=
  if n ≤ 1 then 0 else (n - 1).log2 + 1

theorem le_shiftLeft_ceilLog2 (n : Nat) : n ≤ 1 <<< ceilLog2 n := by
  rw [Nat.one_shiftLeft]
  unfold ceilLog2
  split
  · simpa using ‹n ≤ 1›
  · have := Nat.lt_log2_self (n := n - 1)
    omega

/-- No smaller power of two reaches `n`. -/
theorem ceilLog2_le_of_le_shiftLeft {n e : Nat} (h : n ≤ 1 <<< e) : ceilLog2 n ≤ e := by
  rw [Nat.one_shiftLeft] at h
  unfold ceilLog2
  split
  · exact Nat.zero_le e
  · have hlt : (n - 1).log2 < e := (Nat.log2_lt (by omega)).2 (by omega)
    omega

/-! ## Multiples -/

/-- The least multiple of `step` that is at least `n`. -/
def roundUp (n step : Nat) : Nat :=
  (n + (step - 1)) / step * step

theorem dvd_roundUp (n step : Nat) : step ∣ roundUp n step :=
  Nat.dvd_mul_left step _

theorem le_roundUp {n step : Nat} (h : 0 < step) : n ≤ roundUp n step := by
  have hlt := Nat.lt_div_mul_add (a := n + (step - 1)) h
  unfold roundUp
  omega

/-- No smaller multiple of `step` reaches `n`. -/
theorem roundUp_le_of_dvd {n step m : Nat} (h : 0 < step) (hd : step ∣ m) (hn : n ≤ m) :
    roundUp n step ≤ m := by
  obtain ⟨k, rfl⟩ := hd
  unfold roundUp
  rw [Nat.mul_comm step k]
  refine Nat.mul_le_mul_right step (Nat.le_of_lt_succ ((Nat.div_lt_iff_lt_mul h).2 ?_))
  rw [Nat.succ_mul, Nat.mul_comm k step]
  omega

end ReadThrough
