import ReadThrough.Geometry

/-!
# Numbers of 64 bits

A number of 64 bits is a natural number below `Geometry.sizeLimit`. The operations of `Word` have a
result only if it is the exact one and such a number again, so a computation in words that has a
result has lost nothing on the way: `Word.add?_eq_some_iff` and its like say what that takes.
-/

namespace ReadThrough

/-- Powers of two grow with their exponents. -/
theorem one_shiftLeft_le {e f : Nat} (h : e ≤ f) : 1 <<< e ≤ 1 <<< f := by
  rw [Nat.one_shiftLeft, Nat.one_shiftLeft]
  exact Nat.pow_le_pow_right Nat.two_pos h

/-- The number, if 64 bits can hold it. -/
def word? (n : Nat) : Option Nat := if n < Geometry.sizeLimit then some n else none

/-- A number below `2 ^ 64` is a word, and no other is. -/
theorem word?_eq_some_iff {n m : Nat} : word? n = some m ↔ n < Geometry.sizeLimit ∧ n = m := by
  unfold word?
  split
  · rename_i hlt
    simp [hlt]
  · rename_i hge
    simp [hge]

/-- Going on with a number that has to be a word. -/
theorem word?_bind {α : Type} (n : Nat) (rest : Nat → Option α) :
    (word? n).bind rest = if n < Geometry.sizeLimit then rest n else none := by
  unfold word?
  split <;> rfl

namespace Word

variable {a b m : Nat}

/-! ## Sums, differences and products -/

/-- Addition in words. -/
def add? (a b : Nat) : Option Nat := word? (a + b)

/-- Subtraction in words. -/
def sub? (a b : Nat) : Option Nat := if b ≤ a then some (a - b) else none

/-- Multiplication in words. -/
def mul? (a b : Nat) : Option Nat := word? (a * b)

theorem add?_eq_some_iff : add? a b = some m ↔ a + b < Geometry.sizeLimit ∧ a + b = m :=
  word?_eq_some_iff

/-- Taking away no more than there is does not overflow. -/
theorem sub?_of_le (h : b ≤ a) : sub? a b = some (a - b) := if_pos h

theorem mul?_eq_some_iff : mul? a b = some m ↔ a * b < Geometry.sizeLimit ∧ a * b = m :=
  word?_eq_some_iff

/-! ## Shifts -/

/-- A shift to the left by fewer than 64 places that shifts no bit out. -/
def shl? (a places : Nat) : Option Nat := if places < 64 then word? (a <<< places) else none

/-- A shift to the right by fewer than 64 places. -/
def shr? (a places : Nat) : Option Nat := if places < 64 then some (a >>> places) else none

/-- A shift that loses no bits. -/
theorem shl?_of_lt {places : Nat} (hplaces : places < 64)
    (h : a <<< places < Geometry.sizeLimit) : shl? a places = some (a <<< places) := by
  rw [shl?, if_pos hplaces, word?_eq_some_iff]
  exact ⟨h, rfl⟩

/-- A shift to the right by fewer places than a word has. -/
theorem shr?_of_lt {places : Nat} (hplaces : places < 64) : shr? a places = some (a >>> places) :=
  if_pos hplaces

/-- A power of two that 64 bits can hold. -/
theorem one_shl?_of_lt {places : Nat} (hplaces : places < 64) :
    shl? 1 places = some (1 <<< places) := by
  have hle : 1 <<< places ≤ 1 <<< 63 := one_shiftLeft_le (Nat.le_of_lt_succ hplaces)
  exact shl?_of_lt hplaces (Nat.lt_of_le_of_lt hle (by decide))

/-! ## Rounding -/

/-- The quotient rounded up. -/
def divCeil? (a b : Nat) : Option Nat := if a % b = 0 then some (a / b) else add? (a / b) 1

/-- The least power of two that is at least `a`. -/
def nextPowerOfTwo? (a : Nat) : Option Nat := word? (1 <<< ceilLog2 a)

/-- The number of zeros below the lowest one among the given number of bits. -/
def trailingZeros : (bits a : Nat) → Nat
  | 0, _ => 0
  | bits + 1, a => if a % 2 = 1 then 0 else trailingZeros bits (a / 2) + 1

/-- Rounding a quotient up does not exceed the words if there is something to divide by. -/
theorem divCeil?_eq (hb : 1 < b) (ha : a < Geometry.sizeLimit) :
    divCeil? a b = some ((a + (b - 1)) / b) := by
  have hsplit := Nat.div_add_mod a b
  have hmod := Nat.mod_lt a (Nat.lt_of_succ_lt hb)
  unfold divCeil?
  split
  · rename_i hzero
    have hquotient : (a + (b - 1)) / b = a / b := by
      apply Nat.div_eq_of_lt_le
      · rw [Nat.mul_comm]
        omega
      · rw [Nat.succ_mul, Nat.mul_comm]
        omega
    rw [hquotient]
  · rename_i hrest
    have hquotient : (a + (b - 1)) / b = a / b + 1 := by
      apply Nat.div_eq_of_lt_le
      · rw [Nat.succ_mul, Nat.mul_comm]
        omega
      · rw [Nat.succ_mul, Nat.succ_mul, Nat.mul_comm]
        omega
    have hle : a / b + 1 ≤ a := by
      have hdouble : 2 * (a / b) ≤ b * (a / b) := Nat.mul_le_mul_right _ hb
      omega
    rw [hquotient, add?_eq_some_iff]
    exact ⟨by omega, rfl⟩

/-- A power of two has as many trailing zeros as its exponent says. -/
theorem trailingZeros_one_shiftLeft {bits e : Nat} (h : e ≤ bits) :
    trailingZeros bits (1 <<< e) = e := by
  induction bits generalizing e with
  | zero => rw [Nat.le_zero.1 h, trailingZeros]
  | succ bits ih =>
    rw [trailingZeros]
    rcases e with _ | e
    · rfl
    · have hdouble : 1 <<< (e + 1) = 2 * 1 <<< e := by
        rw [Nat.shiftLeft_succ]
      rw [hdouble, if_neg (by omega), Nat.mul_div_cancel_left _ Nat.two_pos,
        ih (Nat.le_of_succ_le_succ h)]

end Word

end ReadThrough
