/-!
Non-negative binary64 arithmetic on bit patterns. The pattern of a non-negative number grows
with the number, so patterns are compared in place of the numbers they stand for.
-/
namespace RegionStore.Binary64

/-- The quotient rounded to the nearest natural number, a tie to the even one. -/
def roundDiv (n d : Nat) : Nat :=
  let q := n / d
  let r := n % d
  if 2 * r < d then q else if d < 2 * r then q + 1 else q + q % 2

/-- The nearest number with a significand of 53 bits. -/
def roundNat (n : Nat) : Nat :=
  let dropped := n.log2 - 52
  roundDiv n (1 <<< dropped) <<< dropped

/-- The bit pattern nearest to `n / d`, for positive `n` and `d` whose quotient is in the
normal range. Both are brought to a common leading bit, so the scaled quotient lies strictly
between one half and two. -/
def quotient (n d : Nat) : Nat :=
  let x := n <<< d.log2
  let y := d <<< n.log2
  if y ≤ x then (n.log2 + 1022 - d.log2) <<< 52 + roundDiv (x <<< 52) y
  else (n.log2 + 1021 - d.log2) <<< 52 + roundDiv (x <<< 53) y

/-- The least whole number that is rounded to infinity. It lies halfway between the largest number
there is and the next power of two, where a tie goes up. -/
def infiniteFrom : Nat := ((1 <<< 54) - 1) <<< 970

theorem le_roundDiv {k n d : Nat} (positive : 0 < d) (h : k * d ≤ n) : k ≤ roundDiv n d := by
  have floor : k ≤ n / d := (Nat.le_div_iff_mul_le positive).2 h
  unfold roundDiv
  dsimp only
  split
  · exact floor
  · split <;> omega

theorem shiftLeft_pos {n : Nat} (positive : 0 < n) (k : Nat) : 0 < n <<< k := by
  rw [Nat.shiftLeft_eq]
  exact Nat.mul_pos positive (Nat.two_pow_pos k)

theorem roundNat_pos {n : Nat} (positive : 0 < n) : 0 < roundNat n := by
  have lower : 1 * 1 <<< (n.log2 - 52) ≤ n := by
    rw [Nat.one_mul, Nat.one_shiftLeft]
    exact Nat.le_trans (Nat.pow_le_pow_right (by decide) (Nat.sub_le _ _))
      (Nat.log2_self_le (by omega))
  have := le_roundDiv (shiftLeft_pos Nat.one_pos (n.log2 - 52)) lower
  exact shiftLeft_pos this _

/-- The significand of a quotient keeps its leading bit, so the pattern is never that of zero. -/
theorem quotient_pos {n d : Nat} (hn : 0 < n) (hd : 0 < d) : 0 < quotient n d := by
  have hy : 0 < d <<< n.log2 := shiftLeft_pos hd _
  unfold quotient
  dsimp only
  split
  · next h =>
    have : 1 ≤ roundDiv (n <<< d.log2 <<< 52) (d <<< n.log2) := le_roundDiv hy (by
      rw [Nat.one_mul]
      exact Nat.le_trans h (by rw [Nat.shiftLeft_eq _ 52]; omega))
    omega
  · have low : 2 ^ n.log2 ≤ n := Nat.log2_self_le (by omega)
    have high : d < 2 ^ (d.log2 + 1) := Nat.lt_log2_self
    have : 1 ≤ roundDiv (n <<< d.log2 <<< 53) (d <<< n.log2) := le_roundDiv hy (by
      have scaled : d * 2 ^ n.log2 ≤ 2 ^ (d.log2 + 1) * n :=
        Nat.mul_le_mul (Nat.le_of_lt high) low
      have doubled : 2 ^ (d.log2 + 1) * n = n * 2 ^ d.log2 * 2 := by
        rw [Nat.pow_succ]
        ac_rfl
      rw [Nat.one_mul, Nat.shiftLeft_eq _ 53, Nat.shiftLeft_eq, Nat.shiftLeft_eq]
      omega)
    omega

end RegionStore.Binary64
