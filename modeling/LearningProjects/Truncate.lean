import Mathlib.Algebra.Order.Floor.Ring
import Mathlib.Data.Rat.Floor
import Mathlib.Tactic.Linarith

/-! # Numbers as machine integers

A conversion to a signed integer cuts off the fraction, and stops the program where
the integer does not fit. So does the absolute value of the least integer.
-/

namespace LearningProjects.Truncate

/-- Towards zero. -/
def truncate (x : Rat) : Int := if 0 ≤ x then ⌊x⌋ else ⌈x⌉

/-- The conversion to `bits` bits. -/
def toInt (bits : Nat) (x : Rat) : Option Int :=
  if -2 ^ (bits - 1) ≤ truncate x ∧ truncate x < 2 ^ (bits - 1) then some (truncate x) else none

def abs (bits : Nat) (n : Int) : Option Int :=
  if n = -2 ^ (bits - 1) then none else some |n|

variable {x : Rat} {bits : Nat}

theorem truncate_of_nonneg (h : 0 ≤ x) : truncate x = ⌊x⌋ := if_pos h

theorem truncate_nonneg (h : 0 ≤ x) : 0 ≤ truncate x := by
  rw [truncate_of_nonneg h]
  exact Int.floor_nonneg.mpr h

theorem truncate_neg (x : Rat) : truncate (-x) = -truncate x := by
  unfold truncate
  rcases lt_trichotomy x 0 with below | rfl | above
  · rw [if_pos (by linarith), if_neg (not_le.mpr below), Int.floor_neg]
  · simp
  · rw [if_neg (by linarith), if_pos above.le, Int.ceil_neg]

theorem abs_truncate (x : Rat) : |truncate x| = ⌊|x|⌋ := by
  rcases le_total 0 x with nonneg | nonpos
  · rw [abs_of_nonneg (truncate_nonneg nonneg), truncate_of_nonneg nonneg, abs_of_nonneg nonneg]
  · have flipped : 0 ≤ -x := neg_nonneg.mpr nonpos
    rw [← abs_neg, ← truncate_neg, abs_of_nonneg (truncate_nonneg flipped),
      truncate_of_nonneg flipped, abs_of_nonpos nonpos]

theorem abs_truncate_lt_iff (x : Rat) (n : Int) : |truncate x| < n ↔ |x| < n := by
  rw [abs_truncate, Int.floor_lt]

theorem truncate_pos_iff (x : Rat) : 0 < truncate x ↔ 1 ≤ x := by
  rcases le_total 0 x with nonneg | nonpos
  · rw [truncate_of_nonneg nonneg, Int.floor_pos]
  · have flipped := truncate_nonneg (neg_nonneg.mpr nonpos)
    rw [truncate_neg] at flipped
    exact ⟨fun positive => absurd positive (by omega), fun large => absurd large (by linarith)⟩

theorem truncate_neg_iff (x : Rat) : truncate x < 0 ↔ x ≤ -1 := by
  rw [← Int.neg_pos, ← truncate_neg, truncate_pos_iff]
  exact le_neg

/-! ## Where the program stops -/

theorem toInt_of_abs_lt (h : |x| < 2 ^ (bits - 1)) : toInt bits x = some (truncate x) := by
  have inside := (abs_truncate_lt_iff x (2 ^ (bits - 1))).mpr (by exact_mod_cast h)
  rw [abs_lt] at inside
  exact if_pos ⟨inside.1.le, inside.2⟩

theorem abs_of_abs_lt (h : |x| < 2 ^ (bits - 1)) :
    abs bits (truncate x) = some |truncate x| := by
  have inside := (abs_truncate_lt_iff x (2 ^ (bits - 1))).mpr (by exact_mod_cast h)
  rw [abs_lt] at inside
  exact if_neg inside.1.ne'

/-- Out of range either the conversion stops or the absolute value after it. -/
theorem abs_toInt_of_le_abs (h : 2 ^ (bits - 1) ≤ |x|) : (toInt bits x).bind (abs bits) = none := by
  have outside : ¬|truncate x| < 2 ^ (bits - 1) := by
    rw [abs_truncate_lt_iff]
    exact_mod_cast not_lt.mpr h
  unfold toInt
  split
  · rename_i fits
    have least : truncate x = -2 ^ (bits - 1) := by
      rw [abs_lt] at outside
      omega
    exact if_pos least
  · rfl

end LearningProjects.Truncate
