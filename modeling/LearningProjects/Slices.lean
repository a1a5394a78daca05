import Mathlib.Algebra.Ring.Nat
import Mathlib.Data.List.Basic
import Mathlib.Tactic.Common

/-! # Pieces of a list

Pieces are given by offset and size. Pieces that tile an interval, each starting
where the previous one ends, put the interval of the list together again.
-/

namespace LearningProjects.Slices

variable {α : Type*}

def slice (xs : List α) (offset size : Nat) : List α := (xs.drop offset).take size

/-- The pieces lie end to end from `start` to `stop`. -/
def Tiles (start : Nat) : List (Nat × Nat) → Nat → Prop
  | [], stop => start = stop
  | piece :: pieces, stop => piece.1 = start ∧ Tiles (start + piece.2) pieces stop

theorem slice_all (xs : List α) : slice xs 0 xs.length = xs := by
  simp [slice]

theorem slice_append_slice (xs : List α) (offset first second : Nat) :
    slice xs offset first ++ slice xs (offset + first) second =
      slice xs offset (first + second) := by
  rw [slice, slice, slice, List.take_add, List.drop_drop]

namespace Tiles

theorem append {start middle stop : Nat} {front rest : List (Nat × Nat)}
    (first : Tiles start front middle) (second : Tiles middle rest stop) :
    Tiles start (front ++ rest) stop := by
  induction front generalizing start with
  | nil =>
      obtain rfl : start = middle := first
      exact second
  | cons piece front ih => exact ⟨first.1, ih first.2⟩

theorem sum_sizes {start stop : Nat} {pieces : List (Nat × Nat)} (tiles : Tiles start pieces stop) :
    start + (pieces.map Prod.snd).sum = stop := by
  induction pieces generalizing start with
  | nil => exact tiles
  | cons piece pieces ih =>
      rw [List.map_cons, List.sum_cons, ← Nat.add_assoc]
      exact ih tiles.2

/-- Pieces that lie end to end put the list between their ends together. -/
theorem flatMap_slice {start stop : Nat} {pieces : List (Nat × Nat)}
    (tiles : Tiles start pieces stop) (xs : List α) :
    (pieces.flatMap fun piece => slice xs piece.1 piece.2) = slice xs start (stop - start) := by
  induction pieces generalizing start with
  | nil =>
      obtain rfl : start = stop := tiles
      simp [slice]
  | cons piece pieces ih =>
      obtain ⟨rfl, rest⟩ := tiles
      have forward := rest.sum_sizes
      rw [List.flatMap_cons, ih rest, slice_append_slice]
      congr 1
      omega

/-- Pieces of one width, one after the other. -/
theorem uniform (width count : Nat) :
    Tiles 0 ((List.range count).map fun i => (i * width, width)) (count * width) := by
  induction count with
  | zero => simp [Tiles]
  | succ count ih =>
      rw [List.range_succ, List.map_append]
      exact ih.append ⟨rfl, (Nat.succ_mul count width).symm⟩

end Tiles

end LearningProjects.Slices
