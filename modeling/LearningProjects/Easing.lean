import Mathlib.Analysis.Convex.Segment
import Mathlib.Tactic.Linarith
import Mathlib.Tactic.Positivity
import Mathlib.Topology.Order.OrderClosed

/-! # Easing functions

An easing function takes the time of an animation to the part of the way that is
done. Bounces are made of arcs: parabolas which leave the end of the way and come
back to it.
-/

namespace LearningProjects.Easing

variable {K : Type*} [Field K] [LinearOrder K] [IsStrictOrderedRing K]

/-- From the start to the end, never before the one or beyond the other. -/
structure Eases (f : K → K) : Prop where
  mem : ∀ t ∈ Set.Icc (0 : K) 1, f t ∈ Set.Icc (0 : K) 1
  zero : f 0 = 0
  one : f 1 = 1

section Motion

variable {E : Type*} [AddCommGroup E] [Module K E] {f : K → K} {t : K}

theorem Eases.mem_segment (h : Eases f) (time : t ∈ Set.Icc (0 : K) 1) (a b : E) :
    AffineMap.lineMap a b (f t) ∈ segment K a b := by
  rw [segment_eq_image_lineMap]
  exact Set.mem_image_of_mem _ (h.mem t time)

omit [IsStrictOrderedRing K] in
theorem Eases.arrives (h : Eases f) (a b : E) : AffineMap.lineMap a b (f 1) = b := by
  rw [h.one, AffineMap.lineMap_apply_one]

end Motion

section Arcs

/-- Leaves the end of the way at `a` and is back at `b`. -/
def arc (k a b t : K) : K := 1 + k * ((t - a) * (t - b))

variable {k a b t : K}

omit [LinearOrder K] [IsStrictOrderedRing K] in
@[simp] theorem arc_left (k a b : K) : arc k a b a = 1 := by simp [arc]

omit [LinearOrder K] [IsStrictOrderedRing K] in
@[simp] theorem arc_right (k a b : K) : arc k a b b = 1 := by simp [arc]

/-- Half way between its ends an arc is lowest. -/
theorem arc_mem_Icc (up : 0 ≤ k) (low : k * (b - a) ^ 2 ≤ 4) (time : t ∈ Set.Icc a b) :
    arc k a b t ∈ Set.Icc (0 : K) 1 := by
  obtain ⟨after, before⟩ := time
  constructor
  · have lowest : arc k a b t = 1 - k * (b - a) ^ 2 / 4 + k * (t - (a + b) / 2) ^ 2 := by
      unfold arc
      ring
    have rest : 0 ≤ k * (t - (a + b) / 2) ^ 2 := by positivity
    linarith
  · have below : k * ((t - a) * (b - t)) ≥ 0 :=
      mul_nonneg up (mul_nonneg (sub_nonneg.mpr after) (sub_nonneg.mpr before))
    unfold arc
    linarith

end Arcs

/-- Two functions that meet where one takes over from the other. -/
theorem continuous_takeover {α β : Type*} [LinearOrder α] [TopologicalSpace α]
    [OrderClosedTopology α] [TopologicalSpace β] {f g : α → β} {a : α} (first : Continuous f)
    (second : Continuous g) (meet : f a = g a) :
    Continuous fun t => if t < a then f t else g t := by
  have pieces := second.if_le first continuous_const continuous_id (fun t (at_a : a = t) => by
    rw [← at_a, meet])
  simpa only [← not_lt, ite_not, id_eq] using pieces

end LearningProjects.Easing
