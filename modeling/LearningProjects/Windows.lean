import Mathlib.Algebra.BigOperators.Group.List.Basic
import Mathlib.Algebra.Ring.Nat
import Mathlib.Tactic.Common

/-! # Cutting a stream into windows

A window starts where the one before it stopped and stops at the first element
that is far enough from its start. What a run cuts off so far grows at the end,
one element at a time.
-/

namespace LearningProjects.Windows

variable {α : Type*}

/-- A window holds the elements after its start, up to and with its stop. -/
structure Window (α : Type*) where
  start : α
  inside : List α
  stop : α
  deriving DecidableEq, Repr

def Window.size (w : Window α) : Nat := w.inside.length + 1

variable (far : α → α → Prop)

/-- The elements after `start` are cut into windows and a rest after `current`. -/
inductive Cut : α → List α → List (Window α) → α → List α → Prop where
  | rest {start rest} (near : ∀ x ∈ rest, ¬far start x) : Cut start rest [] start rest
  | window {w : Window α} {stream windows current rest} (near : ∀ x ∈ w.inside, ¬far w.start x)
      (stop : far w.start w.stop) (later : Cut w.stop stream windows current rest) :
      Cut w.start (w.inside ++ w.stop :: stream) (w :: windows) current rest

variable {far} {start current x : α} {stream rest : List α} {windows : List (Window α)}

theorem Cut.nil (far : α → α → Prop) (start : α) : Cut far start [] [] start [] :=
  .rest (by simp)

theorem Cut.keep (h : Cut far start stream windows current rest) (near : ¬far current x) :
    Cut far start (stream ++ [x]) windows current (rest ++ [x]) := by
  induction h with
  | rest kept =>
      refine .rest fun y member => ?_
      rw [List.mem_append, List.mem_singleton] at member
      cases member with
      | inl old => exact kept y old
      | inr new => exact new ▸ near
  | window kept stop _ ih =>
      rw [List.append_assoc, List.cons_append]
      exact .window kept stop (ih near)

theorem Cut.close (h : Cut far start stream windows current rest) (stop : far current x) :
    Cut far start (stream ++ [x]) (windows ++ [⟨current, rest, x⟩]) x [] := by
  induction h with
  | rest kept => exact .window (w := ⟨_, _, x⟩) kept stop (.nil far x)
  | window kept stopped _ ih =>
      rw [List.append_assoc, List.cons_append]
      exact .window kept stopped (ih stop)

theorem Cut.far_stop (h : Cut far start stream windows current rest) :
    ∀ w ∈ windows, far w.start w.stop := by
  induction h with
  | rest _ => simp
  | window _ stop _ ih => exact List.forall_mem_cons.mpr ⟨stop, ih⟩

/-- Every element after the start is in one window or in the rest. -/
theorem Cut.length (h : Cut far start stream windows current rest) :
    (windows.map Window.size).sum + rest.length = stream.length := by
  induction h with
  | rest _ => simp
  | window _ _ _ ih =>
      simp only [List.map_cons, List.sum_cons, List.length_append, List.length_cons, Window.size]
      omega

end LearningProjects.Windows
