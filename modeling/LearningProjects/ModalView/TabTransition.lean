import LearningProjects.Machine
import Mathlib.Algebra.Field.Rat
import Mathlib.Algebra.Order.Field.Basic
import Mathlib.Algebra.Order.Ring.Rat
import Mathlib.Tactic.Linarith
import Mathlib.Tactic.NormNum

/-! # The interactive tab transition

The controller of a transition is a target of the pan gesture and drives the
transition by it. Its guard against turning back asks for a translation to the
right of zero and an initial one to the right of zero, of which one is to the left:
it is never true, and a transition goes on in either direction.
-/

namespace LearningProjects.ModalView.TabTransition

inductive GestureState where
  | possible
  | began
  | changed
  | ended
  | cancelled
  | failed
  deriving DecidableEq, Repr

/-- What the gesture reports. `translation` is its `x`, which is all that is read. -/
structure Pan where
  state : GestureState
  translation : Rat
  deriving DecidableEq, Repr

/-- Calls of the percent-driven transition. -/
inductive Call where
  | update (percentComplete : Rat)
  | finish
  | cancel
  deriving DecidableEq, Repr

/-- The transition's context is known by the width of its container. `calls` is a log,
    and `isOver` says that the gesture has ended. -/
structure TabbarInteractionTransitionController where
  transitionContext : Option Rat
  initTransitionInContainer : Rat
  isTarget : Bool
  calls : List Call
  isOver : Bool
  deriving DecidableEq, Repr

namespace TabbarInteractionTransitionController

def start : TabbarInteractionTransitionController := ⟨none, 0, true, [], false⟩

def startInteractiveTransition (width translation : Rat)
    (s : TabbarInteractionTransitionController) : TabbarInteractionTransitionController :=
  { s with transitionContext := some width, initTransitionInContainer := translation }

def percent (nowTransition : Rat) (s : TabbarInteractionTransitionController) : Rat :=
  match s.transitionContext with
  | none => 0
  | some width =>
      -- the commas of the source bind weaker than its `||`
      if 0 < nowTransition ∧ (s.initTransitionInContainer < 0 ∨ nowTransition < 0) ∧
          0 < s.initTransitionInContainer then -1
      else |nowTransition| / width

def call (call : Call) (s : TabbarInteractionTransitionController) :
    TabbarInteractionTransitionController :=
  { s with calls := s.calls ++ [call] }

def paned (sender : Pan) (s : TabbarInteractionTransitionController) :
    TabbarInteractionTransitionController :=
  match sender.state with
  | .began => s
  | .changed =>
      let transitionPercent := s.percent sender.translation
      if transitionPercent < 0 then { s.call .cancel with isTarget := false }
      else s.call (.update transitionPercent)
  | .ended => if s.percent sender.translation ≥ 4 / 10 then s.call .finish else s.call .cancel
  | _ => s.call .cancel

end TabbarInteractionTransitionController

open TabbarInteractionTransitionController

/-- The gesture tells its targets, until it ends or is cancelled. -/
def machine : Machine TabbarInteractionTransitionController Pan where
  step s pan :=
    if s.isOver then none
    else
      let t := if s.isTarget then s.paned pan else s
      some { t with isOver := pan.state ≠ .began ∧ pan.state ≠ .changed }

section Direction

variable (width initial : Rat)

/-- On the other side of zero than the initial translation. -/
def Opposite (translation : Rat) : Prop := translation * initial < 0

def Reverses (pan : Pan) : Prop := pan.state = .changed ∧ Opposite initial pan.translation

/-- What the calls for a pan should be, after those of `history`. -/
structure Answers (history : List Pan) (pan : Pan) (calls : List Call) : Prop where
  cancelled : (∀ before ∈ history, ¬Reverses initial before) → Reverses initial pan →
    calls = [.cancel]
  never : (∃ before ∈ history, Reverses initial before) → ∀ call ∈ calls, call = .cancel
  finish : .finish ∈ calls → pan.state = .ended ∧ 0 < pan.translation * initial ∧
    4 / 10 * width ≤ |pan.translation|

def Follows (s : TabbarInteractionTransitionController × List Pan) (pan : Pan)
    (t : TabbarInteractionTransitionController × List Pan) : Prop :=
  ∃ calls, t.1.calls = s.1.calls ++ calls ∧ Answers width initial s.2 pan calls

/-- The pan does not turn back, and ends far enough only on its own side. -/
structure Forward (pan : Pan) : Prop where
  changed : pan.state = .changed → ¬Opposite initial pan.translation
  ended : pan.state = .ended → 4 / 10 * width ≤ |pan.translation| → 0 < pan.translation * initial

/-- A started transition, whose gesture has not turned back. -/
structure Inv (s : TabbarInteractionTransitionController) (history : List Pan) : Prop where
  forward : ∀ pan ∈ history, ¬Reverses initial pan
  transitionContext : s.transitionContext = some width
  isTarget : s.isTarget = true

end Direction

section Steps

variable {width initial : Rat} {s t : TabbarInteractionTransitionController} {history : List Pan}
  {pan : Pan}

/-- The guard of `percent` is never true. -/
theorem percent_eq (known : s.transitionContext = some width) (x : Rat) :
    s.percent x = |x| / width := by
  have guard : ¬(0 < x ∧ (s.initTransitionInContainer < 0 ∨ x < 0) ∧
      0 < s.initTransitionInContainer) := by
    rintro ⟨right, left | left, initial⟩ <;> linarith
  simp only [percent, known, if_neg guard]

/-- What a pan calls. -/
def answer (width : Rat) (pan : Pan) : List Call :=
  match pan.state with
  | .began => []
  | .changed => [.update (|pan.translation| / width)]
  | .ended => if |pan.translation| / width ≥ 4 / 10 then [.finish] else [.cancel]
  | _ => [.cancel]

theorem paned_spec (known : s.transitionContext = some width) (wide : 0 < width) :
    s.paned pan = { s with calls := s.calls ++ answer width pan } := by
  unfold TabbarInteractionTransitionController.paned answer
  have nonneg : ¬|pan.translation| / width < 0 :=
    not_lt.mpr (div_nonneg (abs_nonneg _) wide.le)
  cases pan.state with
  | possible | cancelled | failed => rfl
  | began => simp
  | changed => simp only [percent_eq known, if_neg nonneg, call]
  | ended =>
      simp only [percent_eq known, call]
      split <;> rfl

/-- The calls for a pan are right exactly if it goes forward. -/
theorem answers_iff (wide : 0 < width) (forward : ∀ before ∈ history, ¬Reverses initial before) :
    Answers width initial history pan (answer width pan) ↔ Forward width initial pan := by
  have never : ¬∃ before ∈ history, Reverses initial before := by simpa using forward
  have enough : |pan.translation| / width ≥ 4 / 10 ↔ 4 / 10 * width ≤ |pan.translation| :=
    le_div_iff₀ wide
  constructor
  · rintro ⟨cancelled, -, finish⟩
    constructor
    · intro changed opposite
      have called := cancelled forward ⟨changed, opposite⟩
      simp [answer, changed] at called
    · intro ended far
      refine (finish ?_).2.1
      simp [answer, ended, enough.mpr far]
  · rintro ⟨changed, ended⟩
    refine ⟨fun _ reverses => absurd reverses.2 (changed reverses.1),
      fun before => absurd before never, ?_⟩
    intro finish
    cases state : pan.state with
    | ended =>
        by_cases far : |pan.translation| / width ≥ 4 / 10
        · exact ⟨rfl, ended state (enough.mp far), enough.mp far⟩
        · simp [answer, state, far] at finish
    | possible | began | changed | cancelled | failed => simp [answer, state] at finish

/-- A step makes the calls of its pan. -/
theorem Inv.step (h : Inv width initial s history) (wide : 0 < width)
    (stepped : machine.step s pan = some t) :
    t.calls = s.calls ++ answer width pan ∧ t.transitionContext = some width ∧
      t.isTarget = true := by
  simp only [machine, h.isTarget, if_true, paned_spec h.transitionContext wide,
    Option.ite_none_left_eq_some, Option.some.injEq] at stepped
  obtain ⟨-, rfl⟩ := stepped
  exact ⟨rfl, h.transitionContext, rfl⟩

theorem Inv.follows_iff (h : Inv width initial s history) (wide : 0 < width)
    (stepped : machine.step s pan = some t) :
    Follows width initial (s, history) pan (t, history ++ [pan]) ↔ Forward width initial pan := by
  rw [← answers_iff wide h.forward, Follows, (h.step wide stepped).1]
  constructor
  · rintro ⟨calls, made, answers⟩
    rwa [List.append_cancel_left made]
  · exact fun answers => ⟨_, rfl, answers⟩

theorem Inv.next (h : Inv width initial s history) (wide : 0 < width)
    (stepped : machine.step s pan = some t) (forward : Forward width initial pan) :
    Inv width initial t (history ++ [pan]) := by
  obtain ⟨-, transitionContext, isTarget⟩ := h.step wide stepped
  refine ⟨fun before member => ?_, transitionContext, isTarget⟩
  rw [List.mem_append, List.mem_singleton] at member
  cases member with
  | inl old => exact h.forward before old
  | inr new => exact fun reverses => forward.changed (new ▸ reverses.1) (new ▸ reverses.2)

end Steps

/-- In every run of a started transition: it follows the finger exactly if no pan
    turns back and it ends far enough only on the side where it began. -/
theorem follows_iff_forward (width initial : Rat) (wide : 0 < width) (pans : List Pan) :
    machine.recording.Each (Follows width initial)
        (start.startInteractiveTransition width initial, []) pans ↔
      machine.recording.Each (fun _ pan _ => Forward width initial pan)
        (start.startInteractiveTransition width initial, []) pans := by
  refine Machine.each_congr (I := fun s => Inv width initial s.1 s.2) ?_ ?_
    ⟨by simp, rfl, rfl⟩ pans
  · rintro s pan ⟨t, history⟩ inv stepped follows
    obtain ⟨taken, rfl⟩ := Machine.recording_step stepped
    exact inv.next wide taken ((inv.follows_iff wide taken).mp follows)
  · rintro s pan ⟨t, history⟩ inv stepped
    obtain ⟨taken, rfl⟩ := Machine.recording_step stepped
    exact inv.follows_iff wide taken

/-- A swipe to the right by which the finger comes back, and ends far to the left. -/
theorem turned_back_finished :
    ¬machine.recording.Each (Follows 100 10) (start.startInteractiveTransition 100 10, [])
      [⟨.changed, -50⟩, ⟨.ended, -50⟩] := by
  intro all
  obtain ⟨⟨calls, made, answers⟩, -⟩ := all _ rfl
  have cancelled := answers.cancelled (by simp) ⟨rfl, by norm_num [Opposite]⟩
  rw [cancelled] at made
  norm_num [start, startInteractiveTransition, TabbarInteractionTransitionController.paned, percent,
    call] at made
  cases made

theorem follows_forward_swipe :
    machine.recording.Each (Follows 100 10) (start.startInteractiveTransition 100 10, [])
      [⟨.began, 10⟩, ⟨.changed, 60⟩, ⟨.changed, 30⟩, ⟨.ended, 50⟩] := by
  refine (follows_iff_forward 100 10 (by norm_num) _).mpr ?_
  refine Machine.each_of_events (I := fun _ => True) (A := Forward 100 10)
    (fun _ _ _ _ forward _ => ⟨forward, trivial⟩) trivial ?_
  simp only [List.forall_mem_cons]
  exact ⟨⟨nofun, nofun⟩, ⟨fun _ => by norm_num [Opposite], nofun⟩,
    ⟨fun _ => by norm_num [Opposite], nofun⟩, ⟨nofun, fun _ _ => by norm_num⟩, by simp⟩

end LearningProjects.ModalView.TabTransition
