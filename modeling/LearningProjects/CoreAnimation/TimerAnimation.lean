import LearningProjects.Easing
import LearningProjects.Machine
import Mathlib.Analysis.Normed.Field.Lemmas
import Mathlib.Analysis.Normed.Group.AddTorsor
import Mathlib.Tactic.NormNum

/-! # The dropped ball

A timer or a display link moves the ball from `fromValue` to `toValue` in steps of a
sixtieth of a second, on a bouncing curve. Both drivers share the animation's time:
a restart with one of them leaves the other one running. Times and places are exact
here.
-/

namespace LearningProjects.CoreAnimation.TimerAnimation

open Easing

/-- `x` and `y`. -/
abbrev CGPoint := Rat × Rat

/-- The property of a driver, and those of its timers that still fire. -/
structure Driver where
  property : Option Nat
  scheduled : List Nat
  deriving DecidableEq, Repr

structure TimerAnimationController where
  center : CGPoint
  timer : Driver
  link : Driver
  duration : Rat
  timeOffset : Rat
  fromValue : CGPoint
  toValue : CGPoint
  /-- Timers and links made so far. -/
  allocated : Nat
  deriving DecidableEq, Repr

/-- `timer!` or `link!` of a driver that is nil. -/
inductive Trap where
  | unwrappedNil
  deriving DecidableEq, Repr

inductive Event where
  | animate (nsTimer : Bool) (width height : Rat)
  /-- A timer or a link of the run loop fires. -/
  | fires (nsTimer : Bool) (id : Nat)
  deriving DecidableEq, Repr

namespace Driver

/-- The old timer is invalidated, and a new one is scheduled. -/
def restart (id : Nat) (d : Driver) : Driver :=
  match d.property with
  | some old => ⟨some id, d.scheduled.erase old ++ [id]⟩
  | none => ⟨some id, d.scheduled ++ [id]⟩

/-- Invalidated and set to nil. -/
def stop (d : Driver) : Except Trap Driver :=
  match d.property with
  | some id => .ok ⟨none, d.scheduled.erase id⟩
  | none => .error .unwrappedNil

end Driver

def bounceEaseOut (t : Rat) : Rat :=
  if t < 4 / 11 then 121 * t * t / 16
  else if t < 8 / 11 then 363 / 40 * t * t - 99 / 10 * t + 17 / 5
  else if t < 9 / 10 then 4356 / 361 * t * t - 35442 / 1805 * t + 16061 / 1805
  else 54 / 5 * t * t - 513 / 25 * t + 268 / 25

def interpolateValue (fromValue toValue time : Rat) : Rat :=
  (toValue - fromValue) * time + fromValue

def interpolate (fromValue toValue : CGPoint) (time : Rat) : CGPoint :=
  (interpolateValue fromValue.1 toValue.1 time, interpolateValue fromValue.2 toValue.2 time)

namespace TimerAnimationController

def start : TimerAnimationController := ⟨(0, 0), ⟨none, []⟩, ⟨none, []⟩, 1, 0, (0, 0), (0, 0), 0⟩

def driver (nsTimer : Bool) (s : TimerAnimationController) : Driver :=
  if nsTimer then s.timer else s.link

def withDriver (nsTimer : Bool) (d : Driver) (s : TimerAnimationController) :
    TimerAnimationController :=
  if nsTimer then { s with timer := d } else { s with link := d }

/-- `width` is the view's, `height` that of the ball's container. -/
def animate (nsTimer : Bool) (width height : Rat) (s : TimerAnimationController) :
    TimerAnimationController :=
  let s := { s with
    center := (width / 2, 30)
    duration := 1
    timeOffset := 0
    fromValue := (width / 2, 30)
    toValue := (width / 2, height - 20)
    allocated := s.allocated + 1 }
  s.withDriver nsTimer ((s.driver nsTimer).restart s.allocated)

/-- A sixtieth of a second later. -/
def moved (s : TimerAnimationController) : TimerAnimationController :=
  let timeOffset := min (s.timeOffset + 1 / 60) s.duration
  let time := bounceEaseOut (timeOffset / s.duration)
  let position := interpolate s.fromValue s.toValue time
  { s with timeOffset := timeOffset, center := position }

/-- What both drivers do when they fire. -/
def advance (nsTimer : Bool) (s : TimerAnimationController) :
    Except Trap TimerAnimationController :=
  let s := s.moved
  if s.timeOffset ≥ s.duration then
    (s.driver nsTimer).stop.map fun d => s.withDriver nsTimer d
  else .ok s

def stepFunc : TimerAnimationController → Except Trap TimerAnimationController := advance true

def displayLinkAction : TimerAnimationController → Except Trap TimerAnimationController :=
  advance false

end TimerAnimationController

open TimerAnimationController

def machine : Machine (Except Trap TimerAnimationController) Event where
  step
    | .error _, _ => none
    | .ok s, .animate nsTimer width height => some (.ok (s.animate nsTimer width height))
    | .ok s, .fires nsTimer id =>
        if id ∈ (s.driver nsTimer).scheduled then
          some (if nsTimer then s.stepFunc else s.displayLinkAction)
        else none

/-- A driver's step stays on the way, and the step that reaches the duration is at
    its end and stops the driver. -/
structure Lands (nsTimer : Bool) (s t : TimerAnimationController) : Prop where
  onSegment : t.center ∈ segment ℚ s.fromValue s.toValue
  arrives : t.timeOffset = s.duration → t.center = s.toValue ∧ t.driver nsTimer = ⟨none, []⟩

def StepLands : Except Trap TimerAnimationController → Event →
    Except Trap TimerAnimationController → Prop
  | .ok s, .fires nsTimer _, .ok t => Lands nsTimer s t
  | .ok _, .fires _ _, .error _ => False
  | _, _, _ => True

/-! ## The curve -/

theorem bounceEaseOut_eq (t : Rat) : bounceEaseOut t =
    if t < 4 / 11 then arc (121 / 16) (-4 / 11) (4 / 11) t
    else if t < 8 / 11 then arc (363 / 40) (4 / 11) (8 / 11) t
    else if t < 9 / 10 then arc (4356 / 361) (8 / 11) (9 / 10) t
    else arc (54 / 5) (9 / 10) 1 t := by
  unfold bounceEaseOut arc
  split_ifs <;> ring

theorem eases_bounceEaseOut : Eases bounceEaseOut := by
  refine ⟨fun t ⟨after, before⟩ => ?_, by norm_num [bounceEaseOut], by norm_num [bounceEaseOut]⟩
  rw [bounceEaseOut_eq]
  split_ifs with first second third
  · exact arc_mem_Icc (by norm_num) (by norm_num) ⟨by linarith, first.le⟩
  · exact arc_mem_Icc (by norm_num) (by norm_num) ⟨not_lt.mp first, second.le⟩
  · exact arc_mem_Icc (by norm_num) (by norm_num) ⟨not_lt.mp second, third.le⟩
  · exact arc_mem_Icc (by norm_num) (by norm_num) ⟨not_lt.mp third, before⟩

theorem continuous_arc (k a b : ℚ) : Continuous (arc k a b) := by
  unfold arc
  fun_prop

/-- Each arc ends where the next one begins. -/
theorem continuous_bounceEaseOut : Continuous bounceEaseOut := by
  rw [funext bounceEaseOut_eq]
  refine continuous_takeover (continuous_arc _ _ _) ?_ (by norm_num)
  refine continuous_takeover (continuous_arc _ _ _) ?_ (by norm_num)
  exact continuous_takeover (continuous_arc _ _ _) (continuous_arc _ _ _) (by norm_num)

theorem interpolate_eq (fromValue toValue : CGPoint) (time : Rat) :
    interpolate fromValue toValue time = AffineMap.lineMap fromValue toValue time := by
  ext <;> simp [interpolate, interpolateValue, AffineMap.lineMap_apply, mul_comm]

/-! ## Runs -/

/-- Only the timer or link of the property is scheduled. -/
def Driver.Current (d : Driver) : Prop := d.scheduled = d.property.toList

structure Ready (s : TimerAnimationController) : Prop where
  duration : 0 < s.duration
  started : 0 ≤ s.timeOffset
  unfinished : s.timeOffset ≤ s.duration
  current : ∀ nsTimer, (s.driver nsTimer).Current

section Steps

variable {s : TimerAnimationController}

theorem ready_start : Ready start :=
  ⟨by decide, by decide, by decide, fun nsTimer => by cases nsTimer <;> rfl⟩

theorem Driver.Current.restart {d : Driver} (h : d.Current) (id : Nat) :
    (d.restart id).Current := by
  unfold Driver.Current Driver.restart at *
  cases found : d.property with
  | none => simp [h, found]
  | some old => simp [h, found]

theorem Driver.Current.stop {d : Driver} (h : d.Current) {id : Nat} (member : id ∈ d.scheduled) :
    d.stop = .ok ⟨none, []⟩ := by
  unfold Driver.Current at h
  unfold Driver.stop
  cases found : d.property with
  | none => simp [h, found] at member
  | some old => simp [h, found]

@[simp] theorem driver_withDriver (nsTimer other : Bool) (d : Driver) :
    (s.withDriver nsTimer d).driver other = if other = nsTimer then d else s.driver other := by
  cases nsTimer <;> cases other <;> rfl

@[simp] theorem withDriver_duration (nsTimer : Bool) (d : Driver) :
    (s.withDriver nsTimer d).duration = s.duration := by
  cases nsTimer <;> rfl

@[simp] theorem withDriver_timeOffset (nsTimer : Bool) (d : Driver) :
    (s.withDriver nsTimer d).timeOffset = s.timeOffset := by
  cases nsTimer <;> rfl

@[simp] theorem withDriver_center (nsTimer : Bool) (d : Driver) :
    (s.withDriver nsTimer d).center = s.center := by
  cases nsTimer <;> rfl

theorem Ready.animate (h : Ready s) (nsTimer : Bool) (width height : Rat) :
    Ready (s.animate nsTimer width height) := by
  refine ⟨by simp [TimerAnimationController.animate], by simp [TimerAnimationController.animate],
    by simp [TimerAnimationController.animate], fun other => ?_⟩
  simp only [TimerAnimationController.animate, driver_withDriver]
  split
  · exact (h.current nsTimer).restart _
  · exact h.current other

theorem Ready.moved (h : Ready s) :
    Ready s.moved ∧ s.moved.center ∈ segment ℚ s.fromValue s.toValue ∧
      (s.moved.timeOffset = s.duration → s.moved.center = s.toValue) := by
  have positive := h.duration
  have started : 0 ≤ s.moved.timeOffset := le_min (by linarith [h.started]) positive.le
  have unfinished : s.moved.timeOffset ≤ s.duration := min_le_right _ _
  have time : s.moved.timeOffset / s.duration ∈ Set.Icc (0 : ℚ) 1 :=
    ⟨div_nonneg started positive.le, (div_le_one positive).mpr unfinished⟩
  have center : s.moved.center =
      AffineMap.lineMap s.fromValue s.toValue (bounceEaseOut (s.moved.timeOffset / s.duration)) :=
    interpolate_eq _ _ _
  refine ⟨⟨positive, started, unfinished, h.current⟩, ?_, fun arrived => ?_⟩
  · rw [center]
    exact eases_bounceEaseOut.mem_segment time _ _
  · rw [center, arrived, div_self positive.ne']
    exact eases_bounceEaseOut.arrives _ _

/-- A driver that fires moves the ball, and stops when the time is over. -/
theorem Ready.advance (h : Ready s) {nsTimer : Bool} {id : Nat}
    (scheduled : id ∈ (s.driver nsTimer).scheduled) :
    ∃ t, s.advance nsTimer = .ok t ∧ Lands nsTimer s t ∧ Ready t := by
  obtain ⟨ready, onSegment, arrives⟩ := h.moved
  have stopped := (ready.current nsTimer).stop scheduled
  by_cases finished : s.moved.timeOffset ≥ s.moved.duration
  · refine ⟨s.moved.withDriver nsTimer ⟨none, []⟩, ?_, ⟨?_, fun reached => ⟨?_, ?_⟩⟩, ?_⟩
    · simp only [TimerAnimationController.advance, if_pos finished, stopped]
      rfl
    · rwa [withDriver_center]
    · rw [withDriver_timeOffset] at reached
      rw [withDriver_center, arrives reached]
    · rw [driver_withDriver, if_pos rfl]
    · refine ⟨by simpa using ready.duration, by simpa using ready.started,
        by simpa using ready.unfinished, fun other => ?_⟩
      rw [driver_withDriver]
      split
      · rfl
      · exact ready.current other
  · refine ⟨s.moved, if_neg finished, ⟨onSegment, fun reached => ?_⟩, ready⟩
    exact absurd reached.ge finished

theorem Ready.step (h : Ready s) {e : Event} {t : Except Trap TimerAnimationController}
    (stepped : machine.step (.ok s) e = some t) :
    StepLands (.ok s) e t ∧ ∃ u, t = .ok u ∧ Ready u := by
  cases e with
  | animate nsTimer width height =>
      obtain rfl := Option.some.inj stepped
      exact ⟨trivial, _, rfl, h.animate nsTimer width height⟩
  | fires nsTimer id =>
      simp only [machine, Option.ite_none_right_eq_some, Option.some.injEq] at stepped
      obtain ⟨scheduled, rfl⟩ := stepped
      obtain ⟨u, advanced, lands, ready⟩ := h.advance scheduled
      have fired : (if nsTimer then s.stepFunc else s.displayLinkAction) = .ok u := by
        cases nsTimer <;> exact advanced
      rw [fired]
      exact ⟨lands, u, rfl, ready⟩

end Steps

/-- The bounce is a continuous easing, and from any state between two steps every
    run keeps the ball on its way and ends it at its end. -/
theorem bounces (s : TimerAnimationController) (ready : Ready s) (events : List Event) :
    Eases bounceEaseOut ∧ Continuous bounceEaseOut ∧ machine.Each StepLands (.ok s) events := by
  refine ⟨eases_bounceEaseOut, continuous_bounceEaseOut, ?_⟩
  refine Machine.each_of_invariant (I := fun x => ∃ s, x = .ok s ∧ Ready s) ?_ ⟨s, rfl, ready⟩
    events
  rintro _ e t ⟨s, rfl, ready⟩ stepped
  exact ready.step stepped

/-- The timer is half way when the display link starts the ball again; it goes on beside it
    and takes the last step, and then the link stops as well. -/
theorem bounces_restarted :
    let events := .animate true 320 240 :: List.replicate 30 (.fires true 1) ++
      .animate false 320 240 :: List.replicate 59 (.fires false 2) ++
        [.fires true 1, .fires false 2]
    (((machine.run (.ok start) events).bind Except.toOption).map fun t =>
        (t.center, t.timeOffset, t.timer, t.link)) =
      some ((160, 220), 1, ⟨none, []⟩, ⟨none, []⟩) ∧
    Eases bounceEaseOut ∧ Continuous bounceEaseOut ∧ machine.Each StepLands (.ok start) events := by
  intro events
  exact ⟨by decide +kernel, bounces start ready_start events⟩

end LearningProjects.CoreAnimation.TimerAnimation
