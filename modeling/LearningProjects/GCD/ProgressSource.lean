import LearningProjects.Machine
import Mathlib.Algebra.Ring.Nat
import Mathlib.Data.List.Basic
import Mathlib.Algebra.BigOperators.Group.List.Basic
import Mathlib.Tactic.Common

/-! # The dispatch-source progress bar

A tap runs `sourceTimer`, each tick of the timer advances `progress` and adds it
to a `DispatchSourceUserDataAdd`, and the data source's handler prints what was
added since it last ran. GCD coalesces: one delivery may cover any number of
ticks, and then the handler reads the sum of their values. Both sources sit in
implicitly unwrapped properties, so reading one while it is nil is a trap.
Counters are unbounded here, while `UInt` has 64 bits.
-/

namespace LearningProjects.GCD.ProgressSource

structure DispatchSourceTimer where
  isCancelled : Bool
  deriving DecidableEq, Repr

/-- A user-data source holds the values added since its last delivery. -/
structure DispatchSourceUserDataAdd where
  added : List Nat
  isCancelled : Bool
  deriving DecidableEq, Repr

/-- What the handler reads: the sum of the coalesced values. -/
def DispatchSourceUserDataAdd.data (source : DispatchSourceUserDataAdd) : Nat := source.added.sum

structure ViewController where
  dataSource : Option DispatchSourceUserDataAdd
  timerSource : Option DispatchSourceTimer
  progress : Nat
  /-- Values of the lines `progress: …` printed so far. -/
  printed : List Nat
  deriving DecidableEq, Repr

/-- The property whose nil value was force-unwrapped. -/
inductive Trap where
  | timerSource
  | dataSource
  deriving DecidableEq, Repr

inductive Event where
  | tap
  | tick
  | deliver
  deriving DecidableEq, Repr

namespace ViewController

def start : ViewController := ⟨none, none, 0, []⟩

def initDataSource (s : ViewController) : ViewController :=
  match s.dataSource with
  | some _ => s
  | none => { s with dataSource := some ⟨[], false⟩ }

def sourceTimer (s : ViewController) : ViewController :=
  let s := s.initDataSource
  match s.timerSource with
  | some ⟨false⟩ => { s with timerSource := none }
  | _ => { s with timerSource := some ⟨false⟩ }

/-- The timer's event handler. -/
def timerHandler (s : ViewController) : Except Trap ViewController := do
  let s := { s with progress := s.progress + 1 }
  let s ← if s.progress ≥ 10 then
      match s.timerSource with
      | some _ => pure { s with timerSource := none }
      | none => throw .timerSource
    else pure s
  match s.dataSource with
  | some source =>
      pure { s with dataSource := some { source with added := source.added ++ [s.progress] } }
  | none => throw .dataSource

/-- The data source's event handler; a delivery clears what was added. -/
def dataHandler (s : ViewController) : Except Trap ViewController :=
  match s.dataSource with
  | some source =>
      if source.data ≥ 10 then pure { s with dataSource := none, printed := s.printed ++ [10] }
      else pure { s with
        dataSource := some { source with added := [] }
        printed := s.printed ++ [source.data] }
  | none => throw .dataSource

/-- A timer that was started and neither cancelled nor released. -/
def timerLive (s : ViewController) : Bool := s.timerSource.any fun timer => !timer.isCancelled

/-- The data source has something to deliver. -/
def dataPending (s : ViewController) : Bool :=
  s.dataSource.any fun source => !source.isCancelled && !source.added.isEmpty

end ViewController

/-- Handlers are atomic; nothing happens any more after a trap. -/
def machine : Machine (Except Trap ViewController) Event where
  step
    | .ok s, .tap => some (.ok s.sourceTimer)
    | .ok s, .tick => if s.timerLive then some s.timerHandler else none
    | .ok s, .deliver => if s.dataPending then some s.dataHandler else none
    | .error _, _ => none

/-- One step reports no false progress and uses no torn-down source. -/
structure Honest (s t : ViewController) : Prop where
  /-- A line printed by this step is at most the progress, capped at 10. -/
  printed : ∀ line, t.printed = s.printed ++ [line] → line ≤ min t.progress 10
  tornDown : s.dataSource.isSome → t.dataSource = none → 10 ≤ t.progress

def HonestStep : Except Trap ViewController → Except Trap ViewController → Prop
  | .ok s, .ok t => Honest s t
  | _, .error _ => False
  | .error _, _ => True

/-- Ticks since the last delivery. -/
def lag (history : List Event) : Nat := (history.reverse.takeWhile (· ≠ .deliver)).count .tick

/-- An event comes in time for the events before it: a delivery covers one tick
    unless the tenth tick is past, and from then on no tick follows a delivery
    directly. -/
def InTime (history : List Event) : Event → Prop
  | .deliver => 10 ≤ history.count .tick ∨ lag history ≤ 1
  | .tick => history.getLast? = some .deliver → history.count .tick < 10
  | .tap => True

/-! ## Histories -/

@[simp] theorem lag_nil : lag [] = 0 := rfl

theorem lag_concat (history : List Event) (e : Event) :
    lag (history ++ [e]) = match e with
      | .deliver => 0
      | .tick => lag history + 1
      | .tap => lag history := by
  cases e <;> simp [lag]

/-! ## The invariant -/

/-- A live data source has one value for each undelivered tick, the latest one
    being the current progress. -/
structure SourceOk (history : List Event) (progress : Nat) (source : DispatchSourceUserDataAdd) :
    Prop where
  live : source.isCancelled = false
  length : source.added.length = lag history
  positive : ∀ value ∈ source.added, 0 < value
  latest : ∀ value, source.added.getLast? = some value → value = progress

/-- The data source is missing only before the first tap or right after the
    delivery that finished the bar. -/
structure Inv (history : List Event) (s : ViewController) : Prop where
  progress : s.progress = history.count .tick
  timer : ∀ timer, s.timerSource = some timer → timer.isCancelled = false
  source : ∀ source, s.dataSource = some source → SourceOk history s.progress source
  missing : s.dataSource = none → lag history = 0 ∧
    (s.timerSource = none ∨ (history.getLast? = some .deliver ∧ 10 ≤ s.progress))
  present : s.dataSource.isSome → history.getLast? = some .deliver → s.progress < 10

section Steps

variable {history : List Event} {s : ViewController}

theorem Inv.start : Inv [] .start := by constructor <;> simp [ViewController.start]

theorem Inv.tap (h : Inv history s) : Inv (history ++ [.tap]) s.sourceTimer := by
  -- The tap finds a data source or makes an empty one.
  obtain ⟨source, made, ok⟩ : ∃ source, s.initDataSource = { s with dataSource := some source } ∧
      SourceOk (history ++ [.tap]) s.progress source := by
    have lagged := lag_concat history .tap
    cases found : s.dataSource with
    | some source =>
        have ok := h.source source found
        refine ⟨source, ?_, ok.live, ok.length.trans lagged.symm, ok.positive, ok.latest⟩
        simp only [ViewController.initDataSource, found]
        rw [← found]
    | none =>
        refine ⟨⟨[], false⟩, ?_, rfl, ?_, by simp, by simp⟩
        · simp only [ViewController.initDataSource, found]
        · exact (h.missing found).1.symm.trans lagged.symm
  have restarted : ∀ timerSource : Option DispatchSourceTimer,
      (∀ timer, timerSource = some timer → timer.isCancelled = false) →
      Inv (history ++ [.tap])
        { s with dataSource := some source, timerSource := timerSource } := by
    intro timerSource live
    refine ⟨by simp [h.progress], live, ?_, by simp, by simp⟩
    intro other found
    exact Option.some.inj found ▸ ok
  unfold ViewController.sourceTimer
  rw [made]
  dsimp only
  split
  · exact restarted none (by simp)
  · exact restarted (some ⟨false⟩) (by simp)

/-- With both sources in place the timer's handler goes through. -/
theorem timerHandler_ok {timer : DispatchSourceTimer} {source : DispatchSourceUserDataAdd}
    (timing : s.timerSource = some timer) (present : s.dataSource = some source) :
    s.timerHandler = .ok { s with
      progress := s.progress + 1
      timerSource := if s.progress + 1 ≥ 10 then none else some timer
      dataSource := some { source with added := source.added ++ [s.progress + 1] } } := by
  unfold ViewController.timerHandler
  by_cases finished : s.progress + 1 ≥ 10
  · simp [finished, timing, present, bind, Except.bind, pure, Except.pure]
  · simp [finished, timing, present, bind, Except.bind, pure, Except.pure]

theorem timerHandler_trap {timer : DispatchSourceTimer} (timing : s.timerSource = some timer)
    (missing : s.dataSource = none) : s.timerHandler = .error .dataSource := by
  unfold ViewController.timerHandler
  by_cases finished : s.progress + 1 ≥ 10
  · simp [finished, timing, missing, bind, Except.bind, pure, Except.pure, throw, throwThe,
      MonadExceptOf.throw]
  · simp [finished, missing, bind, Except.bind, pure, Except.pure, throw, throwThe,
      MonadExceptOf.throw]

theorem Inv.tick (h : Inv history s) {timer : DispatchSourceTimer}
    {source : DispatchSourceUserDataAdd} (timing : s.timerSource = some timer)
    (present : s.dataSource = some source) :
    Inv (history ++ [.tick]) { s with
      progress := s.progress + 1
      timerSource := if s.progress + 1 ≥ 10 then none else some timer
      dataSource := some { source with added := source.added ++ [s.progress + 1] } } := by
  have ok := h.source source present
  constructor
  · simp [h.progress]
  · intro other found
    split at found
    · cases found
    · obtain rfl := Option.some.inj found
      exact h.timer _ timing
  · intro other found
    obtain rfl := Option.some.inj found
    constructor
    · exact ok.live
    · simp [lag_concat, ok.length]
    · intro value member
      rcases List.mem_append.mp member with old | new
      · exact ok.positive value old
      · obtain rfl := List.mem_singleton.mp new
        exact Nat.succ_pos _
    · simp
  · simp
  · simp

/-- Coalescing two or more ticks makes the sum exceed the progress. -/
theorem SourceOk.data {progress : Nat} {source : DispatchSourceUserDataAdd}
    (h : SourceOk history progress source) (pending : source.added ≠ []) :
    progress ≤ source.data ∧ (source.data ≤ progress ↔ lag history ≤ 1) := by
  obtain ⟨earlier, last, shape⟩ : ∃ earlier last, source.added = earlier ++ [last] :=
    ⟨_, _, (List.dropLast_append_getLast pending).symm⟩
  obtain rfl : last = progress := h.latest last (by simp [shape])
  have sum : source.data = earlier.sum + last := by simp [DispatchSourceUserDataAdd.data, shape]
  have length : lag history = earlier.length + 1 := by simp [← h.length, shape]
  have positive : earlier.length ≤ earlier.sum := by
    apply List.length_le_sum_of_one_le
    intro value member
    exact h.positive value (shape ▸ List.mem_append_left _ member)
  refine ⟨by omega, ?_⟩
  constructor
  · omega
  · intro single
    obtain rfl : earlier = [] := List.eq_nil_of_length_eq_zero (by omega)
    simp [sum]

theorem Inv.deliver (h : Inv history s) {source : DispatchSourceUserDataAdd}
    (present : s.dataSource = some source) (pending : source.added ≠ []) :
    ∃ t, s.dataHandler = .ok t ∧ (Honest s t ↔ InTime history .deliver) ∧
      (Honest s t → Inv (history ++ [.deliver]) t) := by
  have ok := h.source source present
  obtain ⟨above, single⟩ := ok.data pending
  have cleared := lag_concat history .deliver
  simp only [InTime, ← h.progress, ← single]
  unfold ViewController.dataHandler
  rw [present]
  dsimp only
  split
  · rename_i finished
    refine ⟨_, rfl, ⟨?_, ?_⟩, ?_⟩
    · intro honest
      exact .inl (honest.tornDown (by simp [present]) rfl)
    · intro timely
      have reached : 10 ≤ s.progress := by
        rcases timely with late | one
        · exact late
        · omega
      refine ⟨?_, fun _ _ => reached⟩
      intro line printed
      obtain rfl : 10 = line := by simpa using printed
      exact Nat.le_min.mpr ⟨reached, Nat.le_refl _⟩
    · intro honest
      have reached := honest.tornDown (by simp [present]) rfl
      exact ⟨by simp [h.progress], h.timer, by simp,
        fun _ => ⟨cleared, .inr ⟨by simp, reached⟩⟩, by simp⟩
  · rename_i running
    refine ⟨_, rfl, ⟨?_, ?_⟩, ?_⟩
    · intro honest
      have := honest.printed source.data rfl
      exact .inr (Nat.le_trans this (Nat.min_le_left _ _))
    · intro timely
      refine ⟨?_, by simp⟩
      intro line printed
      obtain rfl : source.data = line := by simpa using printed
      rcases timely with late | one
      · omega
      · exact Nat.le_min.mpr ⟨one, by omega⟩
    · intro honest
      refine ⟨by simp [h.progress], h.timer, ?_, by simp, fun _ _ => ?_⟩
      · intro other found
        obtain rfl := Option.some.inj found
        exact ⟨ok.live, cleared.symm, by simp, by simp⟩
      · change s.progress < 10
        omega

/-- The invariant of a state and the history that led to it. -/
def InvAt (s : Except Trap ViewController × List Event) : Prop :=
  ∃ v, s.1 = .ok v ∧ Inv s.2 v

theorem timerLive_iff : s.timerLive = true ↔
    ∃ timer, s.timerSource = some timer ∧ timer.isCancelled = false := by
  simp [ViewController.timerLive, Option.any_eq_true]

theorem dataPending_iff : s.dataPending = true ↔
    ∃ source, s.dataSource = some source ∧ source.isCancelled = false ∧ source.added ≠ [] := by
  simp [ViewController.dataPending, Option.any_eq_true]

/-- A step that prints nothing and leaves a data source in place is honest. -/
theorem Honest.quiet {t : ViewController} (printed : t.printed = s.printed)
    (present : t.dataSource.isSome) : Honest s t := by
  constructor
  · intro line more
    simp [printed] at more
  · intro _ missing
    simp [missing] at present

theorem Honest.tap (s : ViewController) : Honest s s.sourceTimer := by
  unfold ViewController.sourceTimer ViewController.initDataSource
  cases found : s.dataSource <;> dsimp only <;> split <;> apply Honest.quiet <;> simp [found]

theorem Inv.tick_inTime (h : Inv history s) (present : s.dataSource.isSome) :
    InTime history .tick := by
  intro delivered
  rw [← h.progress]
  exact h.present present delivered

theorem Inv.late_of_missing (h : Inv history s) {timer : DispatchSourceTimer}
    (timing : s.timerSource = some timer) (missing : s.dataSource = none) :
    ¬InTime history .tick := by
  intro timely
  rcases (h.missing missing).2 with idle | ⟨delivered, reached⟩
  · simp [timing] at idle
  · have := timely delivered
    rw [← h.progress] at this
    omega

theorem InvAt.step {s t : Except Trap ViewController × List Event} {e : Event} (h : InvAt s)
    (stepped : machine.recording.step s e = some t) :
    (HonestStep s.1 t.1 ↔ InTime s.2 e) ∧ (HonestStep s.1 t.1 → InvAt t) := by
  obtain ⟨v, state, inv⟩ := h
  obtain ⟨moved, recorded⟩ := Machine.recording_step stepped
  unfold InvAt
  rw [state] at moved ⊢
  rw [recorded]
  cases e with
  | tap =>
      obtain same : Except.ok v.sourceTimer = t.1 := Option.some.inj moved
      rw [← same]
      exact ⟨⟨fun _ => trivial, fun _ => Honest.tap v⟩, fun _ => ⟨_, rfl, inv.tap⟩⟩
  | tick =>
      simp only [machine, Option.ite_none_right_eq_some, Option.some.injEq] at moved
      obtain ⟨live, same⟩ := moved
      obtain ⟨timer, timing, -⟩ := timerLive_iff.mp live
      cases found : v.dataSource with
      | some source =>
          rw [timerHandler_ok timing found] at same
          rw [← same]
          have timely := inv.tick_inTime (by simp [found])
          exact ⟨⟨fun _ => timely, fun _ => Honest.quiet rfl rfl⟩,
            fun _ => ⟨_, rfl, inv.tick timing found⟩⟩
      | none =>
          rw [timerHandler_trap timing found] at same
          rw [← same]
          have late := inv.late_of_missing timing found
          exact ⟨⟨fun trapped => trapped.elim, fun timely => absurd timely late⟩,
            fun trapped => trapped.elim⟩
  | deliver =>
      simp only [machine, Option.ite_none_right_eq_some, Option.some.injEq] at moved
      obtain ⟨pending, same⟩ := moved
      obtain ⟨source, present, -, waiting⟩ := dataPending_iff.mp pending
      obtain ⟨u, handled, timely, next⟩ := inv.deliver present waiting
      rw [handled] at same
      rw [← same]
      exact ⟨timely, fun honest => ⟨u, rfl, next honest⟩⟩

end Steps

/-- The progress bar stays honest along a run exactly when every event of the
    run comes in time. -/
theorem honest_iff_inTime (es : List Event) :
    machine.recording.Each (fun s _ t => HonestStep s.1 t.1) (.ok .start, []) es ↔
      machine.recording.Each (fun s e _ => InTime s.2 e) (.ok .start, []) es :=
  Machine.each_congr (I := InvAt)
    (fun _ _ _ inv stepped honest => (inv.step stepped).2 honest)
    (fun _ _ _ inv stepped => (inv.step stepped).1) ⟨_, rfl, Inv.start⟩ es

/-- Two ticks before the first delivery: the bar prints 3 at progress 2. -/
theorem coalesced_progress :
    ¬ machine.recording.Each (fun s _ t => HonestStep s.1 t.1) (.ok .start, [])
      [.tap, .tick, .tick, .deliver] := by
  intro all
  obtain ⟨-, all⟩ := all _ rfl
  obtain ⟨-, all⟩ := all _ rfl
  obtain ⟨-, all⟩ := all _ rfl
  obtain ⟨honest, -⟩ := all _ rfl
  exact absurd (honest.printed 3 rfl) (by decide)

end LearningProjects.GCD.ProgressSource
