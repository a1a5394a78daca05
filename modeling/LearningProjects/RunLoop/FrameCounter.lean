import LearningProjects.Windows
import Mathlib.Algebra.Field.Rat
import Mathlib.Algebra.Order.Ring.Rat
import Mathlib.Algebra.Order.Round
import Mathlib.Data.Rat.Floor
import Mathlib.Data.List.Forall2
import Mathlib.Data.List.Induction
import Mathlib.Tactic.FieldSimp
import Mathlib.Tactic.Linarith

/-! # The frame counter

Each tick of the display link after the first counts one frame. A tick at least one
second after the last report divides the count by the time since then, reports it,
and starts over.
-/

namespace LearningProjects.RunLoop.FrameCounter

open Windows

structure AttributedText where
  text : String
  hue : Rat
  deriving DecidableEq, Repr

/-- One report: the time it covers, and the rate. -/
structure Report where
  start : Rat
  stop : Rat
  fps : Rat
  deriving DecidableEq, Repr

/-- `reports` is a log, which the code never reads. -/
structure FPSLabel where
  lastTimeStamp : Rat
  fpsCount : Nat
  attributedText : Option AttributedText
  reports : List Report
  deriving DecidableEq, Repr

namespace FPSLabel

def start : FPSLabel := ⟨0, 0, none, []⟩

def attributedString (fps : Rat) : AttributedText :=
  let percent := fps / 60
  ⟨toString (round fps) ++ " FPS", 27 / 100 * (percent - 1 / 5)⟩

def displayLinkTrigger (timestamp : Rat) (s : FPSLabel) : FPSLabel :=
  if 0 < s.lastTimeStamp then
    let s := { s with fpsCount := s.fpsCount + 1 }
    let delta := timestamp - s.lastTimeStamp
    if delta < 1 then s
    else
      let fps := s.fpsCount / delta
      { lastTimeStamp := timestamp
        fpsCount := 0
        attributedText := some (attributedString fps)
        reports := s.reports ++ [⟨s.lastTimeStamp, timestamp, fps⟩] }
  else { s with lastTimeStamp := timestamp }

/-- The link ticks at these times. -/
def run (ticks : List Rat) : FPSLabel := ticks.foldl (fun s tick => s.displayLinkTrigger tick) start

end FPSLabel

open FPSLabel

/-- Far enough for a report. -/
def Due (start tick : Rat) : Prop := 1 ≤ tick - start

/-- A report covers a window and counts its ticks. -/
structure Covers (w : Window Rat) (report : Report) : Prop where
  start : report.start = w.start
  stop : report.stop = w.stop
  fps : report.fps = w.size / (w.stop - w.start)

/-- The reports cut the ticks after the first, and the counter has the rest. -/
structure Accounts (first : Rat) (later : List Rat) (s : FPSLabel) : Prop where
  cut : ∃ windows rest, Cut Due first later windows s.lastTimeStamp rest ∧
    List.Forall₂ Covers windows s.reports ∧ rest.length = s.fpsCount
  total : (s.reports.map fun report => report.fps * (report.stop - report.start)).sum +
    s.fpsCount = later.length
  delta : ∀ report ∈ s.reports, 1 ≤ report.stop - report.start

/-- What the ticks after the first leave behind. -/
structure Inv (first : Rat) (later : List Rat) (s : FPSLabel) : Prop where
  lastTimeStamp : 0 < s.lastTimeStamp
  cut : ∃ windows rest, Cut Due first later windows s.lastTimeStamp rest ∧
    List.Forall₂ Covers windows s.reports ∧ rest.length = s.fpsCount

section Steps

variable {first tick : Rat} {later : List Rat} {s : FPSLabel}

theorem Inv.start (positive : 0 < first) : Inv first [] (start.displayLinkTrigger first) :=
  ⟨positive, [], [], .nil Due first, .nil, rfl⟩

theorem Inv.displayLinkTrigger (h : Inv first later s) (positive : 0 < tick) :
    Inv first (later ++ [tick]) (s.displayLinkTrigger tick) := by
  obtain ⟨started, windows, rest, cut, covered, count⟩ := h
  by_cases early : tick - s.lastTimeStamp < 1
  · simp only [FPSLabel.displayLinkTrigger, if_pos started, if_pos early]
    exact ⟨started, windows, rest ++ [tick], cut.keep (not_le.mpr early), covered,
      by simp [count]⟩
  · simp only [FPSLabel.displayLinkTrigger, if_pos started, if_neg early]
    refine ⟨positive, _, [], cut.close (not_lt.mp early), ?_, rfl⟩
    exact List.rel_append covered (.cons ⟨rfl, rfl, by simp [Window.size, count]⟩ .nil)

theorem Inv.run (positive : ∀ tick ∈ first :: later, 0 < tick) :
    Inv first later (run (first :: later)) := by
  induction later using List.reverseRec with
  | nil => exact .start (positive first (by simp))
  | append_singleton later tick ih =>
      have before := ih fun t member => positive t (List.mem_append_left [tick] member)
      have next := before.displayLinkTrigger (positive tick (by simp))
      simpa only [FPSLabel.run, ← List.cons_append, List.foldl_append, List.foldl_cons,
        List.foldl_nil] using next

/-- A rate times its time is a number of ticks. -/
theorem Covers.frames {w : Window Rat} {report : Report} (h : Covers w report)
    (due : Due w.start w.stop) : report.fps * (report.stop - report.start) = w.size := by
  have apart : w.stop - w.start ≠ 0 := by
    unfold Due at due
    linarith
  rw [h.fps, h.start, h.stop, div_mul_cancel₀ _ apart]

theorem covered_total {windows : List (Window Rat)} {reports : List Report}
    (covered : List.Forall₂ Covers windows reports) (due : ∀ w ∈ windows, Due w.start w.stop) :
    (reports.map fun report => report.fps * (report.stop - report.start)).sum =
      (windows.map Window.size).sum := by
  induction covered with
  | nil => simp
  | cons covers _ ih =>
      rw [List.forall_mem_cons] at due
      simp only [List.map_cons, List.sum_cons, covers.frames due.1, ih due.2, Nat.cast_add]

theorem covered_delta {windows : List (Window Rat)} {reports : List Report}
    (covered : List.Forall₂ Covers windows reports) (due : ∀ w ∈ windows, Due w.start w.stop) :
    ∀ report ∈ reports, 1 ≤ report.stop - report.start := by
  induction covered with
  | nil => simp
  | cons covers _ ih =>
      rw [List.forall_mem_cons] at due ⊢
      refine ⟨?_, ih due.2⟩
      rw [covers.start, covers.stop]
      exact due.1

theorem Inv.accounts (h : Inv first later s) : Accounts first later s := by
  obtain ⟨-, windows, rest, cut, covered, count⟩ := h
  refine ⟨⟨windows, rest, cut, covered, count⟩, ?_, covered_delta covered cut.far_stop⟩
  rw [covered_total covered cut.far_stop, ← cut.length, count, Nat.cast_add]

end Steps

/-- Whatever the times of the ticks: each tick after the first is counted in one
    report or waits for the next one. -/
theorem accounts_run (first : Rat) (later : List Rat)
    (positive : ∀ tick ∈ first :: later, 0 < tick) : Accounts first later (run (first :: later)) :=
  (Inv.run positive).accounts

theorem accounts_two_seconds : Accounts 1 [3 / 2, 5 / 2, 3] (run [1, 3 / 2, 5 / 2, 3]) :=
  accounts_run 1 [3 / 2, 5 / 2, 3] (by norm_num)

end LearningProjects.RunLoop.FrameCounter
