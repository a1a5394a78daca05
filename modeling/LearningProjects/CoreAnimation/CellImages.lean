import LearningProjects.CoreAnimation.ImageContext
import LearningProjects.Machine

/-! # Cell images loaded in the background

`ImageCell.set(image:)` reads and draws the image on a concurrent queue and sends
it to the image view on the main queue. A load does not know whether its cell was
set to another path in the meantime, so the load that finishes last decides what
the cell shows.
-/

namespace LearningProjects.CoreAnimation.CellImages

/-- What the block of `uikitImage` captures. `size` is that of the image view's
    bounds when the block was made. -/
structure Load (Cell : Type*) where
  cell : Cell
  path : String
  size : CGSize
  deriving DecidableEq, Repr

/-- The image views, the blocks on the concurrent queue, and those on the main one. -/
structure State (Cell Content : Type*) where
  image : Cell → Option (UIImage Content)
  background : List (Load Cell)
  main : List (Cell × Option (UIImage Content))

inductive Event (Cell : Type*) where
  | set (cell : Cell) (path : String) (size : CGSize)
  /-- A block on the concurrent queue ends, in any order. -/
  | loaded (load : Load Cell)
  | main
  deriving DecidableEq, Repr

variable {Cell Content : Type*}

namespace State

def start : State Cell Content := ⟨fun _ => none, [], []⟩

def uikitImage (cell : Cell) (path : String) (size : CGSize) (s : State Cell Content) :
    State Cell Content :=
  { s with background := s.background ++ [⟨cell, path, size⟩] }

def Idle (s : State Cell Content) : Prop := s.background = [] ∧ s.main = []

end State

section Machine

variable [DecidableEq Cell] (files : String → Option (UIImage Content))

/-- The image that the block of a load makes. -/
def Load.image (load : Load Cell) : Option (UIImage Content) :=
  imageFromContext load.size (files load.path)

def machine : Machine (State Cell Content) (Event Cell) where
  step s
    | .set cell path size => some (s.uikitImage cell path size)
    | .loaded load =>
        if load ∈ s.background then
          some { s with
            background := s.background.erase load
            main := s.main ++ [(load.cell, load.image files)] }
        else none
    | .main =>
        match s.main with
        | (cell, image) :: rest =>
            some { s with main := rest, image := Function.update s.image cell image }
        | [] => none

end Machine

/-! ## What the events say -/

def sets : List (Event Cell) → List (Load Cell) :=
  List.filterMap fun
    | .set cell path size => some ⟨cell, path, size⟩
    | _ => none

def finished : List (Event Cell) → List (Load Cell) :=
  List.filterMap fun
    | .loaded load => some load
    | _ => none

section History

variable [DecidableEq Cell]

def lastOn (cell : Cell) (loads : List (Load Cell)) : Option (Load Cell) :=
  (loads.filter fun load => load.cell = cell).getLast?

theorem lastOn_concat (cell : Cell) (loads : List (Load Cell)) (load : Load Cell) :
    lastOn cell (loads ++ [load]) = if load.cell = cell then some load else lastOn cell loads := by
  unfold lastOn
  rw [getLast?_filter_concat]
  simp only [decide_eq_true_eq]

variable (files : String → Option (UIImage Content))

/-- Every cell shows what is in the file it was last set to. -/
def Shows (s : State Cell Content) (es : List (Event Cell)) : Prop :=
  ∀ cell load, lastOn cell (sets es) = some load →
    ∃ image, s.image cell = some image ∧ image.content = (files load.path).bind UIImage.content

/-- The last load of a cell to finish was made for a view with an area, and for the
    path the cell was last set to, or for another one with the same content. -/
def InTurn (es : List (Event Cell)) : Prop :=
  ∀ cell load, lastOn cell (sets es) = some load →
    ∃ last, lastOn cell (finished es) = some last ∧ last.size.hasArea ∧
      (files last.path).bind UIImage.content = (files load.path).bind UIImage.content

/-- The continuations run in the order in which the loads finished, so each view has
    the image of the last of its loads whose continuation has run. -/
structure Inv (s : State Cell Content) (es : List (Event Cell)) : Prop where
  queued : ∃ run waiting, finished es = run ++ waiting ∧
    s.main = waiting.map (fun load => (load.cell, load.image files)) ∧
    ∀ cell, s.image cell = (lastOn cell run).bind (Load.image files)

end History

section Steps

variable [DecidableEq Cell] {files : String → Option (UIImage Content)}
  {s t : State Cell Content} {es : List (Event Cell)} {e : Event Cell}

theorem Inv.start : Inv files (State.start : State Cell Content) [] :=
  ⟨[], [], rfl, rfl, fun _ => rfl⟩

theorem Inv.step (h : Inv files s es) (stepped : (machine files).step s e = some t) :
    Inv files t (es ++ [e]) := by
  obtain ⟨run, waiting, order, queue, shown⟩ := h
  cases e with
  | set cell path size =>
      obtain rfl := Option.some.inj stepped
      exact ⟨run, waiting, by simp [finished, ← order], queue, shown⟩
  | loaded load =>
      simp only [machine, Option.ite_none_right_eq_some, Option.some.injEq] at stepped
      obtain ⟨-, rfl⟩ := stepped
      refine ⟨run, waiting ++ [load], ?_, ?_, shown⟩
      · rw [← List.append_assoc, ← order]
        simp [finished]
      · simp [queue]
  | main =>
      -- the head of the queue belongs to the first load which has not run yet
      cases waiting with
      | nil => simp [machine, queue] at stepped
      | cons load waiting =>
          simp only [machine, queue, List.map_cons, Option.some.injEq] at stepped
          subst stepped
          refine ⟨run ++ [load], waiting, by simp [finished, ← order], rfl, fun cell => ?_⟩
          rw [lastOn_concat]
          by_cases same : load.cell = cell
          · simp [same]
          · simp [same, Ne.symm same, shown]

theorem Inv.image_eq (h : Inv files s es) (idle : s.Idle) (cell : Cell) :
    s.image cell = (lastOn cell (finished es)).bind (Load.image files) := by
  obtain ⟨run, waiting, order, queue, shown⟩ := h
  have none_waiting : waiting = [] := by simpa [idle.2] using queue
  rw [shown cell, order, none_waiting, List.append_nil]

theorem Inv.shows_iff (h : Inv files s es) (idle : s.Idle) :
    Shows files s es ↔ InTurn files es := by
  apply forall₃_congr
  intro cell load _
  simp only [h.image_eq idle, Option.bind_eq_some_iff, Load.image, imageFromContext_eq_some]
  constructor
  · rintro ⟨image, ⟨last, finished_last, area, rfl⟩, content⟩
    exact ⟨last, finished_last, area, content⟩
  · rintro ⟨last, finished_last, area, content⟩
    exact ⟨_, ⟨last, finished_last, area, rfl⟩, content⟩

end Steps

variable [DecidableEq Cell] (files : String → Option (UIImage Content))

/-- In every run: whenever no load is pending the cells show their paths, exactly if
    whenever no load is pending the right loads were the last to finish. -/
theorem shows_iff_inTurn (es : List (Event Cell)) :
    (machine files).recording.Each (fun _ _ t => t.1.Idle → Shows files t.1 t.2)
        (State.start, []) es ↔
      (machine files).recording.Each (fun _ _ t => t.1.Idle → InTurn files t.2)
        (State.start, []) es := by
  have keep : ∀ (s : State Cell Content × List (Event Cell)) e t, Inv files s.1 s.2 →
      (machine files).recording.step s e = some t → Inv files t.1 t.2 := by
    intro s e t inv stepped
    obtain ⟨taken, log⟩ := Machine.recording_step stepped
    exact log ▸ inv.step taken
  refine Machine.each_congr (I := fun s => Inv files s.1 s.2) ?_ ?_ Inv.start es
  · exact fun s e t inv stepped _ => keep s e t inv stepped
  · intro s e t inv stepped
    exact imp_congr_right fun idle => (keep s e t inv stepped).shows_iff idle

/-- A cell is set to a second path, and the load of the first one finishes after it. -/
theorem late_load_shown :
    let files : String → Option (UIImage String) := fun path => some ⟨some path, ⟨1, 1⟩⟩
    ¬(machine files).recording.Each (fun _ _ t => t.1.Idle → Shows files t.1 t.2)
      ((State.start : State Unit String), [])
      [.set () "one" ⟨1, 1⟩, .set () "two" ⟨1, 1⟩, .loaded ⟨(), "two", ⟨1, 1⟩⟩,
        .loaded ⟨(), "one", ⟨1, 1⟩⟩, .main, .main] := by
  intro files all
  obtain ⟨-, all⟩ := all _ rfl
  obtain ⟨-, all⟩ := all _ rfl
  obtain ⟨-, all⟩ := all _ rfl
  obtain ⟨-, all⟩ := all _ rfl
  obtain ⟨-, all⟩ := all _ rfl
  obtain ⟨shows, -⟩ := all _ rfl
  obtain ⟨image, shown, content⟩ := shows ⟨rfl, rfl⟩ () ⟨(), "two", ⟨1, 1⟩⟩ rfl
  obtain rfl := Option.some.inj shown
  revert content
  decide

end LearningProjects.CoreAnimation.CellImages
