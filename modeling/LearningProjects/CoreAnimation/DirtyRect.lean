import LearningProjects.Machine
import LearningProjects.Repaint
import Mathlib.Algebra.Field.Rat
import Mathlib.Algebra.Order.Ring.Rat
import Mathlib.Tactic.Common

/-! # Drawing only the dirty rectangle

`TouchDrawView` draws every dot of the stroke each time. `RectTouchDrawView`
invalidates only the rectangle of the new dot, and when it draws it skips the
dots that do not intersect the rectangle it is given. UIKit may hand over any
rectangle that encloses what was invalidated; it clears it, clips to it and leaves
all other points as they were.
-/

namespace LearningProjects.CoreAnimation.DirtyRect

structure CGPoint where
  x : Rat
  y : Rat
  deriving DecidableEq, Repr

structure CGRect where
  x : Rat
  y : Rat
  width : Rat
  height : Rat
  deriving DecidableEq, Repr

namespace CGRect

/-- The lower edges belong to a rectangle and the upper ones do not. -/
def contains (r : CGRect) (p : CGPoint) : Prop :=
  r.x ≤ p.x ∧ p.x < r.x + r.width ∧ r.y ≤ p.y ∧ p.y < r.y + r.height

instance (r : CGRect) (p : CGPoint) : Decidable (r.contains p) :=
  inferInstanceAs (Decidable (_ ∧ _ ∧ _ ∧ _))

def encloses (r other : CGRect) : Prop :=
  r.x ≤ other.x ∧ other.x + other.width ≤ r.x + r.width ∧
    r.y ≤ other.y ∧ other.y + other.height ≤ r.y + r.height

instance (r other : CGRect) : Decidable (r.encloses other) :=
  inferInstanceAs (Decidable (_ ∧ _ ∧ _ ∧ _))

theorem encloses.contains {r other : CGRect} (h : r.encloses other) {p : CGPoint}
    (inside : other.contains p) : r.contains p :=
  ⟨h.1.trans inside.1, inside.2.1.trans_le h.2.1, h.2.2.1.trans inside.2.2.1,
    inside.2.2.2.trans_le h.2.2.2⟩

end CGRect

abbrev Canvas (Color : Type) := CGPoint → Color

/-- What drawing an image into a rectangle makes of the colour of a point in it. -/
structure UIImage (Color : Type) where
  composite : CGRect → CGPoint → Color → Color

/-- `draw(in:)` in a context that is clipped to `clip`. -/
def UIImage.draw {Color : Type} (image : UIImage Color) (clip rect : CGRect)
    (canvas : Canvas Color) : Canvas Color := fun p =>
  if clip.contains p ∧ rect.contains p then image.composite rect p (canvas p) else canvas p

def brushsize : Rat := 20

def brushRect (point : CGPoint) : CGRect :=
  ⟨point.x - brushsize / 2, point.y - brushsize / 2, brushsize, brushsize⟩

/-- Either view, with what UIKit keeps for it. -/
structure DrawView (Color : Type) where
  strokes : List CGPoint
  /-- Rectangles invalidated since the last draw. -/
  invalid : List CGRect
  pixels : Canvas Color

inductive Event where
  | addBrushStroke (point : CGPoint)
  | draw (rect : CGRect)
  deriving DecidableEq, Repr

section Views

variable {Color : Type} (dot : Option (UIImage Color)) (background : Color) (bounds : CGRect)

/-- Nothing has been drawn yet, so the whole view is to be. -/
def DrawView.start (before : Canvas Color) : DrawView Color := ⟨[], [bounds], before⟩

/-- What UIKit does before it calls `draw`. -/
def DrawView.clear (view : DrawView Color) (rect : CGRect) : Canvas Color := fun p =>
  if rect.contains p then background else view.pixels p

/-- `UIImage.init(named: "dot")?.draw(in: rect)`. -/
def drawDot (clip rect : CGRect) (canvas : Canvas Color) : Canvas Color :=
  match dot with
  | some image => image.draw clip rect canvas
  | none => canvas

namespace TouchDrawView

def addBrushStroke (view : DrawView Color) (point : CGPoint) : DrawView Color :=
  { view with strokes := view.strokes ++ [point], invalid := view.invalid ++ [bounds] }

def draw (view : DrawView Color) (rect : CGRect) : DrawView Color :=
  { view with
    invalid := []
    pixels := view.strokes.foldl (fun canvas point => drawDot dot rect (brushRect point) canvas)
      (view.clear background rect) }

def machine : Machine (DrawView Color) Event where
  step view
    | .addBrushStroke point => some (addBrushStroke bounds view point)
    | .draw rect =>
        if ∀ r ∈ view.invalid, rect.encloses r then some (draw dot background view rect) else none

end TouchDrawView

namespace RectTouchDrawView

variable (intersects : CGRect → CGRect → Bool)

def addBrushStroke (view : DrawView Color) (point : CGPoint) : DrawView Color :=
  { view with
    strokes := view.strokes ++ [point]
    invalid := view.invalid ++ [brushRect point] }

def draw (view : DrawView Color) (rect : CGRect) : DrawView Color :=
  { view with
    invalid := []
    pixels := view.strokes.foldl
      (fun canvas point =>
        if intersects (brushRect point) rect then drawDot dot rect (brushRect point) canvas
        else canvas)
      (view.clear background rect) }

def machine : Machine (DrawView Color) Event where
  step view
    | .addBrushStroke point => some (addBrushStroke view point)
    | .draw rect =>
        if ∀ r ∈ view.invalid, rect.encloses r then
          some (draw dot background intersects view rect)
        else none

end RectTouchDrawView

end Views

/-! ## The picture of a stroke -/

section Picture

variable {Color : Type} (dot : Option (UIImage Color)) (background : Color)

/-- What one dot makes of the colour of a point. -/
def dotColor (p : CGPoint) (color : Color) (point : CGPoint) : Color :=
  match dot with
  | some image => if (brushRect point).contains p then image.composite (brushRect point) p color
      else color
  | none => color

/-- All dots of the stroke over the background, in the order they were made. -/
def picture (strokes : List CGPoint) (p : CGPoint) : Color :=
  strokes.foldl (dotColor dot p) background

theorem dotColor_of_not_contains {p point : CGPoint} (outside : ¬(brushRect point).contains p)
    (color : Color) : dotColor dot p color point = color := by
  cases dot with
  | none => rfl
  | some image => exact if_neg outside

/-- A new dot changes the picture inside its own rectangle only. -/
theorem picture_concat {strokes : List CGPoint} {point p : CGPoint}
    (outside : ¬(brushRect point).contains p) :
    picture dot background (strokes ++ [point]) p = picture dot background strokes p := by
  rw [picture, List.foldl_append]
  exact dotColor_of_not_contains dot outside _

variable {dot}

/-- Inside the clip a dot does what it does to the picture, outside it nothing. -/
theorem drawDot_apply (clip : CGRect) (point : CGPoint) (canvas : Canvas Color) (p : CGPoint) :
    drawDot dot clip (brushRect point) canvas p =
      if clip.contains p then dotColor dot p (canvas p) point else canvas p := by
  cases dot with
  | none => exact (ite_self _).symm
  | some image =>
      rw [drawDot, UIImage.draw, dotColor]
      by_cases clipped : clip.contains p
      · simp [clipped]
      · simp [clipped]

/-- Drawing dot by dot is drawing point by point. -/
theorem foldl_draw {step : Canvas Color → CGPoint → Canvas Color} {clip : CGRect} {p : CGPoint}
    (drawn : ∀ canvas point,
      step canvas point p = if clip.contains p then dotColor dot p (canvas p) point else canvas p)
    (strokes : List CGPoint) (canvas : Canvas Color) :
    strokes.foldl step canvas p =
      if clip.contains p then strokes.foldl (dotColor dot p) (canvas p) else canvas p := by
  induction strokes generalizing canvas with
  | nil => exact (ite_self _).symm
  | cons point strokes ih =>
      rw [List.foldl_cons, ih, drawn]
      by_cases clipped : clip.contains p
      · simp only [if_pos clipped, List.foldl_cons]
      · simp only [if_neg clipped]

/-- A draw shows the picture in its rectangle and leaves the other points alone. -/
theorem draw_apply {step : Canvas Color → CGPoint → Canvas Color} {rect : CGRect} {p : CGPoint}
    (drawn : ∀ canvas point,
      step canvas point p = if rect.contains p then dotColor dot p (canvas p) point else canvas p)
    (view : DrawView Color) :
    view.strokes.foldl step (view.clear background rect) p =
      if rect.contains p then picture dot background view.strokes p else view.pixels p := by
  rw [foldl_draw drawn, DrawView.clear, picture]
  by_cases inside : rect.contains p
  · simp only [if_pos inside]
  · simp only [if_neg inside]

/-- A dot that does not intersect the rectangle has no point in it to draw. -/
theorem drawDot_of_meets {intersects : CGRect → CGRect → Bool}
    (meets : ∀ r r' p, r.contains p → r'.contains p → intersects r r' = true)
    (rect : CGRect) (p : CGPoint) (canvas : Canvas Color) (point : CGPoint) :
    (if intersects (brushRect point) rect then drawDot dot rect (brushRect point) canvas
      else canvas) p = if rect.contains p then dotColor dot p (canvas p) point else canvas p := by
  by_cases meeting : intersects (brushRect point) rect = true
  · rw [if_pos meeting]
    exact drawDot_apply rect point canvas p
  · rw [if_neg meeting]
    by_cases inside : rect.contains p
    · have outside : ¬(brushRect point).contains p :=
        fun dotted => meeting (meets _ _ p dotted inside)
      rw [if_pos inside, dotColor_of_not_contains dot outside]
    · rw [if_neg inside]

end Picture

/-! ## Both views show the picture -/

/-- The points of a view. -/
abbrev Point (bounds : CGRect) := {p : CGPoint // bounds.contains p}

/-- The points in the rectangles that wait to be drawn. -/
def damage (bounds : CGRect) (invalid : List CGRect) : Set (Point bounds) :=
  {p | ∃ r ∈ invalid, r.contains p}

theorem damage_nil (bounds : CGRect) : damage bounds [] = ∅ := by
  ext p
  simp [damage]

theorem damage_concat (bounds : CGRect) (invalid : List CGRect) (rect : CGRect) :
    damage bounds (invalid ++ [rect]) = damage bounds invalid ∪ {p | rect.contains p} := by
  ext p
  simp [damage, or_and_right, exists_or]

section Sound

variable {Color : Type} {dot : Option (UIImage Color)} {background : Color} {bounds : CGRect}
  {view next : DrawView Color} {intersects : CGRect → CGRect → Bool} {e : Event}

/-- A point that is not waiting to be drawn shows the picture of the stroke. -/
def Sound (dot : Option (UIImage Color)) (background : Color) (bounds : CGRect)
    (view : DrawView Color) : Prop :=
  Repaint.Sound (fun strokes (p : Point bounds) => picture dot background strokes p) view.strokes
    (damage bounds view.invalid) fun p => view.pixels p

theorem Sound.start (before : Canvas Color) :
    Sound dot background bounds (.start bounds before) := by
  intro p clean
  exact absurd ⟨bounds, List.mem_singleton_self _, p.2⟩ clean

/-- A view has to invalidate at least the rectangle of the new dot. -/
theorem Sound.addBrushStroke (h : Sound dot background bounds view) {point : CGPoint}
    {rect : CGRect} (covers : ∀ p : Point bounds, (brushRect point).contains p → rect.contains p) :
    Sound dot background bounds
      { view with strokes := view.strokes ++ [point], invalid := view.invalid ++ [rect] } := by
  unfold Sound
  rw [damage_concat]
  apply Repaint.Sound.change h
  intro p outside
  exact picture_concat dot background fun dotted => outside (covers p dotted)

theorem Sound.draw (h : Sound dot background bounds view) {rect : CGRect}
    (encloses : ∀ r ∈ view.invalid, rect.encloses r) {pixels : Canvas Color}
    (drawn : ∀ p, pixels p =
      if rect.contains p then picture dot background view.strokes p else view.pixels p) :
    Sound dot background bounds { view with invalid := [], pixels := pixels } := by
  have covers : damage bounds view.invalid ⊆ {p | rect.contains p} := by
    rintro p ⟨r, waiting, inside⟩
    exact (encloses r waiting).contains inside
  unfold Sound
  rw [damage_nil]
  refine Repaint.Sound.repaint h covers ?_ ?_
  · intro p inside
    exact (drawn p).trans (if_pos inside)
  · intro p outside
    exact (drawn p).trans (if_neg outside)

theorem Sound.touchDrawView_step (h : Sound dot background bounds view)
    (stepped : (TouchDrawView.machine dot background bounds).step view e = some next) :
    Sound dot background bounds next := by
  cases e with
  | addBrushStroke point =>
      obtain rfl := Option.some.inj stepped
      exact h.addBrushStroke fun p _ => p.2
  | draw rect =>
      simp only [TouchDrawView.machine, Option.ite_none_right_eq_some, Option.some.injEq] at stepped
      obtain ⟨encloses, rfl⟩ := stepped
      exact h.draw encloses fun p =>
        draw_apply background (fun canvas point => drawDot_apply rect point canvas p) view

theorem Sound.rectTouchDrawView_step (h : Sound dot background bounds view)
    (meets : ∀ r r' p, r.contains p → r'.contains p → intersects r r' = true)
    (stepped : (RectTouchDrawView.machine dot background intersects).step view e = some next) :
    Sound dot background bounds next := by
  cases e with
  | addBrushStroke point =>
      obtain rfl := Option.some.inj stepped
      exact h.addBrushStroke fun _ dotted => dotted
  | draw rect =>
      simp only [RectTouchDrawView.machine, Option.ite_none_right_eq_some, Option.some.injEq]
        at stepped
      obtain ⟨encloses, rfl⟩ := stepped
      exact h.draw encloses fun p =>
        draw_apply background (fun canvas point => drawDot_of_meets meets rect p canvas point) view

/-- In a view that has just been drawn no point waits. -/
theorem Sound.shows (h : Sound dot background bounds view) (drawn : view.invalid = [])
    {p : CGPoint} (inside : bounds.contains p) :
    view.pixels p = picture dot background view.strokes p := by
  have clean : (⟨p, inside⟩ : Point bounds) ∉ damage bounds view.invalid := by
    rw [drawn, damage_nil]
    exact id
  exact Repaint.Sound.eq_picture h clean

end Sound

/-! ## After the same brush points -/

def Event.brushPoint? : Event → Option CGPoint
  | .addBrushStroke point => some point
  | .draw _ => none

/-- The points of the brush, in the order in which they are made. -/
def brushPoints (es : List Event) : List CGPoint := es.filterMap Event.brushPoint?

section Brush

variable {Color : Type} {dot : Option (UIImage Color)} {background : Color} {bounds : CGRect}
  {intersects : CGRect → CGRect → Bool} {before : Canvas Color} {view next drawn : DrawView Color}
  {e : Event} {es : List Event}

/-- A view that adds each brush point has all of them. -/
theorem strokes_of_run {M : Machine (DrawView Color) Event}
    (adds : ∀ view e next, M.step view e = some next →
      next.strokes = view.strokes ++ e.brushPoint?.toList)
    (reached : M.run view es = some next) : next.strokes = view.strokes ++ brushPoints es := by
  induction es generalizing view with
  | nil =>
      obtain rfl : view = next := by simpa using reached
      exact (List.append_nil _).symm
  | cons e es ih =>
      obtain ⟨u, stepped, rest⟩ := M.run_cons_some reached
      rw [ih rest, adds view e u stepped, List.append_assoc]
      cases e with
      | addBrushStroke point => rfl
      | draw rect => rfl

theorem TouchDrawView.strokes_of_step
    (stepped : (TouchDrawView.machine dot background bounds).step view e = some next) :
    next.strokes = view.strokes ++ e.brushPoint?.toList := by
  cases e with
  | addBrushStroke point =>
      obtain rfl := Option.some.inj stepped
      rfl
  | draw rect =>
      obtain ⟨-, drew⟩ := Option.ite_none_right_eq_some.mp stepped
      obtain rfl := Option.some.inj drew
      exact (List.append_nil _).symm

theorem RectTouchDrawView.strokes_of_step
    (stepped : (RectTouchDrawView.machine dot background intersects).step view e = some next) :
    next.strokes = view.strokes ++ e.brushPoint?.toList := by
  cases e with
  | addBrushStroke point =>
      obtain rfl := Option.some.inj stepped
      rfl
  | draw rect =>
      obtain ⟨-, drew⟩ := Option.ite_none_right_eq_some.mp stepped
      obtain rfl := Option.some.inj drew
      exact (List.append_nil _).symm

end Brush

/-- After every draw the view that skips dots shows what the view that draws them
    all shows after a draw of the same brush points: both have these points for their
    strokes. Rectangles with a point in common intersect; nothing is assumed about those
    that only touch. -/
theorem rectTouchDrawView_shows {Color : Type} (dot : Option (UIImage Color)) (background : Color)
    (bounds : CGRect) (intersects : CGRect → CGRect → Bool)
    (meets : ∀ r r' p, r.contains p → r'.contains p → intersects r r' = true)
    (before before' : Canvas Color) (es es' : List Event) (rect rect' : CGRect)
    {drawn fullDrawn : DrawView Color}
    (reached : (RectTouchDrawView.machine dot background intersects).run (.start bounds before)
      (es ++ [.draw rect]) = some drawn)
    (reachedFull : (TouchDrawView.machine dot background bounds).run (.start bounds before')
      (es' ++ [.draw rect']) = some fullDrawn)
    (same : brushPoints es = brushPoints es') :
    drawn.strokes = brushPoints es ∧ fullDrawn.strokes = brushPoints es ∧
      ∀ p, bounds.contains p → drawn.pixels p = fullDrawn.pixels p := by
  obtain ⟨view, reached, drew⟩ := Machine.run_concat_some _ reached
  obtain ⟨fullView, reachedFull, drewFull⟩ := Machine.run_concat_some _ reachedFull
  have sound := (Machine.run_invariant _
    (fun _ _ _ h stepped => h.rectTouchDrawView_step meets stepped) reached
    (Sound.start before)).rectTouchDrawView_step meets drew
  have soundFull := (Machine.run_invariant _ (fun _ _ _ h stepped => h.touchDrawView_step stepped)
    reachedFull (Sound.start before')).touchDrawView_step drewFull
  have strokes : view.strokes = brushPoints es :=
    strokes_of_run (fun _ _ _ => RectTouchDrawView.strokes_of_step) reached
  have strokesFull : fullView.strokes = brushPoints es' :=
    strokes_of_run (fun _ _ _ => TouchDrawView.strokes_of_step) reachedFull
  rw [← same] at strokesFull
  simp only [RectTouchDrawView.machine, Option.ite_none_right_eq_some, Option.some.injEq] at drew
  simp only [TouchDrawView.machine, Option.ite_none_right_eq_some, Option.some.injEq] at drewFull
  obtain ⟨-, rfl⟩ := drew
  obtain ⟨-, rfl⟩ := drewFull
  refine ⟨strokes, strokesFull, fun p inside => ?_⟩
  calc _ = picture dot background view.strokes p := sound.shows rfl inside
    _ = picture dot background fullView.strokes p := by rw [strokes, strokesFull]
    _ = _ := (soundFull.shows rfl inside).symm

/-- Overlap in both directions. -/
def CGRect.overlaps (r other : CGRect) : Bool :=
  r.x < other.x + other.width && other.x < r.x + r.width &&
    r.y < other.y + other.height && other.y < r.y + r.height

theorem CGRect.overlaps_of_contains (r other : CGRect) (p : CGPoint) (inside : r.contains p)
    (inside' : other.contains p) : r.overlaps other = true := by
  obtain ⟨left, right, top, bottom⟩ := inside
  obtain ⟨left', right', top', bottom'⟩ := inside'
  simp only [CGRect.overlaps, Bool.and_eq_true, decide_eq_true_eq]
  exact ⟨⟨⟨left.trans_lt right', left'.trans_lt right⟩, top.trans_lt bottom'⟩, top'.trans_lt bottom⟩

/-- A dot darkens what it covers. -/
def darken : UIImage Nat := ⟨fun _ _ color => color + 1⟩

/-- Two dots that overlap, the second one drawn alone and after the first. -/
theorem second_dot_shows : ∃ drawn fullDrawn,
    (RectTouchDrawView.machine (some darken) 0 CGRect.overlaps).run
        (.start ⟨0, 0, 100, 100⟩ fun _ => 7)
        ([.addBrushStroke ⟨30, 30⟩, .draw ⟨0, 0, 100, 100⟩, .addBrushStroke ⟨40, 30⟩] ++
          [.draw ⟨30, 20, 20, 20⟩]) = some drawn ∧
      (TouchDrawView.machine (some darken) 0 ⟨0, 0, 100, 100⟩).run
        (.start ⟨0, 0, 100, 100⟩ fun _ => 9)
        ([.addBrushStroke ⟨30, 30⟩, .addBrushStroke ⟨40, 30⟩] ++ [.draw ⟨0, 0, 100, 100⟩]) =
          some fullDrawn ∧
      drawn.strokes = [⟨30, 30⟩, ⟨40, 30⟩] ∧ fullDrawn.strokes = [⟨30, 30⟩, ⟨40, 30⟩] ∧
      ∀ p, (⟨0, 0, 100, 100⟩ : CGRect).contains p → drawn.pixels p = fullDrawn.pixels p := by
  obtain ⟨drawn, reached⟩ := Option.isSome_iff_exists.mp (show
    ((RectTouchDrawView.machine (some darken) 0 CGRect.overlaps).run
      (.start ⟨0, 0, 100, 100⟩ fun _ => 7)
      ([.addBrushStroke ⟨30, 30⟩, .draw ⟨0, 0, 100, 100⟩, .addBrushStroke ⟨40, 30⟩] ++
        [.draw ⟨30, 20, 20, 20⟩])).isSome = true by decide +kernel)
  obtain ⟨fullDrawn, reachedFull⟩ := Option.isSome_iff_exists.mp (show
    ((TouchDrawView.machine (some darken) 0 ⟨0, 0, 100, 100⟩).run
      (.start ⟨0, 0, 100, 100⟩ fun _ => 9)
      ([.addBrushStroke ⟨30, 30⟩, .addBrushStroke ⟨40, 30⟩] ++
        [.draw ⟨0, 0, 100, 100⟩])).isSome = true by decide +kernel)
  exact ⟨drawn, fullDrawn, reached, reachedFull,
    rectTouchDrawView_shows (some darken) 0 ⟨0, 0, 100, 100⟩ CGRect.overlaps
      CGRect.overlaps_of_contains (fun _ => 7) (fun _ => 9)
      [.addBrushStroke ⟨30, 30⟩, .draw ⟨0, 0, 100, 100⟩, .addBrushStroke ⟨40, 30⟩]
      [.addBrushStroke ⟨30, 30⟩, .addBrushStroke ⟨40, 30⟩] ⟨30, 20, 20, 20⟩ ⟨0, 0, 100, 100⟩
      reached reachedFull rfl⟩

end LearningProjects.CoreAnimation.DirtyRect
