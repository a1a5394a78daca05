import Mathlib.Algebra.Field.Rat
import Mathlib.Tactic.Common

/-! # Pop-up presentation cycles

The hooks of `MKPopViewController` around one presentation and one dismissal.
Presenting fades the dimmed background in from clear and puts it back from a
saved copy. The slide styles leave the screen by running `beforePop` again, and
that saves and clears the background a second time, with nothing after it to put
it back.
-/

namespace LearningProjects.QuickUI.PopController

inductive PopStyle where
  | center
  | bottom
  | left
  | right
  | top
  | custom
  deriving DecidableEq, Repr

structure CGPoint where
  x : Rat
  y : Rat
  deriving DecidableEq, Repr

structure CGSize where
  width : Rat
  height : Rat
  deriving DecidableEq, Repr

def CGSize.zero : CGSize := ⟨0, 0⟩

structure CGAffineTransform where
  a : Rat
  b : Rat
  c : Rat
  d : Rat
  tx : Rat
  ty : Rat
  deriving DecidableEq, Repr

namespace CGAffineTransform

def identity : CGAffineTransform := ⟨1, 0, 0, 1, 0, 0⟩

def scale (scaleX y : Rat) : CGAffineTransform := ⟨scaleX, 0, 0, y, 0, 0⟩

def translation (translationX y : Rat) : CGAffineTransform := ⟨1, 0, 0, 1, translationX, y⟩

end CGAffineTransform

structure View (Color : Type) where
  backgroundColor : Option Color
  alpha : Rat
  center : CGPoint
  deriving DecidableEq, Repr

structure ContentView where
  alpha : Rat
  center : CGPoint
  transform : CGAffineTransform
  deriving DecidableEq, Repr

/-- `savedBackgroundColor` is the source's `_backgroundColor`. -/
structure MKPopViewController (Color : Type) where
  popStyle : PopStyle
  contentHeight : Rat
  contentWidth : Rat
  view : View Color
  contentView : ContentView
  savedBackgroundColor : Option Color
  isShow : Bool
  deriving DecidableEq, Repr

/-- What a layout pass finds: the content's frame, and the size that fits it. -/
structure Layout where
  size : CGSize
  fitting : CGSize
  deriving DecidableEq, Repr

namespace MKPopViewController

variable {Color : Type}

/-- A controller whose view is loaded and configured, before it is first shown. -/
def loaded (popStyle : PopStyle) (backgroundColor : Option Color) (content : CGSize)
    (center contentCenter : CGPoint) : MKPopViewController Color where
  popStyle := popStyle
  contentHeight := content.height
  contentWidth := content.width
  view := ⟨backgroundColor, 1, center⟩
  contentView := ⟨1, contentCenter, .identity⟩
  savedBackgroundColor := none
  isShow := false

def calLayout (layout : Layout) (s : MKPopViewController Color) : MKPopViewController Color :=
  let size := if layout.size = .zero then layout.fitting else layout.size
  { s with
    contentHeight := if size.height ≠ 0 then size.height else s.contentHeight
    contentWidth := if size.width ≠ 0 then size.width else s.contentWidth }

variable (clear : Color)

def beforePop (s : MKPopViewController Color) : MKPopViewController Color :=
  let s := { s with savedBackgroundColor := s.view.backgroundColor }
  let s := match s.popStyle with
    | .center => { s with contentView := ⟨0, s.view.center, .scale (11 / 10) (11 / 10)⟩ }
    | .bottom => { s with contentView.transform := .translation 0 s.contentHeight }
    | .top => { s with contentView.transform := .translation 0 (-s.contentHeight) }
    | .right => { s with contentView.transform := .translation s.contentWidth 0 }
    | .left => { s with contentView.transform := .translation (-s.contentWidth) 0 }
    | .custom => s
  if s.popStyle ≠ .custom then { s with view.backgroundColor := some clear } else s

def inPoping (s : MKPopViewController Color) : MKPopViewController Color :=
  let s := match s.popStyle with
    | .center => { s with contentView.alpha := 1, contentView.transform := .identity }
    | _ => { s with contentView.transform := .identity }
  if s.popStyle ≠ .custom then { s with view.backgroundColor := s.savedBackgroundColor } else s

def endPoping (s : MKPopViewController Color) : MKPopViewController Color :=
  { s with isShow := true }

def beforeHide (s : MKPopViewController Color) : MKPopViewController Color := s

def inHiding (s : MKPopViewController Color) : MKPopViewController Color :=
  let s := match s.popStyle with
    | .center => { s with contentView.alpha := 0, contentView.transform := .scale (4 / 5) (4 / 5) }
    | .custom => s
    | _ => s.beforePop clear
  if s.popStyle ≠ .custom then { s with view.alpha := 0 } else s

def endHiding (s : MKPopViewController Color) : MKPopViewController Color :=
  let s := if s.popStyle ≠ .custom then { s with view.alpha := 1 } else s
  { s with isShow := false }

/-- The view is laid out when it appears, then the transition runs its hooks. -/
def present (layout : Layout) (s : MKPopViewController Color) : MKPopViewController Color :=
  (((s.calLayout layout).beforePop clear).inPoping).endPoping

def dismiss (s : MKPopViewController Color) : MKPopViewController Color :=
  (s.beforeHide.inHiding clear).endHiding

/-- Complete show and hide cycles, one for each layout. -/
def cycles (layouts : List Layout) (s : MKPopViewController Color) : MKPopViewController Color :=
  layouts.foldl (fun s layout => (s.present clear layout).dismiss clear) s

end MKPopViewController

open MKPopViewController

variable {Color : Type}

structure Presented (colour : Option Color) (s : MKPopViewController Color) : Prop where
  background : s.view.backgroundColor = colour
  transform : s.contentView.transform = .identity
  contentAlpha : s.contentView.alpha = 1
  alpha : s.view.alpha = 1
  isShow : s.isShow = true

structure Dismissed (s : MKPopViewController Color) : Prop where
  isShow : s.isShow = false
  alpha : s.view.alpha = 1

/-- Between two cycles: the scale-in style fades its content in itself. -/
structure Ready (style : PopStyle) (colour : Option Color)
    (s : MKPopViewController Color) : Prop where
  popStyle : s.popStyle = style
  background : s.view.backgroundColor = colour
  alpha : s.view.alpha = 1
  contentAlpha : style ≠ .center → s.contentView.alpha = 1

section Cycles

variable (clear : Color) {style : PopStyle} {colour : Option Color} {s : MKPopViewController Color}

/-- What a presentation shows, whatever was laid out. -/
theorem Ready.present (h : Ready style colour s) (notCustom : style ≠ .custom) (layout : Layout) :
    Presented colour (s.present clear layout) ∧ (s.present clear layout).popStyle = style := by
  obtain ⟨rfl, rfl, alpha, contentAlpha⟩ := h
  cases found : s.popStyle with
  | custom => exact absurd found notCustom
  | center =>
      refine ⟨⟨?_, ?_, ?_, ?_, rfl⟩, ?_⟩ <;>
        simp [MKPopViewController.present, calLayout, beforePop, inPoping, endPoping, found, alpha]
  | bottom | left | right | top =>
      have kept := contentAlpha (by simp [found])
      refine ⟨⟨?_, ?_, ?_, ?_, rfl⟩, ?_⟩ <;>
        simp [MKPopViewController.present, calLayout, beforePop, inPoping, endPoping, found, alpha,
          kept]

/-- A dismissal keeps the background only in the scale-in style: sliding out runs
    `beforePop`, which clears it. -/
theorem Presented.dismiss (h : Presented colour s) (found : s.popStyle = style)
    (notCustom : style ≠ .custom) :
    Dismissed (s.dismiss clear) ∧
      Ready style (if style = .center then colour else some clear) (s.dismiss clear) := by
  obtain ⟨rfl, transform, contentAlpha, alpha, shown⟩ := h
  cases style with
  | custom => exact absurd rfl notCustom
  | center =>
      refine ⟨⟨rfl, ?_⟩, ?_, ?_, ?_, ?_⟩ <;>
        simp [MKPopViewController.dismiss, beforeHide, inHiding, endHiding, found]
  | bottom | left | right | top =>
      refine ⟨⟨rfl, ?_⟩, ?_, ?_, ?_, ?_⟩ <;>
        simp [MKPopViewController.dismiss, beforeHide, inHiding, endHiding, beforePop, found,
          contentAlpha]

theorem Ready.cycles (h : Ready style colour s) (notCustom : style ≠ .custom)
    (layouts : List Layout) :
    Ready style (if style = .center ∨ layouts = [] then colour else some clear)
      (s.cycles clear layouts) := by
  induction layouts generalizing colour s with
  | nil => simpa [MKPopViewController.cycles] using h
  | cons layout layouts ih =>
      obtain ⟨shown, found⟩ := h.present clear notCustom layout
      have next := (shown.dismiss clear found notCustom).2
      have later := ih next
      rw [MKPopViewController.cycles, List.foldl_cons, ← MKPopViewController.cycles]
      by_cases center : style = .center
      · simpa [center] using later
      · simpa [center] using later

theorem loaded_ready (style : PopStyle) (colour : Option Color) (content : CGSize)
    (center contentCenter : CGPoint) :
    Ready style colour (loaded style colour content center contentCenter) :=
  ⟨rfl, rfl, rfl, fun _ => rfl⟩

end Cycles

/-- A cycle after `earlier` ones presents and dismisses as configured exactly in
    the scale-in style, the first time, or with a clear background. -/
theorem restored_iff (clear : Color) (style : PopStyle) (notCustom : style ≠ .custom)
    (colour : Option Color) (content : CGSize) (center contentCenter : CGPoint)
    (earlier : List Layout) (layout : Layout) :
    (Presented colour
        (((loaded style colour content center contentCenter).cycles clear earlier).present clear
          layout) ∧
      Dismissed
        ((((loaded style colour content center contentCenter).cycles clear earlier).present clear
          layout).dismiss clear)) ↔
      style = .center ∨ earlier = [] ∨ colour = some clear := by
  have ready := (loaded_ready style colour content center contentCenter).cycles clear
    notCustom earlier
  obtain ⟨shown, found⟩ := ready.present clear notCustom layout
  have hidden := (shown.dismiss clear found notCustom).1
  rw [and_iff_left hidden, ← or_assoc]
  constructor
  · intro restored
    by_cases fine : style = .center ∨ earlier = []
    · exact .inl fine
    · have background := shown.background
      rw [if_neg fine, restored.background] at background
      exact .inr background
  · rintro (fine | rfl)
    · rwa [if_pos fine] at shown
    · rwa [ite_self] at shown

/-- The second time a panel slides in, its dimmed background is gone. -/
theorem second_background_clear :
    ¬Presented (some "dim")
      (((loaded .bottom (some "dim") ⟨320, 200⟩ ⟨160, 240⟩ ⟨160, 380⟩).cycles "clear"
        [⟨⟨320, 200⟩, .zero⟩]).present "clear" ⟨⟨320, 200⟩, .zero⟩) := by
  intro shown
  have background := shown.background
  revert background
  decide

theorem restored_center :
    Presented (some "dim")
        (((loaded .center (some "dim") ⟨320, 200⟩ ⟨160, 240⟩ ⟨160, 380⟩).cycles "clear"
          [⟨⟨320, 200⟩, .zero⟩]).present "clear" ⟨⟨320, 200⟩, .zero⟩) ∧
      Dismissed
        ((((loaded .center (some "dim") ⟨320, 200⟩ ⟨160, 240⟩ ⟨160, 380⟩).cycles "clear"
          [⟨⟨320, 200⟩, .zero⟩]).present "clear" ⟨⟨320, 200⟩, .zero⟩).dismiss "clear") :=
  (restored_iff "clear" .center (by decide) (some "dim") ⟨320, 200⟩ ⟨160, 240⟩ ⟨160, 380⟩
    [⟨⟨320, 200⟩, .zero⟩] ⟨⟨320, 200⟩, .zero⟩).mpr (.inl rfl)

end LearningProjects.QuickUI.PopController
