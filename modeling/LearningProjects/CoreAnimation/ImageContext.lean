import Mathlib.Algebra.Field.Rat
import Mathlib.Algebra.Order.Ring.Rat
import Mathlib.Tactic.Common

/-! # Bitmap contexts

The image lists draw what they read from a file into a bitmap context of their
own and keep the image of that context. A context without an area has none.
-/

namespace LearningProjects.CoreAnimation

structure CGSize where
  width : Rat
  height : Rat
  deriving DecidableEq, Repr

namespace CGSize

def zero : CGSize := ⟨0, 0⟩

def hasArea (size : CGSize) : Prop := 0 < size.width ∧ 0 < size.height

instance (size : CGSize) : Decidable size.hasArea := inferInstanceAs (Decidable (_ ∧ _))

end CGSize

/-- An image without content is a blank one. -/
structure UIImage (Content : Type*) where
  content : Option Content
  size : CGSize
  deriving DecidableEq, Repr

variable {Content : Type*}

/-- `UIGraphicsGetImageFromCurrentImageContext` after `image?.draw` in a context of
    this size. -/
def imageFromContext (size : CGSize) (image : Option (UIImage Content)) :
    Option (UIImage Content) :=
  if size.hasArea then some ⟨image.bind UIImage.content, size⟩ else none

theorem imageFromContext_eq_some {size : CGSize} {image : Option (UIImage Content)}
    {drawn : UIImage Content} :
    imageFromContext size image = some drawn ↔
      size.hasArea ∧ drawn = ⟨image.bind UIImage.content, size⟩ := by
  rw [imageFromContext, Option.ite_none_right_eq_some, Option.some.injEq, eq_comm (a := drawn)]

end LearningProjects.CoreAnimation
