import Mathlib.Data.Set.Basic

/-! # Repainting what has changed

A screen shows a picture of a model. Changing the model damages the points whose
picture may differ, and repainting a region that holds all the damage shows the
picture there and leaves every other point alone.
-/

namespace LearningProjects.Repaint

variable {Model Point Color : Type*}

/-- Every point outside the damage shows the picture of the model. -/
def Sound (picture : Model → Point → Color) (model : Model) (damage : Set Point)
    (screen : Point → Color) : Prop :=
  ∀ point, point ∉ damage → screen point = picture model point

variable {picture : Model → Point → Color} {model model' : Model} {damage region : Set Point}
  {screen screen' : Point → Color}

/-- With nothing damaged the screen is the picture. -/
theorem Sound.eq_picture (h : Sound picture model damage screen) {point : Point}
    (clean : point ∉ damage) : screen point = picture model point :=
  h point clean

/-- A change may add to the damage whatever it likes, if it adds what it changed. -/
theorem Sound.change (h : Sound picture model damage screen)
    (outside : ∀ point, point ∉ region → picture model' point = picture model point) :
    Sound picture model' (damage ∪ region) screen := by
  intro point clean
  rw [Set.mem_union, not_or] at clean
  rw [outside point clean.2]
  exact h point clean.1

/-- A repaint of a region that holds the damage leaves nothing damaged. -/
theorem Sound.repaint (h : Sound picture model damage screen) (covers : damage ⊆ region)
    (inside : ∀ point, point ∈ region → screen' point = picture model point)
    (outside : ∀ point, point ∉ region → screen' point = screen point) :
    Sound picture model ∅ screen' := by
  intro point _
  by_cases covered : point ∈ region
  · exact inside point covered
  · rw [outside point covered]
    exact h point fun damaged => covered (covers damaged)

end LearningProjects.Repaint
