import LearningProjects.Fallible
import LearningProjects.Machine
import Mathlib.Data.List.Induction
import Mathlib.Data.List.Nodup

/-! # The picker

A picker shows columns of options and returns the values that are selected in some of
them. The same `values` say what to select when the picker appears: the reader takes
them by their position among the columns that are shown, and so does the writer, but
the default has one value for each column of the options. A string stands here for
all strings that `==` takes for the same.
-/

namespace LearningProjects.QuickUI.Picker

inductive Trap where
  | unwrappedNil
  | indexOutOfRange
  /-- A component that the picker view does not have. -/
  | noComponent
  deriving DecidableEq, Repr

/-- A column of the picker view: how many rows it was told, and the selected one. -/
structure Component where
  rows : Nat
  selected : Nat
  deriving DecidableEq, Repr

/-- The picker view asks for the columns when it is first needed, and keeps them. -/
structure UIPickerView where
  components : List Component
  deriving DecidableEq, Repr

/-- The picker view is there once the view is loaded. `confirmed` is a log of the calls
    of `callBackClosure`. -/
structure MKPickerController where
  options : List (List String)
  values : Option (List String)
  usefulOptionsIndex : Option (List Nat)
  filterValues : Bool
  indexs : List Nat
  pickerView : Option UIPickerView
  confirmed : List (List String × List Nat)
  deriving DecidableEq, Repr

def element {α : Type} (xs : List α) (i : Nat) : Except Trap α :=
  match xs[i]? with
  | some x => .ok x
  | none => .error .indexOutOfRange

namespace UIPickerView

/-- The columns as they are now, with these rows selected. -/
def reloaded (options : List (List String)) (rows : List Nat) : UIPickerView :=
  ⟨List.zipWith (fun column row => ⟨column.length, row⟩) options rows⟩

/-- `beyond` is what UIKit selects in so many rows for a row that is not there. -/
def selectRow (beyond : Nat → Nat → Nat) (row component : Nat) (p : UIPickerView) :
    Except Trap UIPickerView :=
  match p.components[component]? with
  | some c =>
      let selected := if row < c.rows then row else beyond c.rows row
      .ok ⟨p.components.set component { c with selected := selected }⟩
  | none => .error .noComponent

def selectedRow (component : Nat) (p : UIPickerView) : Except Trap Nat :=
  match p.components[component]? with
  | some c => .ok c.selected
  | none => .error .noComponent

end UIPickerView

namespace MKPickerController

def start : MKPickerController := ⟨[], none, none, false, [], none, []⟩

/-- The columns with more than one value. -/
def severalValued (options : List (List String)) : List Nat :=
  (options.zipIdx.filter fun vals => decide (vals.1.length > 1)).map Prod.snd

def deriveUseful (s : MKPickerController) : MKPickerController :=
  if s.filterValues then
    match s.usefulOptionsIndex with
    | none => { s with usefulOptionsIndex := some (severalValued s.options) }
    | some _ => s
  else if s.filterValues then
    { s with usefulOptionsIndex := some (List.range s.options.length) }
  else s

def deriveValues (s : MKPickerController) : MKPickerController :=
  match s.values with
  | none => { s with values := some (s.options.map fun vals => vals.head?.getD "") }
  | some _ => s

/-- The assignment and its `didSet`. -/
def setOptions (options : List (List String)) (s : MKPickerController) : MKPickerController :=
  { s with options := options }.deriveUseful.deriveValues

theorem lt_of_mem_severalValued {options : List (List String)} {column : Nat}
    (member : column ∈ severalValued options) : column < options.length := by
  obtain ⟨vals, kept, rfl⟩ := List.mem_map.mp member
  have there := List.mem_zipIdx_iff_getElem?.mp (List.mem_of_mem_filter kept)
  exact (List.getElem?_eq_some_iff.mp there).1

theorem deriveUseful_eq (s : MKPickerController) : s.deriveUseful = { s with
    usefulOptionsIndex := if s.filterValues
      then some (s.usefulOptionsIndex.getD (severalValued s.options))
      else s.usefulOptionsIndex } := by
  obtain ⟨options, values, useful, filterValues, indexs, pickerView, confirmed⟩ := s
  cases filterValues <;> cases useful <;> rfl

theorem deriveValues_eq (s : MKPickerController) : s.deriveValues = { s with
    values := some (s.values.getD (s.options.map fun vals => vals.head?.getD "")) } := by
  obtain ⟨options, values, useful, filterValues, indexs, pickerView, confirmed⟩ := s
  cases values <;> rfl

/-- What is given survives an assignment of the options, the rest is derived. -/
theorem setOptions_eq (options : List (List String)) (s : MKPickerController) :
    s.setOptions options = { s with
      options := options
      usefulOptionsIndex := if s.filterValues
        then some (s.usefulOptionsIndex.getD (severalValued options))
        else s.usefulOptionsIndex
      values := some (s.values.getD (options.map fun vals => vals.head?.getD "")) } := by
  rw [setOptions, deriveUseful_eq, deriveValues_eq]

/-- The columns that are shown, in the order in which they are read. -/
def shown (s : MKPickerController) : List Nat :=
  if s.filterValues then s.usefulOptionsIndex.getD (List.range s.options.length)
  else List.range s.options.length

/-- The picker view when the view appears. -/
def loaded (s : MKPickerController) : UIPickerView :=
  s.pickerView.getD (.reloaded s.options (s.options.map fun _ => 0))

/-- Selects the default value of one column. -/
def selectDefault (beyond : Nat → Nat → Nat) (options : List (List String))
    (defaultValue : List String) (pickerView : UIPickerView) (round : Nat × Nat) :
    Except Trap UIPickerView := do
  let (comIndex, valueIndex) := round
  let column ← element options comIndex
  let value ← element defaultValue valueIndex
  match column.idxOf? value with
  | some rowIndex => pickerView.selectRow beyond rowIndex comIndex
  | none => return pickerView

def viewWillAppear (beyond : Nat → Nat → Nat) (s : MKPickerController) :
    Except Trap MKPickerController := do
  match s.values with
  | some defaultValue =>
      let pickerView ← s.shown.zipIdx.foldlM (selectDefault beyond s.options defaultValue) s.loaded
      return { s with pickerView := some pickerView }
  | none => return { s with pickerView := some s.loaded }

/-- The columns that are returned. -/
def returned (s : MKPickerController) : Except Trap (List Nat) :=
  if s.filterValues then
    match s.usefulOptionsIndex with
    | some useful => .ok (useful.filter fun index => decide (index < s.options.length))
    | none => .error .unwrappedNil
  else .ok (List.range s.options.length)

/-- The value and the row which is selected in a column. -/
def selectedValue (options : List (List String)) (pickerView : UIPickerView) (index : Nat) :
    Except Trap (String × Nat) := do
  let row ← pickerView.selectedRow index
  let column ← element options index
  let value ← element column row
  return (value, row)

def confirm (s : MKPickerController) : MKPickerController :=
  { s with confirmed := s.confirmed ++ [(s.values.getD [], s.indexs)] }

def makeSelectedValues (s : MKPickerController) : Except Trap MKPickerController := do
  let columns ← s.returned
  let pickerView ← match s.pickerView with
    | some pickerView => pure pickerView
    | none => throw .unwrappedNil
  let selected ← columns.mapM (selectedValue s.options pickerView)
  return { s with
    values := some (selected.map Prod.fst)
    indexs := selected.map Prod.snd }.confirm

end MKPickerController

end LearningProjects.QuickUI.Picker
