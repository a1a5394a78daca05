import LearningProjects.QuickUI.Picker

/-! # What the picker's loops do

`viewWillAppear` selects the last value that is read and found for each column, and
`makeSelectedValues` returns what is selected. Each loop comes with what it needs in
order to return.
-/

namespace LearningProjects.QuickUI.Picker

open Fallible MKPickerController

def UIPickerView.row (component : Nat) (p : UIPickerView) : Option Nat :=
  p.components[component]?.map Component.selected

/-- The picker view has the columns of the options. -/
def UIPickerView.Fits (options : List (List String)) (p : UIPickerView) : Prop :=
  ∀ c : Nat, p.components[c]?.map Component.rows = options[c]?.map List.length

/-- The row of the value in its column, where there are both and it occurs. -/
def found (options : List (List String)) (values : List String) (round : Nat × Nat) : Option Nat :=
  do
    let column ← options[round.1]?
    let value ← values[round.2]?
    column.idxOf? value

/-- The last value that is read and found for a column, by its position. -/
def lastRead (options : List (List String)) (values : List String) (rounds : List (Nat × Nat))
    (column : Nat) : Option (Nat × Nat) :=
  (rounds.filter fun round =>
    decide (round.1 = column) && (found options values round).isSome).getLast?

section Loops

variable (beyond : Nat → Nat → Nat) {options : List (List String)} {values : List String}
  {p q : UIPickerView} {c row : Nat}

theorem UIPickerView.components_reloaded (options : List (List String)) (rows : List Nat) :
    (reloaded options rows).components[c]? =
      options[c]?.bind fun column => rows[c]?.map fun row => ⟨column.length, row⟩ := by
  rw [reloaded, List.getElem?_zipWith]
  cases options[c]? <;> cases rows[c]? <;> rfl

theorem UIPickerView.fits_reloaded {rows : List Nat} (count : options.length = rows.length) :
    (reloaded options rows).Fits options := by
  intro c
  rw [components_reloaded]
  cases there : options[c]? with
  | none => rfl
  | some column =>
      have bound := (List.getElem?_eq_some_iff.mp there).1
      rw [Option.bind_some, List.getElem?_eq_getElem (by omega)]
      rfl

theorem UIPickerView.row_reloaded {rows : List Nat} (count : options.length = rows.length) :
    (reloaded options rows).row c = rows[c]? := by
  rw [row, components_reloaded]
  cases there : options[c]? with
  | none =>
      have bound := List.getElem?_eq_none_iff.mp there
      exact (List.getElem?_eq_none_iff.mpr (by omega)).symm
  | some column => cases rows[c]? <;> rfl

theorem idxOf?_of_mem {column : List String} {value : String} (member : value ∈ column) :
    column.idxOf? value = some (column.idxOf value) := by
  obtain ⟨row, at_row⟩ := Option.isSome_iff_exists.mp (List.isSome_idxOf?.mpr member)
  rw [List.idxOf_eq_getD_idxOf?, at_row, Option.getD_some]

/-- A row that its column has is selected. -/
theorem UIPickerView.Fits.selectRow (h : p.Fits options) {column : List String}
    (there : options[c]? = some column) (inside : row < column.length) :
    ∃ q, p.selectRow beyond row c = .ok q ∧ q.Fits options ∧
      ∀ d, q.row d = if d = c then some row else p.row d := by
  have rows := h c
  rw [there, Option.map_some, Option.map_eq_some_iff] at rows
  obtain ⟨component, known, count⟩ := rows
  have bound := (List.getElem?_eq_some_iff.mp known).1
  refine ⟨⟨p.components.set c ⟨component.rows, row⟩⟩, ?_, fun d => ?_, fun d => ?_⟩
  · simp only [UIPickerView.selectRow, known, count, if_pos inside]
  · by_cases same : c = d
    · subst same
      rw [List.getElem?_set_self bound, there]
      exact congrArg some count
    · rw [List.getElem?_set_ne same]
      exact h d
  · by_cases same : d = c
    · subst same
      rw [if_pos rfl, UIPickerView.row, List.getElem?_set_self bound]
      rfl
    · rw [if_neg same, UIPickerView.row, List.getElem?_set_ne (Ne.symm same), UIPickerView.row]

theorem found_lt {round : Nat × Nat} (h : found options values round = some row) :
    ∃ column, options[round.1]? = some column ∧ row < column.length := by
  simp only [found, Option.bind_eq_bind, Option.bind_eq_some_iff] at h
  obtain ⟨column, there, value, -, at_row⟩ := h
  exact ⟨column, there, (List.idxOf?_eq_some_iff.mp at_row).1⟩

omit beyond in
theorem lastRead_eq_some {rounds : List (Nat × Nat)} {round : Nat × Nat}
    (last : lastRead options values rounds c = some round) :
    round ∈ rounds ∧ round.1 = c ∧ ∃ row, found options values round = some row := by
  have kept := List.mem_filter.mp (List.mem_of_getLast? last)
  simpa only [Bool.and_eq_true, decide_eq_true_eq, Option.isSome_iff_exists] using kept

/-- Both lists have the round's element. -/
def Readable (options : List (List String)) (values : List String) (round : Nat × Nat) : Prop :=
  round.1 < options.length ∧ round.2 < values.length

omit beyond in
theorem readable_iff {columns : List Nat} :
    (∀ round ∈ columns.zipIdx, Readable options values round) ↔
      (∀ c ∈ columns, c < options.length) ∧ columns.length ≤ values.length := by
  constructor
  · intro readable
    refine ⟨fun c member => ?_, ?_⟩
    · obtain ⟨k, at_c⟩ := List.getElem?_of_mem member
      exact (readable (c, k) (List.mem_zipIdx_iff_getElem?.mpr at_c)).1
    · by_contra more
      have bound : values.length < columns.length := not_le.mp more
      exact lt_irrefl _ (readable (columns[values.length], values.length)
        (List.mem_zipIdx_iff_getElem?.mpr (List.getElem?_eq_getElem bound))).2
  · rintro ⟨there, count⟩ round member
    have at_round := List.mem_zipIdx_iff_getElem?.mp member
    have bound := (List.getElem?_eq_some_iff.mp at_round).1
    exact ⟨there _ (List.mem_of_getElem? at_round), Nat.lt_of_lt_of_le bound count⟩

theorem selectDefault_eq {round : Nat × Nat} (readable : Readable options values round) :
    selectDefault beyond options values p round = match found options values round with
      | some row => p.selectRow beyond row round.1
      | none => .ok p := by
  simp only [selectDefault, element, found, List.getElem?_eq_getElem readable.1,
    List.getElem?_eq_getElem readable.2]
  rfl

omit beyond in
theorem element_eq_ok {α : Type} {xs : List α} {i : Nat} {x : α} :
    element xs i = .ok x ↔ xs[i]? = some x := by
  unfold element
  cases xs[i]? <;> simp

theorem UIPickerView.selectRow_returns_iff :
    (∃ q, p.selectRow beyond row c = .ok q) ↔ c < p.components.length := by
  unfold UIPickerView.selectRow
  cases there : p.components[c]? with
  | none => simpa using List.getElem?_eq_none_iff.mp there
  | some component => simpa using (List.getElem?_eq_some_iff.mp there).1

theorem UIPickerView.length_selectRow (selected : p.selectRow beyond row c = .ok q) :
    q.components.length = p.components.length := by
  unfold UIPickerView.selectRow at selected
  cases there : p.components[c]? with
  | none => simp [there] at selected
  | some component =>
      rw [there] at selected
      rw [← Except.ok.inj selected, List.length_set]

/-- A default can be selected if its value can be read and the picker view has the
    component, which it only needs for a value that occurs. -/
theorem selectDefault_returns_iff {round : Nat × Nat} :
    (∃ q, selectDefault beyond options values p round = .ok q) ↔
      Readable options values round ∧
        ((found options values round).isSome → round.1 < p.components.length) := by
  by_cases readable : Readable options values round
  · rw [selectDefault_eq beyond readable]
    cases found options values round with
    | none => simp [readable]
    | some row => simp [readable, UIPickerView.selectRow_returns_iff]
  · refine iff_of_false ?_ fun h => readable h.1
    rintro ⟨q, returned⟩
    obtain ⟨column, known, returned⟩ := bind_eq_ok.mp returned
    obtain ⟨value, given, -⟩ := bind_eq_ok.mp returned
    exact readable ⟨(List.getElem?_eq_some_iff.mp (element_eq_ok.mp known)).1,
      (List.getElem?_eq_some_iff.mp (element_eq_ok.mp given)).1⟩

theorem length_selectDefault {round : Nat × Nat}
    (selected : selectDefault beyond options values p round = .ok q) :
    q.components.length = p.components.length := by
  have readable := ((selectDefault_returns_iff beyond).mp ⟨q, selected⟩).1
  rw [selectDefault_eq beyond readable] at selected
  cases at_row : found options values round with
  | none => simp_all
  | some row =>
      rw [at_row] at selected
      exact UIPickerView.length_selectRow beyond selected

/-- The picker can appear if all its values can be read, and the picker view has the
    components of those that occur. -/
theorem viewWillAppear_returns_iff {s : MKPickerController} :
    (∃ t, s.viewWillAppear beyond = .ok t) ↔ ∀ defaultValue, s.values = some defaultValue →
      ∀ round ∈ s.shown.zipIdx, Readable s.options defaultValue round ∧
        ((found s.options defaultValue round).isSome →
          round.1 < s.loaded.components.length) := by
  cases given : s.values with
  | none =>
      simp only [viewWillAppear, given, reduceCtorEq, false_imp_iff, implies_true, iff_true]
      exact ⟨_, rfl⟩
  | some defaultValue =>
      have loop : (∃ q, s.shown.zipIdx.foldlM (selectDefault beyond s.options defaultValue)
            s.loaded = .ok q) ↔
          ∀ round ∈ s.shown.zipIdx, Readable s.options defaultValue round ∧
            ((found s.options defaultValue round).isSome →
              round.1 < s.loaded.components.length) :=
        foldlM_returns_iff (I := fun p => p.components.length = s.loaded.components.length)
          (fun p round same => by rw [selectDefault_returns_iff, same])
          (fun p round q same selected => (length_selectDefault beyond selected).trans same) rfl
      simp only [Option.some_inj, forall_eq', ← loop, viewWillAppear, given]
      constructor
      · rintro ⟨t, returned⟩
        obtain ⟨q, selected, -⟩ := bind_eq_ok.mp returned
        exact ⟨q, selected⟩
      · rintro ⟨q, selected⟩
        exact ⟨_, bind_eq_ok.mpr ⟨q, selected, rfl⟩⟩

/-- Each shown column has the row of the last value which was found for it, or the row
    it had. -/
theorem selectDefaults (fits : p.Fits options) {rounds : List (Nat × Nat)}
    (readable : ∀ round ∈ rounds, Readable options values round) :
    ∃ q, rounds.foldlM (selectDefault beyond options values) p = .ok q ∧ q.Fits options ∧
      ∀ c, q.row c =
        ((lastRead options values rounds c).bind (found options values)).or (p.row c) := by
  induction rounds using List.reverseRec with
  | nil => exact ⟨p, rfl, fits, fun c => rfl⟩
  | append_singleton rounds round ih =>
      obtain ⟨q, before, fitsBefore, rows⟩ := ih fun r member => readable r (by simp [member])
      rw [List.foldlM_append, before]
      simp only [bind, Except.bind, List.foldlM_cons, List.foldlM_nil, lastRead,
        getLast?_filter_concat, selectDefault_eq beyond (readable round (by simp))]
      cases at_row : found options values round with
      | none =>
          refine ⟨q, rfl, fitsBefore, fun c => ?_⟩
          simpa [lastRead] using rows c
      | some row =>
          obtain ⟨column, there, inside⟩ := found_lt at_row
          obtain ⟨r, selected, fitsAfter, after⟩ := fitsBefore.selectRow beyond there inside
          refine ⟨r, by simp only [selected]; rfl, fitsAfter, fun c => ?_⟩
          rw [after, rows]
          by_cases same : c = round.1
          · simp [same, at_row]
          · simp [same, Ne.symm same, lastRead]

omit beyond in
/-- The returned columns are the shown ones that are there. -/
theorem returned_eq_ok_iff {s : MKPickerController} {columns : List Nat} :
    s.returned = .ok columns ↔
    (s.filterValues → s.usefulOptionsIndex ≠ none) ∧
      columns = s.shown.filter fun c => decide (c < s.options.length) := by
  unfold returned shown
  by_cases filtered : s.filterValues
  · cases useful : s.usefulOptionsIndex with
    | none => simp [filtered]
    | some useful => simp [filtered, eq_comm]
  · have all_there : ((List.range s.options.length).filter fun c =>
        decide (c < s.options.length)) = List.range s.options.length :=
      List.filter_eq_self.mpr (by simp)
    simp [filtered, all_there, eq_comm]

/-- The value and the row of a column, for the rows that are selected. -/
def pick (options : List (List String)) (rows : Nat → Nat) (column : Nat) : String × Nat :=
  ((options[column]?.bind fun values => values[rows column]?).getD "", rows column)

/-- The selected rows are there. -/
def Picks (options : List (List String)) (p : UIPickerView) (rows : Nat → Nat) (c : Nat) : Prop :=
  ∃ column, options[c]? = some column ∧ p.row c = some (rows c) ∧ rows c < column.length

omit beyond in
theorem selectedValue_eq {rows : Nat → Nat} (picks : Picks options p rows c) :
    selectedValue options p c = .ok (pick options rows c) := by
  obtain ⟨column, there, at_row, inside⟩ := picks
  obtain ⟨component, known, selected⟩ := Option.map_eq_some_iff.mp at_row
  simp only [selectedValue, UIPickerView.selectedRow, known, element, there, pick, bind,
    Except.bind, Option.bind, selected, List.getElem?_eq_getElem inside]
  rfl

omit beyond in
/-- A confirmation returns what is selected in the returned columns. -/
theorem makeSelectedValues_eq {s : MKPickerController} {columns : List Nat} {rows : Nat → Nat}
    (returned : s.returned = .ok columns) (view : s.pickerView = some p)
    (picks : ∀ c ∈ columns, Picks s.options p rows c) :
    s.makeSelectedValues = .ok { s with
      values := some (columns.map fun c => (pick s.options rows c).1)
      indexs := columns.map rows
      confirmed := s.confirmed ++ [(columns.map fun c => (pick s.options rows c).1,
        columns.map rows)] } := by
  have loop : columns.mapM (selectedValue s.options p) =
      .ok (columns.map (pick s.options rows)) := by
    rw [mapM_congr fun c member => selectedValue_eq (picks c member)]
    exact List.mapM_pure
  simp only [makeSelectedValues, returned, view, bind, Except.bind, pure, Except.pure, loop,
    confirm, List.map_map, Option.getD_some, Function.comp_def]
  rfl

/-- The picker appears with the last values that were found, and otherwise as it was. -/
theorem viewWillAppear_eq {s : MKPickerController} {defaultValue : List String}
    (given : s.values = some defaultValue) (fits : s.loaded.Fits s.options)
    (readable : ∀ round ∈ s.shown.zipIdx, Readable s.options defaultValue round) :
    ∃ q, s.viewWillAppear beyond = .ok { s with pickerView := some q } ∧ q.Fits s.options ∧
      ∀ c, q.row c = ((lastRead s.options defaultValue s.shown.zipIdx c).bind
        (found s.options defaultValue)).or (s.loaded.row c) := by
  obtain ⟨q, selected, fitsAfter, rows⟩ := selectDefaults beyond fits readable
  refine ⟨q, ?_, fitsAfter, rows⟩
  simp only [viewWillAppear, given, selected]
  rfl

end Loops

end LearningProjects.QuickUI.Picker
