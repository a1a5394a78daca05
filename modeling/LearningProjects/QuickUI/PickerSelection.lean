import LearningProjects.QuickUI.PickerLoops

/-! # What the picker selects and returns

After a confirmation the values stand in the order of the shown columns, which is how
the picker reads them when it appears. The default and a value for every column stand
in the order of the options, so a filter makes the picker look for a column's value in
another column.
-/

namespace LearningProjects.QuickUI.Picker

open Fallible MKPickerController

/-! ## Confirming twice -/

section Confirming

variable (beyond : Nat → Nat → Nat)

/-- The picker view of the columns, back at their first rows. -/
def MKPickerController.reset (s : MKPickerController) : MKPickerController :=
  { s with pickerView := some (.reloaded s.options (s.options.map fun _ => 0)) }

/-- A second confirmation, after the reset picker view has appeared again, repeats the
    first one, and the shown columns have the rows of the first. -/
def Repeats (s : MKPickerController) (rows : List Nat) : Prop :=
  ∃ t u v report, s.makeSelectedValues = .ok t ∧ t.confirmed = s.confirmed ++ [report] ∧
    t.reset.viewWillAppear beyond = .ok u ∧
    (∀ c ∈ s.shown, u.pickerView.bind (UIPickerView.row c) = rows[c]?) ∧
    u.makeSelectedValues = .ok v ∧ v.confirmed = t.confirmed ++ [report]

/-- The useful columns are there, and they are known if they are needed. -/
structure Usable (s : MKPickerController) : Prop where
  given : s.filterValues → s.usefulOptionsIndex ≠ none
  useful : ∀ useful, s.usefulOptionsIndex = some useful → ∀ c ∈ useful, c < s.options.length

/-- The picker view shows these rows of the options. -/
structure Confirmable (s : MKPickerController) (rows : List Nat) : Prop extends Usable s where
  inside : List.Forall₂ (fun column row => row < column.length) s.options rows
  selected : s.pickerView = some (.reloaded s.options rows)

variable {s : MKPickerController} {rows : List Nat}

theorem Usable.there (h : Usable s) : ∀ c ∈ s.shown, c < s.options.length := by
  unfold shown
  by_cases filtered : s.filterValues
  · obtain ⟨useful, known⟩ := Option.ne_none_iff_exists'.mp (h.given filtered)
    simpa only [filtered, if_true, known, Option.getD_some] using h.useful useful known
  · simp [filtered]

theorem returned_of_there (known : s.filterValues → s.usefulOptionsIndex ≠ none)
    (there : ∀ c ∈ s.shown, c < s.options.length) : s.returned = .ok s.shown := by
  refine returned_eq_ok_iff.mpr ⟨known, (List.filter_eq_self.mpr fun c member => ?_).symm⟩
  exact decide_eq_true (there c member)

theorem Usable.returned (h : Usable s) : s.returned = .ok s.shown :=
  returned_of_there h.given h.there

/-- The row which is selected in a column. -/
def rowOf (rows : List Nat) (column : Nat) : Nat := rows[column]?.getD 0

theorem rowOf_lt (inside : List.Forall₂ (fun column row => row < column.length) s.options rows)
    {c : Nat} (there : c < s.options.length) :
    ∃ column, s.options[c]? = some column ∧ rows[c]? = some (rowOf rows c) ∧
      rowOf rows c < column.length := by
  have bound : c < rows.length := inside.length_eq ▸ there
  refine ⟨s.options[c], List.getElem?_eq_getElem there, ?_, ?_⟩
  · rw [rowOf, List.getElem?_eq_getElem bound, Option.getD_some]
  · rw [rowOf, List.getElem?_eq_getElem bound, Option.getD_some]
    exact inside.get there bound

/-- In a column without repetitions a value leads back to its row. -/
theorem found_pick {columns : List Nat}
    (inside : List.Forall₂ (fun column row => row < column.length) s.options rows)
    (distinct : ∀ column ∈ s.options, column.Nodup) (there : ∀ c ∈ columns, c < s.options.length)
    {round : Nat × Nat} (member : round ∈ columns.zipIdx) :
    found s.options (columns.map fun c => (pick s.options (rowOf rows) c).1) round =
      some (rowOf rows round.1) := by
  have at_round := List.mem_zipIdx_iff_getElem?.mp member
  obtain ⟨column, known, -, bound⟩ := rowOf_lt inside (there _ (List.mem_of_getElem? at_round))
  have nodup := distinct column (List.mem_of_getElem? known)
  simp only [found, known, List.getElem?_map, at_round, Option.map_some, pick, Option.bind_eq_bind,
    Option.bind_some, List.getElem?_eq_getElem bound, Option.getD_some]
  rw [idxOf?_of_mem (List.getElem_mem bound), nodup.idxOf_getElem]

theorem lastRead_of_found {options : List (List String)} {values : List String}
    {rounds : List (Nat × Nat)} {row : Nat → Nat} {c : Nat}
    (all : ∀ round ∈ rounds, found options values round = some (row round.1))
    (member : ∃ round ∈ rounds, round.1 = c) :
    (lastRead options values rounds c).bind (found options values) = some (row c) := by
  obtain ⟨round, there, rfl⟩ := member
  cases last : lastRead options values rounds round.1 with
  | none =>
      rw [lastRead, List.getLast?_eq_none_iff, List.filter_eq_nil_iff] at last
      simpa [all round there] using last round there
  | some r =>
      obtain ⟨member, same, -⟩ := lastRead_eq_some last
      rw [Option.bind_some, all r member, same]

theorem picks_reloaded
    (inside : List.Forall₂ (fun column row => row < column.length) s.options rows) {c : Nat}
    (there : c < s.options.length) :
    Picks s.options (.reloaded s.options rows) (rowOf rows) c := by
  obtain ⟨column, known, at_row, bound⟩ := rowOf_lt inside there
  exact ⟨column, known, by rw [UIPickerView.row_reloaded inside.length_eq, at_row], bound⟩

/-- For every picker with columns without repetitions: confirming, appearing with a
    reset picker view and confirming again returns the same twice. -/
theorem confirm_repeats (s : MKPickerController) (rows : List Nat) (h : Confirmable s rows)
    (distinct : ∀ column ∈ s.options, column.Nodup) : Repeats beyond s rows := by
  have there := h.there
  have first := makeSelectedValues_eq h.returned h.selected fun c member =>
    picks_reloaded h.inside (there c member)
  have fits : (UIPickerView.reloaded s.options (s.options.map fun _ => 0)).Fits s.options :=
    UIPickerView.fits_reloaded (by simp)
  -- the values stand where the second appearance looks for them
  have at_row : ∀ round ∈ s.shown.zipIdx, found s.options
      (s.shown.map fun c => (pick s.options (rowOf rows) c).1) round = some (rowOf rows round.1) :=
    fun round member => found_pick h.inside distinct there member
  have readable : ∀ round ∈ s.shown.zipIdx, Readable s.options
      (s.shown.map fun c => (pick s.options (rowOf rows) c).1) round :=
    readable_iff.mpr ⟨there, by rw [List.length_map]⟩
  let t : MKPickerController := { s with
    values := some (s.shown.map fun c => (pick s.options (rowOf rows) c).1)
    indexs := s.shown.map (rowOf rows)
    confirmed := s.confirmed ++ [(s.shown.map fun c => (pick s.options (rowOf rows) c).1,
      s.shown.map (rowOf rows))] }
  obtain ⟨q, appeared, fitsAfter, after⟩ :=
    viewWillAppear_eq beyond (s := t.reset) rfl fits readable
  have row (c : Nat) (member : c ∈ s.shown) : q.row c = some (rowOf rows c) := by
    obtain ⟨k, at_c⟩ := List.getElem?_of_mem member
    have last := lastRead_of_found at_row ⟨(c, k), List.mem_zipIdx_iff_getElem?.mpr at_c, rfl⟩
    exact (after c).trans (congrArg (Option.or · _) last)
  have picks (c : Nat) (member : c ∈ s.shown) : Picks s.options q (rowOf rows) c := by
    obtain ⟨column, known, -, bound⟩ := rowOf_lt h.inside (there c member)
    exact ⟨column, known, row c member, bound⟩
  have second := makeSelectedValues_eq (s := { t.reset with pickerView := some q }) h.returned rfl
    picks
  refine ⟨t, _, _, _, first, rfl, appeared, fun c member => ?_, second, rfl⟩
  obtain ⟨column, -, at_c, -⟩ := rowOf_lt h.inside (there c member)
  rw [at_c]
  exact row c member

/-- Months and days with their units, the second month and the first day selected. -/
def monthDay : MKPickerController :=
  { start with
    options := [["1", "2", "3"], ["月"], ["12", "13", "24"], ["日"]]
    usefulOptionsIndex := some [2, 0]
    filterValues := true
    pickerView := some ⟨[⟨3, 1⟩, ⟨1, 0⟩, ⟨3, 0⟩, ⟨1, 0⟩]⟩ }

theorem monthDay_repeats :
    Confirmable monthDay [1, 0, 0, 0] ∧ (∀ column ∈ monthDay.options, column.Nodup) ∧
      Repeats (fun rows _ => rows - 1) monthDay [1, 0, 0, 0] := by
  have confirmable : Confirmable monthDay [1, 0, 0, 0] := by
    refine ⟨⟨?_, ?_⟩, ?_, rfl⟩
    · simp [monthDay]
    · simp [monthDay]
    · simp [monthDay, start]
  have distinct : ∀ column ∈ monthDay.options, column.Nodup := by
    simp [monthDay, start]
  exact ⟨confirmable, distinct, confirm_repeats _ monthDay [1, 0, 0, 0] confirmable distinct⟩

end Confirming

/-! ## Default values -/

/-- What the caller sets; what it does not set is left as it is. -/
structure Supplied where
  values : Option (List String)
  usefulOptionsIndex : Option (List Nat)
  deriving DecidableEq, Repr

def MKPickerController.supply (supplied : Supplied) (s : MKPickerController) :
    MKPickerController :=
  { s with
    values := supplied.values.or s.values
    usefulOptionsIndex := supplied.usefulOptionsIndex.or s.usefulOptionsIndex }

/-- A picker whose filter is set before its options. -/
def configured (filterValues : Bool) (options : List (List String)) (before after : Supplied) :
    MKPickerController :=
  (({ start with filterValues := filterValues }.supply before).setOptions options).supply after

/-- A value for each of the columns, which occurs in it. -/
def Occur (defaultValue : List String) (options : List (List String)) : Prop :=
  List.Forall₂ (fun value column => value ∈ column) defaultValue options

/-- Values for all columns that occur there, and columns that are there. -/
structure Supplied.Fits (options : List (List String)) (supplied : Supplied) : Prop where
  occur : ∀ defaultValue, supplied.values = some defaultValue → Occur defaultValue options
  there : ∀ useful, supplied.usefulOptionsIndex = some useful → ∀ c ∈ useful, c < options.length

/-- On its first appearance the picker selects each shown column's value, and an
    immediate confirmation returns these values. -/
def Preselects (beyond : Nat → Nat → Nat) (s : MKPickerController) : Prop :=
  ∃ values t u rows, s.values = some values ∧ s.viewWillAppear beyond = .ok t ∧
    (∀ c ∈ s.shown, ∀ column value, s.options[c]? = some column → values[c]? = some value →
      t.pickerView.bind (UIPickerView.row c) = some (column.idxOf value)) ∧
    t.makeSelectedValues = .ok u ∧
    u.confirmed = s.confirmed ++ [(s.shown.filterMap fun c => values[c]?, rows)]

/-- The last value at a position of the column that occurs in it, else its first entry. -/
def readValue (options : List (List String)) (values : List String) (rounds : List (Nat × Nat))
    (column : Nat) : Option String :=
  match lastRead options values rounds column with
  | some round => values[round.2]?
  | none => options[column]?.bind List.head?

/-- There are no more shown columns than options, and what is read for each of them by
    position is the column's own value. -/
def Aligned (s : MKPickerController) : Prop :=
  ∀ values, s.values = some values → s.shown.length ≤ s.options.length ∧
    ∀ c ∈ s.shown, readValue s.options values s.shown.zipIdx c = values[c]?

/-- A picker before its first appearance. -/
structure Configured (s : MKPickerController) (defaultValue : List String) : Prop
    extends Usable s where
  unloaded : s.pickerView = none
  values : s.values = some defaultValue
  occur : Occur defaultValue s.options

section Defaults

variable {s : MKPickerController} {defaultValue : List String}

theorem defaults_occur {options : List (List String)}
    (nonempty : ∀ column ∈ options, column ≠ []) :
    Occur (options.map fun vals => vals.head?.getD "") options := by
  rw [Occur, List.forall₂_map_left_iff, List.forall₂_same]
  intro column member
  obtain ⟨value, rest, rfl⟩ := List.exists_cons_of_ne_nil (nonempty column member)
  exact List.mem_cons_self

theorem configured_spec {filterValues : Bool} {options : List (List String)}
    {before after : Supplied} (nonempty : ∀ column ∈ options, column ≠ [])
    (fitsBefore : before.Fits options) (fitsAfter : after.Fits options) :
    ∃ defaultValue, Configured (configured filterValues options before after) defaultValue := by
  let derived := before.values.getD (options.map fun vals => vals.head?.getD "")
  have derivedOccur : Occur derived options := by
    unfold derived
    cases values : before.values with
    | none => exact defaults_occur nonempty
    | some given => exact fitsBefore.occur given values
  have occur : Occur (after.values.getD derived) options := by
    cases values : after.values with
    | none => exact derivedOccur
    | some given => exact fitsAfter.occur given values
  refine ⟨after.values.getD derived, ⟨?_, ?_⟩, ?_, ?_, ?_⟩
  · intro filtered
    simp only [configured, supply, setOptions_eq] at filtered ⊢
    simp [filtered]
  · intro useful known c member
    simp only [configured, supply, setOptions_eq, start, Option.or_none] at known ⊢
    rcases Option.or_eq_some_iff.mp known with known | ⟨-, known⟩
    · exact fitsAfter.there useful known c member
    cases known' : before.usefulOptionsIndex with
    | some given =>
        obtain rfl : given = useful := by simpa [known'] using known
        exact fitsBefore.there given known' c member
    | none =>
        rw [known'] at known
        split at known
        · obtain rfl : severalValued options = useful := by simpa using known
          exact lt_of_mem_severalValued member
        · simp at known
  · simp [configured, supply, setOptions_eq, start]
  · cases given : after.values <;> simp [configured, supply, setOptions_eq, start, derived, given]
  · simpa [configured, supply, setOptions_eq] using occur

theorem Occur.mem {options : List (List String)} (occur : Occur defaultValue options) {c : Nat}
    (there : c < options.length) :
    ∃ column value, options[c]? = some column ∧ defaultValue[c]? = some value ∧
      value ∈ column := by
  have bound : c < defaultValue.length := occur.length_eq ▸ there
  exact ⟨options[c], defaultValue[c], List.getElem?_eq_getElem there,
    List.getElem?_eq_getElem bound, occur.get bound there⟩

/-- The row that a shown column gets is its value's exactly if that value is read. -/
theorem row_eq_idxOf_iff {options : List (List String)} {rounds : List (Nat × Nat)} {c : Nat}
    {column : List String} {value : String} (known : options[c]? = some column)
    (member : value ∈ column) :
    ((lastRead options defaultValue rounds c).bind (found options defaultValue)).or (some 0) =
        some (column.idxOf value) ↔
      readValue options defaultValue rounds c = some value := by
  unfold readValue
  cases last : lastRead options defaultValue rounds c with
  | none =>
      have occupied := List.ne_nil_of_mem member
      simp [known, eq_comm, List.idxOf_eq_zero_iff_eq_nil_or_head_eq, occupied]
  | some round =>
      obtain ⟨-, rfl, row, at_row⟩ := lastRead_eq_some last
      rw [Option.bind_some, at_row, Option.some_or]
      simp only [found, known, Option.bind_eq_bind, Option.bind_some,
        Option.bind_eq_some_iff] at at_row
      obtain ⟨read, at_round, at_row⟩ := at_row
      have there : read ∈ column := List.isSome_idxOf?.mp (Option.isSome_of_mem at_row)
      rw [idxOf?_of_mem there] at at_row
      simp only [at_round, ← at_row, Option.some_inj, List.idxOf_inj there]

theorem Configured.readable_iff (h : Configured s defaultValue) :
    (∀ round ∈ s.shown.zipIdx, Readable s.options defaultValue round) ↔
      s.shown.length ≤ s.options.length := by
  rw [Picker.readable_iff, and_iff_right h.there, h.occur.length_eq]

/-- The rows of the columns' own values. -/
def ownRow (options : List (List String)) (defaultValue : List String) (column : Nat) : Nat :=
  (options[column]?.getD []).idxOf (defaultValue[column]?.getD "")

theorem Configured.own (h : Configured s defaultValue) {c : Nat} (member : c ∈ s.shown) :
    ∃ column value, s.options[c]? = some column ∧ defaultValue[c]? = some value ∧
      value ∈ column ∧ ownRow s.options defaultValue c = column.idxOf value := by
  obtain ⟨column, value, known, given, occurs⟩ := h.occur.mem (h.there c member)
  exact ⟨column, value, known, given, occurs, by simp [ownRow, known, given]⟩

/-- Before the first appearance all columns are at their first row. -/
theorem Configured.loaded (h : Configured s defaultValue) :
    s.loaded.Fits s.options ∧ ∀ c ∈ s.shown, s.loaded.row c = some 0 := by
  have first : s.loaded = .reloaded s.options (s.options.map fun _ => 0) := by
    rw [MKPickerController.loaded, h.unloaded, Option.getD_none]
  rw [first]
  refine ⟨UIPickerView.fits_reloaded (by simp), fun c member => ?_⟩
  rw [UIPickerView.row_reloaded (by simp)]
  simp [h.there c member]

theorem Configured.aligned_iff (h : Configured s defaultValue) : Aligned s ↔
    (∀ round ∈ s.shown.zipIdx, Readable s.options defaultValue round) ∧
      ∀ c ∈ s.shown, ((lastRead s.options defaultValue s.shown.zipIdx c).bind
        (found s.options defaultValue)).or (s.loaded.row c) =
          some (ownRow s.options defaultValue c) := by
  simp only [Aligned, h.values, Option.some_inj, forall_eq', h.readable_iff]
  refine and_congr_right fun _ => forall₂_congr fun c member => ?_
  obtain ⟨column, value, known, given, occurs, own⟩ := h.own member
  rw [h.loaded.2 c member, own, given, row_eq_idxOf_iff known occurs]

/-- A picker with its own rows returns its own values. -/
theorem Configured.returns (h : Configured s defaultValue) {q : UIPickerView}
    (row : ∀ c ∈ s.shown, q.row c = some (ownRow s.options defaultValue c)) :
    ∃ u rows, { s with pickerView := some q }.makeSelectedValues = .ok u ∧
      u.confirmed = s.confirmed ++ [(s.shown.filterMap fun c => defaultValue[c]?, rows)] := by
  have picks : ∀ c ∈ s.shown, Picks s.options q (ownRow s.options defaultValue) c := by
    intro c member
    obtain ⟨column, value, known, -, occurs, own⟩ := h.own member
    exact ⟨column, known, row c member, own ▸ List.idxOf_lt_length_of_mem occurs⟩
  have picked : (s.shown.map fun c => (pick s.options (ownRow s.options defaultValue) c).1) =
      s.shown.filterMap fun c => defaultValue[c]? := by
    rw [← List.filterMap_eq_map]
    refine List.filterMap_congr fun c member => ?_
    obtain ⟨column, value, known, given, occurs, own⟩ := h.own member
    have bound := List.idxOf_lt_length_of_mem occurs
    rw [Function.comp_apply, pick, known, own, Option.bind_some, List.getElem?_eq_getElem bound,
      List.getElem_idxOf, given]
    rfl
  have confirmed := makeSelectedValues_eq (s := { s with pickerView := some q }) h.returned rfl
    picks
  exact ⟨_, s.shown.map (ownRow s.options defaultValue), confirmed,
    congrArg (fun values => s.confirmed ++ [(values, _)]) picked⟩

variable (beyond : Nat → Nat → Nat)

/-- For every picker with values for all columns: what is selected and returned at first
    are the columns' own values exactly if the reading is aligned. -/
theorem Configured.preselects_iff (h : Configured s defaultValue) :
    Preselects beyond s ↔ Aligned s := by
  rw [h.aligned_iff]
  constructor
  · rintro ⟨values, t, u, rows, given, appeared, preselected, -, -⟩
    obtain rfl : values = defaultValue := Option.some.inj (given.symm.trans h.values)
    have readable : ∀ round ∈ s.shown.zipIdx, Readable s.options values round := fun r member =>
      ((viewWillAppear_returns_iff beyond).mp ⟨t, appeared⟩ values given r member).1
    obtain ⟨q, appeared', -, at_row⟩ := viewWillAppear_eq beyond given h.loaded.1 readable
    obtain rfl := Except.ok.inj (appeared.symm.trans appeared')
    refine ⟨readable, fun c member => ?_⟩
    obtain ⟨column, value, known, given, -, own⟩ := h.own member
    rw [← at_row, own]
    exact preselected c member column value known given
  · rintro ⟨readable, own⟩
    obtain ⟨q, appeared, -, at_row⟩ := viewWillAppear_eq beyond h.values h.loaded.1 readable
    have row (c : Nat) (member : c ∈ s.shown) : q.row c = some (ownRow s.options defaultValue c) :=
      (at_row c).trans (own c member)
    obtain ⟨u, rows, confirmed, reported⟩ := h.returns row
    refine ⟨defaultValue, _, u, rows, h.values, appeared, ?_, confirmed, reported⟩
    intro c member column value known given
    rw [Option.bind_some, row c member, ownRow, known, given]
    rfl

/-- For all options and values: a picker whose filter is set first selects and returns its
    columns' values exactly if the reading is aligned. -/
theorem preselects_iff_aligned (filterValues : Bool) (options : List (List String))
    (before after : Supplied) (nonempty : ∀ column ∈ options, column ≠ [])
    (fitsBefore : before.Fits options) (fitsAfter : after.Fits options) :
    Preselects beyond (configured filterValues options before after) ↔
      Aligned (configured filterValues options before after) := by
  obtain ⟨defaultValue, h⟩ := configured_spec nonempty fitsBefore fitsAfter
  exact h.preselects_iff beyond

/-- The first month and day with their units. -/
theorem monthDay_preselects : (∀ column ∈ monthDay.options, column ≠ []) ∧
    Supplied.Fits monthDay.options ⟨none, none⟩ ∧ Preselects (fun rows _ => rows - 1)
      (configured true monthDay.options ⟨none, none⟩ ⟨none, none⟩) := by
  have nonempty : ∀ column ∈ monthDay.options, column ≠ [] := by simp [monthDay]
  have fits : Supplied.Fits monthDay.options ⟨none, none⟩ := ⟨by simp, by simp⟩
  refine ⟨nonempty, fits, (preselects_iff_aligned _ true monthDay.options ⟨none, none⟩ ⟨none, none⟩
    nonempty fits fits).mpr ?_⟩
  rintro values ⟨⟩
  exact ⟨by decide, by decide⟩

/-- The second day of the second month: the day is looked for under the month's unit. -/
theorem monthDay_misread : (∀ column ∈ monthDay.options, column ≠ []) ∧
    Supplied.Fits monthDay.options ⟨some ["2", "月", "13", "日"], none⟩ ∧
    ¬Preselects (fun rows _ => rows - 1) (configured true monthDay.options ⟨none, none⟩
      ⟨some ["2", "月", "13", "日"], none⟩) := by
  refine ⟨by simp [monthDay], ⟨by simp [Occur, monthDay], by simp⟩, ?_⟩
  rintro ⟨values, t, u, rows, ⟨⟩, appeared, preselected, -⟩
  obtain rfl := Except.ok.inj appeared
  have day := preselected 2 (by decide) ["12", "13", "24"] "13" rfl rfl
  have first_day : 0 = 1 := Option.some.inj day
  exact absurd first_day (by decide)

end Defaults

end LearningProjects.QuickUI.Picker
