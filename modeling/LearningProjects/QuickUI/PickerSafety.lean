import LearningProjects.QuickUI.PickerSelection

/-! # When the picker stops the program

The properties can be set in any order, between appearances and confirmations. Only the
options derive the other ones, and only where there is nothing yet: a filter which is
set later has no columns, and what was derived for other options stays. Which orders do
not stop the program can be told from the events alone.
-/

namespace LearningProjects.QuickUI.Picker

open Fallible MKPickerController

/-- The user turns a component of the picker view to one of its rows. -/
def UIPickerView.turn (component row : Nat) (p : UIPickerView) : Option UIPickerView := do
  let c ← p.components[component]?
  if row < c.rows then some ⟨p.components.set component { c with selected := row }⟩ else none

inductive Event where
  | setOptions (options : List (List String))
  | setFilterValues (filterValues : Bool)
  | setUsefulOptionsIndex (usefulOptionsIndex : Option (List Nat))
  | setValues (values : Option (List String))
  | viewWillAppear
  | confirm
  | turn (component row : Nat)
  /-- The picker view asks for the columns again. -/
  | reload (rows : List Nat)
  deriving DecidableEq, Repr

/-- The picker with all that is public. The values and the indices fit the options at the
    time when they are set. -/
def picker (beyond : Nat → Nat → Nat) : Machine (Except Trap MKPickerController) Event where
  step
    | .error _, _ => none
    | .ok s, .setOptions options =>
        if options.all (!·.isEmpty) then some (.ok (s.setOptions options)) else none
    | .ok s, .setFilterValues filterValues => some (.ok { s with filterValues := filterValues })
    | .ok s, .setUsefulOptionsIndex useful =>
        if useful.all (·.all (decide <| · < s.options.length))
          then some (.ok { s with usefulOptionsIndex := useful }) else none
    | .ok s, .setValues values =>
        if values.all (decide <| ·.length = s.options.length)
          then some (.ok { s with values := values }) else none
    | .ok s, .viewWillAppear => some (s.viewWillAppear beyond)
    | .ok s, .confirm => if s.pickerView.isSome then some s.makeSelectedValues else none
    | .ok s, .turn component row =>
        (s.pickerView.bind (·.turn component row)).map fun p => .ok { s with pickerView := some p }
    | .ok s, .reload rows =>
        if s.pickerView.isSome ∧ List.Forall₂ (fun column row => row < column.length) s.options rows
          then some (.ok { s with pickerView := some (.reloaded s.options rows) }) else none

/-! ## Orders of configuration -/

/-- What the events so far amount to. The columns are those given for a filter, or else the
    ones with several values of the options that were set while the filter was on; of the
    values only their number matters. A picker view that was loaded for columns of other
    lengths is stale until it asks for them again. -/
structure Configuration where
  options : List (List String)
  filterValues : Bool
  columns : Option (List Nat)
  values : Option Nat
  appeared : Bool
  stale : Bool
  deriving DecidableEq, Repr

namespace Configuration

def start : Configuration := ⟨[], false, none, none, false, false⟩

/-- The columns that the picker is to show. -/
def shown (g : Configuration) : List Nat :=
  if g.filterValues then g.columns.getD (List.range g.options.length)
  else List.range g.options.length

def next (g : Configuration) : Event → Configuration
  | .setOptions options =>
      { g with
        options := options
        columns := if g.filterValues then some (g.columns.getD (severalValued options))
          else g.columns
        values := some (g.values.getD options.length)
        stale := g.stale ||
          (g.appeared && decide (options.map List.length ≠ g.options.map List.length)) }
  | .setFilterValues filterValues => { g with filterValues := filterValues }
  | .setUsefulOptionsIndex useful => { g with columns := useful }
  | .setValues values => { g with values := values.map List.length }
  | .viewWillAppear => { g with appeared := true }
  | .confirm => { g with values := some g.shown.length }
  | .turn _ _ => g
  | .reload _ => { g with stale := false }

/-- All shown columns are there and have a value, and the columns of a filter are known
    once the picker has appeared. -/
structure Fits (g : Configuration) : Prop where
  known : g.filterValues → g.appeared → g.columns ≠ none
  there : ∀ c ∈ g.shown, c < g.options.length
  valued : ∀ count, g.values = some count → g.shown.length ≤ count

/-- The picker neither appears nor is confirmed with a stale picker view. -/
def Fresh (g : Configuration) : Event → Prop
  | .viewWillAppear | .confirm => g.stale = false
  | _ => True

instance (g : Configuration) : Decidable g.Fits :=
  decidable_of_iff ((g.filterValues → g.appeared → g.columns ≠ none) ∧
      (∀ c ∈ g.shown, c < g.options.length) ∧ ∀ count ∈ g.values, g.shown.length ≤ count)
    ⟨fun ⟨known, there, valued⟩ => ⟨known, there, valued⟩,
      fun ⟨known, there, valued⟩ => ⟨known, there, valued⟩⟩

instance (g : Configuration) : (e : Event) → Decidable (g.Fresh e)
  | .viewWillAppear | .confirm => inferInstanceAs (Decidable (g.stale = false))
  | .setOptions _ | .setFilterValues _ | .setUsefulOptionsIndex _ | .setValues _ | .turn _ _
  | .reload _ => .isTrue trivial

/-- The configuration fits after every event, and the picker view is fresh when it is
    read. -/
def InOrder : Configuration → List Event → Prop
  | _, [] => True
  | g, e :: es => g.Fresh e ∧ (g.next e).Fits ∧ InOrder (g.next e) es

instance decidableInOrder : (g : Configuration) → (es : List Event) → Decidable (g.InOrder es)
  | _, [] => .isTrue trivial
  | g, e :: es =>
      have := decidableInOrder (g.next e) es
      inferInstanceAs (Decidable (_ ∧ _ ∧ _))

end Configuration

/-- The picker is as the events have configured it. -/
structure Describes (g : Configuration) (s : MKPickerController) : Prop where
  options : s.options = g.options
  filterValues : s.filterValues = g.filterValues
  columns : s.usefulOptionsIndex = g.columns
  values : s.values.map List.length = g.values
  appeared : s.pickerView.isSome = g.appeared

/-- The picker view has the columns of the options, with rows that they have. -/
structure UIPickerView.Within (options : List (List String)) (p : UIPickerView) : Prop where
  fits : p.Fits options
  inside : ∀ c row, p.row c = some row → ∃ column, options[c]? = some column ∧ row < column.length

/-- The configuration fits, and a fresh picker view has rows of the options. -/
structure Ready (g : Configuration) (s : MKPickerController) : Prop extends Describes g s where
  fits : g.Fits
  view : g.stale = false → s.loaded.Within s.options

section Safety

variable {beyond : Nat → Nat → Nat} {g : Configuration} {s : MKPickerController}
  {p : UIPickerView} {options : List (List String)} {c : Nat}

theorem Describes.shown (h : Describes g s) : s.shown = g.shown := by
  rw [MKPickerController.shown, Configuration.shown, h.filterValues, h.columns, h.options]

/-! ### The picker view -/

theorem UIPickerView.Within.picks (h : p.Within options) (there : c < options.length) :
    Picks options p (fun c => (p.row c).getD 0) c := by
  have fits := h.fits c
  rw [List.getElem?_eq_getElem there, Option.map_some, Option.map_eq_some_iff] at fits
  obtain ⟨component, known, -⟩ := fits
  have at_row : p.row c = some component.selected := by rw [UIPickerView.row, known]; rfl
  obtain ⟨column, same, inside⟩ := h.inside c component.selected at_row
  exact ⟨column, same, by simp [at_row], by simpa [at_row] using inside⟩

theorem UIPickerView.within_reloaded {rows : List Nat}
    (inside : List.Forall₂ (fun column row => row < column.length) options rows) :
    (reloaded options rows).Within options := by
  refine ⟨fits_reloaded inside.length_eq, fun c row at_row => ?_⟩
  rw [row_reloaded inside.length_eq] at at_row
  obtain ⟨bound, rfl⟩ := List.getElem?_eq_some_iff.mp at_row
  have there : c < options.length := inside.length_eq ▸ bound
  exact ⟨options[c], List.getElem?_eq_getElem there, inside.get there bound⟩

theorem UIPickerView.Within.turn (h : p.Within options) {row : Nat} {q : UIPickerView}
    (turned : p.turn c row = some q) : q.Within options := by
  obtain ⟨component, known, turned⟩ := Option.bind_eq_some_iff.mp turned
  obtain ⟨bound, turned⟩ := Option.ite_none_right_eq_some.mp turned
  have fits := h.fits c
  rw [known, Option.map_some, eq_comm, Option.map_eq_some_iff] at fits
  obtain ⟨column, there, count⟩ := fits
  have inside : row < column.length := count ▸ bound
  -- it is what the code selects, too
  obtain ⟨r, selected, fitsAfter, rows⟩ := h.fits.selectRow (fun _ row => row) there inside
  simp only [UIPickerView.selectRow, known, if_pos bound, Except.ok.injEq] at selected
  obtain rfl : q = r := (Option.some.inj turned).symm.trans selected
  refine ⟨fitsAfter, fun d other at_row => ?_⟩
  rw [rows] at at_row
  split at at_row
  · rename_i same
    exact ⟨column, same ▸ there, Option.some.inj at_row ▸ inside⟩
  · exact h.inside d other at_row

/-- The rows are those of any options with columns of the same lengths. -/
theorem UIPickerView.Within.congr (h : p.Within options) {other : List (List String)}
    (same : other.map List.length = options.map List.length) : p.Within other := by
  have lengths (c : Nat) : other[c]?.map List.length = options[c]?.map List.length := by
    rw [← List.getElem?_map, same, List.getElem?_map]
  refine ⟨fun c => (h.fits c).trans (lengths c).symm, fun c row at_row => ?_⟩
  obtain ⟨column, there, inside⟩ := h.inside c row at_row
  have length := lengths c
  rw [there, Option.map_some, Option.map_eq_some_iff] at length
  obtain ⟨column', there', count⟩ := length
  exact ⟨column', there', count ▸ inside⟩

theorem loaded_of_some (view : s.pickerView = some p) : s.loaded = p := by
  rw [loaded, view, Option.getD_some]

/-! ### What an event makes of the picker -/

/-- Appearing only loads the picker view and selects rows in it. -/
theorem viewWillAppear_ok {t : MKPickerController} (returned : s.viewWillAppear beyond = .ok t) :
    ∃ q, t = { s with pickerView := some q } := by
  unfold MKPickerController.viewWillAppear at returned
  cases given : s.values with
  | none =>
      rw [given] at returned
      exact ⟨_, (Except.ok.inj returned).symm⟩
  | some defaultValue =>
      rw [given] at returned
      obtain ⟨q, -, returned⟩ := bind_eq_ok.mp returned
      exact ⟨q, (Except.ok.inj returned).symm⟩

/-- A confirmation leaves as many values as columns are returned. -/
theorem makeSelectedValues_ok {t : MKPickerController} (returned : s.makeSelectedValues = .ok t) :
    ∃ columns values indexs, s.returned = .ok columns ∧ values.length = columns.length ∧
      t = { s with
        values := some values
        indexs := indexs
        confirmed := s.confirmed ++ [(values, indexs)] } := by
  obtain ⟨columns, known, returned⟩ := bind_eq_ok.mp returned
  cases view : s.pickerView with
  | none =>
      rw [view] at returned
      cases returned
  | some p =>
      rw [view] at returned
      obtain ⟨_, ⟨⟩, returned⟩ := bind_eq_ok.mp returned
      obtain ⟨selected, loop, returned⟩ := bind_eq_ok.mp returned
      refine ⟨columns, selected.map Prod.fst, selected.map Prod.snd, known, ?_, ?_⟩
      · rw [List.length_map, (mapM_forall₂ loop).length_eq]
      · exact (Except.ok.inj returned).symm

/-- The events configure the picker as they say. -/
theorem Describes.step (h : Describes g s) (there : ∀ c ∈ g.shown, c < g.options.length)
    {e : Event} {u : MKPickerController}
    (stepped : (picker beyond).step (.ok s) e = some (.ok u)) : Describes (g.next e) u := by
  cases e with
  | setOptions options =>
      obtain ⟨-, set⟩ := Option.ite_none_right_eq_some.mp stepped
      obtain rfl := Except.ok.inj (Option.some.inj set)
      rw [setOptions_eq]
      refine ⟨rfl, h.filterValues, ?_, ?_, h.appeared⟩
      · simp only [Configuration.next, h.filterValues, h.columns]
      · rw [Configuration.next, ← h.values]
        cases s.values <;> simp
  | setFilterValues filterValues =>
      obtain rfl := Except.ok.inj (Option.some.inj stepped)
      exact ⟨h.options, rfl, h.columns, h.values, h.appeared⟩
  | setUsefulOptionsIndex useful =>
      obtain ⟨-, set⟩ := Option.ite_none_right_eq_some.mp stepped
      obtain rfl := Except.ok.inj (Option.some.inj set)
      exact ⟨h.options, h.filterValues, rfl, h.values, h.appeared⟩
  | setValues values =>
      obtain ⟨-, set⟩ := Option.ite_none_right_eq_some.mp stepped
      obtain rfl := Except.ok.inj (Option.some.inj set)
      exact ⟨h.options, h.filterValues, h.columns, rfl, h.appeared⟩
  | viewWillAppear =>
      obtain ⟨q, rfl⟩ := viewWillAppear_ok (Option.some.inj stepped)
      exact ⟨h.options, h.filterValues, h.columns, h.values, rfl⟩
  | confirm =>
      obtain ⟨-, returned⟩ := Option.ite_none_right_eq_some.mp stepped
      obtain ⟨columns, values, indexs, known, count, rfl⟩ :=
        makeSelectedValues_ok (Option.some.inj returned)
      have all_there : ∀ c ∈ s.shown, c < s.options.length := by
        rw [h.shown, h.options]
        exact there
      have shows := returned_of_there (returned_eq_ok_iff.mp known).1 all_there
      obtain rfl := Except.ok.inj (known.symm.trans shows)
      refine ⟨h.options, h.filterValues, h.columns, ?_, h.appeared⟩
      rw [Configuration.next, Option.map_some, count, h.shown]
  | turn component row =>
      obtain ⟨q, turned, same⟩ := Option.map_eq_some_iff.mp stepped
      obtain ⟨p, view, -⟩ := Option.bind_eq_some_iff.mp turned
      obtain rfl := Except.ok.inj same
      have loaded : s.pickerView.isSome = true := by rw [view, Option.isSome_some]
      exact ⟨h.options, h.filterValues, h.columns, h.values, loaded.symm.trans h.appeared⟩
  | reload rows =>
      obtain ⟨⟨loaded, -⟩, set⟩ := Option.ite_none_right_eq_some.mp stepped
      obtain rfl := Except.ok.inj (Option.some.inj set)
      exact ⟨h.options, h.filterValues, h.columns, h.values, loaded.symm.trans h.appeared⟩

/-! ### In order -/

/-- A fresh picker view appears. -/
theorem Ready.viewWillAppear (h : Ready g s) (beyond : Nat → Nat → Nat)
    (fresh : g.stale = false) : ∃ t, s.viewWillAppear beyond = .ok t ∧
      t.loaded.Within t.options := by
  cases given : s.values with
  | none =>
      refine ⟨{ s with pickerView := some s.loaded }, ?_, h.view fresh⟩
      simp only [MKPickerController.viewWillAppear, given]
      rfl
  | some defaultValue =>
      have readable : ∀ round ∈ s.shown.zipIdx, Readable s.options defaultValue round := by
        rw [readable_iff, h.shown, h.options]
        exact ⟨h.fits.there, h.fits.valued _ (by rw [← h.values, given]; rfl)⟩
      obtain ⟨q, appeared, fits, rows⟩ :=
        viewWillAppear_eq beyond given (h.view fresh).fits readable
      refine ⟨_, appeared, fits, fun c row at_row => ?_⟩
      have found_or := (rows c).symm.trans at_row
      rcases Option.or_eq_some_iff.mp found_or with read | ⟨-, kept⟩
      · obtain ⟨round, last, at_round⟩ := Option.bind_eq_some_iff.mp read
        exact (lastRead_eq_some last).2.1 ▸ found_lt at_round
      · exact (h.view fresh).inside c row kept

/-- Of a fresh picker view each shown column is returned. -/
theorem Ready.makeSelectedValues (h : Ready g s) (fresh : g.stale = false)
    (view : s.pickerView = some p) : ∃ t, s.makeSelectedValues = .ok t := by
  have within : p.Within s.options := loaded_of_some view ▸ h.view fresh
  have there : ∀ c ∈ s.shown, c < s.options.length := by
    rw [h.shown, h.options]
    exact h.fits.there
  have known : s.filterValues → s.usefulOptionsIndex ≠ none := by
    rw [h.filterValues, h.columns]
    exact fun filtered => h.fits.known filtered (by rw [← h.appeared, view]; rfl)
  exact ⟨_, makeSelectedValues_eq (returned_of_there known there) view fun c member =>
    within.picks (there c member)⟩

theorem Ready.step (h : Ready g s) {e : Event} {t : Except Trap MKPickerController}
    (fresh : g.Fresh e) (fits : (g.next e).Fits)
    (stepped : (picker beyond).step (.ok s) e = some t) :
    ∃ u, t = .ok u ∧ Ready (g.next e) u := by
  have describes {u : MKPickerController} (returned : t = .ok u) : Describes (g.next e) u :=
    h.toDescribes.step h.fits.there (returned ▸ stepped)
  cases e with
  | setOptions options =>
      obtain ⟨nonempty, set⟩ := Option.ite_none_right_eq_some.mp stepped
      obtain rfl := Option.some.inj set
      refine ⟨_, rfl, describes rfl, fits, fun still => ?_⟩
      rw [setOptions_eq]
      cases view : s.pickerView with
      | none =>
          refine UIPickerView.within_reloaded ?_
          rw [List.forall₂_map_right_iff, List.forall₂_same]
          intro column member
          simpa [List.length_pos_iff] using List.all_eq_true.mp nonempty column member
      | some p =>
          have appeared : g.appeared = true := by rw [← h.appeared, view]; rfl
          simp only [Configuration.next, appeared, Bool.true_and, Bool.or_eq_false_iff,
            decide_eq_false_iff_not, not_not] at still
          have same : options.map List.length = s.options.map List.length :=
            h.options ▸ still.2
          exact (loaded_of_some view ▸ h.view still.1).congr same
  | setFilterValues filterValues =>
      obtain rfl := Option.some.inj stepped
      exact ⟨_, rfl, describes rfl, fits, h.view⟩
  | setUsefulOptionsIndex _ | setValues _ =>
      obtain ⟨-, set⟩ := Option.ite_none_right_eq_some.mp stepped
      obtain rfl := Option.some.inj set
      exact ⟨_, rfl, describes rfl, fits, h.view⟩
  | viewWillAppear =>
      obtain ⟨u, appeared, within⟩ := h.viewWillAppear beyond fresh
      have returned : t = .ok u := (Option.some.inj stepped).symm.trans appeared
      exact ⟨u, returned, describes returned, fits, fun _ => within⟩
  | confirm =>
      obtain ⟨loaded, returned⟩ := Option.ite_none_right_eq_some.mp stepped
      obtain ⟨p, view⟩ := Option.isSome_iff_exists.mp loaded
      obtain ⟨u, confirmed⟩ := h.makeSelectedValues fresh view
      have same : t = .ok u := (Option.some.inj returned).symm.trans confirmed
      refine ⟨u, same, describes same, fits, fun _ => ?_⟩
      obtain ⟨_, _, _, -, -, rfl⟩ := makeSelectedValues_ok confirmed
      exact h.view fresh
  | turn component row =>
      obtain ⟨q, turned, same⟩ := Option.map_eq_some_iff.mp stepped
      obtain ⟨p, view, turned⟩ := Option.bind_eq_some_iff.mp turned
      refine ⟨_, same.symm, describes same.symm, fits, fun still => ?_⟩
      exact (loaded_of_some view ▸ h.view still).turn turned
  | reload rows =>
      obtain ⟨⟨-, inside⟩, set⟩ := Option.ite_none_right_eq_some.mp stepped
      obtain rfl := Option.some.inj set
      exact ⟨_, rfl, describes rfl, fits, fun _ => UIPickerView.within_reloaded inside⟩

theorem ready_start : Ready .start MKPickerController.start :=
  ⟨⟨rfl, rfl, rfl, rfl, rfl⟩, ⟨nofun, nofun, nofun⟩, fun _ => UIPickerView.within_reloaded .nil⟩

theorem Ready.run (h : Ready g s) {es : List Event} (ordered : g.InOrder es)
    {t : MKPickerController} (reached : (picker beyond).run (.ok s) es = some (.ok t)) :
    Ready (es.foldl Configuration.next g) t := by
  induction es generalizing g s with
  | nil =>
      obtain rfl : s = t := by simpa using reached
      exact h
  | cons e es ih =>
      obtain ⟨fresh, fits, ordered⟩ := ordered
      obtain ⟨_, stepped, rest⟩ := Machine.run_cons_some _ reached
      obtain ⟨u, rfl, ready⟩ := h.step fresh fits stepped
      exact ih ready ordered rest

theorem Ready.untrapped (h : Ready g s) {es : List Event} (ordered : g.InOrder es) :
    (picker beyond).Each (fun _ _ t => ∃ u, t = .ok u) (.ok s) es := by
  induction es generalizing g s with
  | nil => exact Machine.each_nil _
  | cons e es ih =>
      obtain ⟨fresh, fits, ordered⟩ := ordered
      intro t stepped
      obtain ⟨u, rfl, ready⟩ := h.step fresh fits stepped
      exact ⟨⟨u, rfl⟩, ih ready ordered⟩

/-! ### Out of order -/

/-- A picker that appears, is confirmed and appears again has known columns that are there,
    and had a value for each of them. -/
theorem presentable_of_each (all : (picker beyond).Each (fun _ _ t => ∃ u, t = .ok u) (.ok s)
      [.viewWillAppear, .confirm, .viewWillAppear]) :
    (s.filterValues → s.usefulOptionsIndex ≠ none) ∧ (∀ c ∈ s.shown, c < s.options.length) ∧
      ∀ defaultValue, s.values = some defaultValue → s.shown.length ≤ defaultValue.length := by
  obtain ⟨⟨t, appeared⟩, all⟩ := all _ rfl
  rw [appeared] at all
  obtain ⟨q, rfl⟩ := viewWillAppear_ok appeared
  obtain ⟨⟨u, confirmed⟩, all⟩ := all _ rfl
  rw [confirmed] at all
  obtain ⟨columns, values, indexs, known, -, rfl⟩ := makeSelectedValues_ok confirmed
  obtain ⟨again, -⟩ := all _ rfl
  refine ⟨(returned_eq_ok_iff.mp known).1, ?_, fun defaultValue given => ?_⟩
  · have read := (viewWillAppear_returns_iff beyond).mp again values rfl
    exact (readable_iff.mp fun round member => (read round member).1).1
  · have read := (viewWillAppear_returns_iff beyond).mp ⟨_, appeared⟩ defaultValue given
    exact (readable_iff.mp fun round member => (read round member).1).2

/-- An event after which the configuration does not fit stops the program, or what it
    does the next times the picker is shown. -/
theorem Ready.disorder_traps (h : Ready g s) {e : Event} {t : Except Trap MKPickerController}
    (stepped : (picker beyond).step (.ok s) e = some t) (unfit : ¬(g.next e).Fits) :
    ¬(picker beyond).Each (fun _ _ t => ∃ u, t = .ok u) (.ok s)
      [e, .viewWillAppear, .confirm, .viewWillAppear] := by
  intro all
  obtain ⟨⟨u, rfl⟩, shows⟩ := all t stepped
  have after := h.toDescribes.step h.fits.there stepped
  obtain ⟨known, there, valued⟩ := presentable_of_each shows
  rw [after.filterValues, after.columns] at known
  rw [after.shown, after.options] at there
  refine unfit ⟨fun filtered _ => known filtered, there, fun count given => ?_⟩
  obtain ⟨defaultValue, values, rfl⟩ := Option.map_eq_some_iff.mp (after.values.trans given)
  exact after.shown ▸ valued defaultValue values

/-- For every run in order: the next event, if the configuration does not fit after it,
    stops the program at the latest when the picker appears, is confirmed and appears
    again. -/
theorem disorder_traps {es : List Event} (ordered : Configuration.start.InOrder es)
    (reached : (picker beyond).run (.ok start) es = some (.ok s)) {e : Event}
    {t : Except Trap MKPickerController} (stepped : (picker beyond).step (.ok s) e = some t)
    (unfit : ¬((es.foldl Configuration.next .start).next e).Fits) :
    ¬(picker beyond).Each (fun _ _ t => ∃ u, t = .ok u) (.ok start)
      (es ++ [e, .viewWillAppear, .confirm, .viewWillAppear]) :=
  fun all => (ready_start.run ordered reached).disorder_traps stepped unfit (all.append reached)

/-- No run in order stops the program, however often the picker appears, is turned and
    confirmed in between. -/
theorem inOrder_untrapped (beyond : Nat → Nat → Nat) {es : List Event}
    (ordered : Configuration.start.InOrder es) :
    (picker beyond).Each (fun _ _ t => ∃ u, t = .ok u) (.ok start) es :=
  ready_start.untrapped ordered

/-- A filter before its options, which are replaced by options of the same lengths and
    other columns. -/
theorem filter_first_untrapped : Configuration.start.InOrder
      [.setFilterValues true, .setOptions [["1", "2"], ["月"], ["3", "4"]], .viewWillAppear,
        .turn 0 1, .confirm, .setUsefulOptionsIndex (some [2]),
        .setOptions [["5", "6"], ["日"], ["7", "8"]], .viewWillAppear, .confirm] ∧
    (picker fun rows _ => rows - 1).Each (fun _ _ t => ∃ u, t = .ok u) (.ok start)
      [.setFilterValues true, .setOptions [["1", "2"], ["月"], ["3", "4"]], .viewWillAppear,
        .turn 0 1, .confirm, .setUsefulOptionsIndex (some [2]),
        .setOptions [["5", "6"], ["日"], ["7", "8"]], .viewWillAppear, .confirm] :=
  ⟨by decide, inOrder_untrapped _ (by decide)⟩

/-- A filter which is set after the options has no columns to return. -/
theorem late_filter_traps : ¬(picker fun rows _ => rows - 1).Each (fun _ _ t => ∃ u, t = .ok u)
    (.ok start) [.setOptions [["a", "b"]], .setFilterValues true, .viewWillAppear, .confirm] := by
  intro all
  have filtered := (((all _ rfl).2 _ rfl).2 _ rfl).2
  obtain ⟨⟨u, returned⟩, -⟩ := filtered (.error .unwrappedNil) rfl
  cases returned

end Safety

end LearningProjects.QuickUI.Picker
