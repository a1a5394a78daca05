import LearningProjects.Fallible
import LearningProjects.Machine
import Mathlib.Data.List.Range
import Mathlib.Logic.Function.Basic

/-! # The verification-code view

The code is typed into a clear text field with one label for each digit over it.
Every layout pass adds the labels once more. The handlers find a label by its tag,
which gives the first one, while the last one is on top.
-/

namespace LearningProjects.QuickUI.AuthcodeView

/-- A label without a text shows the empty one. -/
structure UILabel (Character : Type) where
  tag : Nat
  text : List Character
  deriving DecidableEq, Repr

/-- `as!` of a view that is not there. -/
inductive Trap where
  | castNil
  deriving DecidableEq, Repr

/-- `labels` are the subviews of the text field, later ones on top. `layouts` counts the
    layout passes and `fired` the calls of `codeClosure`; the code never reads them. -/
structure MKAuthcodeView (Character : Type) where
  code : List Character
  labels : List (UILabel Character)
  inited : Bool
  layouts : Nat
  fired : List (List Character)
  deriving DecidableEq, Repr

inductive Event (Character : Type) where
  | layoutSubviews
  | editBegin
  /-- The user changes the text of the field. -/
  | textChanged (text : List Character)
  deriving DecidableEq, Repr

variable {Character : Type}

/-- `viewWithTag(tag)` and its new text. -/
def setText (tag : Nat) (text : List Character) :
    List (UILabel Character) → Except Trap (List (UILabel Character))
  | [] => .error .castNil
  | label :: labels =>
      if label.tag = tag then .ok ({ label with text := text } :: labels)
      else (setText tag text labels).map fun labels => label :: labels

namespace MKAuthcodeView

def start : MKAuthcodeView Character := ⟨[], [], false, 0, []⟩

section Handlers

variable (codeDigit : Nat)

/-- Every digit's label gets its text. -/
def setTexts (text : Nat → List Character) (labels : List (UILabel Character)) :
    Except Trap (List (UILabel Character)) :=
  (List.range codeDigit).foldlM (fun labels i => setText (i + 1) (text i) labels) labels

def codeFieldTextChanged (s : MKAuthcodeView Character) :
    Except Trap (MKAuthcodeView Character) := do
  let codeString := s.code
  let labels ← setTexts codeDigit
    (fun i => if h : i < codeString.length then [codeString[i]] else []) s.labels
  let s := { s with labels := labels }
  if codeString.length ≥ codeDigit then
    let codeString := codeString.take codeDigit
    return { s with code := codeString, fired := s.fired ++ [codeString] }
  else return s

def codeFieldEditBegin (s : MKAuthcodeView Character) : Except Trap (MKAuthcodeView Character) :=
  let s := { s with code := [] }
  if s.inited then (setTexts codeDigit (fun _ => []) s.labels).map fun labels =>
    { s with labels := labels }
  else .ok s

def layoutSubviews (s : MKAuthcodeView Character) : MKAuthcodeView Character :=
  { s with
    labels := s.labels ++ (List.range codeDigit).map fun i => ⟨i + 1, []⟩
    inited := true
    layouts := s.layouts + 1 }

end Handlers

/-- The topmost label of a digit. -/
def visible (i : Nat) (s : MKAuthcodeView Character) : Option (UILabel Character) :=
  (s.labels.filter fun label => label.tag = i + 1).getLast?

end MKAuthcodeView

open MKAuthcodeView

section Digits

variable (codeDigit : Nat)

def machine : Machine (Except Trap (MKAuthcodeView Character)) (Event Character) where
  step
    | .error _, _ => none
    | .ok s, .layoutSubviews => some (.ok (s.layoutSubviews codeDigit))
    | .ok s, .editBegin => some (s.codeFieldEditBegin codeDigit)
    | .ok s, .textChanged text => some ({ s with code := text }.codeFieldTextChanged codeDigit)

/-- The labels show the code, digit by digit. -/
def Shows (s : MKAuthcodeView Character) : Prop :=
  ∀ i < codeDigit, ∀ label, s.visible i = some label → label.text = s.code[i]?.toList

/-- What the closure is called with for an event. -/
def reports : Event Character → List (List Character)
  | .textChanged text => if text.length ≥ codeDigit then [text.take codeDigit] else []
  | _ => []

/-- An event leaves the view with what was entered. -/
structure Exact (s : MKAuthcodeView Character) (e : Event Character)
    (t : MKAuthcodeView Character) : Prop where
  shows : Shows codeDigit t
  stored : ∀ text, e = .textChanged text → t.code.length ≤ codeDigit
  fired : t.fired = s.fired ++ reports codeDigit e

def StepExact : Except Trap (MKAuthcodeView Character) → Event Character →
    Except Trap (MKAuthcodeView Character) → Prop
  | .ok s, e, .ok t => Exact codeDigit s e t
  | .ok _, _, .error _ => False
  | .error _, _, _ => True

/-- The labels are laid out while the code is empty, and a text comes only after the
    first time and before the second one. -/
def Steady (s : MKAuthcodeView Character) : Event Character → Prop
  | .layoutSubviews => s.code = []
  | .editBegin => True
  | .textChanged text => s.layouts = 1 ∨ 1 < s.layouts ∧ text = []

def StepSteady : Except Trap (MKAuthcodeView Character) → Event Character → Prop
  | .ok s, e => Steady s e
  | .error _, _ => True

end Digits

/-! ## Rows of labels -/

/-- The labels of one layout pass, from some digit on. -/
def row (first count : Nat) (text : Nat → List Character) : List (UILabel Character) :=
  (List.range' first count).map fun i => ⟨i + 1, text i⟩

section Rows

variable {first count i : Nat} {text : Nat → List Character} {rest : List (UILabel Character)}

theorem row_succ (text : Nat → List Character) :
    row first (count + 1) text = ⟨first + 1, text first⟩ :: row (first + 1) count text := rfl

theorem setText_row (new : List Character) (low : first ≤ i) (high : i < first + count) :
    setText (i + 1) new (row first count text ++ rest) =
      .ok (row first count (Function.update text i new) ++ rest) := by
  induction count generalizing first with
  | zero => omega
  | succ count ih =>
      rw [row_succ, row_succ, List.cons_append, List.cons_append, setText]
      by_cases here : first = i
      · subst here
        have beyond : row (first + 1) count (Function.update text first new) =
            row (first + 1) count text := by
          refine List.map_congr_left fun j member => ?_
          have after := (List.mem_range'_1.mp member).1
          rw [Function.update_of_ne (by omega)]
        rw [if_pos rfl, beyond, Function.update_self]
      · rw [if_neg (by simpa using here), ih (by omega) (by omega),
          Function.update_of_ne here]
        rfl

theorem row_congr {text' : Nat → List Character}
    (same : ∀ i, first ≤ i → i < first + count → text i = text' i) :
    row first count text = row first count text' := by
  refine List.map_congr_left fun i member => ?_
  have inside := List.mem_range'_1.mp member
  rw [same i inside.1 inside.2]

/-- Writing all digits writes the first row. -/
theorem setTexts_row (new : Nat → List Character) :
    setTexts count new (row 0 count text ++ rest) = .ok (row 0 count new ++ rest) := by
  have written : ∀ k ≤ count, (List.range k).foldlM
      (fun labels i => setText (i + 1) (new i) labels) (row 0 count text ++ rest) =
        .ok (row 0 count (fun i => if i < k then new i else text i) ++ rest) := by
    intro k bound
    induction k with
    | zero => simp [pure, Except.pure]
    | succ k ih =>
        have next : Function.update (fun i => if i < k then new i else text i) k (new k) =
            fun i => if i < k + 1 then new i else text i := by
          funext i
          by_cases here : i = k
          · simp [here]
          · have same : i < k + 1 ↔ i < k := by omega
            simp [Function.update_of_ne here, same]
        rw [List.range_succ, List.foldlM_append, ih (by omega)]
        simp only [bind, Except.bind, List.foldlM_cons, List.foldlM_nil,
          setText_row (new k) (Nat.zero_le k) (by omega : k < 0 + count), next]
        rfl
  rw [setTexts, written count le_rfl]
  rw [row_congr fun i _ inside => if_pos (by omega : i < count)]

theorem setTexts_nil (codeDigit : Nat) (positive : 0 < codeDigit)
    (new : Nat → List Character) : setTexts codeDigit new [] = .error .castNil := by
  obtain ⟨count, rfl⟩ := Nat.exists_eq_succ_of_ne_zero positive.ne'
  rw [setTexts, List.range_succ_eq_map, List.foldlM_cons]
  rfl

theorem filter_row_before (low : i < first) :
    ((row first count text).filter fun label => label.tag = i + 1) = [] := by
  rw [List.filter_eq_nil_iff]
  intro label member
  obtain ⟨j, inside, rfl⟩ := List.mem_map.mp member
  have after := (List.mem_range'_1.mp inside).1
  simp only [decide_eq_true_eq]
  omega

theorem filter_row (low : first ≤ i) (high : i < first + count) :
    ((row first count text).filter fun label => label.tag = i + 1) = [⟨i + 1, text i⟩] := by
  induction count generalizing first with
  | zero => omega
  | succ count ih =>
      rw [row_succ]
      by_cases here : first = i
      · subst here
        rw [List.filter_cons_of_pos (by simp), filter_row_before (Nat.lt_succ_self first)]
      · rw [List.filter_cons_of_neg (by simpa using here), ih (by omega) (by omega)]

end Rows

/-! ## Runs -/

/-- The labels of the first layout pass have the code's digits, those of the later ones
    are empty. -/
structure Inv (codeDigit : Nat) (s : MKAuthcodeView Character) : Prop where
  before : s.layouts = 0 → s.inited = false ∧ s.labels = [] ∧ s.code = []
  after : ∀ k, s.layouts = k + 1 → s.inited = true ∧
    s.labels = row 0 codeDigit (fun i => s.code[i]?.toList) ++
      (List.replicate k (row 0 codeDigit fun _ => [])).flatten

section Steps

variable {codeDigit : Nat} {s t : MKAuthcodeView Character} {i : Nat}

theorem Inv.start (codeDigit : Nat) : Inv codeDigit (start : MKAuthcodeView Character) :=
  ⟨fun _ => ⟨rfl, rfl, rfl⟩, fun _ unlaid => by cases unlaid⟩

theorem Inv.visible_first (h : Inv codeDigit s) (once : s.layouts = 1) (digit : i < codeDigit) :
    s.visible i = some ⟨i + 1, s.code[i]?.toList⟩ := by
  rw [visible, (h.after 0 once).2, List.replicate_zero, List.flatten_nil, List.append_nil,
    filter_row (Nat.zero_le i) (by omega)]
  rfl

theorem Inv.visible_again (h : Inv codeDigit s) (again : 1 < s.layouts) (digit : i < codeDigit) :
    s.visible i = some ⟨i + 1, []⟩ := by
  obtain ⟨k, layouts⟩ : ∃ k, s.layouts = k + 1 + 1 := ⟨s.layouts - 2, by omega⟩
  rw [visible, (h.after (k + 1) layouts).2, List.replicate_succ', List.flatten_append,
    List.flatten_singleton, ← List.append_assoc, List.filter_append,
    filter_row (Nat.zero_le i) (by omega), List.getLast?_append]
  rfl

/-- The code is visible up to the second layout pass. -/
theorem Inv.shows_iff (h : Inv codeDigit s) (positive : 0 < codeDigit) :
    Shows codeDigit s ↔ s.layouts ≤ 1 ∨ s.code = [] := by
  rcases lt_trichotomy s.layouts 1 with unlaid | once | again
  · refine iff_of_true (fun i _ label found => ?_) (.inl unlaid.le)
    simp [visible, (h.before (by omega)).2.1] at found
  · refine iff_of_true (fun i digit label found => ?_) (.inl once.le)
    rw [h.visible_first once digit, Option.some.injEq] at found
    rw [← found]
  · rw [or_iff_right (by omega)]
    constructor
    · intro shows
      have first := shows 0 positive _ (h.visible_again again positive)
      cases code : s.code with
      | nil => rfl
      | cons c rest => simp [code] at first
    · intro empty i digit label found
      rw [h.visible_again again digit, Option.some.injEq] at found
      rw [← found, empty]
      rfl

theorem Inv.layoutSubviews (h : Inv codeDigit s) : Inv codeDigit (s.layoutSubviews codeDigit) := by
  refine ⟨fun unlaid => by simp [MKAuthcodeView.layoutSubviews] at unlaid,
    fun k layouts => ⟨rfl, ?_⟩⟩
  have count : s.layouts = k := by simpa [MKAuthcodeView.layoutSubviews] using layouts
  cases k with
  | zero =>
      obtain ⟨-, labels, code⟩ := h.before count
      simp [MKAuthcodeView.layoutSubviews, labels, code, row, List.range_eq_range']
  | succ k =>
      simp [MKAuthcodeView.layoutSubviews, (h.after k count).2, row, List.range_eq_range',
        List.replicate_succ']

/-- After the first layout pass the handlers find all their labels. -/
theorem Inv.setTexts (h : Inv codeDigit s) (laidOut : 0 < s.layouts) (code : List Character) :
    ∃ labels, setTexts codeDigit (fun i => code[i]?.toList) s.labels = .ok labels ∧
      Inv codeDigit { s with code := code, labels := labels } := by
  obtain ⟨k, layouts⟩ := Nat.exists_eq_succ_of_ne_zero laidOut.ne'
  obtain ⟨inited, labels⟩ := h.after k layouts
  refine ⟨_, by rw [labels, setTexts_row], fun unlaid => ?_, fun j count => ⟨inited, ?_⟩⟩
  · exact absurd (layouts.symm.trans unlaid) (Nat.succ_ne_zero k)
  · obtain rfl : k = j := Nat.succ.inj (layouts.symm.trans count)
    rfl

theorem Inv.editBegin (h : Inv codeDigit s) :
    ∃ t, s.codeFieldEditBegin codeDigit = .ok t ∧ Inv codeDigit t ∧ t.code = [] ∧
      t.fired = s.fired := by
  unfold codeFieldEditBegin
  obtain unlaid | laidOut := Nat.eq_zero_or_pos s.layouts
  · obtain ⟨inited, labels, -⟩ := h.before unlaid
    refine ⟨{ s with code := [] }, by simp [inited], ?_, rfl, rfl⟩
    exact ⟨fun _ => ⟨inited, labels, rfl⟩,
      fun k layouts => absurd (unlaid.symm.trans layouts) nofun⟩
  · obtain ⟨labels, written, inv⟩ := h.setTexts laidOut []
    obtain ⟨k, layouts⟩ := Nat.exists_eq_succ_of_ne_zero laidOut.ne'
    refine ⟨_, ?_, inv, rfl, rfl⟩
    simp only [List.getElem?_nil, Option.toList_none] at written
    rw [if_pos (h.after k layouts).1, written]
    rfl

/-- Digits beyond the last label do not show. -/
theorem Inv.take (h : Inv codeDigit s) (fired : List (List Character)) :
    Inv codeDigit { s with code := s.code.take codeDigit, fired := fired } := by
  refine ⟨fun unlaid => ?_, fun k layouts => ?_⟩
  · obtain ⟨inited, labels, code⟩ := h.before unlaid
    exact ⟨inited, labels, by rw [code, List.take_nil]⟩
  · obtain ⟨inited, labels⟩ := h.after k layouts
    refine ⟨inited, labels.trans (congrArg (· ++ _) (row_congr fun i _ inside => ?_))⟩
    rw [List.getElem?_take_of_lt (by omega)]

theorem Inv.textChanged (h : Inv codeDigit s) (laidOut : 0 < s.layouts) (text : List Character) :
    ∃ t, { s with code := text }.codeFieldTextChanged codeDigit = .ok t ∧ Inv codeDigit t ∧
      t.layouts = s.layouts ∧ t.code = text.take codeDigit ∧
      t.fired = s.fired ++ reports codeDigit (.textChanged text) := by
  obtain ⟨labels, written, inv⟩ := h.setTexts laidOut text
  have digits : (fun i => if h : i < text.length then [text[i]] else []) =
      fun i => text[i]?.toList := by
    funext i
    by_cases inside : i < text.length
    · simp [inside]
    · simp [inside]
  simp only [codeFieldTextChanged, digits, written, reports]
  by_cases full : text.length ≥ codeDigit
  · refine ⟨_, by simp only [full, if_true]; rfl, inv.take _, rfl, rfl, by simp [full]⟩
  · have short : text.take codeDigit = text := List.take_of_length_le (by omega)
    refine ⟨_, by simp only [full, if_false]; rfl, inv, rfl, short.symm, by simp [full]⟩

theorem Exact.of_code_nil (inv : Inv codeDigit t) (positive : 0 < codeDigit) (empty : t.code = [])
    {e : Event Character} (fired : t.fired = s.fired ++ reports codeDigit e) :
    Exact codeDigit s e t :=
  ⟨(inv.shows_iff positive).mpr (.inr empty), fun _ _ => by simp [empty], fired⟩

/-- An event leaves what was entered exactly if it comes in time. -/
theorem Inv.step (h : Inv codeDigit s) (positive : 0 < codeDigit) {e : Event Character}
    {x : Except Trap (MKAuthcodeView Character)}
    (stepped : (machine codeDigit).step (.ok s) e = some x) :
    (StepExact codeDigit (.ok s) e x ↔ Steady s e) ∧
      (StepExact codeDigit (.ok s) e x → ∀ t, x = .ok t → Inv codeDigit t) := by
  cases e with
  | layoutSubviews =>
      obtain rfl := Option.some.inj stepped
      have inv := h.layoutSubviews
      refine ⟨⟨fun holds => ?_, fun empty => ?_⟩, fun _ t same => Except.ok.inj same ▸ inv⟩
      · cases (inv.shows_iff positive).mp holds.shows with
        | inl once =>
            have first : s.layouts + 1 ≤ 1 := once
            exact (h.before (by omega)).2.2
        | inr empty => exact empty
      · exact .of_code_nil inv positive empty (List.append_nil _).symm
  | editBegin =>
      obtain rfl := Option.some.inj stepped
      obtain ⟨t, returned, inv, empty, fired⟩ := h.editBegin
      rw [returned]
      refine ⟨iff_of_true ?_ trivial, fun _ u same => Except.ok.inj same ▸ inv⟩
      exact .of_code_nil inv positive empty (by rw [fired]; exact (List.append_nil _).symm)
  | textChanged text =>
      obtain rfl := Option.some.inj stepped
      obtain unlaid | laidOut := Nat.eq_zero_or_pos s.layouts
      · -- there is no label to cast
        have stops : { s with code := text }.codeFieldTextChanged codeDigit = .error .castNil := by
          simp only [codeFieldTextChanged, (h.before unlaid).2.1, setTexts_nil codeDigit positive]
          rfl
        rw [stops]
        refine ⟨iff_of_false id ?_, fun stopped => stopped.elim⟩
        simp [Steady, unlaid]
      · obtain ⟨t, returned, inv, layouts, code, fired⟩ := h.textChanged laidOut text
        rw [returned]
        refine ⟨⟨fun holds => ?_, fun steady => ⟨?_, ?_, fired⟩⟩,
          fun _ u same => Except.ok.inj same ▸ inv⟩
        · have shown := (inv.shows_iff positive).mp holds.shows
          rw [layouts, code, List.take_eq_nil_iff] at shown
          change s.layouts = 1 ∨ 1 < s.layouts ∧ text = []
          grind
        · rw [inv.shows_iff positive, layouts, code, List.take_eq_nil_iff]
          change s.layouts = 1 ∨ 1 < s.layouts ∧ text = [] at steady
          grind
        · rintro _ -
          rw [code, List.length_take]
          exact min_le_left _ _

end Steps

/-- In every run with at least one digit: the view shows and reports what was entered
    exactly if the labels are laid out while the code is empty, and no text comes
    before the first layout pass or after the second one. -/
theorem exact_iff_steady (codeDigit : Nat) (positive : 0 < codeDigit)
    (events : List (Event Character)) :
    (machine codeDigit).Each (StepExact codeDigit) (.ok start) events ↔
      (machine codeDigit).Each (fun s e _ => StepSteady s e) (.ok start) events :=
  Machine.each_congr_trap (fun _ _ => rfl) (fun _ _ _ inv stepped => inv.step positive stepped)
    (Inv.start codeDigit) events

/-- The view is laid out again while there is a code. -/
theorem second_layout_hides :
    ¬(machine 1).Each (StepExact 1) (.ok start)
      [.layoutSubviews, .textChanged ['7'], .layoutSubviews] := by
  intro all
  obtain ⟨-, all⟩ := all _ rfl
  obtain ⟨-, all⟩ := all _ rfl
  obtain ⟨holds, -⟩ := all _ rfl
  have first := holds.shows 0 (by decide) ⟨1, []⟩ (by decide)
  revert first
  decide

/-- Four digits are typed, the last one is deleted, and then one too many is pasted. -/
theorem exact_typed :
    (machine 4).Each (StepExact 4) (.ok start)
      [.editBegin, .layoutSubviews, .textChanged ['7'], .textChanged ['7', '3'],
        .textChanged ['7'], .textChanged ['7', '3', '0', '4', '9']] := by
  refine (exact_iff_steady 4 (by decide) _).mpr ?_
  rintro _ ⟨⟩
  refine ⟨trivial, ?_⟩
  rintro _ ⟨⟩
  refine ⟨rfl, ?_⟩
  rintro _ ⟨⟩
  refine ⟨.inl rfl, ?_⟩
  rintro _ ⟨⟩
  refine ⟨.inl rfl, ?_⟩
  rintro _ ⟨⟩
  refine ⟨.inl rfl, ?_⟩
  rintro _ ⟨⟩
  exact ⟨.inl rfl, trivial⟩

end LearningProjects.QuickUI.AuthcodeView
