import Mathlib.Algebra.Ring.Nat
import Mathlib.Data.List.Basic
import Mathlib.Data.List.Infix
import Mathlib.Tactic.Common

/-! # Text as bytes, and its CRLF lines

UTF-8 text and the lines of a byte sequence, where only the pair CR LF ends a
line: a lone CR or LF is an ordinary byte, so the cut works on binary content.
-/

namespace LearningProjects.Text

abbrev Bytes := List UInt8

/-- The UTF-8 encoding of a string. -/
def utf8 (s : String) : Bytes := s.toUTF8.data.toList

@[simp] theorem utf8_append (s t : String) : utf8 (s ++ t) = utf8 s ++ utf8 t := by
  simp [utf8, String.toByteArray_append]

theorem utf8_eq_flatMap (s : String) : utf8 s = s.toList.flatMap String.utf8EncodeChar := by
  obtain ⟨cs, rfl⟩ : ∃ cs, s = String.ofList cs := ⟨s.toList, String.ofList_toList.symm⟩
  simp [utf8, List.utf8Encode]

/-- A byte below 128 stands only for the character with that code. -/
theorem ascii_of_mem_utf8EncodeChar {b : UInt8} {c : Char} (ascii : b.toNat < 128)
    (member : b ∈ String.utf8EncodeChar c) : c.toNat = b.toNat := by
  simp only [String.utf8EncodeChar] at member
  have high : ∀ n k : Nat, 128 ≤ k → n + k < 256 → b ≠ UInt8.ofNat (n + k) := by
    rintro n k large small rfl
    rw [UInt8.toNat_ofNat', Nat.mod_eq_of_lt small] at ascii
    omega
  split at member
  · rename_i single
    obtain rfl := List.mem_singleton.mp member
    rw [UInt8.toNat_ofNat', Nat.mod_eq_of_lt (by omega)]
    rfl
  · split at member
    · simp only [List.mem_cons, List.not_mem_nil, or_false] at member
      rcases member with same | same <;> exact absurd same (high _ _ (by omega) (by omega))
    · split at member
      · simp only [List.mem_cons, List.not_mem_nil, or_false] at member
        rcases member with same | same | same <;>
          exact absurd same (high _ _ (by omega) (by omega))
      · simp only [List.mem_cons, List.not_mem_nil, or_false] at member
        rcases member with same | same | same | same <;>
          exact absurd same (high _ _ (by omega) (by omega))

theorem not_mem_utf8 {s : String} {c : Char} (ascii : c.toNat < 128) (absent : c ∉ s.toList) :
    UInt8.ofNat c.toNat ∉ utf8 s := by
  intro member
  rw [utf8_eq_flatMap] at member
  obtain ⟨d, inside, byte⟩ := List.mem_flatMap.mp member
  have code : (UInt8.ofNat c.toNat).toNat = c.toNat := by
    rw [UInt8.toNat_ofNat', Nat.mod_eq_of_lt (by omega)]
  have same := ascii_of_mem_utf8EncodeChar (by omega) byte
  rw [code] at same
  exact absent (Char.toNat_inj.mp same ▸ inside)

def crlf : Bytes := [13, 10]

/-- Put a byte in front of the first line. -/
def extend (b : UInt8) : List Bytes → List Bytes
  | [] => [[b]]
  | l :: ls => (b :: l) :: ls

/-- The lines between the CRLF pairs; there is always at least one. -/
def lines : Bytes → List Bytes
  | [] => [[]]
  | [b] => [[b]]
  | b :: c :: rest => if b = 13 ∧ c = 10 then [] :: lines rest else extend b (lines (c :: rest))

theorem extend_append (b : UInt8) {ls : List Bytes} (nonempty : ls ≠ []) (ms : List Bytes) :
    extend b (ls ++ ms) = extend b ls ++ ms := by
  cases ls with
  | nil => exact absurd rfl nonempty
  | cons l ls => rfl

theorem lines_ne_nil (a : Bytes) : lines a ≠ [] := by
  fun_induction lines a with
  | case1 | case2 | case3 => simp
  | case4 b c rest notBreak ih =>
      cases shape : lines (c :: rest) with
      | nil => exact absurd shape ih
      | cons l ls => simp [extend]

theorem lines_crlf (a : Bytes) : lines (crlf ++ a) = [] :: lines a := by
  simp [crlf, lines]

/-- A byte that is not CR cannot start a line break. -/
theorem lines_cons {b : UInt8} (notCR : b ≠ 13) (a : Bytes) :
    lines (b :: a) = extend b (lines a) := by
  cases a with
  | nil => rfl
  | cons c rest => simp [lines, notCR]

/-- A CRLF pair cuts wherever it stands: neither side can borrow half of it. -/
theorem lines_append_crlf (a b : Bytes) : lines (a ++ (crlf ++ b)) = lines a ++ lines b := by
  fun_induction lines a with
  | case1 => exact lines_crlf b
  | case2 x =>
      rw [List.singleton_append]
      have notBreak : ¬(x = 13 ∧ (13 : UInt8) = 10) := by simp
      change lines (x :: 13 :: (10 :: b)) = _
      rw [lines, if_neg notBreak]
      change extend x (lines (crlf ++ b)) = _
      rw [lines_crlf]
      rfl
  | case3 x y rest isBreak ih =>
      change lines (x :: y :: (rest ++ (crlf ++ b))) = _
      rw [lines, if_pos isBreak, ih]
      rfl
  | case4 x y rest notBreak ih =>
      change lines (x :: y :: (rest ++ (crlf ++ b))) = _
      rw [lines, if_neg notBreak]
      rw [List.cons_append] at ih
      rw [ih, extend_append x (lines_ne_nil _)]

/-- Joining the lines with CRLF gives the bytes back. -/
theorem intercalate_lines (a : Bytes) : crlf.intercalate (lines a) = a := by
  have joined : ∀ b ls, ls ≠ [] → crlf.intercalate (extend b ls) = b :: crlf.intercalate ls := by
    intro b ls nonempty
    match ls, nonempty with
    | [l], _ => simp [extend]
    | l :: m :: ls, _ => simp [extend]
  fun_induction lines a with
  | case1 | case2 => simp
  | case3 x y rest isBreak ih =>
      obtain ⟨rfl, rfl⟩ := isBreak
      rw [List.intercalate_cons_of_ne_nil (lines_ne_nil rest), ih]
      rfl
  | case4 x y rest notBreak ih => rw [joined x _ (lines_ne_nil _), ih]

theorem lines_eq_singleton_iff (a : Bytes) : lines a = [a] ↔ ¬crlf <:+: a := by
  constructor
  · rintro single ⟨s, t, rfl⟩
    rw [List.append_assoc, lines_append_crlf] at single
    have := congrArg List.length single
    have := List.length_pos_of_ne_nil (lines_ne_nil s)
    have := List.length_pos_of_ne_nil (lines_ne_nil t)
    simp only [List.length_append, List.length_singleton] at *
    omega
  · intro unbroken
    fun_induction lines a with
    | case1 | case2 => rfl
    | case3 x y rest isBreak =>
        obtain ⟨rfl, rfl⟩ := isBreak
        exact absurd (List.prefix_append crlf rest).isInfix unbroken
    | case4 x y rest notBreak ih =>
        rw [ih fun inside => unbroken (inside.trans (List.suffix_cons x _).isInfix)]
        rfl

/-- Bytes without a CR stay in front of the first line. -/
theorem lines_append_left {front : Bytes} (noCR : 13 ∉ front) {a l : Bytes} {ls : List Bytes}
    (shape : lines a = l :: ls) : lines (front ++ a) = (front ++ l) :: ls := by
  induction front with
  | nil => exact shape
  | cons b front ih =>
      simp only [List.mem_cons, not_or] at noCR
      rw [List.cons_append, lines_cons (Ne.symm noCR.1), ih noCR.2]
      rfl

theorem lines_of_noCR {a : Bytes} (noCR : 13 ∉ a) : lines a = [a] := by
  simpa using lines_append_left noCR (show lines [] = [] :: [] from rfl)

/-- The number of bytes of some lines, with the two that end each of them. -/
def span (ls : List Bytes) : Nat := (ls.map fun l => l.length + 2).sum

@[simp] theorem span_nil : span [] = 0 := rfl

@[simp] theorem span_cons (l : Bytes) (ls : List Bytes) : span (l :: ls) =
    l.length + 2 + span ls := by
  simp [span]

theorem span_lines (a : Bytes) : span (lines a) = a.length + 2 := by
  have extended : ∀ b ls, ls ≠ [] → span (extend b ls) = span ls + 1 := by
    intro b ls nonempty
    cases ls with
    | nil => exact absurd rfl nonempty
    | cons l ls =>
        simp only [extend, span_cons, List.length_cons]
        omega
  fun_induction lines a with
  | case1 | case2 => rfl
  | case3 x y rest isBreak ih =>
      simp only [span_cons, ih, List.length_cons, List.length_nil]
      omega
  | case4 x y rest notBreak ih =>
      rw [extended x _ (lines_ne_nil _), ih]
      simp only [List.length_cons]

end LearningProjects.Text
