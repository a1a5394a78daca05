import Mathlib.Data.List.Forall2
import Mathlib.Data.List.TakeWhile
import LearningProjects.Text.Lines

/-! # Reading multipart bodies

A reader for RFC 2046 multipart bodies, with any boundary. A line that begins
with two dashes and the boundary is a delimiter, and one that goes on with two
more dashes closes the body. A part's headers end at its first empty line; its
content ends before the CRLF in front of the next delimiter.
-/

namespace LearningProjects.Text.Multipart

def dashes : Bytes := [45, 45]

structure Part where
  headers : List Bytes
  content : Bytes
  deriving DecidableEq, Repr

/-- The lines of one part; a part without an empty line is malformed. -/
def Part.ofLines (ls : List Bytes) : Option Part :=
  match ls.dropWhile (!·.isEmpty) with
  | [] => none
  | _ :: content => some ⟨ls.takeWhile (!·.isEmpty), crlf.intercalate content⟩

section Reader

variable (boundary : Bytes)

def delimits (l : Bytes) : Bool := (dashes ++ boundary).isPrefixOf l

def closes (l : Bytes) : Bool := (dashes ++ boundary ++ dashes).isPrefixOf l

/-- No line of the text begins like a delimiter. -/
def Clean (text : Bytes) : Prop := ∀ l ∈ lines text, delimits boundary l = false

instance (text : Bytes) : Decidable (Clean boundary text) :=
  inferInstanceAs (Decidable (∀ l ∈ lines text, delimits boundary l = false))

/-- The lines of each part, up to the closing delimiter. Lines before the first
    delimiter are skipped, and so are those that belong to a part already read. -/
def sections : List Bytes → List (List Bytes)
  | [] => []
  | l :: ls =>
      if closes boundary l then []
      else if delimits boundary l then
        ls.takeWhile (fun m => !delimits boundary m) :: sections ls
      else sections ls

/-- Where the delimiter lines start, in bytes, when the first line starts at
    `offset`; nothing is read past the closing one. -/
def delimiterOffsets (offset : Nat) : List Bytes → List Nat
  | [] => []
  | l :: ls =>
      if closes boundary l then [offset]
      else if delimits boundary l then
        offset :: delimiterOffsets (offset + l.length + 2) ls
      else delimiterOffsets (offset + l.length + 2) ls

/-- The parts of a body; `none` when the closing delimiter is missing or a part
    is malformed. -/
def parse (body : Bytes) : Option (List Part) :=
  if (lines body).any (closes boundary) then (sections boundary (lines body)).mapM Part.ofLines
  else none

end Reader

theorem Part.ofLines_headers {headers : List Bytes} (full : ∀ h ∈ headers, h ≠ [])
    (content : List Bytes) :
    Part.ofLines (headers ++ [] :: content) = some ⟨headers, crlf.intercalate content⟩ := by
  have kept : ∀ h ∈ headers, (!h.isEmpty) = true := by simpa using full
  simp [ofLines, List.dropWhile_append_of_pos kept, List.takeWhile_append_of_pos kept]

theorem Part.ofLines_cons {first : Bytes} (full : first ≠ []) {ls : List Bytes} (blank : [] ∈ ls) :
    ∃ others content, Part.ofLines (first :: ls) = some ⟨first :: others, content⟩ := by
  have kept : (!first.isEmpty) = true := by simpa using full
  simp only [ofLines, List.dropWhile_cons, List.takeWhile_cons, kept, if_true]
  cases rest : ls.dropWhile (!·.isEmpty) with
  | nil =>
      rw [List.dropWhile_eq_nil_iff] at rest
      simpa using rest [] blank
  | cons l tail => exact ⟨_, _, rfl⟩

/-! ## Header parameters -/

/-- Position in a header's list of quoted parameters, with the bytes of the
    current name and value. -/
inductive Scan where
  | between
  | space
  | name (read : Bytes)
  | opening (name : Bytes)
  | value (name read : Bytes)
  deriving DecidableEq, Repr

/-- Read the rest of `; name="value"; …`. A value ends at the next quote. -/
def scan : Scan → Bytes → Option (List (Bytes × Bytes))
  | .between, [] => some []
  | .between, b :: rest => if b = 59 then scan .space rest else none
  | .space, b :: rest => if b = 32 then scan (.name []) rest else none
  | .name read, b :: rest =>
      if b = 61 then scan (.opening read) rest else scan (.name (read ++ [b])) rest
  | .opening name, b :: rest => if b = 34 then scan (.value name []) rest else none
  | .value name read, b :: rest =>
      if b = 34 then (scan .between rest).map ((name, read) :: ·)
      else scan (.value name (read ++ [b])) rest
  | _, [] => none

/-- The field name and type in front of the parameters. -/
def formData : Bytes := utf8 "Content-Disposition: form-data"

/-- The parameters of a part's `Content-Disposition`. -/
def Part.disposition (part : Part) : Option (List (Bytes × Bytes)) :=
  (part.headers.find? formData.isPrefixOf).bind fun header =>
    scan .between (header.drop formData.length)

theorem scan_value {name read value : Bytes} (unquoted : 34 ∉ value) :
    scan (.value name read) (value ++ [34]) = some [(name, read ++ value)] := by
  induction value generalizing read with
  | nil => simp [scan]
  | cons b value ih =>
      simp only [List.mem_cons, not_or] at unquoted
      rw [List.cons_append, scan, if_neg (Ne.symm unquoted.1), ih unquoted.2]
      simp

/-- Only the end of the header yields no parameter at all. -/
theorem scan_eq_nil {state : Scan} {input : Bytes} (scanned : scan state input = some []) :
    state = .between ∧ input = [] := by
  induction input generalizing state with
  | nil => cases state <;> simp_all [scan]
  | cons b input ih =>
      cases state with
      | between =>
          simp only [scan, Option.ite_none_right_eq_some] at scanned
          exact absurd (ih scanned.2).1 (by simp)
      | space =>
          simp only [scan, Option.ite_none_right_eq_some] at scanned
          exact absurd (ih scanned.2).1 (by simp)
      | opening name =>
          simp only [scan, Option.ite_none_right_eq_some] at scanned
          exact absurd (ih scanned.2).1 (by simp)
      | name read =>
          rw [scan] at scanned
          split at scanned <;> exact absurd (ih scanned).1 (by simp)
      | value name read =>
          rw [scan] at scanned
          split at scanned
          · simp at scanned
          · exact absurd (ih scanned).1 (by simp)

/-- What is read as the only value stood in front of a final, only quote. -/
theorem scan_value_eq {name read result input : Bytes}
    (scanned : scan (.value name read) input = some [(name, result)]) :
    ∃ value, result = read ++ value ∧ input = value ++ [34] ∧ 34 ∉ value := by
  induction input generalizing read with
  | nil => simp [scan] at scanned
  | cons b input ih =>
      rw [scan] at scanned
      split at scanned
      · rename_i quote
        obtain ⟨others, rest, same⟩ := Option.map_eq_some_iff.mp scanned
        simp only [List.cons.injEq, Prod.mk.injEq, true_and] at same
        obtain ⟨rfl, rfl⟩ := same
        exact ⟨[], by simp, by simp [quote, (scan_eq_nil rest).2], by simp⟩
      · rename_i other
        obtain ⟨value, rfl, rfl, unquoted⟩ := ih scanned
        refine ⟨b :: value, by simp, rfl, ?_⟩
        simpa [Ne.symm other] using unquoted

/-- Bytes that can stand between quotes in a header and be read back. -/
structure Quotable (value : Bytes) : Prop where
  unquoted : 34 ∉ value
  unbroken : ¬crlf <:+: value

theorem Quotable.lines_eq {value : Bytes} (quotable : Quotable value) :
    lines (value ++ [34]) = [value ++ [34]] := by
  rw [lines_eq_singleton_iff, List.infix_concat_iff]
  rintro (ending | inside)
  · obtain ⟨front, same⟩ := ending
    have last := congrArg List.getLast? same
    simp [crlf] at last
  · exact quotable.unbroken inside

/-- The first line of a quoted value gives it back exactly when it is quotable. -/
theorem scan_quoted_iff {name value l : Bytes} {others : List Bytes}
    (shape : lines (value ++ [34]) = l :: others) :
    scan (.value name []) l = some [(name, value)] ↔ Quotable value := by
  constructor
  · intro scanned
    obtain ⟨read, same, rfl, unquoted⟩ := scan_value_eq scanned
    rw [List.nil_append] at same
    subst same
    have size := span_lines (value ++ [34])
    rw [shape, span_cons] at size
    have single : others = [] := by
      cases others with
      | nil => rfl
      | cons m ms =>
          simp only [span_cons] at size
          omega
    rw [single, lines_eq_singleton_iff] at shape
    exact ⟨unquoted, fun inside => shape (inside.trans (List.prefix_append _ _).isInfix)⟩
  · intro quotable
    rw [quotable.lines_eq] at shape
    obtain ⟨rfl, rfl⟩ := List.cons.inj shape
    rw [scan_value quotable.unquoted, List.nil_append]

/-- Whatever value a header ends with between quotes, its lines start a part whose
    first header is the first of them. -/
theorem Part.ofLines_quoted {front : Bytes} (full : front ≠ []) (noCR : 13 ∉ front) (value : Bytes)
    (body : List Bytes) :
    ∃ l rest others content, lines (value ++ [34]) = l :: rest ∧
      Part.ofLines (lines (front ++ (value ++ [34])) ++ [] :: body) =
        some ⟨(front ++ l) :: others, content⟩ := by
  cases shape : lines (value ++ [34]) with
  | nil => exact absurd shape (lines_ne_nil _)
  | cons l rest =>
      obtain ⟨others, content, read⟩ := Part.ofLines_cons
        (show front ++ l ≠ [] by simp [full]) (show [] ∈ rest ++ [] :: body by simp)
      refine ⟨l, rest, others, content, rfl, ?_⟩
      rw [lines_append_left noCR shape]
      exact read

/-- The first header decides, if it is the field asked for. -/
theorem disposition_of_first {parameters : Bytes} {others : List Bytes} {content : Bytes} :
    Part.disposition ⟨(formData ++ parameters) :: others, content⟩ = scan .between parameters := by
  have first : formData.isPrefixOf (formData ++ parameters) = true :=
    List.isPrefixOf_iff_prefix.mpr (List.prefix_append _ _)
  simp [Part.disposition, first]

/-! ## Bodies written part by part -/

section Writer

variable (boundary : Bytes)

def delimiter : Bytes := dashes ++ boundary

def closing : Bytes := dashes ++ boundary ++ dashes

/-- A body with the given texts between its delimiter lines. -/
def render (texts : List Bytes) : Bytes :=
  texts.flatMap (fun text => delimiter boundary ++ crlf ++ text ++ crlf) ++
    (closing boundary ++ crlf)

/-- Where the delimiter lines of `render` stand, counting from `offset`. -/
def writtenOffsets (offset : Nat) : List Bytes → List Nat
  | [] => [offset]
  | text :: texts => offset ::
      writtenOffsets (offset + (delimiter boundary ++ crlf ++ text ++ crlf).length) texts

variable {boundary}

theorem closes_closing : closes boundary (closing boundary) = true :=
  List.isPrefixOf_iff_prefix.mpr (List.prefix_refl _)

theorem delimits_delimiter : delimits boundary (delimiter boundary) = true :=
  List.isPrefixOf_iff_prefix.mpr (List.prefix_refl _)

theorem not_closes_delimiter : closes boundary (delimiter boundary) = false := by
  rw [Bool.eq_false_iff]
  intro closed
  have := (List.isPrefixOf_iff_prefix.mp closed).length_le
  simp only [delimiter, dashes, List.length_append, List.length_cons, List.length_nil] at this
  omega

theorem delimits_of_closes {l : Bytes} (closed : closes boundary l = true) :
    delimits boundary l = true :=
  List.isPrefixOf_iff_prefix.mpr
    ((List.prefix_append _ dashes).trans (List.isPrefixOf_iff_prefix.mp closed))

theorem not_closes_of_not_delimits {l : Bytes} (plain : delimits boundary l = false) :
    closes boundary l = false := by
  rw [Bool.eq_false_iff] at plain ⊢
  exact fun closed => plain (delimits_of_closes closed)

theorem lines_render (noCR : 13 ∉ boundary) (texts : List Bytes) :
    lines (render boundary texts) =
      texts.flatMap (fun text => delimiter boundary :: lines text) ++ [closing boundary, []] := by
  have noDash : (13 : UInt8) ∉ dashes := by decide
  have cutOpen : lines (delimiter boundary) = [delimiter boundary] :=
    lines_of_noCR (by simp [delimiter, noDash, noCR])
  have cutClose : lines (closing boundary) = [closing boundary] :=
    lines_of_noCR (by simp [closing, noDash, noCR])
  induction texts with
  | nil =>
      have last := lines_append_crlf (closing boundary) []
      rw [List.append_nil, cutClose] at last
      exact last
  | cons text texts ih =>
      have shape : render boundary (text :: texts) =
          delimiter boundary ++ (crlf ++ (text ++ (crlf ++ render boundary texts))) := by
        simp [render]
      rw [shape, lines_append_crlf, lines_append_crlf, cutOpen, ih]
      simp

/-- Inside a text, the next written offset is the one just after its lines. -/
theorem delimiterOffsets_skip (ls tail : List Bytes) (offset : Nat) (later : List Nat) :
    delimiterOffsets boundary offset (ls ++ tail) = (offset + span ls) :: later ↔
      (∀ l ∈ ls, delimits boundary l = false) ∧
        delimiterOffsets boundary (offset + span ls) tail = (offset + span ls) :: later := by
  induction ls generalizing offset with
  | nil => simp
  | cons l ls ih =>
      rw [List.cons_append, delimiterOffsets, List.forall_mem_cons]
      cases found : delimits boundary l with
      | true =>
          cases closed : closes boundary l with
          | true => simp
          | false => simp
      | false =>
          have next := ih (offset + l.length + 2)
          rw [show offset + l.length + 2 + span ls = offset + span (l :: ls) by
            rw [span_cons]; omega] at next
          simpa only [not_closes_of_not_delimits found, Bool.false_eq_true, if_false, true_and]
            using next

variable (boundary) in
theorem writtenOffsets_head (offset : Nat) (texts : List Bytes) :
    ∃ later, writtenOffsets boundary offset texts = offset :: later := by
  cases texts with
  | nil => exact ⟨[], rfl⟩
  | cons text texts => exact ⟨_, rfl⟩

/-- The reader finds the delimiters where they were written exactly when no text
    brings a line of its own that begins like one. -/
theorem delimiterOffsets_flatMap (rest texts : List Bytes) (offset : Nat) :
    delimiterOffsets boundary offset
        (texts.flatMap (fun text => delimiter boundary :: lines text) ++ closing boundary :: rest) =
      writtenOffsets boundary offset texts ↔
    ∀ text ∈ texts, Clean boundary text := by
  induction texts generalizing offset with
  | nil => simp [delimiterOffsets, writtenOffsets, closes_closing]
  | cons text texts ih =>
      have size : (delimiter boundary ++ crlf ++ text ++ crlf).length =
          (delimiter boundary).length + 2 + span (lines text) := by
        simp [span_lines, crlf]
        omega
      have next := ih (offset + (delimiter boundary ++ crlf ++ text ++ crlf).length)
      rw [List.flatMap_cons, List.append_assoc, List.cons_append, delimiterOffsets,
        not_closes_delimiter, delimits_delimiter, if_neg (by simp), if_pos rfl, writtenOffsets,
        List.cons.injEq, List.forall_mem_cons]
      obtain ⟨later, head⟩ := writtenOffsets_head boundary
        (offset + (delimiter boundary ++ crlf ++ text ++ crlf).length) texts
      rw [head] at next ⊢
      rw [size, ← Nat.add_assoc, ← Nat.add_assoc] at next ⊢
      rw [delimiterOffsets_skip, next]
      simp [Clean]

theorem delimiterOffsets_render (noCR : 13 ∉ boundary) (texts : List Bytes) :
    delimiterOffsets boundary 0 (lines (render boundary texts)) =
        writtenOffsets boundary 0 texts ↔
      ∀ text ∈ texts, Clean boundary text := by
  rw [lines_render noCR]
  exact delimiterOffsets_flatMap [[]] texts 0

/-- Lines that are no delimiters are passed over. -/
theorem sections_skip {ls : List Bytes} (clean : ∀ l ∈ ls, delimits boundary l = false)
    (tail : List Bytes) : sections boundary (ls ++ tail) = sections boundary tail := by
  induction ls with
  | nil => rfl
  | cons l ls ih =>
      rw [List.forall_mem_cons] at clean
      simpa only [List.cons_append, sections, clean.1, not_closes_of_not_delimits clean.1,
        Bool.false_eq_true, if_false] using ih clean.2

theorem sections_flatMap {texts : List Bytes}
    (clean : ∀ text ∈ texts, Clean boundary text) (rest : List Bytes) :
    sections boundary
        (texts.flatMap (fun text => delimiter boundary :: lines text) ++ closing boundary :: rest) =
      texts.map lines := by
  induction texts with
  | nil => simp [sections, closes_closing]
  | cons text texts ih =>
      rw [List.forall_mem_cons] at clean
      have plain : ∀ l ∈ lines text, (!delimits boundary l) = true := by
        simpa [Clean] using clean.1
      have stop : ((texts.flatMap fun text => delimiter boundary :: lines text) ++
          closing boundary :: rest).takeWhile (fun l => !delimits boundary l) = [] := by
        cases texts with
        | nil => simp [delimits_of_closes closes_closing]
        | cons text texts => simp [delimits_delimiter]
      rw [List.flatMap_cons, List.append_assoc, List.cons_append, sections,
        not_closes_delimiter, delimits_delimiter, if_neg (by simp), if_pos rfl,
        sections_skip clean.1, ih clean.2, List.takeWhile_append_of_pos plain, stop]
      simp

/-- A body whose texts hold no delimiter line parses into their parts. -/
theorem parse_render (noCR : 13 ∉ boundary) {texts : List Bytes}
    (clean : ∀ text ∈ texts, Clean boundary text) {parts : List Part}
    (wellFormed : List.Forall₂
      (fun text part => Part.ofLines (lines text) = some part) texts parts) :
    parse boundary (render boundary texts) = some parts := by
  have closed : (lines (render boundary texts)).any (closes boundary) = true := by
    rw [List.any_eq_true]
    exact ⟨closing boundary, by simp [lines_render noCR], closes_closing⟩
  rw [parse, if_pos closed, lines_render noCR, sections_flatMap clean, List.mapM_map]
  clear clean closed
  induction wellFormed with
  | nil => rfl
  | cons read _ ih => rw [List.mapM_cons, Function.comp_apply, read, ih]; rfl

end Writer

end LearningProjects.Text.Multipart
