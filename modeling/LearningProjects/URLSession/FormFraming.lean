import LearningProjects.URLSession.FormBody

/-! # Who decides where the parts of a form end

The boundary is fixed and keys and file name are written between quotes without
escaping, so content can write delimiters and parameters of its own. The form
reads as it was written exactly when the keys and the file name can stand
between quotes and no line of the payload begins like a delimiter.
-/

namespace LearningProjects.URLSession

open Text (Bytes utf8 lines)
open Text.Multipart

variable {Value : Type} {serialise : Value → Option String}

/-- What `JSONSerialization` promises when it does not pretty-print: the text is
    one line, and no JSON value starts with two dashes. -/
structure JSONText (serialise : Value → Option String) : Prop where
  oneLine : ∀ value text, serialise value = some text → ¬Text.crlf <:+: utf8 text
  noDashes : ∀ value text, serialise value = some text → ¬dashes <+: utf8 text

theorem JSONText.clean (json : JSONText serialise) {param : List (String × Value)} :
    ∀ entry ∈ serialised serialise param, Clean (utf8 boundary) (utf8 entry.2) := by
  simp only [serialised, List.mem_filterMap, Option.map_eq_some_iff]
  rintro entry ⟨⟨key, value⟩, member, text, serialises, rfl⟩
  rw [Clean, (Text.lines_eq_singleton_iff _).mpr (json.oneLine value text serialises),
    List.forall_mem_singleton, ← Bool.not_eq_true]
  intro starts
  apply json.noDashes value text serialises
  exact (List.prefix_append _ _).trans (List.isPrefixOf_iff_prefix.mp starts)

section Framing

variable (serialise)

/-- The texts of a form, in the order they are written. -/
def formTexts (disposition : String) (data : Bytes) (param : List (String × Value)) : List Bytes :=
  (serialised serialise param).map parameterText ++ [fileText disposition data]

/-- The delimiters a reader finds in `body` are those that were written, and its
    dispositions name the keys that were given and the `parameters` of the file. -/
structure Framed (param : List (String × Value)) (disposition : String)
    (parameters : List (Bytes × Bytes)) (data body : Bytes) : Prop where
  delimiters : delimiterOffsets (utf8 boundary) 0 (lines body) =
    writtenOffsets (utf8 boundary) 0 (formTexts serialise disposition data param)
  dispositions : (parse (utf8 boundary) body).map (·.map Part.disposition) =
    some ((serialised serialise param).map (fun entry => some [(utf8 "name", utf8 entry.1)]) ++
      [some parameters])

end Framing

/-- Whatever the key is, a parameter's text is a part. -/
theorem parameterText_part (entry : String × String) :
    ∃ part, Part.ofLines (lines (parameterText entry)) = some part ∧
      (part.disposition = some [(utf8 "name", utf8 entry.1)] ↔ Quotable (utf8 entry.1)) := by
  obtain ⟨l, rest, others, content, shape, read⟩ := Part.ofLines_quoted
    (show utf8 "Content-Disposition: form-data; name=\"" ≠ [] by decide) (by decide)
    (utf8 entry.1) (lines (utf8 entry.2))
  rw [lines_parameterText]
  exact ⟨_, read, by rw [disposition_name, scan_quoted_iff shape]⟩

theorem fileText_part (fileName : String) (data : Bytes) :
    ∃ part, Part.ofLines (lines (fileText (fileDisposition fileName) data)) = some part ∧
      (part.disposition = some [(utf8 "name", utf8 "file"), (utf8 "filename", utf8 fileName)] ↔
        Quotable (utf8 fileName)) := by
  obtain ⟨l, rest, others, content, shape, read⟩ := Part.ofLines_quoted
    (show utf8 "Content-Disposition: form-data; name=\"file\"; filename=\"" ≠ [] by decide)
    (by decide) (utf8 fileName) (utf8 "Content-Type: image/*" :: lines data)
  rw [lines_fileText, utf8_fileDisposition]
  refine ⟨_, read, ?_⟩
  rw [disposition_filename]
  simpa using scan_quoted_iff shape

theorem imageText_part (data : Bytes) :
    ∃ part, Part.ofLines (lines (fileText imageDisposition data)) = some part ∧
      (part.disposition = some [(utf8 "name", utf8 "file")] ↔ True) := by
  have header : utf8 imageDisposition =
      utf8 "Content-Disposition: form-data; name=\"" ++ utf8 "file\"" := by decide
  refine ⟨_, ofLines_fileText oneHeader_image data, iff_true_intro ?_⟩
  rw [filePart, header, disposition_name]
  rfl

/-- For either builder: `quoted` is what its own disposition needs. -/
theorem framed_buildForm_iff (json : JSONText serialise) {disposition : String}
    {parameters : List (Bytes × Bytes)} {quoted : Prop} {data : Bytes}
    (readsFile : ∃ part, Part.ofLines (lines (fileText disposition data)) = some part ∧
      (part.disposition = some parameters ↔ quoted))
    (oneHeader : quoted → OneHeader disposition) (param : List (String × Value)) :
    Framed serialise param disposition parameters data
        (buildForm serialise disposition data param) ↔
      (∀ entry ∈ serialised serialise param, Quotable (utf8 entry.1)) ∧ quoted ∧
        Clean (utf8 boundary) data := by
  obtain ⟨filePart, fileRead, fileNamed⟩ := readsFile
  constructor
  · intro framed
    have clean := framed.delimiters
    rw [buildForm_eq_render, ← formTexts, delimiterOffsets_render (by decide)] at clean
    choose part read named using parameterText_part
    have parsed : parse (utf8 boundary)
        (render (utf8 boundary) (formTexts serialise disposition data param)) =
        some ((serialised serialise param).map part ++ [filePart]) := by
      apply parse_render (by decide) clean
      apply List.rel_append
      · rw [List.forall₂_map_left_iff, List.forall₂_map_right_iff, List.forall₂_same]
        exact fun entry _ => read entry
      · exact .cons fileRead .nil
    have names := framed.dispositions
    rw [buildForm_eq_render, ← formTexts, parsed, Option.map_some, Option.some.injEq,
      List.map_append, List.map_map] at names
    obtain ⟨keys, file⟩ := List.append_inj' names rfl
    rw [List.map_inj_left] at keys
    have quotes := fileNamed.mp (List.singleton_inj.mp file)
    refine ⟨fun entry member => (named entry).mp (keys entry member), quotes, ?_⟩
    exact (clean_fileText (oneHeader quotes)).mp (clean _ (by simp [formTexts]))
  · rintro ⟨keys, quotes, clean⟩
    have one := oneHeader quotes
    have same : filePart = URLSession.filePart disposition data :=
      Option.some.inj (fileRead.symm.trans (ofLines_fileText one data))
    constructor
    · rw [buildForm_eq_render, ← formTexts, delimiterOffsets_render (by decide)]
      simp only [formTexts, List.mem_append, List.mem_map, List.mem_singleton]
      rintro text (⟨entry, member, rfl⟩ | rfl)
      · exact clean_parameterText (keys entry member) (json.clean entry member)
      · exact (clean_fileText one).mpr clean
    · rw [parse_buildForm keys json.clean one clean, Option.map_some, List.map_append,
        List.map_map, List.map_singleton, ← same, fileNamed.mpr quotes]
      congr 2
      rw [List.map_inj_left]
      exact fun entry member => disposition_parameterPart (keys entry member)

/-- The headers of each part, as a reader sees them. -/
def partHeaders (body : Bytes) : Option (List (List Bytes)) :=
  (parse (utf8 boundary) body).map (·.map Part.headers)

/-- Payloads that forge no delimiter leave the part structure to the parameters. -/
theorem partHeaders_buildForm (json : JSONText serialise) {param : List (String × Value)}
    (keys : ∀ entry ∈ serialised serialise param, Quotable (utf8 entry.1)) {disposition : String}
    (one : OneHeader disposition) {data : Bytes} (clean : Clean (utf8 boundary) data) :
    partHeaders (buildForm serialise disposition data param) =
      some ((serialised serialise param).map (fun entry => (parameterPart entry).headers) ++
        [[utf8 disposition]]) := by
  rw [partHeaders, parse_buildForm keys json.clean one clean, Option.map_some, List.map_append,
    List.map_map]
  rfl

theorem jsonBool_text : JSONText jsonBool := by
  constructor
  all_goals
    rintro (_ | _) text serialises
    all_goals
      obtain rfl := Option.some.inj serialises
      decide

end LearningProjects.URLSession
