import LearningProjects.Text.Multipart

/-! # The body of an avatar upload

`buildHeadImage` and `buildHeadFile` write the parameters and the image as a
multipart form. Both put the image's `Content-Type` after the empty line that
ends the headers, so a reader takes it for the first line of the image.
-/

namespace LearningProjects.URLSession

open Text (Bytes utf8 lines)
open Text.Multipart

def boundary : String := "upload.boundary"

def crlf : String := "\r\n"

def line : String := "--"

section Builders

variable {Value : Type} (serialise : Value → Option String)

/-- One round of the loop over `param`. `serialise` stands for
    `JSONSerialization` followed by UTF-8 decoding; when it fails the parameter
    is skipped. -/
def appendParameter (formString : String) : String × Value → String
  | (key, value) =>
      match serialise value with
      | none => formString
      | some valueString =>
          formString ++ (line ++ boundary ++ crlf)
            ++ ("Content-Disposition: form-data; name=\"" ++ key ++ "\"" ++ crlf ++ crlf)
            ++ (valueString ++ crlf)

/-- The whole loop, in the dictionary's order. -/
def formParameters (param : List (String × Value)) : String :=
  param.foldl (appendParameter serialise) ""

/-- What both builders do; they differ in the disposition of the file part. -/
def buildForm (disposition : String) (data : Bytes) (param : List (String × Value)) : Bytes :=
  let formString := formParameters serialise param
    ++ (line ++ boundary ++ crlf)
    ++ (disposition ++ crlf ++ crlf)
    ++ ("Content-Type: image/*" ++ crlf)
  utf8 formString ++ data ++ utf8 (crlf ++ line ++ boundary ++ line ++ crlf)

def imageDisposition : String := "Content-Disposition: form-data; name=\"file\""

def fileDisposition (fileName : String) : String :=
  "Content-Disposition: form-data; name=\"file\"; filename=\"" ++ fileName ++ "\""

def buildHeadImage (data : Bytes) (param : List (String × Value)) : Bytes :=
  buildForm serialise imageDisposition data param

/-- `contents` is what reading the file gave; a file that cannot be read counts
    as empty. -/
def buildHeadFile (fileName : String) (contents : Option Bytes) (param : List (String × Value)) :
    Bytes :=
  buildForm serialise (fileDisposition fileName) (contents.getD []) param

/-- The parameters that are written, with the text of their values. -/
def serialised (param : List (String × Value)) : List (String × String) :=
  param.filterMap fun (key, value) => (serialise value).map (key, ·)

/-- What stands between two delimiters for one parameter. -/
def parameterText (entry : String × String) : Bytes :=
  utf8 "Content-Disposition: form-data; name=\"" ++ (utf8 entry.1 ++ utf8 "\"") ++ Text.crlf
    ++ (Text.crlf ++ utf8 entry.2)

def fileText (disposition : String) (data : Bytes) : Bytes :=
  utf8 disposition ++ Text.crlf ++
    (Text.crlf ++ (utf8 "Content-Type: image/*" ++ (Text.crlf ++ data)))

variable {serialise}

theorem utf8_delimiterLine :
    utf8 (line ++ boundary ++ crlf) = delimiter (utf8 boundary) ++ Text.crlf := by
  decide

theorem utf8_crlf : utf8 crlf = Text.crlf := by
  decide

theorem utf8_appendParameter (formString key : String) {value : Value} {valueString : String}
    (text : serialise value = some valueString) :
    utf8 (appendParameter serialise formString (key, value)) =
      utf8 formString ++
        (delimiter (utf8 boundary) ++ Text.crlf ++
          parameterText (key, valueString) ++ Text.crlf) := by
  rw [appendParameter, text]
  change utf8 (formString ++ (line ++ boundary ++ crlf) ++ _ ++ _) = _
  rw [Text.utf8_append, Text.utf8_append, Text.utf8_append, utf8_delimiterLine]
  simp [parameterText, utf8_crlf]

theorem utf8_formParameters (param : List (String × Value)) :
    utf8 (formParameters serialise param) =
      ((serialised serialise param).map parameterText).flatMap
        fun text => delimiter (utf8 boundary) ++ Text.crlf ++ text ++ Text.crlf := by
  induction param using List.reverseRecOn with
  | nil => rfl
  | append_singleton param entry ih =>
      obtain ⟨key, value⟩ := entry
      rw [formParameters, List.foldl_append, List.foldl_cons, List.foldl_nil, ← formParameters]
      cases text : serialise value with
      | none => simpa [appendParameter, serialised, text] using ih
      | some valueString =>
          rw [utf8_appendParameter _ _ text, ih]
          simp [serialised, text]

/-- The builders write a multipart body: one text per parameter, then the file. -/
theorem buildForm_eq_render (disposition : String) (data : Bytes) (param : List (String × Value)) :
    buildForm serialise disposition data param =
      render (utf8 boundary) ((serialised serialise param).map parameterText ++
        [fileText disposition data]) := by
  have ending : utf8 (crlf ++ line ++ boundary ++ line ++ crlf) =
      Text.crlf ++ (closing (utf8 boundary) ++ Text.crlf) := by decide
  rw [buildForm]
  simp only [Text.utf8_append _ ("Content-Type: image/*" ++ crlf),
    Text.utf8_append _ (disposition ++ crlf ++ crlf), Text.utf8_append _ (line ++ boundary ++ crlf),
    utf8_formParameters, utf8_delimiterLine, ending, render, List.flatMap_append]
  simp [fileText, utf8_crlf]

/-! ## The texts as parts -/

theorem lines_parameterText (entry : String × String) :
    lines (parameterText entry) =
      lines (utf8 "Content-Disposition: form-data; name=\"" ++ (utf8 entry.1 ++ utf8 "\"")) ++
        [] :: lines (utf8 entry.2) := by
  rw [parameterText, List.append_assoc _ Text.crlf, Text.lines_append_crlf, Text.lines_crlf]

theorem lines_fileText (disposition : String) (data : Bytes) :
    lines (fileText disposition data) =
      lines (utf8 disposition) ++ [] :: utf8 "Content-Type: image/*" :: lines data := by
  rw [fileText, List.append_assoc _ Text.crlf, Text.lines_append_crlf, Text.lines_crlf,
    Text.lines_append_crlf]
  rfl

/-- A header that starts like a parameter's is read on from its key. -/
theorem disposition_name (rest : Bytes) (others : List Bytes) (content : Bytes) :
    Part.disposition ⟨(utf8 "Content-Disposition: form-data; name=\"" ++ rest) :: others, content⟩ =
      scan (.value (utf8 "name") []) rest := by
  have start : utf8 "Content-Disposition: form-data; name=\"" = formData ++ utf8 "; name=\"" := by
    decide
  rw [start, List.append_assoc, disposition_of_first]
  rfl

theorem disposition_filename (rest : Bytes) (others : List Bytes) (content : Bytes) :
    Part.disposition
        ⟨(utf8 "Content-Disposition: form-data; name=\"file\"; filename=\"" ++ rest) :: others,
          content⟩ =
      (scan (.value (utf8 "filename") []) rest).map ((utf8 "name", utf8 "file") :: ·) := by
  have start : utf8 "Content-Disposition: form-data; name=\"file\"; filename=\"" =
      formData ++ utf8 "; name=\"file\"; filename=\"" := by decide
  rw [start, List.append_assoc, disposition_of_first]
  rfl

/-- The part a reader gets for a parameter. -/
def parameterPart (entry : String × String) : Part :=
  ⟨[utf8 "Content-Disposition: form-data; name=\"" ++ (utf8 entry.1 ++ utf8 "\"")], utf8 entry.2⟩

/-- The part a reader gets for the file: its `Content-Type` is content. -/
def filePart (disposition : String) (data : Bytes) : Part :=
  ⟨[utf8 disposition], utf8 "Content-Type: image/*" ++ (Text.crlf ++ data)⟩

/-- A disposition that stays one header line in the body. -/
structure OneHeader (disposition : String) : Prop where
  single : lines (utf8 disposition) = [utf8 disposition]
  full : utf8 disposition ≠ []
  plain : delimits (utf8 boundary) (utf8 disposition) = false

theorem oneHeader_image : OneHeader imageDisposition :=
  ⟨by decide, by decide, by decide⟩

theorem utf8_fileDisposition (fileName : String) :
    utf8 (fileDisposition fileName) =
      utf8 "Content-Disposition: form-data; name=\"file\"; filename=\"" ++
        (utf8 fileName ++ utf8 "\"") := by
  unfold fileDisposition
  rw [Text.utf8_append, Text.utf8_append]
  exact List.append_assoc _ _ _

theorem oneHeader_file {fileName : String} (quotable : Quotable (utf8 fileName)) :
    OneHeader (fileDisposition fileName) := by
  have text := utf8_fileDisposition fileName
  refine ⟨?_, ?_, ?_⟩ <;> rw [text]
  · exact Text.lines_append_left (by decide) quotable.lines_eq
  · exact List.cons_ne_nil _ _
  · rfl

theorem lines_parameterHeader {key : String} (quotable : Quotable (utf8 key)) :
    lines (utf8 "Content-Disposition: form-data; name=\"" ++ (utf8 key ++ utf8 "\"")) =
      [utf8 "Content-Disposition: form-data; name=\"" ++ (utf8 key ++ utf8 "\"")] :=
  Text.lines_append_left (by decide) quotable.lines_eq

theorem ofLines_parameterText {entry : String × String} (quotable : Quotable (utf8 entry.1)) :
    Part.ofLines (lines (parameterText entry)) = some (parameterPart entry) := by
  have full : utf8 "Content-Disposition: form-data; name=\"" ≠ [] := by decide
  rw [lines_parameterText, lines_parameterHeader quotable, Part.ofLines_headers (by simp [full]),
    Text.intercalate_lines, parameterPart]

theorem ofLines_fileText {disposition : String} (one : OneHeader disposition) (data : Bytes) :
    Part.ofLines (lines (fileText disposition data)) = some (filePart disposition data) := by
  rw [lines_fileText, one.single, Part.ofLines_headers (by simpa using one.full),
    List.intercalate_cons_of_ne_nil (Text.lines_ne_nil data), Text.intercalate_lines, filePart]
  simp

theorem clean_parameterText {entry : String × String} (quotable : Quotable (utf8 entry.1))
    (clean : Clean (utf8 boundary) (utf8 entry.2)) :
    Clean (utf8 boundary) (parameterText entry) := by
  have header : delimits (utf8 boundary)
      (utf8 "Content-Disposition: form-data; name=\"" ++ (utf8 entry.1 ++ utf8 "\"")) = false := rfl
  rw [Clean, lines_parameterText, lines_parameterHeader quotable]
  simpa [header] using ⟨rfl, clean⟩

theorem clean_fileText {disposition : String} (one : OneHeader disposition) {data : Bytes} :
    Clean (utf8 boundary) (fileText disposition data) ↔ Clean (utf8 boundary) data := by
  rw [Clean, lines_fileText, one.single]
  simp [one.plain, Clean, show delimits (utf8 boundary) [] = false from rfl,
    show delimits (utf8 boundary) (utf8 "Content-Type: image/*") = false from rfl]

theorem disposition_parameterPart {entry : String × String} (quotable : Quotable (utf8 entry.1)) :
    (parameterPart entry).disposition = some [(utf8 "name", utf8 entry.1)] := by
  rw [parameterPart, disposition_name]
  exact (scan_quoted_iff quotable.lines_eq).mpr quotable

/-- What a reader makes of an ordinary form. -/
theorem parse_buildForm {param : List (String × Value)} {disposition : String} {data : Bytes}
    (quotable : ∀ entry ∈ serialised serialise param, Quotable (utf8 entry.1))
    (texts : ∀ entry ∈ serialised serialise param, Clean (utf8 boundary) (utf8 entry.2))
    (one : OneHeader disposition) (clean : Clean (utf8 boundary) data) :
    parse (utf8 boundary) (buildForm serialise disposition data param) =
      some ((serialised serialise param).map parameterPart ++ [filePart disposition data]) := by
  rw [buildForm_eq_render]
  apply parse_render (by decide)
  · simp only [List.mem_append, List.mem_map, List.mem_singleton]
    rintro text (⟨entry, member, rfl⟩ | rfl)
    · exact clean_parameterText (quotable entry member) (texts entry member)
    · exact (clean_fileText one).mpr clean
  · apply List.rel_append
    · rw [List.forall₂_map_left_iff, List.forall₂_map_right_iff, List.forall₂_same]
      exact fun entry member => ofLines_parameterText (quotable entry member)
    · exact .cons (ofLines_fileText one data) .nil

/-! ## The round trip -/

variable (serialise)

def IsParameterPart (entry : String × Value) (part : Part) : Prop :=
  part.disposition = some [(utf8 "name", utf8 entry.1)] ∧
    (serialise entry.2).map utf8 = some part.content

structure IsFilePart (parameters : List (Bytes × Bytes)) (data : Bytes) (part : Part) : Prop where
  disposition : part.disposition = some parameters
  contentType : utf8 "Content-Type: image/*" ∈ part.headers
  content : part.content = data

/-- The body reads back as one part per parameter and one last part, the file. -/
def RoundTrips (param : List (String × Value)) (parameters : List (Bytes × Bytes))
    (data body : Bytes) : Prop :=
  ∃ parts file, parse (utf8 boundary) body = some (parts ++ [file]) ∧
    List.Forall₂ (IsParameterPart serialise) param parts ∧ IsFilePart parameters data file

/-- A string without double quotes, CR and LF. -/
structure Plain (s : String) : Prop where
  quote : '"' ∉ s.toList
  cr : '\r' ∉ s.toList
  lf : '\n' ∉ s.toList

structure Encodable (param : List (String × Value)) (fileName : String) (data : Bytes) : Prop where
  keys : ∀ entry ∈ param, Plain entry.1
  values : ∀ entry ∈ param, ∃ text, serialise entry.2 = some text ∧
    Clean (utf8 boundary) (utf8 text)
  fileName : Plain fileName
  data : Clean (utf8 boundary) data

variable {serialise}

theorem Plain.quotable {s : String} (plain : Plain s) : Quotable (utf8 s) where
  unquoted := Text.not_mem_utf8 (c := '"') (by decide) plain.quote
  unbroken := fun inside => Text.not_mem_utf8 (c := '\r') (by decide) plain.cr
    (inside.subset (by decide))

theorem Encodable.parse_eq {param : List (String × Value)} {fileName : String} {data : Bytes}
    (encodable : Encodable serialise param fileName data) {disposition : String}
    (one : OneHeader disposition) :
    parse (utf8 boundary) (buildForm serialise disposition data param) =
      some ((serialised serialise param).map parameterPart ++ [filePart disposition data]) := by
  have written : ∀ entry ∈ serialised serialise param,
      Quotable (utf8 entry.1) ∧ Clean (utf8 boundary) (utf8 entry.2) := by
    simp only [serialised, List.mem_filterMap, Option.map_eq_some_iff]
    rintro entry ⟨⟨key, value⟩, member, text, serialises, rfl⟩
    obtain ⟨text', same, clean⟩ := encodable.values _ member
    obtain rfl := Option.some.inj (serialises.symm.trans same)
    exact ⟨(encodable.keys _ member).quotable, clean⟩
  exact parse_buildForm (fun entry member => (written entry member).1)
    (fun entry member => (written entry member).2) one encodable.data

/-- A `Content-Type` after the empty line is read as the start of the file. -/
theorem Encodable.not_roundTrips {param : List (String × Value)} {fileName : String} {data : Bytes}
    (encodable : Encodable serialise param fileName data) {disposition : String}
    (one : OneHeader disposition) (parameters : List (Bytes × Bytes)) :
    ¬RoundTrips serialise param parameters data (buildForm serialise disposition data param) := by
  rintro ⟨parts, file, parsed, -, isFile⟩
  rw [encodable.parse_eq one, Option.some.injEq] at parsed
  obtain ⟨-, same⟩ := List.append_inj' parsed rfl
  obtain rfl := List.singleton_inj.mp same
  have size := congrArg List.length isFile.content
  simp only [filePart, List.length_append] at size
  have longer : 0 < (utf8 "Content-Type: image/*").length := by decide
  omega

/-- No upload reads back: in both builders the file part has no `Content-Type`
    and its content starts with one. -/
theorem never_roundTrips (param : List (String × Value)) (fileName : String) (data : Bytes)
    (encodable : Encodable serialise param fileName data) :
    ¬RoundTrips serialise param [(utf8 "name", utf8 "file")] data
        (buildHeadImage serialise data param) ∧
      ¬RoundTrips serialise param
        [(utf8 "name", utf8 "file"), (utf8 "filename", utf8 fileName)] data
        (buildHeadFile serialise fileName (some data) param) := by
  constructor
  · exact encodable.not_roundTrips oneHeader_image _
  · exact encodable.not_roundTrips (oneHeader_file encodable.fileName.quotable) _

end Builders

/-- The JSON texts of truth values. -/
def jsonBool (value : Bool) : Option String := some (if value then "true" else "false")

theorem encodable_agreed : Encodable jsonBool [("agreed", true)] "a.png" [137, 80, 13, 10] where
  keys := by simpa using ⟨by decide, by decide, by decide⟩
  values := by simpa [jsonBool] using (by decide : Clean (utf8 boundary) (utf8 "true"))
  fileName := ⟨by decide, by decide, by decide⟩
  data := by decide

theorem never_roundTrips_agreed :
    ¬RoundTrips jsonBool [("agreed", true)] [(utf8 "name", utf8 "file")] [137, 80, 13, 10]
        (buildHeadImage jsonBool [137, 80, 13, 10] [("agreed", true)]) ∧
      ¬RoundTrips jsonBool [("agreed", true)]
        [(utf8 "name", utf8 "file"), (utf8 "filename", utf8 "a.png")] [137, 80, 13, 10]
        (buildHeadFile jsonBool "a.png" (some [137, 80, 13, 10]) [("agreed", true)]) :=
  never_roundTrips [("agreed", true)] "a.png" [137, 80, 13, 10] encodable_agreed

/-- The header in front of the empty line is alone; the type is in the file. -/
theorem content_type_in_file :
    Encodable jsonBool [("agreed", true)] "a.png" [137, 80, 13, 10] ∧
      parse (utf8 boundary) (buildHeadImage jsonBool [137, 80, 13, 10] [("agreed", true)]) =
        some [⟨[utf8 "Content-Disposition: form-data; name=\"agreed\""], utf8 "true"⟩,
          ⟨[utf8 "Content-Disposition: form-data; name=\"file\""],
            utf8 "Content-Type: image/*\r\n" ++ [137, 80, 13, 10]⟩] ∧
      ¬RoundTrips jsonBool [("agreed", true)] [(utf8 "name", utf8 "file")] [137, 80, 13, 10]
        (buildHeadImage jsonBool [137, 80, 13, 10] [("agreed", true)]) := by
  have parsed : parse (utf8 boundary)
      (buildHeadImage jsonBool [137, 80, 13, 10] [("agreed", true)]) = _ :=
    encodable_agreed.parse_eq oneHeader_image
  exact ⟨encodable_agreed, parsed,
    encodable_agreed.not_roundTrips oneHeader_image _⟩

end LearningProjects.URLSession
