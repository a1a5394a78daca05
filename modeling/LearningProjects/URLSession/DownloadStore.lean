import LearningProjects.Machine
import Mathlib.Algebra.Field.Rat
import Mathlib.Data.List.Infix
import Mathlib.Logic.Function.Basic

/-! # Storing finished downloads

The delegate copies a finished download to a file named by the time in seconds, then
deletes the resume file, forgets the resume data and reports success. The copy's
error is printed inside `copyDownloadItem`, so the rest happens whether anything was
stored or not.
-/

namespace LearningProjects.URLSession.DownloadStore

/-- A path by its components. -/
abbrev Path := List String

inductive Node (Content : Type) where
  | file (content : Content)
  | directory
  deriving DecidableEq, Repr

abbrev FileSystem (Content : Type) := Path → Option (Node Content)

/-- Which of the file manager's calls fail for a reason of their own. -/
structure Faults where
  createDirectory : Bool
  copyItem : Bool
  removeItem : Bool
  deriving DecidableEq, Repr

/-! ## The file manager -/

namespace FileSystem

variable {Content : Type} (nodes : FileSystem Content)

def fileExists (path : Path) : Bool := (nodes path).isSome

def isDirectory (path : Path) : Bool :=
  match nodes path with
  | some .directory => true
  | _ => false

/-- A file is where a directory on the way to the path should be. -/
def isBlocked (path : Path) : Bool :=
  path.inits.any fun parent => nodes.fileExists parent && !nodes.isDirectory parent

/-- With intermediate directories. -/
def createDirectory (path : Path) (fault : Bool) : Option (FileSystem Content) :=
  if fault || nodes.isBlocked path then none
  else some fun p => if p <+: path then some .directory else nodes p

/-- Of a file, to where nothing is yet. -/
def copyItem (source destination : Path) (fault : Bool) : Option (FileSystem Content) :=
  match nodes source with
  | some (.file content) =>
      if fault || nodes.fileExists destination || !nodes.isDirectory destination.dropLast then none
      else some (Function.update nodes destination (some (.file content)))
  | _ => none

/-- With everything below the path. -/
def removeItem (path : Path) (fault : Bool) : Option (FileSystem Content) :=
  if fault || !nodes.fileExists path then none
  else some fun p => if path <+: p then none else nodes p

end FileSystem

namespace SandBoxManager

variable {Content : Type} (nodes : FileSystem Content)

def directory (documents : Path) : Path := documents ++ ["MultipartFiles"]

/-- The directory's path, and the file system in which it was created if need be. -/
def multipartFilePath (documents : Path) (faults : Faults) : FileSystem Content × Path :=
  let path := directory documents
  if nodes.fileExists path then (nodes, path)
  else ((nodes.createDirectory path faults.createDirectory).getD nodes, path)

def delete (filePath : Path) (faults : Faults) : FileSystem Content :=
  if nodes.fileExists filePath then (nodes.removeItem filePath faults.removeItem).getD nodes
  else nodes

/-- The error of the copy is printed. -/
def copyDownloadItem (source destination : Path) (faults : Faults) : FileSystem Content :=
  (nodes.copyItem source destination faults.copyItem).getD nodes

end SandBoxManager

/-! ## The delegate -/

structure ViewController (Content : Type) where
  nodes : FileSystem Content
  resumeData : Option Content
  /-- How often success was reported. -/
  successes : Nat
  /-- Where downloads were stored. -/
  stored : List Path

/-- A finished download: its temporary file, the time, and what goes wrong. -/
structure Download where
  location : Path
  time : Rat
  faults : Faults
  deriving DecidableEq, Repr

section Delegate

variable {Content : Type} (documents : Path) (decimal : Rat → String)

def resumePath : Path := SandBoxManager.directory documents ++ ["resumeData"]

def videoPath (time : Rat) : Path := SandBoxManager.directory documents ++ [decimal time ++ ".mp4"]

/-- `decimal` is the number formatter without decimals. -/
def didFinishDownloadingTo (download : Download) (v : ViewController Content) :
    ViewController Content :=
  let videoName := decimal download.time ++ ".mp4"
  let (nodes, directory) := SandBoxManager.multipartFilePath v.nodes documents download.faults
  let videoPath := directory ++ [videoName]
  let copied := nodes.copyItem download.location videoPath download.faults.copyItem
  let nodes := SandBoxManager.copyDownloadItem nodes download.location videoPath download.faults
  { nodes := SandBoxManager.delete nodes (resumePath documents) download.faults
    resumeData := none
    successes := v.successes + 1
    stored := if copied.isSome then v.stored ++ [videoPath] else v.stored }

/-- The file system between the copy and the deletion. -/
def copied (v : ViewController Content) (download : Download) : FileSystem Content :=
  SandBoxManager.copyDownloadItem
    (SandBoxManager.multipartFilePath v.nodes documents download.faults).1 download.location
    (videoPath documents decimal download.time) download.faults

/-- URLSession hands over a file of its own outside of the documents, which may be
    gone by now. -/
def machine : Machine (ViewController Content) Download where
  step v download :=
    if ¬download.location <+: SandBoxManager.directory documents ∧
        !v.nodes.isDirectory download.location then
      some (didFinishDownloadingTo documents decimal download v)
    else none

/-! ## What a callback promises -/

/-- The directory is there, or can be created. -/
def HasDirectory (nodes : FileSystem Content) (faults : Faults) : Prop :=
  let path := SandBoxManager.directory documents
  nodes.isDirectory path ∨
    ¬nodes.fileExists path ∧ faults.createDirectory = false ∧ ¬nodes.isBlocked path

/-- The copy to the destination succeeds: there is something to copy, nothing is at
    its destination, and nothing else goes wrong. -/
structure Copies (v : ViewController Content) (download : Download) : Prop where
  source : v.nodes.fileExists download.location
  free : ¬v.nodes.fileExists (videoPath documents decimal download.time)
  directory : HasDirectory documents v.nodes download.faults
  works : download.faults.copyItem = false

/-- Reported and dropped exactly when stored. -/
structure Honest (v : ViewController Content) (download : Download) (w : ViewController Content) :
    Prop where
  failed : ¬Copies documents decimal v download →
    w.nodes (resumePath documents) = v.nodes (resumePath documents) ∧
      w.resumeData = v.resumeData ∧ w.successes = v.successes ∧
      ∀ path ∈ v.stored, w.nodes path = v.nodes path
  copied : Copies documents decimal v download →
    w.nodes (videoPath documents decimal download.time) = v.nodes download.location ∧
      w.nodes (resumePath documents) = none ∧ w.resumeData = none

/-- The resume file can be deleted, if there is one. -/
def Disposable (v : ViewController Content) (download : Download) : Prop :=
  v.nodes (resumePath documents) = none ∨ download.faults.removeItem = false

end Delegate

section Steps

variable {Content : Type} {documents : Path} {decimal : Rat → String}
  {v : ViewController Content} {download : Download}

theorem videoPath_ne_resumePath (documents : Path) (decimal : Rat → String) (time : Rat) :
    videoPath documents decimal time ≠ resumePath documents := by
  intro same
  have name := List.append_cancel_left same
  have last := congrArg (fun s : String => s.toList.getLast?) (List.singleton_inj.mp name)
  simp [String.toList_append] at last

theorem resumePath_apart (documents : Path) (decimal : Rat → String) (time : Rat) :
    ¬resumePath documents <+: videoPath documents decimal time := by
  intro inside
  have same := inside.eq_of_length (by simp [resumePath, videoPath])
  exact videoPath_ne_resumePath documents decimal time same.symm

theorem not_prefix_directory (name : String) :
    ¬SandBoxManager.directory documents ++ [name] <+: SandBoxManager.directory documents := by
  intro inside
  have shorter := inside.length_le
  rw [List.length_append, List.length_singleton] at shorter
  omega

theorem isDirectory_iff (nodes : FileSystem Content) (path : Path) :
    nodes.isDirectory path ↔ nodes path = some .directory := by
  unfold FileSystem.isDirectory
  split
  · rename_i found
    simp [found]
  · rename_i other
    simpa using other

theorem multipartFilePath_cases (documents : Path) (nodes : FileSystem Content) (faults : Faults) :
    (SandBoxManager.multipartFilePath nodes documents faults).1 = nodes ∧
        (HasDirectory documents nodes faults ↔
          nodes.isDirectory (SandBoxManager.directory documents)) ∨
      (SandBoxManager.multipartFilePath nodes documents faults).1 =
          (fun p => if p <+: SandBoxManager.directory documents then some .directory
            else nodes p) ∧
        HasDirectory documents nodes faults ∧
        ¬nodes.isBlocked (SandBoxManager.directory documents) := by
  unfold HasDirectory
  simp only [SandBoxManager.multipartFilePath, FileSystem.createDirectory]
  by_cases found : nodes.fileExists (SandBoxManager.directory documents)
  · exact .inl (by simp [found])
  · by_cases impossible : faults.createDirectory ||
      nodes.isBlocked (SandBoxManager.directory documents)
    · refine .inl ⟨by simp [found, impossible], ?_⟩
      rw [Bool.or_eq_true] at impossible
      simp only [or_iff_left_iff_imp, and_imp]
      intro _ works clear
      simp [works, clear] at impossible
    · have clear := impossible
      rw [Bool.or_eq_true, not_or, Bool.not_eq_true] at clear
      exact .inr ⟨by simp [found, impossible], .inr ⟨found, clear⟩, clear.2⟩

/-- Making the directory changes nothing but the directory and those around it. -/
theorem multipartFilePath_frame (nodes : FileSystem Content) (faults : Faults) {path : Path}
    (outside : ¬path <+: SandBoxManager.directory documents) :
    (SandBoxManager.multipartFilePath nodes documents faults).1 path = nodes path := by
  cases multipartFilePath_cases documents nodes faults with
  | inl same => rw [same.1]
  | inr created => exact (congrFun created.1 path).trans (if_neg outside)

theorem multipartFilePath_directory (documents : Path) (nodes : FileSystem Content)
    (faults : Faults) :
    (SandBoxManager.multipartFilePath nodes documents faults).1.isDirectory
        (SandBoxManager.directory documents) ↔ HasDirectory documents nodes faults := by
  cases multipartFilePath_cases documents nodes faults with
  | inl same => rw [same.1, same.2]
  | inr created =>
      rw [created.1, isDirectory_iff, if_pos (List.prefix_refl _)]
      exact iff_of_true rfl created.2.1

/-- Deleting takes away the path, unless something goes wrong. -/
theorem delete_path (nodes : FileSystem Content) (path : Path) (faults : Faults) :
    SandBoxManager.delete nodes path faults path = none ↔
      nodes path = none ∨ faults.removeItem = false := by
  unfold SandBoxManager.delete FileSystem.removeItem FileSystem.fileExists
  cases found : nodes path with
  | none => simp [found]
  | some node => cases faults.removeItem <;> simp [found]

theorem delete_frame (nodes : FileSystem Content) (faults : Faults) {path other : Path}
    (outside : ¬path <+: other) : SandBoxManager.delete nodes path faults other = nodes other := by
  unfold SandBoxManager.delete FileSystem.removeItem
  split
  · split
    · rfl
    · simp [outside]
  · rfl

theorem multipartFilePath_file (documents : Path) (nodes : FileSystem Content) (faults : Faults)
    {path : Path} {content : Content} (stored : nodes path = some (.file content)) :
    (SandBoxManager.multipartFilePath nodes documents faults).1 path = some (.file content) := by
  cases multipartFilePath_cases documents nodes faults with
  | inl same => rw [same.1, stored]
  | inr created =>
      have outside : ¬path <+: SandBoxManager.directory documents := by
        intro inside
        apply created.2.2
        rw [FileSystem.isBlocked, List.any_eq_true]
        refine ⟨path, (List.mem_inits _ _).mpr inside, ?_⟩
        simp [FileSystem.fileExists, FileSystem.isDirectory, stored]
      rw [multipartFilePath_frame nodes faults outside, stored]

theorem multipartFilePath_path (documents : Path) (nodes : FileSystem Content) (faults : Faults) :
    (SandBoxManager.multipartFilePath nodes documents faults).2 =
      SandBoxManager.directory documents := by
  simp only [SandBoxManager.multipartFilePath]
  split <;> rfl

theorem didFinishDownloadingTo_nodes :
    (didFinishDownloadingTo documents decimal download v).nodes =
      SandBoxManager.delete (copied documents decimal v download) (resumePath documents)
        download.faults := by
  simp only [didFinishDownloadingTo, copied, videoPath, multipartFilePath_path]

theorem didFinishDownloadingTo_stored :
    (didFinishDownloadingTo documents decimal download v).stored =
      if ((SandBoxManager.multipartFilePath v.nodes documents download.faults).1.copyItem
          download.location (videoPath documents decimal download.time)
          download.faults.copyItem).isSome then
        v.stored ++ [videoPath documents decimal download.time]
      else v.stored := by
  simp only [didFinishDownloadingTo, videoPath, multipartFilePath_path]
  rfl

/-- The downloads that were stored are where they were stored. -/
def Stored (documents : Path) (decimal : Rat → String) (v : ViewController Content) : Prop :=
  ∀ path ∈ v.stored, ∃ time content,
    path = videoPath documents decimal time ∧ v.nodes path = some (.file content)

section Callback

variable (outside : ¬download.location <+: SandBoxManager.directory documents)
  (notDirectory : !v.nodes.isDirectory download.location)

include outside notDirectory

/-- Where the copy is to go, and what it does. -/
theorem copyItem_cases :
    let nodes := (SandBoxManager.multipartFilePath v.nodes documents download.faults).1
    let path := videoPath documents decimal download.time
    (Copies documents decimal v download ∧
        nodes.copyItem download.location path download.faults.copyItem =
          some (Function.update nodes path (v.nodes download.location))) ∨
      (¬Copies documents decimal v download ∧
        nodes.copyItem download.location path download.faults.copyItem = none) := by
  intro nodes path
  have source : nodes download.location = v.nodes download.location :=
    multipartFilePath_frame v.nodes download.faults outside
  have destination : nodes path = v.nodes path :=
    multipartFilePath_frame v.nodes download.faults (not_prefix_directory _)
  have parent : path.dropLast = SandBoxManager.directory documents := List.dropLast_concat
  have directory := multipartFilePath_directory documents v.nodes download.faults
  simp only [FileSystem.copyItem, source]
  cases found : v.nodes download.location with
  | none =>
      have missing : ¬v.nodes.fileExists download.location := by simp [FileSystem.fileExists, found]
      exact .inr ⟨fun copies => missing copies.source, rfl⟩
  | some node =>
      cases node with
      | directory => simp [FileSystem.isDirectory, found] at notDirectory
      | file content =>
          have present : v.nodes.fileExists download.location := by
            simp [FileSystem.fileExists, found]
          by_cases fails : download.faults.copyItem || nodes.fileExists path ||
              !nodes.isDirectory path.dropLast
          · refine .inr ⟨fun copies => ?_, if_pos fails⟩
            have free := copies.free
            have made := directory.mpr copies.directory
            rw [FileSystem.fileExists] at free
            rw [parent, FileSystem.fileExists, destination, copies.works, Bool.false_or,
              Bool.or_eq_true, made] at fails
            exact free (fails.resolve_right (by simp))
          · refine .inl ⟨?_, if_neg fails⟩
            rw [Bool.or_eq_true, Bool.or_eq_true, parent, FileSystem.fileExists,
              destination] at fails
            simp only [not_or, Bool.not_eq_true, Bool.not_eq_false'] at fails
            have free : ¬v.nodes.fileExists (videoPath documents decimal download.time) := by
              rw [FileSystem.fileExists]
              exact ne_true_of_eq_false fails.1.2
            exact ⟨present, free, directory.mp fails.2, fails.1.1⟩

theorem mem_stored {path : Path}
    (stored : path ∈ (didFinishDownloadingTo documents decimal download v).stored) :
    path ∈ v.stored ∨
      Copies documents decimal v download ∧ path = videoPath documents decimal download.time := by
  rw [didFinishDownloadingTo_stored] at stored
  cases copyItem_cases outside notDirectory with
  | inl done =>
      rw [done.2, Option.isSome_some, if_pos rfl, List.mem_append, List.mem_singleton] at stored
      exact stored.imp_right (⟨done.1, ·⟩)
  | inr failed =>
      rw [failed.2, Option.isSome_none, if_neg (by decide)] at stored
      exact .inl stored

theorem copied_destination (copies : Copies documents decimal v download) :
    copied documents decimal v download (videoPath documents decimal download.time) =
      v.nodes download.location := by
  cases copyItem_cases outside notDirectory with
  | inl done =>
      rw [copied, SandBoxManager.copyDownloadItem, done.2, Option.getD_some, Function.update_self]
  | inr failed => exact absurd copies failed.1

theorem copied_other {path : Path}
    (kept : path ≠ videoPath documents decimal download.time ∨
      ¬Copies documents decimal v download) :
    copied documents decimal v download path =
      (SandBoxManager.multipartFilePath v.nodes documents download.faults).1 path := by
  cases copyItem_cases outside notDirectory with
  | inl done =>
      have other := kept.resolve_right (not_not_intro done.1)
      rw [copied, SandBoxManager.copyDownloadItem, done.2, Option.getD_some,
        Function.update_of_ne other]
  | inr failed => rw [copied, SandBoxManager.copyDownloadItem, failed.2, Option.getD_none]

/-- A callback leaves every file as it is that is not below the resume file. -/
theorem file_kept {path : Path} {content : Content}
    (stored : v.nodes path = some (.file content)) (apart : ¬resumePath documents <+: path) :
    (didFinishDownloadingTo documents decimal download v).nodes path = some (.file content) := by
  have kept : path ≠ videoPath documents decimal download.time ∨
      ¬Copies documents decimal v download := by
    rw [← not_and_or]
    rintro ⟨rfl, copies⟩
    exact copies.free (by simp [FileSystem.fileExists, stored])
  rw [didFinishDownloadingTo_nodes, delete_frame _ _ apart, copied_other outside notDirectory kept]
  exact multipartFilePath_file documents v.nodes download.faults stored

theorem resumePath_iff :
    (didFinishDownloadingTo documents decimal download v).nodes (resumePath documents) = none ↔
      Disposable documents v download := by
  have other := (videoPath_ne_resumePath documents decimal download.time).symm
  have before : (SandBoxManager.multipartFilePath v.nodes documents download.faults).1
      (resumePath documents) = v.nodes (resumePath documents) :=
    multipartFilePath_frame v.nodes download.faults (not_prefix_directory _)
  rw [didFinishDownloadingTo_nodes, delete_path, copied_other outside notDirectory (.inl other),
    before, Disposable]

theorem destination_stored (copies : Copies documents decimal v download) :
    (didFinishDownloadingTo documents decimal download v).nodes
      (videoPath documents decimal download.time) = v.nodes download.location := by
  rw [didFinishDownloadingTo_nodes,
    delete_frame _ _ (resumePath_apart documents decimal download.time)]
  exact copied_destination outside notDirectory copies

/-- No callback touches what an earlier one stored. -/
theorem Stored.kept (h : Stored documents decimal v) {path : Path} (stored : path ∈ v.stored) :
    (didFinishDownloadingTo documents decimal download v).nodes path = v.nodes path := by
  obtain ⟨time, content, rfl, found⟩ := h path stored
  rw [found]
  exact file_kept outside notDirectory found (resumePath_apart documents decimal time)

theorem Stored.didFinishDownloadingTo (h : Stored documents decimal v) :
    Stored documents decimal (didFinishDownloadingTo documents decimal download v) := by
  intro path stored
  cases mem_stored outside notDirectory stored with
  | inl old =>
      obtain ⟨time, content, named, found⟩ := h path old
      exact ⟨time, content, named, (h.kept outside notDirectory old).trans found⟩
  | inr new =>
      obtain ⟨copies, rfl⟩ := new
      have source := copies.source
      rw [FileSystem.fileExists, Option.isSome_iff_exists] at source
      obtain ⟨node, found⟩ := source
      refine ⟨download.time, ?_⟩
      rw [destination_stored outside notDirectory copies, found]
      cases node with
      | file content => exact ⟨content, rfl, rfl⟩
      | directory => simp [FileSystem.isDirectory, found] at notDirectory

/-- A callback is honest exactly if the copy succeeds and the resume file can go:
    success is always reported. -/
theorem honest_iff :
    Honest documents decimal v download (didFinishDownloadingTo documents decimal download v) ↔
      Copies documents decimal v download ∧ Disposable documents v download := by
  constructor
  · intro honest
    have copies : Copies documents decimal v download := by
      by_contra fails
      have successes := (honest.failed fails).2.2.1
      exact absurd successes (Nat.succ_ne_self _)
    exact ⟨copies, (resumePath_iff outside notDirectory).mp (honest.copied copies).2.1⟩
  · rintro ⟨copies, disposable⟩
    refine ⟨fun fails => absurd copies fails, fun _ => ⟨?_, ?_, rfl⟩⟩
    · exact destination_stored outside notDirectory copies
    · exact (resumePath_iff outside notDirectory).mpr disposable

end Callback

end Steps

section Runs

variable {Content : Type} (documents : Path) (decimal : Rat → String)

/-- In every run from any file system: the callbacks report and drop what they
    should, exactly if each of them can copy its file and delete the resume file. -/
theorem honest_iff_stored (start : ViewController Content) (downloads : List Download) :
    (machine documents decimal).Each (Honest documents decimal) start downloads ↔
      (machine documents decimal).Each
        (fun v download _ => Copies documents decimal v download ∧ Disposable documents v download)
        start downloads := by
  refine Machine.each_congr (I := fun _ => True) ?_ ?_ trivial downloads
  · exact fun _ _ _ _ _ _ => trivial
  · intro v download w _ stepped
    simp only [machine, Option.ite_none_right_eq_some, Option.some.injEq] at stepped
    obtain ⟨⟨outside, notDirectory⟩, rfl⟩ := stepped
    exact honest_iff outside notDirectory

theorem stored_kept {start v w : ViewController Content} {download : Download}
    (none_ : start.stored = []) (reached : (machine documents decimal).Reachable start v)
    (stepped : (machine documents decimal).step v download = some w) :
    ∀ path ∈ v.stored, w.nodes path = v.nodes path := by
  have stored : Stored documents decimal v := by
    refine reached.invariant ?_ (by simp [Stored, none_])
    intro v download w stored stepped
    simp only [machine, Option.ite_none_right_eq_some, Option.some.injEq] at stepped
    obtain ⟨⟨outside, notDirectory⟩, rfl⟩ := stepped
    exact stored.didFinishDownloadingTo outside notDirectory
  simp only [machine, Option.ite_none_right_eq_some, Option.some.injEq] at stepped
  obtain ⟨⟨outside, notDirectory⟩, rfl⟩ := stepped
  exact fun path member => stored.kept outside notDirectory member

/-- Two finished downloads and the directory. -/
def twoDownloads : ViewController String where
  nodes path :=
    if path = ["Documents", "MultipartFiles"] then some .directory
    else if path = ["tmp", "one"] then some (.file "one")
    else if path = ["tmp", "two"] then some (.file "two")
    else none
  resumeData := none
  successes := 0
  stored := []

/-- They finish within one second: the second is not stored, and reported. -/
theorem same_second :
    ¬(machine ["Documents"] fun time => toString time.floor).Each
      (Honest ["Documents"] fun time => toString time.floor) twoDownloads
      [⟨["tmp", "one"], 101 / 10, ⟨false, false, false⟩⟩,
        ⟨["tmp", "two"], 102 / 10, ⟨false, false, false⟩⟩] := by
  intro all
  obtain ⟨-, all⟩ := all _ rfl
  obtain ⟨honest, -⟩ := all _ (if_pos (by decide +kernel))
  have taken : ¬Copies ["Documents"] (fun time => toString time.floor)
      (didFinishDownloadingTo ["Documents"] (fun time => toString time.floor)
        ⟨["tmp", "one"], 101 / 10, ⟨false, false, false⟩⟩ twoDownloads)
      ⟨["tmp", "two"], 102 / 10, ⟨false, false, false⟩⟩ := by
    intro copies
    have free := copies.free
    revert free
    decide +kernel
  exact absurd (honest.failed taken).2.2.1 (by decide)

end Runs

end LearningProjects.URLSession.DownloadStore
