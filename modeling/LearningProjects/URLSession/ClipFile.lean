import LearningProjects.Fallible
import LearningProjects.Slices
import LearningProjects.Text.Lines

/-! # Cutting a file into fragments

`ClipFileService` cuts a file into fragments of one mebibyte and reads them back
through one shared file handle. The fragments tile the file, and what a read
returns depends on its fragment only.
-/

namespace LearningProjects.URLSession

open Text (Bytes)
open Slices

structure ClipFragmentInfo where
  offset : UInt64
  size : UInt64
  clipName : String
  deriving DecidableEq, Repr

namespace ClipFragmentInfo

/-- Where a fragment lies in its file. -/
def piece (fragment : ClipFragmentInfo) : Nat × Nat :=
  (fragment.offset.toNat, fragment.size.toNat)

/-- The bytes a fragment stands for. -/
def bytes (fragment : ClipFragmentInfo) (content : Bytes) : Bytes :=
  slice content fragment.offset.toNat fragment.size.toNat

end ClipFragmentInfo

def fragmentSize : UInt64 := 1024 * 1024

/-- A file opened for reading, with its seek position. -/
structure FileHandle where
  content : Bytes
  position : Nat
  deriving DecidableEq, Repr

def FileHandle.seek (handle : FileHandle) (toFileOffset : UInt64) : FileHandle :=
  { handle with position := toFileOffset.toNat }

def FileHandle.readData (handle : FileHandle) (ofLength : Nat) : Bytes × FileHandle :=
  let data := (handle.content.drop handle.position).take ofLength
  (data, { handle with position := handle.position + data.length })

abbrev Files := String → Option Bytes

structure ClipFileService where
  fragments : List ClipFragmentInfo
  fileSize : UInt64
  readHandle : Option FileHandle
  deriving DecidableEq, Repr

namespace ClipFileService

/-- Seek and read. `none` is the trap of converting the size to a signed `Int`. -/
def read (service : ClipFileService) (fragment : ClipFragmentInfo) :
    Option (Option Bytes × ClipFileService) :=
  match service.readHandle with
  | none => some (none, service)
  | some handle =>
      if fragment.size.toNat < 2 ^ 63 then
        let (data, handle) := (handle.seek fragment.offset).readData fragment.size.toNat
        some (some data, { service with readHandle := some handle })
      else none

/-- The size of the file, which is created when it is missing. Creating it may
    fail; then there are no attributes and the size stays 0. -/
def getFileAttribute (canCreate : Bool) (files : Files) (filePath : String) : Files × UInt64 :=
  let files := if (files filePath).isNone ∧ canCreate then
    fun path => if path = filePath then some [] else files path else files
  match files filePath with
  | none => (files, 0)
  | some content => (files, UInt64.ofNat content.length)

/-- One round of the loop in `clipFile`. -/
def clipFragment (fileSize clipCount : UInt64) (clipName : String) (i : UInt64) :
    Option ClipFragmentInfo := do
  let offSet ← Fallible.mul i fragmentSize
  let last ← Fallible.sub clipCount 1
  let clipSize ← if i = last then (do
      let start ← Fallible.mul i fragmentSize
      Fallible.sub fileSize start)
    else pure fragmentSize
  return ⟨offSet, clipSize, clipName⟩

/-- `clipName i` is the random name drawn in round `i`. -/
def clipFile (clipName : Nat → String) (fileSize : UInt64) : Option (List ClipFragmentInfo) := do
  let enlarged ← Fallible.add fileSize fragmentSize
  let rounded ← Fallible.sub enlarged 1
  let clipCount := rounded / fragmentSize
  (List.range clipCount.toNat).mapM fun i =>
    clipFragment fileSize clipCount (clipName i) (UInt64.ofNat i)

def init (canCreate : Bool) (clipName : Nat → String) (files : Files) (filePath : String)
    (forRead : Bool) : Option (Files × ClipFileService) := do
  let (files, fileSize) := getFileAttribute canCreate files filePath
  if forRead then
    let fragments ← clipFile clipName fileSize
    return (files, ⟨fragments, fileSize, (files filePath).map (⟨·, 0⟩)⟩)
  else return (files, ⟨[], fileSize, none⟩)

/-! ## Cutting -/

theorem fragmentSize_toNat : fragmentSize.toNat = 2 ^ 20 := by
  decide

/-- Offset and size of fragment `i` of `count`, for a file of `size` bytes. -/
def piece (size count i : Nat) : Nat × Nat :=
  (i * 2 ^ 20, if i + 1 = count then size - i * 2 ^ 20 else 2 ^ 20)

theorem clipFragment_spec {fileSize clipCount : UInt64} (clipName : String) {i : Nat}
    (before : i < clipCount.toNat) (inside : i * 2 ^ 20 < fileSize.toNat) :
    ∃ fragment, clipFragment fileSize clipCount clipName (UInt64.ofNat i) = some fragment ∧
      piece fileSize.toNat clipCount.toNat i = fragment.piece := by
  have index : (UInt64.ofNat i).toNat = i := by
    rw [UInt64.toNat_ofNat', Nat.mod_eq_of_lt (before.trans clipCount.toNat_lt)]
  obtain ⟨offSet, multiplied, offset⟩ := Fallible.mul_spec (a := UInt64.ofNat i) (b := fragmentSize)
    (by rw [index, fragmentSize_toNat]; exact inside.trans fileSize.toNat_lt)
  obtain ⟨last, decremented, lastIndex⟩ := Fallible.sub_spec (a := clipCount) (b := 1)
    (by change 1 ≤ clipCount.toNat; omega)
  rw [index, fragmentSize_toNat] at offset
  change last.toNat = clipCount.toNat - 1 at lastIndex
  have lastRound : UInt64.ofNat i = last ↔ i + 1 = clipCount.toNat := by
    rw [← UInt64.toNat_inj, index, lastIndex]
    omega
  by_cases isLast : UInt64.ofNat i = last
  · obtain ⟨size, subtracted, rest⟩ := Fallible.sub_spec (a := fileSize) (b := offSet) (by omega)
    refine ⟨⟨offSet, size, clipName⟩, ?_, ?_⟩
    · rw [clipFragment, multiplied, decremented]
      simp [isLast, subtracted]
    · rw [piece, if_pos (lastRound.mp isLast), ClipFragmentInfo.piece, offset, rest, offset]
  · refine ⟨⟨offSet, fragmentSize, clipName⟩, ?_, ?_⟩
    · rw [clipFragment, multiplied, decremented]
      simp [isLast]
    · rw [piece, if_neg (lastRound.not.mp isLast), ClipFragmentInfo.piece, offset,
        fragmentSize_toNat]

/-- `clipFile` traps only when adding a fragment's size to the file's overflows. -/
theorem clipFile_spec (clipName : Nat → String) {fileSize : UInt64}
    (fits : fileSize.toNat + 2 ^ 20 < 2 ^ 64) :
    ∃ fragments, clipFile clipName fileSize = some fragments ∧
      fragments.map ClipFragmentInfo.piece =
        (List.range ((fileSize.toNat + 2 ^ 20 - 1) / 2 ^ 20)).map
          (piece fileSize.toNat ((fileSize.toNat + 2 ^ 20 - 1) / 2 ^ 20)) := by
  obtain ⟨enlarged, added, sum⟩ := Fallible.add_spec (a := fileSize) (b := fragmentSize)
    (by rwa [fragmentSize_toNat])
  obtain ⟨rounded, decremented, less⟩ := Fallible.sub_spec (a := enlarged) (b := 1)
    (by change 1 ≤ enlarged.toNat; rw [sum, fragmentSize_toNat]; omega)
  change rounded.toNat = enlarged.toNat - 1 at less
  have count : (rounded / fragmentSize).toNat = (fileSize.toNat + 2 ^ 20 - 1) / 2 ^ 20 := by
    rw [UInt64.toNat_div, less, sum, fragmentSize_toNat]
  have round : ∀ i ∈ List.range (rounded / fragmentSize).toNat, ∃ fragment,
      clipFragment fileSize (rounded / fragmentSize) (clipName i) (UInt64.ofNat i) = some fragment ∧
        piece fileSize.toNat (rounded / fragmentSize).toNat i = fragment.piece := by
    intro i member
    have before := List.mem_range.mp member
    apply clipFragment_spec _ before
    rw [count] at before
    omega
  obtain ⟨fragments, clipped, pieces⟩ := Fallible.mapM_spec round
  refine ⟨fragments, ?_, ?_⟩
  · rw [clipFile, added, Option.bind_eq_bind, Option.bind_some, decremented]
    exact clipped
  · rw [← count, ← List.forall₂_eq_eq_eq, List.forall₂_map_left_iff, List.forall₂_map_right_iff]
    exact (pieces.imp fun _ _ same => same.symm).flip

theorem clipFile_eq_none_iff (clipName : Nat → String) (fileSize : UInt64) :
    clipFile clipName fileSize = none ↔ 2 ^ 64 ≤ fileSize.toNat + 2 ^ 20 := by
  constructor
  · intro trapped
    by_contra fits
    obtain ⟨fragments, clipped, -⟩ := clipFile_spec clipName (Nat.not_le.mp fits)
    rw [trapped] at clipped
    cases clipped
  · intro overflows
    rw [clipFile, Fallible.add_eq_none_iff.mpr (by rwa [fragmentSize_toNat])]
    rfl

/-- The pieces of a file lie end to end. -/
theorem tiles_pieces (size : Nat) :
    Tiles 0 ((List.range ((size + 2 ^ 20 - 1) / 2 ^ 20)).map
      (piece size ((size + 2 ^ 20 - 1) / 2 ^ 20))) size := by
  cases count : (size + 2 ^ 20 - 1) / 2 ^ 20 with
  | zero =>
      have empty : size = 0 := by omega
      exact empty.symm
  | succ front =>
      have full : (List.range front).map (piece size (front + 1)) =
          (List.range front).map fun i => (i * 2 ^ 20, 2 ^ 20) := by
        rw [List.map_inj_left]
        intro i member
        have before := List.mem_range.mp member
        rw [piece, if_neg (by omega)]
      rw [List.range_succ, List.map_append, full]
      apply (Tiles.uniform (2 ^ 20) front).append
      refine ⟨rfl, ?_⟩
      rw [piece, if_pos rfl]
      change front * 2 ^ 20 + (size - front * 2 ^ 20) = size
      omega

/-- What a caller can rely on about the fragments of a file of `size` bytes. -/
structure Partition (fragments : List ClipFragmentInfo) (size : Nat) : Prop where
  count : fragments.length = (size + 2 ^ 20 - 1) / 2 ^ 20
  tiles : Tiles 0 (fragments.map ClipFragmentInfo.piece) size
  nonempty : ∀ fragment ∈ fragments, 0 < fragment.size.toNat
  bounded : ∀ fragment ∈ fragments, fragment.size.toNat ≤ 2 ^ 20
  full : ∀ fragment ∈ fragments.dropLast, fragment.size.toNat = 2 ^ 20
  total : (fragments.map fun fragment => fragment.size.toNat).sum = size

theorem exists_piece {fragments : List ClipFragmentInfo} {count : Nat} {place : Nat → Nat × Nat}
    (pieces : fragments.map ClipFragmentInfo.piece = (List.range count).map place) :
    ∀ fragment ∈ fragments, ∃ i < count, fragment.piece = place i := by
  intro fragment member
  have found := List.mem_map_of_mem (f := ClipFragmentInfo.piece) member
  rw [pieces] at found
  obtain ⟨i, before, same⟩ := List.mem_map.mp found
  exact ⟨i, List.mem_range.mp before, same.symm⟩

theorem Partition.of_pieces {fragments : List ClipFragmentInfo} {size : Nat}
    (pieces : fragments.map ClipFragmentInfo.piece =
      (List.range ((size + 2 ^ 20 - 1) / 2 ^ 20)).map (piece size ((size + 2 ^ 20 - 1) / 2 ^ 20))) :
    Partition fragments size := by
  have tiles : Tiles 0 (fragments.map ClipFragmentInfo.piece) size := pieces ▸ tiles_pieces size
  have inner : fragments.dropLast.map ClipFragmentInfo.piece =
      (List.range ((size + 2 ^ 20 - 1) / 2 ^ 20 - 1)).map
        (piece size ((size + 2 ^ 20 - 1) / 2 ^ 20)) := by
    rw [List.map_dropLast, pieces, ← List.map_dropLast]
    cases (size + 2 ^ 20 - 1) / 2 ^ 20 with
    | zero => rfl
    | succ front => rw [List.range_succ, List.dropLast_concat, Nat.add_sub_cancel]
  constructor
  case count =>
    have length := congrArg List.length pieces
    rwa [List.length_map, List.length_map, List.length_range] at length
  case tiles => exact tiles
  case nonempty =>
    intro fragment member
    obtain ⟨i, before, same⟩ := exists_piece pieces fragment member
    have size := congrArg Prod.snd same
    simp only [ClipFragmentInfo.piece, piece] at size
    split at size <;> omega
  case bounded =>
    intro fragment member
    obtain ⟨i, before, same⟩ := exists_piece pieces fragment member
    have size := congrArg Prod.snd same
    simp only [ClipFragmentInfo.piece, piece] at size
    split at size <;> omega
  case full =>
    intro fragment member
    obtain ⟨i, before, same⟩ := exists_piece inner fragment member
    have size := congrArg Prod.snd same
    rwa [piece, if_neg (by omega)] at size
  case total =>
    have sum := tiles.sum_sizes
    rw [List.map_map, Nat.zero_add] at sum
    exact sum

/-! ## Reading -/

/-- A read returns the fragment's bytes, wherever the handle stood before. -/
theorem read_spec {service : ClipFileService} {handle : FileHandle}
    (opened : service.readHandle = some handle) {fragment : ClipFragmentInfo}
    (small : fragment.size.toNat < 2 ^ 63) :
    ∃ handle', service.read fragment =
        some (some (fragment.bytes handle.content), { service with readHandle := some handle' }) ∧
      handle'.content = handle.content := by
  rw [read, opened]
  simp only [if_pos small]
  exact ⟨_, rfl, rfl⟩

/-- Reads one after the other, through the same handle. -/
def readAll : ClipFileService → List ClipFragmentInfo →
    Option (List (Option Bytes) × ClipFileService)
  | service, [] => some ([], service)
  | service, fragment :: fragments => do
      let (data, service) ← service.read fragment
      let (rest, service) ← service.readAll fragments
      return (data :: rest, service)

/-- In any order, and however often each, fragments read as their own bytes. -/
theorem readAll_spec (service : ClipFileService) {handle : FileHandle}
    (opened : service.readHandle = some handle) {order : List ClipFragmentInfo}
    (small : ∀ fragment ∈ order, fragment.size.toNat < 2 ^ 63) :
    ∃ service', service.readAll order =
      some (order.map fun fragment => some (fragment.bytes handle.content), service') := by
  induction order generalizing service handle with
  | nil => exact ⟨service, rfl⟩
  | cons fragment order ih =>
      rw [List.forall_mem_cons] at small
      obtain ⟨handle', read, same⟩ := read_spec opened small.1
      obtain ⟨service', rest⟩ := ih { service with readHandle := some handle' } rfl small.2
      refine ⟨service', ?_⟩
      simp only [readAll, read, Option.bind_eq_bind, Option.bind_some, rest, same]
      rfl

theorem Partition.flatMap_bytes {fragments : List ClipFragmentInfo} {content : Bytes}
    (partition : Partition fragments content.length) :
    (fragments.flatMap fun fragment => fragment.bytes content) = content := by
  have whole := partition.tiles.flatMap_slice content
  rw [List.flatMap_map, Nat.sub_zero, slice_all] at whole
  exact whole

theorem init_spec (canCreate : Bool) (clipName : Nat → String) {files : Files} {filePath : String}
    {content : Bytes} (found : files filePath = some content)
    (fits : content.length + 2 ^ 20 < 2 ^ 64) :
    ∃ service, init canCreate clipName files filePath true = some (files, service) ∧
      service.readHandle = some ⟨content, 0⟩ ∧ Partition service.fragments content.length := by
  have size : (UInt64.ofNat content.length).toNat = content.length := by
    rw [UInt64.toNat_ofNat', Nat.mod_eq_of_lt (by omega)]
  obtain ⟨fragments, clipped, pieces⟩ := clipFile_spec clipName (by rwa [size])
  rw [size] at pieces
  refine ⟨⟨fragments, UInt64.ofNat content.length, some ⟨content, 0⟩⟩, ?_, rfl, .of_pieces pieces⟩
  simp [init, getFileAttribute, found, clipped]

/-- The fragments partition the file, and reads in any order put it together. -/
theorem reassembles (canCreate : Bool) (clipName : Nat → String) (files : Files) (filePath : String)
    (content : Bytes) (found : files filePath = some content)
    (fits : content.length + 2 ^ 20 < 2 ^ 64) :
    ∃ service, init canCreate clipName files filePath true = some (files, service) ∧
      Partition service.fragments content.length ∧
      (∀ order, (∀ fragment ∈ order, fragment ∈ service.fragments) →
        ∃ service', service.readAll order =
          some (order.map fun fragment => some (fragment.bytes content), service')) ∧
      (service.fragments.flatMap fun fragment => fragment.bytes content) = content := by
  obtain ⟨service, initialised, opened, partition⟩ := init_spec canCreate clipName found fits
  refine ⟨service, initialised, partition, fun order members => ?_, partition.flatMap_bytes⟩
  apply readAll_spec service opened
  intro fragment member
  have bounded := partition.bounded fragment (members fragment member)
  omega

/-- One whole fragment and three bytes, which are read first. -/
theorem reassembles_two_fragments :
    let content : Bytes := List.replicate (2 ^ 20) 0 ++ [1, 2, 3]
    ∃ service, init false (fun _ => "clip") (fun _ => some content) "a.mp4" true =
        some (fun _ => some content, service) ∧
      Partition service.fragments content.length ∧ service.fragments.length = 2 ∧
      (∃ service', service.readAll service.fragments.reverse =
        some (service.fragments.reverse.map fun fragment => some (fragment.bytes content),
          service')) ∧
      (service.fragments.flatMap fun fragment => fragment.bytes content) = content := by
  intro content
  have length : content.length = 2 ^ 20 + 3 := by
    rw [List.length_append, List.length_replicate]
    rfl
  obtain ⟨service, initialised, partition, reads, whole⟩ :=
    reassembles false (fun _ => "clip") (fun _ => some content) "a.mp4" content rfl
      (by rw [length]; decide)
  have two := partition.count
  rw [length] at two
  exact ⟨service, initialised, partition, two,
    reads _ fun fragment member => List.mem_reverse.mp member, whole⟩

theorem init_traps (canCreate : Bool) (clipName : Nat → String) {files : Files} {filePath : String}
    {content : Bytes} (found : files filePath = some content)
    (addressable : content.length < 2 ^ 64) (overflows : 2 ^ 64 ≤ content.length + 2 ^ 20) :
    init canCreate clipName files filePath true = none := by
  have size : (UInt64.ofNat content.length).toNat = content.length := by
    rw [UInt64.toNat_ofNat', Nat.mod_eq_of_lt addressable]
  have trapped := (clipFile_eq_none_iff clipName (UInt64.ofNat content.length)).mpr (by rwa [size])
  simp [init, getFileAttribute, found, trapped]

/-- At the largest size the bound on `s + 2 ^ 20 - 1` admits, `s + 2 ^ 20` overflows
    before 1 is taken off. -/
theorem largest_size_traps :
    (List.replicate (2 ^ 64 - 2 ^ 20) (0 : UInt8)).length + 2 ^ 20 - 1 < 2 ^ 64 ∧
      init false (fun _ => "clip")
        (fun _ => some (List.replicate (2 ^ 64 - 2 ^ 20) 0)) "a.mp4" true =
        none := by
  have length := List.length_replicate (n := 2 ^ 64 - 2 ^ 20) (a := (0 : UInt8))
  exact ⟨by rw [length]; decide, init_traps false _ rfl (by rw [length]; decide) (by omega)⟩

end ClipFileService

end LearningProjects.URLSession
