import LearningProjects.Machine
import Mathlib.Data.List.Nodup
import Mathlib.Logic.Function.Basic
import Mathlib.Tactic.Common

/-! # Exporting a chosen asset

`AssetViewController` keeps one closure, one type, one request id, one flag and one
export session for all exports that are under way. A selection of an image runs both
export routines, and each of them calls the closure. A finished video export looks
half a second later at the session the controller has by then. The progress HUD and
its messages are left out, except that it can cancel.
-/

namespace LearningProjects.URLSession.AssetExport

inductive AssetType where
  | image
  | video
  deriving DecidableEq, Repr

/-- `AVAssetExportSession.Status`. -/
inductive Status where
  | unknown
  | waiting
  | exporting
  | completed
  | failed
  | cancelled
  deriving DecidableEq, Repr

inductive Trap where
  /-- `session` is unwrapped where there is none. -/
  | unwrappedNil
  deriving DecidableEq, Repr

/-- What was written to a file, and for which selection. -/
inductive File (Asset : Type) where
  | image (selection : Nat)
  | video (selection : Nat) (asset : Asset)
  deriving DecidableEq, Repr

def File.selection {Asset : Type} : File Asset → Nat
  | image selection | video selection _ => selection

structure Request (Asset : Type) where
  id : Nat
  selection : Nat
  asset : Asset
  deriving DecidableEq, Repr

structure ExportSession (Asset : Type) where
  selection : Nat
  asset : Asset
  status : Status
  outputURL : Option String
  deriving DecidableEq, Repr

/-- How an export can end: not over a file that is there already. -/
def ExportSession.canEnd {Asset : Type} (session : ExportSession Asset)
    (files : String → Option (File Asset)) : Status → Bool
  | .completed => (session.outputURL.bind files).isNone
  | .failed | .cancelled => true
  | _ => false

/-- What can be done with the video data of a request. -/
inductive Delivery where
  | noSession
  | unsupported
  | exporting (seconds : String)
  deriving DecidableEq, Repr

/-- The closures are numbered by the calls of `chooseImage`, the sessions by their
    creation. -/
structure AssetViewController (Asset Image : Type) where
  url : Option String
  asset : Option Asset
  type : AssetType
  image : Option Image
  videoRequestComplete : Bool
  videoRequestID : Option Nat
  session : Option Nat
  exportComplete : Option Nat
  deriving DecidableEq, Repr

/-- A selection in the sheet of one call of `chooseImage`. -/
structure Selection (Asset : Type) where
  closure : Nat
  asset : Option Asset
  deriving DecidableEq, Repr

/-- A call of a closure: what `url` was, and what was in that file. -/
structure Call (Asset : Type) where
  closure : Nat
  url : Option String
  file : Option (File Asset)
  deriving DecidableEq, Repr

def Call.selection {Asset : Type} (call : Call Asset) : Option Nat := call.file.map File.selection

/-- The controller and what is under way. `delayed` counts the blocks that wait for
    half a second. `selections`, `calls` and `seen`, the completed sessions which
    those blocks found, are logs. -/
structure State (Asset Image : Type) where
  controller : AssetViewController Asset Image
  files : String → Option (File Asset)
  requests : List (Request Asset)
  requestCount : Nat
  sessions : List (ExportSession Asset)
  delayed : Nat
  choices : Nat
  selections : List (Selection Asset)
  calls : List (Call Asset)
  seen : List Nat

inductive Event (Asset Image : Type) where
  | chooseImage (type : AssetType)
  /-- `seconds` is the time in the name of a file, `written` whether it could be
      written. -/
  | select (sheet : Nat) (images : List Image) (assets : List Asset) (seconds : String)
      (written : Bool)
  | requestResult (request : Request Asset) (result : Option Delivery)
  | exportEnded (session : Nat) (status : Status)
  | delayed
  | cancel

variable {Asset Image : Type}

namespace State

def start : State Asset Image :=
  ⟨⟨none, none, .image, none, false, none, none, none⟩, fun _ => none, [], 0, [], 0, 0, [], [], []⟩

def callExportComplete (s : State Asset Image) : State Asset Image :=
  match s.controller.exportComplete with
  | some closure =>
      let url := s.controller.url
      { s with calls := s.calls ++ [⟨closure, url, url.bind s.files⟩] }
  | none => s

def chooseImage (type : AssetType) (s : State Asset Image) : State Asset Image :=
  { s with
    controller.exportComplete := some s.choices
    controller.type := type
    choices := s.choices + 1 }

def exportImage (selection : Nat) (seconds : String) (written : Bool) (s : State Asset Image) :
    State Asset Image :=
  match s.controller.type, s.controller.image with
  | .image, some _ =>
      let fileName := seconds ++ ".jpg"
      if written then
        callExportComplete { s with
          files := Function.update s.files fileName (some (.image selection))
          controller.url := some fileName }
      else callExportComplete { s with controller.url := none }
  | _, _ => s

def exportVideo (selection : Nat) (s : State Asset Image) : State Asset Image :=
  match s.controller.type, s.controller.asset with
  | .video, some videoAsset =>
      { s with
        controller.videoRequestComplete := false
        controller.videoRequestID := some s.requestCount
        requests := s.requests ++ [⟨s.requestCount, selection, videoAsset⟩]
        requestCount := s.requestCount + 1 }
  | _, _ => s.callExportComplete

def exportAssetLocal (selection : Nat) (seconds : String) (written : Bool)
    (s : State Asset Image) : State Asset Image :=
  (s.exportImage selection seconds written).exportVideo selection

/-- `selectImageBlock` up to the export. -/
def selected (sheet : Nat) (images : List Image) (assets : List Asset) (s : State Asset Image) :
    State Asset Image :=
  { s with
    controller.asset := assets.head?
    controller.url := none
    controller.image := images.head?
    selections := s.selections ++ [⟨sheet, assets.head?⟩] }

def startVideoExport (request : Request Asset) (delivery : Delivery) (s : State Asset Image) :
    State Asset Image :=
  match delivery with
  | .noSession => { s with controller.session := none }
  | .unsupported =>
      { s with
        sessions := s.sessions ++ [⟨request.selection, request.asset, .unknown, none⟩]
        controller.session := some s.sessions.length }
  | .exporting seconds =>
      let videoName := seconds ++ ".mp4"
      { s with
        sessions := s.sessions ++ [⟨request.selection, request.asset, .exporting, some videoName⟩]
        controller.session := some s.sessions.length }

/-- The result handler of a video request. -/
def requestResult (request : Request Asset) (result : Option Delivery) (s : State Asset Image) :
    State Asset Image :=
  match result with
  | none => { s with controller.url := none, controller.asset := none }
  | some delivery =>
      startVideoExport request delivery { s with controller.videoRequestComplete := true }

/-- A request or an export that was cancelled may still end in any way. -/
def cancelVideoRequest (s : State Asset Image) : State Asset Image :=
  match s.controller.videoRequestID with
  | none => s
  | some _ =>
      { s with controller.videoRequestComplete := false, controller.videoRequestID := none }

/-- The export is over, and its handler runs. -/
def exportEnded (index : Nat) (session : ExportSession Asset) (status : Status)
    (s : State Asset Image) : State Asset Image :=
  { s with
    sessions := s.sessions.set index { session with status := status }
    files := match session.outputURL, status with
      | some path, .completed =>
          Function.update s.files path (some (.video session.selection session.asset))
      | _, _ => s.files
    delayed := if s.controller.videoRequestComplete then s.delayed + 1 else s.delayed }

/-- The block that waited. -/
def delayedBlock (s : State Asset Image) : Except Trap (State Asset Image) :=
  match s.controller.session.bind fun index => s.sessions[index]?.map (index, ·) with
  | none => .error .unwrappedNil
  | some (index, session) =>
      match session.status with
      | .completed =>
          .ok (callExportComplete { s with
            controller.url := session.outputURL
            seen := s.seen ++ [index] })
      | _ => .ok s

end State

/-- Selections are made in the sheets that were shown, requests and exports end once,
    and nothing happens after a trap. -/
def machine [DecidableEq Asset] :
    Machine (Except Trap (State Asset Image)) (Event Asset Image) where
  step
    | .error _, _ => none
    | .ok s, .chooseImage type => some (.ok (s.chooseImage type))
    | .ok s, .select sheet images assets seconds written =>
        if sheet < s.choices then
          some (.ok ((s.selected sheet images assets).exportAssetLocal s.selections.length seconds
            written))
        else none
    | .ok s, .requestResult request result =>
        if request ∈ s.requests then
          some (.ok ({ s with requests := s.requests.erase request }.requestResult request result))
        else none
    | .ok s, .exportEnded index status =>
        match s.sessions[index]? with
        | some session =>
            if session.status = .exporting ∧ session.canEnd s.files status then
              some (.ok (s.exportEnded index session status))
            else none
        | none => none
    | .ok s, .delayed =>
        if 0 < s.delayed then some { s with delayed := s.delayed - 1 }.delayedBlock else none
    | .ok s, .cancel => some (.ok s.cancelVideoRequest)

/-! ## What the closures are promised -/

/-- The file was exported from what was chosen in a selection for this closure. -/
def File.Of (file : File Asset) (selections : List (Selection Asset)) (closure : Nat) : Prop :=
  ∃ selection, selections[file.selection]? = some selection ∧ selection.closure = closure ∧
    match file with
    | .image _ => True
    | .video _ asset => selection.asset = some asset

/-- Every call of a closure is for a file of a selection made for it, and no two are
    for one selection. -/
structure Right (s : State Asset Image) : Prop where
  own : ∀ call ∈ s.calls, ∃ file, call.file = some file ∧ file.Of s.selections call.closure
  once : (s.calls.map Call.selection).Nodup

def Completes : Except Trap (State Asset Image) → Prop
  | .ok s => Right s
  | .error _ => True

/-- Every selection is of a video asset. A block that finds the controller's session
    completed is the first to do so, and `chooseImage` was not called since the call
    whose sheet made the selection of that session. -/
def InTurn : Except Trap (State Asset Image) → Event Asset Image → Prop
  | .ok s, .select _ _ assets _ _ => s.controller.type = .video ∧ assets ≠ []
  | .ok s, .delayed =>
      ∀ index session, s.controller.session = some index → s.sessions[index]? = some session →
        session.status = .completed → index ∉ s.seen ∧
          ∀ selection, s.selections[session.selection]? = some selection →
            s.choices = selection.closure + 1
  | _, _ => True

/-- The file of a session's export. -/
def ExportSession.file (session : ExportSession Asset) : File Asset :=
  .video session.selection session.asset

/-- The asset is the one of the selection. -/
def Chosen (selections : List (Selection Asset)) (selection : Nat) (asset : Asset) : Prop :=
  (selections[selection]?).bind Selection.asset = some asset

/-- Requests and sessions are for different selections, and in the runs considered
    only the blocks which found a completed session have called the closure. -/
structure Inv (s : State Asset Image) : Prop where
  closure : s.controller.exportComplete = if s.choices = 0 then none else some (s.choices - 1)
  requested : ∀ request ∈ s.requests, Chosen s.selections request.selection request.asset
  exported : ∀ session ∈ s.sessions, Chosen s.selections session.selection session.asset
  chosen : s.selections ≠ [] → 0 < s.choices
  apart : (s.requests.map Request.selection ++ s.sessions.map ExportSession.selection).Nodup
  output : ∀ session ∈ s.sessions, session.status = .exporting → session.outputURL.isSome
  completed : ∀ session ∈ s.sessions, session.status = .completed →
    session.outputURL.bind s.files = some session.file
  seen_lt : ∀ index ∈ s.seen, index < s.sessions.length
  called : s.calls.map Call.file =
    s.seen.map fun index => (s.sessions.map ExportSession.file)[index]?
  right : Right s

section Steps

variable {s : State Asset Image}

theorem Inv.start : Inv (State.start : State Asset Image) where
  closure := rfl
  requested := nofun
  exported := nofun
  chosen := by simp [State.start]
  apart := List.nodup_nil
  output := nofun
  completed := nofun
  seen_lt := nofun
  called := rfl
  right := ⟨nofun, List.nodup_nil⟩

theorem Chosen.append {selections : List (Selection Asset)} {selection : Nat} {asset : Asset}
    (h : Chosen selections selection asset) (more : List (Selection Asset)) :
    Chosen (selections ++ more) selection asset := by
  obtain ⟨found, there, chosen⟩ := Option.bind_eq_some_iff.mp h
  refine Option.bind_eq_some_iff.mpr ⟨found, ?_, chosen⟩
  rw [List.getElem?_append_left (List.getElem?_eq_some_iff.mp there).1, there]

theorem Chosen.lt {selections : List (Selection Asset)} {selection : Nat} {asset : Asset}
    (h : Chosen selections selection asset) : selection < selections.length := by
  obtain ⟨found, there, -⟩ := Option.bind_eq_some_iff.mp h
  exact (List.getElem?_eq_some_iff.mp there).1

theorem File.Of.append {file : File Asset} {selections : List (Selection Asset)} {closure : Nat}
    (h : file.Of selections closure) (more : List (Selection Asset)) :
    file.Of (selections ++ more) closure := by
  obtain ⟨selection, there, rest⟩ := h
  refine ⟨selection, ?_, rest⟩
  rw [List.getElem?_append_left (List.getElem?_eq_some_iff.mp there).1, there]

theorem Right.append (h : Right s) {t : State Asset Image} {more : List (Selection Asset)}
    (calls : t.calls = s.calls) (selections : t.selections = s.selections ++ more) : Right t where
  own call member := by
    rw [calls] at member
    obtain ⟨file, found, of⟩ := h.own call member
    exact ⟨file, found, selections ▸ of.append more⟩
  once := calls ▸ h.once

theorem callExportComplete_of_some {closure : Nat}
    (h : s.controller.exportComplete = some closure) :
    s.callExportComplete = { s with
      calls := s.calls ++ [⟨closure, s.controller.url, s.controller.url.bind s.files⟩] } := by
  simp only [State.callExportComplete, h]

theorem Inv.chooseImage (h : Inv s) (type : AssetType) : Inv (s.chooseImage type) :=
  { h with
    closure := rfl
    chosen := fun _ => Nat.succ_pos _
    right := ⟨h.right.own, h.right.once⟩ }

theorem Inv.cancelVideoRequest (h : Inv s) : Inv s.cancelVideoRequest := by
  unfold State.cancelVideoRequest
  cases s.controller.videoRequestID with
  | none => exact h
  | some id => exact { h with right := ⟨h.right.own, h.right.once⟩ }

theorem Inv.selection_lt (h : Inv s) : ∀ selection ∈ s.requests.map Request.selection ++
    s.sessions.map ExportSession.selection, selection < s.selections.length := by
  intro selection member
  cases List.mem_append.mp member with
  | inl requested =>
      obtain ⟨request, there, rfl⟩ := List.mem_map.mp requested
      exact (h.requested request there).lt
  | inr exported =>
      obtain ⟨session, there, rfl⟩ := List.mem_map.mp exported
      exact (h.exported session there).lt

/-- A selection of a video asset makes a request for it. -/
theorem Inv.selectVideo (h : Inv s) {sheet : Nat} (shown : sheet < s.choices)
    (images : List Image) {assets : List Asset} (video : s.controller.type = .video)
    (chosen : assets ≠ []) (seconds : String) (written : Bool) :
    Inv ((s.selected sheet images assets).exportAssetLocal
      s.selections.length seconds written) := by
  cases assets with
  | nil => exact absurd rfl chosen
  | cons asset assets =>
      have skipped : (s.selected sheet images (asset :: assets)).exportImage s.selections.length
          seconds written = s.selected sheet images (asset :: assets) := by
        simp only [State.exportImage, State.selected, video]
      rw [State.exportAssetLocal, skipped]
      simp only [State.exportVideo, State.selected, video, List.head?_cons]
      refine { h with
        requested := ?_
        exported := fun session member => (h.exported session member).append _
        chosen := fun _ => Nat.zero_lt_of_lt shown
        apart := ?_
        right := h.right.append rfl rfl }
      · intro request member
        cases List.mem_append.mp member with
        | inl old => exact (h.requested request old).append _
        | inr new =>
            obtain rfl := List.mem_singleton.mp new
            simp [Chosen]
      · have fresh : s.selections.length ∉ s.requests.map Request.selection ++
            s.sessions.map ExportSession.selection := fun member =>
          Nat.lt_irrefl _ (h.selection_lt _ member)
        rw [List.map_append, List.append_assoc]
        exact List.perm_middle.nodup_iff.mpr (List.nodup_cons.mpr ⟨fresh, h.apart⟩)

variable [DecidableEq Asset] {request : Request Asset}

theorem perm_erase (member : request ∈ s.requests) :
    (request.selection :: ((s.requests.erase request).map Request.selection ++
        s.sessions.map ExportSession.selection)).Perm
      (s.requests.map Request.selection ++ s.sessions.map ExportSession.selection) :=
  ((List.perm_cons_erase member).map Request.selection).symm.append_right _

/-- A request is over and leaves no session. -/
theorem Inv.requestEnded (h : Inv s) (member : request ∈ s.requests)
    (controller : AssetViewController Asset Image)
    (closure : controller.exportComplete = s.controller.exportComplete) :
    Inv { s with requests := s.requests.erase request, controller := controller } :=
  { h with
    closure := closure.trans h.closure
    requested := fun other rest => h.requested other (List.mem_of_mem_erase rest)
    apart := (List.nodup_cons.mp ((perm_erase member).nodup_iff.mpr h.apart)).2
    right := ⟨h.right.own, h.right.once⟩ }

/-- A request is over and leaves a session that has not completed. -/
theorem Inv.sessionCreated (h : Inv s) (member : request ∈ s.requests)
    (controller : AssetViewController Asset Image)
    (closure : controller.exportComplete = s.controller.exportComplete) (status : Status)
    (outputURL : Option String) (running : status ≠ .completed)
    (output : status = .exporting → outputURL.isSome) :
    Inv { s with
      requests := s.requests.erase request
      sessions := s.sessions ++ [⟨request.selection, request.asset, status, outputURL⟩]
      controller := controller } := by
  have ended := h.requestEnded member controller closure
  refine { ended with
    exported := ?_
    apart := ?_
    output := ?_
    completed := ?_
    seen_lt := ?_
    called := ?_
    right := ⟨h.right.own, h.right.once⟩ }
  · intro session created
    cases List.mem_append.mp created with
    | inl old => exact h.exported session old
    | inr new =>
        obtain rfl := List.mem_singleton.mp new
        exact h.requested request member
  · rw [List.map_append, ← List.append_assoc]
    exact (List.perm_append_singleton _ _).nodup_iff.mpr
      ((perm_erase member).nodup_iff.mpr h.apart)
  · intro session created
    cases List.mem_append.mp created with
    | inl old => exact h.output session old
    | inr new =>
        obtain rfl := List.mem_singleton.mp new
        exact output
  · intro session created
    cases List.mem_append.mp created with
    | inl old => exact h.completed session old
    | inr new =>
        obtain rfl := List.mem_singleton.mp new
        exact fun completed => absurd completed running
  · intro index seen
    rw [List.length_append]
    exact Nat.lt_add_right 1 (h.seen_lt index seen)
  · refine h.called.trans (List.map_congr_left fun index seen => ?_)
    rw [List.map_append, List.getElem?_append_left]
    rw [List.length_map]
    exact h.seen_lt index seen

theorem Inv.requestResult (h : Inv s) (member : request ∈ s.requests) (result : Option Delivery) :
    Inv ({ s with requests := s.requests.erase request }.requestResult request result) := by
  cases result with
  | none => exact h.requestEnded member _ rfl
  | some delivery =>
      cases delivery with
      | noSession => exact h.requestEnded member _ rfl
      | unsupported =>
          exact h.sessionCreated member { s.controller with
            videoRequestComplete := true
            session := some s.sessions.length } rfl .unknown none nofun nofun
      | exporting seconds =>
          exact h.sessionCreated member { s.controller with
            videoRequestComplete := true
            session := some s.sessions.length } rfl .exporting (some _) nofun fun _ => rfl

omit [DecidableEq Asset]

theorem map_set_same {α β : Type} {f : α → β} {l : List α} {index : Nat} {old new : α}
    (found : l[index]? = some old) (same : f new = f old) : (l.set index new).map f = l.map f := by
  apply List.ext_getElem?
  intro other
  rw [List.getElem?_map, List.getElem?_map, List.getElem?_set]
  split
  · rename_i here
    subst here
    rw [found, if_pos (List.getElem?_eq_some_iff.mp found).1]
    simp [same]
  · rfl

theorem Inv.exportEnded (h : Inv s) {index : Nat} {session : ExportSession Asset}
    (found : s.sessions[index]? = some session) (exporting : session.status = .exporting)
    {status : Status} (ends : session.canEnd s.files status) :
    Inv (s.exportEnded index session status) := by
  have there := List.mem_of_getElem? found
  obtain ⟨path, output⟩ := Option.isSome_iff_exists.mp (h.output session there exporting)
  have files : (s.exportEnded index session status).files =
      if status = .completed then
        Function.update s.files path (some session.file) else s.files := by
    simp only [State.exportEnded, output]
    cases status <;> rfl
  have selections : (s.exportEnded index session status).sessions.map ExportSession.selection =
      s.sessions.map ExportSession.selection := map_set_same found rfl
  have videos : (s.exportEnded index session status).sessions.map ExportSession.file =
      s.sessions.map ExportSession.file := map_set_same found rfl
  have length : (s.exportEnded index session status).sessions.length = s.sessions.length :=
    List.length_set
  refine { h with
    exported := ?_
    apart := ?_
    output := ?_
    completed := ?_
    seen_lt := ?_
    called := ?_
    right := ⟨h.right.own, h.right.once⟩ }
  · intro other member
    cases List.mem_or_eq_of_mem_set member with
    | inl old => exact h.exported other old
    | inr new => exact new ▸ h.exported session there
  · rw [selections]
    exact h.apart
  · intro other member
    cases List.mem_or_eq_of_mem_set member with
    | inl old => exact h.output other old
    | inr new =>
        subst new
        exact fun _ => by simp [output]
  · intro other member completed
    rw [files]
    cases List.mem_or_eq_of_mem_set member with
    | inl old =>
        have kept := h.completed other old completed
        split
        · rename_i done
          subst done
          obtain ⟨its, named, stored⟩ := Option.bind_eq_some_iff.mp kept
          have free : s.files path = none := by
            simpa [ExportSession.canEnd, output] using ends
          have other_path : its ≠ path := by
            rintro rfl
            simp [free] at stored
          rw [named, Option.bind_some, Function.update_of_ne other_path, stored]
        · exact kept
    | inr new =>
        subst new
        rw [if_pos completed, output, Option.bind_some, Function.update_self]
        rfl
  · intro other seen
    rw [length]
    exact h.seen_lt other seen
  · rw [videos]
    exact h.called

/-- The closure was called for a session exactly if a block has found it completed. -/
theorem Inv.mem_called (h : Inv s) {index : Nat} {session : ExportSession Asset}
    (found : s.sessions[index]? = some session) :
    some session.selection ∈ s.calls.map Call.selection ↔ index ∈ s.seen := by
  have selections : s.calls.map Call.selection =
      s.seen.map fun index => (s.sessions.map ExportSession.selection)[index]? := by
    have files := congrArg (List.map (Option.map File.selection)) h.called
    rw [List.map_map, List.map_map] at files
    refine files.trans (List.map_congr_left fun index _ => ?_)
    simp [Function.comp_def, ExportSession.file, File.selection]
  have own : (s.sessions.map ExportSession.selection)[index]? = some session.selection := by
    simp [found]
  have distinct : (s.sessions.map ExportSession.selection).Nodup :=
    (List.nodup_append.mp h.apart).2.1
  rw [selections, List.mem_map]
  constructor
  · rintro ⟨other, seen, same⟩
    have inRange : other < (s.sessions.map ExportSession.selection).length := by
      rw [List.length_map]
      exact h.seen_lt other seen
    obtain rfl := (List.getElem?_inj inRange distinct).mp (same.trans own.symm)
    exact seen
  · exact fun seen => ⟨index, seen, own⟩

/-- One more call, for the file of a session. -/
theorem Inv.right_iff (h : Inv s) {index : Nat} {session : ExportSession Asset}
    (found : s.sessions[index]? = some session) {t : State Asset Image} {closure : Nat}
    {url : Option String} (selections : t.selections = s.selections)
    (calls : t.calls = s.calls ++ [⟨closure, url, some session.file⟩]) :
    Right t ↔ index ∉ s.seen ∧
      ∀ selection, s.selections[session.selection]? = some selection →
        selection.closure = closure := by
  obtain ⟨chosen, there, asset⟩ :=
    Option.bind_eq_some_iff.mp (h.exported session (List.mem_of_getElem? found))
  constructor
  · intro right
    constructor
    · intro seen
      have once := right.once
      rw [calls, List.map_append] at once
      exact (List.nodup_append.mp once).2.2 _ ((h.mem_called found).mpr seen) _
        (List.mem_singleton.mpr rfl) rfl
    · intro selection selected
      obtain ⟨file, same, made, made_there, closure_eq, -⟩ :=
        right.own ⟨closure, url, some session.file⟩ (by simp [calls])
      obtain rfl := Option.some.inj same
      rw [selections] at made_there
      obtain rfl := Option.some.inj (selected.symm.trans made_there)
      exact closure_eq
  · rintro ⟨first, latest⟩
    constructor
    · intro call member
      rw [calls] at member
      rw [selections]
      cases List.mem_append.mp member with
      | inl old => exact h.right.own call old
      | inr new =>
          obtain rfl := List.mem_singleton.mp new
          exact ⟨session.file, rfl, chosen, there, latest chosen there, asset⟩
    · rw [calls, List.map_append]
      refine List.nodup_append.mpr ⟨h.right.once, List.nodup_singleton _, ?_⟩
      intro old called new single
      obtain rfl := List.mem_singleton.mp single
      rintro rfl
      exact first ((h.mem_called found).mp called)

theorem Inv.closure_of_session (h : Inv s) {session : ExportSession Asset}
    (member : session ∈ s.sessions) :
    s.controller.exportComplete = some (s.choices - 1) ∧ 0 < s.choices := by
  have chosen : 0 < s.choices := by
    apply h.chosen
    rintro none_
    have lt := (h.exported session member).lt
    rw [none_] at lt
    exact Nat.not_lt_zero _ lt
  exact ⟨h.closure.trans (if_neg (Nat.ne_of_gt chosen)), chosen⟩

/-- The block found the session completed and calls the closure. -/
theorem Inv.exported_called (h : Inv s) {index : Nat} {session : ExportSession Asset}
    (current : s.controller.session = some index) (found : s.sessions[index]? = some session)
    (completed : session.status = .completed) :
    let t := State.callExportComplete { s with
      controller.url := session.outputURL
      seen := s.seen ++ [index] }
    InTurn (.ok s) (.delayed : Event Asset Image) ∧ Inv t ∨
      ¬InTurn (.ok s) (.delayed : Event Asset Image) ∧ ¬Right t := by
  intro t
  have there := List.mem_of_getElem? found
  obtain ⟨closure, chosen⟩ := h.closure_of_session there
  have called : t = { s with
      controller.url := session.outputURL
      seen := s.seen ++ [index]
      calls := s.calls ++ [⟨s.choices - 1, session.outputURL, some session.file⟩] } := by
    rw [← h.completed session there completed]
    exact callExportComplete_of_some closure
  have right : Right t ↔ InTurn (.ok s) (.delayed : Event Asset Image) := by
    have selections : t.selections = s.selections := by rw [called]
    rw [h.right_iff found selections (congrArg State.calls called)]
    constructor
    · intro inTurn other its same stored _
      obtain rfl := Option.some.inj (current.symm.trans same)
      obtain rfl := Option.some.inj (found.symm.trans stored)
      exact ⟨inTurn.1, fun selection selected => by have := inTurn.2 selection selected; omega⟩
    · intro inTurn
      obtain ⟨first, latest⟩ := inTurn index session current found completed
      exact ⟨first, fun selection selected => by have := latest selection selected; omega⟩
  by_cases inTurn : InTurn (.ok s) (.delayed : Event Asset Image)
  · refine .inl ⟨inTurn, ?_⟩
    have holds := right.mpr inTurn
    rw [called] at holds ⊢
    refine { h with seen_lt := ?_, called := ?_, right := holds }
    · intro other member
      cases List.mem_append.mp member with
      | inl old => exact h.seen_lt other old
      | inr new =>
          obtain rfl := List.mem_singleton.mp new
          exact (List.getElem?_eq_some_iff.mp found).1
    · simp [h.called, found]
  · exact .inr ⟨inTurn, mt right.mp inTurn⟩

/-- What the block that waited does. -/
theorem Inv.delayedBlock (h : Inv s) :
    InTurn (.ok s) (.delayed : Event Asset Image) ∧
        ((∃ u, s.delayedBlock = .ok u ∧ Inv u) ∨ ∃ trap, s.delayedBlock = .error trap) ∨
      ¬InTurn (.ok s) (.delayed : Event Asset Image) ∧ ¬Completes s.delayedBlock := by
  cases looked : s.controller.session.bind fun index => s.sessions[index]?.map (index, ·) with
  | none =>
      refine .inl ⟨?_, .inr ⟨.unwrappedNil, by simp only [State.delayedBlock, looked]⟩⟩
      intro index session current found
      simp [current, found] at looked
  | some pair =>
      obtain ⟨index, current, there⟩ := Option.bind_eq_some_iff.mp looked
      obtain ⟨session, found, rfl⟩ := Option.map_eq_some_iff.mp there
      by_cases completed : session.status = .completed
      · have block : s.delayedBlock = .ok (State.callExportComplete { s with
            controller.url := session.outputURL
            seen := s.seen ++ [index] }) := by
          simp only [State.delayedBlock, looked, completed]
        rw [block]
        exact (h.exported_called current found completed).imp
          (fun called => ⟨called.1, .inl ⟨_, rfl, called.2⟩⟩) id
      · have block : s.delayedBlock = .ok s := by
          simp only [State.delayedBlock, looked]
        refine .inl ⟨?_, .inl ⟨s, block, h⟩⟩
        intro other its same stored done
        obtain rfl := Option.some.inj (current.symm.trans same)
        obtain rfl := Option.some.inj (found.symm.trans stored)
        exact absurd done completed

theorem not_right_of_no_file (call : Call Asset) (member : call ∈ s.calls)
    (nothing : call.file = none) : ¬Right s := by
  intro right
  obtain ⟨file, found, -⟩ := right.own call member
  simp [nothing] at found

/-- A selection of an image calls the closure twice, or once without a file. -/
theorem Inv.selectImage (h : Inv s) {sheet : Nat} (shown : sheet < s.choices)
    (images : List Image) (assets : List Asset) (image : s.controller.type = .image)
    (seconds : String) (written : Bool) :
    ¬Right ((s.selected sheet images assets).exportAssetLocal s.selections.length seconds
      written) := by
  have closure := h.closure.trans (if_neg (Nat.ne_of_gt (Nat.zero_lt_of_lt shown)))
  cases images with
  | nil =>
      apply not_right_of_no_file ⟨s.choices - 1, none, none⟩ ?_ rfl
      simp [State.exportAssetLocal, State.exportImage, State.exportVideo, State.selected,
        State.callExportComplete, image, closure]
  | cons first images =>
      cases written with
      | false =>
          apply not_right_of_no_file ⟨s.choices - 1, none, none⟩ ?_ rfl
          simp [State.exportAssetLocal, State.exportImage, State.exportVideo, State.selected,
            State.callExportComplete, image, closure]
      | true =>
          intro right
          have once := right.once
          simp [State.exportAssetLocal, State.exportImage, State.exportVideo, State.selected,
            State.callExportComplete, image, closure, List.nodup_append] at once

/-- A selection without an asset calls the closure without a file. -/
theorem Inv.selectNothing (h : Inv s) {sheet : Nat} (shown : sheet < s.choices)
    (images : List Image) (video : s.controller.type = .video) (seconds : String)
    (written : Bool) :
    ¬Right ((s.selected sheet images []).exportAssetLocal s.selections.length seconds written) := by
  have closure := h.closure.trans (if_neg (Nat.ne_of_gt (Nat.zero_lt_of_lt shown)))
  apply not_right_of_no_file ⟨s.choices - 1, none, none⟩ ?_ rfl
  simp [State.exportAssetLocal, State.exportImage, State.exportVideo, State.selected,
    State.callExportComplete, video, closure]

/-- A step in turn keeps the invariant or traps, and any other step breaks the promise. -/
theorem Inv.step [DecidableEq Asset] (h : Inv s) {e : Event Asset Image}
    {t : Except Trap (State Asset Image)} (stepped : machine.step (.ok s) e = some t) :
    InTurn (.ok s) e ∧ ((∃ u, t = .ok u ∧ Inv u) ∨ ∃ trap, t = .error trap) ∨
      ¬InTurn (.ok s) e ∧ ¬Completes t := by
  cases e with
  | chooseImage type =>
      obtain rfl := Option.some.inj stepped
      exact .inl ⟨trivial, .inl ⟨_, rfl, h.chooseImage type⟩⟩
  | select sheet images assets seconds written =>
      simp only [machine, Option.ite_none_right_eq_some, Option.some.injEq] at stepped
      obtain ⟨shown, rfl⟩ := stepped
      cases type : s.controller.type with
      | image =>
          refine .inr ⟨fun inTurn => ?_, h.selectImage shown images assets type seconds written⟩
          simp [InTurn, type] at inTurn
      | video =>
          cases assets with
          | nil =>
              refine .inr ⟨fun inTurn => ?_, h.selectNothing shown images type seconds written⟩
              simp [InTurn] at inTurn
          | cons asset assets =>
              exact .inl ⟨⟨type, nofun⟩,
                .inl ⟨_, rfl, h.selectVideo shown images type
                  (List.cons_ne_nil _ _) seconds written⟩⟩
  | requestResult request result =>
      simp only [machine, Option.ite_none_right_eq_some, Option.some.injEq] at stepped
      obtain ⟨member, rfl⟩ := stepped
      exact .inl ⟨trivial, .inl ⟨_, rfl, h.requestResult member result⟩⟩
  | exportEnded index status =>
      cases found : s.sessions[index]? with
      | none => simp [machine, found] at stepped
      | some session =>
          simp only [machine, found, Option.ite_none_right_eq_some, Option.some.injEq] at stepped
          obtain ⟨⟨exporting, ends⟩, rfl⟩ := stepped
          exact .inl ⟨trivial, .inl ⟨_, rfl, h.exportEnded found exporting ends⟩⟩
  | delayed =>
      simp only [machine, Option.ite_none_right_eq_some, Option.some.injEq] at stepped
      obtain ⟨-, rfl⟩ := stepped
      have waiting : Inv { s with delayed := s.delayed - 1 } :=
        { h with right := ⟨h.right.own, h.right.once⟩ }
      exact waiting.delayedBlock
  | cancel =>
      obtain rfl := Option.some.inj stepped
      exact .inl ⟨trivial, .inl ⟨_, rfl, h.cancelVideoRequest⟩⟩

end Steps

/-- In every run: the closures are called as promised after each step exactly if each
    step is in turn. -/
theorem completes_iff_inTurn [DecidableEq Asset] (es : List (Event Asset Image)) :
    machine.Each (fun _ _ t => Completes t) (.ok State.start) es ↔
      machine.Each (fun s e _ => InTurn s e) (.ok State.start) es := by
  refine Machine.each_congr_trap (I := Inv) (fun _ _ => rfl) ?_ Inv.start es
  intro s e t inv stepped
  cases inv.step stepped with
  | inl timely =>
      obtain ⟨inTurn, ⟨u, rfl, after⟩ | ⟨trap, rfl⟩⟩ := timely
      · refine ⟨iff_of_true after.right inTurn, fun _ next same => ?_⟩
        exact Except.ok.inj same ▸ after
      · exact ⟨iff_of_true trivial inTurn, fun _ _ same => nomatch same⟩
  | inr late =>
      exact ⟨iff_of_false late.2 late.1, fun completes => absurd completes late.2⟩

/-- Choosing an image calls the closure once from each export routine. -/
theorem image_completed_twice :
    ¬(machine : Machine (Except Trap (State Nat Nat)) (Event Nat Nat)).Each
      (fun _ _ t => Completes t) (.ok State.start)
      [.chooseImage .image, .select 0 [0] [0] "10" true] := by
  intro all
  obtain ⟨-, all⟩ := all _ rfl
  obtain ⟨right, -⟩ := all _ rfl
  have once := Right.once right
  revert once
  decide

end LearningProjects.URLSession.AssetExport
