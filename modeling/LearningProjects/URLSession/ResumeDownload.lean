import LearningProjects.Machine

/-! # Resuming a cancelled download

`videoDownload` cancels a fresh task after five seconds and keeps what it
downloaded, in a field and in a file, for the next tap. Both sessions report to
one delegate, and every completion throws the kept data away, whichever task it
was. Which runs keep the data for its own download can be read off the events:
a delivery of resume data has to be followed by the completion of a task that was
started from it before anything else is delivered or completed.
-/

namespace LearningProjects.URLSession.ResumeDownload

inductive Session where
  | foreground
  | background
  deriving DecidableEq, Repr

/-- What a cancelled task leaves behind, to continue its download. -/
structure ResumeData where
  cancelled : Nat
  deriving DecidableEq, Repr

structure DownloadTask where
  id : Nat
  session : Session
  resumed : Option ResumeData
  deriving DecidableEq, Repr

/-- `cancellations` are the tasks whose five seconds are not over. -/
structure ViewController where
  resumeData : Option ResumeData
  resumeFile : Option ResumeData
  running : List DownloadTask
  cancellations : List Nat
  nextId : Nat
  deriving DecidableEq, Repr

/-- What the delegate and the timers see. `cancelled` carries whether the
    cancelled task produced resume data; only a running task can. -/
inductive Event where
  | videoDownload
  | backgroundDownload
  | cancelled (task : Nat) (produces : Bool)
  | didFinishDownloading (task : Nat)
  | relaunch
  deriving DecidableEq, Repr

namespace ViewController

/-- The first launch; there is no resume file. -/
def installed : ViewController := ⟨none, none, [], [], 0⟩

def start (v : ViewController) (session : Session) (resumed : Option ResumeData) : ViewController :=
  { v with running := v.running ++ [⟨v.nextId, session, resumed⟩], nextId := v.nextId + 1 }

def stop (v : ViewController) (task : Nat) : ViewController :=
  { v with running := v.running.filter (·.id ≠ task) }

def isRunning (v : ViewController) (task : Nat) : Bool := v.running.any (·.id = task)

def videoDownload (v : ViewController) : ViewController :=
  match v.resumeData with
  | none => { v.start .foreground none with cancellations := v.cancellations ++ [v.nextId] }
  | some data => v.start .foreground (some data)

def backgroundDownload (v : ViewController) : ViewController := v.start .background none

/-- The completion handler of the cancellation. -/
def cancel (v : ViewController) (data : Option ResumeData) : ViewController :=
  match data with
  | none => v
  | some data => { v with resumeFile := some data, resumeData := some data }

/-- The delegate's handler, the same for both sessions. -/
def didFinishDownloading (v : ViewController) : ViewController :=
  { v with resumeFile := none, resumeData := none }

/-- A new process: tasks of the foreground session and pending cancellations are
    gone, tasks of the background session go on. -/
def viewDidLoad (v : ViewController) : ViewController :=
  { v with
    resumeData := v.resumeFile
    running := v.running.filter (·.session = .background)
    cancellations := [] }

end ViewController

open ViewController

def machine : Machine ViewController Event where
  step v
    | .videoDownload => some v.videoDownload
    | .backgroundDownload => some v.backgroundDownload
    | .cancelled task produces =>
        if task ∈ v.cancellations ∧ (produces → v.isRunning task) then
          let v := { v.stop task with cancellations := v.cancellations.filter (· ≠ task) }
          some (v.cancel (if produces then some ⟨task⟩ else none))
        else none
    | .didFinishDownloading task =>
        if v.isRunning task then some (v.stop task).didFinishDownloading else none
    | .relaunch => some v.viewDidLoad

/-! ## What resume data promises -/

def InSync (v : ViewController) : Prop := v.resumeData = v.resumeFile

/-- Stored data goes away only when a task created from it finishes. -/
def DiscardsOwn (v : ViewController) (e : Event) (w : ViewController) : Prop :=
  ∀ data, v.resumeFile = some data → w.resumeFile ≠ some data →
    ∃ task ∈ v.running, e = .didFinishDownloading task.id ∧ task.resumed = some data

/-! ## Reading the condition off the events -/

/-- What the events so far say: the session of each task started, and how many
    tasks had been started at the last delivery, if nothing has completed since. -/
structure Watch where
  started : List Session
  delivered : Option Nat
  deriving DecidableEq, Repr

def Watch.next (w : Watch) : Event → Watch
  | .videoDownload => { w with started := w.started ++ [.foreground] }
  | .backgroundDownload => { w with started := w.started ++ [.background] }
  | .cancelled _ true => { w with delivered := some w.started.length }
  | .didFinishDownloading _ => { w with delivered := none }
  | .cancelled _ false | .relaunch => w

def watch (history : List Event) : Watch := history.foldl Watch.next ⟨[], none⟩

/-- After a delivery, the next delivery or completion is the completion of a task
    that `videoDownload` started after it. -/
def InTurn (history : List Event) : Event → Prop
  | .cancelled _ true => (watch history).delivered = none
  | .didFinishDownloading task => ∀ count, (watch history).delivered = some count →
      count ≤ task ∧ (watch history).started[task]? = some .foreground
  | _ => True

theorem watch_concat (history : List Event) (e : Event) :
    watch (history ++ [e]) = (watch history).next e := by
  simp [watch]

/-- Data that no pending cancellation can produce again. -/
def Spent (v : ViewController) (data : ResumeData) : Prop :=
  data.cancelled < v.nextId ∧ data.cancelled ∉ v.cancellations

/-- How the state follows from the events. -/
structure Tracks (v : ViewController) (w : Watch) : Prop where
  synced : InSync v
  counted : v.nextId = w.started.length
  stored : w.delivered.isSome = v.resumeFile.isSome
  delivered_le : ∀ count, w.delivered = some count → count ≤ v.nextId
  running_lt : ∀ task ∈ v.running, task.id < v.nextId
  cancellations_lt : ∀ task ∈ v.cancellations, task < v.nextId
  resumed_spent : ∀ task ∈ v.running, ∀ data, task.resumed = some data → Spent v data
  stored_spent : ∀ data, v.resumeFile = some data → Spent v data
  own : ∀ data count, v.resumeFile = some data → w.delivered = some count →
    ∀ task ∈ v.running, task.resumed = some data ↔
      count ≤ task.id ∧ w.started[task.id]? = some .foreground

theorem Tracks.installed : Tracks installed ⟨[], none⟩ := by
  constructor <;> simp [InSync, ViewController.installed]

namespace Tracks

variable {v : ViewController} {w : Watch}

/-- Tasks and cancellations may go away. -/
theorem shrink (h : Tracks v w) (running : List DownloadTask) (cancellations : List Nat)
    (fewer : ∀ task ∈ running, task ∈ v.running)
    (fewer' : ∀ task ∈ cancellations, task ∈ v.cancellations) :
    Tracks { v with running := running, cancellations := cancellations } w where
  synced := h.synced
  counted := h.counted
  stored := h.stored
  delivered_le := h.delivered_le
  running_lt task member := h.running_lt task (fewer task member)
  cancellations_lt task member := h.cancellations_lt task (fewer' task member)
  resumed_spent task member data resumed :=
    (h.resumed_spent task (fewer task member) data resumed).imp_right (mt (fewer' _))
  stored_spent data stored := (h.stored_spent data stored).imp_right (mt (fewer' _))
  own data count stored delivered task member :=
    h.own data count stored delivered task (fewer task member)

/-- A new task is resumed from the stored data, if `videoDownload` starts it. -/
theorem start (h : Tracks v w) (session : Session) (scheduled : List Nat)
    (fresh : ∀ task ∈ scheduled, task = v.nextId) :
    Tracks
      { v.start session (if session = .foreground then v.resumeFile else none) with
        cancellations := v.cancellations ++ scheduled }
      { w with started := w.started ++ [session] } := by
  have spent : ∀ data, Spent v data →
      data.cancelled < v.nextId + 1 ∧ data.cancelled ∉ v.cancellations ++ scheduled := by
    intro data old
    refine ⟨Nat.lt_succ_of_lt old.1, fun member => ?_⟩
    cases List.mem_append.mp member with
    | inl pending => exact old.2 pending
    | inr new => exact absurd (fresh _ new) (Nat.ne_of_lt old.1)
  constructor
  case synced => exact h.synced
  case counted => simp [ViewController.start, h.counted]
  case stored => exact h.stored
  case delivered_le =>
    exact fun count delivered => Nat.le_succ_of_le (h.delivered_le count delivered)
  case running_lt =>
    intro task member
    cases List.mem_append.mp member with
    | inl old => exact Nat.lt_succ_of_lt (h.running_lt task old)
    | inr new =>
        obtain rfl := List.mem_singleton.mp new
        exact Nat.lt_succ_self _
  case cancellations_lt =>
    intro task member
    cases List.mem_append.mp member with
    | inl old => exact Nat.lt_succ_of_lt (h.cancellations_lt task old)
    | inr new =>
        rw [fresh task new]
        exact Nat.lt_succ_self _
  case resumed_spent =>
    intro task member data resumed
    cases List.mem_append.mp member with
    | inl old => exact spent data (h.resumed_spent task old data resumed)
    | inr new =>
        obtain rfl := List.mem_singleton.mp new
        rw [Option.ite_none_right_eq_some] at resumed
        exact spent data (h.stored_spent data resumed.2)
  case stored_spent => exact fun data stored => spent data (h.stored_spent data stored)
  case own =>
    intro data count stored delivered task member
    cases List.mem_append.mp member with
    | inl old =>
        rw [h.own data count stored delivered task old,
          List.getElem?_append_left (h.counted ▸ h.running_lt task old)]
    | inr new =>
        obtain rfl := List.mem_singleton.mp new
        have before := h.delivered_le count delivered
        have kept : v.resumeFile = some data := stored
        rw [h.counted] at before
        cases session with
        | foreground => simp [h.counted, kept, before]
        | background => simp [h.counted]

theorem deliver (h : Tracks v w) {task : Nat} (known : task < v.nextId)
    (fresh : task ∉ v.cancellations) (unused : ∀ other ∈ v.running, other.resumed ≠ some ⟨task⟩) :
    Tracks (v.cancel (some ⟨task⟩)) { w with delivered := some w.started.length } where
  synced := rfl
  counted := h.counted
  stored := rfl
  delivered_le count delivered := by
    obtain rfl := Option.some.inj delivered
    exact Nat.le_of_eq h.counted.symm
  running_lt := h.running_lt
  cancellations_lt := h.cancellations_lt
  resumed_spent := h.resumed_spent
  stored_spent data stored := by
    obtain rfl := Option.some.inj stored
    exact ⟨known, fresh⟩
  own data count stored delivered other member := by
    obtain rfl := Option.some.inj stored
    obtain rfl := Option.some.inj delivered
    have older := h.running_lt other member
    rw [h.counted] at older
    exact ⟨fun resumed => absurd resumed (unused other member), fun later => by omega⟩

theorem finish (h : Tracks v w) : Tracks v.didFinishDownloading { w with delivered := none } where
  synced := rfl
  counted := h.counted
  stored := rfl
  delivered_le _ delivered := nomatch delivered
  running_lt := h.running_lt
  cancellations_lt := h.cancellations_lt
  resumed_spent := h.resumed_spent
  stored_spent _ stored := nomatch stored
  own _ _ stored := nomatch stored

theorem next {u : ViewController} {e : Event} (h : Tracks v w)
    (stepped : machine.step v e = some u) :
    Tracks u (w.next e) := by
  cases e with
  | videoDownload =>
      obtain rfl := Option.some.inj stepped
      have sync : v.resumeData = v.resumeFile := h.synced
      unfold videoDownload
      cases stored : v.resumeData with
      | none =>
          have started := h.start .foreground [v.nextId] (by simp)
          rwa [if_pos rfl, ← sync, stored] at started
      | some data =>
          have started := h.start .foreground [] (by simp)
          rw [if_pos rfl, ← sync, stored, List.append_nil] at started
          exact started
  | backgroundDownload =>
      obtain rfl := Option.some.inj stepped
      have started := h.start .background [] (by simp)
      rw [if_neg (by simp), List.append_nil] at started
      exact started
  | cancelled task produces =>
      simp only [machine, Option.ite_none_right_eq_some, Option.some.injEq] at stepped
      obtain ⟨⟨pending, -⟩, rfl⟩ := stepped
      have stopped := h.shrink (v.running.filter (·.id ≠ task)) (v.cancellations.filter (· ≠ task))
        (fun _ member => List.mem_of_mem_filter member)
        (fun _ member => List.mem_of_mem_filter member)
      cases produces with
      | false => exact stopped
      | true =>
          apply stopped.deliver (h.cancellations_lt task pending)
          · simp
          · intro other member resumed
            exact (h.resumed_spent other (List.mem_of_mem_filter member) _ resumed).2 pending
  | didFinishDownloading task =>
      simp only [machine, Option.ite_none_right_eq_some, Option.some.injEq] at stepped
      obtain ⟨-, rfl⟩ := stepped
      exact (h.shrink (v.running.filter (·.id ≠ task)) v.cancellations
        (fun _ member => List.mem_of_mem_filter member) fun _ member => member).finish
  | relaunch =>
      obtain rfl := Option.some.inj stepped
      have sync : v.resumeData = v.resumeFile := h.synced
      have kept := h.shrink (v.running.filter (·.session = .background)) []
        (fun _ member => List.mem_of_mem_filter member) (by simp)
      rw [sync] at kept
      exact kept

end Tracks

/-- In every run the field and the file agree. -/
theorem inSync_of_reachable {v : ViewController} (reached : machine.Reachable installed v) :
    InSync v := by
  have keep : ∀ s e t, (∃ w, Tracks s w) → machine.step s e = some t → ∃ w, Tracks t w := by
    rintro s e t ⟨w, h⟩ stepped
    exact ⟨w.next e, h.next stepped⟩
  obtain ⟨w, h⟩ := reached.invariant keep ⟨_, .installed⟩
  exact h.synced

theorem isRunning_iff {v : ViewController} {task : Nat} :
    v.isRunning task = true ↔ ∃ other ∈ v.running, other.id = task := by
  simp [isRunning]

/-- Events other than deliveries and completions leave the file alone. -/
theorem discardsOwn_of_same {v u : ViewController} (e : Event)
    (same : u.resumeFile = v.resumeFile) :
    DiscardsOwn v e u :=
  fun _ stored gone => absurd (same.trans stored) gone

theorem Tracks.discardsOwn_iff {v u : ViewController} {history : List Event} {e : Event}
    (h : Tracks v (watch history)) (stepped : machine.step v e = some u) :
    DiscardsOwn v e u ↔ InTurn history e := by
  cases e with
  | videoDownload =>
      obtain rfl := Option.some.inj stepped
      refine ⟨fun _ => trivial, fun _ => discardsOwn_of_same _ ?_⟩
      unfold videoDownload
      split <;> rfl
  | backgroundDownload =>
      obtain rfl := Option.some.inj stepped
      exact ⟨fun _ => trivial, fun _ => discardsOwn_of_same _ rfl⟩
  | relaunch =>
      obtain rfl := Option.some.inj stepped
      exact ⟨fun _ => trivial, fun _ => discardsOwn_of_same _ rfl⟩
  | cancelled task produces =>
      simp only [machine, Option.ite_none_right_eq_some, Option.some.injEq] at stepped
      obtain ⟨⟨pending, -⟩, rfl⟩ := stepped
      cases produces with
      | false => exact ⟨fun _ => trivial, fun _ => discardsOwn_of_same _ rfl⟩
      | true =>
          have stored := h.stored
          cases found : v.resumeFile with
          | none =>
              rw [found] at stored
              exact ⟨fun _ => by simpa [InTurn] using stored,
                fun _ data kept => by simp [found] at kept⟩
          | some data =>
              rw [found] at stored
              constructor
              · intro own
                have other : (some ⟨task⟩ : Option ResumeData) ≠ some data := by
                  rintro same
                  obtain rfl := Option.some.inj same
                  exact (h.stored_spent _ found).2 pending
                obtain ⟨_, _, finished, _⟩ := own data found other
                cases finished
              · intro turn
                rw [InTurn] at turn
                simp [turn] at stored
  | didFinishDownloading task =>
      simp only [machine, Option.ite_none_right_eq_some, Option.some.injEq] at stepped
      obtain ⟨live, rfl⟩ := stepped
      obtain ⟨runner, member, rfl⟩ := isRunning_iff.mp live
      constructor
      · intro own count delivered
        have stored := h.stored
        rw [delivered] at stored
        obtain ⟨data, found⟩ := Option.isSome_iff_exists.mp stored.symm
        obtain ⟨other, member', finished, resumed⟩ :=
          own data found (by simp [didFinishDownloading])
        have same := Event.didFinishDownloading.inj finished
        rw [same]
        exact (h.own data count found delivered other member').mp resumed
      · intro turn data found _
        have stored := h.stored
        rw [found] at stored
        obtain ⟨count, delivered⟩ := Option.isSome_iff_exists.mp stored
        exact ⟨runner, member, rfl,
          (h.own data count found delivered runner member).mpr (turn count delivered)⟩

/-- Along any run, the field agrees with the file and stored data is only discarded
    by its own download, exactly when deliveries and completions come in turn. -/
theorem discardsOwn_iff_inTurn (events : List Event) :
    machine.recording.Each (fun s e t => InSync t.1 ∧ DiscardsOwn s.1 e t.1)
      (installed, []) events ↔
      machine.recording.Each (fun s e _ => InTurn s.2 e) (installed, []) events := by
  apply Machine.each_congr (I := fun s => Tracks s.1 (watch s.2))
  · intro s e t h stepped _
    obtain ⟨moved, recorded⟩ := Machine.recording_step stepped
    rw [recorded, watch_concat]
    exact h.next moved
  · intro s e t h stepped
    obtain ⟨moved, -⟩ := Machine.recording_step stepped
    rw [h.discardsOwn_iff moved, and_iff_right (h.next moved).synced]
  · exact .installed

/-- A background download that completes throws away what the foreground download
    had kept. -/
theorem background_discards :
    ¬ machine.recording.Each (fun s e t => InSync t.1 ∧ DiscardsOwn s.1 e t.1) (installed, [])
      [.videoDownload, .backgroundDownload, .cancelled 0 true, .didFinishDownloading 1] := by
  intro all
  obtain ⟨-, all⟩ := all _ rfl
  obtain ⟨-, all⟩ := all _ rfl
  obtain ⟨-, all⟩ := all _ rfl
  obtain ⟨⟨-, own⟩, -⟩ := all _ rfl
  obtain ⟨task, member, finished, resumed⟩ := own ⟨0⟩ rfl (by decide)
  revert task
  decide

end LearningProjects.URLSession.ResumeDownload
