import LearningProjects.SelfSync
import LearningProjects.SyncCall
import LearningProjects.GCD.Barrier

/-! # Functions that wait for their blocks

`serialSync` and `concurrentSync` wait on the main thread for blocks of another queue, which
does no harm. `deadLock1` and `mainQueueMainThreadSync` wait there for blocks of the main
queue, and the block of `deadLock2` waits for a block of its own serial queue.
-/

namespace LearningProjects.GCD.SyncTasks

open Dispatch

def deadLock1 : Function Unit where
  discipline := Queue.discipline
  body
    | .function => [.print "1", .sync .getMainQueue (.block 0), .print "3"]
    | .block 0 => [.print "2"]
    | .block _ => []

def deadLock2 : Function Unit where
  discipline := Queue.discipline
  body
    | .function => [.print "1", .async .createSerialQueue false (.block 0), .print "5"]
    | .block 0 => [.print "2", .sync .createSerialQueue (.block 1), .print "4"]
    | .block 1 => [.print "3"]
    | .block _ => []

/-- `thread` describes the thread on which the function or a block runs. -/
def mainQueueMainThreadSync (thread : Block → String) : Function Unit where
  discipline := Queue.discipline
  body
    | .function => [
        .print ("current thread: " ++ thread .function),
        .print "begin task",
        .sync .getMainQueue (.block 0),
        .sync .getMainQueue (.block 1),
        .print "end task"]
    | .block 0 => [.print ("current thread: " ++ thread (.block 0)), .print "task 1"]
    | .block 1 => [.print ("current thread: " ++ thread (.block 1)), .print "task 2"]
    | .block _ => []

def customThreadFunc (thread : Block → String) : Function Unit := mainQueueMainThreadSync thread

/-- Three tasks one after the other. -/
def syncTasks (thread : Block → String) (queue : Queue) : Function Unit where
  discipline := Queue.discipline
  body
    | .function => [
        .print ("current thread: " ++ thread .function),
        .print "begin task",
        .sync queue (.block 0),
        .sync queue (.block 1),
        .sync queue (.block 2),
        .print "end task"]
    | .block 0 => [.print ("task 1, current thread: " ++ thread (.block 0))]
    | .block 1 => [.print ("task 2, current thread: " ++ thread (.block 1))]
    | .block 2 => [.print ("task 3, current thread: " ++ thread (.block 2))]
    | .block _ => []

def serialSync (thread : Block → String) : Function Unit :=
  syncTasks thread .createSerialQueue

def concurrentSync (thread : Block → String) : Function Unit :=
  syncTasks thread .createConcurrentQueue

/-- The lines of `syncTasks`. -/
def syncLines (thread : Block → String) : List String := [
  "current thread: " ++ thread .function,
  "begin task",
  "task 1, current thread: " ++ thread (.block 0),
  "task 2, current thread: " ++ thread (.block 1),
  "task 3, current thread: " ++ thread (.block 2),
  "end task"]

variable {thread : Block → String} {s : State Unit String Queue Unit Unit Block}

/-- A function that runs once through code which only prints, submits and waits. -/
structure Simple (f : Function Unit) : Prop where
  straight : ∀ b, ∀ x ∈ f.body b, x.straight
  loops : ∀ b, ∀ x ∈ f.body b, x.loops = false
  leaves : ∀ b, ∀ x ∈ f.body b, ∀ g, x ≠ .leave g

/-- A function of the main thread that waits for the main queue hangs there: it prints what
    comes before and not a line more, and none of its blocks ever starts. -/
theorem hangs (f : Function Unit) (first : List (Instr Unit String Queue Unit Unit Block))
    (simple : Simple f) (self : f.SelfSync .getMainQueue .function first)
    (main_only : ∀ b, ∀ x ∈ f.body b, ∀ n, Program.Names x n → n.queue = .getMainQueue)
    (reached : f.machine.Reachable (f.begin ()) s) :
    (∃ t, s.tasks[0]? = some t ∧ t.phase ≠ .finished) ∧
      (∀ j v, 0 < j → s.tasks[j]? = some v → v.phase = .queued) ∧
      s.log.map Prod.snd <+: first.filterMap Instr.printed ∧
      (f.Stuck s → s.log.map Prod.snd = first.filterMap Instr.printed) := by
  have run := Program.selfRun_of_reachable reached
  have descends := Program.descends_of_reachable simple.loops reached
  obtain ⟨t, here, root⟩ := descends.first
  have self_t : f.SelfSync t.submission.queue t.submission.block first := by rw [root]; exact self
  obtain ⟨unfinished, printed, later⟩ := run.never_past here self_t (simple.straight _)
  have queued : ∀ j v, 0 < j → s.tasks[j]? = some v → v.phase = .queued := by
    intro j v pos there
    obtain ⟨i, w, x, -, -, member, named⟩ := descends.parent j v pos there
    exact later j v pos there (by rw [main_only _ x member _ named, root])
  have all_own : s.log.filter (·.1 = 0) = s.log := by
    rw [List.filter_eq_self]
    intro e there
    obtain ⟨a, at_e, awake⟩ := run.ordered.logged e there
    by_contra other
    exact awake (queued e.1 a (Nat.pos_of_ne_zero (by simpa using other)) at_e)
  rw [all_own] at printed
  refine ⟨⟨t, here, unfinished⟩, queued, printed, fun stuck => ?_⟩
  rw [← all_own]
  exact run.printed_of_stuck (Program.untrapped_of_reachable simple.leaves reached)
    stuck here self_t
    (simple.straight _) rfl

theorem deadLock1_simple : Simple deadLock1 := by
  constructor <;> intro b x there <;> cases b with
    | function =>
        simp only [deadLock1, List.mem_cons, List.not_mem_nil, or_false] at there
        rcases there with rfl | rfl | rfl <;> first | rfl | simp
    | block n =>
        cases n with
        | zero =>
            obtain rfl := List.mem_singleton.mp there
            first | rfl | simp
        | succ n => cases there

theorem mainQueueMainThreadSync_simple : Simple (mainQueueMainThreadSync thread) := by
  constructor <;> intro b x there <;> cases b with
    | function =>
        simp only [mainQueueMainThreadSync, List.mem_cons, List.not_mem_nil, or_false] at there
        rcases there with rfl | rfl | rfl | rfl | rfl <;> first | rfl | simp
    | block n =>
        rcases n with - | - | n
        · simp only [mainQueueMainThreadSync, List.mem_cons, List.not_mem_nil, or_false] at there
          rcases there with rfl | rfl <;> first | rfl | simp
        · simp only [mainQueueMainThreadSync, List.mem_cons, List.not_mem_nil, or_false] at there
          rcases there with rfl | rfl <;> first | rfl | simp
        · cases there

/-- `deadLock1` prints 1 and hangs. -/
theorem deadLock1_hangs (reached : deadLock1.machine.Reachable (deadLock1.begin ()) s) :
    (∃ t, s.tasks[0]? = some t ∧ t.phase ≠ .finished) ∧
      (∀ j v, 0 < j → s.tasks[j]? = some v → v.phase = .queued) ∧
      s.log.map Prod.snd <+: ["1"] ∧ (deadLock1.Stuck s → s.log.map Prod.snd = ["1"]) := by
  refine hangs deadLock1 [.print "1"] deadLock1_simple ⟨rfl, ?_, ⟨_, _, rfl⟩⟩ ?_ reached
  · intro x there
    obtain rfl := List.mem_singleton.mp there
    exact ⟨rfl, rfl⟩
  · intro b x there n named
    cases b with
    | function =>
        simp only [deadLock1, List.mem_cons, List.not_mem_nil, or_false] at there
        rcases there with rfl | rfl | rfl <;> cases named
        rfl
    | block n =>
        cases n with
        | zero =>
            obtain rfl := List.mem_singleton.mp there
            cases named
        | succ n => cases there

/-- `mainQueueMainThreadSync` prints its thread, begins and hangs, if the main thread runs
    it. -/
theorem mainQueueMainThreadSync_hangs (thread : Block → String)
    (reached : (mainQueueMainThreadSync thread).machine.Reachable
      ((mainQueueMainThreadSync thread).begin ()) s) :
    (∃ t, s.tasks[0]? = some t ∧ t.phase ≠ .finished) ∧
      (∀ j v, 0 < j → s.tasks[j]? = some v → v.phase = .queued) ∧
      s.log.map Prod.snd <+: ["current thread: " ++ thread .function, "begin task"] ∧
      ((mainQueueMainThreadSync thread).Stuck s →
        s.log.map Prod.snd = ["current thread: " ++ thread .function, "begin task"]) := by
  refine hangs (mainQueueMainThreadSync thread)
    [.print ("current thread: " ++ thread .function), .print "begin task"]
    mainQueueMainThreadSync_simple ⟨rfl, ?_, ⟨_, _, rfl⟩⟩ ?_ reached
  · intro x there
    simp only [List.mem_cons, List.not_mem_nil, or_false] at there
    rcases there with rfl | rfl <;> exact ⟨rfl, rfl⟩
  · intro b x there n named
    cases b with
    | function =>
        simp only [mainQueueMainThreadSync, List.mem_cons, List.not_mem_nil, or_false] at there
        rcases there with rfl | rfl | rfl | rfl | rfl <;> cases named <;> rfl
    | block n =>
        rcases n with - | - | n
        · simp only [mainQueueMainThreadSync, List.mem_cons, List.not_mem_nil, or_false] at there
          rcases there with rfl | rfl <;> cases named
        · simp only [mainQueueMainThreadSync, List.mem_cons, List.not_mem_nil, or_false] at there
          rcases there with rfl | rfl <;> cases named
        · cases there

/-- The main thread at the first wait of `mainQueueMainThreadSync`. -/
theorem mainQueueMainThreadSync_hangs_waiting :
    let thread : Block → String := fun _ => "main"
    ∃ s, (mainQueueMainThreadSync thread).machine.run
        ((mainQueueMainThreadSync thread).begin ()) [0, 0, 0] = some s ∧
      s.log.map Prod.snd = ["current thread: main", "begin task"] ∧
      (mainQueueMainThreadSync thread).step s 0 = none ∧
      (mainQueueMainThreadSync thread).step s 1 = none ∧
      (∃ t, s.tasks[0]? = some t ∧ t.phase ≠ .finished) ∧
      (∀ j v, 0 < j → s.tasks[j]? = some v → v.phase = .queued) ∧
      s.log.map Prod.snd <+: ["current thread: main", "begin task"] ∧
      ((mainQueueMainThreadSync thread).Stuck s →
        s.log.map Prod.snd = ["current thread: main", "begin task"]) :=
  ⟨_, rfl, rfl, rfl, rfl, mainQueueMainThreadSync_hangs (fun _ => "main") ⟨[0, 0, 0], rfl⟩⟩

/-- The same tasks come in order if another thread runs the function, as that of
    `mainQueueOtherThreadSync` does. -/
theorem customThreadFunc_prints
    (reached : (customThreadFunc thread).machine.Reachable
      ((customThreadFunc thread).start () (fun _ => 0) .getGlobalQueue .function) s) :
    let lines := ["current thread: " ++ thread .function, "begin task",
      "current thread: " ++ thread (.block 0), "task 1",
      "current thread: " ++ thread (.block 1), "task 2", "end task"]
    s.log.map Prod.snd <+: lines ∧
      ((customThreadFunc thread).Stuck s → s.log.map Prod.snd = lines) := by
  have prints : ∀ b, ∀ x ∈ (customThreadFunc thread).body (.block b), ∃ z, x = .print z := by
    intro b x there
    rcases b with - | - | b
    · simp only [customThreadFunc, mainQueueMainThreadSync, List.mem_cons, List.not_mem_nil,
        or_false] at there
      rcases there with rfl | rfl <;> exact ⟨_, rfl⟩
    · simp only [customThreadFunc, mainQueueMainThreadSync, List.mem_cons, List.not_mem_nil,
        or_false] at there
      rcases there with rfl | rfl <;> exact ⟨_, rfl⟩
    · cases there
  refine Program.calls_inline ?_ reached
  intro x there
  simp only [customThreadFunc, mainQueueMainThreadSync, List.mem_cons, List.not_mem_nil,
    or_false] at there
  rcases there with rfl | rfl | rfl | rfl | rfl
  · exact .print _
  · exact .print _
  · exact .sync rfl (prints 0)
  · exact .sync rfl (prints 1)
  · exact .print _

/-- The tasks of a queue other than the main queue come in order between the lines of
    the function. -/
theorem syncTasks_prints (thread : Block → String) {queue : Queue} (other : queue ≠ .getMainQueue)
    (reached : (syncTasks thread queue).machine.Reachable ((syncTasks thread queue).begin ()) s) :
    s.log.map Prod.snd <+: syncLines thread ∧
      ((syncTasks thread queue).Stuck s → s.log.map Prod.snd = syncLines thread) := by
  refine Program.calls_inline ?_ reached
  have free : ∀ b, (syncTasks thread queue).apart ⟨.getMainQueue, false, .function⟩
      ⟨queue, false, b⟩ = false := by
    intro b
    simp [Program.apart, other.symm]
  intro x there
  simp only [syncTasks, List.mem_cons, List.not_mem_nil, or_false] at there
  rcases there with rfl | rfl | rfl | rfl | rfl | rfl
  · exact .print _
  · exact .print _
  · exact .sync (free _) fun y y_there => ⟨_, List.mem_singleton.mp y_there⟩
  · exact .sync (free _) fun y y_there => ⟨_, List.mem_singleton.mp y_there⟩
  · exact .sync (free _) fun y y_there => ⟨_, List.mem_singleton.mp y_there⟩
  · exact .print _

/-- The second task of `serialSync` after the first. -/
theorem syncTasks_prints_second :
    let thread : Block → String := fun _ => "main"
    ∃ s, (serialSync thread).machine.run ((serialSync thread).begin ())
        [0, 0, 0, 1, 1, 1, 0, 2, 2] = some s ∧
      s.log.map Prod.snd = ["current thread: main", "begin task", "task 1, current thread: main",
        "task 2, current thread: main"] ∧
      s.log.map Prod.snd <+: syncLines thread ∧
      ((serialSync thread).Stuck s → s.log.map Prod.snd = syncLines thread) :=
  ⟨_, rfl, rfl, syncTasks_prints (fun _ => "main")
    (show Queue.createSerialQueue ≠ .getMainQueue from nofun) ⟨[0, 0, 0, 1, 1, 1, 0, 2, 2], rfl⟩⟩

theorem deadLock2_simple : Simple deadLock2 := by
  constructor <;> intro b x there <;> cases b with
    | function =>
        simp only [deadLock2, List.mem_cons, List.not_mem_nil, or_false] at there
        rcases there with rfl | rfl | rfl <;> first | rfl | simp
    | block n =>
        rcases n with - | - | n
        · simp only [deadLock2, List.mem_cons, List.not_mem_nil, or_false] at there
          rcases there with rfl | rfl | rfl <;> first | rfl | simp
        · obtain rfl := List.mem_singleton.mp there
          first | rfl | simp
        · cases there

theorem deadLock2_selfSync : deadLock2.SelfSync .createSerialQueue (.block 0) [.print "2"] := by
  refine ⟨rfl, ?_, ⟨_, _, rfl⟩⟩
  intro x there
  obtain rfl := List.mem_singleton.mp there
  exact ⟨rfl, rfl⟩

theorem deadLock2_names {b : Block} {x : Instr Unit String Queue Unit Unit Block}
    (there : x ∈ deadLock2.body b) {n : Submission Queue Block} (named : Program.Names x n) :
    b = .function ∧ n = ⟨.createSerialQueue, false, .block 0⟩ ∨
      b = .block 0 ∧ n = ⟨.createSerialQueue, false, .block 1⟩ := by
  match b with
  | .function =>
      simp only [deadLock2, List.mem_cons, List.not_mem_nil, or_false] at there
      rcases there with rfl | rfl | rfl <;> cases named
      exact .inl ⟨rfl, rfl⟩
  | .block 0 =>
      simp only [deadLock2, List.mem_cons, List.not_mem_nil, or_false] at there
      rcases there with rfl | rfl | rfl <;> cases named
      exact .inr ⟨rfl, rfl⟩
  | .block 1 =>
      obtain rfl := List.mem_singleton.mp there
      cases named
  | .block (n + 2) => cases there

/-- A task of `deadLock2` is the function, its block, or the block of this one; the second
    one is the block. -/
theorem deadLock2_task (descends : Program.Descends deadLock2 ⟨.getMainQueue, false, .function⟩ s)
    {j : ℕ} {v : WorkItem Unit String Queue Unit Unit Block} (there : s.tasks[j]? = some v) :
    j = 0 ∧ v.submission = ⟨.getMainQueue, false, .function⟩ ∨
      j = 1 ∧ v.submission = ⟨.createSerialQueue, false, .block 0⟩ ∨
      1 < j ∧ v.submission.queue = .createSerialQueue := by
  rcases j with - | - | j
  · obtain ⟨t, first, root⟩ := descends.first
    obtain rfl : v = t := Option.some.inj (there.symm.trans first)
    exact .inl ⟨rfl, root⟩
  · obtain ⟨i, t, x, lt, at_i, member, named⟩ := descends.parent 1 v Nat.one_pos there
    obtain rfl := Nat.lt_one_iff.mp lt
    obtain ⟨t', first, root⟩ := descends.first
    obtain rfl : t = t' := Option.some.inj (at_i.symm.trans first)
    rcases deadLock2_names member named with ⟨-, eq⟩ | ⟨other, -⟩
    · exact .inr (.inl ⟨rfl, eq⟩)
    · rw [root] at other
      cases other
  · obtain ⟨i, t, x, lt, at_i, member, named⟩ := descends.parent (j + 2) v (Nat.succ_pos _) there
    refine .inr (.inr ⟨by omega, ?_⟩)
    rcases deadLock2_names member named with ⟨-, eq⟩ | ⟨-, eq⟩ <;> rw [eq]

/-- The block of `deadLock2`, and nothing after it starts. -/
theorem deadLock2_block (run : Program.SelfRun deadLock2 s)
    (descends : Program.Descends deadLock2 ⟨.getMainQueue, false, .function⟩ s)
    {v : WorkItem Unit String Queue Unit Unit Block} (there : s.tasks[1]? = some v) :
    v.phase ≠ .finished ∧ (s.log.filter (·.1 = 1)).map Prod.snd <+: ["2"] ∧
      ∀ k w, 1 < k → s.tasks[k]? = some w → w.phase = .queued := by
  have submission : v.submission = ⟨.createSerialQueue, false, .block 0⟩ := by
    rcases deadLock2_task descends there with ⟨zero, -⟩ | ⟨-, eq⟩ | ⟨lt, -⟩
    · cases zero
    · exact eq
    · exact absurd lt (Nat.lt_irrefl 1)
  have self : deadLock2.SelfSync v.submission.queue v.submission.block [.print "2"] := by
    rw [submission]
    exact deadLock2_selfSync
  obtain ⟨unfinished, printed, later⟩ := run.never_past there self (deadLock2_simple.straight _)
  refine ⟨unfinished, printed, fun k w lt at_k => later k w lt at_k ?_⟩
  rcases deadLock2_task descends at_k with ⟨rfl, -⟩ | ⟨rfl, -⟩ | ⟨-, queue⟩
  · cases lt
  · exact absurd lt (Nat.lt_irrefl 1)
  · rw [queue, submission]

/-- Only the function and its block print. -/
theorem deadLock2_logged (run : Program.SelfRun deadLock2 s)
    (descends : Program.Descends deadLock2 ⟨.getMainQueue, false, .function⟩ s) :
    ∀ e ∈ s.log, e.1 = 0 ∨ e.1 = 1 := by
  intro e logged
  obtain ⟨a, at_e, awake⟩ := run.ordered.logged e logged
  by_contra neither
  have within := (List.getElem?_eq_some_iff.mp at_e).1
  have second : s.tasks[1]? = some s.tasks[1] := List.getElem?_eq_getElem (by omega)
  exact awake ((deadLock2_block run descends second).2.2 e.1 a (by omega) at_e)

/-- When nothing can go on, the function has ended and its block has printed its first
    line. -/
theorem deadLock2_stuck (reached : deadLock2.machine.Reachable (deadLock2.begin ()) s)
    (stuck : deadLock2.Stuck s) :
    (∃ t, s.tasks[0]? = some t ∧ t.phase = .finished) ∧
      (s.log.filter (·.1 = 0)).map Prod.snd = ["1", "5"] ∧
      (s.log.filter (·.1 = 1)).map Prod.snd = ["2"] := by
  have run := Program.selfRun_of_reachable reached
  have tracked := Program.tracked_of_reachable deadLock2_simple.loops reached
  have untrapped := Program.untrapped_of_reachable deadLock2_simple.leaves reached
  obtain ⟨t, first, root⟩ := tracked.first
  have free : ∀ x ∈ deadLock2.body t.submission.block, x.blocks = false := by
    rw [root]
    intro x there
    simp only [deadLock2, List.mem_cons, List.not_mem_nil, or_false] at there
    rcases there with rfl | rfl | rfl <;> rfl
  have ended := tracked.finished_of_stuck untrapped stuck first free rfl
  have done := run.ended t (List.mem_of_getElem? first) ended
  have own : (s.log.filter (·.1 = 0)).map Prod.snd = ["1", "5"] := by
    obtain ⟨all, split, out, -, -⟩ := run.written 0 t first (deadLock2_simple.straight _)
    rw [out]
    rw [done, List.append_nil, root] at split
    rw [← split]
    rfl
  -- the block has been submitted and nothing before it keeps it from its start
  obtain ⟨v, there⟩ : ∃ v, s.tasks[1]? = some v := by
    have member : Instr.async .createSerialQueue false (.block 0) ∈
        deadLock2.body t.submission.block := by
      rw [root]
      simp [deadLock2]
    rcases tracked.spawned t (List.mem_of_getElem? first) _ member _ rfl with left |
      ⟨v, v_there, same⟩
    · rw [done] at left
      cases left
    · obtain ⟨k, at_k⟩ := List.mem_iff_getElem?.mp v_there
      have within := (List.getElem?_eq_some_iff.mp at_k).1
      cases k with
      | zero =>
          obtain rfl : t = v := Option.some.inj (first.symm.trans at_k)
          rw [root] at same
          cases same
      | succ k => exact ⟨_, List.getElem?_eq_getElem (by omega)⟩
  have submission : v.submission = ⟨.createSerialQueue, false, .block 0⟩ := by
    rcases deadLock2_task tracked.toDescends there with ⟨zero, -⟩ | ⟨-, eq⟩ | ⟨lt, -⟩
    · cases zero
    · exact eq
    · exact absurd lt (Nat.lt_irrefl 1)
  have self : deadLock2.SelfSync v.submission.queue v.submission.block [.print "2"] := by
    rw [submission]
    exact deadLock2_selfSync
  have started : deadLock2.mayStart s 1 v := by
    obtain ⟨rest, tasks⟩ : ∃ rest, s.tasks = t :: rest := by
      cases tasks : s.tasks with
      | nil => simp [tasks] at first
      | cons w rest =>
          obtain rfl : w = t := by simpa [tasks] using first
          exact ⟨rest, rfl⟩
    simp [Program.mayStart, tasks, Program.apart, root, submission]
  exact ⟨⟨t, first, ended⟩, own,
    run.printed_of_stuck untrapped stuck there self (deadLock2_simple.straight _) started⟩

/-- `deadLock2` prints 1 and 5 and ends, but its block prints 2 and hangs on the serial
    queue, so 3 and 4 never come. -/
theorem deadLock2_hangs (reached : deadLock2.machine.Reachable (deadLock2.begin ()) s) :
    (s.log.filter (·.1 = 0)).map Prod.snd <+: ["1", "5"] ∧
      (s.log.filter (·.1 ≠ 0)).map Prod.snd <+: ["2"] ∧
      (∀ t ∈ s.tasks, t.submission.queue = .createSerialQueue →
        t.phase ≠ .finished ∧ (t.submission.block = .block 1 → t.phase = .queued)) ∧
      (deadLock2.Stuck s →
        (∃ t, s.tasks[0]? = some t ∧ t.phase = .finished) ∧
          (s.log.filter (·.1 = 0)).map Prod.snd = ["1", "5"] ∧
          (s.log.filter (·.1 ≠ 0)).map Prod.snd = ["2"]) := by
  have run := Program.selfRun_of_reachable reached
  have descends := Program.descends_of_reachable deadLock2_simple.loops reached
  have others : s.log.filter (·.1 ≠ 0) = s.log.filter (·.1 = 1) := by
    apply List.filter_congr
    intro e logged
    rcases deadLock2_logged run descends e logged with zero | one
    · simp [zero]
    · simp [one]
  rw [others]
  refine ⟨?_, ?_, ?_, deadLock2_stuck reached⟩
  · obtain ⟨t, first, root⟩ := descends.first
    have own := run.written.own_lines first (deadLock2_simple.straight _)
    rw [root] at own
    exact own
  · cases second : s.tasks[1]? with
    | some v => exact (deadLock2_block run descends second).2.1
    | none =>
        have nothing : s.log.filter (·.1 = 1) = [] := by
          rw [List.filter_eq_nil_iff]
          intro e logged one
          obtain ⟨a, at_e, -⟩ := run.ordered.logged e logged
          rw [of_decide_eq_true one, second] at at_e
          cases at_e
        rw [nothing]
        exact List.nil_prefix
  · intro t there queue
    obtain ⟨j, at_j⟩ := List.mem_iff_getElem?.mp there
    have within := (List.getElem?_eq_some_iff.mp at_j).1
    rcases deadLock2_task descends at_j with ⟨-, eq⟩ | ⟨rfl, eq⟩ | ⟨lt, -⟩
    · rw [eq] at queue
      cases queue
    · refine ⟨(deadLock2_block run descends at_j).1, fun same => ?_⟩
      rw [eq] at same
      cases same
    · have second : s.tasks[1]? = some s.tasks[1] := List.getElem?_eq_getElem (by omega)
      have queued := (deadLock2_block run descends second).2.2 j t lt at_j
      exact ⟨by simp [queued], fun _ => queued⟩

/-- The run in which the block comes to its wait after the function has ended. -/
theorem deadLock2_hangs_stuck :
    ∃ s, deadLock2.machine.run (deadLock2.begin ()) [0, 0, 0, 0, 1, 1, 1] = some s ∧
      s.log.map Prod.snd = ["1", "5", "2"] ∧ deadLock2.step s 1 = none ∧
      deadLock2.step s 2 = none ∧
      (s.log.filter (·.1 = 0)).map Prod.snd <+: ["1", "5"] ∧
      (s.log.filter (·.1 ≠ 0)).map Prod.snd <+: ["2"] ∧
      (∀ t ∈ s.tasks, t.submission.queue = .createSerialQueue →
        t.phase ≠ .finished ∧ (t.submission.block = .block 1 → t.phase = .queued)) ∧
      (deadLock2.Stuck s →
        (∃ t, s.tasks[0]? = some t ∧ t.phase = .finished) ∧
          (s.log.filter (·.1 = 0)).map Prod.snd = ["1", "5"] ∧
          (s.log.filter (·.1 ≠ 0)).map Prod.snd = ["2"]) :=
  ⟨_, rfl, rfl, rfl, rfl, deadLock2_hangs ⟨[0, 0, 0, 0, 1, 1, 1], rfl⟩⟩

end LearningProjects.GCD.SyncTasks
