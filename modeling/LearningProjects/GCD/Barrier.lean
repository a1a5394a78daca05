import LearningProjects.Dispatch

/-! # Blocks side by side and a barrier between them

`barrierAsync` puts three blocks on a concurrent queue, a barrier, and three more blocks.
-/

namespace LearningProjects.GCD

open Dispatch

/-- The queues by the functions of `GCDTool` that give them. -/
inductive Queue where
  | getMainQueue
  | getGlobalQueue
  | createConcurrentQueue
  | createSerialQueue
  deriving DecidableEq, Repr

def Queue.discipline : Queue → Discipline
  | .getMainQueue | .createSerialQueue => .serial
  | .createConcurrentQueue => .concurrent
  | .getGlobalQueue => .global

/-- The function itself, and its blocks in the order of the source. -/
inductive Block where
  | function
  | block (n : ℕ)
  deriving DecidableEq, Repr

/-- A program of the view controller, with one semaphore and one group at most. -/
abbrev Function (σ : Type) := Program σ String Queue Unit Unit Block

/-- The main thread runs the function. -/
def Function.begin {σ : Type} (f : Function σ) (store : σ) :
    State σ String Queue Unit Unit Block := f.start store (fun _ => 0) .getMainQueue .function

/-- What a block prints: its thread and a line. -/
def lines (thread : Block → String) (n : ℕ) (text : String) : List String :=
  ["thread: " ++ thread (.block n), text]

namespace Barrier

/-- `thread` describes the thread on which a block runs. -/
def barrierAsync (thread : Block → String) : Function Unit where
  discipline := Queue.discipline
  body
    | .function => [
        .async .createConcurrentQueue false (.block 1),
        .async .createConcurrentQueue false (.block 2),
        .async .createConcurrentQueue false (.block 3),
        .async .createConcurrentQueue true (.block 4),
        .async .createConcurrentQueue false (.block 5),
        .async .createConcurrentQueue false (.block 6),
        .async .createConcurrentQueue false (.block 7)]
    | .block 1 => (lines thread 1 "task 1").map .print
    | .block 2 => (lines thread 2 "task 2").map .print
    | .block 3 => (lines thread 3 "task 3").map .print
    | .block 4 => (lines thread 4 "task 1-3 执行结束").map .print
    | .block 5 => (lines thread 5 "task 4").map .print
    | .block 6 => (lines thread 6 "task 5").map .print
    | .block 7 => (lines thread 7 "task 6").map .print
    | .block _ => []

/-- Before the barrier, the barrier, and after it. -/
def rank (task : ℕ) : ℕ := if task < 4 then 0 else if task = 4 then 1 else 2

theorem rank_lt (task : ℕ) : rank task < 3 := by
  unfold rank
  split_ifs <;> omega

variable {thread : Block → String}

theorem block_body (n : ℕ) :
    ∃ x : List String, (barrierAsync thread).body (.block n) = x.map .print := by
  match n with
  | 1 | 2 | 3 | 4 | 5 | 6 | 7 => exact ⟨_, rfl⟩
  | 0 | n + 8 => exact ⟨[], rfl⟩

theorem submits : (barrierAsync thread).Submits .function where
  others b other x there := by
    cases b with
    | function => exact absurd rfl other
    | block n =>
        obtain ⟨texts, body⟩ := block_body n
        rw [body, List.mem_map] at there
        obtain ⟨text, -, rfl⟩ := there
        rfl
  own x there := by
    refine .inr ?_
    simp only [barrierAsync, List.mem_cons, List.not_mem_nil, or_false] at there
    rcases there with rfl | rfl | rfl | rfl | rfl | rfl | rfl <;> exact ⟨⟨_, _, _⟩, rfl, nofun⟩

theorem straight (b : Block) : ∀ x ∈ (barrierAsync thread).body b, x.straight := by
  intro x there
  cases b with
  | function =>
      simp only [barrierAsync, List.mem_cons, List.not_mem_nil, or_false] at there
      rcases there with rfl | rfl | rfl | rfl | rfl | rfl | rfl <;> rfl
  | block n =>
      obtain ⟨texts, body⟩ := block_body n
      rw [body, List.mem_map] at there
      obtain ⟨text, -, rfl⟩ := there
      rfl

def weight : Block → ℕ
  | .function => 37
  | .block _ => 4

theorem enough (b : Block) :
    (((barrierAsync thread).body b).map (Instr.cost weight)).sum + 2 ≤ weight b := by
  match b with
  | .function | .block 1 | .block 2 | .block 3 | .block 4 | .block 5 | .block 6 | .block 7 =>
      exact Nat.le_refl _
  | .block 0 | .block (n + 8) => exact Nat.le_add_left 2 2

variable {s : State Unit String Queue Unit Unit Block}

def blocks : List (Submission Queue Block) :=
  (List.range 7).map fun k => ⟨.createConcurrentQueue, k == 3, .block (k + 1)⟩

variable {n : Submission Queue Block}

theorem before_barrier (tasks : s.tasks.map WorkItem.submission = n :: blocks) {k : ℕ}
    (pos : 0 < k) (le : k < 4) : (barrierAsync thread).Before s k 4 :=
  Program.before_of_submissions tasks le (a := ⟨.createConcurrentQueue, false, .block k⟩)
    (b := ⟨.createConcurrentQueue, true, .block 4⟩)
    (by rcases (by omega : k = 1 ∨ k = 2 ∨ k = 3) with rfl | rfl | rfl <;> rfl) rfl rfl

theorem after_barrier (tasks : s.tasks.map WorkItem.submission = n :: blocks) {k : ℕ}
    (after : 4 < k) (le : k < 8) : (barrierAsync thread).Before s 4 k :=
  Program.before_of_submissions tasks after (a := ⟨.createConcurrentQueue, true, .block 4⟩)
    (b := ⟨.createConcurrentQueue, false, .block k⟩) rfl
    (by rcases (by omega : k = 5 ∨ k = 6 ∨ k = 7) with rfl | rfl | rfl <;> rfl) rfl

theorem chain_of_rank (tasks : s.tasks.map WorkItem.submission = n :: blocks) {i j : ℕ}
    (pos : 0 < i) (le : j < 8) (lt : rank i < rank j) :
    Relation.TransGen ((barrierAsync thread).Before s) i j := by
  have around : i ≤ 4 ∧ 4 ≤ j ∧ i < j := by
    unfold rank at lt
    split_ifs at lt <;> omega
  by_cases first : i = 4
  · subst first
    exact .single (after_barrier tasks around.2.2 le)
  · have to_barrier : Relation.TransGen ((barrierAsync thread).Before s) i 4 :=
      .single (before_barrier tasks pos (by omega))
    by_cases last : j = 4
    · subst last
      exact to_barrier
    · exact to_barrier.tail (after_barrier tasks (by omega) le)

/-- What the blocks print is all on the queue's side of the barrier where they were put. -/
theorem barrierAsync_complete
    (reached : (barrierAsync thread).machine.Reachable ((barrierAsync thread).begin ()) s)
    (stuck : (barrierAsync thread).Stuck s) :
    ∃ before after,
      s.log.map Prod.snd = before ++ lines thread 4 "task 1-3 执行结束" ++ after ∧
      before.Perm (lines thread 1 "task 1" ++ lines thread 2 "task 2" ++ lines thread 3 "task 3") ∧
      after.Perm (lines thread 5 "task 4" ++ lines thread 6 "task 5" ++
        lines thread 7 "task 6") := by
  have run := submits.run reached
  obtain ⟨t, later, tasks, block, subs, printed⟩ := run.complete straight stuck
  have submitted : s.tasks.map WorkItem.submission = t.submission :: blocks := by
    rw [tasks, List.map_cons, subs]
    rfl
  have at_k : ∀ k < 7, ∃ v, s.tasks[k + 1]? = some v ∧ v.submission.block = .block (k + 1) := by
    intro k lt
    have there : (s.tasks.map WorkItem.submission)[k + 1]? =
        some ⟨.createConcurrentQueue, k == 3, .block (k + 1)⟩ := by
      simp [submitted, blocks, lt]
    rw [List.getElem?_map, Option.map_eq_some_iff] at there
    obtain ⟨v, v_there, same⟩ := there
    exact ⟨v, v_there, by rw [same]⟩
  have outputs : ∀ k < 7, (s.log.filter (·.1 = k + 1)).map Prod.snd =
      ((barrierAsync thread).body (.block (k + 1))).filterMap Instr.printed := by
    intro k lt
    obtain ⟨v, v_there, same⟩ := at_k k lt
    rw [printed (k + 1) v v_there, same]
  have numbers : ∀ e ∈ s.log, 0 < e.1 ∧ e.1 < 8 := by
    intro e there
    constructor
    · by_contra zero
      have nothing : (s.log.filter (·.1 = 0)).map Prod.snd = [] := by
        rw [printed 0 t (by simp [tasks]), block]
        rfl
      rw [List.map_eq_nil_iff, List.filter_eq_nil_iff] at nothing
      exact nothing e there (by simpa using zero)
    · obtain ⟨a, at_e, -⟩ := run.ordered.logged e there
      have within := (List.getElem?_eq_some_iff.mp at_e).1
      have count := congrArg List.length submitted
      simp [blocks] at count
      omega
  have ranked := run.ranked (fun e _ => rank_lt e.1)
    fun e e_there f f_there => chain_of_rank submitted (numbers e e_there).1 (numbers f f_there).2
  have ranks : ∀ e ∈ s.log, (rank e.1 = 0 ↔ e.1 ∈ [1, 2, 3]) ∧ (rank e.1 = 1 ↔ e.1 ∈ [4]) ∧
      (rank e.1 = 2 ↔ e.1 ∈ [5, 6, 7]) := by
    intro e there
    obtain ⟨pos, le⟩ := numbers e there
    rcases (by omega : e.1 = 1 ∨ e.1 = 2 ∨ e.1 = 3 ∨ e.1 = 4 ∨ e.1 = 5 ∨ e.1 = 6 ∨ e.1 = 7) with
      same | same | same | same | same | same | same <;> rw [same] <;> decide
  have first := filter_rank_perm [1, 2, 3] (by decide) fun e there => (ranks e there).1
  have last := filter_rank_perm [5, 6, 7] (by decide) fun e there => (ranks e there).2.2
  simp only [List.flatMap_cons, List.flatMap_nil, List.append_nil, outputs 0 (by decide),
    outputs 1 (by decide), outputs 2 (by decide)] at first
  simp only [List.flatMap_cons, List.flatMap_nil, List.append_nil, outputs 4 (by decide),
    outputs 5 (by decide), outputs 6 (by decide)] at last
  have barrier : (s.log.filter (rank ·.1 = 1)).map Prod.snd =
      lines thread 4 "task 1-3 执行结束" := by
    have same : s.log.filter (rank ·.1 = 1) = s.log.filter (·.1 = 4) :=
      List.filter_congr fun e there => by simp [(ranks e there).2.1]
    rw [same]
    exact outputs 3 (by decide)
  refine ⟨_, _, ?_, first, last⟩
  have pieces : s.log = s.log.filter (rank ·.1 = 0) ++ (s.log.filter (rank ·.1 = 1) ++
      s.log.filter (rank ·.1 = 2)) := by
    conv_lhs => rw [ranked]
    simp [List.range_succ]
  conv_lhs => rw [pieces, List.map_append, List.map_append, barrier]
  rw [← List.append_assoc]

/-- Every run of `barrierAsync` ends. A block prints its lines in their order, and whatever
    was printed on the way goes on to the lines of three blocks in any order, the lines of
    the barrier, and those of three more blocks in any order. -/
theorem barrierAsync_prints (thread : Block → String) {is : List ℕ}
    (run : (barrierAsync thread).machine.run ((barrierAsync thread).begin ()) is = some s) :
    is.length ≤ 36 ∧
      (∀ k v, s.tasks[k]? = some v → (s.log.filter (·.1 = k)).map Prod.snd <+:
        ((barrierAsync thread).body v.submission.block).filterMap Instr.printed) ∧
      ∃ before after,
        before.Perm (lines thread 1 "task 1" ++ lines thread 2 "task 2" ++
          lines thread 3 "task 3") ∧
        after.Perm (lines thread 5 "task 4" ++ lines thread 6 "task 5" ++
          lines thread 7 "task 6") ∧
        s.log.map Prod.snd <+: before ++ lines thread 4 "task 1-3 执行结束" ++ after ∧
        ((barrierAsync thread).Stuck s →
          s.log.map Prod.snd = before ++ lines thread 4 "task 1-3 执行结束" ++ after) := by
  have loopless : ∀ b, ∀ x ∈ (barrierAsync thread).body b, x.loops = false := fun b x there =>
    (submits.plain b there).2
  have only : ((barrierAsync thread).begin ()).Only fun x => x.loops = false := by
    intro t there x x_there
    obtain rfl := List.mem_singleton.mp there
    exact loopless .function x x_there
  refine ⟨Program.length_run_le enough loopless only run,
    fun k v there => (submits.run ⟨is, run⟩).written.own_lines there (straight _), ?_⟩
  have only_s := (barrierAsync thread).machine.run_invariant
    (fun _ _ _ kept stepped => Program.only_step loopless kept stepped) run only
  obtain ⟨js, u, more, stuck, longer, same⟩ := Program.exists_stuck enough loopless only_s
  obtain ⟨before, after, out, before_perm, after_perm⟩ :=
    barrierAsync_complete ⟨is ++ js, (barrierAsync thread).machine.run_append run more⟩ stuck
  refine ⟨before, after, before_perm, after_perm, ?_, fun ended => ?_⟩
  · rw [← out]
    exact longer.map Prod.snd
  · rw [← out, same ended]

/-- The second block prints before the first one has started. -/
theorem barrierAsync_prints_overtaking :
    let thread : Block → String := fun _ => "worker"
    ∃ s, (barrierAsync thread).machine.run ((barrierAsync thread).begin ())
      [0, 0, 2, 2, 2] = some s ∧
      s.log = [(2, "thread: worker"), (2, "task 2")] ∧ [0, 0, 2, 2, 2].length ≤ 36 ∧
      (∀ k v, s.tasks[k]? = some v → (s.log.filter (·.1 = k)).map Prod.snd <+:
        ((barrierAsync thread).body v.submission.block).filterMap Instr.printed) ∧
      ∃ before after,
        before.Perm (lines thread 1 "task 1" ++ lines thread 2 "task 2" ++
          lines thread 3 "task 3") ∧
        after.Perm (lines thread 5 "task 4" ++ lines thread 6 "task 5" ++
          lines thread 7 "task 6") ∧
        s.log.map Prod.snd <+: before ++ lines thread 4 "task 1-3 执行结束" ++ after ∧
        ((barrierAsync thread).Stuck s →
          s.log.map Prod.snd = before ++ lines thread 4 "task 1-3 执行结束" ++ after) :=
  ⟨_, rfl, rfl, barrierAsync_prints (fun _ => "worker") rfl⟩

end Barrier

end LearningProjects.GCD
