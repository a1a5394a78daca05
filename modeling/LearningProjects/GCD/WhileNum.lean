import LearningProjects.GCD.Barrier
import Mathlib.Data.List.Induction

/-! # A loop that waits for what it has submitted

`whileNum` puts a block on the global queue in each round and waits for it at a semaphore.
The block reads `num` and writes it back in two steps.
-/

namespace LearningProjects.GCD.WhileNum

open Dispatch

/-- The variable, and what each task has read of it. -/
structure Memory where
  num : ℕ
  held : ℕ → ℕ

def load (task : ℕ) (memory : Memory) : Memory :=
  { memory with held := Function.update memory.held task memory.num }

def store (task : ℕ) (memory : Memory) : Memory := { memory with num := memory.held task + 1 }

def report (memory : Memory) : String := "num = " ++ toString memory.num

/-- `whileNum`, for any bound of the loop; in the source it is 5. The block 0 is the body of
    the loop. -/
def whileNum (bound : ℕ) : Function Memory where
  discipline := Queue.discipline
  body
    | .function => [.repeatWhile (fun memory => memory.num < bound) (.block 0), .printWith report]
    | .block 0 => [.async .getGlobalQueue false (.block 1), .wait ()]
    | .block 1 => [.act load, .act store, .signal ()]
    | .block _ => []

def start : Memory := ⟨0, fun _ => 0⟩

variable {bound : ℕ} {s u : State Memory String Queue Unit Unit Block} {i : ℕ}

/-- What is left of the function when it comes back to the condition. -/
def loop (bound : ℕ) : List (Instr Memory String Queue Unit Unit Block) :=
  (whileNum bound).body .function

/-- How far the block of the round `n` is, with `num` and the count of the semaphore. -/
inductive Round (memory : Memory) (n : ℕ) :
    List (Instr Memory String Queue Unit Unit Block) → ℕ → Prop where
  | fresh (num : memory.num + 1 = n) : Round memory n [.act load, .act store, .signal ()] 0
  | read (num : memory.num + 1 = n) (held : memory.held n = memory.num) :
      Round memory n [.act store, .signal ()] 0
  | written (num : memory.num = n) : Round memory n [.signal ()] 0
  | signalled (num : memory.num = n) : Round memory n [] 1

/-- The queue of a task and what is left of it. -/
abbrev View := Queue × List (Instr Memory String Queue Unit Unit Block)

def view (t : WorkItem Memory String Queue Unit Unit Block) : View := (t.submission.queue, t.rest)

/-- Where the function is, with the blocks of the rounds so far, the count of the semaphore
    and the log. -/
inductive Position (bound : ℕ) (memory : Memory) :
    List (Instr Memory String Queue Unit Unit Block) → List View → ℕ →
      List (ℕ × String) → Prop where
  | condition {rounds : List View} (num : memory.num = rounds.length) (le : memory.num ≤ bound)
      (ended : ∀ v ∈ rounds, v.2 = []) : Position bound memory (loop bound) rounds 0 []
  | submit {rounds : List View} (num : memory.num = rounds.length) (lt : memory.num < bound)
      (ended : ∀ v ∈ rounds, v.2 = []) :
      Position bound memory
        (.async .getGlobalQueue false (.block 1) :: .wait () :: loop bound) rounds 0 []
  | waits {rounds : List View} {rest : List (Instr Memory String Queue Unit Unit Block)} {count : ℕ}
      (le : rounds.length + 1 ≤ bound) (ended : ∀ v ∈ rounds, v.2 = [])
      (round : Round memory (rounds.length + 1) rest count) :
      Position bound memory (.wait () :: loop bound) (rounds ++ [(.getGlobalQueue, rest)]) count []
  | report {rounds : List View} (num : memory.num = bound) (ended : ∀ v ∈ rounds, v.2 = []) :
      Position bound memory [.printWith report] rounds 0 []
  | done {rounds : List View} (num : memory.num = bound) (ended : ∀ v ∈ rounds, v.2 = []) :
      Position bound memory [] rounds 0 [(0, "num = " ++ toString bound)]

def Inv (bound : ℕ) (s : State Memory String Queue Unit Unit Block) : Prop :=
  s.trapped = false ∧ ∃ rest rounds, s.tasks.map view = (.getMainQueue, rest) :: rounds ∧
    Position bound s.store rest rounds (s.count ()) s.log

theorem map_set_view {v v' : WorkItem Memory String Queue Unit Unit Block}
    (here : s.tasks[i]? = some v) (same : view v' = view v) : (s.tasks.set i v').map view =
    s.tasks.map view := by
  obtain ⟨within, there⟩ := List.getElem?_eq_some_iff.mp here
  rw [List.map_set, same, ← there, ← List.map_set, List.set_getElem_self]

theorem map_exec_view (bound : ℕ) (s : State Memory String Queue Unit Unit Block) (i : ℕ)
    (v : WorkItem Memory String Queue Unit Unit Block)
    (x : Instr Memory String Queue Unit Unit Block)
    (rest : List (Instr Memory String Queue Unit Unit Block)) :
    ((whileNum bound).exec s i v x rest).tasks.map view =
      (s.tasks.map view).set i (v.submission.queue, (whileNum bound).next s x rest) ++
        (s.submits x).map fun n => (n.queue, (whileNum bound).body n.block) := by
  simp [Program.exec, view, Program.task, Function.comp_def]

section Steps

variable {v : WorkItem Memory String Queue Unit Unit Block}
  {x : Instr Memory String Queue Unit Unit Block}
  {rest next : List (Instr Memory String Queue Unit Unit Block)} {rounds : List View} {q : Queue}

/-- The function goes on. -/
theorem Inv.function (untrapped : s.trapped = false)
    (tasks : s.tasks.map view = (.getMainQueue, x :: rest) :: rounds)
    (position : Position bound s.store (x :: rest) rounds (s.count ()) s.log) (allowed : s.allows x)
    (queue : v.submission.queue = .getMainQueue) :
    Inv bound ((whileNum bound).exec s 0 v x rest) := by
  have views := map_exec_view bound s 0 v x rest
  rw [tasks, List.set_cons_zero, queue] at views
  generalize code_eq : x :: rest = code at position
  generalize count_eq : s.count () = count at position
  generalize log_eq : s.log = log at position
  cases position with
  | condition num le ended =>
      obtain ⟨rfl, rfl⟩ := List.cons.inj code_eq
      by_cases again : s.store.num < bound
      · refine ⟨untrapped, _, rounds, views.trans (List.append_nil _), ?_⟩
        simp only [Program.next, again, decide_true, if_true]
        change Position bound s.store _ rounds (s.count ()) s.log
        rw [count_eq, log_eq]
        exact .submit num again ended
      · refine ⟨untrapped, _, rounds, views.trans (List.append_nil _), ?_⟩
        simp only [Program.next, again, decide_false, Bool.false_eq_true, if_false]
        change Position bound s.store _ rounds (s.count ()) s.log
        rw [count_eq, log_eq]
        exact .report (by omega) ended
  | submit num lt ended =>
      obtain ⟨rfl, rfl⟩ := List.cons.inj code_eq
      have began : ((whileNum bound).exec s 0 v (.async .getGlobalQueue false (.block 1))
          (.wait () :: loop bound)).tasks.map view = (.getMainQueue, .wait () :: loop bound) ::
            (rounds ++ [(.getGlobalQueue, (whileNum bound).body (.block 1))]) := views
      refine ⟨untrapped, _, _, began, ?_⟩
      change Position bound s.store _ _ (s.count ()) s.log
      rw [count_eq, log_eq]
      exact .waits (by omega) ended (.fresh (by omega))
  | @waits old left _ le ended round =>
      obtain ⟨rfl, rfl⟩ := List.cons.inj code_eq
      -- the semaphore has been signalled, so the block of this round has come to its end
      simp only [State.allows, count_eq, decide_eq_true_eq] at allowed
      cases round with
      | signalled num =>
          refine ⟨untrapped, _, _, views.trans (List.append_nil _), ?_⟩
          change Position bound s.store _ _ (Function.update s.count () (s.count () - 1) ()) s.log
          rw [Function.update_self, count_eq, log_eq]
          refine .condition (by simpa using num) (by omega) ?_
          intro w there
          rw [List.mem_append, List.mem_singleton] at there
          cases there with
          | inl before => exact ended w before
          | inr last => rw [last]
      | _ => cases allowed
  | report num ended =>
      obtain ⟨rfl, rfl⟩ := List.cons.inj code_eq
      refine ⟨untrapped, _, rounds, views.trans (List.append_nil _), ?_⟩
      change Position bound s.store [] rounds (s.count ()) (s.log ++ [(0, WhileNum.report s.store)])
      rw [count_eq, log_eq, List.nil_append, WhileNum.report, num]
      exact .done num ended
  | done => cases code_eq

/-- The block of the last round goes on; all others have come to their ends. -/
theorem Inv.round (untrapped : s.trapped = false)
    (tasks : s.tasks.map view = (.getMainQueue, next) :: rounds)
    (position : Position bound s.store next rounds (s.count ()) s.log) {k : ℕ}
    (there : rounds[k]? = some (v.submission.queue, x :: rest)) :
    Inv bound ((whileNum bound).exec s (k + 1) v x rest) := by
  have views := map_exec_view bound s (k + 1) v x rest
  rw [tasks, List.set_cons_succ] at views
  have not_ended : ¬∀ w ∈ rounds, w.2 = [] := fun ended => by
    cases ended _ (List.mem_of_getElem? there)
  generalize count_eq : s.count () = count at position
  generalize log_eq : s.log = log at position
  cases position with
  | condition num le ended => exact absurd ended not_ended
  | submit num lt ended => exact absurd ended not_ended
  | report num ended => exact absurd ended not_ended
  | done num ended => exact absurd ended not_ended
  | @waits old left _ le ended round =>
      have last : k = old.length ∧ v.submission.queue = .getGlobalQueue ∧ x :: rest = left := by
        rw [List.getElem?_append] at there
        split_ifs at there with within
        · cases ended _ (List.mem_of_getElem? there)
        · have zero : k - old.length = 0 := by
            have := (List.getElem?_eq_some_iff.mp there).1
            simpa using this
          rw [zero] at there
          have same := Option.some.inj there
          exact ⟨by omega, (congrArg Prod.fst same).symm, (congrArg Prod.snd same).symm⟩
      obtain ⟨rfl, queue, code_eq⟩ := last
      have moved : ∀ now, (old ++ [(Queue.getGlobalQueue, left)]).set old.length
          (v.submission.queue, now) =
          old ++ [(Queue.getGlobalQueue, now)] := by
        intro now
        rw [List.set_append_right _ _ (Nat.le_refl _), Nat.sub_self, queue]
        rfl
      rw [moved] at views
      cases round with
      | signalled => cases code_eq
      | fresh num =>
          obtain ⟨rfl, rfl⟩ := List.cons.inj code_eq
          refine ⟨untrapped, _, _, views.trans (List.append_nil _), ?_⟩
          change Position bound (load (old.length + 1) s.store) _ _ (s.count ()) s.log
          rw [count_eq, log_eq]
          exact .waits le ended (.read num (Function.update_self ..))
      | read num held =>
          obtain ⟨rfl, rfl⟩ := List.cons.inj code_eq
          refine ⟨untrapped, _, _, views.trans (List.append_nil _), ?_⟩
          change Position bound (store (old.length + 1) s.store) _ _ (s.count ()) s.log
          rw [count_eq, log_eq]
          refine .waits le ended (.written ?_)
          change s.store.held (old.length + 1) + 1 = _
          rw [held, num]
      | written num =>
          obtain ⟨rfl, rfl⟩ := List.cons.inj code_eq
          refine ⟨untrapped, _, _, views.trans (List.append_nil _), ?_⟩
          change Position bound s.store _ _ (Function.update s.count () (s.count () + 1) ()) s.log
          rw [Function.update_self, count_eq, log_eq]
          exact .waits le ended (.signalled num)

theorem Inv.step (inv : Inv bound s) (stepped : (whileNum bound).step s i = some u) :
    Inv bound u := by
  obtain ⟨untrapped, now, rounds, tasks, position⟩ := inv
  cases (Program.stepped_of_step stepped).2 with
  | @start w here queued may =>
      have same : view { w with phase := .running } = view w := rfl
      exact ⟨untrapped, now, rounds, (map_set_view here same).trans tasks, position⟩
  | @finish w here running waited code =>
      have same : view { w with phase := .finished } = view w := rfl
      exact ⟨untrapped, now, rounds, (map_set_view here same).trans tasks, position⟩
  | @exec w x rest here running waited code allowed =>
      have there : (s.tasks.map view)[i]? = some (w.submission.queue, x :: rest) := by
        rw [List.getElem?_map, here, ← code]
        rfl
      rw [tasks] at there
      cases i with
      | zero =>
          obtain ⟨queue, rfl⟩ := Prod.mk.inj (Option.some.inj there)
          exact Inv.function untrapped tasks position allowed queue.symm
      | succ k => exact Inv.round untrapped tasks position there

theorem Inv.start : Inv bound ((whileNum bound).begin start) :=
  ⟨rfl, loop bound, [], rfl, .condition rfl (Nat.zero_le _) nofun⟩

theorem joins_free (b : Block) : ∀ x ∈ (whileNum bound).body b, x.joins = false := by
  intro x there
  match b with
  | .function =>
      simp only [whileNum, List.mem_cons, List.not_mem_nil, or_false] at there
      rcases there with rfl | rfl <;> rfl
  | .block 0 =>
      simp only [whileNum, List.mem_cons, List.not_mem_nil, or_false] at there
      rcases there with rfl | rfl <;> rfl
  | .block 1 =>
      simp only [whileNum, List.mem_cons, List.not_mem_nil, or_false] at there
      rcases there with rfl | rfl | rfl <;> rfl
  | .block (n + 2) => cases there

/-- What holds along all runs. -/
structure Run (bound : ℕ) (s : State Memory String Queue Unit Unit Block) : Prop where
  inv : Inv bound s
  joins : s.Only fun x => x.joins = false
  awaits : ∀ t ∈ s.tasks, t.awaits = []
  ended : ∀ t ∈ s.tasks, t.phase = .finished → t.rest = []

theorem run_of_reachable
    (reached : (whileNum bound).machine.Reachable ((whileNum bound).begin start) s) :
      Run bound s := by
  refine reached.invariant (I := Run bound) ?_ ?_
  · intro s i u run stepped
    exact ⟨run.inv.step stepped, Program.only_step joins_free run.joins stepped,
      Program.awaits_step run.joins run.awaits stepped, Program.ended_step run.ended stepped⟩
  · refine ⟨.start, ?_, ?_, ?_⟩
    · intro t there x x_there
      obtain rfl := List.mem_singleton.mp there
      exact joins_free .function x x_there
    · intro t there
      obtain rfl := List.mem_singleton.mp there
      rfl
    · intro t there
      obtain rfl := List.mem_singleton.mp there
      exact nofun

/-- A task that is not alone on a serial queue is held up by the semaphore or not at all. -/
theorem Run.not_allowed (run : Run bound s) (stuck : (whileNum bound).Stuck s) {k : ℕ}
    (there : (s.tasks.map view)[k]? = some (q, x :: rest)) (first : k = 0 ∨ q = .getGlobalQueue) :
    s.allows x = false := by
  rw [List.getElem?_map, Option.map_eq_some_iff] at there
  obtain ⟨t, here, same⟩ := there
  have member := List.mem_of_getElem? here
  obtain ⟨rfl, code⟩ := Prod.mk.inj same
  rcases Program.held_of_stuck run.inv.1 stuck here (by simp [run.awaits t member])
    with done | queued | running
  · rw [run.ended t member done] at code
    cases code
  · have may : (whileNum bound).mayStart s k t := by
      rw [Program.mayStart, List.all_eq_true]
      intro w there
      cases first with
      | inl zero =>
          subst zero
          cases there
      | inr global =>
          have apart : (whileNum bound).apart w.submission t.submission = false := by
            simp [Program.apart, global, whileNum, Queue.discipline, Discipline.apart]
          simp [apart]
    rw [may] at queued
    cases queued.2
  · obtain ⟨-, y, later, split, held⟩ := running
    obtain ⟨rfl, -⟩ := List.cons.inj (split.symm.trans code)
    exact held

/-- When nothing can go on, the loop has made all its rounds. -/
theorem Run.done_of_stuck (run : Run bound s) (stuck : (whileNum bound).Stuck s) :
    s.store.num = bound ∧ s.log = [(0, "num = " ++ toString bound)] := by
  obtain ⟨-, now, rounds, tasks, position⟩ := run.inv
  have function : ∀ x rest, now = x :: rest → s.allows x = false := by
    intro x rest code
    subst code
    exact run.not_allowed stuck (k := 0) (by rw [tasks]; rfl) (.inl rfl)
  generalize count_eq : s.count () = count at position
  generalize log_eq : s.log = log at position
  cases position with
  | condition => cases function _ _ rfl
  | submit => cases function _ _ rfl
  | report => cases function _ _ rfl
  | done num => exact ⟨num, rfl⟩
  | @waits old left _ le ended round =>
      have last : ∀ x rest, left = x :: rest → s.allows x = false := by
        intro x rest code
        have there : (s.tasks.map view)[old.length + 1]? = some (.getGlobalQueue, x :: rest) := by
          rw [tasks, List.getElem?_cons_succ, List.getElem?_append_right (Nat.le_refl _),
            Nat.sub_self, code]
          rfl
        exact run.not_allowed stuck there (.inr rfl)
      cases round with
      | fresh => cases last _ _ rfl
      | read => cases last _ _ rfl
      | written => cases last _ _ rfl
      | signalled =>
          have held := function _ _ rfl
          simp [State.allows, count_eq] at held

/-- The steps the function has left in the round `n`, by what it has left to do. -/
def functionLeft (bound n : ℕ) : View → ℕ
  | (_, [_, _, _, _]) => 8 * (bound - n) + 2
  | (_, [_, _, _]) => 8 * (bound - n) + 4
  | (_, [_, _]) => 8 * (bound - n) + 3
  | (_, [_]) => 2
  | _ => 1

def stepsLeft (bound : ℕ) (s : State Memory String Queue Unit Unit Block) : ℕ :=
  match s.tasks with
  | [] => 0
  | t :: rounds =>
      (match t.phase with
        | .finished => 0
        | .running => functionLeft bound rounds.length (view t)
        | .queued => functionLeft bound rounds.length (view t) + 1) +
      (rounds.map (Program.left fun _ => 0)).sum

/-- A block of a round is straight and submits nothing. -/
theorem Position.inner (position : Position bound s.store next rounds (s.count ()) s.log) {k : ℕ}
    (there : rounds[k]? = some (q, x :: rest)) :
    (∃ f, x = .act f) ∨ x = .signal () := by
  have not_ended : ¬∀ w ∈ rounds, w.2 = [] := fun ended => by
    cases ended _ (List.mem_of_getElem? there)
  generalize s.count () = count at position
  generalize s.log = log at position
  cases position with
  | condition num le ended => exact absurd ended not_ended
  | submit num lt ended => exact absurd ended not_ended
  | report num ended => exact absurd ended not_ended
  | done num ended => exact absurd ended not_ended
  | @waits old left _ le ended round =>
      have last : x :: rest = left := by
        rw [List.getElem?_append] at there
        split_ifs at there with within
        · cases ended _ (List.mem_of_getElem? there)
        · have member := List.mem_of_getElem? there
          rw [List.mem_singleton] at member
          exact congrArg Prod.snd member
      cases round with
      | signalled => cases last
      | fresh => exact .inl ⟨_, (List.cons.inj last).1⟩
      | read => exact .inl ⟨_, (List.cons.inj last).1⟩
      | written => exact .inr (List.cons.inj last).1

theorem stepsLeft_step (inv : Inv bound s) (stepped : (whileNum bound).step s i = some u) :
    stepsLeft bound u + 1 ≤ stepsLeft bound s := by
  obtain ⟨-, now, rounds, views, position⟩ := inv
  obtain ⟨t, later, tasks, view_t, rfl⟩ := List.map_eq_cons_iff.mp views
  obtain ⟨-, rfl⟩ := Prod.mk.inj view_t
  -- a task of a round does one of the steps it has left
  have inner : ∀ {k : ℕ} {v : WorkItem Memory String Queue Unit Unit Block}
      (v' : WorkItem Memory String Queue Unit Unit Block), later[k]? = some v →
      Program.left (fun _ => 0) v' + 1 ≤ Program.left (fun _ => 0) v →
        ∀ w : State Memory String Queue Unit Unit Block,
      w.tasks = t :: later.set k v' → stepsLeft bound w + 1 ≤ stepsLeft bound s := by
    intro k v v' at_k less w w_tasks
    have sum := Program.sum_map_set (Program.left fun _ => 0) (b := v') at_k
    simp only [stepsLeft, w_tasks, tasks, List.length_set]
    omega
  cases (Program.stepped_of_step stepped).2 with
  | @start w here queued may =>
      rw [tasks] at here
      cases i with
      | zero =>
          obtain rfl : t = w := Option.some.inj here
          simp only [stepsLeft, tasks, List.set_cons_zero, queued, view]
          omega
      | succ k =>
          refine inner { w with phase := .running } here ?_ _ (by rw [tasks, List.set_cons_succ])
          simp [Program.left, queued]
  | @finish w here running waited code =>
      rw [tasks] at here
      cases i with
      | zero =>
          obtain rfl : t = w := Option.some.inj here
          simp only [stepsLeft, tasks, List.set_cons_zero, running, view, code, functionLeft]
          omega
      | succ k =>
          refine inner { w with phase := .finished } here ?_ _ (by rw [tasks, List.set_cons_succ])
          simp [Program.left, running]
  | @exec w x rest here running waited code allowed =>
      rw [tasks] at here
      cases i with
      | succ k =>
          have there : (later.map view)[k]? = some (w.submission.queue, x :: rest) := by
            rw [List.getElem?_map, show later[k]? = some w from here, ← code]
            rfl
          have less : Program.left (fun _ => 0) { w with rest := rest, awaits := [] } + 1 ≤
              Program.left (fun _ => 0) w := by
            simp only [Program.left, running, code, List.map_cons, List.sum_cons]
            cases position.inner there with
            | inl act =>
                obtain ⟨f, rfl⟩ := act
                simp only [Instr.cost]
                omega
            | inr signal =>
                subst signal
                simp only [Instr.cost]
                omega
          refine inner _ here less _ ?_
          cases position.inner there with
          | inl act =>
              obtain ⟨f, rfl⟩ := act
              simp [Program.exec, State.submits, Program.next, State.awaits, tasks]
          | inr signal =>
              subst signal
              simp [Program.exec, State.submits, Program.next, State.awaits, tasks]
      | zero =>
          obtain rfl : t = w := Option.some.inj here
          generalize count_eq : s.count () = count at position
          generalize s.log = log at position
          generalize now_eq : t.rest = now at position code
          generalize later_eq : later.map view = rounds at position
          have length : later.length = rounds.length := by rw [← later_eq, List.length_map]
          cases position with
          | condition num le ended =>
              obtain ⟨rfl, rfl⟩ := List.cons.inj code
              by_cases again : s.store.num < bound
              · simp [stepsLeft, Program.exec, State.submits, Program.next, tasks,
                  running, view, now_eq, again, functionLeft, loop, whileNum]
              · simp [stepsLeft, Program.exec, State.submits, Program.next, tasks,
                  running, view, now_eq, again, functionLeft, loop, whileNum]
          | submit num lt ended =>
              obtain ⟨rfl, rfl⟩ := List.cons.inj code
              simp [stepsLeft, Program.exec, State.submits, Program.next, tasks,
                running, view, now_eq, functionLeft, loop, whileNum, Program.task,
                Program.left, Instr.cost]
              omega
          | waits le ended round =>
              obtain ⟨rfl, rfl⟩ := List.cons.inj code
              simp [stepsLeft, Program.exec, State.submits, Program.next, tasks,
                running, view, now_eq, functionLeft, loop, whileNum]
          | report num ended =>
              obtain ⟨rfl, rfl⟩ := List.cons.inj code
              simp [stepsLeft, Program.exec, State.submits, Program.next, tasks,
                running, view, now_eq, functionLeft]
          | done => cases code

theorem length_le {is : List ℕ}
    (run : (whileNum bound).machine.run s is = some u) (inv : Inv bound s) :
    is.length + stepsLeft bound u ≤ stepsLeft bound s := by
  induction is generalizing s with
  | nil =>
      obtain rfl := Option.some.inj run
      exact Nat.le_of_eq (Nat.zero_add _)
  | cons i is ih =>
      obtain ⟨v, stepped, rest⟩ := (whileNum bound).machine.run_cons_some run
      have later := ih rest (inv.step stepped)
      have less := stepsLeft_step inv stepped
      rw [List.length_cons]
      omega

/-- Every run of `whileNum` ends, the rounds never get more than the bound, and the one line
    it prints shows the bound. -/
theorem whileNum_prints {is : List ℕ}
    (run : (whileNum bound).machine.run ((whileNum bound).begin start) is = some s) :
    is.length ≤ 8 * bound + 3 ∧ s.store.num ≤ bound ∧
      s.log.map Prod.snd <+: ["num = " ++ toString bound] ∧
      ((whileNum bound).Stuck s → s.log.map Prod.snd = ["num = " ++ toString bound]) := by
  have run_s := run_of_reachable ⟨is, run⟩
  have length := length_le run .start
  have first : stepsLeft bound ((whileNum bound).begin start) = 8 * bound + 3 := rfl
  obtain ⟨-, now, rounds, tasks, position⟩ := run_s.inv
  have stuck_log := run_s.done_of_stuck
  generalize s.count () = count at position
  generalize s.log = log at position stuck_log
  refine ⟨by omega, ?_, ?_, fun stuck => ?_⟩
  · cases position with
    | condition num le => exact le
    | submit num lt => exact Nat.le_of_lt lt
    | report num => exact Nat.le_of_eq num
    | done num => exact Nat.le_of_eq num
    | waits le ended round => cases round <;> omega
  · cases position with
    | done => exact List.prefix_refl _
    | _ => exact List.nil_prefix
  · rw [(stuck_log stuck).2]
    rfl

/-- The function cannot go on before the block of the first round signals. -/
theorem whileNum_prints_firstRound :
    ∃ s, (whileNum 5).machine.run ((whileNum 5).begin start) [0, 0, 1, 1, 1] = some s ∧
      (whileNum 5).step s 0 = none ∧ [0, 0, 1, 1, 1].length ≤ 8 * 5 + 3 ∧ s.store.num ≤ 5 ∧
      s.log.map Prod.snd <+: ["num = " ++ toString 5] ∧
      ((whileNum 5).Stuck s → s.log.map Prod.snd = ["num = " ++ toString 5]) :=
  ⟨_, rfl, rfl, whileNum_prints rfl⟩

end Steps

end LearningProjects.GCD.WhileNum
