import LearningProjects.Machine
import Mathlib

/-! # Blocks on dispatch queues

A small language of blocks that submit other blocks to queues, with groups and
semaphores, and its interleaving semantics: one step lets one task go on. Which task
goes on is left open, so what holds of every run holds for every scheduler.
-/

namespace LearningProjects.Dispatch

/-- In which order a queue runs its blocks. -/
inductive Discipline where
  | serial
  /-- Side by side, but a barrier by itself. -/
  | concurrent
  /-- Side by side, and a barrier is a block like any other. -/
  | global
  deriving DecidableEq, Repr

/-- Whether a block must have finished before a later one of its queue starts. -/
def Discipline.apart : Discipline → Bool → Bool → Bool
  | .serial, _, _ => true
  | .concurrent, earlier, later => earlier || later
  | .global, _, _ => false

structure Submission (Q B : Type) where
  queue : Q
  barrier : Bool
  block : B
  deriving DecidableEq, Repr

/-- `act` gets the number of its task, for what a task keeps to itself. -/
inductive Instr (σ ω Q S G B : Type) where
  | act (f : ℕ → σ → σ)
  | print (x : ω)
  | printWith (f : σ → ω)
  | async (queue : Q) (barrier : Bool) (block : B)
  | sync (queue : Q) (block : B)
  /-- Waits for all its iterations. -/
  | perform (queue : Q) (iterations : ℕ) (block : ℕ → B)
  | enter (group : G)
  | leave (group : G)
  | notify (group : G) (queue : Q) (block : B)
  | wait (semaphore : S)
  | signal (semaphore : S)
  | repeatWhile (condition : σ → Bool) (block : B)

structure Program (σ ω Q S G B : Type) where
  discipline : Q → Discipline
  body : B → List (Instr σ ω Q S G B)

inductive Phase where
  | queued
  | running
  | finished
  deriving DecidableEq, Repr

/-- A submitted block with what is left of it, and the tasks it waits for. -/
structure WorkItem (σ ω Q S G B : Type) where
  submission : Submission Q B
  rest : List (Instr σ ω Q S G B)
  phase : Phase
  awaits : List ℕ

/-- The tasks stand in the order of their submission. -/
structure State (σ ω Q S G B : Type) where
  store : σ
  tasks : List (WorkItem σ ω Q S G B)
  count : S → ℕ
  entered : G → ℕ
  notifies : List (G × Submission Q B)
  log : List (ℕ × ω)
  /-- A group was left more often than entered. -/
  trapped : Bool

variable {σ ω Q S G B : Type}

namespace Instr

/-- What is printed whatever the state. -/
def printed : Instr σ ω Q S G B → Option ω
  | .print x => some x
  | _ => none

/-- Runs once, and prints no more than what is `printed`. -/
def straight : Instr σ ω Q S G B → Bool
  | .printWith _ | .repeatWhile _ _ => false
  | _ => true

/-- Waits for other tasks to finish. -/
def joins : Instr σ ω Q S G B → Bool
  | .sync _ _ | .perform _ _ _ => true
  | _ => false

/-- May hold up its task. -/
def blocks : Instr σ ω Q S G B → Bool
  | .wait _ => true
  | x => x.joins

theorem joins_of_blocks (x : Instr σ ω Q S G B) (free : x.blocks = false) : x.joins = false := by
  cases x with
  | wait k => rfl
  | _ => exact free

/-- The steps an instruction asks for, with those of the blocks it submits. -/
def cost (weight : B → ℕ) : Instr σ ω Q S G B → ℕ
  | .async _ _ b | .sync _ b | .notify _ _ b => 1 + weight b
  | .perform _ iterations b => 1 + ((List.range iterations).map fun k => weight (b k)).sum
  | _ => 1

/-- What is submitted at once and not waited for. -/
def asyncs : Instr σ ω Q S G B → Option (Submission Q B)
  | .async q barrier b => some ⟨q, barrier, b⟩
  | _ => none

/-- Has nothing to do with other tasks. -/
def silent : Instr σ ω Q S G B → Bool
  | .act _ | .print _ | .printWith _ => true
  | _ => false

def loops : Instr σ ω Q S G B → Bool
  | .repeatWhile _ _ => true
  | _ => false

end Instr

namespace State

def finished (s : State σ ω Q S G B) (i : ℕ) : Bool :=
  (s.tasks[i]?).any fun t => t.phase = .finished

/-- Nothing but instructions of a kind is left to do. -/
def Only (P : Instr σ ω Q S G B → Prop) (s : State σ ω Q S G B) : Prop :=
  ∀ t ∈ s.tasks, ∀ x ∈ t.rest, P x

theorem Only.mono {P P' : Instr σ ω Q S G B → Prop} {s : State σ ω Q S G B} (only : Only P s)
    (weaker : ∀ x, P x → P' x) : Only P' s :=
  fun t there x x_there => weaker x (only t there x x_there)

/-- Only a semaphore holds up a task that waits for no other task. -/
def allows (s : State σ ω Q S G B) : Instr σ ω Q S G B → Bool
  | .wait k => 0 < s.count k
  | _ => true

/-- The tasks that the next ones are numbered after. -/
def awaits (s : State σ ω Q S G B) : Instr σ ω Q S G B → List ℕ
  | .sync _ _ => [s.tasks.length]
  | .perform _ iterations _ => List.range' s.tasks.length iterations
  | _ => []

section Groups

variable [DecidableEq G]

/-- What an instruction submits. Leaving a group for the last time submits what waits
    for the group. -/
def submits (s : State σ ω Q S G B) : Instr σ ω Q S G B → List (Submission Q B)
  | .async q barrier b => [⟨q, barrier, b⟩]
  | .sync q b => [⟨q, false, b⟩]
  | .perform q iterations b => (List.range iterations).map fun k => ⟨q, false, b k⟩
  | .leave g => if s.entered g = 1 then (s.notifies.filter (·.1 = g)).map Prod.snd else []
  | .notify g q b => if s.entered g = 0 then [⟨q, false, b⟩] else []
  | _ => []

variable [DecidableEq S]

/-- What an instruction of the task `i` does besides submitting. -/
def effect (s : State σ ω Q S G B) (i : ℕ) : Instr σ ω Q S G B → State σ ω Q S G B
  | .act f => { s with store := f i s.store }
  | .print x => { s with log := s.log ++ [(i, x)] }
  | .printWith f => { s with log := s.log ++ [(i, f s.store)] }
  | .enter g => { s with entered := Function.update s.entered g (s.entered g + 1) }
  | .leave g =>
      if s.entered g = 0 then { s with trapped := true }
      else
        { s with
          entered := Function.update s.entered g (s.entered g - 1)
          notifies := if s.entered g = 1 then s.notifies.filter (·.1 ≠ g) else s.notifies }
  | .notify g q b =>
      if s.entered g = 0 then s else { s with notifies := s.notifies ++ [(g, ⟨q, false, b⟩)] }
  | .wait k => { s with count := Function.update s.count k (s.count k - 1) }
  | .signal k => { s with count := Function.update s.count k (s.count k + 1) }
  | .async _ _ _ | .sync _ _ | .perform _ _ _ | .repeatWhile _ _ => s

end Groups

end State

section Logs

theorem eq_filter_append_of_pairwise {α : Type} {q : α → Bool} {l : List α}
    (sorted : l.Pairwise fun a b => q b → q a) : l = l.filter q ++ l.filter fun a => !q a := by
  induction l with
  | nil => rfl
  | cons a l ih =>
      obtain ⟨first, sorted⟩ := List.pairwise_cons.mp sorted
      cases here : q a with
      | true =>
          simp only [List.filter_cons, here, if_true, Bool.not_true, Bool.false_eq_true, if_false,
            List.cons_append]
          rw [← ih sorted]
      | false =>
          have none_later : l.filter q = [] := by
            rw [List.filter_eq_nil_iff]
            intro b there holds
            rw [first b there holds] at here
            cases here
          simp only [List.filter_cons, here, Bool.false_eq_true, if_false, Bool.not_false, if_true,
            none_later, List.nil_append]
          rw [List.filter_eq_self.mpr]
          intro b there
          have := List.filter_eq_nil_iff.mp none_later b there
          simpa using this

/-- A list sorted by a rank is the ranks one after the other. -/
theorem eq_flatMap_of_pairwise {α : Type} {rank : α → ℕ} {l : List α} {n : ℕ}
    (sorted : l.Pairwise fun a b => rank a ≤ rank b) (below : ∀ a ∈ l, rank a < n) :
    l = (List.range n).flatMap fun k => l.filter (rank · = k) := by
  induction n generalizing l with
  | zero =>
      cases l with
      | nil => rfl
      | cons a l => exact absurd (below a List.mem_cons_self) (Nat.not_lt_zero _)
  | succ n ih =>
      have split := eq_filter_append_of_pairwise (q := fun a => decide (rank a < n))
        (sorted.imp fun {a b} le holds => by
          simp only [decide_eq_true_eq] at holds ⊢
          omega)
      have lower := ih (sorted.filter fun a => decide (rank a < n)) fun a there => by
        simpa using (List.mem_filter.mp there).2
      have last : (l.filter fun a => !decide (rank a < n)) = l.filter (rank · = n) := by
        apply List.filter_congr
        intro a there
        have := below a there
        by_cases low : rank a < n <;> simp [low] <;> omega
      rw [last] at split
      rw [List.range_succ, List.flatMap_append, List.flatMap_singleton]
      conv_lhs => rw [split, lower]
      congr 1
      apply List.flatMap_congr
      intro k there
      rw [List.filter_filter]
      apply List.filter_congr
      intro a _
      have := List.mem_range.mp there
      by_cases same : rank a = k <;> simp [same]
      omega

theorem filter_mem_perm {ω : Type} {l : List (ℕ × ω)} {ks : List ℕ} (nodup : ks.Nodup) :
    (l.filter (·.1 ∈ ks)).Perm (ks.flatMap fun k => l.filter (·.1 = k)) := by
  induction ks with
  | nil => simp
  | cons k ks ih =>
      obtain ⟨fresh, nodup⟩ := List.nodup_cons.mp nodup
      have parts := List.filter_append_perm (fun e : ℕ × ω => decide (e.1 = k))
          (l.filter (·.1 ∈ k :: ks))
      rw [List.filter_filter, List.filter_filter] at parts
      have own : (l.filter fun e => decide (e.1 = k) && decide (e.1 ∈ k :: ks)) =
          l.filter (·.1 = k) := by
        apply List.filter_congr
        intro e _
        by_cases same : e.1 = k <;> simp [same]
      have others : (l.filter fun e => !decide (e.1 = k) && decide (e.1 ∈ k :: ks)) =
          l.filter (·.1 ∈ ks) := by
        apply List.filter_congr
        intro e _
        by_cases same : e.1 = k
        · simp [same, fresh]
        · simp [same]
      rw [own, others] at parts
      rw [List.flatMap_cons]
      exact parts.symm.trans ((ih nodup).append_left _)

/-- What the tasks of a rank print, in some order. -/
theorem filter_rank_perm {ω : Type} {l : List (ℕ × ω)} {rank : ℕ → ℕ} {r : ℕ} (ks : List ℕ)
    (nodup : ks.Nodup) (same : ∀ e ∈ l, rank e.1 = r ↔ e.1 ∈ ks) :
    ((l.filter (rank ·.1 = r)).map Prod.snd).Perm
      (ks.flatMap fun k => (l.filter (·.1 = k)).map Prod.snd) := by
  have named : l.filter (rank ·.1 = r) = l.filter (·.1 ∈ ks) := by
    apply List.filter_congr
    intro e there
    simp [same e there]
  rw [named, ← List.map_flatMap]
  exact (filter_mem_perm nodup).map Prod.snd

end Logs

namespace Program

section Steps

variable [DecidableEq Q] [DecidableEq S] [DecidableEq G]
variable (p : Program σ ω Q S G B)

def apart (earlier later : Submission Q B) : Bool :=
  earlier.queue = later.queue && (p.discipline later.queue).apart earlier.barrier later.barrier

/-- Every earlier task that is kept apart has finished. -/
def mayStart (s : State σ ω Q S G B) (i : ℕ) (t : WorkItem σ ω Q S G B) : Bool :=
  (s.tasks.take i).all fun u => u.phase = .finished || !p.apart u.submission t.submission

def task (submission : Submission Q B) : WorkItem σ ω Q S G B :=
  ⟨submission, p.body submission.block, .queued, []⟩

/-- What follows an instruction; the body of a loop comes before the loop again. -/
def next (s : State σ ω Q S G B) :
    Instr σ ω Q S G B → List (Instr σ ω Q S G B) → List (Instr σ ω Q S G B)
  | .repeatWhile condition b, rest =>
      if condition s.store then p.body b ++ .repeatWhile condition b :: rest else rest
  | _, rest => rest

def exec (s : State σ ω Q S G B) (i : ℕ) (t : WorkItem σ ω Q S G B) (x : Instr σ ω Q S G B)
    (rest : List (Instr σ ω Q S G B)) : State σ ω Q S G B :=
  { s.effect i x with
    tasks := s.tasks.set i { t with rest := p.next s x rest, awaits := s.awaits x } ++
      (s.submits x).map p.task }

/-- The task `i` starts, executes one instruction or finishes. -/
def step (s : State σ ω Q S G B) (i : ℕ) : Option (State σ ω Q S G B) :=
  if s.trapped then none
  else
    (s.tasks[i]?).bind fun t =>
      match t.phase with
      | .finished => none
      | .queued =>
          if p.mayStart s i t then
            some { s with tasks := s.tasks.set i { t with phase := .running } }
          else none
      | .running =>
          if t.awaits.all s.finished then
            match t.rest with
            | [] => some { s with tasks := s.tasks.set i { t with phase := .finished } }
            | x :: rest => if s.allows x then some (p.exec s i t x rest) else none
          else none

def machine : Machine (State σ ω Q S G B) ℕ := ⟨p.step⟩

/-- A block that runs already, as the function of the main thread does. -/
def start (store : σ) (count : S → ℕ) (queue : Q) (block : B) : State σ ω Q S G B where
  store := store
  tasks := [⟨⟨queue, false, block⟩, p.body block, .running, []⟩]
  count := count
  entered _ := 0
  notifies := []
  log := []
  trapped := false

/-- No task can go on. -/
def Stuck (s : State σ ω Q S G B) : Prop := ∀ i, p.step s i = none

/-- The ways a task goes on. -/
inductive Stepped (s : State σ ω Q S G B) (i : ℕ) : State σ ω Q S G B → Prop where
  | start {t : WorkItem σ ω Q S G B} (here : s.tasks[i]? = some t) (queued : t.phase = .queued)
      (may : p.mayStart s i t) :
      Stepped s i { s with tasks := s.tasks.set i { t with phase := .running } }
  | exec {t : WorkItem σ ω Q S G B} {x : Instr σ ω Q S G B} {rest : List (Instr σ ω Q S G B)}
      (here : s.tasks[i]? = some t) (running : t.phase = .running)
      (waited : t.awaits.all s.finished) (code : t.rest = x :: rest) (allowed : s.allows x) :
      Stepped s i (p.exec s i t x rest)
  | finish {t : WorkItem σ ω Q S G B} (here : s.tasks[i]? = some t) (running : t.phase = .running)
      (waited : t.awaits.all s.finished) (code : t.rest = []) :
      Stepped s i { s with tasks := s.tasks.set i { t with phase := .finished } }

variable {p} {s u : State σ ω Q S G B} {i : ℕ}

theorem stepped_of_step (stepped : p.step s i = some u) : s.trapped = false ∧ p.Stepped s i u := by
  unfold step at stepped
  split_ifs at stepped with trapped
  obtain ⟨t, here, stepped⟩ := Option.bind_eq_some_iff.mp stepped
  refine ⟨by simpa using trapped, ?_⟩
  cases phase : t.phase with
  | finished => simp [phase] at stepped
  | queued =>
      simp only [phase] at stepped
      split_ifs at stepped with may
      exact Option.some.inj stepped ▸ .start here phase may
  | running =>
      simp only [phase] at stepped
      split_ifs at stepped with waited
      cases code : t.rest with
      | nil =>
          simp only [code] at stepped
          have finished : p.Stepped s i _ := .finish here phase waited code
          rw [code] at finished
          exact Option.some.inj stepped ▸ finished
      | cons x rest =>
          simp only [code] at stepped
          split_ifs at stepped with allowed
          exact Option.some.inj stepped ▸ .exec here phase waited code allowed

theorem step_of_stepped (trapped : s.trapped = false) (stepped : p.Stepped s i u) :
    p.step s i = some u := by
  unfold step
  cases stepped with
  | start here queued may => simp [trapped, here, queued, may]
  | exec here running waited code allowed =>
      simp only [trapped, here, Option.bind_some, running, waited, code, allowed, if_true,
        Bool.false_eq_true, if_false]
  | finish here running waited code =>
      simp only [trapped, here, Option.bind_some, running, waited, code, if_true,
        Bool.false_eq_true, if_false]

omit [DecidableEq Q] in
theorem exec_log_append {t : WorkItem σ ω Q S G B} {x : Instr σ ω Q S G B}
    (rest : List (Instr σ ω Q S G B)) :
    ∃ out : List ω, (p.exec s i t x rest).log = s.log ++ out.map (Prod.mk i) := by
  cases x with
  | print x => exact ⟨[x], rfl⟩
  | printWith f => exact ⟨[f s.store], rfl⟩
  | leave g => exact ⟨[], by simp only [exec, State.effect]; split_ifs <;> simp⟩
  | notify g q b => exact ⟨[], by simp only [exec, State.effect]; split_ifs <;> simp⟩
  | _ => exact ⟨[], by simp [exec, State.effect]⟩

/-- What every step does to the tasks and to the log. -/
theorem Stepped.moved (stepped : p.Stepped s i u) :
    ∃ t t' new, s.tasks[i]? = some t ∧ u.tasks = s.tasks.set i t' ++ List.map p.task new ∧
      t'.submission = t.submission ∧
      (t.phase = .queued ∧ p.mayStart s i t ∧ t'.phase = .running ∧ u.log = s.log ∨
        t.phase = .running ∧ t'.phase ≠ .queued ∧
          ∃ out : List ω, u.log = s.log ++ out.map (Prod.mk i)) := by
  cases stepped with
  | @start t here queued may =>
      exact ⟨t, { t with phase := .running }, [], here, by simp, rfl, .inl ⟨queued, may, rfl, rfl⟩⟩
  | @finish t here running waited code =>
      exact ⟨t, { t with phase := .finished }, [], here, by simp, rfl,
        .inr ⟨running, by simp, [], by simp⟩⟩
  | @exec t x rest here running waited code allowed =>
      exact ⟨t, _, s.submits x, here, rfl, rfl,
        .inr ⟨running, by simp [running], exec_log_append _⟩⟩

omit [DecidableEq Q] [DecidableEq S] [DecidableEq G] in
theorem getElem?_put {tasks : List (WorkItem σ ω Q S G B)} {t v : WorkItem σ ω Q S G B} {k : ℕ}
    (there : (tasks.set i t)[k]? = some v) : k = i ∧ v = t ∨ k ≠ i ∧ tasks[k]? = some v := by
  rw [List.getElem?_set] at there
  split_ifs at there with same
  · exact .inl ⟨same.symm, (Option.some.inj there).symm⟩
  · exact .inr ⟨fun k_eq => same k_eq.symm, there⟩

omit [DecidableEq Q] [DecidableEq S] [DecidableEq G] in
/-- A task after a step is the one that went on, another one as it was, or new. -/
theorem getElem?_moved {tasks new : List (WorkItem σ ω Q S G B)} {t v : WorkItem σ ω Q S G B}
    {k : ℕ} (there : (tasks.set i t ++ new)[k]? = some v) :
    k = i ∧ v = t ∨ k ≠ i ∧ tasks[k]? = some v ∨ tasks.length ≤ k ∧ v ∈ new := by
  rw [List.getElem?_append, List.length_set] at there
  split_ifs at there with within
  · cases getElem?_put there with
    | inl own => exact .inl own
    | inr other => exact .inr (.inl other)
  · exact .inr (.inr ⟨by omega, List.mem_of_getElem? there⟩)

variable (p) in
/-- The task `i` has to finish before the task `j` starts. -/
def Before (s : State σ ω Q S G B) (i j : ℕ) : Prop :=
  i < j ∧ ∃ a b, s.tasks[i]? = some a ∧ s.tasks[j]? = some b ∧ p.apart a.submission b.submission

variable (p) in
/-- Tasks that are kept apart, also by others between them, go on in the order of their
    submission, and so they print. -/
structure Ordered (s : State σ ω Q S G B) : Prop where
  early : ∀ (i j : ℕ) (a b : WorkItem σ ω Q S G B), i < j → s.tasks[i]? = some a →
    s.tasks[j]? = some b →
    p.apart a.submission b.submission → b.phase ≠ .queued → a.phase = .finished
  logged : ∀ e ∈ s.log, ∃ a : WorkItem σ ω Q S G B, s.tasks[e.1]? = some a ∧ a.phase ≠ .queued
  sorted : s.log.Pairwise fun e f => ¬Relation.TransGen (p.Before s) f.1 e.1

omit [DecidableEq S] [DecidableEq G] in
theorem Ordered.start (store : σ) (count : S → ℕ) (queue : Q) (block : B) :
    Ordered p (p.start (ω := ω) store count queue block) where
  early i j a b lt at_i at_j := by
    obtain ⟨within, -⟩ := List.getElem?_eq_some_iff.mp at_j
    have : j < 1 := within
    omega
  logged e there := by cases there
  sorted := List.Pairwise.nil

omit [DecidableEq S] [DecidableEq G] in
theorem Ordered.finished (ordered : Ordered p s) {j : ℕ} {b : WorkItem σ ω Q S G B}
    (before : Relation.TransGen (p.Before s) i j) (at_j : s.tasks[j]? = some b)
    (started : b.phase ≠ .queued) :
    ∃ a : WorkItem σ ω Q S G B, s.tasks[i]? = some a ∧ a.phase = .finished := by
  induction before generalizing b with
  | single step =>
      obtain ⟨lt, a, b', at_i, at_j', apart⟩ := step
      obtain rfl : b = b' := Option.some.inj (at_j.symm.trans at_j')
      exact ⟨a, at_i, ordered.early _ _ a b lt at_i at_j apart started⟩
  | tail chain step ih =>
      obtain ⟨lt, c, b', at_k, at_j', apart⟩ := step
      obtain rfl : b = b' := Option.some.inj (at_j.symm.trans at_j')
      exact ih at_k (by simp [ordered.early _ _ c b lt at_k at_j apart started])

theorem Ordered.step (ordered : Ordered p s) (stepped : p.step s i = some u) : Ordered p u := by
  obtain ⟨t, t', new, here, tasks, same, how⟩ := (stepped_of_step stepped).2.moved
  have within : i < s.tasks.length := (List.getElem?_eq_some_iff.mp here).1
  have fresh : ∀ v ∈ new.map p.task, v.phase = .queued := by
    intro v there
    obtain ⟨n, -, rfl⟩ := List.mem_map.mp there
    rfl
  -- a task of the old list keeps what tells whether it is kept apart
  have kept : ∀ (k : ℕ) (a : WorkItem σ ω Q S G B), k < s.tasks.length → u.tasks[k]? = some a →
      ∃ b, s.tasks[k]? = some b ∧ a.submission = b.submission := by
    intro k a old there
    rw [tasks] at there
    rcases getElem?_moved there with ⟨rfl, rfl⟩ | ⟨-, other⟩ | ⟨beyond, -⟩
    · exact ⟨t, here, same⟩
    · exact ⟨a, other, rfl⟩
    · omega
  have awake : ∀ (k : ℕ) (b : WorkItem σ ω Q S G B), s.tasks[k]? = some b → b.phase ≠ .queued →
      ∃ a : WorkItem σ ω Q S G B, u.tasks[k]? = some a ∧ a.phase ≠ .queued := by
    intro k b there phase
    have old : k < s.tasks.length := (List.getElem?_eq_some_iff.mp there).1
    rw [tasks, List.getElem?_append_left (by simpa using old), List.getElem?_set]
    split_ifs with moved
    · refine ⟨t', rfl, ?_⟩
      cases how with
      | inl starts => simp [starts.2.2.1]
      | inr goes => exact goes.2.1
    · exact ⟨b, there, phase⟩
  have earlier : ∀ {j k : ℕ}, k < s.tasks.length → Relation.TransGen (p.Before u) j k →
      Relation.TransGen (p.Before s) j k := by
    have one : ∀ {j k : ℕ}, k < s.tasks.length → p.Before u j k → p.Before s j k := by
      intro j k old before
      obtain ⟨lt, a, b, at_j, at_k, apart⟩ := before
      obtain ⟨a', at_j', same_a⟩ := kept j a (by omega) at_j
      obtain ⟨b', at_k', same_b⟩ := kept k b old at_k
      exact ⟨lt, a', b', at_j', at_k', same_a ▸ same_b ▸ apart⟩
    intro j k old before
    induction before with
    | single step => exact .single (one old step)
    | tail chain step ih => exact .tail (ih (Nat.lt_trans step.1 old)) (one old step)
  constructor
  · intro j k a b lt at_j at_k apart phase
    rw [tasks] at at_j at_k
    rcases getElem?_moved at_k with ⟨rfl, rfl⟩ | ⟨other, old_k⟩ | ⟨-, added⟩
    · rcases getElem?_moved at_j with ⟨rfl, rfl⟩ | ⟨-, at_j⟩ | ⟨beyond, -⟩
      · omega
      · cases how with
        | inl starts =>
            have may := List.all_eq_true.mp starts.2.1 a
              (List.mem_of_getElem? (by rw [List.getElem?_take_of_lt lt]; exact at_j))
            rw [same] at apart
            simpa [apart] using may
        | inr goes => exact ordered.early j k a t lt at_j here (same ▸ apart) (by simp [goes.1])
      · omega
    · have k_within : k < s.tasks.length := (List.getElem?_eq_some_iff.mp old_k).1
      rcases getElem?_moved at_j with ⟨rfl, rfl⟩ | ⟨-, old_j⟩ | ⟨beyond, -⟩
      · have finished := ordered.early j k t b lt here old_k (same ▸ apart) phase
        cases how with
        | inl starts => simp [starts.1] at finished
        | inr goes => simp [goes.1] at finished
      · exact ordered.early j k a b lt old_j old_k apart phase
      · omega
    · exact absurd (fresh b added) phase
  · intro e there
    cases how with
    | inl starts =>
        rw [starts.2.2.2] at there
        obtain ⟨b, at_e, phase⟩ := ordered.logged e there
        exact awake e.1 b at_e phase
    | inr goes =>
        obtain ⟨running, phase', out, log⟩ := goes
        rw [log, List.mem_append] at there
        cases there with
        | inl there =>
            obtain ⟨b, at_e, phase⟩ := ordered.logged e there
            exact awake e.1 b at_e phase
        | inr there =>
            obtain ⟨x, -, rfl⟩ := List.mem_map.mp there
            exact awake i t here (by simp [running])
  · have before : s.log.Pairwise fun e f => ¬Relation.TransGen (p.Before u) f.1 e.1 := by
      refine ordered.sorted.imp_of_mem ?_
      intro e f e_there f_there not_before before
      obtain ⟨c, old_e, -⟩ := ordered.logged e e_there
      exact not_before (earlier (List.getElem?_eq_some_iff.mp old_e).1 before)
    cases how with
    | inl starts =>
        rw [starts.2.2.2]
        exact before
    | inr goes =>
        obtain ⟨running, -, out, log⟩ := goes
        rw [log, List.pairwise_append]
        have irreflexive : ∀ {j k : ℕ}, Relation.TransGen (p.Before u) j k → j < k := by
          intro j k chain
          induction chain with
          | single step => exact step.1
          | tail chain step ih => exact Nat.lt_trans ih step.1
        refine ⟨before, List.pairwise_map.mpr (List.pairwise_of_forall ?_), ?_⟩
        · intro x y own
          exact absurd (irreflexive own) (Nat.lt_irrefl i)
        · intro e e_there f f_there chain
          obtain ⟨x, -, rfl⟩ := List.mem_map.mp f_there
          obtain ⟨c, old_e, awake_e⟩ := ordered.logged e e_there
          -- this task would have finished before the other one printed
          obtain ⟨a, at_i, finished⟩ := ordered.finished
            (earlier (List.getElem?_eq_some_iff.mp old_e).1 chain) old_e awake_e
          obtain rfl : t = a := Option.some.inj (here.symm.trans at_i)
          simp [running] at finished

/-- What all instructions of all blocks have stays true of what is left of the tasks. -/
theorem only_step {P : Instr σ ω Q S G B → Prop} (bodies : ∀ b, ∀ x ∈ p.body b, P x)
    (only : s.Only P) (stepped : p.step s i = some u) : u.Only P := by
  intro v there x x_there
  obtain ⟨k, at_k⟩ := List.mem_iff_getElem?.mp there
  have moved := (stepped_of_step stepped).2
  cases moved with
  | @start t here queued may =>
      rcases getElem?_put at_k with ⟨-, rfl⟩ | ⟨-, old⟩
      · exact only t (List.mem_of_getElem? here) x x_there
      · exact only v (List.mem_of_getElem? old) x x_there
  | @finish t here running waited code =>
      rcases getElem?_put at_k with ⟨-, rfl⟩ | ⟨-, old⟩
      · exact only t (List.mem_of_getElem? here) x x_there
      · exact only v (List.mem_of_getElem? old) x x_there
  | @exec t y rest here running waited code allowed =>
      have own := only t (List.mem_of_getElem? here)
      rw [code] at own
      rcases getElem?_moved at_k with ⟨-, rfl⟩ | ⟨-, old⟩ | ⟨-, new⟩
      · cases y with
        | repeatWhile condition b =>
            simp only [next] at x_there
            split_ifs at x_there with again
            · rw [List.mem_append, List.mem_cons] at x_there
              rcases x_there with body | same | later
              · exact bodies b x body
              · exact own x (by simp [same])
              · exact own x (List.mem_cons_of_mem _ later)
            · exact own x (List.mem_cons_of_mem _ x_there)
        | _ => exact own x (List.mem_cons_of_mem _ x_there)
      · exact only v (List.mem_of_getElem? old) x x_there
      · obtain ⟨n, -, rfl⟩ := List.mem_map.mp new
        exact bodies n.block x x_there

section Straight

variable {t : WorkItem σ ω Q S G B} {x : Instr σ ω Q S G B} {rest : List (Instr σ ω Q S G B)}

omit [DecidableEq Q] in
theorem exec_log (straight : x.straight) :
    (p.exec s i t x rest).log = s.log ++ x.printed.toList.map (Prod.mk i) := by
  cases x with
  | print x => rfl
  | printWith f => simp [Instr.straight] at straight
  | leave g => simp only [exec, State.effect]; split_ifs <;> simp [Instr.printed]
  | notify g q b => simp only [exec, State.effect]; split_ifs <;> simp [Instr.printed]
  | _ => simp [exec, State.effect, Instr.printed]

omit [DecidableEq Q] [DecidableEq S] [DecidableEq G] in
theorem next_of_straight (straight : x.straight) : p.next s x rest = rest := by
  cases x with
  | repeatWhile condition b => simp [Instr.straight] at straight
  | _ => rfl

variable (p) in
/-- A task whose block is straight has printed what the block says up to where it is. -/
def Written (s : State σ ω Q S G B) : Prop :=
  ∀ i t, s.tasks[i]? = some t → (∀ x ∈ p.body t.submission.block, x.straight) →
    ∃ done, p.body t.submission.block = done ++ t.rest ∧
      (s.log.filter (·.1 = i)).map Prod.snd = done.filterMap Instr.printed ∧
      (t.phase = .queued → done = []) ∧ (t.phase = .finished → t.rest = [])

omit [DecidableEq Q] [DecidableEq S] [DecidableEq G] in
theorem Written.start (store : σ) (count : S → ℕ) (queue : Q) (block : B) :
    Written p (p.start (ω := ω) store count queue block) := by
  intro j t there straight
  obtain ⟨rfl, rfl⟩ : j = 0 ∧ t = ⟨⟨queue, false, block⟩, p.body block, .running, []⟩ := by
    cases j with
    | zero => exact ⟨rfl, (Option.some.inj there).symm⟩
    | succ j => cases there
  exact ⟨[], rfl, rfl, fun _ => rfl, by simp⟩

theorem Written.step (ordered : Ordered p s) (written : Written p s)
    (stepped : p.step s i = some u) :
    Written p u := by
  intro j v there straight
  cases (stepped_of_step stepped).2 with
  | @start t here queued may =>
      rcases getElem?_put there with ⟨rfl, rfl⟩ | ⟨-, old⟩
      · obtain ⟨done, code, out, fresh, -⟩ := written j t here straight
        exact ⟨done, code, out, by simp, by simp⟩
      · exact written j v old straight
  | @finish t here running waited code =>
      rcases getElem?_put there with ⟨rfl, rfl⟩ | ⟨-, old⟩
      · obtain ⟨done, split, out, -, -⟩ := written j t here straight
        exact ⟨done, split, out, by simp, fun _ => code⟩
      · exact written j v old straight
  | @exec t x rest here running waited code allowed =>
      rcases getElem?_moved there with ⟨rfl, rfl⟩ | ⟨other, old⟩ | ⟨beyond, new⟩
      · obtain ⟨done, split, out, -, -⟩ := written j t here straight
        rw [code] at split
        have x_straight : x.straight := straight x (by rw [split]; simp)
        refine ⟨done ++ [x], ?_, ?_, by simp [running], by simp [running]⟩
        · rw [next_of_straight x_straight, List.append_assoc]
          exact split
        · rw [exec_log x_straight, List.filter_append, List.map_append, out, List.filterMap_append]
          cases said : x.printed <;> simp [said]
      · obtain ⟨done, split, out, phases⟩ := written j v old straight
        obtain ⟨more, log⟩ := exec_log_append (p := p) (s := s) (i := i) (t := t) (x := x) rest
        refine ⟨done, split, ?_, phases⟩
        rw [log, List.filter_append, List.map_append, out]
        have none_more : (more.map (Prod.mk i)).filter (·.1 = j) = [] := by
          simp [List.filter_eq_nil_iff, other.symm]
        simp [none_more]
      · obtain ⟨n, -, rfl⟩ := List.mem_map.mp new
        obtain ⟨more, log⟩ := exec_log_append (p := p) (s := s) (i := i) (t := t) (x := x) rest
        have within : i < s.tasks.length := (List.getElem?_eq_some_iff.mp here).1
        refine ⟨[], rfl, ?_, fun _ => rfl, by simp [task]⟩
        have silent : (p.exec s i t x rest).log.filter (·.1 = j) = [] := by
          rw [log, List.filter_append, List.append_eq_nil_iff]
          constructor
          · simp only [List.filter_eq_nil_iff, decide_eq_true_eq]
            intro e e_there same
            obtain ⟨a, at_e, -⟩ := ordered.logged e e_there
            have := (List.getElem?_eq_some_iff.mp at_e).1
            omega
          · have : i ≠ j := by omega
            simp [List.filter_eq_nil_iff, this]
        simp [silent]

omit [DecidableEq Q] [DecidableEq S] [DecidableEq G] in
/-- A task prints the lines of its block in their order. -/
theorem Written.own_lines (written : Written p s) (here : s.tasks[i]? = some t)
    (straight : ∀ x ∈ p.body t.submission.block, x.straight) :
    (s.log.filter (·.1 = i)).map Prod.snd <+:
      (p.body t.submission.block).filterMap Instr.printed := by
  obtain ⟨done, split, out, -, -⟩ := written i t here straight
  rw [out, split, List.filterMap_append]
  exact List.prefix_append _ _

end Straight

section Submitting

variable (p) in
/-- Only the block `main` submits, and it only submits other blocks. -/
structure Submits (main : B) : Prop where
  others : ∀ b, b ≠ main → ∀ x ∈ p.body b, x.silent
  own : ∀ x ∈ p.body main, x.silent ∨ ∃ n : Submission Q B, x = .async n.queue n.barrier n.block ∧
    n.block ≠ main

variable (p) in
/-- The tasks are the blocks that `main` has submitted so far. -/
def Submitted (main : B) (s : State σ ω Q S G B) : Prop :=
  ∃ t later done, s.tasks = t :: later ∧ t.submission.block = main ∧ p.body main = done ++ t.rest ∧
    later.map WorkItem.submission = done.filterMap Instr.asyncs ∧
    (∀ v ∈ later, v.submission.block ≠ main ∧ ∀ x ∈ v.rest, x.silent) ∧
    (t.phase = .finished → t.rest = []) ∧ s.trapped = false

variable {main : B}

omit [DecidableEq Q] [DecidableEq S] [DecidableEq G] in
theorem Submitted.start (store : σ) (count : S → ℕ) (queue : Q) :
    Submitted p main (p.start (ω := ω) store count queue main) :=
  ⟨_, [], [], rfl, rfl, rfl, rfl, by simp, by simp, rfl⟩

omit [DecidableEq Q] in
theorem exec_of_silent {x : Instr σ ω Q S G B} (silent : x.silent) {t : WorkItem σ ω Q S G B}
    (rest : List (Instr σ ω Q S G B)) :
    (p.exec s i t x rest).tasks = s.tasks.set i { t with rest := rest, awaits := [] } ∧
      (p.exec s i t x rest).trapped = s.trapped ∧ (p.exec s i t x rest).entered = s.entered ∧
      (p.exec s i t x rest).notifies = s.notifies := by
  cases x with
  | act f => exact ⟨List.append_nil _, rfl, rfl, rfl⟩
  | print x => exact ⟨List.append_nil _, rfl, rfl, rfl⟩
  | printWith f => exact ⟨List.append_nil _, rfl, rfl, rfl⟩
  | _ => simp [Instr.silent] at silent

omit [DecidableEq Q] in
theorem exec_of_loud {x : Instr σ ω Q S G B} (loud : x.silent = false) {t : WorkItem σ ω Q S G B}
    (rest : List (Instr σ ω Q S G B)) :
    (p.exec s i t x rest).log = s.log ∧ (p.exec s i t x rest).store = s.store := by
  cases x with
  | act f => cases loud
  | print x => cases loud
  | printWith f => cases loud
  | leave g => simp only [exec, State.effect]; split_ifs <;> exact ⟨rfl, rfl⟩
  | notify g q b => simp only [exec, State.effect]; split_ifs <;> exact ⟨rfl, rfl⟩
  | _ => exact ⟨rfl, rfl⟩

theorem Submitted.step (submits : p.Submits main) (submitted : Submitted p main s)
    (stepped : p.step s i = some u) : Submitted p main u := by
  obtain ⟨t, later, done, tasks, block, code, subs, others, ended, untrapped⟩ := submitted
  -- a step of another task touches neither the first one nor what was submitted
  have elsewhere : ∀ {k : ℕ} {v : WorkItem σ ω Q S G B} (v' : WorkItem σ ω Q S G B),
      later[k]? = some v → v'.submission = v.submission → (∀ x ∈ v'.rest, x ∈ v.rest) →
        ∀ w : State σ ω Q S G B,
      w.tasks = s.tasks.set (k + 1) v' → w.trapped = false → Submitted p main w := by
    intro k v v' at_k same fewer w w_tasks w_untrapped
    obtain ⟨within, v_there⟩ := List.getElem?_eq_some_iff.mp at_k
    refine ⟨t, later.set k v', done,
      by rw [w_tasks, tasks, List.set_cons_succ], block, code, ?_, ?_, ended, w_untrapped⟩
    · rw [List.map_set, same, ← subs]
      rw [← v_there, ← List.map_set, List.set_getElem_self]
    · intro y there
      cases List.mem_or_eq_of_mem_set there with
      | inl old => exact others y old
      | inr new =>
          subst new
          have old := others v (List.mem_of_getElem? at_k)
          exact ⟨same ▸ old.1, fun x x_there => old.2 x (fewer x x_there)⟩
  have silent_later : ∀ {k : ℕ} {v : WorkItem σ ω Q S G B}, later[k]? = some v →
      ∀ x ∈ v.rest, x.silent :=
    fun at_k => (others _ (List.mem_of_getElem? at_k)).2
  cases (stepped_of_step stepped).2 with
  | @start v here queued may =>
      rw [tasks] at here
      cases i with
      | succ k =>
          exact elsewhere { v with phase := .running } here rfl (fun _ => id) _ rfl untrapped
      | zero =>
          obtain rfl : t = v := Option.some.inj here
          exact ⟨{ t with phase := .running }, later, done,
            by rw [tasks, List.set_cons_zero], block, code, subs, others, by simp, untrapped⟩
  | @finish v here running waited empty =>
      rw [tasks] at here
      cases i with
      | succ k =>
          exact elsewhere { v with phase := .finished } here rfl (fun _ => id) _ rfl untrapped
      | zero =>
          obtain rfl : t = v := Option.some.inj here
          exact ⟨{ t with phase := .finished }, later, done,
            by rw [tasks, List.set_cons_zero], block, code, subs, others, fun _ => empty, untrapped⟩
  | @exec v x rest here running waited split allowed =>
      rw [tasks] at here
      cases i with
      | succ k =>
          have silent := silent_later here x (by simp [split])
          obtain ⟨after, trap, -⟩ := exec_of_silent (p := p) (s := s) (i := k + 1)
            (t := v) silent rest
          refine elsewhere { v with rest := rest, awaits := [] } here rfl ?_ _ after
            (trap.trans untrapped)
          intro y y_there
          rw [split]
          exact List.mem_cons_of_mem x y_there
      | zero =>
          obtain rfl : t = v := Option.some.inj here
          rw [split] at code
          have code' : p.body main = (done ++ [x]) ++ rest := by simp [code]
          cases submits.own x (by rw [code]; simp) with
          | inl silent =>
              obtain ⟨after, trap, -⟩ := exec_of_silent (p := p) (s := s) (i := 0)
                (t := t) silent rest
              refine ⟨{ t with rest := rest, awaits := [] }, later, done ++ [x],
                by rw [after, tasks, List.set_cons_zero], block, code', ?_, others,
                by simp [running], trap.trans untrapped⟩
              rw [subs, List.filterMap_append]
              cases x <;> simp_all [Instr.silent, Instr.asyncs]
          | inr submit =>
              obtain ⟨n, rfl, other⟩ := submit
              refine ⟨{ t with rest := rest, awaits := [] }, later ++ [p.task n],
                done ++ [_], ?_, block, code', ?_, ?_, by simp [running], untrapped⟩
              · simp [exec, tasks, State.submits, next, State.awaits]
              · rw [List.map_append, subs, List.filterMap_append]
                rfl
              · intro y there
                rw [List.mem_append, List.mem_singleton] at there
                cases there with
                | inl old => exact others y old
                | inr new =>
                    subst new
                    exact ⟨other, submits.others n.block other⟩

end Submitting

section Ending

/-- The steps a task has left. -/
def left (weight : B → ℕ) (t : WorkItem σ ω Q S G B) : ℕ :=
  match t.phase with
  | .queued => (t.rest.map (Instr.cost weight)).sum + 2
  | .running => (t.rest.map (Instr.cost weight)).sum + 1
  | .finished => 0

def remaining (weight : B → ℕ) (s : State σ ω Q S G B) : ℕ :=
  (s.tasks.map (left weight)).sum + (s.notifies.map fun n => weight n.2.block).sum

theorem sum_map_set {α : Type} (f : α → ℕ) {l : List α} {a b : α} (here : l[i]? = some a) :
    ((l.set i b).map f).sum + f a = (l.map f).sum + f b := by
  induction l generalizing i with
  | nil => cases here
  | cons c l ih =>
      cases i with
      | zero =>
          obtain rfl : c = a := Option.some.inj here
          simp only [List.set_cons_zero, List.map_cons, List.sum_cons]
          omega
      | succ i =>
          have := ih (i := i) here
          simp only [List.set_cons_succ, List.map_cons, List.sum_cons]
          omega

variable {weight : B → ℕ}
  (enough : ∀ b, ((p.body b).map (Instr.cost weight)).sum + 2 ≤ weight b)

omit [DecidableEq Q] [DecidableEq S] [DecidableEq G] in
include enough in
theorem submitted_le (subs : List (Submission Q B)) :
    ((subs.map p.task).map (left weight)).sum ≤ (subs.map fun n => weight n.block).sum := by
  induction subs with
  | nil => simp
  | cons n subs ih =>
      have := enough n.block
      simp only [List.map_cons, List.sum_cons, left, task]
      omega

omit [DecidableEq Q] in
/-- What an instruction submits and keeps for later is in its cost. -/
theorem submits_cost (weight : B → ℕ) {x : Instr σ ω Q S G B} (once : x.loops = false) :
    ((s.submits x).map fun n => weight n.block).sum +
        ((s.effect i x).notifies.map fun n => weight n.2.block).sum + 1 ≤
      x.cost weight + (s.notifies.map fun n => weight n.2.block).sum := by
  cases x with
  | repeatWhile condition b => simp [Instr.loops] at once
  | leave g =>
      simp only [State.submits, State.effect, Instr.cost]
      by_cases last : s.entered g = 1
      · have parts : (s.notifies.filter (·.1 = g) ++
          s.notifies.filter (·.1 ≠ g)).Perm s.notifies := by
          simpa using List.filter_append_perm (fun n => decide (n.1 = g)) s.notifies
        have sums := (parts.map fun n => weight n.2.block).sum_nat
        rw [List.map_append, List.sum_append] at sums
        simp only [last, if_true, Nat.one_ne_zero, if_false, List.map_map]
        simp only [Function.comp_def] at sums ⊢
        omega
      · simp only [last, if_false]
        split_ifs <;> simp
  | notify g q b =>
      simp only [State.submits, State.effect, Instr.cost]
      split_ifs
      · simp
      · simp
        omega
  | perform q iterations b =>
      simp only [State.submits, State.effect, Instr.cost, List.map_map, Function.comp_def]
      omega
  | _ =>
      simp only [State.submits, State.effect, Instr.cost, List.map_cons, List.map_nil,
        List.sum_cons, List.sum_nil]
      omega

omit [DecidableEq Q] [DecidableEq S] [DecidableEq G] in
theorem next_of_loopless {x : Instr σ ω Q S G B} {rest : List (Instr σ ω Q S G B)}
    (once : x.loops = false) : p.next s x rest = rest := by
  cases x with
  | repeatWhile condition b => simp [Instr.loops] at once
  | _ => rfl

include enough in
/-- Every step takes something off what is left. -/
theorem remaining_step (loopless : s.Only fun x => x.loops = false)
    (stepped : p.step s i = some u) :
    remaining weight u + 1 ≤ remaining weight s := by
  cases (stepped_of_step stepped).2 with
  | @start t here queued may =>
      have := sum_map_set (left weight) (b := { t with phase := .running }) here
      simp only [remaining, left, queued] at *
      omega
  | @finish t here running waited code =>
      have := sum_map_set (left weight) (b := { t with phase := .finished }) here
      simp only [remaining, left, running] at *
      omega
  | @exec t y rest here running waited code allowed =>
      have once := loopless t (List.mem_of_getElem? here) y (by simp [code])
      have own := sum_map_set (left weight)
          (b := { t with rest := rest, awaits := s.awaits y }) here
      have submitted := submitted_le enough (s.submits y)
      have cost := submits_cost (s := s) (i := i) weight once
      simp only [remaining, exec, next_of_loopless once, List.map_append, List.sum_append]
      simp only [left, running, code, List.map_cons, List.sum_cons] at own submitted ⊢
      omega

include enough in
/-- No run is longer than what is left at its beginning. -/
theorem length_run_le (bodies : ∀ b, ∀ x ∈ p.body b, x.loops = false)
    (loopless : s.Only fun x => x.loops = false) {is : List ℕ} (run : p.machine.run s is = some u) :
    is.length ≤ remaining weight s := by
  induction is generalizing s with
  | nil => exact Nat.zero_le _
  | cons i is ih =>
      obtain ⟨v, stepped, rest⟩ := p.machine.run_cons_some run
      have shorter := remaining_step enough loopless stepped
      have := ih (only_step bodies loopless stepped) rest
      rw [List.length_cons]
      omega

/-- A task that never waits for others does not begin to. -/
theorem awaits_step (free : s.Only fun x => x.joins = false) (awaits : ∀ t ∈ s.tasks, t.awaits = [])
    (stepped : p.step s i = some u) : ∀ t ∈ u.tasks, t.awaits = [] := by
  intro v there
  obtain ⟨k, at_k⟩ := List.mem_iff_getElem?.mp there
  cases (stepped_of_step stepped).2 with
  | @start t here queued may =>
      rcases getElem?_put at_k with ⟨-, rfl⟩ | ⟨-, old⟩
      · exact awaits t (List.mem_of_getElem? here)
      · exact awaits v (List.mem_of_getElem? old)
  | @finish t here running waited code =>
      rcases getElem?_put at_k with ⟨-, rfl⟩ | ⟨-, old⟩
      · exact awaits t (List.mem_of_getElem? here)
      · exact awaits v (List.mem_of_getElem? old)
  | @exec t y rest here running waited code allowed =>
      have own := free t (List.mem_of_getElem? here) y (by simp [code])
      rcases getElem?_moved at_k with ⟨-, rfl⟩ | ⟨-, old⟩ | ⟨-, new⟩
      · cases y with
        | sync q b => cases own
        | perform q n b => cases own
        | _ => rfl
      · exact awaits v (List.mem_of_getElem? old)
      · obtain ⟨n, -, rfl⟩ := List.mem_map.mp new
        rfl

/-- A task that has finished has nothing left. -/
theorem ended_step (ended : ∀ t ∈ s.tasks, t.phase = .finished → t.rest = [])
    (stepped : p.step s i = some u) : ∀ t ∈ u.tasks, t.phase = .finished → t.rest = [] := by
  intro v there phase
  obtain ⟨k, at_k⟩ := List.mem_iff_getElem?.mp there
  cases (stepped_of_step stepped).2 with
  | @start t here queued may =>
      rcases getElem?_put at_k with ⟨-, rfl⟩ | ⟨-, old⟩
      · cases phase
      · exact ended v (List.mem_of_getElem? old) phase
  | @finish t here running waited code =>
      rcases getElem?_put at_k with ⟨-, rfl⟩ | ⟨-, old⟩
      · exact code
      · exact ended v (List.mem_of_getElem? old) phase
  | @exec t y rest here running waited code allowed =>
      rcases getElem?_moved at_k with ⟨-, rfl⟩ | ⟨-, old⟩ | ⟨-, new⟩
      · simp [running] at phase
      · exact ended v (List.mem_of_getElem? old) phase
      · obtain ⟨n, -, rfl⟩ := List.mem_map.mp new
        cases phase

/-- What keeps a task from going on when those it waits for have finished. -/
theorem held_of_stuck (trapped : s.trapped = false) (stuck : p.Stuck s) {t : WorkItem σ ω Q S G B}
    (here : s.tasks[i]? = some t) (waited : t.phase = .running → t.awaits.all s.finished) :
    t.phase = .finished ∨ t.phase = .queued ∧ p.mayStart s i t = false ∨
      t.phase = .running ∧ ∃ x rest, t.rest = x :: rest ∧ s.allows x = false := by
  have none_steps : ∀ u, ¬p.Stepped s i u := by
    intro u stepped
    have := step_of_stepped trapped stepped
    rw [stuck i] at this
    cases this
  cases phase : t.phase with
  | finished => exact .inl rfl
  | queued =>
      refine .inr (.inl ⟨rfl, ?_⟩)
      by_contra may
      exact none_steps _ (.start here phase (by simpa using may))
  | running =>
      cases code : t.rest with
      | nil => exact absurd (.finish here phase (waited phase) code) (none_steps _)
      | cons x rest =>
          refine .inr (.inr ⟨rfl, x, rest, rfl, ?_⟩)
          by_contra allowed
          exact none_steps _ (.exec here phase (waited phase) code (by simpa using allowed))

/-- Where nothing holds up a task, the first one that has not finished can go on. -/
theorem finished_of_stuck (free : s.Only fun x => x.blocks = false)
    (awaits : ∀ t ∈ s.tasks, t.awaits = []) (trapped : s.trapped = false) (stuck : p.Stuck s) :
    ∀ t ∈ s.tasks, t.phase = .finished := by
  have all : ∀ (k : ℕ) (t : WorkItem σ ω Q S G B), s.tasks[k]? = some t → t.phase = .finished := by
    intro k
    induction k using Nat.strongRecOn with
    | ind k ih =>
        intro t there
        have member := List.mem_of_getElem? there
        have waited : t.awaits.all s.finished := by simp [awaits t member]
        rcases held_of_stuck trapped stuck there (fun _ => waited) with done | ⟨-, held⟩ |
          ⟨-, x, rest, code, held⟩
        · exact done
        · have may : p.mayStart s k t := by
            rw [mayStart, List.all_eq_true]
            intro v v_there
            obtain ⟨j, at_j⟩ := List.mem_iff_getElem?.mp v_there
            have before : j < k := by
              have := (List.getElem?_eq_some_iff.mp at_j).1
              rw [List.length_take] at this
              omega
            rw [List.getElem?_take_of_lt before] at at_j
            simp [ih j before v at_j]
          rw [may] at held
          cases held
        · have unblocked := free t member x (by simp [code])
          cases x with
          | wait k => cases unblocked
          | _ => cases held
  intro t there
  obtain ⟨k, at_k⟩ := List.mem_iff_getElem?.mp there
  exact all k t at_k

theorem log_prefix_of_step (stepped : p.step s i = some u) : s.log <+: u.log := by
  obtain ⟨t, t', new, -, -, -, how⟩ := (stepped_of_step stepped).2.moved
  cases how with
  | inl starts => exact starts.2.2.2 ▸ List.prefix_refl _
  | inr goes =>
      obtain ⟨-, -, out, log⟩ := goes
      exact log ▸ List.prefix_append _ _

include enough in
/-- A run can be kept going until no task can go on, and only prints more. -/
theorem exists_stuck (bodies : ∀ b, ∀ x ∈ p.body b, x.loops = false)
    (loopless : s.Only fun x => x.loops = false) :
    ∃ is u, p.machine.run s is = some u ∧ p.Stuck u ∧ s.log <+: u.log ∧ (p.Stuck s → u = s) := by
  obtain ⟨n, bound⟩ : ∃ n, remaining weight s ≤ n := ⟨_, Nat.le_refl _⟩
  induction n generalizing s with
  | zero =>
      refine ⟨[], s, rfl, fun i => ?_, List.prefix_refl _, fun _ => rfl⟩
      cases stepped : p.step s i with
      | none => rfl
      | some u =>
          have := remaining_step enough loopless stepped
          omega
  | succ n ih =>
      by_cases stuck : p.Stuck s
      · exact ⟨[], s, rfl, stuck, List.prefix_refl _, fun _ => rfl⟩
      · obtain ⟨i, goes⟩ := not_forall.mp stuck
        obtain ⟨v, stepped⟩ := Option.ne_none_iff_exists'.mp goes
        have less := remaining_step enough loopless stepped
        obtain ⟨is, u, run, ended, more, -⟩ := ih (only_step bodies loopless stepped) (by omega)
        refine ⟨i :: is, u, ?_, ended, (log_prefix_of_step stepped).trans more,
          fun h => absurd h stuck⟩
        rw [p.machine.run_cons]
        exact Option.bind_eq_some_iff.mpr ⟨v, stepped, run⟩

end Ending

section Complete

variable {main : B}

omit [DecidableEq Q] [DecidableEq S] [DecidableEq G] in
theorem Submits.plain (submits : p.Submits main) (b : B) {x : Instr σ ω Q S G B}
    (there : x ∈ p.body b) :
    x.blocks = false ∧ x.loops = false := by
  have kind : x.silent ∨ ∃ n : Submission Q B, x = .async n.queue n.barrier n.block ∧
      n.block ≠ main := by
    by_cases own : b = main
    · subst own
      exact submits.own x there
    · exact .inl (submits.others b own x there)
  cases kind with
  | inl silent => cases x <;> simp_all [Instr.silent, Instr.blocks, Instr.joins, Instr.loops]
  | inr submit =>
      obtain ⟨n, rfl, -⟩ := submit
      exact ⟨rfl, rfl⟩

/-- What holds along all runs of a program in which only `main` submits. -/
structure Run (p : Program σ ω Q S G B) (main : B) (s : State σ ω Q S G B) : Prop where
  ordered : p.Ordered s
  written : p.Written s
  submitted : p.Submitted main s
  free : s.Only fun x => x.blocks = false
  awaits : ∀ t ∈ s.tasks, t.awaits = []

theorem Submits.run (submits : p.Submits main) {store : σ} {count : S → ℕ} {queue : Q}
    (reached : p.machine.Reachable (p.start (ω := ω) store count queue main) s) : Run p main s := by
  refine reached.invariant (I := Run p main) ?_ ?_
  · intro s i u run stepped
    exact ⟨run.ordered.step stepped, run.written.step run.ordered stepped,
      run.submitted.step submits stepped,
      only_step (fun b x there => (submits.plain b there).1) run.free stepped,
      awaits_step (State.Only.mono run.free Instr.joins_of_blocks) run.awaits stepped⟩
  · refine ⟨.start .., Written.start _ _ _ _, .start .., ?_, ?_⟩
    · intro t there x x_there
      obtain rfl := List.mem_singleton.mp there
      exact (submits.plain main x_there).1
    · intro t there
      obtain rfl := List.mem_singleton.mp there
      rfl

/-- When no task can go on, every block has been submitted and has printed all it says. -/
theorem Run.complete (run : Run p main s) (straight : ∀ b, ∀ x ∈ p.body b, x.straight)
    (stuck : p.Stuck s) :
    ∃ t later, s.tasks = t :: later ∧ t.submission.block = main ∧
      later.map WorkItem.submission = (p.body main).filterMap Instr.asyncs ∧
      ∀ k v, s.tasks[k]? = some v → (s.log.filter (·.1 = k)).map Prod.snd =
        (p.body v.submission.block).filterMap Instr.printed := by
  obtain ⟨t, later, done, tasks, block, code, subs, -, -, untrapped⟩ := run.submitted
  have finished := finished_of_stuck run.free run.awaits untrapped stuck
  have printed : ∀ k v, s.tasks[k]? = some v → v.rest = [] ∧
      (s.log.filter (·.1 = k)).map Prod.snd =
      (p.body v.submission.block).filterMap Instr.printed := by
    intro k v at_k
    obtain ⟨done, split, out, -, ended⟩ := run.written k v at_k (straight _)
    have empty := ended (finished v (List.mem_of_getElem? at_k))
    rw [empty, List.append_nil] at split
    rw [split]
    exact ⟨empty, out⟩
  refine ⟨t, later, tasks, block, ?_, fun k v at_k => (printed k v at_k).2⟩
  have empty := (printed 0 t (by simp [tasks])).1
  rw [empty, List.append_nil] at code
  rw [code, subs]

omit [DecidableEq S] [DecidableEq G] in
theorem before_of_submissions {subs : List (Submission Q B)}
    (tasks : s.tasks.map WorkItem.submission = subs) {i j : ℕ} {a b : Submission Q B} (lt : i < j)
    (at_i : subs[i]? = some a) (at_j : subs[j]? = some b)
    (apart : p.apart a b) : p.Before s i j := by
  subst tasks
  rw [List.getElem?_map, Option.map_eq_some_iff] at at_i at_j
  obtain ⟨v, there_v, rfl⟩ := at_i
  obtain ⟨w, there_w, rfl⟩ := at_j
  exact ⟨lt, v, w, there_v, there_w, apart⟩

omit [DecidableEq S] [DecidableEq G] in
/-- What tasks of different ranks print, in the order of the ranks. -/
theorem Run.ranked (run : Run p main s) {rank : ℕ → ℕ} {n : ℕ} (below : ∀ e ∈ s.log, rank e.1 < n)
    (chain : ∀ e ∈ s.log, ∀ f ∈ s.log, rank e.1 < rank f.1 →
      Relation.TransGen (p.Before s) e.1 f.1) :
    s.log = (List.range n).flatMap fun k => s.log.filter (rank ·.1 = k) := by
  refine eq_flatMap_of_pairwise ?_ below
  refine run.ordered.sorted.imp_of_mem ?_
  intro e f e_there f_there not_before
  by_contra lt
  exact not_before (chain f f_there e e_there (by omega))

end Complete

end Steps

end Program

end LearningProjects.Dispatch
