import LearningProjects.Machine
import Mathlib.Data.List.Basic
import Mathlib.Tactic.Common

/-! # The bounded run-loop task queue of `OptimizeListController`

`addRunloopBlock` appends to `runloopBlockArr` and drops the oldest entry once
the array is longer than `maxQueueTaskCount`. The `beforeWaiting` observer
executes the first block and only then removes the first entry, so blocks which
the executing block submits meet both the eviction and the observer's own
`removeFirst`. What a block does is not fixed: while it runs it may submit any
number of blocks, and it returns any `quit` flag.
-/

namespace LearningProjects.RunLoop.TaskQueue

/-- A submitted block with its place in submission order. The number exists in
    the model only, so that equal blocks submitted twice stay distinguishable. -/
structure Task (β : Type*) where
  number : Nat
  block : β
  deriving DecidableEq, Repr

/-- A block which the observer has called and which has not returned yet. -/
structure Call (β : Type*) where
  task : Task β
  /-- Length of `runloopBlockArr` when the block is called. -/
  queued : Nat
  /-- Blocks it has submitted so far. -/
  submits : Nat
  deriving DecidableEq, Repr

/-- An entry which `addRunloopBlock` dropped, and the entries that stayed. -/
structure Eviction (β : Type*) where
  task : Task β
  kept : List (Task β)
  deriving DecidableEq, Repr

/-- `runloopBlockArr` together with the observer's position in its loop. The
    last four fields are a log of the run and are never read by the code. -/
structure Controller (β : Type*) where
  runloopBlockArr : List (Task β)
  running : Option (Call β)
  submitted : Nat
  executed : List (Task β)
  removed : List (Task β)
  evicted : List (Eviction β)
  deriving DecidableEq, Repr

inductive Event (β : Type*) where
  /-- `addRunloopBlock`, by the running block or from outside the observer. -/
  | add (block : β)
  /-- The run loop is about to wait and calls the observer. -/
  | beforeWaiting
  /-- The running block returns its flag. -/
  | ret (quit : Bool)
  deriving DecidableEq, Repr

namespace Controller

variable {β : Type*}

def start : Controller β := ⟨[], none, 0, [], [], []⟩

/-- `runloopBlockArr.append(block)`. -/
def append (s : Controller β) (block : β) : Controller β :=
  { s with
    runloopBlockArr := s.runloopBlockArr ++ [⟨s.submitted, block⟩]
    running := s.running.map fun call => { call with submits := call.submits + 1 }
    submitted := s.submitted + 1 }

def addRunloopBlock (maxQueueTaskCount : Nat) (s : Controller β) (block : β) : Controller β :=
  let s := s.append block
  match s.runloopBlockArr with
  | first :: rest =>
      if maxQueueTaskCount < s.runloopBlockArr.length then
        { s with runloopBlockArr := rest, evicted := s.evicted ++ [⟨first, rest⟩] }
      else s
  | [] => s

/-- The head of `while !quit, this.runloopBlockArr.count > 0`: call the first
    block, or leave the observer. -/
def loop (s : Controller β) (quit : Bool) : Controller β :=
  match quit, s.runloopBlockArr with
  | false, block :: rest =>
      { s with
        running := some ⟨block, (block :: rest).length, 0⟩
        executed := s.executed ++ [block] }
  | _, _ => { s with running := none }

def beforeWaiting (s : Controller β) : Controller β :=
  if s.runloopBlockArr.isEmpty then s else s.loop false

/-- `this.runloopBlockArr.removeFirst()` after the block returned, then the next
    turn of the loop. An empty array would trap; this is `none`. -/
def blockReturned (s : Controller β) (quit : Bool) : Option (Controller β) :=
  match s.runloopBlockArr with
  | first :: rest =>
      some (loop { s with
        runloopBlockArr := rest
        running := none
        removed := s.removed ++ [first] } quit)
  | [] => none

end Controller

open Controller

/-- The main thread: the observer runs one block at a time, and only a running
    block can return. -/
def machine (β : Type*) (maxQueueTaskCount : Nat) : Machine (Controller β) (Event β) where
  step s
    | .add block => some (s.addRunloopBlock maxQueueTaskCount block)
    | .beforeWaiting => if s.running.isSome then none else some s.beforeWaiting
    | .ret quit => if s.running.isSome then s.blockReturned quit else none

/-- The block was dropped by an overflowing add, and everything that was still
    waiting then had been submitted after it. -/
def Eviction.OfOldest {β : Type*} (maxQueueTaskCount : Nat) (e : Eviction β) : Prop :=
  maxQueueTaskCount < e.kept.length + 1 ∧ ∀ t ∈ e.kept, e.task.number < t.number

/-- What the queue promises in each state of a run. -/
structure Discipline {β : Type*} (maxQueueTaskCount : Nat) (s : Controller β) : Prop where
  bounded : s.runloopBlockArr.length ≤ maxQueueTaskCount
  /-- Executed in submission order, hence each at most once. -/
  ordered : s.executed.Pairwise (·.number < ·.number)
  /-- No submitted block is lost. -/
  accounted : ∀ n < s.submitted, (∃ t ∈ s.executed, t.number = n) ∨
    (∃ t ∈ s.runloopBlockArr, t.number = n) ∨
    (∃ e ∈ s.evicted, e.task.number = n ∧ e.OfOldest maxQueueTaskCount)
  /-- The observer removes the blocks it executed, the running one excepted. -/
  drained : s.executed = s.removed ++ (s.running.map Call.task).toList

/-- A block that returns has submitted no more blocks than the queue had room
    for when it was called. -/
def RoomAtReturn {β : Type*} (maxQueueTaskCount : Nat) (s : Controller β) : Event β → Prop
  | .ret _ => ∀ call, s.running = some call → call.queued + call.submits ≤ maxQueueTaskCount
  | _ => True

/-- The orders in which blocks are numbered, queued, executed and removed. -/
structure InOrder {β : Type*} (s : Controller β) : Prop where
  queueSorted : s.runloopBlockArr.Pairwise (·.number < ·.number)
  queueSubmitted : ∀ t ∈ s.runloopBlockArr, t.number < s.submitted
  executedSorted : s.executed.Pairwise (·.number < ·.number)
  executedSubmitted : ∀ t ∈ s.executed, t.number < s.submitted
  removedBefore : ∀ r ∈ s.removed, ∀ t ∈ s.runloopBlockArr, r.number < t.number
  drained : s.executed = s.removed ++ (s.running.map Call.task).toList

/-- The running block against the queue: it is still the first entry exactly
    while no add has overflowed under it. -/
structure CallOk {β : Type*} (maxQueueTaskCount : Nat) (s : Controller β) (call : Call β) :
    Prop where
  queued : 0 < call.queued ∧ call.queued ≤ maxQueueTaskCount
  length : s.runloopBlockArr.length = min maxQueueTaskCount (call.queued + call.submits)
  first : call.queued + call.submits ≤ maxQueueTaskCount →
    s.runloopBlockArr.head? = some call.task
  dropped : maxQueueTaskCount < call.queued + call.submits →
    ∀ t ∈ s.runloopBlockArr, call.task.number < t.number

/-- What holds between any two events, as long as every block that returned had
    room. -/
structure Inv {β : Type*} (maxQueueTaskCount : Nat) (s : Controller β) : Prop where
  order : InOrder s
  bounded : s.runloopBlockArr.length ≤ maxQueueTaskCount
  accounted : ∀ n < s.submitted, (∃ t ∈ s.executed, t.number = n) ∨
    (∃ t ∈ s.runloopBlockArr, t.number = n) ∨
    (∃ e ∈ s.evicted, e.task.number = n ∧ e.OfOldest maxQueueTaskCount)
  call : ∀ call, s.running = some call → CallOk maxQueueTaskCount s call

section Steps

variable {β : Type*} {maxQueueTaskCount : Nat} {s : Controller β}

theorem Inv.start : Inv maxQueueTaskCount (start : Controller β) where
  order := by constructor <;> simp [Controller.start]
  bounded := Nat.zero_le _
  accounted := by simp [Controller.start]
  call := by simp [Controller.start]

theorem Inv.discipline (h : Inv maxQueueTaskCount s) : Discipline maxQueueTaskCount s :=
  ⟨h.bounded, h.order.executedSorted, h.accounted, h.order.drained⟩

/-- The two things an add can do: keep everything, or drop the oldest entry of
    the array that overflowed. -/
theorem addRunloopBlock_cases (maxQueueTaskCount : Nat) (s : Controller β) (block : β) :
    (s.runloopBlockArr.length < maxQueueTaskCount ∧
      s.addRunloopBlock maxQueueTaskCount block = s.append block) ∨
    (maxQueueTaskCount ≤ s.runloopBlockArr.length ∧ ∃ first rest,
      (s.append block).runloopBlockArr = first :: rest ∧
      s.addRunloopBlock maxQueueTaskCount block =
        { s.append block with
          runloopBlockArr := rest
          evicted := s.evicted ++ [⟨first, rest⟩] }) := by
  have length : (s.append block).runloopBlockArr.length = s.runloopBlockArr.length + 1 := by
    simp [append]
  cases queue : (s.append block).runloopBlockArr with
  | nil => simp [queue] at length
  | cons first rest =>
      rw [queue] at length
      by_cases room : s.runloopBlockArr.length < maxQueueTaskCount
      · left
        refine ⟨room, ?_⟩
        simp only [addRunloopBlock, queue]
        rw [if_neg (by omega)]
      · right
        refine ⟨by omega, first, rest, rfl, ?_⟩
        simp only [addRunloopBlock, queue]
        rw [if_pos (by omega)]
        rfl

theorem length_addRunloopBlock (maxQueueTaskCount : Nat) (s : Controller β) (block : β)
    (bounded : s.runloopBlockArr.length ≤ maxQueueTaskCount) :
    (s.addRunloopBlock maxQueueTaskCount block).runloopBlockArr.length =
      min maxQueueTaskCount (s.runloopBlockArr.length + 1) := by
  rcases addRunloopBlock_cases maxQueueTaskCount s block with
    ⟨room, eq⟩ | ⟨full, first, rest, queue, eq⟩
  · rw [eq]
    simp only [append, List.length_append, List.length_singleton]
    omega
  · have lengths := congrArg List.length queue
    rw [eq]
    simp only [append, List.length_append, List.length_cons, List.length_nil] at lengths ⊢
    omega

@[simp] theorem addRunloopBlock_submitted (s : Controller β) (block : β) :
    (s.addRunloopBlock maxQueueTaskCount block).submitted = s.submitted + 1 := by
  rcases addRunloopBlock_cases maxQueueTaskCount s block with ⟨-, eq⟩ | ⟨-, first, rest, -, eq⟩ <;>
    rw [eq] <;> rfl

@[simp] theorem addRunloopBlock_executed (s : Controller β) (block : β) :
    (s.addRunloopBlock maxQueueTaskCount block).executed = s.executed := by
  rcases addRunloopBlock_cases maxQueueTaskCount s block with ⟨-, eq⟩ | ⟨-, first, rest, -, eq⟩ <;>
    rw [eq] <;> rfl

theorem addRunloopBlock_idle (block : β) (idle : s.running = none) :
    (s.addRunloopBlock maxQueueTaskCount block).running = none := by
  rcases addRunloopBlock_cases maxQueueTaskCount s block with ⟨-, eq⟩ | ⟨-, first, rest, -, eq⟩ <;>
    rw [eq] <;> simp [append, idle]

theorem mem_addRunloopBlock {block : β} {t : Task β}
    (member : t ∈ (s.addRunloopBlock maxQueueTaskCount block).runloopBlockArr) :
    t ∈ s.runloopBlockArr ∨ t = ⟨s.submitted, block⟩ := by
  have appended : t ∈ (s.append block).runloopBlockArr := by
    rcases addRunloopBlock_cases maxQueueTaskCount s block with
      ⟨-, eq⟩ | ⟨-, first, rest, queue, eq⟩
    · exact eq ▸ member
    · rw [eq] at member
      exact queue ▸ List.mem_cons_of_mem _ member
  simpa [append] using appended

theorem InOrder.append (h : InOrder s) (block : β) : InOrder (s.append block) where
  queueSorted := by
    simp only [Controller.append, List.pairwise_append, List.pairwise_singleton, List.mem_singleton,
      forall_eq, true_and]
    exact ⟨h.queueSorted, h.queueSubmitted⟩
  queueSubmitted := by
    intro t member
    simp only [Controller.append, List.mem_append, List.mem_singleton] at member ⊢
    rcases member with old | rfl
    · exact Nat.lt_succ_of_lt (h.queueSubmitted t old)
    · exact Nat.lt_succ_self _
  executedSorted := h.executedSorted
  executedSubmitted := fun t member => Nat.lt_succ_of_lt (h.executedSubmitted t member)
  removedBefore := by
    intro r removed t member
    simp only [Controller.append, List.mem_append, List.mem_singleton] at member
    rcases member with old | rfl
    · exact h.removedBefore r removed t old
    · exact h.executedSubmitted r (h.drained ▸ List.mem_append_left _ removed)
  drained := by
    rw [Controller.append, h.drained]
    cases s.running <;> rfl

/-- Dropping entries keeps every order. -/
theorem InOrder.dropped (h : InOrder s) {rest : List (Task β)}
    (sub : rest.Sublist s.runloopBlockArr) (evicted : List (Eviction β)) :
    InOrder { s with runloopBlockArr := rest, evicted := evicted } where
  queueSorted := h.queueSorted.sublist sub
  queueSubmitted := fun t member => h.queueSubmitted t (sub.subset member)
  executedSorted := h.executedSorted
  executedSubmitted := h.executedSubmitted
  removedBefore := fun r removed t member => h.removedBefore r removed t (sub.subset member)
  drained := h.drained

theorem InOrder.running_executed (h : InOrder s) {call : Call β} (running : s.running = some call) :
    call.task ∈ s.executed := by
  simp [h.drained, running]

theorem CallOk.append {call : Call β} (h : CallOk maxQueueTaskCount s call)
    (room : s.runloopBlockArr.length < maxQueueTaskCount) (block : β) :
    CallOk maxQueueTaskCount (s.append block) { call with submits := call.submits + 1 } where
  queued := h.queued
  length := by
    have := h.length
    simp only [Controller.append, List.length_append, List.length_singleton]
    omega
  first := by
    intro fits
    have := h.first (by simp only at fits; omega)
    simp [Controller.append, this]
  dropped := by
    have := h.length
    intro exceeds
    simp only at exceeds
    omega

theorem CallOk.overflow {call : Call β} (h : CallOk maxQueueTaskCount s call) (order : InOrder s)
    (running : s.running = some call) (bounded : s.runloopBlockArr.length ≤ maxQueueTaskCount)
    (full : maxQueueTaskCount ≤ s.runloopBlockArr.length) {block : β} {first : Task β}
    {rest : List (Task β)} (queue : (s.append block).runloopBlockArr = first :: rest)
    (evicted : List (Eviction β)) :
    CallOk maxQueueTaskCount { s.append block with runloopBlockArr := rest, evicted := evicted }
      { call with submits := call.submits + 1 } := by
  have shape : s.runloopBlockArr ++ [⟨s.submitted, block⟩] = first :: rest := queue
  have lengths := congrArg List.length shape
  have oldLength := h.length
  simp only [List.length_append, List.length_cons, List.length_nil] at lengths
  refine ⟨h.queued, ?_, ?_, ?_⟩
  · change rest.length = min maxQueueTaskCount (call.queued + (call.submits + 1))
    omega
  · intro fits
    change call.queued + (call.submits + 1) ≤ maxQueueTaskCount at fits
    omega
  · intro _ t member
    change t ∈ rest at member
    change call.task.number < t.number
    by_cases fitted : call.queued + call.submits ≤ maxQueueTaskCount
    · -- The running block was the first entry until now, and has just been dropped.
      have head := h.first fitted
      have same : first = call.task := by
        have heads := congrArg List.head? shape
        simpa [head, eq_comm] using heads
      have sorted := (order.append block).queueSorted
      rw [queue, List.pairwise_cons] at sorted
      exact same ▸ sorted.1 t member
    · have inAppended : t ∈ s.runloopBlockArr ++ [⟨s.submitted, block⟩] :=
        shape ▸ List.mem_cons_of_mem _ member
      rcases List.mem_append.mp inAppended with old | new
      · exact h.dropped (by omega) t old
      · obtain rfl := List.mem_singleton.mp new
        exact order.executedSubmitted _ (order.running_executed running)

theorem Inv.add (h : Inv maxQueueTaskCount s) (block : β) :
    Inv maxQueueTaskCount (s.addRunloopBlock maxQueueTaskCount block) := by
  -- A number below the new count is an old one or the new block's own.
  have accounted : ∀ n < s.submitted + 1, (∃ t ∈ s.executed, t.number = n) ∨
      (∃ t ∈ (s.append block).runloopBlockArr, t.number = n) ∨
      (∃ e ∈ s.evicted, e.task.number = n ∧ e.OfOldest maxQueueTaskCount) := by
    intro n below
    rcases Nat.lt_succ_iff_lt_or_eq.mp below with old | rfl
    · rcases h.accounted n old with done | ⟨t, queued, same⟩ | gone
      · exact .inl done
      · exact .inr (.inl ⟨t, List.mem_append_left _ queued, same⟩)
      · exact .inr (.inr gone)
    · exact .inr (.inl ⟨⟨s.submitted, block⟩, by simp [append], rfl⟩)
  rcases addRunloopBlock_cases maxQueueTaskCount s block with
    ⟨room, eq⟩ | ⟨full, first, rest, queue, eq⟩
  · rw [eq]
    refine ⟨h.order.append block, by simpa [append] using Nat.succ_le_of_lt room, accounted, ?_⟩
    intro call' running
    obtain ⟨call, old, rfl⟩ := Option.map_eq_some_iff.mp running
    exact (h.call call old).append room block
  · rw [eq]
    have sorted := (h.order.append block).queueSorted
    have lengths := congrArg List.length queue
    have := h.bounded
    simp only [append, List.length_append, List.length_cons, List.length_nil] at lengths
    rw [queue, List.pairwise_cons] at sorted
    have oldest : (⟨first, rest⟩ : Eviction β).OfOldest maxQueueTaskCount := by
      refine ⟨?_, sorted.1⟩
      change maxQueueTaskCount < rest.length + 1
      omega
    refine ⟨(h.order.append block).dropped (queue ▸ List.sublist_cons_self _ _) _, ?_, ?_, ?_⟩
    · change rest.length ≤ maxQueueTaskCount
      omega
    · intro n below
      rcases accounted n below with done | ⟨t, queued, same⟩ | ⟨e, gone, reason⟩
      · exact .inl done
      · rw [queue] at queued
        rcases List.mem_cons.mp queued with rfl | kept
        · exact .inr (.inr ⟨⟨t, rest⟩, by simp, same, oldest⟩)
        · exact .inr (.inl ⟨t, kept, same⟩)
      · exact .inr (.inr ⟨e, List.mem_append_left _ gone, reason⟩)
    · intro call' running
      obtain ⟨call, old, rfl⟩ := Option.map_eq_some_iff.mp running
      exact (h.call call old).overflow h.order old h.bounded full queue _

theorem Inv.loop (h : Inv maxQueueTaskCount s) (waiting : s.running = none) (quit : Bool) :
    Inv maxQueueTaskCount (s.loop quit) := by
  have order := h.order
  have drained : s.executed = s.removed := by simpa [waiting] using order.drained
  unfold Controller.loop
  split
  · rename_i block rest queue
    have sorted := order.queueSorted
    have bounded := h.bounded
    rw [queue] at sorted bounded
    refine ⟨⟨order.queueSorted, order.queueSubmitted, ?_, ?_, order.removedBefore, ?_⟩,
      h.bounded, ?_, ?_⟩
    · change (s.executed ++ [block]).Pairwise _
      rw [List.pairwise_append]
      refine ⟨order.executedSorted, List.pairwise_singleton _ _, ?_⟩
      intro r done t member
      obtain rfl := List.mem_singleton.mp member
      exact order.removedBefore r (drained ▸ done) t (queue ▸ List.mem_cons_self)
    · intro t member
      rcases List.mem_append.mp member with done | called
      · exact order.executedSubmitted t done
      · obtain rfl := List.mem_singleton.mp called
        exact order.queueSubmitted t (queue ▸ List.mem_cons_self)
    · simp [drained]
    · intro n below
      rcases h.accounted n below with ⟨t, done, same⟩ | others
      · exact .inl ⟨t, List.mem_append_left _ done, same⟩
      · exact .inr others
    · intro call running
      obtain rfl := Option.some.inj running
      refine ⟨⟨by simp, bounded⟩, ?_, ?_, ?_⟩
      · simp only [queue, Nat.add_zero]
        omega
      · intro _
        simp [queue]
      · intro exceeds
        simp only [Nat.add_zero] at exceeds
        omega
  · refine ⟨⟨order.queueSorted, order.queueSubmitted, order.executedSorted,
      order.executedSubmitted, order.removedBefore, ?_⟩, h.bounded, h.accounted, ?_⟩
    · simp [drained]
    · simp

/-- The observer never removes from an empty array. -/
theorem Inv.queue_of_running (h : Inv maxQueueTaskCount s) {call : Call β}
    (running : s.running = some call) : ∃ first rest, s.runloopBlockArr = first :: rest := by
  have length := (h.call call running).length
  have queued := (h.call call running).queued
  cases queue : s.runloopBlockArr with
  | cons first rest => exact ⟨first, rest, rfl⟩
  | nil =>
      rw [queue, List.length_nil] at length
      omega

/-- A block that had room is itself the first entry, so its own removal is the
    one the observer makes. -/
theorem Inv.returned (h : Inv maxQueueTaskCount s) {call : Call β} (running : s.running = some call)
    (room : call.queued + call.submits ≤ maxQueueTaskCount) {first : Task β}
    {rest : List (Task β)} (queue : s.runloopBlockArr = first :: rest) :
    Inv maxQueueTaskCount { s with
      runloopBlockArr := rest
      running := none
      removed := s.removed ++ [first] } := by
  have order := h.order
  have same : first = call.task := by
    simpa [queue] using (h.call call running).first room
  have drained : s.executed = s.removed ++ [first] := by
    simpa [running, same] using order.drained
  have sorted := order.queueSorted
  have bounded := h.bounded
  rw [queue] at sorted bounded
  rw [List.pairwise_cons] at sorted
  refine ⟨⟨sorted.2, ?_, order.executedSorted, order.executedSubmitted, ?_, ?_⟩, ?_, ?_, ?_⟩
  · exact fun t member => order.queueSubmitted t (queue ▸ List.mem_cons_of_mem _ member)
  · intro r removed t member
    rcases List.mem_append.mp removed with old | new
    · exact order.removedBefore r old t (queue ▸ List.mem_cons_of_mem _ member)
    · obtain rfl := List.mem_singleton.mp new
      exact sorted.1 t member
  · simp [drained]
  · exact Nat.le_of_succ_le bounded
  · intro n below
    rcases h.accounted n below with done | ⟨t, queued, number⟩ | gone
    · exact .inl done
    · rw [queue] at queued
      rcases List.mem_cons.mp queued with rfl | kept
      · exact .inl ⟨t, by simp [drained], number⟩
      · exact .inr (.inl ⟨t, kept, number⟩)
    · exact .inr (.inr gone)
  · simp

end Steps

section Runs

variable {β : Type*} {maxQueueTaskCount : Nat} {s t : Controller β} {e : Event β}

theorem Inv.step (h : Inv maxQueueTaskCount s)
    (stepped : (machine β maxQueueTaskCount).step s e = some t)
    (room : RoomAtReturn maxQueueTaskCount s e) : Inv maxQueueTaskCount t := by
  cases e with
  | add block =>
      obtain rfl := Option.some.inj stepped
      exact h.add block
  | beforeWaiting =>
      simp only [machine, Option.ite_none_left_eq_some, Option.some.injEq, Bool.not_eq_true,
        Option.isSome_eq_false_iff, Option.isNone_iff_eq_none] at stepped
      obtain ⟨idle, rfl⟩ := stepped
      unfold beforeWaiting
      split
      · exact h
      · exact h.loop idle false
  | ret quit =>
      simp only [machine, Option.ite_none_right_eq_some] at stepped
      obtain ⟨called, returned⟩ := stepped
      obtain ⟨call, running⟩ := Option.isSome_iff_exists.mp called
      obtain ⟨first, rest, queue⟩ := h.queue_of_running running
      simp only [blockReturned, queue, Option.some.injEq] at returned
      subst returned
      exact (h.returned running (room call running) queue).loop rfl quit

/-- Without room the observer removes a block it never executed. -/
theorem Inv.room_of_drained (h : Inv maxQueueTaskCount s)
    (stepped : (machine β maxQueueTaskCount).step s e = some t)
    (drained : t.executed = t.removed ++ (t.running.map Call.task).toList) :
    RoomAtReturn maxQueueTaskCount s e := by
  cases e with
  | add | beforeWaiting => trivial
  | ret quit =>
      intro call running
      by_contra exceeds
      obtain ⟨first, rest, queue⟩ := h.queue_of_running running
      have later := (h.call call running).dropped (by omega) first (by simp [queue])
      simp only [machine, running, Option.isSome_some, if_true, blockReturned, queue,
        Option.some.injEq] at stepped
      have before : s.executed = s.removed ++ [call.task] := by
        simpa [running] using h.order.drained
      have same : call.task = first := by
        subst stepped
        unfold Controller.loop at drained
        split at drained <;> simpa [before] using drained
      exact absurd (same ▸ later) (Nat.lt_irrefl _)

/-- Every state of a run keeps the queue's discipline exactly when every block
    that returns had room for what it submitted. -/
theorem discipline_iff_room (maxQueueTaskCount : Nat) (es : List (Event β)) :
    (machine β maxQueueTaskCount).Each (fun _ _ t => Discipline maxQueueTaskCount t) start es ↔
      (machine β maxQueueTaskCount).Each (fun s e _ => RoomAtReturn maxQueueTaskCount s e)
        start es := by
  have room : ∀ s e t, Inv maxQueueTaskCount s → (machine β maxQueueTaskCount).step s e = some t →
      Discipline maxQueueTaskCount t → RoomAtReturn maxQueueTaskCount s e :=
    fun s e t inv stepped discipline => inv.room_of_drained stepped discipline.drained
  refine Machine.each_congr (I := Inv maxQueueTaskCount) ?_ ?_ Inv.start es
  · exact fun s e t inv stepped discipline =>
      inv.step stepped (room s e t inv stepped discipline)
  · exact fun s e t inv stepped =>
      ⟨room s e t inv stepped, fun fits => (inv.step stepped fits).discipline⟩

/-- The first block of a full queue of two submits a block: the add drops the
    running block, and the observer then removes the next one, which is never
    executed. -/
theorem discipline_lost :
    ¬ (machine Unit 2).Each (fun _ _ t => Discipline 2 t) start
      [.add (), .add (), .beforeWaiting, .add (), .ret false] := by
  intro all
  obtain ⟨-, all⟩ := all _ rfl
  obtain ⟨-, all⟩ := all _ rfl
  obtain ⟨-, all⟩ := all _ rfl
  obtain ⟨-, all⟩ := all _ rfl
  obtain ⟨broken, -⟩ := all _ rfl
  exact absurd broken.drained (by decide)

end Runs

/-! ## Which submissions can still be waiting -/

section Recency

variable {β : Type*} {maxQueueTaskCount : Nat} {s : Controller β}

/-- The queue holds the most recent submissions, with none left out. -/
def Consecutive (s : Controller β) : Prop :=
  ∀ i t, s.runloopBlockArr[i]? = some t → t.number + s.runloopBlockArr.length = s.submitted + i

theorem Consecutive.add (h : Consecutive s) (block : β) :
    Consecutive (s.addRunloopBlock maxQueueTaskCount block) := by
  have appended : Consecutive (s.append block) := by
    intro i t entry
    simp only [append, List.length_append, List.length_singleton] at entry ⊢
    rcases Nat.lt_or_ge i s.runloopBlockArr.length with old | new
    · rw [List.getElem?_append_left old] at entry
      have := h i t entry
      omega
    · rw [List.getElem?_append_right new, List.getElem?_singleton] at entry
      split at entry
      · obtain rfl := Option.some.inj entry
        simp only
        omega
      · cases entry
  rcases addRunloopBlock_cases maxQueueTaskCount s block with ⟨-, eq⟩ | ⟨-, first, rest, queue, eq⟩
  · rw [eq]
    exact appended
  · rw [eq]
    intro i t entry
    have := appended (i + 1) t (by rw [queue]; exact entry)
    rw [queue, List.length_cons] at this
    change t.number + rest.length = (s.append block).submitted + i
    omega

/-- The oldest number that can still wait is `maxQueueTaskCount` before the next. -/
theorem Consecutive.recent (h : Consecutive s) {t : Task β} (queued : t ∈ s.runloopBlockArr) :
    s.submitted ≤ t.number + s.runloopBlockArr.length := by
  obtain ⟨i, entry⟩ := List.getElem?_of_mem queued
  have := h i t entry
  omega

theorem Consecutive.queued (h : Consecutive s) {n : Nat} (below : n < s.submitted)
    (recent : s.submitted ≤ n + s.runloopBlockArr.length) :
    ∃ t ∈ s.runloopBlockArr, t.number = n := by
  have inside : n + s.runloopBlockArr.length - s.submitted < s.runloopBlockArr.length := by omega
  refine ⟨s.runloopBlockArr[n + s.runloopBlockArr.length - s.submitted],
    List.getElem_mem inside, ?_⟩
  have := h _ _ (List.getElem?_eq_getElem inside)
  omega

end Recency

/-! ## A drain of blocks that return `false` and submit nothing -/

section Drain

variable {β : Type*} (maxQueueTaskCount : Nat)

/-- One `beforeWaiting` callback over a queue of such blocks, as events. -/
def drainEvents (s : Controller β) : List (Event β) :=
  .beforeWaiting :: List.replicate s.runloopBlockArr.length (.ret false)

/-- Every queued block has been executed and removed. -/
def Controller.drained (s : Controller β) : Controller β :=
  { s with
    runloopBlockArr := []
    executed := s.executed ++ s.runloopBlockArr
    removed := s.removed ++ s.runloopBlockArr }

private theorem run_returns (block : Task β) (rest : List (Task β)) (s : Controller β) (k : Nat)
    (queue : s.runloopBlockArr = block :: rest) (running : s.running = some ⟨block, k, 0⟩) :
    (machine β maxQueueTaskCount).run s (List.replicate (block :: rest).length (.ret false)) =
      some { s with
        runloopBlockArr := []
        running := none
        executed := s.executed ++ rest
        removed := s.removed ++ block :: rest } := by
  induction rest generalizing block s k with
  | nil => simp [Machine.run_cons, machine, running, blockReturned, queue, loop]
  | cons next rest ih =>
      rw [List.length_cons, List.replicate_succ, Machine.run_cons]
      simp only [machine, running, Option.isSome_some, if_true, blockReturned, queue, loop,
        Option.bind_some]
      refine (ih next _ _ rfl rfl).trans ?_
      simp

theorem run_drain (s : Controller β) (idle : s.running = none) :
    (machine β maxQueueTaskCount).run s (drainEvents s) = some s.drained := by
  rw [drainEvents, Machine.run_cons]
  simp only [machine, idle, Option.isSome_none, Bool.false_eq_true, if_false, Option.bind_some]
  cases queue : s.runloopBlockArr with
  | nil =>
      simp only [beforeWaiting, queue, List.isEmpty_nil, if_true, drained, List.append_nil,
        List.length_nil, List.replicate_zero, Machine.run_nil]
      rw [← queue]
  | cons block rest =>
      simp only [beforeWaiting, queue, List.isEmpty_cons, Bool.false_eq_true, if_false, loop]
      refine (run_returns maxQueueTaskCount block rest { s with
        runloopBlockArr := block :: rest
        running := some ⟨block, (block :: rest).length, 0⟩
        executed := s.executed ++ [block] } _ rfl rfl).trans ?_
      simp [drained, queue, idle]

variable {maxQueueTaskCount} {s : Controller β}

theorem Inv.drained (h : Inv maxQueueTaskCount s) (idle : s.running = none) :
    Inv maxQueueTaskCount s.drained := by
  have order := h.order
  have done : s.executed = s.removed := by simpa [idle] using order.drained
  refine ⟨⟨.nil, ?_, ?_, ?_, ?_, ?_⟩, Nat.zero_le _, ?_, ?_⟩
  · simp [Controller.drained]
  · refine List.pairwise_append.mpr ⟨order.executedSorted, order.queueSorted, ?_⟩
    exact fun r executed t queued => order.removedBefore r (done ▸ executed) t queued
  · intro t member
    exact (List.mem_append.mp member).elim (order.executedSubmitted t) (order.queueSubmitted t)
  · simp [Controller.drained]
  · simp [Controller.drained, done, idle]
  · intro n below
    rcases h.accounted n below with ⟨t, executed, number⟩ | ⟨t, queued, number⟩ | gone
    · exact .inl ⟨t, List.mem_append_left _ executed, number⟩
    · exact .inl ⟨t, List.mem_append_right _ queued, number⟩
    · exact .inr (.inr gone)
  · simp [Controller.drained, idle]

end Drain

end LearningProjects.RunLoop.TaskQueue
