import LearningProjects.RunLoop.TaskQueue
import Mathlib.Data.List.Perm.Basic
import Mathlib.Data.List.Nodup

/-! # Deferred cells of `OptimizeListController`

`loadCellWithRunloop` takes a cell for a row that scrolls in and leaves
`cell.setImages()` to the next `beforeWaiting` drain. The table shows a
contiguous interval of rows which grows and shrinks by one row at either end;
a row that scrolls out gives its cell back to the reuse pool. Nothing drains
while the user scrolls, so the queue's eviction decides whose images are set.
-/

namespace LearningProjects.RunLoop.DeferredCells

open TaskQueue

/-- Cells are told apart by the order in which the table created them. -/
abbrev Cell := Nat

/-- A row on screen: its cell, the submission number of its `setImages` block,
    and how many blocks had been executed when the cell was bound to it. -/
structure BoundRow where
  cell : Cell
  number : Nat
  executedBefore : Nat
  deriving DecidableEq, Repr

structure Table where
  /-- Index of the topmost visible row. -/
  first : Nat
  visible : List BoundRow
  /-- Cells that can be dequeued again. -/
  pool : List Cell
  /-- Number of cells created so far. -/
  cells : Nat
  controller : Controller Cell
  /-- Number of blocks submitted before the last drain. -/
  drainedAt : Nat
  deriving DecidableEq, Repr

inductive Edge where
  | top
  | bottom
  deriving DecidableEq, Repr

inductive Event where
  /-- A row scrolls in; `reused` is the pooled cell it gets, if any. -/
  | enter (edge : Edge) (reused : Option Cell)
  /-- The row at this edge scrolls out. -/
  | leave (edge : Edge)
  /-- The default-mode observer fires. -/
  | drain
  deriving DecidableEq, Repr

namespace Table

def start : Table := ⟨0, [], [], 0, .start, 0⟩

/-- `tableView.dequeueReusableCell(withIdentifier:for:)`. -/
def dequeueReusableCell (s : Table) : Option Cell → Option (Cell × Table)
  | none => some (s.cells, { s with cells := s.cells + 1 })
  | some cell => if cell ∈ s.pool then some (cell, { s with pool := s.pool.erase cell }) else none

/-- The block it submits is represented by the cell whose `setImages` it calls;
    that block returns `false` and submits nothing. -/
def loadCellWithRunloop (maxQueueTaskCount : Nat) (s : Table) (reused : Option Cell) :
    Option (BoundRow × Table) := do
  let (cell, s) ← s.dequeueReusableCell reused
  let row : BoundRow := ⟨cell, s.controller.submitted, s.controller.executed.length⟩
  return (row, { s with controller := s.controller.addRunloopBlock maxQueueTaskCount cell })

def enter (maxQueueTaskCount rows : Nat) (s : Table) (edge : Edge) (reused : Option Cell) :
    Option Table :=
  if maxQueueTaskCount ≤ s.visible.length then none
  else match edge with
    | .top =>
        if s.first = 0 then none
        else (s.loadCellWithRunloop maxQueueTaskCount reused).map fun (row, s) =>
          { s with first := s.first - 1, visible := row :: s.visible }
    | .bottom =>
        if rows ≤ s.first + s.visible.length then none
        else (s.loadCellWithRunloop maxQueueTaskCount reused).map fun (row, s) =>
          { s with visible := s.visible ++ [row] }

def leave (s : Table) : Edge → Option Table
  | .top =>
      match s.visible with
      | row :: rest =>
          some { s with first := s.first + 1, visible := rest, pool := row.cell :: s.pool }
      | [] => none
  | .bottom =>
      match s.visible.getLast? with
      | some row =>
          some { s with visible := s.visible.dropLast, pool := row.cell :: s.pool }
      | none => none

def drain (maxQueueTaskCount : Nat) (s : Table) : Option Table :=
  ((TaskQueue.machine Cell maxQueueTaskCount).run s.controller (drainEvents s.controller)).map
    fun controller => { s with controller := controller, drainedAt := controller.submitted }

end Table

def machine (maxQueueTaskCount rows : Nat) : Machine Table Event where
  step s
    | .enter edge reused => s.enter maxQueueTaskCount rows edge reused
    | .leave edge => s.leave edge
    | .drain => s.drain maxQueueTaskCount

/-- `setImages` was executed on the row's cell after it was bound to the row. -/
def Rendered (s : Table) (row : BoundRow) : Prop :=
  ∃ task ∈ s.controller.executed.drop row.executedBefore, task.block = row.cell

/-- A drain leaves no visible cell blank. -/
def NoBlankAfterDrain : Event → Table → Prop
  | .drain, t => ∀ row ∈ t.visible, Rendered t row
  | _, _ => True

/-- At a drain, each visible row that scrolled in since the previous drain was
    followed by fewer than `maxQueueTaskCount` other rows. -/
def FewFollowers (maxQueueTaskCount : Nat) (s : Table) : Event → Prop
  | .drain => ∀ row ∈ s.visible, s.drainedAt ≤ row.number →
      s.controller.submitted - (row.number + 1) < maxQueueTaskCount
  | _ => True

/-! ## What one event does -/

/-- The table once everything that waited has been executed. -/
def Table.drained (s : Table) : Table :=
  { s with controller := s.controller.drained, drainedAt := s.controller.submitted }

/-- No cell is used twice, and the next new cell is not in use. -/
structure Distinct (s : Table) : Prop where
  nodup : (s.visible.map BoundRow.cell ++ s.pool).Nodup
  created : ∀ cell ∈ s.visible.map BoundRow.cell ++ s.pool, cell < s.cells

structure Entered (maxQueueTaskCount : Nat) (s : Table) (row : BoundRow) (t : Table) : Prop where
  visible : t.visible.Perm (row :: s.visible)
  number : row.number = s.controller.submitted
  executedBefore : row.executedBefore = s.controller.executed.length
  controller : t.controller = s.controller.addRunloopBlock maxQueueTaskCount row.cell
  drainedAt : t.drainedAt = s.drainedAt
  fresh : Distinct s → row.cell ∉ s.visible.map BoundRow.cell
  distinct : Distinct s → Distinct t

structure Left (s : Table) (row : BoundRow) (t : Table) : Prop where
  visible : s.visible.Perm (row :: t.visible)
  controller : t.controller = s.controller
  drainedAt : t.drainedAt = s.drainedAt
  distinct : Distinct s → Distinct t

section Steps

variable {maxQueueTaskCount rows : Nat} {s t : Table}

theorem Distinct.perm (h : Distinct s) (visible : t.visible.Perm s.visible)
    (pool : t.pool = s.pool) (cells : t.cells = s.cells) : Distinct t := by
  have same : (t.visible.map BoundRow.cell ++ t.pool).Perm
      (s.visible.map BoundRow.cell ++ s.pool) := by
    rw [pool]
    exact (visible.map _).append_right _
  refine ⟨same.nodup_iff.mpr h.nodup, ?_⟩
  intro cell member
  rw [cells]
  exact h.created cell (same.mem_iff.mp member)

/-- Whatever cell is dequeued, no visible row has it. -/
theorem loadCellWithRunloop_spec {reused : Option Cell} {row : BoundRow}
    (loaded : s.loadCellWithRunloop maxQueueTaskCount reused = some (row, t)) :
    Entered maxQueueTaskCount s row { t with visible := row :: t.visible } := by
  cases reused with
  | none =>
      simp only [Table.loadCellWithRunloop, Table.dequeueReusableCell, Option.pure_def,
        Option.bind_eq_bind, Option.bind_some, Option.some.injEq, Prod.mk.injEq] at loaded
      obtain ⟨rfl, rfl⟩ := loaded
      refine ⟨.refl _, rfl, rfl, rfl, rfl, ?_, ?_⟩
      · intro distinct member
        exact absurd (distinct.created _ (List.mem_append_left _ member)) (Nat.lt_irrefl _)
      · intro distinct
        constructor
        · refine List.nodup_cons.mpr ⟨?_, distinct.nodup⟩
          exact fun member => absurd (distinct.created _ member) (Nat.lt_irrefl _)
        · intro cell member
          rcases List.mem_cons.mp member with rfl | old
          · exact Nat.lt_succ_self _
          · exact Nat.lt_succ_of_lt (distinct.created cell old)
  | some cell =>
      simp only [Table.loadCellWithRunloop, Table.dequeueReusableCell, Option.pure_def,
        Option.bind_eq_bind] at loaded
      split at loaded
      · rename_i pooled
        simp only [Option.bind_some, Option.some.injEq, Prod.mk.injEq] at loaded
        obtain ⟨rfl, rfl⟩ := loaded
        have moved : (cell :: (s.visible.map BoundRow.cell ++ s.pool.erase cell)).Perm
            (s.visible.map BoundRow.cell ++ s.pool) :=
          List.perm_middle.symm.trans ((List.perm_cons_erase pooled).symm.append_left _)
        refine ⟨.refl _, rfl, rfl, rfl, rfl, ?_, ?_⟩
        · intro distinct member
          exact (List.nodup_append.mp distinct.nodup).2.2 cell member cell pooled rfl
        · intro distinct
          constructor
          · exact moved.nodup_iff.mpr distinct.nodup
          · exact fun cell member => distinct.created cell (moved.mem_iff.mp member)
      · cases loaded

theorem enter_spec {edge : Edge} {reused : Option Cell}
    (entered : s.enter maxQueueTaskCount rows edge reused = some t) :
    ∃ row, Entered maxQueueTaskCount s row t := by
  unfold Table.enter at entered
  split at entered
  · cases entered
  cases edge with
  | top =>
      simp only at entered
      split at entered
      · cases entered
      obtain ⟨⟨row, u⟩, loaded, rfl⟩ := Option.map_eq_some_iff.mp entered
      have spec := loadCellWithRunloop_spec loaded
      exact ⟨row, spec.visible, spec.number, spec.executedBefore, spec.controller, spec.drainedAt,
        spec.fresh, fun distinct => (spec.distinct distinct).perm (.refl _) rfl rfl⟩
  | bottom =>
      simp only at entered
      split at entered
      · cases entered
      obtain ⟨⟨row, u⟩, loaded, rfl⟩ := Option.map_eq_some_iff.mp entered
      have spec := loadCellWithRunloop_spec loaded
      have shift : (u.visible ++ [row]).Perm (row :: u.visible) := List.perm_append_singleton _ _
      exact ⟨row, shift.trans spec.visible, spec.number, spec.executedBefore, spec.controller,
        spec.drainedAt, spec.fresh, fun distinct => (spec.distinct distinct).perm shift rfl rfl⟩

theorem Distinct.returned (h : Distinct s) {row : BoundRow}
    (visible : s.visible.Perm (row :: t.visible)) (pool : t.pool = row.cell :: s.pool)
    (cells : t.cells = s.cells) : Distinct t := by
  have moved : (t.visible.map BoundRow.cell ++ t.pool).Perm
      (s.visible.map BoundRow.cell ++ s.pool) := by
    rw [pool]
    exact List.perm_middle.trans ((visible.map BoundRow.cell).symm.append_right _)
  refine ⟨moved.nodup_iff.mpr h.nodup, ?_⟩
  intro cell member
  rw [cells]
  exact h.created cell (moved.mem_iff.mp member)

theorem leave_spec {edge : Edge} (left : s.leave edge = some t) : ∃ row, Left s row t := by
  cases edge with
  | top =>
      simp only [Table.leave] at left
      split at left
      · rename_i row rest visible
        obtain rfl := Option.some.inj left
        have same : s.visible.Perm (row :: rest) := .of_eq visible
        exact ⟨row, same, rfl, rfl, fun distinct => distinct.returned same rfl rfl⟩
      · cases left
  | bottom =>
      simp only [Table.leave] at left
      split at left
      · rename_i row last
        obtain rfl := Option.some.inj left
        obtain ⟨rest, visible⟩ := List.getLast?_eq_some_iff.mp last
        have same : s.visible.Perm (row :: s.visible.dropLast) := by
          rw [visible, List.dropLast_concat]
          exact List.perm_append_singleton _ _
        exact ⟨row, same, rfl, rfl, fun distinct => distinct.returned same rfl rfl⟩
      · cases left

/-- The blocks of the table submit nothing, so a drain executes the whole queue. -/
theorem drain_spec (idle : s.controller.running = none) :
    s.drain maxQueueTaskCount = some s.drained := by
  simp only [Table.drain, run_drain maxQueueTaskCount _ idle, Option.map_some]
  rfl

end Steps

/-! ## The queue against the visible interval -/

/-- A visible row against the queue. A waiting block that is at least as new as
    the row's own draws the row's cell only if it is the row's own block. -/
structure RowOk (s : Table) (row : BoundRow) : Prop where
  submitted : row.number < s.controller.submitted
  rendered : row.number < s.drainedAt → Rendered s row
  pending : s.drainedAt ≤ row.number → row.executedBefore = s.controller.executed.length
  own : ∀ task ∈ s.controller.runloopBlockArr, row.number ≤ task.number →
    (task.block = row.cell ↔ task.number = row.number)

/-- The invariant of scrolling: the queue is the last `maxQueueTaskCount`
    submissions since the last drain. -/
structure Inv (maxQueueTaskCount : Nat) (s : Table) : Prop where
  queue : TaskQueue.Inv maxQueueTaskCount s.controller
  idle : s.controller.running = none
  consecutive : Consecutive s.controller
  length : s.controller.runloopBlockArr.length =
    min maxQueueTaskCount (s.controller.submitted - s.drainedAt)
  drainedAt : s.drainedAt ≤ s.controller.submitted
  distinct : Distinct s
  rows : ∀ row ∈ s.visible, RowOk s row

section Invariant

variable {maxQueueTaskCount rows : Nat} {s t : Table} {row : BoundRow}

theorem Inv.start : Inv maxQueueTaskCount Table.start where
  queue := .start
  idle := rfl
  consecutive := by simp [Consecutive, Table.start, Controller.start]
  length := by simp [Table.start, Controller.start]
  drainedAt := Nat.le_refl _
  distinct := by constructor <;> simp [Table.start]
  rows := by simp [Table.start]

theorem Inv.left (h : Inv maxQueueTaskCount s) (left : Left s row t) :
    Inv maxQueueTaskCount t := by
  have controller := left.controller
  have drainedAt := left.drainedAt
  refine ⟨controller ▸ h.queue, controller ▸ h.idle, controller ▸ h.consecutive, ?_, ?_,
    left.distinct h.distinct, ?_⟩
  · rw [controller, drainedAt]
    exact h.length
  · rw [controller, drainedAt]
    exact h.drainedAt
  · intro other member
    have ok := h.rows other (left.visible.mem_iff.mpr (List.mem_cons_of_mem _ member))
    constructor
    · rw [controller]
      exact ok.submitted
    · simp only [Rendered, controller, drainedAt]
      exact ok.rendered
    · rw [controller, drainedAt]
      exact ok.pending
    · rw [controller]
      exact ok.own

/-- Scrolling a row in keeps every other row's standing: the new block draws a
    cell that none of them has. -/
theorem RowOk.entered (h : RowOk s row) (visible : row ∈ s.visible) (distinct : Distinct s)
    {entering : BoundRow} (entered : Entered maxQueueTaskCount s entering t) : RowOk t row := by
  have controller := entered.controller
  constructor
  · rw [controller, addRunloopBlock_submitted]
    exact Nat.lt_succ_of_lt h.submitted
  · simp only [Rendered, controller, entered.drainedAt, addRunloopBlock_executed]
    exact h.rendered
  · rw [controller, entered.drainedAt, addRunloopBlock_executed]
    exact h.pending
  · intro task member newer
    rw [controller] at member
    rcases mem_addRunloopBlock member with old | rfl
    · exact h.own task old newer
    · have other : entering.cell ≠ row.cell := fun same =>
        entered.fresh distinct (same ▸ List.mem_map_of_mem visible)
      have later := h.submitted
      simp only [other, false_iff]
      omega

theorem RowOk.entering (h : Inv maxQueueTaskCount s)
    (entered : Entered maxQueueTaskCount s row t) : RowOk t row := by
  have number := entered.number
  constructor
  · rw [entered.controller, addRunloopBlock_submitted, number]
    exact Nat.lt_succ_self _
  · intro before
    rw [entered.drainedAt, number] at before
    exact absurd h.drainedAt (Nat.not_le_of_lt before)
  · intro _
    rw [entered.controller, addRunloopBlock_executed]
    exact entered.executedBefore
  · intro task member newer
    rw [entered.controller] at member
    rcases mem_addRunloopBlock member with old | rfl
    · have := h.queue.order.queueSubmitted task old
      omega
    · simp [number]

theorem Inv.entered (h : Inv maxQueueTaskCount s) (entered : Entered maxQueueTaskCount s row t) :
    Inv maxQueueTaskCount t := by
  have controller := entered.controller
  have drainedAt := entered.drainedAt
  refine ⟨controller ▸ h.queue.add row.cell, controller ▸ addRunloopBlock_idle row.cell h.idle,
    controller ▸ h.consecutive.add row.cell, ?_, ?_, entered.distinct h.distinct, ?_⟩
  · rw [controller, length_addRunloopBlock _ _ _ h.queue.bounded, addRunloopBlock_submitted,
      drainedAt, h.length]
    have := h.drainedAt
    omega
  · rw [controller, addRunloopBlock_submitted, drainedAt]
    exact Nat.le_succ_of_le h.drainedAt
  · intro other member
    rcases List.mem_cons.mp (entered.visible.mem_iff.mp member) with rfl | old
    · exact RowOk.entering h entered
    · exact (h.rows other old).entered old h.distinct entered

/-- What a drain draws: everything that waits, besides what was drawn before. -/
theorem RowOk.rendered_drained (h : RowOk s row) (undrawn : s.drainedAt ≤ row.number) :
    Rendered s.drained row ↔ ∃ task ∈ s.controller.runloopBlockArr, task.block = row.cell := by
  simp [Rendered, Table.drained, Controller.drained, h.pending undrawn]

theorem Rendered.drained (h : Rendered s row) : Rendered s.drained row := by
  obtain ⟨task, drawn, same⟩ := h
  refine ⟨task, ?_, same⟩
  change task ∈ (s.controller.executed ++ s.controller.runloopBlockArr).drop row.executedBefore
  rw [List.drop_append]
  exact List.mem_append_left _ drawn

/-- The cell of a row that was not drawn before is drawn by a drain exactly if
    the row's own block still waits. -/
theorem Inv.rendered_iff (h : Inv maxQueueTaskCount s) (visible : row ∈ s.visible)
    (undrawn : s.drainedAt ≤ row.number) :
    Rendered s.drained row ↔ s.controller.submitted - (row.number + 1) < maxQueueTaskCount := by
  have ok := h.rows row visible
  have submitted := ok.submitted
  have length := h.length
  rw [ok.rendered_drained undrawn]
  constructor
  · rintro ⟨task, queued, same⟩
    by_contra many
    have recent := h.consecutive.recent queued
    have number := (ok.own task queued (by omega)).mp same
    omega
  · intro few
    obtain ⟨task, queued, number⟩ := h.consecutive.queued submitted (by omega)
    exact ⟨task, queued, (ok.own task queued (Nat.le_of_eq number.symm)).mpr number⟩

theorem Inv.drained (h : Inv maxQueueTaskCount s)
    (drawn : ∀ row ∈ s.visible, Rendered s.drained row) : Inv maxQueueTaskCount s.drained where
  queue := h.queue.drained h.idle
  idle := h.idle
  consecutive := by simp [Consecutive, Table.drained, Controller.drained]
  length := by simp [Table.drained, Controller.drained]
  drainedAt := Nat.le_refl _
  distinct := ⟨h.distinct.nodup, h.distinct.created⟩
  rows := by
    intro row member
    have ok := h.rows row member
    refine ⟨ok.submitted, fun _ => drawn row member, ?_, ?_⟩
    · exact fun undrawn => absurd ok.submitted (Nat.not_lt_of_le undrawn)
    · simp [Table.drained, Controller.drained]

theorem Inv.step {e : Event} (h : Inv maxQueueTaskCount s)
    (stepped : (machine maxQueueTaskCount rows).step s e = some t) (drawn : NoBlankAfterDrain e t) :
    Inv maxQueueTaskCount t := by
  cases e with
  | enter edge reused =>
      obtain ⟨row, entered⟩ := enter_spec stepped
      exact h.entered entered
  | leave edge =>
      obtain ⟨row, left⟩ := leave_spec stepped
      exact h.left left
  | drain =>
      obtain rfl := Option.some.inj ((drain_spec h.idle).symm.trans stepped)
      exact h.drained drawn

theorem Inv.noBlank_iff {e : Event} (h : Inv maxQueueTaskCount s)
    (stepped : (machine maxQueueTaskCount rows).step s e = some t) :
    NoBlankAfterDrain e t ↔ FewFollowers maxQueueTaskCount s e := by
  cases e with
  | enter | leave => exact Iff.rfl
  | drain =>
      obtain rfl := Option.some.inj ((drain_spec h.idle).symm.trans stepped)
      constructor
      · intro drawn row visible undrawn
        exact (h.rendered_iff visible undrawn).mp (drawn row visible)
      · intro few row visible
        rcases Nat.lt_or_ge row.number s.drainedAt with before | undrawn
        · exact ((h.rows row visible).rendered before).drained
        · exact (h.rendered_iff visible undrawn).mpr (few row visible undrawn)

end Invariant

/-- Along any scrolling history, the drains leave no visible cell blank exactly
    when at each of them every visible row that came in since the previous drain
    had fewer than `maxQueueTaskCount` rows come in after it. -/
theorem no_blank_iff_few_followers (maxQueueTaskCount rows : Nat) (es : List Event) :
    (machine maxQueueTaskCount rows).Each (fun _ e t => NoBlankAfterDrain e t) .start es ↔
      (machine maxQueueTaskCount rows).Each (fun s e _ => FewFollowers maxQueueTaskCount s e)
        .start es :=
  Machine.each_congr (I := Inv maxQueueTaskCount)
    (fun _ _ _ inv stepped drawn => inv.step stepped drawn)
    (fun _ _ _ inv stepped => inv.noBlank_iff stepped) .start es

/-- Two rows fit on screen. Scrolling the lower one out and in again pushes the
    upper one's block out of the queue, and the upper cell stays blank. -/
theorem upper_row_blank :
    ¬ (machine 2 10).Each (fun _ e t => NoBlankAfterDrain e t) .start
      [.enter .bottom none, .enter .bottom none, .leave .bottom, .enter .bottom (some 1),
        .drain] := by
  intro all
  obtain ⟨-, all⟩ := all _ rfl
  obtain ⟨-, all⟩ := all _ rfl
  obtain ⟨-, all⟩ := all _ rfl
  obtain ⟨-, all⟩ := all _ rfl
  obtain ⟨drawn, -⟩ := all _ rfl
  obtain ⟨task, executed, same⟩ := drawn ⟨0, 0, 0⟩ (by decide)
  revert task
  decide

end LearningProjects.RunLoop.DeferredCells
