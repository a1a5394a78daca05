import LearningProjects.GCD.Barrier
import Mathlib.Data.List.Nodup

/-! # Blocks of a group and the block that is notified of their end

`dispatchGroup` and `appendArr` enter a group once for each block they submit, every block
leaves it at its end, and a last block is to run on the main queue when all have left.
-/

namespace LearningProjects.GCD

open Dispatch

variable {σ : Type}

/-- A function that submits `blocks` blocks of a group; the blocks do nothing with other
    tasks but leave the group. -/
structure FanOut (σ : Type) where
  blocks : ℕ
  queue : Queue
  opening : List (Instr σ String Queue Unit Unit Block)
  work : ℕ → List (Instr σ String Queue Unit Unit Block)
  report : List (Instr σ String Queue Unit Unit Block)
  opening_silent : ∀ x ∈ opening, x.silent
  work_silent : ∀ k, ∀ x ∈ work k, x.silent
  report_silent : ∀ x ∈ report, x.silent

namespace FanOut

variable (f : FanOut σ)

/-- The rounds of the loop from `k` on, and the notification after them. -/
def rounds : ℕ → ℕ → List (Instr σ String Queue Unit Unit Block)
  | 0, _ => [.notify () .getMainQueue (.block f.blocks)]
  | left + 1, k => .enter () :: .async f.queue false (.block k) :: rounds left (k + 1)

def toFunction : Function σ where
  discipline := Queue.discipline
  body
    | .function => f.opening ++ f.rounds f.blocks 0
    | .block k =>
        if k < f.blocks then f.work k ++ [.leave ()]
        else if k = f.blocks then f.report
        else []

/-- Where the function is: how many blocks it has submitted, how often it has entered the
    group, and whether it has asked for the notification. -/
inductive Position : List (Instr σ String Queue Unit Unit Block) → ℕ → ℕ → Bool → Prop where
  | opening {x : Instr σ String Queue Unit Unit Block}
      {first : List (Instr σ String Queue Unit Unit Block)} (part : x :: first <:+ f.opening) :
      Position (x :: first ++ f.rounds f.blocks 0) 0 0 false
  | between {left m : ℕ} (all : m + left = f.blocks) : Position (f.rounds left m) m m false
  | entered {left m : ℕ} (all : m + (left + 1) = f.blocks) :
      Position (.async f.queue false (.block m) :: f.rounds left (m + 1)) m (m + 1) false
  | told : Position [] f.blocks f.blocks true

/-- What is left of a block: it leaves the group last. -/
def Working (rest : List (Instr σ String Queue Unit Unit Block)) : Prop :=
  rest = [] ∨ ∃ first, (∀ x ∈ first, x.silent) ∧ rest = first ++ [.leave ()]

def note : Submission Queue Block := ⟨.getMainQueue, false, .block f.blocks⟩

/-- One for each block that has left the group. -/
def gone (works : List (WorkItem σ String Queue Unit Unit Block)) : ℕ :=
  (works.map fun v => if v.rest.isEmpty then 1 else 0).sum

/-- The block at the end is submitted when the group has been left as often as entered. -/
structure Told (s : State σ String Queue Unit Unit Block) (told : Bool)
    (reports : List (WorkItem σ String Queue Unit Unit Block)) : Prop where
  waiting : reports = [] → s.notifies = if told then [((), f.note)] else []
  fired : reports ≠ [] → told ∧ s.notifies = [] ∧ s.entered () = 0
  single : reports.length ≤ 1
  noted : ∀ r ∈ reports, r.submission = f.note ∧ ∀ x ∈ r.rest, x.silent
  pending : told → reports = [] → 0 < s.entered ()

def Inv (s : State σ String Queue Unit Unit Block) : Prop :=
  ∃ t works reports entered told,
    s.tasks = t :: (works ++ reports) ∧ t.submission.block = .function ∧
    f.Position t.rest works.length entered told ∧
    works.map WorkItem.submission = (List.range works.length).map (⟨f.queue, false, .block ·⟩) ∧
    (∀ v ∈ works, Working v.rest) ∧ s.entered () + gone works = entered ∧ s.trapped = false ∧
    f.Told s told reports

theorem Told.none_of_untold {f : FanOut σ} {s : State σ String Queue Unit Unit Block}
    {reports : List (WorkItem σ String Queue Unit Unit Block)} (tell : f.Told s false reports) :
    reports = [] := by
  by_contra filled
  cases (tell.fired filled).1

section Steps

variable {f} {s u : State σ String Queue Unit Unit Block} {i : ℕ}
  {t v v' : WorkItem σ String Queue Unit Unit Block}
  {works reports : List (WorkItem σ String Queue Unit Unit Block)}

theorem index_cases (there : (t :: (works ++ reports))[i]? = some v) :
    i = 0 ∧ v = t ∨ (∃ k, i = k + 1 ∧ works[k]? = some v) ∨
      ∃ k, i = works.length + k + 1 ∧ reports[k]? = some v := by
  cases i with
  | zero => exact .inl ⟨rfl, (Option.some.inj there).symm⟩
  | succ k =>
      rw [List.getElem?_cons_succ, List.getElem?_append] at there
      split_ifs at there with within
      · exact .inr (.inl ⟨k, rfl, there⟩)
      · exact .inr (.inr ⟨k - works.length, by omega, there⟩)

theorem set_work {k : ℕ} (there : works[k]? = some v) :
    (t :: (works ++ reports)).set (k + 1) v' = t :: (works.set k v' ++ reports) := by
  have within := (List.getElem?_eq_some_iff.mp there).1
  rw [List.set_cons_succ, List.set_append_left _ _ within]

theorem set_report (k : ℕ) :
    (t :: (works ++ reports)).set (works.length + k + 1) v' = t :: (works ++ reports.set k v') := by
  rw [List.set_cons_succ, List.set_append_right _ _ (Nat.le_add_right _ _), Nat.add_sub_cancel_left]

theorem map_set_same {l : List (WorkItem σ String Queue Unit Unit Block)} {k : ℕ}
    (there : l[k]? = some v) (same : v'.submission = v.submission) :
    (l.set k v').map WorkItem.submission = l.map WorkItem.submission := by
  obtain ⟨within, here⟩ := List.getElem?_eq_some_iff.mp there
  rw [List.map_set, same, ← here, ← List.map_set, List.set_getElem_self]

theorem gone_set (v' : WorkItem σ String Queue Unit Unit Block) {k : ℕ}
    (there : works[k]? = some v) :
    gone (works.set k v') + (if v.rest.isEmpty then 1 else 0) =
      gone works + if v'.rest.isEmpty then 1 else 0 :=
  Program.sum_map_set (fun v => if v.rest.isEmpty then 1 else 0) there

/-- A block goes on to something that is left of it as well. -/
theorem Inv.work (inv : f.Inv s) (v' : WorkItem σ String Queue Unit Unit Block) {k : ℕ}
    (here : s.tasks[k + 1]? = some v) (same : v'.submission = v.submission)
    (rest : Working v.rest → Working v'.rest ∧ v'.rest.isEmpty = v.rest.isEmpty)
    (silent : (∀ x ∈ v.rest, x.silent) → ∀ x ∈ v'.rest, x.silent)
    (tasks : u.tasks = s.tasks.set (k + 1) v') (entered : u.entered = s.entered)
    (notifies : u.notifies = s.notifies) (trapped : u.trapped = s.trapped) : f.Inv u := by
  obtain ⟨t, works, reports, e, told, all, block, position, subs, working, count,
    untrapped, tell⟩ := inv
  rw [all] at here tasks
  rcases index_cases here with ⟨zero, -⟩ | ⟨j, eq, there⟩ | ⟨j, eq, there⟩
  · cases zero
  · obtain rfl : k = j := by omega
    obtain ⟨working', empty⟩ := rest (working v (List.mem_of_getElem? there))
    have counted := gone_set v' there
    rw [empty] at counted
    refine ⟨t, works.set k v', reports, e, told,
      by rw [tasks, set_work there], block, ?_, ?_, ?_, ?_, trapped.trans untrapped,
      ⟨?_, ?_, tell.single, tell.noted, ?_⟩⟩
    · rw [List.length_set]
      exact position
    · rw [map_set_same there same, List.length_set]
      exact subs
    · intro y y_there
      cases List.mem_or_eq_of_mem_set y_there with
      | inl old => exact working y old
      | inr new => exact new ▸ working'
    · rw [entered]
      omega
    · rw [notifies]
      exact tell.waiting
    · rw [notifies, entered]
      exact tell.fired
    · rw [entered]
      exact tell.pending
  · obtain rfl : k = works.length + j := by omega
    obtain ⟨noted, quiet⟩ := tell.noted v (List.mem_of_getElem? there)
    have filled : reports ≠ [] := by
      intro nil
      rw [nil] at there
      cases there
    have still : reports.set j v' ≠ [] := fun nil => filled (by simpa using nil)
    refine ⟨t, works, reports.set j v', e, told,
      by rw [tasks, set_report], block, position, subs, working,
      by rw [entered]; exact count, trapped.trans untrapped, ⟨fun nil => absurd nil still, ?_,
      by rw [List.length_set]; exact tell.single, ?_, fun _ nil => absurd nil still⟩⟩
    · intro _
      rw [notifies, entered]
      exact tell.fired filled
    · intro y y_there
      cases List.mem_or_eq_of_mem_set y_there with
      | inl old => exact tell.noted y old
      | inr new => exact new ▸ ⟨same.trans noted, silent quiet⟩

theorem gone_le (works : List (WorkItem σ String Queue Unit Unit Block)) :
    gone works ≤ works.length := by
  induction works with
  | nil => exact Nat.le_refl 0
  | cons v works ih =>
      simp only [gone, List.map_cons, List.sum_cons, List.length_cons] at ih ⊢
      split_ifs <;> omega

theorem Position.le {rest : List (Instr σ String Queue Unit Unit Block)} {m e : ℕ} {told : Bool}
    (position : f.Position rest m e told) : m ≤ e := by
  cases position <;> omega

/-- A block leaves the group, and the last one lets the notification go. -/
theorem Inv.leave (inv : f.Inv s) {k : ℕ} (here : s.tasks[k + 1]? = some v)
    (last : v.rest = [.leave ()]) :
    f.Inv (f.toFunction.exec s (k + 1) v (.leave ()) []) := by
  obtain ⟨t, works, reports, e, told, all, block, position, subs, working, count,
    untrapped, tell⟩ := inv
  rw [all] at here
  rcases index_cases here with ⟨zero, -⟩ | ⟨j, eq, there⟩ | ⟨j, eq, there⟩
  · cases zero
  · obtain rfl : k = j := by omega
    -- this block has not left yet, so the group has been entered more often than left
    have counted := gone_set { v with rest := [], awaits := [] } there
    have bound := gone_le (works.set k { v with rest := [], awaits := [] })
    have le := position.le
    simp only [last, List.isEmpty_cons, List.isEmpty_nil, if_true, Bool.false_eq_true, if_false,
      List.length_set] at counted bound
    have inside : 0 < s.entered () := by omega
    have none_yet : reports = [] := by
      by_contra filled
      have := (tell.fired filled).2.2
      omega
    subst none_yet
    have notifies := tell.waiting rfl
    have works_subs : (works.set k { v with rest := [], awaits := [] }).map WorkItem.submission =
        works.map WorkItem.submission := map_set_same there rfl
    have works_working : ∀ y ∈ works.set k { v with rest := [], awaits := [] }, Working y.rest := by
      intro y y_there
      cases List.mem_or_eq_of_mem_set y_there with
      | inl old => exact working y old
      | inr new => exact new ▸ .inl rfl
    have tasks : s.tasks.set (k + 1) { v with rest := [], awaits := [] } =
        t :: (works.set k { v with rest := [], awaits := [] } ++ []) := by
      rw [all, set_work there]
    by_cases only : s.entered () = 1
    · cases told with
      | false =>
          refine ⟨t, works.set k { v with rest := [], awaits := [] }, [], e, false, ?_, block,
            by rw [List.length_set]; exact position,
            by rw [works_subs, List.length_set]; exact subs,
            works_working, ?_, ?_, ⟨fun _ => ?_, by simp, by simp, by simp, by simp⟩⟩
          · simp only [Program.exec, Program.next, State.submits, State.awaits, only,
              notifies, if_true, tasks]
            simp
          · simp only [Program.exec, State.effect, only]
            simp
            omega
          · simp [Program.exec, State.effect, only, untrapped]
          · simp [Program.exec, State.effect, only, notifies]
      | true =>
          refine ⟨t, works.set k { v with rest := [], awaits := [] },
            [f.toFunction.task f.note], e, true, ?_, block, by rw [List.length_set]; exact position,
            by rw [works_subs, List.length_set]; exact subs,
            works_working, ?_, ?_, ⟨by simp, fun _ => ?_, by simp, ?_, by simp⟩⟩
          · simp only [Program.exec, Program.next, State.submits, State.awaits, only,
              notifies, if_true, tasks]
            simp
          · simp only [Program.exec, State.effect, only]
            simp
            omega
          · simp [Program.exec, State.effect, only, untrapped]
          · simp [Program.exec, State.effect, only, notifies]
          · intro r r_there
            obtain rfl := List.mem_singleton.mp r_there
            refine ⟨rfl, ?_⟩
            intro x x_there
            simp only [Program.task, note, toFunction, Nat.lt_irrefl, if_true, if_false] at x_there
            exact f.report_silent x x_there
    · refine ⟨t, works.set k { v with rest := [], awaits := [] }, [], e, told, ?_, block,
        by rw [List.length_set]; exact position, by rw [works_subs, List.length_set]; exact subs,
        works_working, ?_, ?_, ⟨fun _ => ?_, by simp, by simp, by simp, fun _ _ => ?_⟩⟩
      · simp only [Program.exec, Program.next, State.submits, State.awaits, only, if_false, tasks]
        simp
      · have positive : s.entered () ≠ 0 := by omega
        simp only [Program.exec, State.effect, only, positive, if_false, Function.update_self]
        omega
      · have positive : s.entered () ≠ 0 := by omega
        simp [Program.exec, State.effect, only, positive, untrapped]
      · have positive : s.entered () ≠ 0 := by omega
        simp only [Program.exec, State.effect, only, positive, if_false]
        exact notifies
      · have positive : s.entered () ≠ 0 := by omega
        simp only [Program.exec, State.effect, only, positive, if_false, Function.update_self]
        omega
  · have filled := (tell.noted v (List.mem_of_getElem? there)).2 (.leave ()) (by simp [last])
    cases filled

theorem body_block {k : ℕ} (lt : k < f.blocks) :
    f.toFunction.body (.block k) = f.work k ++ [.leave ()] := by
  simp [toFunction, lt]

/-- The function itself goes on. -/
theorem Inv.function (inv : f.Inv s) (here : s.tasks[0]? = some t)
    {x : Instr σ String Queue Unit Unit Block} {rest : List (Instr σ String Queue Unit Unit Block)}
    (code : t.rest = x :: rest) :
    f.Inv (f.toFunction.exec s 0 t x rest) := by
  obtain ⟨t', works, reports, e, told, all, block, position, subs, working, count,
    untrapped, tell⟩ := inv
  rw [all] at here
  obtain rfl : t' = t := Option.some.inj here
  generalize m_eq : works.length = m at position subs
  generalize t'.rest = now at position code
  have silent_case : x.silent → f.Position rest m e told →
      f.Inv (f.toFunction.exec s 0 t' x rest) := by
    intro silent next
    obtain ⟨after, trap, enters, notes⟩ :=
      Program.exec_of_silent (p := f.toFunction) (s := s) (i := 0) (t := t') silent rest
    refine ⟨{ t' with rest := rest, awaits := [] }, works, reports, e, told, ?_, block, m_eq ▸ next,
      m_eq ▸ subs, working, by rw [enters]; exact count, trap.trans untrapped, ⟨?_, ?_, tell.single,
        tell.noted, ?_⟩⟩
    · rw [after, all, List.set_cons_zero]
    · rw [notes]
      exact tell.waiting
    · rw [notes, enters]
      exact tell.fired
    · rw [enters]
      exact tell.pending
  cases position with
  | @opening y first part =>
      rw [List.cons_append] at code
      obtain ⟨rfl, rfl⟩ := List.cons.inj code
      refine silent_case (f.opening_silent y (part.subset List.mem_cons_self)) ?_
      cases first with
      | nil => exact .between (Nat.zero_add _)
      | cons z first => exact .opening ((List.suffix_cons y _).trans part)
  | told => cases code
  | @entered left all_rounds =>
      obtain ⟨rfl, rfl⟩ := List.cons.inj code
      have none_yet := tell.none_of_untold
      subst none_yet
      have notifies := tell.waiting rfl
      refine ⟨{ t' with rest := f.rounds left (m + 1), awaits := [] },
        works ++ [f.toFunction.task ⟨f.queue, false, .block m⟩], [], m + 1, false, ?_,
          block, ?_, ?_, ?_,
        ?_, untrapped, ⟨fun _ => notifies, by simp, by simp, by simp, by simp⟩⟩
      · simp [Program.exec, Program.next, State.submits, State.awaits, all]
      · rw [List.length_append, List.length_singleton, m_eq]
        exact .between (by omega)
      · rw [List.map_append, subs, List.length_append, m_eq, List.length_singleton, List.range_succ,
          List.map_append]
        rfl
      · intro y there
        rw [List.mem_append, List.mem_singleton] at there
        cases there with
        | inl old => exact working y old
        | inr new =>
            subst new
            exact .inr ⟨f.work m, f.work_silent m, body_block (by omega)⟩
      · have nonempty : (f.work m ++ [Instr.leave ()]).isEmpty = false := by
          cases f.work m <;> rfl
        have more : gone (works ++ [f.toFunction.task ⟨f.queue, false, .block m⟩]) =
            gone works := by
          simp [gone, Program.task, body_block (show m < f.blocks by omega)]
        rw [more]
        exact count
  | @between left _ all_rounds =>
      have none_yet := tell.none_of_untold
      subst none_yet
      have notifies := tell.waiting rfl
      cases left with
      | succ left =>
          obtain ⟨rfl, rfl⟩ := List.cons.inj code
          refine ⟨{ t' with
            rest := .async f.queue false (.block e) :: f.rounds left (e + 1)
            awaits := [] }, works, [], e + 1, false, ?_, block, ?_, m_eq ▸ subs, working,
            ?_, untrapped, ⟨fun _ => notifies, by simp, by simp, by simp, by simp⟩⟩
          · simp [Program.exec, Program.next, State.submits, State.awaits, all]
          · rw [m_eq]
            exact .entered all_rounds
          · simp only [Program.exec, State.effect, Function.update_self]
            omega
      | zero =>
          obtain ⟨rfl, rfl⟩ := List.cons.inj code
          have done : e = f.blocks := by omega
          subst done
          by_cases left : s.entered () = 0
          · refine ⟨{ t' with rest := [], awaits := [] }, works, [f.toFunction.task f.note],
              f.blocks, true, ?_, block, ?_, m_eq ▸ subs, working, ?_, ?_,
              ⟨by simp, fun _ => ?_, by simp, ?_, by simp⟩⟩
            · simp [Program.exec, Program.next, State.submits, State.awaits, all, left, note]
            · rw [m_eq]
              exact .told
            · simpa [Program.exec, State.effect, left] using count
            · simp [Program.exec, State.effect, left, untrapped]
            · simpa [Program.exec, State.effect, left] using notifies
            · intro r r_there
              obtain rfl := List.mem_singleton.mp r_there
              refine ⟨rfl, ?_⟩
              intro x x_there
              simp only [Program.task, note, toFunction, Nat.lt_irrefl, if_true,
                if_false] at x_there
              exact f.report_silent x x_there
          · refine ⟨{ t' with rest := [], awaits := [] }, works, [], f.blocks, true, ?_, block, ?_,
              m_eq ▸ subs, working, ?_, ?_, ⟨fun _ => ?_, by simp, by simp, by simp, fun _ _ => ?_⟩⟩
            · simp [Program.exec, Program.next, State.submits, State.awaits, all, left]
            · rw [m_eq]
              exact .told
            · simpa [Program.exec, State.effect, left] using count
            · simp [Program.exec, State.effect, left, untrapped]
            · simp [Program.exec, State.effect, left, note, notifies]
            · simp only [Program.exec, State.effect, left, if_false]
              omega

/-- A task starts or ends. -/
theorem Inv.phase (inv : f.Inv s) (here : s.tasks[i]? = some v) (phase : Phase) :
    f.Inv { s with tasks := s.tasks.set i { v with phase := phase } } := by
  cases i with
  | succ k =>
      exact inv.work { v with phase := phase } here rfl (fun w => ⟨w, rfl⟩) id rfl rfl rfl rfl
  | zero =>
      obtain ⟨t, works, reports, e, told, all, block, position, subs, working, count,
        untrapped, tell⟩ := inv
      rw [all] at here
      obtain rfl : t = v := Option.some.inj here
      exact ⟨{ t with phase := phase }, works, reports, e, told,
        by rw [all, List.set_cons_zero], block, position, subs, working, count, untrapped,
        ⟨tell.waiting, tell.fired, tell.single, tell.noted, tell.pending⟩⟩

theorem Inv.later (inv : f.Inv s) {k : ℕ} (here : s.tasks[k + 1]? = some v) :
    Working v.rest ∨ ∀ x ∈ v.rest, x.silent := by
  obtain ⟨t, works, reports, e, told, all, block, position, subs, working, count,
    untrapped, tell⟩ := inv
  rw [all] at here
  rcases index_cases here with ⟨zero, -⟩ | ⟨j, eq, there⟩ | ⟨j, eq, there⟩
  · cases zero
  · exact .inl (working v (List.mem_of_getElem? there))
  · exact .inr (tell.noted v (List.mem_of_getElem? there)).2

theorem Inv.exec_later (inv : f.Inv s) {k : ℕ} (here : s.tasks[k + 1]? = some v)
    {x : Instr σ String Queue Unit Unit Block} {rest : List (Instr σ String Queue Unit Unit Block)}
    (code : v.rest = x :: rest) : f.Inv (f.toFunction.exec s (k + 1) v x rest) := by
  have silent_case : x.silent → (Working v.rest → Working rest ∧ rest.isEmpty = v.rest.isEmpty) →
      f.Inv (f.toFunction.exec s (k + 1) v x rest) := by
    intro silent working
    obtain ⟨after, trap, enters, notes⟩ :=
      Program.exec_of_silent (p := f.toFunction) (s := s) (i := k + 1) (t := v) silent rest
    refine inv.work { v with rest := rest, awaits := [] } here rfl working ?_ after enters
      notes trap
    intro quiet y there
    exact quiet y (by rw [code]; exact List.mem_cons_of_mem x there)
  cases inv.later here with
  | inl working =>
      rcases working with empty | ⟨first, silent, split⟩
      · rw [empty] at code
        cases code
      · rw [split] at code
        cases first with
        | nil =>
            obtain ⟨rfl, rfl⟩ := List.cons.inj code
            exact inv.leave here split
        | cons y first =>
            obtain ⟨rfl, rfl⟩ := List.cons.inj code
            refine silent_case (silent y List.mem_cons_self) fun _ => ⟨.inr ⟨first, ?_, rfl⟩, ?_⟩
            · exact fun z there => silent z (List.mem_cons_of_mem y there)
            · rw [split]
              cases first <;> rfl
  | inr quiet =>
      refine silent_case (quiet x (by simp [code])) ?_
      intro working
      -- a block that has yet to leave is not silent
      rcases working with empty | ⟨first, -, split⟩
      · rw [empty] at code
        cases code
      · have loud := quiet (.leave ()) (by simp [split])
        cases loud

theorem Inv.step (inv : f.Inv s) (stepped : f.toFunction.step s i = some u) : f.Inv u := by
  cases (Program.stepped_of_step stepped).2 with
  | start here queued may => exact inv.phase here .running
  | finish here running waited code => exact inv.phase here .finished
  | exec here running waited code allowed =>
      cases i with
      | zero => exact inv.function here code
      | succ k => exact inv.exec_later here code

theorem Inv.start (store : σ) : f.Inv (f.toFunction.begin store) := by
  refine ⟨_, [], [], 0, false, rfl, rfl, ?_, rfl, by simp, rfl, rfl,
    ⟨fun _ => rfl, by simp, by simp, by simp, by simp⟩⟩
  change f.Position (f.opening ++ f.rounds f.blocks 0) 0 0 false
  cases opening : f.opening with
  | nil => exact .between (Nat.zero_add _)
  | cons x first =>
      have whole : f.opening <:+ f.opening := List.suffix_refl _
      exact .opening (opening ▸ whole)

theorem rest_nil_of_gone (all : gone works = works.length) : ∀ v ∈ works, v.rest = [] := by
  induction works with
  | nil => simp
  | cons w works ih =>
      have bound := gone_le works
      simp only [gone, List.map_cons, List.sum_cons, List.length_cons] at all bound ih
      have empty : w.rest.isEmpty = true := by
        by_contra full
        simp only [full, if_false] at all
        omega
      simp only [empty, if_true] at all
      intro v there
      cases List.mem_cons.mp there with
      | inl first => exact first ▸ List.isEmpty_iff.mp empty
      | inr later => exact ih (by omega) v later

theorem Position.of_told {rest : List (Instr σ String Queue Unit Unit Block)} {m e : ℕ}
    {told : Bool} (position : f.Position rest m e told) (asked : told = true) :
    rest = [] ∧ m = f.blocks ∧ e = f.blocks := by
  cases position with
  | told => exact ⟨rfl, rfl, rfl⟩
  | _ => cases asked

theorem Position.le_blocks {rest : List (Instr σ String Queue Unit Unit Block)} {m e : ℕ}
    {told : Bool} (position : f.Position rest m e told) : m ≤ f.blocks := by
  cases position <;> omega

/-- When the block at the end is there, all others have come to their ends. -/
theorem Inv.all_gone (inv : f.Inv s) {r : WorkItem σ String Queue Unit Unit Block}
    (there : s.tasks[f.blocks + 1]? = some r) :
    r.submission = f.note ∧ s.tasks.length = f.blocks + 2 ∧
      ∀ k v, k ≤ f.blocks → s.tasks[k]? = some v → v.rest = [] := by
  obtain ⟨t, works, reports, e, told, all, block, position, subs, working, count,
    untrapped, tell⟩ := inv
  have le := position.le_blocks
  rw [all] at there
  rcases index_cases there with ⟨zero, -⟩ | ⟨j, eq, inside⟩ | ⟨j, eq, noted⟩
  · cases zero
  · have := (List.getElem?_eq_some_iff.mp inside).1
    omega
  · have filled : reports ≠ [] := by
      intro nil
      rw [nil] at noted
      cases noted
    obtain ⟨asked, -, left⟩ := tell.fired filled
    obtain ⟨ended, m_eq, e_eq⟩ := position.of_told asked
    have empty := rest_nil_of_gone (show gone works = works.length by omega)
    have one : reports.length = 1 := by
      have := tell.single
      have := List.length_pos_of_ne_nil filled
      omega
    refine ⟨(tell.noted r (List.mem_of_getElem? noted)).1, ?_, ?_⟩
    · rw [all, List.length_cons, List.length_append]
      omega
    · intro k v le_k at_k
      rw [all] at at_k
      rcases index_cases at_k with ⟨-, rfl⟩ | ⟨j, -, inside⟩ | ⟨j, eq, -⟩
      · exact ended
      · exact empty v (List.mem_of_getElem? inside)
      · omega

variable (f) in
/-- The function, the blocks of the group, and the block at the end. -/
def rank (task : ℕ) : ℕ := if task = 0 then 0 else if task ≤ f.blocks then 1 else 2

/-- While the function prints there is no other task. -/
theorem Inv.alone (inv : f.Inv s) (here : s.tasks[0]? = some t)
    {x : Instr σ String Queue Unit Unit Block} {rest : List (Instr σ String Queue Unit Unit Block)}
    (code : t.rest = x :: rest) (silent : x.silent) :
    s.tasks.length = 1 := by
  obtain ⟨t', works, reports, e, told, all, block, position, subs, working, count,
    untrapped, tell⟩ := inv
  rw [all] at here
  obtain rfl : t' = t := Option.some.inj here
  generalize m_eq : works.length = m at position subs
  generalize t'.rest = now at position code
  cases position with
  | opening => simp [all, tell.none_of_untold, List.length_eq_zero_iff.mp m_eq]
  | told => cases code
  | entered =>
      obtain ⟨rfl, rfl⟩ := List.cons.inj code
      cases silent
  | @between left =>
      cases left <;> obtain ⟨rfl, rfl⟩ := List.cons.inj code <;> cases silent

theorem rank_le (task : ℕ) : f.rank task ≤ 2 := by
  unfold rank
  split_ifs <;> omega

variable (f) in
/-- The function prints before the blocks, and the block at the end after them. -/
def Sorted (s : State σ String Queue Unit Unit Block) : Prop :=
  s.log.Pairwise fun a b => f.rank a.1 ≤ f.rank b.1

theorem Sorted.step (inv : f.Inv s) (ordered : f.toFunction.Ordered s) (sorted : f.Sorted s)
    (stepped : f.toFunction.step s i = some u) : f.Sorted u := by
  cases (Program.stepped_of_step stepped).2 with
  | start here queued may => exact sorted
  | finish here running waited code => exact sorted
  | @exec v x rest here running waited code allowed =>
      cases silent : x.silent with
      | false =>
          unfold Sorted
          rw [(Program.exec_of_loud silent _).1]
          exact sorted
      | true =>
          obtain ⟨out, log⟩ := Program.exec_log_append (p := f.toFunction) (s := s) (i := i)
            (t := v) (x := x)
            rest
          unfold Sorted
          rw [log, List.pairwise_append]
          refine ⟨sorted, List.pairwise_map.mpr (List.pairwise_of_forall fun _ _ => Nat.le_refl _),
            ?_⟩
          intro e e_there g g_there
          obtain ⟨y, -, rfl⟩ := List.mem_map.mp g_there
          obtain ⟨a, at_e, -⟩ := ordered.logged e e_there
          have within := (List.getElem?_eq_some_iff.mp at_e).1
          by_cases end_block : f.blocks < i
          · have top : f.rank i = 2 := by
              simp only [rank, show ¬i = 0 by omega, show ¬i ≤ f.blocks by omega, if_false]
            rw [top]
            exact rank_le e.1
          · cases i with
            | zero =>
                have alone := inv.alone here code silent
                have zero : e.1 = 0 := by omega
                rw [zero]
            | succ k =>
                have low : e.1 ≤ f.blocks := by
                  by_contra beyond
                  obtain ⟨r, at_r⟩ : ∃ r, s.tasks[f.blocks + 1]? = some r :=
                    ⟨_, List.getElem?_eq_getElem (by omega)⟩
                  have empty := (inv.all_gone at_r).2.2 (k + 1) v (by omega) here
                  rw [empty] at code
                  cases code
                simp only [rank, low, show k + 1 ≤ f.blocks by omega,
                  Nat.succ_ne_zero, if_true, if_false]
                split_ifs <;> omega

variable (f) in
/-- What holds along all runs. -/
structure Run (s : State σ String Queue Unit Unit Block) : Prop where
  inv : f.Inv s
  ordered : f.toFunction.Ordered s
  written : f.toFunction.Written s
  sorted : f.Sorted s
  free : s.Only fun x => x.blocks = false
  awaits : ∀ t ∈ s.tasks, t.awaits = []
  ended : ∀ t ∈ s.tasks, t.phase = .finished → t.rest = []

theorem plain (b : Block) {x : Instr σ String Queue Unit Unit Block}
    (there : x ∈ f.toFunction.body b) :
    x.blocks = false ∧ x.loops = false := by
  have of_silent : x.silent → x.blocks = false ∧ x.loops = false := by
    intro silent
    cases x <;> simp_all [Instr.silent, Instr.blocks, Instr.joins, Instr.loops]
  have of_rounds : ∀ left k, x ∈ f.rounds left k → x.blocks = false ∧ x.loops = false := by
    intro left
    induction left with
    | zero =>
        intro k there
        obtain rfl := List.mem_singleton.mp there
        exact ⟨rfl, rfl⟩
    | succ left ih =>
        intro k there
        simp only [rounds, List.mem_cons] at there
        rcases there with rfl | rfl | there
        · exact ⟨rfl, rfl⟩
        · exact ⟨rfl, rfl⟩
        · exact ih (k + 1) there
  cases b with
  | function =>
      cases List.mem_append.mp there with
      | inl opening => exact of_silent (f.opening_silent x opening)
      | inr later => exact of_rounds f.blocks 0 later
  | block k =>
      simp only [toFunction] at there
      split_ifs at there
      · cases List.mem_append.mp there with
        | inl work => exact of_silent (f.work_silent k x work)
        | inr leave =>
            obtain rfl := List.mem_singleton.mp leave
            exact ⟨rfl, rfl⟩
      · exact of_silent (f.report_silent x there)
      · cases there

theorem Run.step (run : f.Run s) (stepped : f.toFunction.step s i = some u) : f.Run u where
  inv := run.inv.step stepped
  ordered := run.ordered.step stepped
  written := run.written.step run.ordered stepped
  sorted := run.sorted.step run.inv run.ordered stepped
  free := Program.only_step (fun b _ there => (plain b there).1) run.free stepped
  awaits := Program.awaits_step (State.Only.mono run.free Instr.joins_of_blocks) run.awaits stepped
  ended := Program.ended_step run.ended stepped

theorem Run.start (store : σ) : f.Run (f.toFunction.begin store) where
  inv := .start store
  ordered := .start ..
  written := Program.Written.start _ _ _ _
  sorted := List.Pairwise.nil
  free t there x x_there := by
    obtain rfl := List.mem_singleton.mp there
    exact (plain .function x_there).1
  awaits t there := by
    obtain rfl := List.mem_singleton.mp there
    rfl
  ended t there := by
    obtain rfl := List.mem_singleton.mp there
    exact nofun

theorem run_of_reachable {store : σ}
    (reached : f.toFunction.machine.Reachable (f.toFunction.begin store) s) :
    f.Run s :=
  reached.invariant (fun _ _ _ run stepped => run.step stepped) (.start store)

theorem gone_of_empty (empty : ∀ v ∈ works, v.rest = []) : gone works = works.length := by
  induction works with
  | nil => rfl
  | cons w works ih =>
      have later := ih fun v there => empty v (List.mem_cons_of_mem w there)
      simp only [gone] at later
      simp only [gone, List.map_cons, List.sum_cons, List.length_cons, later,
        empty w List.mem_cons_self]
      simp
      omega

theorem Position.of_nil {rest : List (Instr σ String Queue Unit Unit Block)} {m e : ℕ} {told : Bool}
    (position : f.Position rest m e told) (nil : rest = []) : told = true := by
  cases position with
  | told => rfl
  | @between left =>
      cases left <;> cases nil
  | _ => cases nil

/-- When no task can go on, all blocks have come to their ends, the one at the end as well. -/
theorem Run.complete (run : f.Run s) (stuck : f.toFunction.Stuck s) :
    (∀ t ∈ s.tasks, t.rest = []) ∧ ∃ first, s.tasks.map WorkItem.submission =
      first :: ((List.range f.blocks).map (⟨f.queue, false, .block ·⟩) ++ [f.note]) ∧
        first.block = .function := by
  obtain ⟨t, works, reports, e, told, all, block, position, subs, working, count, untrapped,
    tell⟩ := run.inv
  have finished := Program.finished_of_stuck run.free run.awaits untrapped stuck
  have empty : ∀ v ∈ s.tasks, v.rest = [] := fun v there => run.ended v there (finished v there)
  have asked := position.of_nil (empty t (by simp [all]))
  obtain ⟨-, m_eq, e_eq⟩ := position.of_told asked
  have left : gone works = works.length := gone_of_empty fun v there =>
      empty v (by simp [all, there])
  have filled : reports ≠ [] := by
    intro nil
    have := tell.pending asked nil
    omega
  obtain ⟨r, rfl⟩ : ∃ r, reports = [r] := by
    have := List.length_pos_of_ne_nil filled
    exact List.length_eq_one_iff.mp (Nat.le_antisymm tell.single this)
  refine ⟨empty, t.submission, ?_, block⟩
  rw [all, List.map_cons, List.map_append, subs, m_eq, List.map_singleton,
    (tell.noted r (by simp)).1]

theorem printed_rounds (left k : ℕ) : (f.rounds left k).filterMap Instr.printed = [] := by
  induction left generalizing k with
  | zero => rfl
  | succ left ih => exact ih (k + 1)

theorem straight_rounds (left k : ℕ) : ∀ x ∈ f.rounds left k, x.straight := by
  induction left generalizing k with
  | zero =>
      intro x there
      obtain rfl := List.mem_singleton.mp there
      rfl
  | succ left ih =>
      intro x there
      simp only [rounds, List.mem_cons] at there
      rcases there with rfl | rfl | there
      · rfl
      · rfl
      · exact ih (k + 1) x there

variable (f) in
/-- What the function and its blocks print does not depend on the store. -/
structure Straight : Prop where
  opening : ∀ x ∈ f.opening, x.straight
  work : ∀ k, ∀ x ∈ f.work k, x.straight
  report : ∀ x ∈ f.report, x.straight

theorem Straight.body (straight : f.Straight) (b : Block) :
    ∀ x ∈ f.toFunction.body b, x.straight := by
  intro x there
  cases b with
  | function =>
      cases List.mem_append.mp there with
      | inl opening => exact straight.opening x opening
      | inr later => exact straight_rounds f.blocks 0 x later
  | block k =>
      simp only [toFunction] at there
      split_ifs at there
      · cases List.mem_append.mp there with
        | inl work => exact straight.work k x work
        | inr leave =>
            obtain rfl := List.mem_singleton.mp leave
            rfl
      · exact straight.report x there
      · cases there

/-- The lines of the blocks in any order, between those of the function and of the end. -/
theorem Run.log (run : f.Run s) (straight : f.Straight) (stuck : f.toFunction.Stuck s) :
    ∃ middle, s.log.map Prod.snd = f.opening.filterMap Instr.printed ++ middle ++
        f.report.filterMap Instr.printed ∧
      middle.Perm ((List.range f.blocks).flatMap fun k => (f.work k).filterMap Instr.printed) := by
  obtain ⟨empty, first, subs, block⟩ := run.complete stuck
  have outputs : ∀ k n, (first ::
      ((List.range f.blocks).map (⟨f.queue, false, .block ·⟩) ++ [f.note]))[k]? =
      some n → (s.log.filter (·.1 = k)).map Prod.snd =
        (f.toFunction.body n.block).filterMap Instr.printed := by
    intro k n at_k
    rw [← subs, List.getElem?_map, Option.map_eq_some_iff] at at_k
    obtain ⟨v, v_there, rfl⟩ := at_k
    obtain ⟨done, split, out, -, -⟩ := run.written k v v_there (straight.body _)
    rw [empty v (List.mem_of_getElem? v_there), List.append_nil] at split
    rw [split]
    exact out
  have count : s.tasks.length = f.blocks + 2 := by
    have := congrArg List.length subs
    simpa using this
  have pieces := eq_flatMap_of_pairwise run.sorted (n := 3) fun e _ =>
      Nat.lt_succ_of_le (rank_le e.1)
  have ranks : ∀ e ∈ s.log, (f.rank e.1 = 0 ↔ e.1 ∈ [0]) ∧
      (f.rank e.1 = 1 ↔ e.1 ∈ (List.range f.blocks).map (· + 1)) ∧
      (f.rank e.1 = 2 ↔ e.1 ∈ [f.blocks + 1]) := by
    intro e there
    obtain ⟨a, at_e, -⟩ := run.ordered.logged e there
    have within := (List.getElem?_eq_some_iff.mp at_e).1
    have middle : e.1 ∈ (List.range f.blocks).map (· + 1) ↔ 0 < e.1 ∧ e.1 ≤ f.blocks := by
      rw [List.mem_map]
      constructor
      · intro named
        obtain ⟨k, lt, eq⟩ := named
        rw [List.mem_range] at lt
        omega
      · intro range
        exact ⟨e.1 - 1, by rw [List.mem_range]; omega, by omega⟩
    rw [middle, List.mem_singleton, List.mem_singleton]
    unfold rank
    grind
  have low : s.log.filter (f.rank ·.1 = 0) = s.log.filter (·.1 = 0) :=
    List.filter_congr fun e there => by simp [(ranks e there).1]
  have mid := filter_rank_perm ((List.range f.blocks).map (· + 1))
    (List.Nodup.map (fun a b eq => Nat.succ_inj.mp eq) List.nodup_range) fun e there =>
    (ranks e there).2.1
  have high : s.log.filter (f.rank ·.1 = 2) = s.log.filter (·.1 = f.blocks + 1) :=
    List.filter_congr fun e there => by simp [(ranks e there).2.2]
  have body_function : (f.toFunction.body .function).filterMap Instr.printed =
      f.opening.filterMap Instr.printed := by
    change (f.opening ++ f.rounds f.blocks 0).filterMap Instr.printed = _
    rw [List.filterMap_append, printed_rounds, List.append_nil]
  have body_end : (f.toFunction.body (.block f.blocks)).filterMap Instr.printed =
      f.report.filterMap Instr.printed := by
    simp [toFunction]
  have middle : ((List.range f.blocks).map (· + 1)).flatMap (fun k =>
      (s.log.filter (·.1 = k)).map Prod.snd) =
        (List.range f.blocks).flatMap fun k => (f.work k).filterMap Instr.printed := by
    rw [List.flatMap_map]
    apply List.flatMap_congr
    intro k there
    have lt := List.mem_range.mp there
    rw [outputs (k + 1) ⟨f.queue, false, .block k⟩ ?_, body_block lt, List.filterMap_append]
    · simp [Instr.printed]
    · rw [List.getElem?_cons_succ, List.getElem?_append_left (by simpa using lt)]
      simp [lt]
  rw [middle] at mid
  refine ⟨_, ?_, mid⟩
  have split : s.log = s.log.filter (f.rank ·.1 = 0) ++ (s.log.filter (f.rank ·.1 = 1) ++
      s.log.filter (f.rank ·.1 = 2)) := by
    conv_lhs => rw [pieces]
    simp [List.range_succ]
  conv_lhs => rw [split, low, high, List.map_append, List.map_append, outputs 0 first rfl, block,
    body_function, outputs (f.blocks + 1) f.note (by simp)]
  rw [← List.append_assoc]
  congr 1

end Steps

section Blocks

variable {f} {s : State σ String Queue Unit Unit Block}
    {t v : WorkItem σ String Queue Unit Unit Block}

/-- The tasks after the function are its blocks in order. -/
theorem Inv.block_of_index (inv : f.Inv s) {k : ℕ} (there : s.tasks[k + 1]? = some v) :
    v.submission = ⟨if k = f.blocks then .getMainQueue else f.queue, false, .block k⟩ ∧
      k ≤ f.blocks := by
  obtain ⟨t, works, reports, e, told, all, block, position, subs, working, count,
    untrapped, tell⟩ := inv
  rw [all] at there
  have le := position.le_blocks
  rcases index_cases there with ⟨zero, -⟩ | ⟨j, eq, inside⟩ | ⟨j, eq, noted⟩
  · cases zero
  · obtain rfl : k = j := by omega
    have lt := (List.getElem?_eq_some_iff.mp inside).1
    have named := congrArg (fun l : List (Submission Queue Block) => l[k]?) subs
    simp only [List.getElem?_map, inside, Option.map_some] at named
    rw [List.getElem?_range lt, Option.map_some] at named
    rw [Option.some.inj named, if_neg (by omega)]
    exact ⟨rfl, by omega⟩
  · have filled : reports ≠ [] := by
      intro nil
      rw [nil] at noted
      cases noted
    have m_eq := (position.of_told (tell.fired filled).1).2.1
    have one := tell.single
    have lt := (List.getElem?_eq_some_iff.mp noted).1
    obtain rfl : k = f.blocks := by omega
    rw [(tell.noted v (List.mem_of_getElem? noted)).1, if_pos rfl]
    exact ⟨rfl, Nat.le_refl _⟩

/-- The function prints its opening and nothing else. -/
theorem Inv.loud (inv : f.Inv s) (none_first : f.opening = []) (here : s.tasks[0]? = some t)
    {x : Instr σ String Queue Unit Unit Block} {rest : List (Instr σ String Queue Unit Unit Block)}
    (code : t.rest = x :: rest) : x.silent = false ∧ x.straight := by
  obtain ⟨t', works, reports, e, told, all, block, position, subs, working, count,
    untrapped, tell⟩ := inv
  rw [all] at here
  obtain rfl : t' = t := Option.some.inj here
  generalize works.length = m at position
  generalize t'.rest = now at position code
  cases position with
  | opening part =>
      rw [none_first, List.suffix_nil] at part
      cases part
  | told => cases code
  | entered =>
      obtain ⟨rfl, rfl⟩ := List.cons.inj code
      exact ⟨rfl, rfl⟩
  | @between left =>
      cases left <;> obtain ⟨rfl, rfl⟩ := List.cons.inj code <;> exact ⟨rfl, rfl⟩

end Blocks

section Length

variable {f} {s : State σ String Queue Unit Unit Block} {bound : ℕ}

variable (f) in
/-- The steps that the blocks may take if none has more than `bound` instructions to do. -/
def weight (bound : ℕ) : Block → ℕ
  | .function => f.opening.length + (f.blocks * (bound + 5) + (f.report.length + 5))
  | .block k => if k = f.blocks then f.report.length + 2 else bound + 3

theorem cost_silent (bound : ℕ) {code : List (Instr σ String Queue Unit Unit Block)}
    (silent : ∀ x ∈ code, x.silent) :
    (code.map (Instr.cost (f.weight bound))).sum = code.length := by
  induction code with
  | nil => rfl
  | cons x code ih =>
      have later := ih fun y there => silent y (List.mem_cons_of_mem x there)
      have own := silent x List.mem_cons_self
      rw [List.map_cons, List.sum_cons, later, List.length_cons]
      cases x with
      | act g => exact Nat.add_comm 1 _
      | print y => exact Nat.add_comm 1 _
      | printWith g => exact Nat.add_comm 1 _
      | _ => cases own

theorem cost_rounds (left k : ℕ) (all : k + left = f.blocks) :
    ((f.rounds left k).map (Instr.cost (f.weight bound))).sum =
      left * (bound + 5) + (f.report.length + 3) := by
  induction left generalizing k with
  | zero =>
      simp only [rounds, List.map_cons, List.map_nil, List.sum_cons, List.sum_nil,
        Instr.cost, weight, if_true]
      omega
  | succ left ih =>
      have other : k ≠ f.blocks := by omega
      simp only [rounds, List.map_cons, List.sum_cons, Instr.cost, weight, other, if_false,
        ih (k + 1) (by omega), Nat.succ_mul]
      omega

theorem enough (short : ∀ k, (f.work k).length ≤ bound) (b : Block) :
    ((f.toFunction.body b).map (Instr.cost (f.weight bound))).sum + 2 ≤ f.weight bound b := by
  cases b with
  | function =>
      change ((f.opening ++ f.rounds f.blocks 0).map (Instr.cost (f.weight bound))).sum + 2 ≤ _
      rw [List.map_append, List.sum_append, cost_silent bound f.opening_silent,
        cost_rounds f.blocks 0 (Nat.zero_add _)]
      simp only [weight]
      omega
  | block k =>
      have length := short k
      simp only [toFunction]
      split_ifs with lt last
      · rw [List.map_append, List.sum_append, cost_silent bound (f.work_silent k)]
        simp only [weight, show k ≠ f.blocks by omega, if_false, List.map_cons, List.map_nil,
          List.sum_cons, List.sum_nil, Instr.cost]
        omega
      · rw [cost_silent bound f.report_silent]
        simp only [weight, last, if_true]
        exact Nat.le_refl _
      · simp only [weight, last, if_false, List.map_nil, List.sum_nil]
        omega

/-- Every run ends, and can be taken to an end from wherever it is. -/
theorem run_ends (short : ∀ k, (f.work k).length ≤ bound) {store : σ} {is : List ℕ}
    (run : f.toFunction.machine.run (f.toFunction.begin store) is = some s) :
    is.length ≤ f.weight bound .function ∧ ∃ u, f.Run u ∧ f.toFunction.Stuck u ∧ s.log <+: u.log ∧
      (f.toFunction.Stuck s → u = s) := by
  have loopless : ∀ b, ∀ x ∈ f.toFunction.body b, x.loops = false := fun b x there =>
      (plain b there).2
  have only : (f.toFunction.begin store).Only fun x => x.loops = false := by
    intro t there x x_there
    obtain rfl := List.mem_singleton.mp there
    exact loopless .function x x_there
  have only_s := (f.toFunction.machine).run_invariant
    (fun _ _ _ kept stepped => Program.only_step loopless kept stepped) run only
  obtain ⟨js, u, more, stuck, longer, same⟩ := Program.exists_stuck (enough short) loopless only_s
  refine ⟨?_, u, run_of_reachable ⟨is ++ js, f.toFunction.machine.run_append run more⟩,
    stuck, longer, same⟩
  have length := Program.length_run_le (enough short) loopless only run
  have total := enough short .function
  simp only [Function.begin, Program.start, Program.remaining, Program.left,
    List.map_cons, List.map_nil, List.sum_cons, List.sum_nil] at length
  omega

end Length

end FanOut

section DispatchGroup

/-- `thread` describes the thread on which a block runs. -/
def dispatchGroup (thread : Block → String) : Function Unit where
  discipline := Queue.discipline
  body
    | .function => [
        .print "group start",
        .enter (), .async .createConcurrentQueue false (.block 0),
        .enter (), .async .createConcurrentQueue false (.block 1),
        .enter (), .async .createConcurrentQueue false (.block 2),
        .enter (), .async .createConcurrentQueue false (.block 3),
        .notify () .getMainQueue (.block 4)]
    | .block 0 => (lines thread 0 "task 1").map .print ++ [.leave ()]
    | .block 1 => (lines thread 1 "task 2").map .print ++ [.leave ()]
    | .block 2 => (lines thread 2 "task 3").map .print ++ [.leave ()]
    | .block 3 => (lines thread 3 "task 4").map .print ++ [.leave ()]
    | .block 4 => [.print "group end"]
    | .block _ => []

def groupTasks : List String := ["task 1", "task 2", "task 3", "task 4"]

/-- What the blocks of the group print, one after the other. -/
def groupLines (thread : Block → String) : List String :=
  lines thread 0 "task 1" ++ lines thread 1 "task 2" ++ lines thread 2 "task 3" ++
    lines thread 3 "task 4"

def dispatchGroupFan (thread : Block → String) : FanOut Unit where
  blocks := 4
  queue := .createConcurrentQueue
  opening := [.print "group start"]
  work k := ((groupTasks[k]?).toList.flatMap (lines thread k)).map .print
  report := [.print "group end"]
  opening_silent x there := by
    obtain rfl := List.mem_singleton.mp there
    rfl
  work_silent k x there := by
    obtain ⟨text, -, rfl⟩ := List.mem_map.mp there
    rfl
  report_silent x there := by
    obtain rfl := List.mem_singleton.mp there
    rfl

variable {thread : Block → String}

theorem dispatchGroup_eq : dispatchGroup thread = (dispatchGroupFan thread).toFunction := by
  unfold dispatchGroup FanOut.toFunction
  congr 1
  funext b
  match b with
  | .function | .block 0 | .block 1 | .block 2 | .block 3 | .block 4 => rfl
  | .block (n + 5) => simp [dispatchGroupFan]

theorem dispatchGroupFan_straight : (dispatchGroupFan thread).Straight where
  opening x there := by
    obtain rfl := List.mem_singleton.mp there
    rfl
  work k x there := by
    obtain ⟨text, -, rfl⟩ := List.mem_map.mp there
    rfl
  report x there := by
    obtain rfl := List.mem_singleton.mp there
    rfl

theorem length_work_le (k : ℕ) : ((dispatchGroupFan thread).work k).length ≤ 2 := by
  simp only [dispatchGroupFan, List.length_map]
  cases groupTasks[k]? <;> simp [lines]

variable {s : State Unit String Queue Unit Unit Block}

/-- Every run of `dispatchGroup` ends, never leaves the group too often, and prints the end
    of the group after the lines of all four tasks, whatever order these print in; a task
    prints its own in their order. -/
theorem dispatchGroup_prints (thread : Block → String) {is : List ℕ}
    (run : (dispatchGroup thread).machine.run ((dispatchGroup thread).begin ()) is = some s) :
    is.length ≤ 35 ∧ s.trapped = false ∧
      (∀ k v, s.tasks[k]? = some v → (s.log.filter (·.1 = k)).map Prod.snd <+:
        ((dispatchGroup thread).body v.submission.block).filterMap Instr.printed) ∧
      ∃ middle, middle.Perm (groupLines thread) ∧
        s.log.map Prod.snd <+: "group start" :: middle ++ ["group end"] ∧
        ((dispatchGroup thread).Stuck s →
          s.log.map Prod.snd = "group start" :: middle ++ ["group end"]) := by
  rw [dispatchGroup_eq] at run ⊢
  obtain ⟨length, u, run_u, stuck, longer, same⟩ := FanOut.run_ends length_work_le run
  obtain ⟨middle, log, perm⟩ := run_u.log dispatchGroupFan_straight stuck
  have run_s := FanOut.run_of_reachable ⟨is, run⟩
  obtain ⟨_, _, _, _, _, _, _, _, _, _, _, untrapped, _⟩ := run_s.inv
  refine ⟨length, untrapped,
    fun k v there => run_s.written.own_lines there (dispatchGroupFan_straight.body _),
    middle, perm, ?_, fun ended => ?_⟩
  · exact log ▸ longer.map Prod.snd
  · rw [← same ended]
    exact log

/-- The second task leaves the group before the first one starts. -/
theorem dispatchGroup_prints_second :
    let thread : Block → String := fun _ => "worker"
    ∃ s, (dispatchGroup thread).machine.run ((dispatchGroup thread).begin ())
        [0, 0, 0, 0, 0, 2, 2, 2, 2] = some s ∧
      s.log = [(0, "group start"), (2, "thread: worker"), (2, "task 2")] ∧
      [0, 0, 0, 0, 0, 2, 2, 2, 2].length ≤ 35 ∧ s.trapped = false ∧
      (∀ k v, s.tasks[k]? = some v → (s.log.filter (·.1 = k)).map Prod.snd <+:
        ((dispatchGroup thread).body v.submission.block).filterMap Instr.printed) ∧
      ∃ middle, middle.Perm (groupLines thread) ∧
        s.log.map Prod.snd <+: "group start" :: middle ++ ["group end"] ∧
        ((dispatchGroup thread).Stuck s →
          s.log.map Prod.snd = "group start" :: middle ++ ["group end"]) :=
  ⟨_, rfl, rfl, dispatchGroup_prints (fun _ => "worker") rfl⟩

end DispatchGroup

end LearningProjects.GCD
