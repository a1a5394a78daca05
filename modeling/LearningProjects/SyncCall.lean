import LearningProjects.Dispatch

/-! # Waiting for blocks of other queues

A block that hands its work to other queues and waits for each piece does what the pieces
would do in its place: there is only one order.
-/

namespace LearningProjects.Dispatch.Program

variable {σ ω Q S G B : Type} [DecidableEq Q] [DecidableEq S] [DecidableEq G]
variable (p : Program σ ω Q S G B)

/-- Prints, or waits for a block that prints and need not wait for the caller. -/
inductive Call (caller : Submission Q B) : Instr σ ω Q S G B → Prop where
  | print (x : ω) : Call caller (.print x)
  | sync {q : Q} {b : B} (free : p.apart caller ⟨q, false, b⟩ = false)
      (prints : ∀ y ∈ p.body b, ∃ z, y = .print z) : Call caller (.sync q b)

/-- What an instruction prints if its block runs in its place. -/
def inline : Instr σ ω Q S G B → List ω
  | .print x => [x]
  | .sync _ b => (p.body b).filterMap Instr.printed
  | _ => []

/-- The caller and the blocks it has waited for, all of them finished. -/
structure Idle (caller : Submission Q B) (total : List ω) (s : State σ ω Q S G B)
    (t : WorkItem σ ω Q S G B) (olds : List (WorkItem σ ω Q S G B)) : Prop where
  tasks : s.tasks = t :: olds
  own : t.submission = caller
  code : ∀ x ∈ t.rest, p.Call caller x
  finished : ∀ v ∈ olds, v.phase = .finished
  waited : t.phase = .running → t.awaits.all s.finished
  ended : t.phase = .finished → t.rest = []
  awake : t.phase ≠ .queued
  out : s.log.map Prod.snd ++ t.rest.flatMap p.inline = total

/-- The caller waits for the last block. -/
structure Busy (caller : Submission Q B) (total : List ω) (s : State σ ω Q S G B)
    (t : WorkItem σ ω Q S G B) (olds : List (WorkItem σ ω Q S G B))
    (v : WorkItem σ ω Q S G B) : Prop where
  tasks : s.tasks = t :: (olds ++ [v])
  own : t.submission = caller
  code : ∀ x ∈ t.rest, p.Call caller x
  finished : ∀ w ∈ olds, w.phase = .finished
  running : t.phase = .running
  awaits : t.awaits = [olds.length + 1]
  unfinished : v.phase ≠ .finished
  free : v.awaits = [] ∧ p.apart caller v.submission = false
  prints : ∀ y ∈ v.rest, ∃ z, y = .print z
  out : s.log.map Prod.snd ++ (v.rest.filterMap Instr.printed ++ t.rest.flatMap p.inline) = total

/-- One of the two, and nothing is left too often. -/
def Calling (caller : Submission Q B) (total : List ω) (s : State σ ω Q S G B) : Prop :=
  s.trapped = false ∧ ((∃ t olds, p.Idle caller total s t olds) ∨
    ∃ t olds v, p.Busy caller total s t olds v)

variable {p} {s u : State σ ω Q S G B} {i : ℕ} {t v : WorkItem σ ω Q S G B}
  {olds : List (WorkItem σ ω Q S G B)} {caller : Submission Q B} {total : List ω}
  {x : Instr σ ω Q S G B} {rest : List (Instr σ ω Q S G B)}

/-- The caller prints or begins to wait. -/
theorem Idle.exec (idle : p.Idle caller total s t olds) (untrapped : s.trapped = false)
    (running : t.phase = .running) (code : t.rest = x :: rest) :
    p.Calling caller total (p.exec s 0 t x rest) := by
  have call := idle.code x (by simp [code])
  have later : ∀ y ∈ rest, p.Call caller y := fun y there =>
    idle.code y (by rw [code]; exact List.mem_cons_of_mem x there)
  have out := idle.out
  rw [code, List.flatMap_cons] at out
  cases call with
  | print z =>
      refine ⟨untrapped, .inl ⟨{ t with rest := rest, awaits := [] }, olds, ?_, idle.own, later,
        idle.finished, fun _ => rfl, by simp [running], by simp [running], ?_⟩⟩
      · simp [Program.exec, State.submits, next, State.awaits, idle.tasks]
      · rw [exec_log rfl, List.map_append, List.append_assoc]
        exact out
  | @sync q b free prints =>
      refine ⟨untrapped, .inr ⟨{ t with rest := rest, awaits := [olds.length + 1] }, olds,
        p.task ⟨q, false, b⟩, ?_, idle.own, later, idle.finished, running, rfl,
        by simp [task], ⟨rfl, free⟩, prints, ?_⟩⟩
      · simp [Program.exec, State.submits, next, State.awaits, idle.tasks]
      · rw [exec_log rfl]
        simpa [inline, task, Instr.printed] using out

/-- The block that is waited for prints. -/
theorem Busy.exec (busy : p.Busy caller total s t olds v) (untrapped : s.trapped = false)
    (running : v.phase = .running) (code : v.rest = x :: rest) :
    p.Calling caller total (p.exec s (olds.length + 1) v x rest) := by
  obtain ⟨z, rfl⟩ := busy.prints x (by simp [code])
  have out := busy.out
  rw [code] at out
  refine ⟨untrapped, .inr ⟨t, olds, { v with rest := rest, awaits := [] }, ?_, busy.own, busy.code,
    busy.finished, busy.running, busy.awaits, by simp [running], ⟨rfl, busy.free.2⟩, ?_, ?_⟩⟩
  · simp [Program.exec, State.submits, next, State.awaits, busy.tasks, List.set_append_right]
  · intro y there
    exact busy.prints y (by rw [code]; exact List.mem_cons_of_mem _ there)
  · rw [exec_log rfl]
    simpa [Instr.printed] using out

omit [DecidableEq Q] [DecidableEq S] [DecidableEq G] in
theorem waited_of_finished {j : ℕ} (awaits : t.awaits = [j]) (there : s.tasks[j]? = some v) :
    t.awaits.all s.finished = true ↔ v.phase = .finished := by
  simp [awaits, State.finished, there]

theorem Calling.step (calling : p.Calling caller total s) (stepped : p.step s i = some u) :
    p.Calling caller total u := by
  obtain ⟨untrapped, ⟨t, olds, idle⟩ | ⟨t, olds, v, busy⟩⟩ := calling
  · have here_or : ∀ {w : WorkItem σ ω Q S G B}, s.tasks[i]? = some w → w.phase ≠ .finished →
        i = 0 ∧ w = t := by
      intro w here unfinished
      rw [idle.tasks] at here
      cases i with
      | zero => exact ⟨rfl, (Option.some.inj here).symm⟩
      | succ k => exact absurd (idle.finished w (List.mem_of_getElem? here)) unfinished
    cases (stepped_of_step stepped).2 with
    | start here queued may =>
        obtain ⟨rfl, rfl⟩ := here_or here (by simp [queued])
        exact absurd queued idle.awake
    | @finish w here running waited code =>
        obtain ⟨rfl, rfl⟩ := here_or here (by simp [running])
        exact ⟨untrapped, .inl ⟨{ w with phase := .finished }, olds,
          by rw [idle.tasks, List.set_cons_zero], idle.own, idle.code, idle.finished, nofun,
          fun _ => code, nofun, idle.out⟩⟩
    | exec here running waited code allowed =>
        obtain ⟨rfl, rfl⟩ := here_or here (by simp [running])
        exact idle.exec untrapped running code
  · have at_v : s.tasks[olds.length + 1]? = some v := by simp [busy.tasks]
    have here_or : ∀ {w : WorkItem σ ω Q S G B}, s.tasks[i]? = some w → w.phase ≠ .finished →
        (w.phase = .running → w.awaits.all s.finished) → i = olds.length + 1 ∧ w = v := by
      intro w here unfinished waited
      rw [busy.tasks] at here
      cases i with
      | zero =>
          obtain rfl := Option.some.inj here
          have done := (waited_of_finished busy.awaits at_v).mp (waited busy.running)
          exact absurd done busy.unfinished
      | succ k =>
          rw [List.getElem?_cons_succ, List.getElem?_append] at here
          split_ifs at here with old
          · exact absurd (busy.finished w (List.mem_of_getElem? here)) unfinished
          · have last := (List.getElem?_eq_some_iff.mp here).1
            have zero : k - olds.length = 0 := by simpa using last
            rw [zero] at here
            exact ⟨by omega, (Option.some.inj here).symm⟩
    have moved : ∀ w, s.tasks.set (olds.length + 1) w = t :: (olds ++ [w]) := by
      intro w
      simp [busy.tasks, List.set_append_right]
    cases (stepped_of_step stepped).2 with
    | @start w here queued may =>
        obtain ⟨rfl, rfl⟩ := here_or here (by simp [queued]) (by simp [queued])
        exact ⟨untrapped, .inr ⟨t, olds, { w with phase := .running }, moved _, busy.own, busy.code,
          busy.finished, busy.running, busy.awaits, nofun, busy.free, busy.prints, busy.out⟩⟩
    | @finish w here running waited code =>
        obtain ⟨rfl, rfl⟩ := here_or here (by simp [running]) fun _ => waited
        have out := busy.out
        rw [code, List.filterMap_nil, List.nil_append] at out
        refine ⟨untrapped, .inl ⟨t, olds ++ [{ w with phase := .finished }], moved _, busy.own,
          busy.code, ?_, fun _ => ?_, by simp [busy.running], by simp [busy.running], out⟩⟩
        · intro y there
          cases List.mem_append.mp there with
          | inl old => exact busy.finished y old
          | inr new =>
              obtain rfl := List.mem_singleton.mp new
              rfl
        · refine (waited_of_finished busy.awaits (v := { w with phase := .finished }) ?_).mpr rfl
          rw [moved]
          simp
    | exec here running waited code allowed =>
        obtain ⟨rfl, rfl⟩ := here_or here (by simp [running]) fun _ => waited
        exact busy.exec untrapped running code

omit [DecidableEq S] [DecidableEq G] in
theorem Calling.start {queue : Q} {block : B} (store : σ) (count : S → ℕ)
    (calls : ∀ x ∈ p.body block, p.Call ⟨queue, false, block⟩ x) :
    p.Calling ⟨queue, false, block⟩ ((p.body block).flatMap p.inline)
      (p.start store count queue block) :=
  ⟨rfl, .inl ⟨_, [], rfl, rfl, calls, nofun, fun _ => rfl, nofun, nofun, rfl⟩⟩

/-- When nothing can go on, the caller has come to its end. -/
theorem Calling.out_of_stuck (calling : p.Calling caller total s) (stuck : p.Stuck s) :
    s.log.map Prod.snd = total := by
  obtain ⟨untrapped, ⟨t, olds, idle⟩ | ⟨t, olds, v, busy⟩⟩ := calling
  · have here : s.tasks[0]? = some t := by simp [idle.tasks]
    have out := idle.out
    rcases held_of_stuck untrapped stuck here idle.waited with finished | queued |
      ⟨-, x, rest, code, held⟩
    · rw [idle.ended finished, List.flatMap_nil, List.append_nil] at out
      exact out
    · exact absurd queued.1 idle.awake
    · cases idle.code x (by simp [code]) <;> cases held
  · have at_v : s.tasks[olds.length + 1]? = some v := by simp [busy.tasks]
    rcases held_of_stuck untrapped stuck at_v (by simp [busy.free.1]) with finished | ⟨-, held⟩ |
      ⟨-, x, rest, code, held⟩
    · exact absurd finished busy.unfinished
    · have may : p.mayStart s (olds.length + 1) v := by
        rw [mayStart, busy.tasks]
        simp only [List.take_succ_cons, List.take_left, List.all_cons, Bool.and_eq_true]
        refine ⟨by rw [busy.own, busy.free.2]; simp, ?_⟩
        rw [List.all_eq_true]
        intro w there
        simp [busy.finished w there]
      rw [may] at held
      cases held
    · obtain ⟨z, rfl⟩ := busy.prints x (by simp [code])
      cases held

/-- Whatever the order of the steps, the lines come as if the blocks ran in place. -/
theorem calls_inline {queue : Q} {block : B} {store : σ} {count : S → ℕ}
    (calls : ∀ x ∈ p.body block, p.Call ⟨queue, false, block⟩ x)
    (reached : p.machine.Reachable (p.start (ω := ω) store count queue block) s) :
    s.log.map Prod.snd <+: (p.body block).flatMap p.inline ∧
      (p.Stuck s → s.log.map Prod.snd = (p.body block).flatMap p.inline) := by
  have calling : p.Calling ⟨queue, false, block⟩ ((p.body block).flatMap p.inline) s :=
    reached.invariant (fun _ _ _ calling stepped => calling.step stepped) (.start store count calls)
  refine ⟨?_, calling.out_of_stuck⟩
  obtain ⟨-, ⟨t, olds, idle⟩ | ⟨t, olds, v, busy⟩⟩ := calling
  · exact ⟨_, idle.out⟩
  · exact ⟨_, busy.out⟩

end LearningProjects.Dispatch.Program
