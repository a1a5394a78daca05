import LearningProjects.Dispatch

/-! # A block that waits for its own queue

A block of a serial queue that submits another block to this queue and waits for it waits
forever: the other block cannot start before it has finished.
-/

namespace LearningProjects.Dispatch.Program

variable {σ ω Q S G B : Type} [DecidableEq Q] [DecidableEq S] [DecidableEq G]
variable (p : Program σ ω Q S G B)

/-- The code of a block on the queue `q` up to where it waits for its own queue. -/
structure SelfSync (q : Q) (block : B) (first : List (Instr σ ω Q S G B)) : Prop where
  serial : p.discipline q = .serial
  straight : ∀ x ∈ first, x.straight ∧ x.blocks = false
  body : ∃ b later, p.body block = first ++ .sync q b :: later

/-- A task has not come to wait yet, or it waits for a task that cannot start before it has
    finished. -/
def Held (s : State σ ω Q S G B) (i : ℕ) (t : WorkItem σ ω Q S G B)
    (first : List (Instr σ ω Q S G B)) : Prop :=
  (t.awaits = [] ∧ ∃ done left b later, first = done ++ left ∧
      p.body t.submission.block = done ++ t.rest ∧
      t.rest = left ++ .sync t.submission.queue b :: later) ∨
    t.phase = .running ∧ (∃ b, p.body t.submission.block = first ++
      .sync t.submission.queue b :: t.rest) ∧
    ∃ j v, t.awaits = [j] ∧ i < j ∧ s.tasks[j]? = some v ∧ v.phase = .queued ∧
      v.submission.queue = t.submission.queue

def AllHeld (s : State σ ω Q S G B) : Prop :=
  ∀ (i : ℕ) (t : WorkItem σ ω Q S G B) (first : List (Instr σ ω Q S G B)), s.tasks[i]? = some t →
    p.SelfSync t.submission.queue t.submission.block first → p.Held s i t first

variable {p} {s u : State σ ω Q S G B} {i : ℕ} {t : WorkItem σ ω Q S G B}
  {first : List (Instr σ ω Q S G B)}

omit [DecidableEq Q] [DecidableEq S] [DecidableEq G] in
/-- A task that waits for its own queue does not go on. -/
theorem not_waited {j : ℕ} {v : WorkItem σ ω Q S G B} (awaits : t.awaits = [j])
    (there : s.tasks[j]? = some v) (queued : v.phase = .queued) :
      t.awaits.all s.finished = false := by
  simp [awaits, State.finished, there, queued]

omit [DecidableEq Q] [DecidableEq S] [DecidableEq G] in
/-- What keeps the task that is waited for as it is. -/
theorem Held.congr (held : p.Held s i t first)
    (kept : t.phase = .running → ∀ j v, i < j → s.tasks[j]? = some v → v.phase = .queued →
      v.submission.queue = t.submission.queue → u.tasks[j]? = some v) : p.Held u i t first := by
  cases held with
  | inl before => exact .inl before
  | inr waits =>
      obtain ⟨running, code, j, v, awaits, lt, there, queued, queue⟩ := waits
      exact .inr ⟨running, code, j, v, awaits, lt, kept running j v lt there queued queue,
        queued, queue⟩

omit [DecidableEq Q] [DecidableEq S] [DecidableEq G] in
/-- A task that has yet to wait or waits has something left to do. -/
theorem Held.not_done (held : p.Held s i t first) (waited : t.awaits.all s.finished)
    (nil : t.rest = []) : False := by
  cases held with
  | inl before =>
      obtain ⟨-, -, left, b, later, -, -, rest⟩ := before
      rw [nil] at rest
      cases left <;> cases rest
  | inr waits =>
      obtain ⟨-, -, j, v, awaits, -, there, queued, -⟩ := waits
      rw [not_waited awaits there queued] at waited
      cases waited

omit [DecidableEq Q] in
/-- A task goes on up to where it waits, and not any further. -/
theorem Held.exec (held : p.Held s i t first)
    (self : p.SelfSync t.submission.queue t.submission.block first) (here : s.tasks[i]? = some t)
    (running : t.phase = .running) (waited : t.awaits.all s.finished)
    {x : Instr σ ω Q S G B} {rest : List (Instr σ ω Q S G B)} (code : t.rest = x :: rest) :
    p.Held (p.exec s i t x rest) i
      { t with rest := p.next s x rest, awaits := s.awaits x } first := by
  cases held with
  | inr waits =>
      obtain ⟨-, -, j, v, awaits, -, there, queued, -⟩ := waits
      rw [not_waited awaits there queued] at waited
      cases waited
  | inl before =>
      obtain ⟨-, done, left, b, later, part, body, at_left⟩ := before
      cases left with
      | cons y left =>
          rw [at_left, List.cons_append] at code
          obtain ⟨rfl, rfl⟩ := List.cons.inj code
          obtain ⟨straight, free⟩ := self.straight y (by simp [part])
          refine .inl ⟨?_, done ++ [y], left, b, later, by simp [part], ?_, ?_⟩
          · cases y with
            | sync q b => cases free
            | perform q n b => cases free
            | _ => rfl
          · simp [next_of_straight straight, body, at_left]
          · exact next_of_straight straight
      | nil =>
          rw [at_left, List.nil_append] at code
          obtain ⟨rfl, rfl⟩ := List.cons.inj code
          have within := (List.getElem?_eq_some_iff.mp here).1
          refine .inr ⟨running, ⟨b, ?_⟩, s.tasks.length, p.task ⟨t.submission.queue, false, b⟩,
            rfl, within, ?_, rfl, rfl⟩
          · rw [part, List.append_nil, body, at_left]
            rfl
          · simp [Program.exec, State.submits]

theorem AllHeld.step (all : p.AllHeld s) (stepped : p.step s i = some u) : p.AllHeld u := by
  intro k v first there self
  cases (stepped_of_step stepped).2 with
  | @start t here queued may =>
      rcases getElem?_put there with ⟨rfl, rfl⟩ | ⟨other, old⟩
      · cases all k t first here self with
        | inl before => exact .inl before
        | inr waits => simp [queued] at waits
      · refine (all k v first old self).congr ?_
        intro running j w lt at_j w_queued queue
        by_cases same : i = j
        · -- the task that is waited for may not start, since this one has not finished
          subst same
          obtain rfl : t = w := Option.some.inj (here.symm.trans at_j)
          have passed := List.all_eq_true.mp may v
            (List.mem_of_getElem? (by rw [List.getElem?_take_of_lt lt]; exact old))
          simp [running, apart, queue, self.serial, Discipline.apart] at passed
        · rw [List.getElem?_set_ne same]
          exact at_j
  | @finish t here running waited code =>
      rcases getElem?_put there with ⟨rfl, rfl⟩ | ⟨other, old⟩
      · exact ((all k t first here self).not_done waited code).elim
      · refine (all k v first old self).congr ?_
        intro _ j w lt at_j w_queued queue
        by_cases same : i = j
        · subst same
          obtain rfl : t = w := Option.some.inj (here.symm.trans at_j)
          simp [running] at w_queued
        · rw [List.getElem?_set_ne same]
          exact at_j
  | @exec t x rest here running waited code allowed =>
      rcases getElem?_moved there with ⟨rfl, rfl⟩ | ⟨other, old⟩ | ⟨-, new⟩
      · exact (all k t first here self).exec self here running waited code
      · refine (all k v first old self).congr ?_
        intro _ j w lt at_j w_queued queue
        have within := (List.getElem?_eq_some_iff.mp at_j).1
        rw [Program.exec, List.getElem?_append_left (by simpa using within)]
        by_cases same : i = j
        · subst same
          obtain rfl : t = w := Option.some.inj (here.symm.trans at_j)
          simp [running] at w_queued
        · rw [List.getElem?_set_ne same]
          exact at_j
      · obtain ⟨n, -, rfl⟩ := List.mem_map.mp new
        obtain ⟨b, later, body⟩ := self.body
        exact .inl ⟨rfl, [], first, b, later, rfl, rfl, body⟩

omit [DecidableEq Q] [DecidableEq S] [DecidableEq G] in
theorem AllHeld.start (store : σ) (count : S → ℕ) (queue : Q) (block : B) :
    p.AllHeld (p.start (ω := ω) store count queue block) := by
  intro k v first there self
  cases k with
  | succ k => cases there
  | zero =>
      obtain rfl := Option.some.inj there
      obtain ⟨b, later, body⟩ := self.body
      exact .inl ⟨rfl, [], first, b, later, rfl, rfl, body⟩

/-- The invariants of all runs that tell what a waiting task has printed. -/
structure SelfRun (p : Program σ ω Q S G B) (s : State σ ω Q S G B) : Prop where
  ordered : p.Ordered s
  written : p.Written s
  held : p.AllHeld s
  ended : ∀ t ∈ s.tasks, t.phase = .finished → t.rest = []

theorem selfRun_of_reachable {store : σ} {count : S → ℕ} {queue : Q} {block : B}
    (reached : p.machine.Reachable (p.start (ω := ω) store count queue block) s) : SelfRun p s := by
  refine reached.invariant (I := SelfRun p) ?_ ?_
  · intro s k u run stepped
    exact ⟨run.ordered.step stepped, run.written.step run.ordered stepped, run.held.step stepped,
      ended_step run.ended stepped⟩
  · refine ⟨.start .., Written.start _ _ _ _, AllHeld.start _ _ _ _, ?_⟩
    intro t there
    obtain rfl := List.mem_singleton.mp there
    exact nofun

omit [DecidableEq Q] [DecidableEq S] [DecidableEq G] in
theorem printed_of_waits {done : List (Instr σ ω Q S G B)}
    (split : p.body t.submission.block = done ++ t.rest)
    (waits : ∃ b, p.body t.submission.block = first ++ .sync t.submission.queue b :: t.rest) :
    done.filterMap Instr.printed = first.filterMap Instr.printed := by
  obtain ⟨b, body⟩ := waits
  have same : done = first ++ [.sync t.submission.queue b] := by
    apply List.append_cancel_right
    rw [← split, body, List.append_assoc]
    rfl
  rw [same, List.filterMap_append]
  exact List.append_nil _

omit [DecidableEq S] [DecidableEq G] in
/-- A block that waits for its own queue never finishes, prints nothing from where it waits
    on, and nothing that was submitted to the queue after it ever starts. -/
theorem SelfRun.never_past (run : SelfRun p s) (here : s.tasks[i]? = some t)
    (self : p.SelfSync t.submission.queue t.submission.block first)
    (straight : ∀ x ∈ p.body t.submission.block, x.straight) :
    t.phase ≠ .finished ∧
      (s.log.filter (·.1 = i)).map Prod.snd <+: first.filterMap Instr.printed ∧
      ∀ j v, i < j → s.tasks[j]? = some v → v.submission.queue = t.submission.queue →
        v.phase = .queued := by
  have held := run.held i t first here self
  have unfinished : t.phase ≠ .finished := by
    intro done
    have nil := run.ended t (List.mem_of_getElem? here) done
    cases held with
    | inl before =>
        obtain ⟨-, -, left, b, later, -, -, rest⟩ := before
        rw [nil] at rest
        cases left <;> cases rest
    | inr waits => simp [done] at waits
  refine ⟨unfinished, ?_, ?_⟩
  · obtain ⟨done, split, out, -, -⟩ := run.written i t here straight
    rw [out]
    cases held with
    | inl before =>
        obtain ⟨-, done', left, b, later, part, body, -⟩ := before
        obtain rfl := List.append_cancel_right (split.symm.trans body)
        rw [part, List.filterMap_append]
        exact List.prefix_append _ _
    | inr waits =>
        have whole : first.filterMap Instr.printed <+: first.filterMap Instr.printed :=
            List.prefix_refl _
        exact (printed_of_waits split waits.2.1).symm ▸ whole
  · intro j v lt at_j queue
    by_contra started
    have apart : p.apart t.submission v.submission := by
      simp [Program.apart, queue, self.serial, Discipline.apart]
    exact unfinished (run.ordered.early i j t v lt here at_j apart started)

/-- When nothing else can go on, it has printed all it prints before it waits. -/
theorem SelfRun.printed_of_stuck (run : SelfRun p s) (trapped : s.trapped = false)
    (stuck : p.Stuck s) (here : s.tasks[i]? = some t)
    (self : p.SelfSync t.submission.queue t.submission.block first)
    (straight : ∀ x ∈ p.body t.submission.block, x.straight) (started : p.mayStart s i t) :
    (s.log.filter (·.1 = i)).map Prod.snd = first.filterMap Instr.printed := by
  obtain ⟨done, split, out, -, -⟩ := run.written i t here straight
  rw [out]
  cases run.held i t first here self with
  | inr waits =>
      exact printed_of_waits split waits.2.1
  | inl before =>
      obtain ⟨awaits, done', left, b, later, part, body, rest⟩ := before
      rcases held_of_stuck trapped stuck here (by simp [awaits]) with finished | ⟨-, held⟩ |
        ⟨-, x, now, code, held⟩
      · exact absurd finished (run.never_past here self straight).1
      · rw [started] at held
        cases held
      · rw [rest] at code
        cases left with
        | nil =>
            obtain ⟨rfl, -⟩ := List.cons.inj code
            cases held
        | cons y left =>
            obtain ⟨rfl, -⟩ := List.cons.inj code
            have free := (self.straight y (by simp [part])).2
            cases y with
            | wait k => cases free
            | _ => cases held

section Descent

/-- What an instruction may submit, now or when a group has been left. -/
inductive Names : Instr σ ω Q S G B → Submission Q B → Prop where
  | async (q : Q) (barrier : Bool) (b : B) : Names (.async q barrier b) ⟨q, barrier, b⟩
  | sync (q : Q) (b : B) : Names (.sync q b) ⟨q, false, b⟩
  | perform (q : Q) (iterations : ℕ) (b : ℕ → B) (k : ℕ) :
      Names (.perform q iterations b) ⟨q, false, b k⟩
  | notify (g : G) (q : Q) (b : B) : Names (.notify g q b) ⟨q, false, b⟩

/-- Some task before `j` has the instruction that submits `n` in its block. -/
def Parent (p : Program σ ω Q S G B) (s : State σ ω Q S G B) (j : ℕ) (n : Submission Q B) : Prop :=
  ∃ i t x, i < j ∧ s.tasks[i]? = some t ∧ x ∈ p.body t.submission.block ∧ Names x n

/-- Every task but the first has been submitted by one before it. -/
structure Descends (p : Program σ ω Q S G B) (root : Submission Q B)
    (s : State σ ω Q S G B) : Prop where
  rest : ∀ t ∈ s.tasks, ∀ x ∈ t.rest, x ∈ p.body t.submission.block
  first : ∃ t, s.tasks[0]? = some t ∧ t.submission = root
  parent : ∀ j v, 0 < j → s.tasks[j]? = some v → Parent p s j v.submission
  notifies : ∀ n ∈ s.notifies, Parent p s s.tasks.length n.2

theorem Parent.step {j : ℕ} {n : Submission Q B} (parent : Parent p s j n)
    (stepped : p.step s i = some u) :
    Parent p u j n := by
  obtain ⟨k, t, x, lt, there, member, named⟩ := parent
  obtain ⟨v, v', new, here, tasks, same, -⟩ := (stepped_of_step stepped).2.moved
  have within := (List.getElem?_eq_some_iff.mp there).1
  by_cases own : i = k
  · subst own
    obtain rfl : v = t := Option.some.inj (here.symm.trans there)
    refine ⟨i, v', x, lt, ?_, same ▸ member, named⟩
    rw [tasks, List.getElem?_append_left (by simpa using within), List.getElem?_set_self within]
  · refine ⟨k, t, x, lt, ?_, member, named⟩
    rw [tasks, List.getElem?_append_left (by simpa using within), List.getElem?_set_ne own]
    exact there

omit [DecidableEq Q] [DecidableEq S] in
theorem names_of_submits {x : Instr σ ω Q S G B} {n : Submission Q B}
    (submitted : n ∈ s.submits x) :
    Names x n ∨ ∃ g, (g, n) ∈ s.notifies := by
  cases x with
  | async q barrier b =>
      obtain rfl := List.mem_singleton.mp submitted
      exact .inl (.async q barrier b)
  | sync q b =>
      obtain rfl := List.mem_singleton.mp submitted
      exact .inl (.sync q b)
  | perform q iterations b =>
      obtain ⟨k, -, rfl⟩ := List.mem_map.mp submitted
      exact .inl (.perform q iterations b k)
  | leave g =>
      simp only [State.submits] at submitted
      split_ifs at submitted
      · obtain ⟨⟨g', n'⟩, there, rfl⟩ := List.mem_map.mp submitted
        exact .inr ⟨g', (List.mem_filter.mp there).1⟩
      · cases submitted
  | notify g q b =>
      simp only [State.submits] at submitted
      split_ifs at submitted
      · obtain rfl := List.mem_singleton.mp submitted
        exact .inl (.notify g q b)
      · cases submitted
  | _ => cases submitted

omit [DecidableEq Q] in
theorem notifies_of_effect {x : Instr σ ω Q S G B} {n : G × Submission Q B}
    (there : n ∈ (s.effect i x).notifies) : n ∈ s.notifies ∨ Names x n.2 := by
  cases x with
  | leave g =>
      simp only [State.effect] at there
      split_ifs at there
      · exact .inl there
      · exact .inl (List.mem_filter.mp there).1
      · exact .inl there
  | notify g q b =>
      simp only [State.effect] at there
      split_ifs at there
      · exact .inl there
      · cases List.mem_append.mp there with
        | inl old => exact .inl old
        | inr new =>
            obtain rfl := List.mem_singleton.mp new
            exact .inr (.notify g q b)
  | _ => exact .inl there

omit [DecidableEq Q] [DecidableEq S] [DecidableEq G] in
theorem Parent.mono {j k : ℕ} {n : Submission Q B} (parent : Parent p s j n) (le : j ≤ k) :
    Parent p s k n := by
  obtain ⟨i, t, x, lt, there, member, named⟩ := parent
  exact ⟨i, t, x, Nat.lt_of_lt_of_le lt le, there, member, named⟩

theorem Descends.step {root : Submission Q B} (bodies : ∀ b, ∀ x ∈ p.body b, x.loops = false)
    (descends : Descends p root s) (stepped : p.step s i = some u) : Descends p root u := by
  have kept := fun {j : ℕ} {n : Submission Q B} (parent : Parent p s j n) => parent.step stepped
  have at_root : ∀ {t : WorkItem σ ω Q S G B}, s.tasks[i]? = some t →
      ∀ t', t'.submission = t.submission →
      ∀ new : List (WorkItem σ ω Q S G B), ∃ v, (s.tasks.set i t' ++ new)[0]? = some v ∧
        v.submission = root := by
    intro t here t' same new
    obtain ⟨r, there, is_root⟩ := descends.first
    have within := (List.getElem?_eq_some_iff.mp there).1
    rw [List.getElem?_append_left (by simpa using within)]
    by_cases own : i = 0
    · subst own
      obtain rfl : t = r := Option.some.inj (here.symm.trans there)
      exact ⟨t', List.getElem?_set_self within, same.trans is_root⟩
    · exact ⟨r, by rw [List.getElem?_set_ne own]; exact there, is_root⟩
  cases (stepped_of_step stepped).2 with
  | @start t here queued may =>
      refine ⟨?_, ?_, ?_, ?_⟩
      · intro v there
        cases List.mem_or_eq_of_mem_set there with
        | inl old => exact descends.rest v old
        | inr own => exact own ▸ descends.rest t (List.mem_of_getElem? here)
      · simpa using at_root here { t with phase := .running } rfl []
      · intro j v pos there
        rcases getElem?_put there with ⟨rfl, rfl⟩ | ⟨-, old⟩
        · exact kept (descends.parent j t pos here)
        · exact kept (descends.parent j v pos old)
      · intro n there
        rw [List.length_set]
        exact kept (descends.notifies n there)
  | @finish t here running waited code =>
      refine ⟨?_, ?_, ?_, ?_⟩
      · intro v there
        cases List.mem_or_eq_of_mem_set there with
        | inl old => exact descends.rest v old
        | inr own => exact own ▸ descends.rest t (List.mem_of_getElem? here)
      · simpa using at_root here { t with phase := .finished } rfl []
      · intro j v pos there
        rcases getElem?_put there with ⟨rfl, rfl⟩ | ⟨-, old⟩
        · exact kept (descends.parent j t pos here)
        · exact kept (descends.parent j v pos old)
      · intro n there
        rw [List.length_set]
        exact kept (descends.notifies n there)
  | @exec t x rest here running waited code allowed =>
      have member : x ∈ p.body t.submission.block :=
        descends.rest t (List.mem_of_getElem? here) x (by simp [code])
      have within := (List.getElem?_eq_some_iff.mp here).1
      -- what this task submits descends from it or was kept back by one before
      have own : ∀ {j : ℕ} {n : Submission Q B}, s.tasks.length ≤ j → Names x n → Parent p s j n :=
        fun le named => ⟨i, t, x, Nat.lt_of_lt_of_le within le, here, member, named⟩
      refine ⟨?_, at_root here { t with rest := p.next s x rest, awaits := s.awaits x } rfl _, ?_,
        ?_⟩
      · intro v there y y_there
        obtain ⟨k, at_k⟩ := List.mem_iff_getElem?.mp there
        rcases getElem?_moved at_k with ⟨-, rfl⟩ | ⟨-, old⟩ | ⟨-, new⟩
        · rw [next_of_loopless (bodies _ x member)] at y_there
          exact descends.rest t (List.mem_of_getElem? here) y
            (by rw [code]; exact List.mem_cons_of_mem x y_there)
        · exact descends.rest v (List.mem_of_getElem? old) y y_there
        · obtain ⟨n, -, rfl⟩ := List.mem_map.mp new
          exact y_there
      · intro j v pos there
        rcases getElem?_moved there with ⟨rfl, rfl⟩ | ⟨-, old⟩ | ⟨beyond, new⟩
        · exact kept (descends.parent j t pos here)
        · exact kept (descends.parent j v pos old)
        · obtain ⟨n, submitted, rfl⟩ := List.mem_map.mp new
          cases names_of_submits submitted with
          | inl named => exact kept (own beyond named)
          | inr noted =>
              obtain ⟨g, there⟩ := noted
              exact kept ((descends.notifies _ there).mono beyond)
      · intro n there
        have longer : s.tasks.length ≤ (p.exec s i t x rest).tasks.length := by
          simp [exec]
        cases notifies_of_effect there with
        | inl old => exact kept ((descends.notifies n old).mono longer)
        | inr named => exact kept (own longer named)

omit [DecidableEq Q] [DecidableEq S] [DecidableEq G] in
theorem Descends.start (store : σ) (count : S → ℕ) (queue : Q) (block : B) :
    Descends p ⟨queue, false, block⟩ (p.start (ω := ω) store count queue block) where
  rest t there x x_there := by
    obtain rfl := List.mem_singleton.mp there
    exact x_there
  first := ⟨_, rfl, rfl⟩
  parent j v pos there := by
    cases j with
    | zero => exact absurd pos (Nat.lt_irrefl 0)
    | succ j => cases there
  notifies n there := by cases there

theorem descends_of_reachable (bodies : ∀ b, ∀ x ∈ p.body b, x.loops = false) {store : σ}
    {count : S → ℕ} {queue : Q} {block : B}
    (reached : p.machine.Reachable (p.start (ω := ω) store count queue block) s) :
    Descends p ⟨queue, false, block⟩ s :=
  reached.invariant (fun _ _ _ descends stepped => descends.step bodies stepped)
    (.start store count queue block)

/-- What a task has not submitted yet is in the code it has left, and a block that never
    waits for other tasks does not. -/
structure Tracked (p : Program σ ω Q S G B) (root : Submission Q B) (s : State σ ω Q S G B) : Prop
    extends Descends p root s where
  spawned : ∀ t ∈ s.tasks, ∀ x ∈ p.body t.submission.block, ∀ n, x.asyncs = some n →
    x ∈ t.rest ∨ ∃ v ∈ s.tasks, v.submission = n
  unwaiting : ∀ t ∈ s.tasks, (∀ x ∈ p.body t.submission.block, x.joins = false) → t.awaits = []

theorem submitted_step {n : Submission Q B} (stepped : p.step s i = some u)
    (submitted : ∃ v ∈ s.tasks, v.submission = n) : ∃ v ∈ u.tasks, v.submission = n := by
  obtain ⟨v, there, rfl⟩ := submitted
  obtain ⟨k, at_k⟩ := List.mem_iff_getElem?.mp there
  obtain ⟨t, t', new, here, tasks, same, -⟩ := (stepped_of_step stepped).2.moved
  have within := (List.getElem?_eq_some_iff.mp at_k).1
  by_cases own : i = k
  · subst own
    obtain rfl : t = v := Option.some.inj (here.symm.trans at_k)
    refine ⟨t', List.mem_of_getElem? (i := i) ?_, same⟩
    rw [tasks, List.getElem?_append_left (by simpa using within), List.getElem?_set_self within]
  · refine ⟨v, List.mem_of_getElem? (i := k) ?_, rfl⟩
    rw [tasks, List.getElem?_append_left (by simpa using within), List.getElem?_set_ne own]
    exact at_k

theorem Tracked.step {root : Submission Q B} (bodies : ∀ b, ∀ x ∈ p.body b, x.loops = false)
    (tracked : Tracked p root s) (stepped : p.step s i = some u) : Tracked p root u := by
  have kept : ∀ t ∈ s.tasks, ∀ x ∈ p.body t.submission.block, ∀ n, x.asyncs = some n →
      x ∈ t.rest ∨ ∃ v ∈ u.tasks, v.submission = n := fun t there x member n submits =>
    (tracked.spawned t there x member n submits).imp_right (submitted_step stepped)
  have descends := tracked.toDescends.step bodies stepped
  cases (stepped_of_step stepped).2 with
  | @start t here queued may =>
      refine ⟨descends, ?_, ?_⟩
      · intro v there
        cases List.mem_or_eq_of_mem_set there with
        | inl old => exact kept v old
        | inr own =>
            subst own
            exact kept t (List.mem_of_getElem? here)
      · intro v there
        cases List.mem_or_eq_of_mem_set there with
        | inl old => exact tracked.unwaiting v old
        | inr own =>
            subst own
            exact tracked.unwaiting t (List.mem_of_getElem? here)
  | @finish t here running waited code =>
      refine ⟨descends, ?_, ?_⟩
      · intro v there
        cases List.mem_or_eq_of_mem_set there with
        | inl old => exact kept v old
        | inr own =>
            subst own
            exact kept t (List.mem_of_getElem? here)
      · intro v there
        cases List.mem_or_eq_of_mem_set there with
        | inl old => exact tracked.unwaiting v old
        | inr own =>
            subst own
            exact tracked.unwaiting t (List.mem_of_getElem? here)
  | @exec t x rest here running waited code allowed =>
      have member : x ∈ p.body t.submission.block :=
        tracked.rest t (List.mem_of_getElem? here) x (by simp [code])
      refine ⟨descends, ?_, ?_⟩
      · intro v there y y_member n submits
        obtain ⟨k, at_k⟩ := List.mem_iff_getElem?.mp there
        rcases getElem?_moved at_k with ⟨-, rfl⟩ | ⟨-, old⟩ | ⟨-, new⟩
        · rw [next_of_loopless (bodies _ x member)]
          rcases kept t (List.mem_of_getElem? here) y y_member n submits with left | submitted
          · rw [code, List.mem_cons] at left
            rcases left with rfl | left
            · -- this is the instruction that submits it
              cases y with
              | async q barrier b =>
                  refine .inr ⟨p.task ⟨q, barrier, b⟩, ?_, Option.some.inj submits⟩
                  exact List.mem_append_right _ (List.mem_singleton_self _)
              | _ => cases submits
            · exact .inl left
          · exact .inr submitted
        · exact kept v (List.mem_of_getElem? old) y y_member n submits
        · obtain ⟨m, -, rfl⟩ := List.mem_map.mp new
          exact .inl y_member
      · intro v there free
        obtain ⟨k, at_k⟩ := List.mem_iff_getElem?.mp there
        rcases getElem?_moved at_k with ⟨-, rfl⟩ | ⟨-, old⟩ | ⟨-, new⟩
        · have own := free x member
          cases x with
          | sync q b => cases own
          | perform q n b => cases own
          | _ => rfl
        · exact tracked.unwaiting v (List.mem_of_getElem? old) free
        · obtain ⟨n, -, rfl⟩ := List.mem_map.mp new
          rfl

theorem tracked_of_reachable (bodies : ∀ b, ∀ x ∈ p.body b, x.loops = false) {store : σ}
    {count : S → ℕ} {queue : Q} {block : B}
    (reached : p.machine.Reachable (p.start (ω := ω) store count queue block) s) :
    Tracked p ⟨queue, false, block⟩ s := by
  refine reached.invariant (fun _ _ _ tracked stepped => tracked.step bodies stepped)
    ⟨.start store count queue block, ?_, ?_⟩
  · intro t there x member n _
    obtain rfl := List.mem_singleton.mp there
    exact .inl member
  · intro t there _
    obtain rfl := List.mem_singleton.mp there
    rfl

/-- When nothing else can go on, a task that nothing holds up has finished. -/
theorem Tracked.finished_of_stuck {root : Submission Q B} (tracked : Tracked p root s)
    (trapped : s.trapped = false) (stuck : p.Stuck s) (here : s.tasks[i]? = some t)
    (free : ∀ x ∈ p.body t.submission.block, x.blocks = false) (started : p.mayStart s i t) :
    t.phase = .finished := by
  have awaits := tracked.unwaiting t (List.mem_of_getElem? here) fun x member =>
    x.joins_of_blocks (free x member)
  rcases held_of_stuck trapped stuck here (by simp [awaits]) with
    finished | ⟨-, held⟩ | ⟨-, x, rest, code, held⟩
  · exact finished
  · rw [started] at held
    cases held
  · have own := free x (tracked.rest t (List.mem_of_getElem? here) x (by simp [code]))
    cases x with
    | wait k => cases own
    | _ => cases held

end Descent

/-- Where no block leaves a group, none is left too often. -/
theorem untrapped_of_reachable (bodies : ∀ b, ∀ x ∈ p.body b, ∀ g, x ≠ .leave g) {store : σ}
    {count : S → ℕ} {queue : Q} {block : B}
    (reached : p.machine.Reachable (p.start (ω := ω) store count queue block) s) :
    s.trapped = false := by
  have both : (s.Only fun x => ∀ g, x ≠ .leave g) ∧ s.trapped = false := by
    refine reached.invariant (I := fun s => (s.Only fun x => ∀ g, x ≠ .leave g) ∧
      s.trapped = false) ?_ ?_
    · intro s i u inv stepped
      refine ⟨only_step bodies inv.1 stepped, ?_⟩
      cases (stepped_of_step stepped).2 with
      | start => exact inv.2
      | finish => exact inv.2
      | @exec t x rest here running waited code allowed =>
          have other := inv.1 t (List.mem_of_getElem? here) x (by simp [code])
          cases x with
          | leave g => exact absurd rfl (other g)
          | notify g q b =>
              simp only [Program.exec, State.effect]
              split_ifs <;> exact inv.2
          | _ => exact inv.2
    · refine ⟨?_, rfl⟩
      intro t there x x_there
      obtain rfl := List.mem_singleton.mp there
      exact bodies block x x_there
  exact both.2

end LearningProjects.Dispatch.Program
