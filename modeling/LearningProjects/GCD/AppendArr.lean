import LearningProjects.GCD.Group

/-! # Appending from blocks of a serial queue

Each block of `appendArr` appends its number to one array. It reads the array and writes it
back in two steps, so that the order of the appends rests on the queue alone.
-/

namespace LearningProjects.GCD.AppendArr

open Dispatch

/-- The array, and what each task has read of it. -/
structure Memory where
  arr : List ℕ
  held : ℕ → List ℕ

def load (task : ℕ) (memory : Memory) : Memory :=
  { memory with held := Function.update memory.held task memory.arr }

def store (i task : ℕ) (memory : Memory) : Memory :=
  { memory with arr := memory.held task ++ [i] }

def count (memory : Memory) : String := "arr count: " ++ toString memory.arr.length

/-- `appendArr`, for any number of rounds; in the source there are 1000. -/
def appendArr (rounds : ℕ) : FanOut Memory where
  blocks := rounds
  queue := .createSerialQueue
  opening := []
  work i := [.act load, .act (store i)]
  report := [.printWith count]
  opening_silent x there := by cases there
  work_silent i x there := by
    simp only [List.mem_cons, List.not_mem_nil, or_false] at there
    rcases there with rfl | rfl <;> rfl
  report_silent x there := by
    obtain rfl := List.mem_singleton.mp there
    rfl

def start : Memory := ⟨[], fun _ => []⟩

variable {rounds : ℕ} {s u : State Memory String Queue Unit Unit Block} {i : ℕ}

/-- How far the block `k` is when the array has `m` items. -/
inductive Progress (memory : Memory) (m k : ℕ) :
    List (Instr Memory String Queue Unit Unit Block) → Prop where
  | appended (before : k < m) : Progress memory m k [.leave ()]
  | ended (before : k < m) : Progress memory m k []
  | holds (next : k = m) (held : memory.held (k + 1) = memory.arr) :
      Progress memory m k [.act (store k), .leave ()]
  | waits (after : m ≤ k) : Progress memory m k [.act load, .act (store k), .leave ()]

/-- The array has the numbers of the blocks that have appended theirs, in order. -/
structure Inv (rounds : ℕ) (s : State Memory String Queue Unit Unit Block) : Prop where
  arr : s.store.arr = List.range s.store.arr.length
  within : s.store.arr.length < s.tasks.length ∧ s.store.arr.length ≤ rounds
  progress : ∀ k v, k < rounds → s.tasks[k + 1]? = some v →
    Progress s.store s.store.arr.length k v.rest
  report : ∀ v, s.tasks[rounds + 1]? = some v → v.rest = [.printWith count] ∧ s.log = [] ∨
    v.rest = [] ∧ s.log = [(rounds + 1, "arr count: " ++ toString rounds)]
  silent : s.tasks[rounds + 1]? = none → s.log = []

theorem body_block {k : ℕ} (lt : k < rounds) :
    (appendArr rounds).toFunction.body (.block k) = [.act load, .act (store k), .leave ()] :=
  FanOut.body_block (f := appendArr rounds) lt

theorem body_end :
    (appendArr rounds).toFunction.body (.block rounds) = [.printWith count] := by
  simp [FanOut.toFunction, appendArr]

theorem Inv.phase (inv : Inv rounds s) {v : WorkItem Memory String Queue Unit Unit Block}
    (here : s.tasks[i]? = some v) (phase : Phase) :
    Inv rounds { s with tasks := s.tasks.set i { v with phase := phase } } := by
  have old : ∀ {k : ℕ} {w : WorkItem Memory String Queue Unit Unit Block},
      (s.tasks.set i { v with phase := phase })[k]? = some w →
      ∃ w' : WorkItem Memory String Queue Unit Unit Block, s.tasks[k]? = some w' ∧
        w'.rest = w.rest := by
    intro k w there
    rcases Program.getElem?_put there with ⟨rfl, rfl⟩ | ⟨-, other⟩
    · exact ⟨v, here, rfl⟩
    · exact ⟨w, other, rfl⟩
  refine ⟨inv.arr, by simpa using inv.within, ?_, ?_, ?_⟩
  · intro k w lt there
    obtain ⟨w', there', same⟩ := old there
    exact same ▸ inv.progress k w' lt there'
  · intro w there
    obtain ⟨w', there', same⟩ := old there
    exact same ▸ inv.report w' there'
  · intro missing
    refine inv.silent ?_
    rw [List.getElem?_eq_none_iff] at missing ⊢
    simpa using missing

variable {v : WorkItem Memory String Queue Unit Unit Block}
  {x : Instr Memory String Queue Unit Unit Block}
  {rest : List (Instr Memory String Queue Unit Unit Block)}

/-- A task that an instruction has submitted is at its beginning. -/
theorem rest_of_new (run : (appendArr rounds).Run u) {n : Submission Queue Block} {k : ℕ}
    {w : WorkItem Memory String Queue Unit Unit Block} (there : u.tasks[k + 1]? = some w)
    (new : w = (appendArr rounds).toFunction.task n) :
    w.rest = (appendArr rounds).toFunction.body (.block k) := by
  have named := (run.inv.block_of_index there).1
  subst new
  change n = _ at named
  rw [Program.task, named]

/-- An instruction that touches neither the array nor the log. -/
theorem Inv.loud (inv : Inv rounds s) (run : (appendArr rounds).Run u)
    (own : ∀ k < rounds, i = k + 1 → Progress s.store s.store.arr.length k rest)
    (not_end : i ≠ rounds + 1) (loud : x.silent = false) (straight : x.straight)
    (u_eq : u = (appendArr rounds).toFunction.exec s i v x rest) : Inv rounds u := by
  obtain ⟨log, memory⟩ := Program.exec_of_loud (p := (appendArr rounds).toFunction) (s := s)
    (i := i) (t := v)
    loud rest
  rw [← u_eq] at log memory
  have tasks : u.tasks = s.tasks.set i { v with rest := rest, awaits := s.awaits x } ++
      (s.submits x).map (appendArr rounds).toFunction.task := by
    rw [u_eq]
    simp only [Program.exec, Program.next_of_straight straight]
  refine ⟨by rw [memory]; exact inv.arr, ?_, ?_, ?_, ?_⟩
  · rw [memory, tasks, List.length_append, List.length_set]
    have := inv.within
    omega
  · intro k w lt there
    have moved := there
    rw [tasks] at moved
    rw [memory]
    rcases Program.getElem?_moved moved with ⟨eq, rfl⟩ | ⟨-, old⟩ | ⟨beyond, new⟩
    · exact own k lt eq.symm
    · exact inv.progress k w lt old
    · obtain ⟨n, -, new⟩ := List.mem_map.mp new
      rw [rest_of_new run there new.symm, body_block lt]
      have := inv.within
      exact .waits (by omega)
  · intro w there
    have moved := there
    rw [tasks] at moved
    rw [log]
    rcases Program.getElem?_moved moved with ⟨eq, rfl⟩ | ⟨-, old⟩ | ⟨beyond, new⟩
    · exact absurd eq.symm not_end
    · exact inv.report w old
    · obtain ⟨n, -, new⟩ := List.mem_map.mp new
      rw [rest_of_new run there new.symm, body_end]
      exact .inl ⟨rfl, inv.silent (List.getElem?_eq_none_iff.mpr beyond)⟩
  · intro missing
    rw [log]
    refine inv.silent ?_
    rw [List.getElem?_eq_none_iff] at missing ⊢
    rw [tasks, List.length_append, List.length_set] at missing
    omega

/-- On the serial queue a block starts when all blocks before it have appended. -/
theorem next_of_waits (run : (appendArr rounds).Run s) (inv : Inv rounds s) {k : ℕ}
    (lt : k < rounds) (here : s.tasks[k + 1]? = some v) (running : v.phase = .running)
    (after : s.store.arr.length ≤ k) : k = s.store.arr.length := by
  by_contra other
  have within := (List.getElem?_eq_some_iff.mp here).1
  obtain ⟨w, there⟩ : ∃ w, s.tasks[s.store.arr.length + 1]? = some w :=
    ⟨_, List.getElem?_eq_getElem (by omega)⟩
  have named_v := (run.inv.block_of_index here).1
  have named_w := (run.inv.block_of_index there).1
  have apart : (appendArr rounds).toFunction.apart w.submission v.submission := by
    rw [named_v, named_w, if_neg (show k ≠ (appendArr rounds).blocks from Nat.ne_of_lt lt),
      if_neg (show s.store.arr.length ≠ (appendArr rounds).blocks from
        Nat.ne_of_lt (Nat.lt_of_le_of_lt after lt))]
    rfl
  have finished := run.ordered.early _ _ w v (by omega) there here apart (by simp [running])
  have empty := run.ended w (List.mem_of_getElem? there) finished
  have progress := inv.progress _ w (by omega) there
  rw [empty] at progress
  cases progress with
  | ended before => exact Nat.lt_irrefl _ before

/-- An instruction that submits nothing. -/
theorem Inv.silent_tasks (inv : Inv rounds s)
    (tasks : u.tasks = s.tasks.set i { v with rest := rest, awaits := [] }) (i_lt : i ≤ rounds)
    (log : u.log = s.log)
    (arr : u.store.arr = List.range u.store.arr.length)
    (within : u.store.arr.length < s.tasks.length ∧ u.store.arr.length ≤ rounds)
    (own : ∀ k < rounds, i = k + 1 → Progress u.store u.store.arr.length k rest)
    (others : ∀ k code, k + 1 ≠ i → Progress s.store s.store.arr.length k code →
      Progress u.store u.store.arr.length k code) : Inv rounds u := by
  refine ⟨arr, by rw [tasks, List.length_set]; exact within, ?_, ?_, ?_⟩
  · intro k w lt there
    rw [tasks] at there
    rcases Program.getElem?_put there with ⟨eq, rfl⟩ | ⟨other, old⟩
    · exact own k lt eq.symm
    · exact others k w.rest other (inv.progress k w lt old)
  · intro w there
    rw [tasks] at there
    rw [log]
    rcases Program.getElem?_put there with ⟨eq, rfl⟩ | ⟨-, old⟩
    · omega
    · exact inv.report w old
  · intro missing
    rw [log]
    refine inv.silent ?_
    rw [List.getElem?_eq_none_iff] at missing ⊢
    rwa [tasks, List.length_set] at missing

theorem Inv.block (inv : Inv rounds s) (run : (appendArr rounds).Run s)
    (run_u : (appendArr rounds).Run ((appendArr rounds).toFunction.exec s i v x rest)) {k : ℕ}
    (lt : k < rounds) (i_eq : i = k + 1) (here : s.tasks[i]? = some v)
    (running : v.phase = .running) (code : v.rest = x :: rest) :
    Inv rounds ((appendArr rounds).toFunction.exec s i v x rest) := by
  subst i_eq
  have progress := inv.progress k v lt here
  have within := (List.getElem?_eq_some_iff.mp here).1
  generalize now_eq : v.rest = now at progress code
  cases progress with
  | ended => cases code
  | appended before =>
      obtain ⟨rfl, rfl⟩ := List.cons.inj code
      refine inv.loud run_u ?_ (by omega) rfl rfl rfl
      intro j _ same
      obtain rfl : k = j := by omega
      exact .ended before
  | waits after =>
      obtain ⟨rfl, rfl⟩ := List.cons.inj code
      have next := next_of_waits run inv lt here running after
      refine inv.silent_tasks (List.append_nil _) (by omega) rfl inv.arr inv.within ?_ ?_
      · intro j _ same
        obtain rfl : k = j := by omega
        exact .holds next (Function.update_self ..)
      · intro j now other progress
        cases progress with
        | appended before => exact .appended before
        | ended before => exact .ended before
        | waits after => exact .waits after
        | holds here held =>
            refine .holds here ?_
            change Function.update s.store.held (k + 1) s.store.arr (j + 1) = s.store.arr
            rw [Function.update_of_ne other]
            exact held
  | holds next held =>
      obtain ⟨rfl, rfl⟩ := List.cons.inj code
      have appended : ((appendArr rounds).toFunction.exec s (k + 1) v (.act (store k))
          [.leave ()]).store.arr =
          List.range (k + 1) := by
        change s.store.held (k + 1) ++ [k] = _
        rw [held, List.range_succ, inv.arr, ← next]
      have length := congrArg List.length appended
      rw [List.length_range] at length
      refine inv.silent_tasks (List.append_nil _) (by omega) rfl (by rw [length]; exact appended)
        (by omega) ?_ ?_
      · intro j _ same
        obtain rfl : k = j := by omega
        rw [length]
        exact .appended (Nat.lt_succ_self k)
      · intro j now other progress
        rw [length]
        cases progress with
        | appended before => exact .appended (by omega)
        | ended before => exact .ended (by omega)
        | holds here held => omega
        | waits after => exact .waits (by omega)

theorem Inv.end_block (inv : Inv rounds s) (run : (appendArr rounds).Run s)
    (here : s.tasks[rounds + 1]? = some v) (code : v.rest = x :: rest) :
    Inv rounds ((appendArr rounds).toFunction.exec s (rounds + 1) v x rest) := by
  obtain ⟨-, total, empty⟩ := run.inv.all_gone here
  have all : s.store.arr.length = rounds := by
    have := inv.within
    by_contra short
    obtain ⟨w, there⟩ : ∃ w, s.tasks[s.store.arr.length + 1]? = some w :=
      ⟨_, List.getElem?_eq_getElem (by change s.tasks.length = rounds + 2 at total; omega)⟩
    have progress := inv.progress _ w (by omega) there
    rw [empty _ w (by change _ ≤ rounds; omega) there] at progress
    cases progress with
    | ended before => exact Nat.lt_irrefl _ before
  cases inv.report v here with
  | inr done =>
      rw [done.1] at code
      cases code
  | inl still =>
      rw [still.1] at code
      obtain ⟨rfl, rfl⟩ := List.cons.inj code
      have tasks : ((appendArr rounds).toFunction.exec s (rounds + 1) v (.printWith count)
          []).tasks =
          s.tasks.set (rounds + 1) { v with rest := [], awaits := [] } := List.append_nil _
      have log : ((appendArr rounds).toFunction.exec s (rounds + 1) v (.printWith count) []).log =
          [(rounds + 1, "arr count: " ++ toString rounds)] := by
        change s.log ++ [(rounds + 1, count s.store)] = _
        rw [still.2, List.nil_append, count, all]
      refine ⟨inv.arr, ?_, ?_, ?_, ?_⟩
      · rw [tasks, List.length_set]
        exact inv.within
      · intro k w lt there
        rw [tasks] at there
        rcases Program.getElem?_put there with ⟨eq, -⟩ | ⟨-, old⟩
        · omega
        · exact inv.progress k w lt old
      · intro w there
        rw [tasks] at there
        rcases Program.getElem?_put there with ⟨-, rfl⟩ | ⟨other, -⟩
        · exact .inr ⟨rfl, log⟩
        · exact absurd rfl other
      · intro missing
        rw [tasks, List.getElem?_eq_none_iff, List.length_set] at missing
        have := (List.getElem?_eq_some_iff.mp here).1
        omega

theorem Inv.step (inv : Inv rounds s) (run : (appendArr rounds).Run s)
    (run_u : (appendArr rounds).Run u) (stepped : (appendArr rounds).toFunction.step s i = some u) :
    Inv rounds u := by
  cases (Program.stepped_of_step stepped).2 with
  | start here queued may => exact inv.phase here .running
  | finish here running waited code => exact inv.phase here .finished
  | @exec v x rest here running waited code allowed =>
      cases i with
      | zero =>
          obtain ⟨loud, straight⟩ := run.inv.loud rfl here code
          exact inv.loud run_u (by omega) (by omega) loud straight rfl
      | succ k =>
          have le := (run.inv.block_of_index here).2
          by_cases last : k = rounds
          · subst last
            exact inv.end_block run here code
          · exact inv.block run run_u (by change k ≤ rounds at le; omega) rfl here running code

theorem Inv.start : Inv rounds ((appendArr rounds).toFunction.begin start) where
  arr := rfl
  within := ⟨Nat.zero_lt_one, Nat.zero_le _⟩
  progress k v lt there := by cases there
  report v there := by cases there
  silent _ := rfl

theorem inv_of_reachable (reached : (appendArr rounds).toFunction.machine.Reachable
    ((appendArr rounds).toFunction.begin start) s) : Inv rounds s := by
  have both : (appendArr rounds).Run s ∧ Inv rounds s :=
    reached.invariant (I := fun s => (appendArr rounds).Run s ∧ Inv rounds s)
      (fun _ _ _ now stepped => ⟨now.1.step stepped, now.2.step now.1 (now.1.step stepped) stepped⟩)
      ⟨.start start, .start⟩
  exact both.2

/-- In every run of `appendArr` no append gets lost or comes twice: the array always has the
    numbers of the first blocks in order, and when nothing is left to do, all of them are
    there and their count has been printed once. -/
theorem appendArr_prints {is : List ℕ}
    (run : (appendArr rounds).toFunction.machine.run
      ((appendArr rounds).toFunction.begin start) is = some s) :
    is.length ≤ 7 * rounds + 6 ∧ s.trapped = false ∧ s.store.arr <+: List.range rounds ∧
      s.log.map Prod.snd <+: ["arr count: " ++ toString rounds] ∧
      ((appendArr rounds).toFunction.Stuck s → s.store.arr = List.range rounds ∧
        s.log.map Prod.snd = ["arr count: " ++ toString rounds]) := by
  have inv := inv_of_reachable ⟨is, run⟩
  have short : ∀ k, ((appendArr rounds).work k).length ≤ 2 := fun k => Nat.le_refl 2
  obtain ⟨length, -⟩ := FanOut.run_ends short run
  have run_s : (appendArr rounds).Run s := FanOut.run_of_reachable ⟨is, run⟩
  obtain ⟨_, _, _, _, _, _, _, _, _, _, _, untrapped, _⟩ := run_s.inv
  refine ⟨?_, untrapped, ?_, ?_, fun stuck => ?_⟩
  · have bound : (appendArr rounds).weight 2 .function = 0 + (rounds * (2 + 5) + (1 + 5)) := rfl
    omega
  · rw [inv.arr, List.prefix_iff_eq_take]
    simp [inv.within.2]
  · cases last : s.tasks[rounds + 1]? with
    | none =>
        rw [inv.silent last]
        exact List.nil_prefix
    | some v =>
        cases inv.report v last with
        | inl still =>
            rw [still.2]
            exact List.nil_prefix
        | inr done =>
            rw [done.2]
            exact List.prefix_refl _
  · obtain ⟨empty, first, subs, -⟩ := run_s.complete stuck
    have total : s.tasks.length = rounds + 2 := by
      have := congrArg List.length subs
      simpa [appendArr] using this
    obtain ⟨v, last⟩ : ∃ v, s.tasks[rounds + 1]? = some v :=
      ⟨_, List.getElem?_eq_getElem (by omega)⟩
    have done : s.store.arr.length = rounds := by
      have := inv.within
      by_contra short
      obtain ⟨w, there⟩ : ∃ w, s.tasks[s.store.arr.length + 1]? = some w :=
        ⟨_, List.getElem?_eq_getElem (by omega)⟩
      have progress := inv.progress _ w (by omega) there
      rw [empty w (List.mem_of_getElem? there)] at progress
      cases progress with
      | ended before => exact Nat.lt_irrefl _ before
    refine ⟨by rw [inv.arr, done], ?_⟩
    cases inv.report v last with
    | inl still =>
        have := empty v (List.mem_of_getElem? last)
        rw [still.1] at this
        cases this
    | inr printed =>
        rw [printed.2]
        rfl

/-- The second block waits while the first one has read the array. -/
theorem appendArr_prints_twoBlocks :
    ∃ s, (appendArr 2).toFunction.machine.run ((appendArr 2).toFunction.begin start)
        [0, 0, 1, 1, 0, 0] = some s ∧ (appendArr 2).toFunction.step s 2 = none ∧
      [0, 0, 1, 1, 0, 0].length ≤ 7 * 2 + 6 ∧ s.trapped = false ∧ s.store.arr <+: List.range 2 ∧
      s.log.map Prod.snd <+: ["arr count: " ++ toString 2] ∧
      ((appendArr 2).toFunction.Stuck s → s.store.arr = List.range 2 ∧
        s.log.map Prod.snd = ["arr count: " ++ toString 2]) :=
  ⟨_, rfl, rfl, appendArr_prints rfl⟩

end LearningProjects.GCD.AppendArr
