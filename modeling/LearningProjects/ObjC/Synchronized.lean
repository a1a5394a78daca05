import LearningProjects.Machine
import Mathlib

/-! # `@synchronized`

`objc_sync_enter` finds or makes a mutex for an object, `objc_sync_exit` gives it back. The
mutexes are recycled: when no thread uses one any more, it serves another object, even while
the last thread has still to unlock it. A call of `id2data` is one step here, as what it
shares with other threads is behind the list's spinlock or is one atomic count; locking and
unlocking the mutex are steps of their own. The counts are of 32 bits and wrap.
-/

namespace LearningProjects.ObjC.Synchronized

/-- `SyncData` with its recursive mutex; `threadCount` is an `int32_t`. -/
structure SyncData (Obj T : Type) where
  object : Obj
  threadCount : ℤ
  owner : Option T
  depth : ℕ

/-- Where a thread is: in `objc_sync_enter` before the mutex, or in `objc_sync_exit`. -/
inductive Pc (Obj : Type) where
  | idle
  | entering (d : ℕ) (object : Obj)
  | exiting (d : ℕ)

/-- A thread with its cache, the `lockCount` of each `SyncData` that has an item there, and in
    `sections` the blocks of `@synchronized` it is inside of. -/
structure Thread (Obj : Type) where
  pc : Pc Obj
  cache : ℕ → Option ℕ
  sections : Obj → ℕ

/-- All `SyncData`, the oldest first, and the threads. -/
structure State (Obj T : Type) where
  datas : List (SyncData Obj T)
  threads : T → Thread Obj

inductive Event (Obj T : Type) where
  | enter (t : T) (object : Obj)
  | exit (t : T) (object : Obj)
  | mutex (t : T)

/-- How often the thread has locked a `SyncData`, as its cache says. -/
def Thread.lockCount {Obj : Type} (thread : Thread Obj) (d : ℕ) : ℕ := (thread.cache d).getD 0

/-- An `int32_t` after an atomic addition. -/
def int32 (n : ℤ) : ℤ := n.bmod (2 ^ 32)

variable {Obj T : Type} [DecidableEq Obj] [DecidableEq T]

namespace SyncData

/-- `recursive_mutex_t::lock`, none while another thread has it. -/
def lock (x : SyncData Obj T) (t : T) : Option (SyncData Obj T) :=
  match x.owner with
  | none => some { x with owner := some t, depth := 1 }
  | some u => if u = t then some { x with depth := x.depth + 1 } else none

/-- `recursive_mutex_t::tryUnlock`. -/
def tryUnlock (x : SyncData Obj T) (t : T) : SyncData Obj T :=
  if x.owner = some t then
    if x.depth = 1 then { x with owner := none, depth := 0 } else { x with depth := x.depth - 1 }
  else x

def increment (x : SyncData Obj T) : SyncData Obj T :=
  { x with threadCount := int32 (x.threadCount + 1) }

def decrement (x : SyncData Obj T) : SyncData Obj T :=
  { x with threadCount := int32 (x.threadCount - 1) }

end SyncData

namespace State

variable (s : State Obj T)

/-- The walk over a list, the newest `SyncData` first. -/
def walk (p : ℕ → SyncData Obj T → Bool) : Option ℕ :=
  (List.range s.datas.length).reverse.find? fun d => (s.datas[d]?).any (p d)

/-- The item for the object in a thread's caches. -/
def cached (t : T) (object : Obj) : Option ℕ :=
  s.walk fun d x => decide (((s.threads t).cache d).isSome ∧ x.object = object)

/-- `id2data` stops the process: the item's count of threads or of locks is not positive. -/
def Buggy (t : T) (d : ℕ) : Prop :=
  (∃ x ∈ s.datas[d]?, x.threadCount ≤ 0) ∨ (s.threads t).lockCount d = 0

instance (t : T) (d : ℕ) : Decidable (s.Buggy t d) := inferInstanceAs (Decidable (_ ∨ _))

/-- The `SyncData` of the object in its list, or an unused one of that list, or a new one. -/
def associate (stripe : Obj → ℕ) (object : Obj) : State Obj T × ℕ :=
  match s.walk fun _ x => decide (x.object = object) with
  | some d => (s, d)
  | none =>
      match s.walk fun _ x => decide (x.threadCount = 0 ∧ stripe x.object = stripe object) with
      | some d => ({ s with datas := s.datas.modify d fun x => { x with object := object } }, d)
      | none => ({ s with datas := s.datas ++ [⟨object, 0, none, 0⟩] }, s.datas.length)

def setThread (t : T) (thread : Thread Obj) : State Obj T :=
  { s with threads := Function.update s.threads t thread }

/-- `id2data` with `ACQUIRE`. -/
def acquire (stripe : Obj → ℕ) (t : T) (object : Obj) : Option (State Obj T) :=
  let thread := s.threads t
  match s.cached t object with
  | some d =>
      if s.Buggy t d then none
      else some (s.setThread t { thread with
        pc := .entering d object
        cache := Function.update thread.cache d (some ((thread.lockCount d + 1) % 2 ^ 32)) })
  | none =>
      let (s, d) := s.associate stripe object
      some ({ s with datas := s.datas.modify d .increment }.setThread t { thread with
        pc := .entering d object
        cache := Function.update thread.cache d (some 1) })

/-- `id2data` with `RELEASE`. An exit of an object that the thread is not inside of leaves
    its `SyncData` with a thread too many. -/
def release (t : T) (object : Obj) : Option (State Obj T) :=
  let thread := s.threads t
  match s.cached t object with
  | some d =>
      if s.Buggy t d then none
      else
        let left := thread.lockCount d - 1
        some ({ s with datas := s.datas.modify d fun x =>
            if left = 0 then x.decrement else x }.setThread t
          ⟨.exiting d, Function.update thread.cache d (if left = 0 then none else some left),
            Function.update thread.sections object (thread.sections object - 1)⟩)
  | none =>
      match s.walk fun _ x => decide (x.object = object) with
      | some d => some { s with datas := s.datas.modify d .increment }
      | none => some s

end State

def step (stripe : Obj → ℕ) (s : State Obj T) : Event Obj T → Option (State Obj T)
  | .enter t object =>
      match (s.threads t).pc with
      | .idle => s.acquire stripe t object
      | _ => none
  | .exit t object =>
      match (s.threads t).pc with
      | .idle => s.release t object
      | _ => none
  | .mutex t =>
      let thread := s.threads t
      match thread.pc with
      | .idle => none
      | .entering d object =>
          (s.datas[d]?).bind fun x => (x.lock t).map fun y =>
            { s with datas := s.datas.set d y }.setThread t { thread with
              pc := .idle
              sections := Function.update thread.sections object (thread.sections object + 1) }
      | .exiting d =>
          some ({ s with datas := s.datas.modify d fun x => x.tryUnlock t }.setThread t
            { thread with pc := .idle })

def machine (stripe : Obj → ℕ) : Machine (State Obj T) (Event Obj T) := ⟨step stripe⟩

def start : State Obj T := ⟨[], fun _ => ⟨.idle, fun _ => none, fun _ => 0⟩⟩

/-- 1 if the thread is about to lock this mutex. -/
def Thread.enters (thread : Thread Obj) (d : ℕ) : ℕ :=
  match thread.pc with
  | .entering e _ => if e = d then 1 else 0
  | _ => 0

/-- 1 if the thread is about to unlock this mutex. -/
def Thread.exits (thread : Thread Obj) (d : ℕ) : ℕ :=
  match thread.pc with
  | .exiting e => if e = d then 1 else 0
  | _ => 0

/-- How often the mutex is locked by the thread. -/
def SyncData.lockedBy (x : SyncData Obj T) (t : T) : ℕ := if x.owner = some t then x.depth else 0

/-- 1 if the thread is one of those that `threadCount` counts. -/
def Thread.uses (thread : Thread Obj) (d : ℕ) : ℕ := if 0 < thread.lockCount d then 1 else 0

variable [Fintype T]

/-- What holds after `n` steps. -/
structure Inv (n : ℕ) (s : State Obj T) : Prop where
  objects : ∀ (d e : ℕ) (x y : SyncData Obj T), s.datas[d]? = some x → s.datas[e]? = some y →
    x.object = y.object → d = e
  users : ∀ (d : ℕ) (x : SyncData Obj T), s.datas[d]? = some x →
    (∑ t, (s.threads t).uses d : ℕ) ≤ x.threadCount
  counted : ∀ (d : ℕ) (x : SyncData Obj T), s.datas[d]? = some x → x.threadCount ≤ n
  items : ∀ (t : T) (d count : ℕ), (s.threads t).cache d = some count → 0 < count ∧ count ≤ n
  known : ∀ (t : T) (d : ℕ), s.datas.length ≤ d →
    (s.threads t).cache d = none ∧ (s.threads t).enters d = 0 ∧ (s.threads t).exits d = 0
  target : ∀ (t : T) (d : ℕ) (object : Obj), (s.threads t).pc = .entering d object →
    ∃ x, s.datas[d]? = some x ∧ x.object = object
  mutex : ∀ (t : T) (d : ℕ) (x : SyncData Obj T), s.datas[d]? = some x →
    x.lockedBy t + (s.threads t).enters d = (s.threads t).lockCount d + (s.threads t).exits d
  sections : ∀ (t : T) (d : ℕ) (x : SyncData Obj T), s.datas[d]? = some x →
    (s.threads t).sections x.object + (s.threads t).enters d = (s.threads t).lockCount d
  somewhere : ∀ (t : T) (object : Obj), 0 < (s.threads t).sections object →
    ∃ (d : ℕ) (x : SyncData Obj T), s.datas[d]? = some x ∧ x.object = object

variable {n : ℕ} {s : State Obj T} {t : T} {d : ℕ} {x y : SyncData Obj T} {object : Obj}
  {thread : Thread Obj}

omit [DecidableEq Obj] [DecidableEq T] [Fintype T] in
theorem walk_some {p : ℕ → SyncData Obj T → Bool} (found : s.walk p = some d) :
    ∃ x, s.datas[d]? = some x ∧ p d x = true := by
  have holds := List.find?_some found
  cases there : s.datas[d]? with
  | none => simp [there] at holds
  | some x => exact ⟨x, rfl, by simpa [there] using holds⟩

omit [DecidableEq Obj] [DecidableEq T] [Fintype T] in
theorem walk_none {p : ℕ → SyncData Obj T → Bool} (none_found : s.walk p = none)
    (there : s.datas[d]? = some x) : p d x = false := by
  have within := (List.getElem?_eq_some_iff.mp there).1
  have fails := List.find?_eq_none.mp none_found d (by simpa using within)
  simpa [there] using fails

omit [DecidableEq Obj] in
theorem sum_update (f : Thread Obj → ℕ) (threads : T → Thread Obj) (t : T) (thread : Thread Obj) :
    ∑ u, f (Function.update threads t thread u) + f (threads t) =
      ∑ u, f (threads u) + f thread := by
  have before := Fintype.sum_eq_add_sum_compl t fun u => f (threads u)
  have after := Fintype.sum_eq_add_sum_compl t fun u => f (Function.update threads t thread u)
  have rest : ∑ u ∈ {t}ᶜ, f (Function.update threads t thread u) = ∑ u ∈ {t}ᶜ, f (threads u) := by
    apply Finset.sum_congr rfl
    intro u other
    rw [Function.update_of_ne (by simpa using other)]
  rw [before, after, rest, Function.update_self]
  omega

omit [DecidableEq T] [DecidableEq Obj] [Fintype T] in
/-- Counts that the steps bound do not wrap. -/
theorem int32_of_room {c : ℤ} (nonneg : 0 ≤ c) (below : c ≤ n) (room : n < 2 ^ 31) : int32 c = c :=
  Int.bmod_eq_of_le (by norm_num; omega) (by norm_num; omega)

omit [DecidableEq Obj] in
/-- One thread and one `SyncData` change in a step, and the object of this one stays. -/
theorem Inv.set (inv : Inv n s) (y : SyncData Obj T) (thread : Thread Obj)
    (here : s.datas[d]? = some x) (same : y.object = x.object)
    (elsewhere : ∀ e, e ≠ d → thread.cache e = (s.threads t).cache e ∧
      thread.enters e = (s.threads t).enters e ∧ thread.exits e = (s.threads t).exits e)
    (target : ∀ e o, thread.pc = .entering e o → e = d ∧ o = x.object)
    (users : x.threadCount + thread.uses d ≤ y.threadCount + (s.threads t).uses d)
    (counted : y.threadCount ≤ x.threadCount + 1)
    (item : ∀ count, thread.cache d = some count → 0 < count ∧ count ≤ n + 1)
    (mutex : y.lockedBy t + thread.enters d = thread.lockCount d + thread.exits d)
    (others : ∀ u, u ≠ t → y.lockedBy u = x.lockedBy u)
    (sections : thread.sections x.object + thread.enters d = thread.lockCount d)
    (apart : ∀ o, o ≠ x.object → thread.sections o = (s.threads t).sections o) :
    Inv (n + 1) ({ s with datas := s.datas.set d y }.setThread t thread) := by
  have within := (List.getElem?_eq_some_iff.mp here).1
  have at_d : (s.datas.set d y)[d]? = some y := by
    rw [List.getElem?_set_self within]
  have away : ∀ e, e ≠ d → (s.datas.set d y)[e]? = s.datas[e]? := fun e ne =>
    List.getElem?_set_ne (Ne.symm ne)
  -- every `SyncData` has the object it had
  have kept : ∀ (e : ℕ) (z : SyncData Obj T), (s.datas.set d y)[e]? = some z →
      ∃ w, s.datas[e]? = some w ∧ z.object = w.object ∧ (e = d → w = x ∧ z = y) ∧
        (e ≠ d → z = w) := by
    intro e z there
    by_cases ne : e = d
    · subst ne
      obtain rfl := Option.some.inj (at_d.symm.trans there)
      exact ⟨x, here, same, fun _ => ⟨rfl, rfl⟩, fun ne => absurd rfl ne⟩
    · rw [away e ne] at there
      exact ⟨z, there, rfl, fun eq => absurd eq ne, fun _ => rfl⟩
  have now : ∀ u, (Function.update s.threads t thread) u = if u = t then thread else s.threads u :=
    fun u => Function.update_apply s.threads t thread u
  constructor
  case objects =>
    intro a b z w at_a at_b eq
    obtain ⟨z', at_z, obj_z, -⟩ := kept a z at_a
    obtain ⟨w', at_w, obj_w, -⟩ := kept b w at_b
    exact inv.objects a b z' w' at_z at_w (by rw [← obj_z, ← obj_w, eq])
  case users =>
    intro e z there
    obtain ⟨w, at_w, -, at_same, at_other⟩ := kept e z there
    have change := sum_update (fun th => th.uses e) s.threads t thread
    have before := inv.users e w at_w
    change ((∑ u, (Function.update s.threads t thread u).uses e : ℕ) : ℤ) ≤ _
    by_cases ne : e = d
    · obtain ⟨rfl, rfl⟩ := at_same ne
      subst ne
      omega
    · obtain rfl := at_other ne
      have equal : thread.uses e = (s.threads t).uses e := by
        unfold Thread.uses Thread.lockCount
        rw [(elsewhere e ne).1]
      omega
  case counted =>
    intro e z there
    obtain ⟨w, at_w, -, at_same, at_other⟩ := kept e z there
    have before := inv.counted e w at_w
    push_cast
    by_cases ne : e = d
    · obtain ⟨rfl, rfl⟩ := at_same ne
      omega
    · obtain rfl := at_other ne
      omega
  case items =>
    intro u e count there
    simp only [State.setThread, now] at there
    split_ifs at there with eq
    · subst eq
      by_cases ne : e = d
      · subst ne
        exact item count there
      · rw [(elsewhere e ne).1] at there
        have before := inv.items u e count there
        omega
    · have before := inv.items u e count there
      omega
  case known =>
    intro u e far
    have beyond : s.datas.length ≤ e := by simpa [State.setThread] using far
    have ne : e ≠ d := by omega
    have before := inv.known u e beyond
    simp only [State.setThread, now]
    split_ifs with eq
    · subst eq
      obtain ⟨counts, enters, exits⟩ := elsewhere e ne
      rw [counts, enters, exits]
      exact before
    · exact before
  case target =>
    intro u e o pc
    simp only [State.setThread, now] at pc ⊢
    split_ifs at pc with eq
    · obtain ⟨rfl, rfl⟩ := target e o pc
      exact ⟨y, at_d, same⟩
    · obtain ⟨w, at_w, obj_w⟩ := inv.target u e o pc
      by_cases ne : e = d
      · subst ne
        obtain rfl := Option.some.inj (here.symm.trans at_w)
        exact ⟨y, at_d, same.trans obj_w⟩
      · exact ⟨w, (away e ne).trans at_w, obj_w⟩
  case mutex =>
    intro u e z there
    obtain ⟨w, at_w, -, at_same, at_other⟩ := kept e z there
    have before := inv.mutex u e w at_w
    simp only [State.setThread, now]
    by_cases ne : e = d
    · obtain ⟨rfl, rfl⟩ := at_same ne
      subst ne
      split_ifs with eq
      · subst eq
        exact mutex
      · rw [others u eq]
        exact before
    · obtain rfl := at_other ne
      split_ifs with eq
      · subst eq
        obtain ⟨counts, enters, exits⟩ := elsewhere e ne
        rw [Thread.lockCount, counts, enters, exits]
        exact before
      · exact before
  case sections =>
    intro u e z there
    obtain ⟨w, at_w, obj_w, at_same, at_other⟩ := kept e z there
    have before := inv.sections u e w at_w
    simp only [State.setThread, now]
    by_cases ne : e = d
    · obtain ⟨rfl, rfl⟩ := at_same ne
      subst ne
      split_ifs with eq
      · rw [obj_w]
        exact sections
      · rw [obj_w]
        exact before
    · obtain rfl := at_other ne
      split_ifs with eq
      · subst eq
        obtain ⟨counts, enters, -⟩ := elsewhere e ne
        have other_object : z.object ≠ x.object := fun eq => ne (inv.objects e d z x at_w here eq)
        rw [apart z.object other_object, Thread.lockCount, counts, enters]
        exact before
      · exact before
  case somewhere =>
    intro u o pos
    simp only [State.setThread, now] at pos ⊢
    have somewhere : ∃ (e : ℕ) (w : SyncData Obj T), s.datas[e]? = some w ∧ w.object = o := by
      split_ifs at pos with eq
      · subst eq
        by_cases this_one : o = x.object
        · exact ⟨d, x, here, this_one.symm⟩
        · rw [apart o this_one] at pos
          exact inv.somewhere u o pos
      · exact inv.somewhere u o pos
    obtain ⟨e, w, at_w, obj_w⟩ := somewhere
    by_cases ne : e = d
    · subst ne
      obtain rfl := Option.some.inj (here.symm.trans at_w)
      exact ⟨e, y, at_d, same.trans obj_w⟩
    · exact ⟨e, w, (away e ne).trans at_w, obj_w⟩

omit [DecidableEq Obj] [DecidableEq T] [Fintype T] in
theorem modify_eq_set {f : SyncData Obj T → SyncData Obj T} (here : s.datas[d]? = some x) :
    s.datas.modify d f = s.datas.set d (f x) := by
  apply List.ext_getElem?
  intro e
  rw [List.getElem?_modify, List.getElem?_set]
  by_cases eq : d = e
  · subst eq
    obtain ⟨within, rfl⟩ := List.getElem?_eq_some_iff.mp here
    simp [within]
  · simp [eq]

omit [DecidableEq Obj] [DecidableEq T] [Fintype T] in
theorem set_eq_self (here : s.datas[d]? = some x) : s.datas.set d x = s.datas := by
  have same := modify_eq_set (f := id) here
  rw [List.modify_id] at same
  exact same.symm

omit [DecidableEq Obj] in
theorem Inv.nonneg (inv : Inv n s) (here : s.datas[d]? = some x) : 0 ≤ x.threadCount :=
  (Int.natCast_nonneg _).trans (inv.users d x here)

omit [DecidableEq Obj] in
theorem Inv.increment (inv : Inv n s) (room : n + 1 < 2 ^ 31) (here : s.datas[d]? = some x) :
    x.increment.threadCount = x.threadCount + 1 := by
  have nonneg := inv.nonneg here
  have below := inv.counted d x here
  exact int32_of_room (n := n + 1) (by omega) (by omega) room

omit [DecidableEq Obj] in
/-- What no thread counts, no thread has in its cache. -/
theorem Inv.unused (inv : Inv n s) (here : s.datas[d]? = some x) (zero : x.threadCount = 0)
    (u : T) :
    (s.threads u).cache d = none := by
  have users := inv.users d x here
  have nobody : ∑ t, (s.threads t).uses d = 0 := by omega
  have none_left := Finset.sum_eq_zero_iff.mp nobody u (Finset.mem_univ u)
  cases there : (s.threads u).cache d with
  | none => rfl
  | some count =>
      have pos := (inv.items u d count there).1
      simp [Thread.uses, Thread.lockCount, there] at none_left
      omega

omit [DecidableEq Obj] in
/-- Nobody is inside of an object that no `SyncData` has. -/
theorem Inv.outside (inv : Inv n s)
    (fresh : ∀ (e : ℕ) (z : SyncData Obj T), s.datas[e]? = some z → z.object ≠ object) (u : T) :
    (s.threads u).sections object = 0 := by
  by_contra inside
  obtain ⟨e, w, at_w, obj_w⟩ := inv.somewhere u object (Nat.pos_of_ne_zero inside)
  exact fresh e w at_w obj_w

omit [DecidableEq Obj] in
/-- An unused `SyncData` may get an object that none of them has. -/
theorem Inv.recycle (inv : Inv n s) (here : s.datas[d]? = some x) (zero : x.threadCount = 0)
    (fresh : ∀ (e : ℕ) (z : SyncData Obj T), s.datas[e]? = some z → z.object ≠ object) :
    Inv n { s with datas := s.datas.set d { x with object := object } } := by
  have within := (List.getElem?_eq_some_iff.mp here).1
  have nobody : ∀ u, (s.threads u).lockCount d = 0 := by
    intro u
    rw [Thread.lockCount, inv.unused here zero u]
    rfl
  -- what the others are is unchanged
  have kept : ∀ (e : ℕ) (z : SyncData Obj T),
      (s.datas.set d { x with object := object })[e]? = some z →
      e = d ∧ z = { x with object := object } ∨ e ≠ d ∧ s.datas[e]? = some z := by
    intro e z there
    by_cases ne : e = d
    · subst ne
      rw [List.getElem?_set_self within] at there
      exact .inl ⟨rfl, (Option.some.inj there).symm⟩
    · rw [List.getElem?_set_ne (Ne.symm ne)] at there
      exact .inr ⟨ne, there⟩
  refine ⟨?_, ?_, ?_, inv.items, ?_, ?_, ?_, ?_, ?_⟩
  · intro a b z w at_a at_b eq
    rcases kept a z at_a with ⟨rfl, rfl⟩ | ⟨-, old_z⟩ <;>
      rcases kept b w at_b with ⟨rfl, rfl⟩ | ⟨-, old_w⟩
    · rfl
    · exact absurd eq.symm (fresh b w old_w)
    · exact absurd eq (fresh a z old_z)
    · exact inv.objects a b z w old_z old_w eq
  · intro e z there
    rcases kept e z there with ⟨rfl, rfl⟩ | ⟨-, old⟩
    · exact inv.users e x here
    · exact inv.users e z old
  · intro e z there
    rcases kept e z there with ⟨rfl, rfl⟩ | ⟨-, old⟩
    · exact inv.counted e x here
    · exact inv.counted e z old
  · intro u e far
    exact inv.known u e (by simpa using far)
  · intro u e o pc
    obtain ⟨w, at_w, obj_w⟩ := inv.target u e o pc
    have entered := inv.sections u e w at_w
    change (s.threads u).pc = _ at pc
    have one : (s.threads u).enters e = 1 := by simp [Thread.enters, pc]
    by_cases ne : e = d
    · subst ne
      have := nobody u
      omega
    · exact ⟨w, (List.getElem?_set_ne (Ne.symm ne)).trans at_w, obj_w⟩
  · intro u e z there
    rcases kept e z there with ⟨rfl, rfl⟩ | ⟨-, old⟩
    · exact inv.mutex u e x here
    · exact inv.mutex u e z old
  · intro u e z there
    rcases kept e z there with ⟨rfl, rfl⟩ | ⟨-, old⟩
    · have before := inv.sections u e x here
      have outside := inv.outside fresh u
      have zero_count := nobody u
      change (s.threads u).sections object + (s.threads u).enters e = (s.threads u).lockCount e
      omega
    · exact inv.sections u e z old
  · intro u o pos
    obtain ⟨e, w, at_w, obj_w⟩ := inv.somewhere u o pos
    by_cases ne : e = d
    · subst ne
      obtain rfl := Option.some.inj (here.symm.trans at_w)
      have before := inv.sections u e x here
      have := nobody u
      rw [← obj_w] at pos
      have : (s.threads u).sections x.object = 0 := by omega
      exact absurd pos (by simp [this])
    · exact ⟨e, w, (List.getElem?_set_ne (Ne.symm ne)).trans at_w, obj_w⟩

omit [DecidableEq Obj] in
/-- And so may a new one. -/
theorem Inv.append (inv : Inv n s)
    (fresh : ∀ (e : ℕ) (z : SyncData Obj T), s.datas[e]? = some z → z.object ≠ object) :
    Inv n { s with datas := s.datas ++ [⟨object, 0, none, 0⟩] } := by
  have kept : ∀ (e : ℕ) (z : SyncData Obj T), (s.datas ++ [⟨object, 0, none, 0⟩])[e]? = some z →
      e = s.datas.length ∧ z = ⟨object, 0, none, 0⟩ ∨ s.datas[e]? = some z := by
    intro e z there
    rw [List.getElem?_append] at there
    split_ifs at there with within
    · exact .inr there
    · obtain ⟨far, rfl⟩ := List.getElem?_eq_some_iff.mp there
      exact .inl ⟨by simp at far; omega, by simp⟩
  have still : ∀ (e : ℕ) (z : SyncData Obj T), s.datas[e]? = some z →
      (s.datas ++ [⟨object, 0, none, 0⟩])[e]? = some z := by
    intro e z there
    rw [List.getElem?_append_left (List.getElem?_eq_some_iff.mp there).1]
    exact there
  have outside := inv.outside fresh
  refine ⟨?_, ?_, ?_, inv.items, ?_, ?_, ?_, ?_, ?_⟩
  · intro a b z w at_a at_b eq
    rcases kept a z at_a with ⟨rfl, rfl⟩ | old_z <;> rcases kept b w at_b with ⟨rfl, rfl⟩ | old_w
    · rfl
    · exact absurd eq.symm (fresh b w old_w)
    · exact absurd eq (fresh a z old_z)
    · exact inv.objects a b z w old_z old_w eq
  · intro e z there
    rcases kept e z there with ⟨rfl, rfl⟩ | old
    · have nobody : ∑ u, (s.threads u).uses s.datas.length = 0 := by
        apply Finset.sum_eq_zero
        intro u _
        simp [Thread.uses, Thread.lockCount, (inv.known u _ (Nat.le_refl _)).1]
      exact Int.le_of_eq (congrArg Int.ofNat nobody)
    · exact inv.users e z old
  · intro e z there
    rcases kept e z there with ⟨rfl, rfl⟩ | old
    · exact Int.natCast_nonneg n
    · exact inv.counted e z old
  · intro u e far
    exact inv.known u e (by simp at far; omega)
  · intro u e o pc
    obtain ⟨w, at_w, obj_w⟩ := inv.target u e o pc
    exact ⟨w, still e w at_w, obj_w⟩
  · intro u e z there
    rcases kept e z there with ⟨rfl, rfl⟩ | old
    · obtain ⟨counts, enters, exits⟩ := inv.known u _ (Nat.le_refl _)
      simp [SyncData.lockedBy, Thread.lockCount, counts, enters, exits]
    · exact inv.mutex u e z old
  · intro u e z there
    rcases kept e z there with ⟨rfl, rfl⟩ | old
    · obtain ⟨counts, enters, -⟩ := inv.known u _ (Nat.le_refl _)
      simp [outside u, Thread.lockCount, counts, enters]
    · exact inv.sections u e z old
  · intro u o pos
    obtain ⟨e, w, at_w, obj_w⟩ := inv.somewhere u o pos
    exact ⟨e, w, still e w at_w, obj_w⟩

omit [DecidableEq T] [Fintype T] in
theorem cached_some (found : s.cached t object = some d) :
    ∃ x, s.datas[d]? = some x ∧ ((s.threads t).cache d).isSome ∧ x.object = object := by
  obtain ⟨x, there, holds⟩ := walk_some found
  exact ⟨x, there, of_decide_eq_true holds⟩

omit [DecidableEq T] [Fintype T] in
theorem cached_none (none_found : s.cached t object = none) (here : s.datas[d]? = some x)
    (same : x.object = object) : (s.threads t).cache d = none := by
  have fails := of_decide_eq_false (walk_none none_found here)
  rw [← Option.not_isSome_iff_eq_none]
  exact fun there => fails ⟨there, same⟩

omit [DecidableEq Obj] in
/-- What is in a thread's cache is locked and counted. -/
theorem Inv.cached (inv : Inv n s) (here : s.datas[d]? = some x)
    (there : ((s.threads t).cache d).isSome) :
    0 < (s.threads t).lockCount d ∧ (s.threads t).lockCount d ≤ n ∧ 0 < x.threadCount := by
  obtain ⟨count, item⟩ := Option.isSome_iff_exists.mp there
  obtain ⟨pos, below⟩ := inv.items t d count item
  have locked : (s.threads t).lockCount d = count := by simp [Thread.lockCount, item]
  have used : (s.threads t).uses d = 1 := by simp [Thread.uses, locked, pos]
  have one := Finset.single_le_sum (f := fun u => (s.threads u).uses d)
    (fun _ _ => Nat.zero_le _) (Finset.mem_univ t)
  have users := inv.users d x here
  exact ⟨by omega, by omega, by simp only [used] at one; omega⟩

omit [DecidableEq Obj] in
/-- The checks of `id2data` do not find the cache buggy. -/
theorem Inv.not_buggy (inv : Inv n s) (here : s.datas[d]? = some x)
    (there : ((s.threads t).cache d).isSome) : ¬ s.Buggy t d := by
  obtain ⟨locked, -, used⟩ := inv.cached here there
  rintro (⟨y, at_d, none_counted⟩ | unlocked)
  · obtain rfl : x = y := Option.some.inj (here.symm.trans at_d)
    omega
  · omega

/-- The association gives a `SyncData` of the object and changes no thread. -/
theorem Inv.associate (inv : Inv n s) (stripe : Obj → ℕ) (object : Obj) :
    Inv n (s.associate stripe object).1 ∧ (s.associate stripe object).1.threads = s.threads ∧
      ∃ x, (s.associate stripe object).1.datas[(s.associate stripe object).2]? = some x ∧
        x.object = object ∧
        (s.cached t object = none → (s.threads t).cache (s.associate stripe object).2 = none) := by
  unfold State.associate
  cases found : s.walk fun _ x => decide (x.object = object) with
  | some d =>
      obtain ⟨x, here, same⟩ := walk_some found
      have object_x := of_decide_eq_true same
      exact ⟨inv, rfl, x, here, object_x,
        fun none_found => cached_none none_found here object_x⟩
  | none =>
      have fresh : ∀ (e : ℕ) (z : SyncData Obj T), s.datas[e]? = some z → z.object ≠ object :=
        fun e z there => of_decide_eq_false (walk_none found there)
      cases unused : s.walk fun _ x =>
        decide (x.threadCount = 0 ∧ stripe x.object = stripe object) with
      | some d =>
          obtain ⟨x, here, holds⟩ := walk_some unused
          have zero := (of_decide_eq_true holds).1
          have within := (List.getElem?_eq_some_iff.mp here).1
          simp only [modify_eq_set here]
          exact ⟨inv.recycle here zero fresh, trivial, _, List.getElem?_set_self within, rfl,
            fun _ => inv.unused here zero t⟩
      | none =>
          exact ⟨inv.append fresh, rfl, _, List.getElem?_concat_length, rfl,
            fun _ => (inv.known t _ (Nat.le_refl _)).1⟩

omit [DecidableEq Obj] [DecidableEq T] [Fintype T] in
theorem lockCount_update (pc : Pc Obj) (cache : ℕ → Option ℕ) (item : Option ℕ)
    (sections : Obj → ℕ) :
    Thread.lockCount ⟨pc, Function.update cache d item, sections⟩ d = item.getD 0 := by
  simp [Thread.lockCount]

omit [DecidableEq Obj] in
theorem Inv.later (inv : Inv n s) : Inv (n + 1) s where
  __ := inv
  counted d x here := by have := inv.counted d x here; push_cast; omega
  items t d count item := by have := inv.items t d count item; omega

omit [DecidableEq Obj] [DecidableEq T] [Fintype T] in
theorem enters_of_idle (idle : thread.pc = .idle) : thread.enters d = 0 := by
  simp [Thread.enters, idle]

omit [DecidableEq Obj] [DecidableEq T] [Fintype T] in
theorem exits_of_idle (idle : thread.pc = .idle) : thread.exits d = 0 := by
  simp [Thread.exits, idle]

theorem Inv.acquire (inv : Inv n s) (room : n + 1 < 2 ^ 31) (stripe : Obj → ℕ) (object : Obj)
    (idle : (s.threads t).pc = .idle) :
    ∃ u, s.acquire stripe t object = some u ∧ Inv (n + 1) u := by
  unfold State.acquire
  cases found : s.cached t object with
  | some d =>
      obtain ⟨x, here, there, rfl⟩ := cached_some found
      obtain ⟨pos, below, -⟩ := inv.cached here there
      have no_wrap : ((s.threads t).lockCount d + 1) % 2 ^ 32 = (s.threads t).lockCount d + 1 :=
        Nat.mod_eq_of_lt (by omega)
      have mutex := inv.mutex t d x here
      have sections := inv.sections t d x here
      rw [enters_of_idle idle] at mutex sections
      rw [exits_of_idle idle] at mutex
      have kept := inv.set (t := t) x ⟨.entering d x.object,
        Function.update (s.threads t).cache d (some ((s.threads t).lockCount d + 1)),
        (s.threads t).sections⟩ here rfl ?_ ?_ ?_ ?_ ?_ ?_ ?_ ?_ ?_
      · rw [set_eq_self here] at kept
        simp only [if_neg (inv.not_buggy here there), no_wrap]
        exact ⟨_, rfl, kept⟩
      · intro e ne
        simp [Function.update_of_ne ne, Thread.enters, Thread.exits, idle, Ne.symm ne]
      · intro e o pc
        cases pc
        exact ⟨rfl, rfl⟩
      · have now : (s.threads t).uses d = 1 := by simp [Thread.uses, pos]
        rw [now, Thread.uses, lockCount_update]
        simp
      · omega
      · intro count item
        simp only [Function.update_self, Option.some.injEq] at item
        omega
      · rw [lockCount_update]
        simp [Thread.enters, Thread.exits]
        omega
      · exact fun _ _ => rfl
      · rw [lockCount_update]
        simp [Thread.enters]
        omega
      · exact fun _ _ => rfl
  | none =>
      obtain ⟨inv', threads, x, here, rfl, no_item⟩ := inv.associate (t := t) stripe object
      have zero := no_item found
      rw [← threads] at idle zero
      have incremented := inv'.increment room here
      have mutex := inv'.mutex t _ x here
      have sections := inv'.sections t _ x here
      rw [enters_of_idle idle, Thread.lockCount, zero] at mutex sections
      rw [exits_of_idle idle] at mutex
      simp only [modify_eq_set here]
      rw [← threads]
      refine ⟨_, rfl, inv'.set _ _ here ?_ ?_ ?_ ?_ ?_ ?_ ?_ ?_ ?_ ?_⟩
      · rfl
      · intro e ne
        simp [Function.update_of_ne ne, Thread.enters, Thread.exits, idle, Ne.symm ne]
      · intro e o pc
        cases pc
        exact ⟨rfl, rfl⟩
      · simp [Thread.uses, Thread.lockCount, zero, incremented]
      · exact Int.le_of_eq incremented
      · intro count item
        simp only [Function.update_self, Option.some.injEq] at item
        omega
      · change x.lockedBy t + Thread.enters _ _ = _
        simp [Thread.enters, Thread.exits, Thread.lockCount] at mutex ⊢
        omega
      · exact fun _ _ => rfl
      · simp [Thread.enters, Thread.lockCount] at sections ⊢
        omega
      · exact fun _ _ => rfl

theorem Inv.release (inv : Inv n s) (room : n + 1 < 2 ^ 31) (object : Obj)
    (idle : (s.threads t).pc = .idle) :
    ∃ u, s.release t object = some u ∧ Inv (n + 1) u := by
  unfold State.release
  cases found : s.cached t object with
  | some d =>
      obtain ⟨x, here, there, rfl⟩ := cached_some found
      obtain ⟨pos, below, used⟩ := inv.cached here there
      have most := inv.counted d x here
      have decremented : x.decrement.threadCount = x.threadCount - 1 :=
        int32_of_room (n := n) (by omega) (by omega) (by omega)
      have mutex := inv.mutex t d x here
      have sections := inv.sections t d x here
      rw [enters_of_idle idle] at mutex sections
      rw [exits_of_idle idle] at mutex
      have left_count : (if (s.threads t).lockCount d - 1 = 0 then none
          else some ((s.threads t).lockCount d - 1)).getD 0 = (s.threads t).lockCount d - 1 := by
        split_ifs with last
        · rw [last]
          rfl
        · rfl
      simp only [modify_eq_set here, if_neg (inv.not_buggy here there)]
      refine ⟨_, rfl, inv.set _ _ here ?_ ?_ ?_ ?_ ?_ ?_ ?_ ?_ ?_ ?_⟩
      · split_ifs <;> rfl
      · intro e ne
        simp [Function.update_of_ne ne, Thread.enters, Thread.exits, idle, Ne.symm ne]
      · intro e o pc
        cases pc
      · have now : (s.threads t).uses d = 1 := by simp [Thread.uses, pos]
        rw [now, Thread.uses, lockCount_update, left_count]
        by_cases last : (s.threads t).lockCount d - 1 = 0
        · simp [last, decremented]
        · simp [Nat.pos_of_ne_zero last]
          rw [if_neg last]
      · split_ifs with last
        · omega
        · omega
      · intro count item
        simp only [Function.update_self] at item
        split_ifs at item with last
        obtain rfl := Option.some.inj item
        omega
      · have same : (if (s.threads t).lockCount d - 1 = 0 then x.decrement else x).lockedBy t =
            x.lockedBy t := by split_ifs <;> rfl
        rw [same, lockCount_update, left_count]
        simp [Thread.enters, Thread.exits]
        omega
      · intro u _
        split_ifs <;> rfl
      · rw [lockCount_update, left_count]
        simp [Thread.enters]
        omega
      · intro o ne
        simp [Function.update_of_ne ne]
  | none =>
      cases walked : s.walk fun _ x => decide (x.object = object) with
      | some d =>
          obtain ⟨x, here, -⟩ := walk_some walked
          have incremented := inv.increment room here
          have kept := inv.set (t := t) x.increment (s.threads t) here rfl
            (fun _ _ => ⟨rfl, rfl, rfl⟩) (fun e o pc => by rw [idle] at pc; cases pc)
            (by simp [incremented]) (Int.le_of_eq incremented)
            (fun count item => by have := inv.items t d count item; omega)
            (inv.mutex t d x here) (fun _ _ => rfl) (inv.sections t d x here) (fun _ _ => rfl)
          exact ⟨_, rfl, by simpa [State.setThread, modify_eq_set here] using kept⟩
      | none => exact ⟨s, rfl, inv.later⟩

omit [DecidableEq Obj] [Fintype T] in
theorem lock_some (locked : x.lock t = some y) : y.object = x.object ∧
    y.threadCount = x.threadCount ∧
    y.lockedBy t = x.lockedBy t + 1 ∧ ∀ u, u ≠ t → y.lockedBy u = x.lockedBy u := by
  unfold SyncData.lock at locked
  cases owner : x.owner with
  | none =>
      rw [owner] at locked
      obtain rfl := Option.some.inj locked
      refine ⟨rfl, rfl, by simp [SyncData.lockedBy, owner], fun u ne => ?_⟩
      simp [SyncData.lockedBy, owner, Ne.symm ne]
  | some u =>
      rw [owner] at locked
      simp only [Option.ite_none_right_eq_some, Option.some.injEq] at locked
      obtain ⟨rfl, rfl⟩ := locked
      refine ⟨rfl, rfl, by simp [SyncData.lockedBy, owner], fun w ne => ?_⟩
      simp [SyncData.lockedBy, owner, Ne.symm ne]

omit [DecidableEq Obj] [Fintype T] in
/-- Unlocking a mutex that the thread has. -/
theorem tryUnlock_of_locked (locked : 0 < x.lockedBy t) : (x.tryUnlock t).object = x.object ∧
    (x.tryUnlock t).threadCount = x.threadCount ∧ (x.tryUnlock t).lockedBy t = x.lockedBy t - 1 ∧
      ∀ u, u ≠ t → (x.tryUnlock t).lockedBy u = x.lockedBy u := by
  unfold SyncData.lockedBy at locked
  split_ifs at locked with owner
  · unfold SyncData.tryUnlock
    rw [if_pos owner]
    split_ifs with last
    · refine ⟨rfl, rfl, by simp [SyncData.lockedBy, owner, last], fun u ne => ?_⟩
      simp [SyncData.lockedBy, owner, Ne.symm ne]
    · refine ⟨rfl, rfl, by simp [SyncData.lockedBy, owner], fun u ne => ?_⟩
      simp [SyncData.lockedBy, owner, Ne.symm ne]
  · exact absurd locked (Nat.lt_irrefl 0)

omit [DecidableEq Obj] in
/-- A thread in `objc_sync_exit` has the mutex it is about to unlock. -/
theorem Inv.exiting (inv : Inv n s) (pc : (s.threads t).pc = .exiting d) :
    ∃ x, s.datas[d]? = some x ∧ 0 < x.lockedBy t := by
  have exits : (s.threads t).exits d = 1 := by simp [Thread.exits, pc]
  have enters : (s.threads t).enters d = 0 := by simp [Thread.enters, pc]
  have within : d < s.datas.length := by
    by_contra far
    have := (inv.known t d (by omega)).2.2
    omega
  have here := List.getElem?_eq_getElem within
  have mutex := inv.mutex t d _ here
  exact ⟨_, here, by omega⟩

theorem Inv.step {e : Event Obj T} {u : State Obj T} {stripe : Obj → ℕ} (inv : Inv n s)
    (room : n + 1 < 2 ^ 31) (stepped : step stripe s e = some u) : Inv (n + 1) u := by
  cases e with
  | enter t object =>
      cases pc : (s.threads t).pc with
      | idle =>
          simp only [Synchronized.step, pc] at stepped
          obtain ⟨v, acquired, kept⟩ := inv.acquire room stripe object pc
          obtain rfl := Option.some.inj (acquired.symm.trans stepped)
          exact kept
      | _ => simp [Synchronized.step, pc] at stepped
  | exit t object =>
      cases pc : (s.threads t).pc with
      | idle =>
          simp only [Synchronized.step, pc] at stepped
          obtain ⟨v, released, kept⟩ := inv.release room object pc
          obtain rfl := Option.some.inj (released.symm.trans stepped)
          exact kept
      | _ => simp [Synchronized.step, pc] at stepped
  | mutex t =>
      cases pc : (s.threads t).pc with
      | idle => simp [Synchronized.step, pc] at stepped
      | entering d object =>
          simp only [Synchronized.step, pc] at stepped
          obtain ⟨x, here, mapped⟩ := Option.bind_eq_some_iff.mp stepped
          obtain ⟨y, locked, rfl⟩ := Option.map_eq_some_iff.mp mapped
          obtain ⟨same, users, mine, others⟩ := lock_some locked
          obtain ⟨x', here', rfl⟩ := inv.target t d object pc
          obtain rfl : x = x' := Option.some.inj (here.symm.trans here')
          have mutex := inv.mutex t d x here
          have sections := inv.sections t d x here
          rw [Thread.lockCount] at mutex sections
          have enters : (s.threads t).enters d = 1 := by simp [Thread.enters, pc]
          have exits : (s.threads t).exits d = 0 := by simp [Thread.exits, pc]
          refine inv.set _ _ here same ?_ ?_ ?_ ?_ ?_ ?_ others ?_ ?_
          · intro e ne
            simp [Thread.enters, Thread.exits, pc, Ne.symm ne]
          · intro e o other
            cases other
          · exact Int.le_of_eq (by rw [users]; rfl)
          · omega
          · intro count item
            have before := inv.items t d count item
            omega
          · simp only [Thread.enters, Thread.exits, Thread.lockCount]
            omega
          · simp only [Function.update_self, Thread.enters, Thread.lockCount]
            omega
          · intro o ne
            simp [Function.update_of_ne ne]
      | exiting d =>
          simp only [Synchronized.step, pc, Option.some.injEq] at stepped
          obtain ⟨x, here, has⟩ := inv.exiting pc
          obtain ⟨same, users, mine, others⟩ := tryUnlock_of_locked has
          have mutex := inv.mutex t d x here
          have sections := inv.sections t d x here
          rw [Thread.lockCount] at mutex sections
          have enters : (s.threads t).enters d = 0 := by simp [Thread.enters, pc]
          have exits : (s.threads t).exits d = 1 := by simp [Thread.exits, pc]
          rw [modify_eq_set here] at stepped
          rw [← stepped]
          refine inv.set _ _ here same ?_ ?_ ?_ ?_ ?_ ?_ others ?_ ?_
          · intro e ne
            simp [Thread.enters, Thread.exits, pc, Ne.symm ne]
          · intro e o other
            cases other
          · exact Int.le_of_eq (by rw [users]; rfl)
          · omega
          · intro count item
            have before := inv.items t d count item
            omega
          · simp only [Thread.enters, Thread.exits, Thread.lockCount]
            omega
          · simp only [Thread.enters, Thread.lockCount]
            omega
          · exact fun _ _ => rfl

omit [DecidableEq Obj] in
theorem Inv.start : Inv 0 (start : State Obj T) where
  objects d e x y there := by cases there
  users d x there := by cases there
  counted d x there := by cases there
  items t d count item := by cases item
  known t d _ := ⟨rfl, rfl, rfl⟩
  target t d object pc := by cases pc
  mutex t d x there := by cases there
  sections t d x there := by cases there
  somewhere t object pos := absurd pos (Nat.lt_irrefl 0)

omit [DecidableEq Obj] in
theorem Inv.inside (inv : Inv n s) (here : s.datas[d]? = some x)
    (pos : 0 < (s.threads t).sections x.object) : x.owner = some t := by
  have mutex := inv.mutex t d x here
  have sections := inv.sections t d x here
  by_contra other
  simp only [SyncData.lockedBy, if_neg other] at mutex
  omega

/-- A cache has an item for just the objects that its thread is inside of. -/
theorem Inv.cached_iff (inv : Inv n s) (idle : (s.threads t).pc = .idle) :
    (s.cached t object).isSome ↔ 0 < (s.threads t).sections object := by
  constructor
  · intro found
    obtain ⟨d, cached⟩ := Option.isSome_iff_exists.mp found
    obtain ⟨x, here, there, rfl⟩ := cached_some cached
    obtain ⟨pos, -, -⟩ := inv.cached here there
    have sections := inv.sections t d x here
    rw [enters_of_idle idle] at sections
    omega
  · intro inside
    obtain ⟨d, x, here, rfl⟩ := inv.somewhere t object inside
    have sections := inv.sections t d x here
    cases cached : s.cached t x.object with
    | some e => rfl
    | none =>
        rw [Thread.lockCount, cached_none cached here rfl] at sections
        simp at sections
        omega

/-- However the threads' steps are scheduled, and before a count of 32 bits can wrap: at most
    one thread is inside of `@synchronized` on an object, an exit finds the mutex of every block
    its thread is inside of and of no other, the mutex that an exit unlocks is always the
    thread's, and no check of `id2data` fails. -/
theorem synchronized_run (stripe : Obj → ℕ) (es : List (Event Obj T)) (few : es.length < 2 ^ 31)
    (run : (machine stripe).run start es = some s) :
    (∀ t u object, 0 < (s.threads t).sections object → 0 < (s.threads u).sections object → t = u) ∧
      (∀ t object, (s.threads t).pc = .idle →
        ((s.cached t object).isSome ↔ 0 < (s.threads t).sections object)) ∧
      (∀ t d, (s.threads t).pc = .exiting d → ∃ x, s.datas[d]? = some x ∧ x.owner = some t) ∧
      ∀ t object d, s.cached t object = some d → ¬ s.Buggy t d := by
  have inv : Inv es.length s := (machine stripe).run_counted
    (fun n _ _ _ room kept stepped => kept.step room stepped) run few .start
  refine ⟨?_, fun t object idle => inv.cached_iff idle, ?_, ?_⟩
  · intro t u object t_inside u_inside
    obtain ⟨d, x, here, rfl⟩ := inv.somewhere t object t_inside
    have first := inv.inside here t_inside
    have second := inv.inside here u_inside
    exact Option.some.inj (first.symm.trans second)
  · intro t d pc
    obtain ⟨x, here, has⟩ := inv.exiting pc
    refine ⟨x, here, ?_⟩
    by_contra other
    simp [SyncData.lockedBy, other] at has
  · intro t object d cached
    obtain ⟨x, here, there, -⟩ := cached_some cached
    exact inv.not_buggy here there

/-- The first thread has left object 7 but not unlocked its mutex when the second thread
    takes this over for object 8. -/
theorem synchronized_run_recycled :
    ∃ s : State ℕ (Fin 2), (machine fun _ => 0).run start
        [.enter 0 7, .mutex 0, .exit 0 7, .enter 1 8] = some s ∧
      (s.threads 0).pc = .exiting 0 ∧ (s.threads 1).pc = .entering 0 8 ∧
      (∀ t u object, 0 < (s.threads t).sections object →
        0 < (s.threads u).sections object → t = u) ∧
      (∀ t object, (s.threads t).pc = .idle →
        ((s.cached t object).isSome ↔ 0 < (s.threads t).sections object)) ∧
      (∀ t d, (s.threads t).pc = .exiting d → ∃ x, s.datas[d]? = some x ∧ x.owner = some t) ∧
      ∀ t object d, s.cached t object = some d → ¬ s.Buggy t d :=
  ⟨_, rfl, rfl, rfl, synchronized_run (fun _ => 0)
    [.enter 0 7, .mutex 0, .exit 0 7, .enter 1 8] (by decide) rfl⟩

end LearningProjects.ObjC.Synchronized
