import LearningProjects.Dispatch

/-! # Reference counts

An object's reference count is kept inline in its isa; what does not fit goes to the side
table, a half of the inline range at a time. Threads retain and release without a lock as
long as the inline count neither overflows nor underflows. One step here is one access to
memory by one thread, so what holds of every run holds for every scheduling. `half` stands
for `RC_HALF`: `extra_rc` has `2 * half` values.
-/

namespace LearningProjects.ObjC.RetainCount

/-- The fields of a nonpointer isa that count references. -/
structure Isa where
  extraRC : ℕ
  hasSidetableRC : Bool
  deriving DecidableEq, Repr

def Isa.isDeallocating (b : Isa) : Bool := b.extraRC = 0 && !b.hasSidetableRC

/-- Where a thread is in `rootRetain` or `rootRelease`. `old` is its `oldisa`, `full` that it
    runs the full variant, `locked` its `sideTableLocked`. -/
inductive Pc where
  | idle
  | retainLoad (full : Bool)
  | retainStore (old : Isa) (full locked : Bool)
  | retainLock (old : Isa)
  | retainAdd
  | retainUnlock
  | retained
  | releaseLoad (full locked : Bool)
  | releaseStore (old : Isa) (full locked : Bool)
  | releaseLock
  | releaseBorrow (old : Isa)
  | releaseFill (old : Isa) (remaining : ℕ)
  | releaseRefill (old : Isa) (remaining : ℕ)
  | releasePutBack
  | releaseClear (deallocating : Bool)
  | releaseUnlock
  | deallocate (locked : Bool)
  deriving DecidableEq, Repr

/-- Whether the call uses a reference of its caller: a retain until it has counted its own. -/
def Pc.borrows : Pc → Bool
  | .retainLoad _ | .retainStore _ _ _ | .retainLock _ => true
  | _ => false

/-- One object: its isa, its count in the side table, the lock of that table with the thread
    that holds it, the threads, the references that no call has taken over, and how often
    `dealloc` was sent. -/
structure State where
  isa : Isa
  side : Option ℕ
  lock : Option ℕ
  threads : List Pc
  owned : ℕ
  deallocs : ℕ
  deriving DecidableEq, Repr

/-- A thread retains through a reference that someone has, which other threads may use at the
    same time, and releases one that it has. -/
inductive Event where
  | retain (i : ℕ)
  | release (i : ℕ)
  | step (i : ℕ) (stores : Bool)
  deriving DecidableEq, Repr

/-- The first count of which the 64-bit entry is pinned. -/
def pinned : ℕ := 2 ^ 61

/-- `sidetable_addExtraRC_nolock`, with the count in the bits above the two flags. -/
def addExtraRC (side : Option ℕ) (delta : ℕ) : Option ℕ :=
  let old := side.getD 0
  if pinned ≤ old then some old
  else if 2 ^ 62 ≤ old + delta then some pinned
  else some (old + delta)

/-- `sidetable_subExtraRC_nolock`; nothing if there is nothing to borrow. -/
def subExtraRC (side : Option ℕ) (delta : ℕ) : Option ℕ :=
  match side with
  | none | some 0 => none
  | some old => some ((old + 2 ^ 62 - delta) % 2 ^ 62)

namespace State

def goto (s : State) (i : ℕ) (pc : Pc) : State := { s with threads := s.threads.set i pc }

/-- `StoreExclusive`, which may fail for no reason; it then gives the new `oldisa`. -/
def storeExclusive (s : State) (i : ℕ) (stores : Bool) (old new : Isa) (next : Pc)
    (retry : Isa → Pc) :
    State :=
  if stores = true ∧ s.isa = old then { s with isa := new, threads := s.threads.set i next }
  else s.goto i (retry s.isa)

def lockTable (s : State) (i : ℕ) (next : Pc) : Option State :=
  match s.lock with
  | none => some { s with lock := some i, threads := s.threads.set i next }
  | some _ => none

def unlockTable (s : State) (i : ℕ) (next : Pc) : State :=
  { s with lock := none, threads := s.threads.set i next }

/-- `rootRetainCount`, taken while no other thread is in a call. -/
def rootRetainCount (s : State) : ℕ :=
  s.isa.extraRC + if s.isa.hasSidetableRC then s.side.getD 0 else 0

end State

variable (half : ℕ)

/-- The loop of `rootRetain` after a load. -/
def retainStore (s : State) (i : ℕ) (stores : Bool) (old : Isa) (full locked : Bool) : State :=
  if old.isDeallocating then s.goto i (if locked then .retainUnlock else .retained)
  else if old.extraRC + 1 < 2 * half then
    s.storeExclusive i stores old { old with extraRC := old.extraRC + 1 }
      (if locked then .retainUnlock else .retained) (.retainStore · full locked)
  -- overflow: only the full variant moves a half of the count to the side table
  else if full = false then s.goto i (.retainLoad true)
  else if locked = false then s.goto i (.retainLock old)
  else s.storeExclusive i stores old ⟨half, true⟩ .retainAdd (.retainStore · full locked)

/-- The loop of `rootRelease` after a load. -/
def releaseStore (s : State) (i : ℕ) (stores : Bool) (old : Isa) (full locked : Bool) : State :=
  if old.isDeallocating then s.goto i (if locked then .releaseUnlock else .idle)
  else if 0 < old.extraRC then
    let new : Isa := { old with extraRC := old.extraRC - 1 }
    s.storeExclusive i stores old new
      (if new.isDeallocating then .deallocate locked else if locked then .releaseUnlock else .idle)
      (.releaseStore · full locked)
  -- underflow: only the full variant borrows from the side table
  else if full = false then s.goto i (.releaseLoad true false)
  else if locked = false then s.goto i .releaseLock
  else s.goto i (.releaseBorrow old)

/-- The thread goes on by one access to memory. -/
def advance (s : State) (i : ℕ) (stores : Bool) : Pc → Option State
  | .idle => none
  | .retainLoad full => some (s.goto i (.retainStore s.isa full false))
  | .retainStore old full locked => some (retainStore half s i stores old full locked)
  | .retainLock old => s.lockTable i (.retainStore old true true)
  | .retainAdd => some { s.goto i .retainUnlock with side := addExtraRC s.side half }
  | .retainUnlock => some (s.unlockTable i .retained)
  | .retained => some { s.goto i .idle with owned := s.owned + 1 }
  | .releaseLoad full locked => some (s.goto i (.releaseStore s.isa full locked))
  | .releaseStore old full locked => some (releaseStore s i stores old full locked)
  | .releaseLock => s.lockTable i (.releaseLoad true true)
  | .releaseBorrow old =>
      match subExtraRC s.side half with
      -- the side table is empty after all
      | none => some (s.goto i (.deallocate true))
      | some remaining => some { s.goto i (.releaseFill old remaining) with side := some remaining }
  | .releaseFill old remaining =>
      some (s.storeExclusive i stores old ⟨half - 1, decide (remaining ≠ 0)⟩
        (if remaining = 0 then .releaseClear false else .releaseUnlock)
        (.releaseRefill · remaining))
  | .releaseRefill old remaining =>
      -- the first store failed: once more, on top of what the isa is now
      let new : Isa := ⟨old.extraRC + (half - 1), decide (remaining ≠ 0)⟩
      if new.extraRC < 2 * half then
        some (s.storeExclusive i stores old new
          (if remaining = 0 then .releaseClear new.isDeallocating
            else if new.isDeallocating then .deallocate true else .releaseUnlock)
          fun _ => .releasePutBack)
      else some (s.goto i .releasePutBack)
  | .releasePutBack => some { s.goto i (.releaseLoad true true)
      with side := addExtraRC s.side half }
  | .releaseClear deallocating =>
      some { s.goto i (if deallocating then .deallocate true else .releaseUnlock)
        with side := none }
  | .releaseUnlock => some (s.unlockTable i .idle)
  | .deallocate true => some (s.unlockTable i (.deallocate false))
  | .deallocate false => some { s.goto i .idle with deallocs := s.deallocs + 1 }

/-- The last reference is not released while a retain uses it. -/
def step (s : State) : Event → Option State
  | .retain i =>
      if s.threads[i]? = some .idle ∧ 0 < s.owned then some (s.goto i (.retainLoad false)) else none
  | .release i =>
      if s.threads[i]? = some .idle ∧ 0 < s.owned ∧
          (1 < s.owned ∨ ∀ pc ∈ s.threads, pc.borrows = false) then
        some { s.goto i (.releaseLoad false false) with owned := s.owned - 1 }
      else none
  | .step i stores => (s.threads[i]?).bind (advance half s i stores)

def machine : Machine State Event := ⟨step half⟩

/-- A new object, with the one reference that `alloc` gives. -/
def start (threads : ℕ) : State := ⟨⟨1, false⟩, none, none, List.replicate threads .idle, 1, 0⟩

namespace Pc

/-- The references a call has taken over from its caller or made for it. -/
def weight : Pc → ℕ
  | .retainAdd | .retainUnlock | .retained | .releaseLoad _ _ | .releaseStore _ _ _ | .releaseLock
  | .releaseBorrow _ | .releaseFill _ _ | .releaseRefill _ _ | .releasePutBack => 1
  | .idle | .retainLoad _ | .retainStore _ _ _ | .retainLock _ | .releaseClear _ | .releaseUnlock
  | .deallocate _ => 0

/-- What a call has taken from one of the two counts and not yet added to the other. -/
def inFlight : Pc → ℕ
  | .retainAdd | .releaseFill _ _ | .releaseRefill _ _ | .releasePutBack => half
  | _ => 0

/-- Whether the thread has the side table's lock. -/
def holds : Pc → Bool
  | .retainStore _ _ locked | .releaseLoad _ locked | .releaseStore _ _ locked
      | .deallocate locked => locked
  | .retainAdd | .retainUnlock | .releaseBorrow _ | .releaseFill _ _ | .releaseRefill _ _
      | .releasePutBack
  | .releaseClear _ | .releaseUnlock => true
  | _ => false

/-- 1 if the thread is about to send `dealloc`. -/
def sends : Pc → ℕ
  | .deallocate _ => 1
  | _ => 0

/-- What a call knows; only with the lock does it know anything of the present counts. -/
def Ok (isa : Isa) (side : Option ℕ) : Pc → Prop
  | .retainStore old full locked =>
      old.isDeallocating = false ∧ old.extraRC < 2 * half ∧ (locked = true → full = true)
  | .retainLock old => old.isDeallocating = false ∧ old.extraRC < 2 * half
  | .releaseLoad full locked => locked = true → full = true
  | .releaseStore old full locked =>
      old.isDeallocating = false ∧ old.extraRC < 2 * half ∧ (locked = true → full = true) ∧
        (locked = true → old.hasSidetableRC = isa.hasSidetableRC)
  | .releaseBorrow old => old.extraRC = 0 ∧ isa.hasSidetableRC = true
  | .releaseFill old remaining => old.extraRC = 0 ∧ side = some remaining
  | .releaseRefill _ remaining => side = some remaining
  | .releaseClear deallocating => side = some 0 ∧ deallocating = false
  | _ => True

end Pc

/-- All references there are, in the callers' hands or in calls. -/
def State.total (s : State) : ℕ := s.owned + (s.threads.map Pc.weight).sum

structure Inv (s : State) : Prop where
  range : s.isa.extraRC < 2 * half
  count : s.isa.extraRC + s.side.getD 0 + (s.threads.map (Pc.inFlight half)).sum = s.total
  halves : half ∣ s.side.getD 0
  flag : s.isa.hasSidetableRC = true ↔ 0 < s.side.getD 0 + (s.threads.map (Pc.inFlight half)).sum
  locked : ∀ (i : ℕ) (pc : Pc), s.threads[i]? = some pc → (pc.holds = true ↔ s.lock = some i)
  holder : ∀ i, s.lock = some i → i < s.threads.length
  ok : ∀ (i : ℕ) (pc : Pc), s.threads[i]? = some pc → pc.Ok half s.isa s.side
  sent : s.deallocs + (s.threads.map Pc.sends).sum = if s.isa.isDeallocating then 1 else 0

/-- What a retain uses is there. -/
def Lent (s : State) : Prop := (∃ pc ∈ s.threads, pc.borrows = true) → 0 < s.owned

variable {half} {s : State} {i : ℕ} {pc next : Pc}

/-- A reference keeps the object alive. -/
theorem Inv.alive_of_total (inv : Inv half s) (pos : 0 < s.total) :
    s.isa.isDeallocating = false := by
  have count := inv.count
  cases flag : s.isa.hasSidetableRC with
  | true => simp [Isa.isDeallocating, flag]
  | false =>
      have empty := inv.flag.not.mp (by simp [flag])
      have inline : s.isa.extraRC ≠ 0 := by omega
      simp [Isa.isDeallocating, inline]

/-- A call that has a reference keeps the object alive. -/
theorem Inv.alive (inv : Inv half s) (here : s.threads[i]? = some pc) (uses : 0 < pc.weight) :
    s.isa.isDeallocating = false := by
  have member : pc.weight ∈ s.threads.map Pc.weight :=
    List.mem_map_of_mem (List.mem_of_getElem? here)
  have most := List.le_sum_of_mem member
  exact inv.alive_of_total (Nat.lt_of_lt_of_le uses (Nat.le_trans most (Nat.le_add_left _ _)))

/-- So does the reference that a call uses. -/
theorem Inv.alive_of_lent (inv : Inv half s) (lent : Lent s) (here : s.threads[i]? = some pc)
    (borrows : pc.borrows = true) : s.isa.isDeallocating = false := by
  have owned := lent ⟨pc, List.mem_of_getElem? here, borrows⟩
  exact inv.alive_of_total (Nat.lt_of_lt_of_le owned (Nat.le_add_right _ _))

/-! ### References that are lent -/

theorem Lent.set {u : State} (lent : Lent s) (here : s.threads[i]? = some pc)
    (threads : u.threads = s.threads.set i next) (borrows : next.borrows = true → pc.borrows = true)
    (owned : s.owned ≤ u.owned) : Lent u := by
  rintro ⟨other, member, other_borrows⟩
  rw [threads] at member
  refine Nat.lt_of_lt_of_le (lent ?_) owned
  cases List.mem_or_eq_of_mem_set member with
  | inl old => exact ⟨other, old, other_borrows⟩
  | inr own => exact ⟨pc, List.mem_of_getElem? here, borrows (own ▸ other_borrows)⟩

theorem Lent.storeExclusive {stores : Bool} {old new : Isa} {retry : Isa → Pc} (lent : Lent s)
    (here : s.threads[i]? = some pc) (borrows : next.borrows = true → pc.borrows = true)
    (again : (retry s.isa).borrows = true → pc.borrows = true) :
    Lent (s.storeExclusive i stores old new next retry) := by
  unfold State.storeExclusive
  split_ifs
  · exact lent.set here rfl borrows (Nat.le_refl _)
  · exact lent.set here rfl again (Nat.le_refl _)

theorem Lent.lockTable {u : State} (lent : Lent s) (here : s.threads[i]? = some pc)
    (locked : s.lockTable i next = some u) (borrows : next.borrows = true → pc.borrows = true) :
    Lent u := by
  unfold State.lockTable at locked
  cases free : s.lock with
  | some j =>
      rw [free] at locked
      cases locked
  | none =>
      rw [free] at locked
      obtain rfl := Option.some.inj locked
      exact lent.set here rfl borrows (Nat.le_refl _)

/-- No access to memory makes a call use a reference, or takes one away. -/
theorem Lent.advance {u : State} {stores : Bool} (lent : Lent s) (here : s.threads[i]? = some pc)
    (stepped : advance half s i stores pc = some u) : Lent u := by
  have goto (next : Pc) (borrows : next.borrows = true → pc.borrows = true) :
      Lent (s.goto i next) := lent.set here rfl borrows (Nat.le_refl _)
  cases pc with
  | idle => cases stepped
  | retainLoad full =>
      obtain rfl := Option.some.inj stepped
      exact goto _ fun _ => rfl
  | retainStore old full locked =>
      obtain rfl := Option.some.inj stepped
      unfold RetainCount.retainStore
      split_ifs
      all_goals first
        | exact goto _ fun _ => rfl
        | exact lent.storeExclusive here (fun _ => rfl) fun _ => rfl
  | retainLock old => exact lent.lockTable here stepped fun _ => rfl
  | retained =>
      obtain rfl := Option.some.inj stepped
      exact lent.set here rfl nofun (Nat.le_succ _)
  | retainAdd | retainUnlock | releasePutBack | releaseUnlock =>
      obtain rfl := Option.some.inj stepped
      exact lent.set here rfl nofun (Nat.le_refl _)
  | releaseLoad full locked =>
      obtain rfl := Option.some.inj stepped
      exact goto _ nofun
  | releaseStore old full locked =>
      obtain rfl := Option.some.inj stepped
      unfold RetainCount.releaseStore
      split_ifs
      all_goals first
        | exact goto _ nofun
        | exact lent.storeExclusive here (by split_ifs <;> simp [Pc.borrows]) nofun
  | releaseLock => exact lent.lockTable here stepped nofun
  | releaseBorrow old =>
      simp only [RetainCount.advance] at stepped
      cases borrowed : subExtraRC s.side half with
      | none =>
          rw [borrowed] at stepped
          obtain rfl := Option.some.inj stepped
          exact goto _ nofun
      | some remaining =>
          rw [borrowed] at stepped
          obtain rfl := Option.some.inj stepped
          exact lent.set here rfl nofun (Nat.le_refl _)
  | releaseFill old remaining =>
      obtain rfl := Option.some.inj stepped
      split_ifs <;> exact lent.storeExclusive here nofun nofun
  | releaseRefill old remaining =>
      simp only [RetainCount.advance] at stepped
      split_ifs at stepped <;> obtain rfl := Option.some.inj stepped
      all_goals first
        | exact goto _ nofun
        | exact lent.storeExclusive here nofun nofun
  | releaseClear deallocating =>
      obtain rfl := Option.some.inj stepped
      split_ifs <;> exact lent.set here rfl nofun (Nat.le_refl _)
  | deallocate locked =>
      cases locked <;> obtain rfl := Option.some.inj stepped <;>
        exact lent.set here rfl nofun (Nat.le_refl _)

theorem Lent.step {u : State} {e : Event} (lent : Lent s) (stepped : step half s e = some u) :
    Lent u := by
  cases e with
  | retain i =>
      obtain ⟨⟨-, owned⟩, begun⟩ := Option.ite_none_right_eq_some.mp stepped
      obtain rfl := Option.some.inj begun
      exact fun _ => owned
  | release i =>
      obtain ⟨⟨-, -, spare⟩, begun⟩ := Option.ite_none_right_eq_some.mp stepped
      obtain rfl := Option.some.inj begun
      rintro ⟨pc, member, borrows⟩
      rcases spare with more | nobody
      · exact Nat.sub_pos_of_lt more
      · cases List.mem_or_eq_of_mem_set member with
        | inl old =>
            rw [nobody pc old] at borrows
            cases borrows
        | inr own =>
            subst own
            cases borrows
  | step i stores =>
      obtain ⟨pc, here, advanced⟩ := Option.bind_eq_some_iff.mp stepped
      exact lent.advance here advanced

/-! ### The counts -/

/-- What a call knows without the lock stays true. -/
theorem Pc.Ok.unlocked {isa isa' : Isa} {side side' : Option ℕ} (ok : pc.Ok half isa side)
    (free : pc.holds = false) : pc.Ok half isa' side' := by
  cases pc with
  | releaseStore old full locked =>
      exact ⟨ok.1, ok.2.1, ok.2.2.1, fun held => by simp_all [Pc.holds]⟩
  | releaseBorrow | releaseFill | releaseRefill | releaseClear => cases free
  | _ => exact ok

/-- Of the isa only the flag matters to the others. -/
theorem Pc.Ok.inline {isa isa' : Isa} {side : Option ℕ} (ok : pc.Ok half isa side)
    (same : isa'.hasSidetableRC = isa.hasSidetableRC) : pc.Ok half isa' side := by
  cases pc with
  | releaseStore old full locked =>
      exact ⟨ok.1, ok.2.1, ok.2.2.1, fun held => (ok.2.2.2 held).trans same.symm⟩
  | releaseBorrow old => exact ⟨ok.1, same.trans ok.2⟩
  | _ => exact ok

theorem Pc.inFlight_of_free (free : pc.holds = false) : pc.inFlight half = 0 := by
  cases pc with
  | retainAdd | releaseFill | releaseRefill | releasePutBack => cases free
  | _ => rfl

/-- Nobody else has the lock when this thread has it. -/
theorem Inv.alone {j : ℕ} {other : Pc} (inv : Inv half s) (here : s.threads[i]? = some pc)
    (held : pc.holds = true) (ne : j ≠ i) (there : s.threads[j]? = some other) :
      other.holds = false := by
  have mine := (inv.locked i pc here).mp held
  cases theirs : other.holds with
  | false => rfl
  | true =>
      have same := (inv.locked j other there).mp theirs
      rw [mine] at same
      exact absurd (Option.some.inj same).symm ne

/-- Only the thread with the lock is between the two counts. -/
theorem Inv.flight_of_holds (inv : Inv half s) (here : s.threads[i]? = some pc)
    (held : pc.holds = true) :
    (s.threads.map (Pc.inFlight half)).sum = pc.inFlight half := by
  have rest := Dispatch.Program.sum_map_set (Pc.inFlight half) (b := Pc.idle) here
  have none_left : ((s.threads.set i .idle).map (Pc.inFlight half)).sum = 0 := by
    apply List.sum_eq_zero
    intro x there
    obtain ⟨other, member, rfl⟩ := List.mem_map.mp there
    obtain ⟨j, at_j⟩ := List.mem_iff_getElem?.mp member
    by_cases same : j = i
    · subst same
      rw [List.getElem?_set_self', here] at at_j
      obtain rfl := Option.some.inj at_j
      rfl
    · rw [List.getElem?_set_ne (Ne.symm same)] at at_j
      exact Pc.inFlight_of_free (inv.alone here held same at_j)
  have idle : Pc.idle.inFlight half = 0 := rfl
  omega

/-- One thread goes on. It changes the flag of the isa and the count of the side table only
    if it holds the lock, and then nobody else is between the two counts. -/
theorem Inv.set (inv : Inv half s) (u : State) (next : Pc) (here : s.threads[i]? = some pc)
    (threads : u.threads = s.threads.set i next) (range : u.isa.extraRC < 2 * half)
    (count : u.isa.extraRC + u.side.getD 0 + next.inFlight half + (s.owned + pc.weight) =
      s.isa.extraRC + s.side.getD 0 + pc.inFlight half + (u.owned + next.weight))
    (halves : half ∣ u.side.getD 0)
    (flag : u.isa.hasSidetableRC = s.isa.hasSidetableRC ∧ u.side = s.side ∧
        next.inFlight half = pc.inFlight half ∨
      pc.holds = true ∧ (u.isa.hasSidetableRC = true ↔ 0 < u.side.getD 0 + next.inFlight half))
    (lock : u.lock = s.lock ∧ next.holds = pc.holds ∨
      s.lock = none ∧ u.lock = some i ∧ next.holds = true ∨
      pc.holds = true ∧ u.lock = none ∧ next.holds = false)
    (ok : next.Ok half u.isa u.side)
    (sent : u.deallocs + next.sends + (if s.isa.isDeallocating then 1 else 0) =
      s.deallocs + pc.sends + if u.isa.isDeallocating then 1 else 0)
    (grows : u.owned + next.weight ≤ s.owned + pc.weight + 1) :
    Inv half u ∧ u.total ≤ s.total + 1 := by
  have weights := Dispatch.Program.sum_map_set Pc.weight (b := next) here
  have flights := Dispatch.Program.sum_map_set (Pc.inFlight half) (b := next) here
  have sendings := Dispatch.Program.sum_map_set Pc.sends (b := next) here
  rw [← threads] at weights flights sendings
  have now : u.threads[i]? = some next := by
    rw [threads, List.getElem?_set_self']
    simp [here]
  have other : ∀ (j : ℕ) (other : Pc), j ≠ i → u.threads[j]? = some other →
      s.threads[j]? = some other := by
    intro j other ne there
    rwa [threads, List.getElem?_set_ne (Ne.symm ne)] at there
  have holder := inv.locked i pc here
  have alone : ∀ (j : ℕ) (other : Pc), j ≠ i → s.threads[j]? = some other → pc.holds = true →
      other.holds = false := fun j other ne there held => inv.alone here held ne there
  have nobody := inv.flight_of_holds here
  have total := inv.count
  unfold State.total at total ⊢
  refine ⟨⟨range, ?_, halves, ?_, ?_, ?_, ?_, ?_⟩, ?_⟩
  · unfold State.total
    omega
  · have before := inv.flag
    rcases flag with ⟨same_flag, same_side, same_flight⟩ | ⟨held, now_flag⟩
    · rw [same_flag, same_side, before]
      omega
    · have := nobody held
      rw [now_flag]
      omega
  · intro j theirs there
    by_cases same : j = i
    · subst same
      obtain rfl : next = theirs := Option.some.inj (now.symm.trans there)
      rcases lock with ⟨kept, held⟩ | ⟨-, taken, held⟩ | ⟨-, freed, held⟩
      · rw [kept, held]
        exact holder
      · simp [taken, held]
      · simp [freed, held]
    · have before := other j theirs same there
      rcases lock with ⟨kept, -⟩ | ⟨free, taken, -⟩ | ⟨held, freed, -⟩
      · rw [kept]
        exact inv.locked j theirs before
      · rw [inv.locked j theirs before, free, taken]
        simpa using Ne.symm same
      · simp [freed, alone j theirs same before held]
  · intro j held
    rw [threads, List.length_set]
    rcases lock with ⟨kept, -⟩ | ⟨-, taken, -⟩ | ⟨-, freed, -⟩
    · exact inv.holder j (kept ▸ held)
    · obtain rfl : i = j := Option.some.inj (taken.symm.trans held)
      exact (List.getElem?_eq_some_iff.mp here).1
    · rw [freed] at held
      cases held
  · intro j theirs there
    by_cases same : j = i
    · subst same
      obtain rfl : next = theirs := Option.some.inj (now.symm.trans there)
      exact ok
    · have before := other j theirs same there
      rcases flag with ⟨same_flag, same_side, -⟩ | ⟨held, -⟩
      · rw [same_side]
        exact (inv.ok j theirs before).inline same_flag
      · exact (inv.ok j theirs before).unlocked (alone j theirs same before held)
  · have := inv.sent
    omega
  · omega

/-- A thread goes on to a place where it has and knows the same. -/
theorem Inv.goto (inv : Inv half s) (here : s.threads[i]? = some pc)
    (weight : next.weight = pc.weight) (flight : next.inFlight half = pc.inFlight half)
    (holds : next.holds = pc.holds)
    (sends : next.sends = pc.sends) (ok : next.Ok half s.isa s.side) :
    Inv half (s.goto i next) ∧ (s.goto i next).total ≤ s.total + 1 := by
  apply inv.set (s.goto i next) next here rfl inv.range _ inv.halves (.inl ⟨rfl, rfl, flight⟩)
    (.inl ⟨rfl, holds⟩) ok
  · rw [sends]
    rfl
  · simp only [State.goto, weight]
    omega
  · simp only [State.goto, weight, flight]

/-- A store to a live object. -/
theorem Inv.storeExclusive {stores : Bool} {old new : Isa} {retry : Isa → Pc} (inv : Inv half s)
    (here : s.threads[i]? = some pc) (alive : s.isa.isDeallocating = false) (sends : pc.sends = 0)
    (again : Inv half (s.goto i (retry s.isa)) ∧ (s.goto i (retry s.isa)).total ≤ s.total + 1)
    (range : new.extraRC < 2 * half)
    (count : new.extraRC + next.inFlight half + pc.weight =
      old.extraRC + pc.inFlight half + next.weight)
    (most : next.weight ≤ pc.weight + 1)
    (flag : new.hasSidetableRC = old.hasSidetableRC ∧ next.inFlight half = pc.inFlight half ∨
      pc.holds = true ∧ (new.hasSidetableRC = true ↔ 0 < s.side.getD 0 + next.inFlight half))
    (holds : next.holds = pc.holds) (ok : next.Ok half new s.side)
    (sent : next.sends = if new.isDeallocating then 1 else 0) :
    Inv half (s.storeExclusive i stores old new next retry) ∧
      (s.storeExclusive i stores old new next retry).total ≤ s.total + 1 := by
  unfold State.storeExclusive
  split_ifs with stored
  · obtain ⟨-, rfl⟩ := stored
    apply inv.set { s with isa := new, threads := s.threads.set i next } next here rfl range _
      inv.halves _ (.inl ⟨rfl, holds⟩) ok
    · simp [alive, sends, sent]
    · simp only []
      omega
    · simp only []
      omega
    · rcases flag with ⟨same, flight⟩ | changed
      · exact .inl ⟨same, rfl, flight⟩
      · exact .inr changed
  · exact again

theorem Inv.retainStore {stores full locked : Bool} {old : Isa} (wide : 1 < half) (inv : Inv half s)
    (lent : Lent s) (here : s.threads[i]? = some (.retainStore old full locked)) :
    Inv half (retainStore half s i stores old full locked) ∧
      (RetainCount.retainStore half s i stores old full locked).total ≤ s.total + 1 := by
  obtain ⟨live, small, needs⟩ := inv.ok i _ here
  have alive := inv.alive_of_lent lent here rfl
  unfold RetainCount.retainStore
  rw [if_neg (by simp [live])]
  have again : Inv half (s.goto i (.retainStore s.isa full locked)) ∧
      (s.goto i (.retainStore s.isa full locked)).total ≤ s.total + 1 :=
    inv.goto here rfl rfl rfl rfl ⟨alive, inv.range, needs⟩
  by_cases room : old.extraRC + 1 < 2 * half
  · rw [if_pos room]
    apply inv.storeExclusive here alive rfl again room
    all_goals cases locked <;> simp [Pc.inFlight, Pc.weight, Pc.holds, Pc.Ok, Pc.sends,
      Isa.isDeallocating]
  rw [if_neg room]
  by_cases short : full = false
  · rw [if_pos short]
    exact inv.goto here rfl rfl (by cases locked <;> simp_all [Pc.holds]) rfl trivial
  rw [if_neg short]
  cases locked with
  | false => exact inv.goto here rfl rfl rfl rfl ⟨live, small⟩
  | true =>
      rw [if_neg (by simp)]
      apply inv.storeExclusive here alive rfl again
      all_goals simp [Pc.inFlight, Pc.weight, Pc.holds, Pc.Ok, Pc.sends, Isa.isDeallocating]
      all_goals omega

theorem Inv.releaseStore {stores full locked : Bool} {old : Isa} (inv : Inv half s)
    (here : s.threads[i]? = some (.releaseStore old full locked)) :
    Inv half (releaseStore s i stores old full locked) ∧
      (RetainCount.releaseStore s i stores old full locked).total ≤ s.total + 1 := by
  obtain ⟨live, small, needs, fresh⟩ := inv.ok i _ here
  have alive := inv.alive here Nat.one_pos
  unfold RetainCount.releaseStore
  rw [if_neg (by simp [live])]
  by_cases more : 0 < old.extraRC
  · rw [if_pos more]
    have again : Inv half (s.goto i (.releaseStore s.isa full locked)) ∧
        (s.goto i (.releaseStore s.isa full locked)).total ≤ s.total + 1 :=
      inv.goto here rfl rfl rfl rfl ⟨alive, inv.range, needs, fun _ => rfl⟩
    cases last : Isa.isDeallocating { old with extraRC := old.extraRC - 1 } with
    | true =>
        apply inv.storeExclusive here alive rfl again
        all_goals simp [last, Pc.inFlight, Pc.weight, Pc.holds, Pc.Ok, Pc.sends]
        all_goals omega
    | false =>
        apply inv.storeExclusive here alive rfl again
        all_goals cases locked <;> simp [last, Pc.inFlight, Pc.weight, Pc.holds, Pc.Ok, Pc.sends]
        all_goals omega
  rw [if_neg more]
  by_cases short : full = false
  · rw [if_pos short]
    exact inv.goto here rfl rfl (by cases locked <;> simp_all [Pc.holds]) rfl nofun
  rw [if_neg short]
  cases locked with
  | false => exact inv.goto here rfl rfl rfl rfl trivial
  | true =>
      rw [if_neg (by simp)]
      have none_left : old.extraRC = 0 := by omega
      have flag : s.isa.hasSidetableRC = true := by
        rw [← fresh rfl]
        simpa [Isa.isDeallocating, none_left] using live
      exact inv.goto here rfl rfl rfl rfl ⟨none_left, flag⟩

theorem Inv.inFlight_le (inv : Inv half s) (here : s.threads[i]? = some pc) :
    s.side.getD 0 + pc.inFlight half ≤ s.total := by
  have member : pc.inFlight half ∈ s.threads.map (Pc.inFlight half) :=
    List.mem_map_of_mem (List.mem_of_getElem? here)
  have most := List.le_sum_of_mem member
  have count := inv.count
  omega

/-- What is in flight is all that the side table lacks, for the thread that has the lock. -/
theorem Inv.side_pos (inv : Inv half s) (here : s.threads[i]? = some pc) (held : pc.holds = true)
    (flag : s.isa.hasSidetableRC = true) (flight : pc.inFlight half = 0) : 0 < s.side.getD 0 := by
  have alone := inv.flight_of_holds here held
  have := inv.flag.mp flag
  omega

/-- Below the bound, nothing gets lost in the side table's entry. -/
theorem addExtraRC_eq {side : Option ℕ} (small : side.getD 0 + half ≤ pinned) (pos : 0 < half) :
    addExtraRC side half = some (side.getD 0 + half) := by
  unfold pinned at small
  unfold addExtraRC pinned
  rw [if_neg (by omega), if_neg (by omega)]

theorem subExtraRC_eq {side : Option ℕ} (pos : 0 < side.getD 0) (halves : half ∣ side.getD 0)
    (small : side.getD 0 ≤ pinned) : subExtraRC side half = some (side.getD 0 - half) := by
  have enough := Nat.le_of_dvd pos halves
  cases side with
  | none => cases pos
  | some c =>
      cases c with
      | zero => cases pos
      | succ c =>
          unfold pinned at small
          simp only [Option.getD_some] at *
          simp only [subExtraRC, Option.some.injEq]
          omega

theorem Inv.lockTable {s' : State} (inv : Inv half s) (here : s.threads[i]? = some pc)
    (locked : s.lockTable i next = some s') (weight : next.weight = pc.weight)
    (flight : next.inFlight half = pc.inFlight half) (holds : next.holds = true)
    (sends : next.sends = pc.sends) (ok : next.Ok half s.isa s.side) :
    Inv half s' ∧ s'.total ≤ s.total + 1 := by
  unfold State.lockTable at locked
  cases free : s.lock with
  | some j =>
      rw [free] at locked
      cases locked
  | none =>
      rw [free] at locked
      obtain rfl := Option.some.inj locked
      apply inv.set { s with lock := some i, threads := s.threads.set i next } next here rfl
        inv.range _ inv.halves (.inl ⟨rfl, rfl, flight⟩) (.inr (.inl ⟨free, rfl, holds⟩)) ok
      · rw [sends]
      · simp only [weight]
        omega
      · simp only [weight, flight]

theorem Inv.unlockTable (inv : Inv half s) (here : s.threads[i]? = some pc) (held : pc.holds = true)
    (weight : next.weight = pc.weight) (flight : next.inFlight half = pc.inFlight half)
    (holds : next.holds = false) (sends : next.sends = pc.sends) (ok : next.Ok half s.isa s.side) :
    Inv half (s.unlockTable i next) ∧ (s.unlockTable i next).total ≤ s.total + 1 := by
  apply inv.set (s.unlockTable i next) next here rfl inv.range _ inv.halves
    (.inl ⟨rfl, rfl, flight⟩) (.inr (.inr ⟨held, rfl, holds⟩)) ok
  · rw [sends]
    rfl
  · simp only [State.unlockTable, weight]
    omega
  · simp only [State.unlockTable, weight, flight]

/-- The half that a thread carries goes to the side table. -/
theorem Inv.putBack (wide : 1 < half) (inv : Inv half s) (few : s.total ≤ pinned)
    (here : s.threads[i]? = some pc) (carries : pc.inFlight half = half)
    (flight : next.inFlight half = 0) (weight : next.weight = pc.weight) (held : pc.holds = true)
    (holds : next.holds = true) (sends : next.sends = pc.sends)
    (ok : ∀ side, next.Ok half s.isa side) :
    Inv half { s.goto i next with side := addExtraRC s.side half } ∧
      State.total { s.goto i next with side := addExtraRC s.side half } ≤ s.total + 1 := by
  have bound := inv.inFlight_le here
  have alone := inv.flight_of_holds here held
  have flag := inv.flag
  rw [carries] at bound alone
  rw [addExtraRC_eq (Nat.le_trans bound few) (Nat.lt_of_succ_lt wide)]
  refine inv.set _ next here rfl inv.range ?_ ?_ (.inr ⟨held, ?_⟩)
    (.inl ⟨rfl, holds.trans held.symm⟩) (ok _) ?_ ?_
  · simp only [State.goto, Option.getD_some, carries, flight, weight]
    omega
  · exact Nat.dvd_add inv.halves (Nat.dvd_refl half)
  · simp only [State.goto, Option.getD_some, flight, flag, alone, Nat.add_zero]
  · rw [sends]
    rfl
  · simp only [State.goto, weight]
    omega

/-- The side table, which is not empty then, lends a half. -/
theorem Inv.releaseBorrow {u : State} {stores : Bool} {old : Isa} (inv : Inv half s)
    (few : s.total ≤ pinned) (here : s.threads[i]? = some (.releaseBorrow old))
    (stepped : advance half s i stores (.releaseBorrow old) = some u) :
    Inv half u ∧ u.total ≤ s.total + 1 := by
  have bound := inv.inFlight_le here
  have ok := inv.ok i _ here
  have pos := inv.side_pos here rfl ok.2 rfl
  have within : s.side.getD 0 ≤ pinned := Nat.le_trans (Nat.le_of_add_right_le bound) few
  have enough := Nat.le_of_dvd pos inv.halves
  have lent := subExtraRC_eq pos inv.halves within
  simp only [advance, lent] at stepped
  obtain rfl := Option.some.inj stepped
  refine inv.set _ (.releaseFill old (s.side.getD 0 - half)) here rfl inv.range ?_ ?_
    (.inr ⟨rfl, ?_⟩) (.inl ⟨rfl, rfl⟩) ⟨ok.1, rfl⟩ rfl ?_
  all_goals simp only [State.goto, Option.getD_some, Pc.inFlight, Pc.weight]
  · omega
  · exact Nat.dvd_sub inv.halves (Nat.dvd_refl half)
  · rw [ok.2]
    simp only [true_iff]
    omega
  · omega

/-- The first store of what the side table lent, less the reference that goes. -/
theorem Inv.releaseFill {u : State} {stores : Bool} {old : Isa} {remaining : ℕ} (wide : 1 < half)
    (inv : Inv half s) (here : s.threads[i]? = some (.releaseFill old remaining))
    (stepped : advance half s i stores (.releaseFill old remaining) = some u) :
    Inv half u ∧ u.total ≤ s.total + 1 := by
  have ok := inv.ok i _ here
  have alive := inv.alive here Nat.one_pos
  have again : Inv half (s.goto i (.releaseRefill s.isa remaining)) ∧
      (s.goto i (.releaseRefill s.isa remaining)).total ≤ s.total + 1 :=
    inv.goto here rfl rfl rfl rfl ok.2
  have inline : half - 1 ≠ 0 := by omega
  obtain rfl := Option.some.inj stepped
  by_cases empty : remaining = 0
  · rw [if_pos empty]
    apply inv.storeExclusive here alive rfl again
    all_goals simp [Pc.inFlight, Pc.weight, Pc.holds, Pc.Ok, Pc.sends, Isa.isDeallocating,
      ok.1, ok.2, empty, inline]
    all_goals omega
  · rw [if_neg empty]
    apply inv.storeExclusive here alive rfl again
    all_goals simp [Pc.inFlight, Pc.weight, Pc.holds, Pc.Ok, Pc.sends, Isa.isDeallocating,
      ok.1, ok.2, empty]
    all_goals omega

/-- The second store adds to what retains have put there since; it may have no room. -/
theorem Inv.releaseRefill {u : State} {stores : Bool} {old : Isa} {remaining : ℕ}
    (wide : 1 < half) (inv : Inv half s)
    (here : s.threads[i]? = some (.releaseRefill old remaining))
    (stepped : advance half s i stores (.releaseRefill old remaining) = some u) :
    Inv half u ∧ u.total ≤ s.total + 1 := by
  have side : s.side = some remaining := inv.ok i _ here
  have alive := inv.alive here Nat.one_pos
  have back : Inv half (s.goto i .releasePutBack) ∧ (s.goto i .releasePutBack).total ≤
      s.total + 1 :=
    inv.goto here rfl rfl rfl rfl trivial
  have inline : old.extraRC + (half - 1) ≠ 0 := by omega
  have live : Isa.isDeallocating ⟨old.extraRC + (half - 1), decide (remaining ≠ 0)⟩ =
      false := by
    simp [Isa.isDeallocating]
    omega
  by_cases room : old.extraRC + (half - 1) < 2 * half
  · simp only [advance, if_pos room, live] at stepped
    obtain rfl := Option.some.inj stepped
    by_cases empty : remaining = 0
    · rw [if_pos empty]
      refine inv.storeExclusive here alive rfl back room ?_ ?_ ?_ ?_ ?_ (by rw [live]; rfl)
      all_goals simp [Pc.inFlight, Pc.weight, Pc.holds, Pc.Ok, side, empty]
      all_goals omega
    · rw [if_neg empty]
      refine inv.storeExclusive here alive rfl back room ?_ ?_ ?_ ?_ ?_ (by rw [live]; rfl)
      all_goals simp [Pc.inFlight, Pc.weight, Pc.holds, Pc.Ok, side, empty]
      all_goals omega
  · simp only [advance, if_neg room] at stepped
    obtain rfl := Option.some.inj stepped
    exact back

/-- A step keeps the counts, as long as there are few enough references for the side table. -/
theorem Inv.advance {u : State} {stores : Bool} (wide : 1 < half) (inv : Inv half s) (lent : Lent s)
    (few : s.total ≤ pinned) (here : s.threads[i]? = some pc)
    (stepped : advance half s i stores pc = some u) : Inv half u ∧ u.total ≤ s.total + 1 := by
  have ok := inv.ok i pc here
  cases pc with
  | idle => cases stepped
  | retainLoad full =>
      obtain rfl := Option.some.inj stepped
      exact inv.goto here rfl rfl rfl rfl ⟨inv.alive_of_lent lent here rfl, inv.range, nofun⟩
  | retainStore old full locked =>
      obtain rfl := Option.some.inj stepped
      exact inv.retainStore wide lent here
  | retainLock old => exact inv.lockTable here stepped rfl rfl rfl rfl ⟨ok.1, ok.2, fun _ => rfl⟩
  | retainAdd =>
      obtain rfl := Option.some.inj stepped
      exact inv.putBack wide few here rfl rfl rfl rfl rfl rfl fun _ => trivial
  | retainUnlock =>
      obtain rfl := Option.some.inj stepped
      exact inv.unlockTable here rfl rfl rfl rfl rfl trivial
  | retained =>
      obtain rfl := Option.some.inj stepped
      refine inv.set _ .idle here rfl inv.range ?_ inv.halves (.inl ⟨rfl, rfl, rfl⟩)
        (.inl ⟨rfl, rfl⟩) trivial rfl ?_
      all_goals simp only [State.goto, Pc.weight, Pc.inFlight]
      all_goals omega
  | releaseLoad full locked =>
      obtain rfl := Option.some.inj stepped
      exact inv.goto here rfl rfl rfl rfl ⟨inv.alive here Nat.one_pos, inv.range, ok, fun _ => rfl⟩
  | releaseStore old full locked =>
      obtain rfl := Option.some.inj stepped
      exact inv.releaseStore here
  | releaseLock => exact inv.lockTable here stepped rfl rfl rfl rfl (fun _ => rfl)
  | releaseBorrow old => exact inv.releaseBorrow few here stepped
  | releaseFill old remaining => exact inv.releaseFill wide here stepped
  | releaseRefill old remaining => exact inv.releaseRefill wide here stepped
  | releasePutBack =>
      obtain rfl := Option.some.inj stepped
      exact inv.putBack wide few here rfl rfl rfl rfl rfl rfl fun _ _ => rfl
  | releaseClear deallocating =>
      obtain ⟨side, rfl⟩ := ok
      obtain rfl := Option.some.inj stepped
      have flag : s.isa.hasSidetableRC = true ↔
          0 < (none : Option ℕ).getD 0 + Pc.releaseUnlock.inFlight half :=
        ⟨fun set => absurd (inv.side_pos here rfl set rfl) (by simp [side]),
          fun pos => absurd pos (Nat.lt_irrefl 0)⟩
      refine inv.set _ .releaseUnlock here rfl inv.range ?_ (Nat.dvd_zero half) (.inr ⟨rfl, flag⟩)
        (.inl ⟨rfl, rfl⟩) trivial rfl ?_
      · simp [State.goto, side, Pc.weight, Pc.inFlight]
      · exact Nat.le_succ _
  | releaseUnlock =>
      obtain rfl := Option.some.inj stepped
      exact inv.unlockTable here rfl rfl rfl rfl rfl trivial
  | deallocate locked =>
      cases locked with
      | true =>
          obtain rfl := Option.some.inj stepped
          exact inv.unlockTable here rfl rfl rfl rfl rfl trivial
      | false =>
          obtain rfl := Option.some.inj stepped
          refine inv.set _ .idle here rfl inv.range ?_ inv.halves (.inl ⟨rfl, rfl, rfl⟩)
            (.inl ⟨rfl, rfl⟩) trivial ?_ ?_
          · rfl
          · simp only [State.goto, Pc.sends, Nat.add_zero]
            rfl
          · exact Nat.le_succ _

/-- A caller hands one of its references to a release. -/
theorem Inv.release (inv : Inv half s) (here : s.threads[i]? = some .idle) (has : 0 < s.owned) :
    Inv half { s.goto i (.releaseLoad false false) with owned := s.owned - 1 } ∧
      State.total { s.goto i (.releaseLoad false false) with owned := s.owned - 1 } ≤
        s.total + 1 := by
  refine inv.set _ (.releaseLoad false false) here rfl inv.range ?_ inv.halves
    (.inl ⟨rfl, rfl, rfl⟩) (.inl ⟨rfl, rfl⟩) nofun rfl ?_
  all_goals simp only [State.goto, Pc.weight, Pc.inFlight]
  all_goals omega

theorem Inv.step {u : State} {e : Event} (wide : 1 < half) (inv : Inv half s) (lent : Lent s)
    (few : s.total ≤ pinned) (stepped : step half s e = some u) :
    Inv half u ∧ u.total ≤ s.total + 1 := by
  cases e with
  | retain i =>
      obtain ⟨⟨here, -⟩, begun⟩ := Option.ite_none_right_eq_some.mp stepped
      obtain rfl := Option.some.inj begun
      exact inv.goto here rfl rfl rfl rfl trivial
  | release i =>
      obtain ⟨⟨here, has, -⟩, begun⟩ := Option.ite_none_right_eq_some.mp stepped
      obtain rfl := Option.some.inj begun
      exact inv.release here has
  | step i stores =>
      obtain ⟨pc, here, advanced⟩ := Option.bind_eq_some_iff.mp stepped
      exact inv.advance wide lent few here advanced

theorem Inv.run {u : State} {es : List Event} (wide : 1 < half) (inv : Inv half s) (lent : Lent s)
    (few : s.total + es.length ≤ pinned) (run : (machine half).run s es = some u) :
    Inv half u ∧ Lent u := by
  induction es generalizing s with
  | nil =>
      obtain rfl := Option.some.inj run
      exact ⟨inv, lent⟩
  | cons e es ih =>
      obtain ⟨v, stepped, rest⟩ := (machine half).run_cons_some run
      rw [List.length_cons] at few
      obtain ⟨next, grown⟩ := inv.step wide lent (by omega) stepped
      exact ih next (lent.step stepped) (by omega) rest

theorem Inv.start {threads : ℕ} (wide : 1 < half) : Inv half (start threads) where
  range := by
    simp only [RetainCount.start]
    omega
  count := by simp [RetainCount.start, State.total, Pc.inFlight, Pc.weight]
  halves := Nat.dvd_zero half
  flag := by simp [RetainCount.start, Pc.inFlight]
  locked i pc there := by
    obtain rfl := List.eq_of_mem_replicate (List.mem_of_getElem? there)
    simp [RetainCount.start, Pc.holds]
  holder i held := by cases held
  ok i pc there := by
    obtain rfl := List.eq_of_mem_replicate (List.mem_of_getElem? there)
    trivial
  sent := by simp [RetainCount.start, Pc.sends, Isa.isDeallocating]

/-- Who does not wait for the lock can go on. -/
theorem advance_isSome (busy : pc ≠ .idle) (free : s.lock = none ∨ pc.holds = true) :
    (advance half s i true pc).isSome := by
  cases pc with
  | idle => exact absurd rfl busy
  | retainLock | releaseLock =>
      rcases free with free | held
      · simp [RetainCount.advance, State.lockTable, free]
      · cases held
  | releaseBorrow old =>
      simp only [RetainCount.advance]
      cases subExtraRC s.side half <;> rfl
  | releaseRefill old remaining =>
      simp only [RetainCount.advance]
      split_ifs <;> rfl
  | deallocate locked => cases locked <;> rfl
  | _ => rfl

/-- The threads never all wait for the lock. -/
theorem Inv.progress (inv : Inv half s) (busy : ∃ pc ∈ s.threads, pc ≠ .idle) :
    ∃ j, (RetainCount.step half s (.step j true)).isSome := by
  cases lock : s.lock with
  | none =>
      obtain ⟨pc, member, awake⟩ := busy
      obtain ⟨j, at_j⟩ := List.mem_iff_getElem?.mp member
      exact ⟨j, by simpa [RetainCount.step, at_j] using advance_isSome awake (.inl lock)⟩
  | some j =>
      obtain ⟨pc, at_j⟩ : ∃ pc, s.threads[j]? = some pc :=
        ⟨_, List.getElem?_eq_getElem (inv.holder j lock)⟩
      have held := (inv.locked j pc at_j).mpr lock
      have awake : pc ≠ .idle := by
        intro idle
        rw [idle] at held
        cases held
      exact ⟨j, by simpa [RetainCount.step, at_j] using advance_isSome awake (.inr held)⟩

/-- However the steps of the threads are scheduled, `dealloc` is sent at most once, never
    while someone has a reference or is using one, and when no call runs the retain count is
    the number of references and `dealloc` has been sent just in case there are none. -/
theorem retainCount_run (threads : ℕ) (es : List Event) (wide : 1 < half)
    (short : es.length < 2 ^ 61) (run : (machine half).run (start threads) es = some s) :
    s.deallocs ≤ 1 ∧
      (s.deallocs = 1 ∨ (∃ pc ∈ s.threads, 0 < pc.sends) →
        s.owned = 0 ∧ ∀ pc ∈ s.threads, pc.weight = 0 ∧ pc.borrows = false) ∧
      ((∀ pc ∈ s.threads, pc = .idle) →
        s.rootRetainCount = s.owned ∧ (s.deallocs = 1 ↔ s.owned = 0)) ∧
      ((∃ pc ∈ s.threads, pc ≠ .idle) → ∃ i, (step half s (.step i true)).isSome) := by
  have first : (start threads).total = 1 := by simp [start, State.total, Pc.weight]
  have none_lent : Lent (start threads) := fun _ => Nat.one_pos
  obtain ⟨inv, lent⟩ := (Inv.start wide).run wide none_lent (by rw [first, pinned]; omega) run
  have sent := inv.sent
  have count := inv.count
  refine ⟨?_, ?_, ?_, inv.progress⟩
  · split_ifs at sent <;> omega
  · intro dying
    have deallocating : s.isa.isDeallocating = true := by
      by_contra alive
      rw [if_neg alive] at sent
      rcases dying with once | ⟨pc, member, sends⟩
      · omega
      · have := List.le_sum_of_mem (List.mem_map_of_mem (f := Pc.sends) member)
        omega
    simp only [Isa.isDeallocating, Bool.and_eq_true, decide_eq_true_eq,
      Bool.not_eq_true'] at deallocating
    have empty := inv.flag.not.mp (by simp [deallocating.2])
    unfold State.total at count
    have gone : s.owned = 0 := by omega
    refine ⟨gone, fun pc member => ⟨?_, ?_⟩⟩
    · have := List.le_sum_of_mem (List.mem_map_of_mem (f := Pc.weight) member)
      omega
    · by_contra borrows
      have := lent ⟨pc, member, by simpa using borrows⟩
      omega
  · intro quiet
    have still : ∀ f : Pc → ℕ, f .idle = 0 → (s.threads.map f).sum = 0 := by
      intro f zero
      apply List.sum_eq_zero
      intro x there
      obtain ⟨pc, member, rfl⟩ := List.mem_map.mp there
      rw [quiet pc member, zero]
    have flights := still (Pc.inFlight half) rfl
    have weights := still Pc.weight rfl
    have sendings := still Pc.sends rfl
    have flag := inv.flag
    unfold State.total at count
    constructor
    · unfold State.rootRetainCount
      split_ifs with set
      · omega
      · have := flag.not.mp set
        omega
    · rw [sendings] at sent
      cases set : s.isa.hasSidetableRC with
      | true =>
          have := flag.mp set
          rw [if_neg (by simp [Isa.isDeallocating, set])] at sent
          omega
      | false =>
          have := flag.not.mp (by simp [set])
          by_cases zero : s.isa.extraRC = 0
          · rw [if_pos (by simp [Isa.isDeallocating, set, zero])] at sent
            omega
          · rw [if_neg (by simp [Isa.isDeallocating, zero])] at sent
            omega

/-- Two threads on x86-64 retain through the one reference there is: the second one's store
    fails once, as the first has counted. -/
theorem retainCount_run_contended :
    ∃ s, (machine 128).run (start 2)
        [.retain 0, .retain 1, .step 0 true, .step 1 true, .step 0 true, .step 1 true] = some s ∧
      s.threads = [.retained, .retainStore ⟨2, false⟩ false false] ∧
      s.deallocs ≤ 1 ∧
      (s.deallocs = 1 ∨ (∃ pc ∈ s.threads, 0 < pc.sends) →
        s.owned = 0 ∧ ∀ pc ∈ s.threads, pc.weight = 0 ∧ pc.borrows = false) ∧
      ((∀ pc ∈ s.threads, pc = .idle) →
        s.rootRetainCount = s.owned ∧ (s.deallocs = 1 ↔ s.owned = 0)) ∧
      ((∃ pc ∈ s.threads, pc ≠ .idle) → ∃ i, (step 128 s (.step i true)).isSome) :=
  ⟨_, rfl, rfl, retainCount_run 2 [.retain 0, .retain 1, .step 0 true, .step 1 true, .step 0 true,
    .step 1 true] (by decide) (by decide) rfl⟩

end LearningProjects.ObjC.RetainCount
