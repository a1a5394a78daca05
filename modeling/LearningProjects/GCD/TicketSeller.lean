import LearningProjects.Machine
import Mathlib.Data.List.Basic
import Mathlib.Data.List.Nodup
import Mathlib.Data.List.Range
import Mathlib.Logic.Function.Basic
import Mathlib.Tactic.Common

/-! # Selling tickets under a semaphore

`sellTicket` creates one `DispatchSemaphore` of value 1 and lets several queues
run `safeSellTicket` on the shared `tickets`. Each access to `tickets` and each
semaphore call is one atomic step here, so a seller keeps the value it has read
while others may run. `tickets -= 1` reads and writes in two steps, and so does
the sale's printed report, which reads `tickets` once more.
-/

namespace LearningProjects.GCD.TicketSeller

/-- Where a seller stands in the loop of `safeSellTicket`. -/
inductive Position where
  /-- Before `ticketSempaphore.wait()`. -/
  | wait
  /-- Before the test `tickets > 0`. -/
  | check
  /-- Before the read of `tickets -= 1`. -/
  | load
  /-- Before the write of `tickets -= 1`, with the value read. -/
  | store (read : Int)
  /-- Before the line that prints the remaining tickets. -/
  | report
  /-- Before the `signal()` at the end of the loop body. -/
  | signal
  /-- Printed `end sell`, before the `signal()` that precedes `break`. -/
  | endSell
  | exited
  deriving DecidableEq, Repr

/-- Between `wait()` and `signal()`. -/
def Position.Inside : Position → Prop
  | .wait | .exited => False
  | _ => True

instance (p : Position) : Decidable p.Inside := by
  cases p <;> simp only [Position.Inside] <;> infer_instance

structure State (Seller : Type*) where
  ticketSempaphore : Nat
  tickets : Int
  position : Seller → Position
  /-- Remaining tickets as printed, one entry a sale. -/
  sales : List Int

section Model

variable {Seller : Type*} [DecidableEq Seller]

/-- As `sellTicket` sets things up. -/
def State.start (tickets : Nat) : State Seller := ⟨1, tickets, fun _ => .wait, []⟩

def State.moveTo (s : State Seller) (i : Seller) (p : Position) : State Seller :=
  { s with position := Function.update s.position i p }

/-- The next atomic step of seller `i` in `safeSellTicket`. -/
def safeSellTicket (s : State Seller) (i : Seller) : Option (State Seller) :=
  match s.position i with
  | .wait =>
      if 0 < s.ticketSempaphore then
        some ({ s with ticketSempaphore := s.ticketSempaphore - 1 }.moveTo i .check)
      else none
  | .check => some (s.moveTo i (if s.tickets > 0 then .load else .endSell))
  | .load => some (s.moveTo i (.store s.tickets))
  | .store read => some ({ s with tickets := read - 1 }.moveTo i .report)
  | .report => some ({ s with sales := s.sales ++ [s.tickets] }.moveTo i .signal)
  | .signal => some ({ s with ticketSempaphore := s.ticketSempaphore + 1 }.moveTo i .wait)
  | .endSell => some ({ s with ticketSempaphore := s.ticketSempaphore + 1 }.moveTo i .exited)
  | .exited => none

/-- An event names the seller that takes its next step. -/
def machine (Seller : Type*) [DecidableEq Seller] : Machine (State Seller) Seller where
  step := safeSellTicket

end Model

/-- Mutual exclusion and the books of a sale of `n` tickets. -/
structure Sound {Seller : Type*} [DecidableEq Seller] (n : Nat) (s : State Seller) : Prop where
  exclusive : ∀ i j, (s.position i).Inside → (s.position j).Inside → i = j
  nonneg : 0 ≤ s.tickets
  /-- No remaining value is reported twice, and each is one of `n - 1, …, 0`. -/
  distinct : s.sales.Nodup
  inRange : ∀ left ∈ s.sales, 0 ≤ left ∧ left < n
  balanced : (∀ i, ¬(s.position i).Inside) → s.sales.length + s.tickets = n
  /-- The break is taken on seeing no tickets, and it is the only way out. -/
  seenEmpty : ∀ i t, safeSellTicket s i = some t → t.position i = .endSell → s.tickets = 0
  exitsBySignal : ∀ i t, safeSellTicket s i = some t → t.position i = .exited →
    s.position i = .endSell
  progress : (∃ i, s.position i ≠ .exited) → ∃ i t, safeSellTicket s i = some t
  soldOut : ∀ i, s.position i = .exited → s.tickets = 0
  permitBack : (∀ i, s.position i = .exited) → s.ticketSempaphore = 1

/-- Every ticket is either sold or left. -/
def Balanced {Seller : Type*} (n : Nat) (s : State Seller) : Prop :=
  s.sales.length + s.tickets = n

/-- What a seller at `p` knows. Inside, the value it has read is the current
    one, and only between its write and its report is a ticket unaccounted for. -/
def Place {Seller : Type*} (n : Nat) (s : State Seller) : Position → Prop
  | .wait => True
  | .check | .signal => Balanced n s
  | .load => 0 < s.tickets ∧ Balanced n s
  | .store read => read = s.tickets ∧ 0 < s.tickets ∧ Balanced n s
  | .report => s.sales.length + 1 + s.tickets = n
  | .endSell => s.tickets = 0 ∧ Balanced n s
  | .exited => s.tickets = 0

/-- The remaining values reported so far, counting down from `n - 1`. -/
def CountsDown (n : Nat) (sales : List Int) : Prop :=
  sales = (List.range sales.length).map fun k : Nat => (n : Int) - 1 - k

structure Inv {Seller : Type*} (n : Nat) (s : State Seller) : Prop where
  exclusive : ∀ i j, (s.position i).Inside → (s.position j).Inside → i = j
  permit : (s.ticketSempaphore = 1 ∧ ∀ i, ¬(s.position i).Inside) ∨
    (s.ticketSempaphore = 0 ∧ ∃ i, (s.position i).Inside)
  nonneg : 0 ≤ s.tickets
  sold : CountsDown n s.sales
  free : (∀ i, ¬(s.position i).Inside) → Balanced n s
  place : ∀ i, Place n s (s.position i)

section Steps

variable {Seller : Type*} [DecidableEq Seller] {n : Nat} {s t : State Seller} {i : Seller}
  {p : Position}

omit [DecidableEq Seller] in
theorem Inv.start (n : Nat) : Inv n (State.start n : State Seller) where
  exclusive := fun _ _ inside => inside.elim
  permit := .inl ⟨rfl, fun _ inside => inside.elim⟩
  nonneg := Int.natCast_nonneg n
  sold := rfl
  free := fun _ => by simp [Balanced, State.start]
  place := fun _ => trivial

theorem Position.wait_or_exited (outside : ¬p.Inside) : p = .wait ∨ p = .exited := by
  cases p with
  | wait => exact .inl rfl
  | exited => exact .inr rfl
  | check | load | store | report | signal | endSell => exact absurd trivial outside

omit [DecidableEq Seller] in
/-- A seller outside knows at most that nothing is left. -/
theorem Place.of_outside (place : Place n s p) (outside : ¬p.Inside)
    (empty : s.tickets = 0 → t.tickets = 0) : Place n t p := by
  rcases Position.wait_or_exited outside with rfl | rfl
  · trivial
  · exact empty place

/-- The others are outside and have seen nothing that could have changed, so
    their places survive what the seller inside does. -/
theorem Inv.places (h : Inv n s) (inside : (s.position i).Inside)
    (position : t.position = Function.update s.position i p)
    (empty : s.tickets = 0 → t.tickets = 0) (here : Place n t p) :
    ∀ j, Place n t (t.position j) := by
  intro j
  rw [position]
  by_cases same : j = i
  · subst j
    simpa using here
  · rw [Function.update_of_ne same]
    have outside : ¬(s.position j).Inside := fun also => same (h.exclusive j i also inside)
    exact (h.place j).of_outside outside empty

theorem Inv.stays_inside (h : Inv n s) (inside : (s.position i).Inside)
    (position : t.position = Function.update s.position i p) (next : p.Inside)
    (permits : t.ticketSempaphore = s.ticketSempaphore) (nonneg : 0 ≤ t.tickets)
    (sold : CountsDown n t.sales) (empty : s.tickets = 0 → t.tickets = 0) (here : Place n t p) :
    Inv n t := by
  have others : ∀ j, (t.position j).Inside → j = i := by
    intro j also
    by_contra other
    rw [position, Function.update_of_ne other] at also
    exact other (h.exclusive j i also inside)
  have self : (t.position i).Inside := by simpa [position] using next
  constructor
  · intro j k jIn kIn
    rw [others j jIn, others k kIn]
  · rcases h.permit with ⟨-, nobody⟩ | ⟨zero, -⟩
    · exact absurd inside (nobody i)
    · exact .inr ⟨permits.trans zero, i, self⟩
  · exact nonneg
  · exact sold
  · exact fun nobody => absurd self (nobody i)
  · exact h.places inside position empty here

theorem Inv.leaves (h : Inv n s) (inside : (s.position i).Inside) (outside : ¬p.Inside)
    (balanced : Balanced n s)
    (here : Place n ({ s with ticketSempaphore := s.ticketSempaphore + 1 }.moveTo i p) p) :
    Inv n ({ s with ticketSempaphore := s.ticketSempaphore + 1 }.moveTo i p) := by
  have nobody : ∀ j, ¬(Function.update s.position i p j).Inside := by
    intro j also
    by_cases same : j = i
    · subst j
      exact outside (by simpa using also)
    · rw [Function.update_of_ne same] at also
      exact same (h.exclusive j i also inside)
  constructor
  · exact fun j _ also => absurd also (nobody j)
  · rcases h.permit with ⟨-, alone⟩ | ⟨zero, -⟩
    · exact absurd inside (alone i)
    · left
      exact ⟨congrArg (· + 1) zero, nobody⟩
  · exact h.nonneg
  · exact h.sold
  · exact fun _ => balanced
  · exact h.places inside rfl id here

theorem Inv.enters (h : Inv n s) (positive : 0 < s.ticketSempaphore) :
    Inv n ({ s with ticketSempaphore := s.ticketSempaphore - 1 }.moveTo i .check) := by
  obtain ⟨one, nobody⟩ : s.ticketSempaphore = 1 ∧ ∀ i, ¬(s.position i).Inside := by
    rcases h.permit with free | ⟨zero, -⟩
    · exact free
    · omega
  have others : ∀ j, (Function.update s.position i .check j).Inside → j = i := by
    intro j also
    by_contra other
    rw [Function.update_of_ne other] at also
    exact nobody j also
  have balanced := h.free nobody
  constructor
  · intro j k jIn kIn
    rw [others j jIn, others k kIn]
  · right
    refine ⟨?_, i, ?_⟩
    · change s.ticketSempaphore - 1 = 0
      omega
    · simp [State.moveTo, Position.Inside]
  · exact h.nonneg
  · exact h.sold
  · exact fun _ => balanced
  · intro j
    change Place n _ (Function.update s.position i .check j)
    by_cases same : j = i
    · subst j
      rw [Function.update_self]
      exact balanced
    · rw [Function.update_of_ne same]
      exact (h.place j).of_outside (nobody j) id

theorem CountsDown.concat {sales : List Int} {left : Int} (h : CountsDown n sales)
    (next : sales.length + 1 + left = n) : CountsDown n (sales ++ [left]) := by
  have last : left = (n : Int) - 1 - sales.length := by omega
  unfold CountsDown at h ⊢
  rw [List.length_append, List.length_singleton, List.range_succ, List.map_append, ← h, last]
  rfl

theorem Inv.step (h : Inv n s) (stepped : safeSellTicket s i = some t) : Inv n t := by
  have here := h.place i
  unfold safeSellTicket at stepped
  cases at_ : s.position i with
  | wait =>
      simp only [at_, Option.ite_none_right_eq_some, Option.some.injEq] at stepped
      obtain ⟨positive, rfl⟩ := stepped
      exact h.enters positive
  | exited => simp [at_] at stepped
  | check =>
      simp only [at_, Option.some.injEq] at stepped here
      subst stepped
      have inside : (s.position i).Inside := by rw [at_]; trivial
      have nonneg := h.nonneg
      split
      · rename_i some_left
        exact h.stays_inside inside rfl trivial rfl nonneg h.sold id ⟨some_left, here⟩
      · rename_i none_left
        have empty : s.tickets = 0 := by omega
        exact h.stays_inside inside rfl trivial rfl nonneg h.sold id ⟨empty, here⟩
  | load =>
      simp only [at_, Option.some.injEq] at stepped here
      subst stepped
      exact h.stays_inside (by rw [at_]; trivial) rfl trivial rfl h.nonneg h.sold id ⟨rfl, here⟩
  | store read =>
      simp only [at_, Option.some.injEq] at stepped here
      subst stepped
      obtain ⟨rfl, positive, balanced⟩ := here
      unfold Balanced at balanced
      refine h.stays_inside (by rw [at_]; trivial) rfl trivial rfl ?_ h.sold ?_ ?_
      · change 0 ≤ s.tickets - 1
        omega
      · omega
      · change s.sales.length + 1 + (s.tickets - 1) = n
        omega
  | report =>
      simp only [at_, Option.some.injEq] at stepped here
      subst stepped
      refine h.stays_inside (by rw [at_]; trivial) rfl trivial rfl h.nonneg ?_ id ?_
      · exact h.sold.concat here
      · change ((s.sales ++ [s.tickets]).length : Int) + s.tickets = n
        rw [List.length_append, List.length_singleton]
        exact here
  | signal =>
      simp only [at_, Option.some.injEq] at stepped here
      subst stepped
      exact h.leaves (by rw [at_]; trivial) id here trivial
  | endSell =>
      simp only [at_, Option.some.injEq] at stepped here
      subst stepped
      exact h.leaves (by rw [at_]; trivial) id here.2 here.1

theorem CountsDown.nodup {sales : List Int} (h : CountsDown n sales) : sales.Nodup := by
  rw [h]
  refine List.Nodup.map ?_ List.nodup_range
  intro a b same
  simp only at same
  omega

theorem CountsDown.mem {sales : List Int} (h : CountsDown n sales) {left : Int}
    (member : left ∈ sales) : left < n ∧ (n : Int) - sales.length ≤ left := by
  rw [h] at member
  obtain ⟨k, below, rfl⟩ := List.mem_map.mp member
  have := List.mem_range.mp below
  omega

omit [DecidableEq Seller] in
/-- Reported tickets never outnumber the tickets there were. -/
theorem Inv.sales_le (h : Inv n s) : (s.sales.length : Int) ≤ n := by
  have nonneg := h.nonneg
  by_cases nobody : ∀ i, ¬(s.position i).Inside
  · have := h.free nobody
    unfold Balanced at this
    omega
  · obtain ⟨i, inside⟩ := not_forall_not.mp nobody
    have place := h.place i
    cases at_ : s.position i with
    | wait | exited =>
        rw [at_] at inside
        exact inside.elim
    | check | load | store | report | signal | endSell =>
        simp only [at_, Place, Balanced] at place
        omega

/-- Only the test that fails leads to the break, and only the break leads out. -/
theorem position_of_step (stepped : safeSellTicket s i = some t) :
    (t.position i = .endSell → ¬s.tickets > 0) ∧
    (t.position i = .exited → s.position i = .endSell) := by
  unfold safeSellTicket at stepped
  cases at_ : s.position i with
  | wait =>
      simp only [at_, Option.ite_none_right_eq_some, Option.some.injEq] at stepped
      obtain ⟨-, rfl⟩ := stepped
      simp [State.moveTo]
  | check =>
      simp only [at_, Option.some.injEq] at stepped
      subst stepped
      simp only [State.moveTo, Function.update_self]
      split
      · simp
      · rename_i none_left
        simp [none_left]
  | load | store | report | signal | endSell =>
      simp only [at_, Option.some.injEq] at stepped
      subst stepped
      simp [State.moveTo]
  | exited => simp [at_] at stepped

/-- A seller inside can always go on, and with nobody inside the permit is there. -/
theorem Inv.progress (h : Inv n s) (remaining : ∃ i, s.position i ≠ .exited) :
    ∃ i t, safeSellTicket s i = some t := by
  rcases h.permit with ⟨one, nobody⟩ | ⟨-, i, inside⟩
  · obtain ⟨i, notExited⟩ := remaining
    have waits := (Position.wait_or_exited (nobody i)).resolve_right notExited
    exact ⟨i, by simp [safeSellTicket, waits, one]⟩
  · cases at_ : s.position i with
    | wait | exited =>
        rw [at_] at inside
        exact inside.elim
    | check | load | store | report | signal | endSell => exact ⟨i, by simp [safeSellTicket, at_]⟩

theorem Inv.sound (h : Inv n s) : Sound n s where
  exclusive := h.exclusive
  nonneg := h.nonneg
  distinct := h.sold.nodup
  inRange := by
    intro left member
    have := h.sold.mem member
    have := h.sales_le
    omega
  balanced := h.free
  seenEmpty := by
    intro i t stepped seen
    have noneLeft := (position_of_step stepped).1 seen
    have nonneg := h.nonneg
    omega
  exitsBySignal := fun _ _ stepped => (position_of_step stepped).2
  progress := h.progress
  soldOut := by
    intro i out
    have place := h.place i
    rwa [out] at place
  permitBack := by
    intro out
    rcases h.permit with ⟨one, -⟩ | ⟨-, i, inside⟩
    · exact one
    · rw [out i] at inside
      exact inside.elim

/-- Any number of sellers, in any interleaving, sell `n` tickets one by one. -/
theorem sound_of_reachable {n : Nat} {s : State Seller}
    (reached : (machine Seller).Reachable (.start n) s) : Sound n s :=
  (reached.invariant (fun _ _ _ inv stepped => inv.step stepped) (Inv.start n)).sound

end Steps

/-- One of two sellers sells the only ticket while the other one waits. -/
theorem sound_two_sellers :
    Sound 1 (⟨0, 0, Function.update (fun _ => .wait) false .signal, [0]⟩ : State Bool) := by
  apply sound_of_reachable
  refine ⟨[false, false, false, false, false], ?_⟩
  simp [Machine.run_cons, machine, safeSellTicket, State.start, State.moveTo]

end LearningProjects.GCD.TicketSeller
