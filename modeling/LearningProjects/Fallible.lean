import Mathlib.Algebra.Ring.Nat
import Mathlib.Data.List.Forall2
import Mathlib.Tactic.Common

/-! # Programs that can stop

Loops in a monad of results, and 64-bit unsigned arithmetic in a language that
stops the program on overflow: an operation gives `none` where it would stop.
-/

namespace LearningProjects.Fallible

/-! ## Loops -/

section Loops

variable {m : Type → Type*} [Monad m] [LawfulMonad m] {α : Type*} {β γ : Type}

/-- A loop whose rounds all return does return, with one result a round. -/
theorem mapM_spec {body : α → m β} {spec : α → β → Prop} {rounds : List α}
    (round : ∀ a ∈ rounds, ∃ b, body a = pure b ∧ spec a b) :
    ∃ results, rounds.mapM body = pure results ∧ List.Forall₂ spec rounds results := by
  induction rounds with
  | nil => exact ⟨[], List.mapM_nil, .nil⟩
  | cons a rounds ih =>
      rw [List.forall_mem_cons] at round
      obtain ⟨b, result, holds⟩ := round.1
      obtain ⟨results, rest, all⟩ := ih round.2
      exact ⟨b :: results, by simp only [List.mapM_cons, result, rest, pure_bind], .cons holds all⟩

theorem mapM_congr {body body' : α → m β} {rounds : List α}
    (same : ∀ a ∈ rounds, body a = body' a) : rounds.mapM body = rounds.mapM body' := by
  induction rounds with
  | nil => simp only [List.mapM_nil]
  | cons a rounds ih =>
      rw [List.forall_mem_cons] at same
      simp only [List.mapM_cons, same.1, ih same.2]

omit [LawfulMonad m] in
theorem foldlM_congr {body body' : γ → α → m γ} {rounds : List α}
    (same : ∀ a ∈ rounds, ∀ state, body state a = body' state a) (state : γ) :
    rounds.foldlM body state = rounds.foldlM body' state := by
  induction rounds generalizing state with
  | nil => simp only [List.foldlM_nil]
  | cons a rounds ih =>
      rw [List.forall_mem_cons] at same
      simp only [List.foldlM_cons, same.1, ih same.2]

end Loops

/-- Every round of a loop that returns does return. -/
theorem mapM_rounds {α : Type*} {β : Type} {body : α → Option β} {rounds : List α}
    {results : List β} (returned : rounds.mapM body = some results) :
    ∀ a ∈ rounds, ∃ b, body a = some b := by
  induction rounds generalizing results with
  | nil => simp
  | cons a rounds ih =>
      simp only [List.mapM_cons, Option.bind_eq_bind, Option.bind_eq_some_iff] at returned
      obtain ⟨b, result, later, rest, -⟩ := returned
      rw [List.forall_mem_cons]
      exact ⟨⟨b, result⟩, ih rest⟩

section Errors

variable {ε γ : Type} {α : Type*}

theorem bind_eq_ok {β : Type} {x : Except ε γ} {f : γ → Except ε β} {b : β} :
    (x >>= f) = .ok b ↔ ∃ a, x = .ok a ∧ f a = .ok b := by
  cases x with
  | error error => simp [bind, Except.bind]
  | ok a => simp [bind, Except.bind]

/-- A loop that returns keeps what each of its rounds keeps. -/
theorem foldlM_invariant {body : γ → α → Except ε γ} {I : γ → Prop}
    (keep : ∀ s a t, I s → body s a = .ok t → I t) {rounds : List α} {s t : γ}
    (returned : rounds.foldlM body s = .ok t) (start : I s) : I t := by
  induction rounds generalizing s with
  | nil => exact Except.ok.inj returned ▸ start
  | cons a rounds ih =>
      obtain ⟨u, round, rest⟩ := bind_eq_ok.mp returned
      exact ih rest (keep s a u start round)

/-- Every round of a loop that returns does return. -/
theorem foldlM_rounds {body : γ → α → Except ε γ} {rounds : List α} {s t : γ}
    (returned : rounds.foldlM body s = .ok t) : ∀ a ∈ rounds, ∃ u v, body u a = .ok v := by
  induction rounds generalizing s with
  | nil => simp
  | cons a rounds ih =>
      obtain ⟨u, round, rest⟩ := bind_eq_ok.mp returned
      rw [List.forall_mem_cons]
      exact ⟨⟨s, u, round⟩, ih rest⟩

/-- The results of a loop are those of its rounds. -/
theorem mapM_forall₂ {β : Type} {body : α → Except ε β} {rounds : List α} {results : List β}
    (returned : rounds.mapM body = .ok results) :
    List.Forall₂ (fun a b => body a = .ok b) rounds results := by
  induction rounds generalizing results with
  | nil =>
      rw [← Except.ok.inj returned]
      exact .nil
  | cons a rounds ih =>
      rw [List.mapM_cons] at returned
      obtain ⟨b, result, returned⟩ := bind_eq_ok.mp returned
      obtain ⟨rest, later, returned⟩ := bind_eq_ok.mp returned
      rw [← Except.ok.inj returned]
      exact .cons result (ih later)

/-- A loop returns exactly if its rounds are fine, where that does not depend on the
    state. -/
theorem foldlM_returns_iff {body : γ → α → Except ε γ} {I : γ → Prop} {fine : α → Prop}
    (round : ∀ s a, I s → ((∃ t, body s a = .ok t) ↔ fine a))
    (keep : ∀ s a t, I s → body s a = .ok t → I t) {rounds : List α} {s : γ} (start : I s) :
    (∃ t, rounds.foldlM body s = .ok t) ↔ ∀ a ∈ rounds, fine a := by
  induction rounds generalizing s with
  | nil => exact iff_of_true ⟨s, rfl⟩ (by simp)
  | cons a rounds ih =>
      rw [List.forall_mem_cons, ← round s a start]
      constructor
      · rintro ⟨t, returned⟩
        obtain ⟨u, first, rest⟩ := bind_eq_ok.mp returned
        exact ⟨⟨u, first⟩, (ih (keep s a u start first)).mp ⟨t, rest⟩⟩
      · rintro ⟨⟨u, first⟩, rest⟩
        obtain ⟨t, later⟩ := (ih (keep s a u start first)).mpr rest
        exact ⟨t, bind_eq_ok.mpr ⟨u, first, later⟩⟩

end Errors

/-! ## Words -/

def add (a b : UInt64) : Option UInt64 :=
  if a.toNat + b.toNat < 2 ^ 64 then some (a + b) else none

def sub (a b : UInt64) : Option UInt64 :=
  if b.toNat ≤ a.toNat then some (a - b) else none

def mul (a b : UInt64) : Option UInt64 :=
  if a.toNat * b.toNat < 2 ^ 64 then some (a * b) else none

/-! Where an operation does not stop, it computes what it does on numbers. -/

theorem add_spec {a b : UInt64} (fits : a.toNat + b.toNat < 2 ^ 64) :
    ∃ c, add a b = some c ∧ c.toNat = a.toNat + b.toNat :=
  ⟨a + b, if_pos fits, by rw [UInt64.toNat_add, Nat.mod_eq_of_lt fits]⟩

theorem sub_spec {a b : UInt64} (fits : b.toNat ≤ a.toNat) :
    ∃ c, sub a b = some c ∧ c.toNat = a.toNat - b.toNat :=
  ⟨a - b, if_pos fits, UInt64.toNat_sub_of_le a b (UInt64.le_iff_toNat_le.mpr fits)⟩

theorem mul_spec {a b : UInt64} (fits : a.toNat * b.toNat < 2 ^ 64) :
    ∃ c, mul a b = some c ∧ c.toNat = a.toNat * b.toNat :=
  ⟨a * b, if_pos fits, by rw [UInt64.toNat_mul, Nat.mod_eq_of_lt fits]⟩

theorem add_eq_none_iff {a b : UInt64} : add a b = none ↔ 2 ^ 64 ≤ a.toNat + b.toNat := by
  rw [add, ite_eq_right_iff, ← Nat.not_lt]
  simp

end LearningProjects.Fallible
