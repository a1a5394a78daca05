import Mathlib.Data.List.Basic
import Mathlib.Data.List.Induction

/-! # Runs of partial step functions

A machine offers a partial step: `none` says that the event is not enabled in
the state. Runs, reachable states and properties of every step of a run are
defined once here, together with the induction rules that carry an inductive
invariant from one step to a whole run.
-/

namespace LearningProjects

/-- States `σ` driven by events `ε`; a step is deterministic but partial. -/
structure Machine (σ ε : Type*) where
  step : σ → ε → Option σ

namespace Machine

variable {σ ε : Type*} (M : Machine σ ε)

/-- Take the events in order; `none` as soon as one of them is not enabled. -/
def run : σ → List ε → Option σ
  | s, [] => some s
  | s, e :: es => (M.step s e).bind fun t => run t es

@[simp] theorem run_nil (s : σ) : M.run s [] = some s := rfl

theorem run_cons (s : σ) (e : ε) (es : List ε) :
    M.run s (e :: es) = (M.step s e).bind fun t => M.run t es := rfl

theorem run_cons_some {s u : σ} {e : ε} {es : List ε} (h : M.run s (e :: es) = some u) :
    ∃ t, M.step s e = some t ∧ M.run t es = some u := by
  simpa only [run_cons, Option.bind_eq_some_iff] using h

theorem run_append_eq (s : σ) (es fs : List ε) :
    M.run s (es ++ fs) = (M.run s es).bind fun t => M.run t fs := by
  induction es generalizing s with
  | nil => rfl
  | cons e es ih =>
      rw [List.cons_append, run_cons, run_cons, Option.bind_assoc]
      exact congrArg _ (funext ih)

theorem run_append {s t u : σ} {es fs : List ε} (first : M.run s es = some t)
    (second : M.run t fs = some u) : M.run s (es ++ fs) = some u := by
  rw [run_append_eq, first]
  exact second

theorem run_concat_some {s u : σ} {es : List ε} {e : ε} (h : M.run s (es ++ [e]) = some u) :
    ∃ t, M.run s es = some t ∧ M.step t e = some u := by
  rw [run_append_eq] at h
  obtain ⟨t, reached, last⟩ := Option.bind_eq_some_iff.mp h
  obtain ⟨v, stepped, rest⟩ := M.run_cons_some last
  obtain rfl : v = u := by simpa using rest
  exact ⟨t, reached, stepped⟩

/-- An inductive invariant holds at the end of every run. -/
theorem run_invariant {I : σ → Prop} (keep : ∀ s e t, I s → M.step s e = some t → I t)
    {s t : σ} {es : List ε} (h : M.run s es = some t) (start : I s) : I t := by
  induction es generalizing s with
  | nil =>
      obtain rfl : s = t := by simpa using h
      exact start
  | cons e es ih =>
      obtain ⟨u, stepped, rest⟩ := M.run_cons_some h
      exact ih rest (keep s e u start stepped)

/-- An invariant that knows the number of steps taken, and is kept while this is below a
    bound, holds at the end of every run that is short enough. -/
theorem run_counted {I : ℕ → σ → Prop} {bound : ℕ}
    (keep : ∀ n s e t, n + 1 < bound → I n s → M.step s e = some t → I (n + 1) t)
    {s t : σ} {es : List ε} (h : M.run s es = some t) (few : es.length < bound) (start : I 0 s) :
    I es.length t := by
  induction es using List.reverseRecOn generalizing t with
  | nil =>
      obtain rfl : s = t := by simpa using h
      exact start
  | append_singleton es e ih =>
      rw [List.length_append, List.length_singleton] at few ⊢
      obtain ⟨u, reached, stepped⟩ := M.run_concat_some h
      exact keep es.length u e t few (ih reached (by omega)) stepped

/-- States at the end of some run. -/
def Reachable (s t : σ) : Prop := ∃ es, M.run s es = some t

variable {M}

theorem Reachable.invariant {I : σ → Prop} (keep : ∀ s e t, I s → M.step s e = some t → I t)
    {s t : σ} (h : M.Reachable s t) (start : I s) : I t := by
  obtain ⟨es, reached⟩ := h
  exact M.run_invariant keep reached start

variable (M)

/-- Every step which a run takes satisfies `P`, a property of the state before
    the step, the event and the state after it. -/
def Each (P : σ → ε → σ → Prop) : σ → List ε → Prop
  | _, [] => True
  | s, e :: es => ∀ t, M.step s e = some t → P s e t ∧ Each P t es

variable {M} {P Q : σ → ε → σ → Prop}

@[simp] theorem each_nil (s : σ) : M.Each P s [] := trivial

theorem Each.append {s t : σ} {es fs : List ε} (all : M.Each P s (es ++ fs))
    (reached : M.run s es = some t) : M.Each P t fs := by
  induction es generalizing s with
  | nil =>
      obtain rfl : s = t := by simpa using reached
      exact all
  | cons e es ih =>
      obtain ⟨u, stepped, rest⟩ := M.run_cons_some reached
      exact ih (all u stepped).2 rest

/-- What every step by some events has from a state of an invariant, every step of a run
    of these events has. -/
theorem each_of_events {I : σ → Prop} {A : ε → Prop}
    (step : ∀ s e t, I s → A e → M.step s e = some t → P s e t ∧ I t)
    {s : σ} (start : I s) {es : List ε} (events : ∀ e ∈ es, A e) : M.Each P s es := by
  induction es generalizing s with
  | nil => exact each_nil s
  | cons e es ih =>
      rw [List.forall_mem_cons] at events
      intro t stepped
      obtain ⟨here, kept⟩ := step s e t start events.1 stepped
      exact ⟨here, ih kept events.2⟩

theorem each_of_invariant {I : σ → Prop}
    (step : ∀ s e t, I s → M.step s e = some t → P s e t ∧ I t)
    {s : σ} (start : I s) (es : List ε) : M.Each P s es :=
  each_of_events (A := fun _ => True) (fun s e t inv _ stepped => step s e t inv stepped) start
    fun _ _ => trivial

/-- Two step properties which agree wherever an invariant holds agree along
    every run. The invariant only has to survive the steps that satisfy them. -/
theorem each_congr {I : σ → Prop}
    (keep : ∀ s e t, I s → M.step s e = some t → P s e t → I t)
    (agree : ∀ s e t, I s → M.step s e = some t → (P s e t ↔ Q s e t))
    {s : σ} (start : I s) (es : List ε) : M.Each P s es ↔ M.Each Q s es := by
  induction es generalizing s with
  | nil => simp
  | cons e es ih =>
      constructor
      · intro all t stepped
        obtain ⟨here, later⟩ := all t stepped
        exact ⟨(agree s e t start stepped).mp here,
          (ih (keep s e t start stepped here)).mp later⟩
      · intro all t stepped
        obtain ⟨here, later⟩ := all t stepped
        have holds := (agree s e t start stepped).mpr here
        exact ⟨holds, (ih (keep s e t start stepped holds)).mpr later⟩

/-- The same for a machine that can trap and then stops: the invariant is of the
    states before a trap. -/
theorem each_congr_trap {τ : Type*} {N : Machine (Except τ σ) ε}
    {P Q : Except τ σ → ε → Except τ σ → Prop} {I : σ → Prop}
    (stopped : ∀ trap e, N.step (.error trap) e = none)
    (agree : ∀ s e t, I s → N.step (.ok s) e = some t →
      (P (.ok s) e t ↔ Q (.ok s) e t) ∧ (P (.ok s) e t → ∀ u, t = .ok u → I u))
    {s : σ} (start : I s) (es : List ε) : N.Each P (.ok s) es ↔ N.Each Q (.ok s) es := by
  have first : ∀ u, (.ok s : Except τ σ) = .ok u → I u := by
    rintro u ⟨⟩
    exact start
  refine each_congr (I := fun x => ∀ u, x = .ok u → I u) ?_ ?_ first es
  · intro x e t inv stepped holds
    cases x with
    | error trap => simp [stopped] at stepped
    | ok s => exact (agree s e t (inv s rfl) stepped).2 holds
  · intro x e t inv stepped
    cases x with
    | error trap => simp [stopped] at stepped
    | ok s => exact (agree s e t (inv s rfl) stepped).1

/-- The same machine with the events taken so far beside the state, for
    properties that speak about the history of a run. -/
def recording (M : Machine σ ε) : Machine (σ × List ε) ε where
  step s e := (M.step s.1 e).map fun t => (t, s.2 ++ [e])

theorem recording_step {s t : σ × List ε} {e : ε} (h : M.recording.step s e = some t) :
    M.step s.1 e = some t.1 ∧ t.2 = s.2 ++ [e] := by
  obtain ⟨u, stepped, rfl⟩ := Option.map_eq_some_iff.mp h
  exact ⟨stepped, rfl⟩

end Machine

/-- The latest of the entries that count, in a history grown by one. -/
theorem getLast?_filter_concat {ε : Type*} (p : ε → Bool) (es : List ε) (e : ε) :
    ((es ++ [e]).filter p).getLast? = if p e then some e else (es.filter p).getLast? := by
  rw [List.filter_append]
  cases counts : p e with
  | true => simp [counts]
  | false => simp [counts]

end LearningProjects
