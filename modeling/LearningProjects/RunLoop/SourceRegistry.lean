import LearningProjects.Machine
import Mathlib.Data.List.Count
import Mathlib.Tactic.Common

/-! # The registry of run-loop sources

CoreFoundation calls back when a source is added to a run loop and when it is
taken off. Both callbacks get the `info` of the source's context, turn it back
into the source, and hand a new `CusRunLoopContext` to the delegate on the main
queue. The contexts are compared as objects, and each of them is a new one.
-/

namespace LearningProjects.RunLoop.SourceRegistry

/-- Of a source's context only `info` matters here. -/
structure CFRunLoopSourceContext (Source : Type*) where
  info : Option Source
  deriving DecidableEq, Repr

/-- The context that `CustomRunLoopSource.init` makes. -/
def sourceContext {Source : Type*} : CFRunLoopSourceContext Source := ⟨none⟩

/-- `object` tells the instances apart. -/
structure CusRunLoopContext (Source RunLoop : Type*) where
  object : Nat
  runLoop : RunLoop
  source : Source
  deriving DecidableEq, Repr

/-- Blocks on the main queue. -/
inductive Block (Source RunLoop : Type*) where
  | register (sourceInfo : CusRunLoopContext Source RunLoop)
  | remove (source : CusRunLoopContext Source RunLoop)
  deriving DecidableEq, Repr

/-- The delegate's registry and the main queue. `schedules` and `cancels` are a log
    of the callbacks, which the code never reads. -/
structure State (Source RunLoop : Type*) where
  sourcesToPing : List (CusRunLoopContext Source RunLoop)
  main : List (Block Source RunLoop)
  allocated : Nat
  schedules : List (Source × RunLoop)
  cancels : List (Source × RunLoop)
  deriving DecidableEq, Repr

inductive Event (Source RunLoop : Type*) where
  | schedule (source : Source) (runLoop : RunLoop)
  | cancel (source : Source) (runLoop : RunLoop)
  /-- The main queue runs its next block. -/
  | main
  deriving DecidableEq, Repr

variable {Source RunLoop : Type*}

namespace CusRunLoopContext

def pair (context : CusRunLoopContext Source RunLoop) : Source × RunLoop :=
  (context.source, context.runLoop)

/-- `NSObject` compares by identity. -/
def isEqual (context other : CusRunLoopContext Source RunLoop) : Bool :=
  context.object == other.object

end CusRunLoopContext

namespace Block

def registered? : Block Source RunLoop → Option (CusRunLoopContext Source RunLoop)
  | register sourceInfo => some sourceInfo
  | remove _ => none

def removed? : Block Source RunLoop → Option (CusRunLoopContext Source RunLoop)
  | register _ => none
  | remove source => some source

end Block

namespace State

def start : State Source RunLoop := ⟨[], [], 0, [], []⟩

/-- The schedule callback. -/
def schedule (p : Option Source) (cf : Option RunLoop) (s : State Source RunLoop) :
    State Source RunLoop :=
  match p, cf with
  | some source, some cf =>
      { s with
        main := s.main ++ [.register ⟨s.allocated, cf, source⟩]
        allocated := s.allocated + 1 }
  | _, _ => s

/-- The cancel callback. -/
def cancel (p : Option Source) (cf : Option RunLoop) (s : State Source RunLoop) :
    State Source RunLoop :=
  match p, cf with
  | some source, some cf =>
      { s with
        main := s.main ++ [.remove ⟨s.allocated, cf, source⟩]
        allocated := s.allocated + 1 }
  | _, _ => s

def register (sourceInfo : CusRunLoopContext Source RunLoop) (s : State Source RunLoop) :
    State Source RunLoop :=
  { s with sourcesToPing := s.sourcesToPing ++ [sourceInfo] }

def remove (source : CusRunLoopContext Source RunLoop) (s : State Source RunLoop) :
    State Source RunLoop :=
  { s with sourcesToPing := s.sourcesToPing.filter fun context => !context.isEqual source }

/-- Contexts that are registered or about to be. -/
def contexts (s : State Source RunLoop) : List (CusRunLoopContext Source RunLoop) :=
  s.sourcesToPing ++ s.main.filterMap Block.registered?

/-- Contexts whose removal is still to come. -/
def removals (s : State Source RunLoop) : List (CusRunLoopContext Source RunLoop) :=
  s.main.filterMap Block.removed?

end State

variable [DecidableEq Source] [DecidableEq RunLoop]

/-- Scheduled and not yet cancelled. -/
def Scheduled (s : State Source RunLoop) (pair : Source × RunLoop) : Prop :=
  s.cancels.count pair < s.schedules.count pair

instance (s : State Source RunLoop) (pair : Source × RunLoop) : Decidable (Scheduled s pair) :=
  inferInstanceAs (Decidable (_ < _))

/-- A source is scheduled on a run loop it is not scheduled on, and cancelled only
    where it is. -/
def machine (context : Source → CFRunLoopSourceContext Source) :
    Machine (State Source RunLoop) (Event Source RunLoop) where
  step s
    | .schedule source runLoop =>
        if Scheduled s (source, runLoop) then none
        else some { s.schedule (context source).info (some runLoop) with
          schedules := s.schedules ++ [(source, runLoop)] }
    | .cancel source runLoop =>
        if Scheduled s (source, runLoop) then
          some { s.cancel (context source).info (some runLoop) with
            cancels := s.cancels ++ [(source, runLoop)] }
        else none
    | .main =>
        match s.main with
        | .register sourceInfo :: rest => some ({ s with main := rest }.register sourceInfo)
        | .remove source :: rest => some ({ s with main := rest }.remove source)
        | [] => none

/-- One context for each pair that is scheduled, and none for any other. -/
def Tracks (s : State Source RunLoop) : Prop :=
  ∀ pair, s.sourcesToPing.countP (·.pair = pair) = if Scheduled s pair then 1 else 0

/-- Every source's context carries the source itself, or nothing. -/
def OwnInfo (context : Source → CFRunLoopSourceContext Source) : Prop :=
  ∀ source, (context source).info = none ∨ (context source).info = some source

/-- A context is created by each schedule callback that knows its source; those to
    be removed are never among them. -/
structure Inv (context : Source → CFRunLoopSourceContext Source) (s : State Source RunLoop) :
    Prop where
  counts : ∀ pair, s.cancels.count pair ≤ s.schedules.count pair ∧
    s.schedules.count pair ≤ s.cancels.count pair + 1
  created : ∀ pair, s.contexts.countP (·.pair = pair) =
    if (context pair.1).info.isSome then s.schedules.count pair else 0
  allocated : ∀ c ∈ s.contexts, c.object < s.allocated
  apart : ∀ d ∈ s.removals, d.object < s.allocated ∧ ∀ c ∈ s.contexts, c.object ≠ d.object

section Steps

variable {context : Source → CFRunLoopSourceContext Source} {s t : State Source RunLoop}
  {e : Event Source RunLoop}

theorem Inv.start : Inv context (State.start : State Source RunLoop) where
  counts _ := ⟨Nat.le_refl _, Nat.zero_le _⟩
  created _ := by simp [State.start, State.contexts]
  allocated := by simp [State.start, State.contexts]
  apart := by simp [State.start, State.removals]

/-- The log grows by one pair, on the side that has fewer of it. -/
theorem count_concat (log : List (Source × RunLoop)) (pair other : Source × RunLoop) :
    (log ++ [pair]).count other = log.count other + if pair = other then 1 else 0 := by
  rw [List.count_append, List.count_singleton]
  simp only [beq_iff_eq]

theorem Inv.counts_schedule (h : Inv context s) {scheduled : Source × RunLoop}
    (new : ¬Scheduled s scheduled) (pair : Source × RunLoop) :
    s.cancels.count pair ≤ (s.schedules ++ [scheduled]).count pair ∧
      (s.schedules ++ [scheduled]).count pair ≤ s.cancels.count pair + 1 := by
  have before := h.counts pair
  have balanced := Nat.not_lt.mp new
  rw [count_concat]
  split
  · rename_i same
    rw [same] at balanced
    omega
  · omega

theorem Inv.counts_cancel (h : Inv context s) {cancelled : Source × RunLoop}
    (live : Scheduled s cancelled) (pair : Source × RunLoop) :
    (s.cancels ++ [cancelled]).count pair ≤ s.schedules.count pair ∧
      s.schedules.count pair ≤ (s.cancels ++ [cancelled]).count pair + 1 := by
  have before := h.counts pair
  have more : s.cancels.count cancelled < s.schedules.count cancelled := live
  rw [count_concat]
  split
  · rename_i same
    rw [same] at more
    omega
  · omega

section Callbacks

omit [DecidableEq Source] [DecidableEq RunLoop]

variable (s) (source : Source) (runLoop : RunLoop)

theorem contexts_schedule : (s.schedule (some source) (some runLoop)).contexts =
    s.contexts ++ [⟨s.allocated, runLoop, source⟩] := by
  simp [State.contexts, State.schedule, Block.registered?]

theorem removals_schedule :
    (s.schedule (some source) (some runLoop)).removals = s.removals := by
  simp [State.removals, State.schedule, Block.removed?]

theorem contexts_cancel : (s.cancel (some source) (some runLoop)).contexts = s.contexts := by
  simp [State.contexts, State.cancel, Block.registered?]

theorem removals_cancel : (s.cancel (some source) (some runLoop)).removals =
    s.removals ++ [⟨s.allocated, runLoop, source⟩] := by
  simp [State.removals, State.cancel, Block.removed?]

end Callbacks

theorem Inv.schedule (h : Inv context s) (own : OwnInfo context) {source : Source}
    {runLoop : RunLoop} (new : ¬Scheduled s (source, runLoop)) :
    Inv context { s.schedule (context source).info (some runLoop) with
      schedules := s.schedules ++ [(source, runLoop)] } := by
  cases own source with
  | inl unknown =>
      rw [unknown]
      refine ⟨h.counts_schedule new, fun pair => ?_, h.allocated, h.apart⟩
      refine (h.created pair).trans ?_
      rw [count_concat]
      by_cases same : (source, runLoop) = pair
      · subst same
        simp [unknown]
      · simp [same]
  | inr known =>
      rw [known]
      have contexts := contexts_schedule s source runLoop
      have fresh : ∀ c ∈ (s.schedule (some source) (some runLoop)).contexts,
          c ∈ s.contexts ∨ c.object = s.allocated := by
        intro c member
        rw [contexts, List.mem_append, List.mem_singleton] at member
        exact member.imp_right fun new => by rw [new]
      refine ⟨h.counts_schedule new, fun pair => ?_, fun c member => ?_, fun d removal => ?_⟩
      · refine (congrArg (List.countP _) contexts).trans ?_
        rw [List.countP_append, h.created pair, count_concat]
        by_cases named : (source, runLoop) = pair
        · subst named
          simp [CusRunLoopContext.pair, known]
        · simp [CusRunLoopContext.pair, named]
      · cases fresh c member with
        | inl old => exact Nat.lt_succ_of_lt (h.allocated c old)
        | inr new => exact new ▸ Nat.lt_succ_self _
      · obtain ⟨older, others⟩ := h.apart d ((removals_schedule s source runLoop) ▸ removal)
        refine ⟨Nat.lt_succ_of_lt older, fun c member => ?_⟩
        cases fresh c member with
        | inl old => exact others c old
        | inr new => exact new ▸ Nat.ne_of_gt older

theorem Inv.cancel (h : Inv context s) (own : OwnInfo context) {source : Source}
    {runLoop : RunLoop} (live : Scheduled s (source, runLoop)) :
    Inv context { s.cancel (context source).info (some runLoop) with
      cancels := s.cancels ++ [(source, runLoop)] } := by
  cases own source with
  | inl unknown =>
      rw [unknown]
      exact ⟨h.counts_cancel live, h.created, h.allocated, h.apart⟩
  | inr known =>
      rw [known]
      have contexts := contexts_cancel s source runLoop
      refine ⟨h.counts_cancel live, fun pair => ?_, fun c member => ?_, fun d removal => ?_⟩
      · exact (congrArg (List.countP _) contexts).trans (h.created pair)
      · exact Nat.lt_succ_of_lt (h.allocated c (contexts ▸ member))
      · have removals := (removals_cancel s source runLoop) ▸ removal
        cases List.mem_append.mp removals with
        | inl old =>
            obtain ⟨older, others⟩ := h.apart d old
            exact ⟨Nat.lt_succ_of_lt older, fun c member => others c (contexts ▸ member)⟩
        | inr new =>
            obtain rfl := List.mem_singleton.mp new
            exact ⟨Nat.lt_succ_self _, fun c member =>
              Nat.ne_of_lt (h.allocated c (contexts ▸ member))⟩

theorem Inv.register (h : Inv context s) {sourceInfo : CusRunLoopContext Source RunLoop}
    {rest : List (Block Source RunLoop)} (queue : s.main = .register sourceInfo :: rest) :
    Inv context ({ s with main := rest }.register sourceInfo) := by
  have kept : ({ s with main := rest }.register sourceInfo).contexts = s.contexts := by
    simp [State.contexts, State.register, queue, Block.registered?]
  have same : ({ s with main := rest }.register sourceInfo).removals = s.removals := by
    simp [State.removals, State.register, queue, Block.removed?, List.filterMap_cons]
  refine ⟨h.counts, ?_, ?_, ?_⟩
  · rw [kept]
    exact h.created
  · rw [kept]
    exact h.allocated
  · rw [kept, same]
    exact h.apart

/-- The context to be removed was made for its removal, so nothing is equal to it. -/
theorem Inv.remove (h : Inv context s) {source : CusRunLoopContext Source RunLoop}
    {rest : List (Block Source RunLoop)} (queue : s.main = .remove source :: rest) :
    Inv context ({ s with main := rest }.remove source) := by
  have removals : s.removals = source :: rest.filterMap Block.removed? := by
    simp [State.removals, queue, Block.removed?]
  have others := (h.apart source (by simp [removals])).2
  have unequal : s.sourcesToPing.filter (fun c => !c.isEqual source) = s.sourcesToPing := by
    rw [List.filter_eq_self]
    intro c member
    have different := others c (List.mem_append_left _ member)
    simp [CusRunLoopContext.isEqual, different]
  have kept : ({ s with main := rest }.remove source).contexts = s.contexts := by
    simp [State.contexts, State.remove, queue, Block.registered?, List.filterMap_cons, unequal]
  refine ⟨h.counts, ?_, ?_, ?_⟩
  · rw [kept]
    exact h.created
  · rw [kept]
    exact h.allocated
  · rw [kept]
    exact fun d later => h.apart d (removals ▸ List.mem_cons_of_mem _ later)

theorem Inv.step (h : Inv context s) (own : OwnInfo context)
    (stepped : (machine context).step s e = some t) : Inv context t := by
  cases e with
  | schedule source runLoop =>
      simp only [machine, Option.ite_none_left_eq_some, Option.some.injEq] at stepped
      obtain ⟨new, rfl⟩ := stepped
      exact h.schedule own new
  | cancel source runLoop =>
      simp only [machine, Option.ite_none_right_eq_some, Option.some.injEq] at stepped
      obtain ⟨live, rfl⟩ := stepped
      exact h.cancel own live
  | main =>
      simp only [machine] at stepped
      split at stepped
      · rename_i sourceInfo rest queue
        obtain rfl := Option.some.inj stepped
        exact h.register queue
      · rename_i source rest queue
        obtain rfl := Option.some.inj stepped
        exact h.remove queue
      · cases stepped

/-- With the main queue idle, the registry is right about a source that is known in
    the callbacks while it was never cancelled, about one that is not while it is
    not scheduled. -/
theorem Inv.tracks_iff (h : Inv context s) (idle : s.main = []) :
    Tracks s ↔ ∀ pair, if (context pair.1).info.isSome then pair ∉ s.cancels
      else ¬Scheduled s pair := by
  apply forall_congr'
  intro pair
  have created := h.created pair
  have counts := h.counts pair
  have registered : s.contexts = s.sourcesToPing := by simp [State.contexts, idle]
  rw [registered] at created
  rw [created]
  by_cases live : Scheduled s pair
  · have more : s.cancels.count pair < s.schedules.count pair := live
    rw [if_pos live]
    split
    · rw [← List.count_pos_iff]
      omega
    · simp [live]
  · have same : ¬s.cancels.count pair < s.schedules.count pair := live
    rw [if_neg live]
    split
    · rw [← List.count_pos_iff]
      omega
    · simp [live]

end Steps

/-- With the contexts the sources really have, the idle registry is right exactly
    while nothing is scheduled. -/
theorem tracks_iff_nothing_scheduled (es : List (Event Source RunLoop)) :
    (machine fun _ : Source => sourceContext).Each (fun _ _ t => t.main = [] → Tracks t)
        State.start es ↔
      (machine fun _ : Source => sourceContext).Each
        (fun _ _ t => t.main = [] → ∀ pair, ¬Scheduled t pair) State.start es := by
  have own : OwnInfo fun _ : Source => sourceContext := fun _ => .inl rfl
  refine Machine.each_congr (I := Inv fun _ => sourceContext) ?_ ?_ Inv.start es
  · exact fun s e t inv stepped _ => inv.step own stepped
  · intro s e t inv stepped
    apply imp_congr_right
    intro idle
    rw [(inv.step own stepped).tracks_iff idle]
    rfl

/-- A source that was just added to a run loop is not in the registry. -/
theorem scheduled_not_registered :
    ¬(machine fun _ : Unit => sourceContext).Each (fun _ _ t => t.main = [] → Tracks t)
      (State.start : State Unit Unit) [.schedule () ()] := by
  intro all
  obtain ⟨tracks, -⟩ := all _ rfl
  have registered := tracks rfl ((), ())
  revert registered
  decide

end LearningProjects.RunLoop.SourceRegistry
