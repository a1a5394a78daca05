import LearningProjects.ObjC.WeakTable
import Mathlib.Data.List.Basic
import Mathlib.Logic.Function.Basic
import Mathlib.Tactic.Common

/-! # Weak variables

The functions behind `__weak` variables, over the weak tables of the side tables. A
program only sees the variables; that an object which goes away leaves none of them
behind rests on the tables listing exactly the variables that hold it.
-/

namespace LearningProjects.ObjC

/-- An address may be used again for another object. -/
inductive Life where
  | dead
  | live
  | deallocating
  deriving DecidableEq, Repr

inductive WeakFatal (Obj : Type) where
  | badWeakTable
  | cannotForm (o : Obj)
  deriving DecidableEq

inductive WeakRegisterDeallocatingOptions where
  | returnNilIfDeallocating
  | crashIfDeallocating
  | dontCheckDeallocating
  deriving DecidableEq, Repr

/-- The hashes, the side table of an object, and the tagged pointers. -/
structure WeakConfig (Obj Loc : Type) extends PtrHash Obj Loc where
  stripe : Obj → ℕ
  tagged : Obj → Bool

structure WeakWorld (Obj Loc : Type) where
  mem : Loc → Option Obj
  sideTables : ℕ → WeakTable Obj Loc
  life : Obj → Life
  weaklyReferenced : Obj → Bool
  informs : List Loc

namespace WeakWorld

variable {Obj Loc : Type} [DecidableEq Obj] [DecidableEq Loc] (c : WeakConfig Obj Loc)

def start : WeakWorld Obj Loc where
  mem _ := none
  sideTables _ := WeakTable.start
  life _ := .dead
  weaklyReferenced _ := false
  informs := []

def setMem (w : WeakWorld Obj Loc) (l : Loc) (x : Option Obj) : WeakWorld Obj Loc :=
  { w with mem := Function.update w.mem l x }

/-- `weak_unregister_no_lock` on the side table of the object. -/
def unregister (w : WeakWorld Obj Loc) (referent : Option Obj) (referrer : Loc) :
    Except (WeakFatal Obj) (WeakWorld Obj Loc) :=
  match referent with
  | none => .ok w
  | some o =>
      match WeakTable.unregister c.toPtrHash (w.sideTables (c.stripe o)) o referrer with
      | none => .error .badWeakTable
      | some (t, unknown) => .ok { w with
          sideTables := Function.update w.sideTables (c.stripe o) t
          informs := w.informs ++ unknown }

/-- `weak_register_no_lock`, for a class that leaves retaining to the runtime. -/
def register (w : WeakWorld Obj Loc) (referent : Option Obj) (referrer : Loc)
    (options : WeakRegisterDeallocatingOptions) :
    Except (WeakFatal Obj) (Option Obj × WeakWorld Obj Loc) :=
  match referent with
  | none => .ok (none, w)
  | some o =>
      if c.tagged o then .ok (some o, w)
      else if options ≠ .dontCheckDeallocating ∧ w.life o = .deallocating then
        if options = .crashIfDeallocating then .error (.cannotForm o) else .ok (none, w)
      else
        match WeakTable.register c.toPtrHash (w.sideTables (c.stripe o)) o referrer with
        | none => .error .badWeakTable
        | some t => .ok (some o, { w with
            sideTables := Function.update w.sideTables (c.stripe o) t })

def setWeaklyReferenced (w : WeakWorld Obj Loc) (x : Option Obj) : WeakWorld Obj Loc :=
  match x with
  | none => w
  | some o =>
      if c.tagged o then w
      else { w with weaklyReferenced := Function.update w.weaklyReferenced o true }

def storeWeak (haveOld haveNew crashIfDeallocating : Bool) (w : WeakWorld Obj Loc) (location : Loc)
    (newObj : Option Obj) : Except (WeakFatal Obj) (Option Obj × WeakWorld Obj Loc) := do
  let w ← if haveOld then unregister c w (w.mem location) location else .ok w
  if haveNew then
    let (newObj, w) ← register c w newObj location
      (if crashIfDeallocating then .crashIfDeallocating else .returnNilIfDeallocating)
    return (newObj, (setWeaklyReferenced c w newObj).setMem location newObj)
  else
    return (newObj, w)

def initWeak (crashIfDeallocating : Bool) (w : WeakWorld Obj Loc) (location : Loc)
    (newObj : Option Obj) : Except (WeakFatal Obj) (Option Obj × WeakWorld Obj Loc) :=
  match newObj with
  | none => .ok (none, w.setMem location none)
  | some o => storeWeak c false true crashIfDeallocating w location (some o)

/-- Retaining an object fails while it is deallocating. -/
def loadWeakRetained (w : WeakWorld Obj Loc) (location : Loc) : Option Obj :=
  match w.mem location with
  | none => none
  | some o => if c.tagged o then some o else if w.life o = .live then some o else none

def copyWeak (w : WeakWorld Obj Loc) (dst src : Loc) :
    Except (WeakFatal Obj) (Option Obj × WeakWorld Obj Loc) :=
  initWeak c true w dst (loadWeakRetained c w src)

def moveWeak (w : WeakWorld Obj Loc) (dst src : Loc) :
    Except (WeakFatal Obj) (Option Obj × WeakWorld Obj Loc) :=
  match w.mem src with
  | none => .ok (none, w.setMem dst none)
  | some o => do
      let w ← unregister c w (some o) src
      let (_, w) ← register c w (some o) dst .dontCheckDeallocating
      return (some o, (w.setMem dst (some o)).setMem src none)

/-- The loop over the referrers in `weak_clear_no_lock`. -/
def zero (o : Obj) (w : WeakWorld Obj Loc) (referrers : List Loc) : WeakWorld Obj Loc :=
  referrers.foldl (fun w referrer =>
    if w.mem referrer = some o then w.setMem referrer none
    else if (w.mem referrer).isSome then { w with informs := w.informs ++ [referrer] }
    else w) w

/-- `clearDeallocating`: only an object with the bit can be in a weak table. -/
def clearDeallocating (w : WeakWorld Obj Loc) (o : Obj) :
    Except (WeakFatal Obj) (WeakWorld Obj Loc) :=
  if w.weaklyReferenced o then
    match WeakTable.clear c.toPtrHash (w.sideTables (c.stripe o)) o with
    | none => .error .badWeakTable
    | some (t, referrers) => .ok (zero o
        { w with sideTables := Function.update w.sideTables (c.stripe o) t } referrers)
  else .ok w

end WeakWorld

/-- What a program does with objects and weak variables. -/
inductive WeakEvent (Obj Loc : Type) where
  | alloc (o : Obj)
  | lastRelease (o : Obj)
  | dispose (o : Obj)
  | initWeak (location : Loc) (newObj : Option Obj)
  | initWeakOrNil (location : Loc) (newObj : Option Obj)
  | storeWeak (location : Loc) (newObj : Option Obj)
  | storeWeakOrNil (location : Loc) (newObj : Option Obj)
  | destroyWeak (location : Loc)
  | loadWeak (location : Loc)
  | copyWeak (dst src : Loc)
  | moveWeak (dst src : Loc)
  deriving DecidableEq

namespace WeakWorld

variable {Obj Loc : Type} [DecidableEq Obj] [DecidableEq Loc] (c : WeakConfig Obj Loc)

/-- One event, with what it returns. A new object has a fresh isa. -/
def perform (w : WeakWorld Obj Loc) :
    WeakEvent Obj Loc → Except (WeakFatal Obj) (Option Obj × WeakWorld Obj Loc)
  | .alloc o => .ok (none, { w with
      life := Function.update w.life o .live
      weaklyReferenced := Function.update w.weaklyReferenced o false })
  | .lastRelease o => .ok (none, { w with life := Function.update w.life o .deallocating })
  | .dispose o => do
      let w ← clearDeallocating c w o
      return (none, { w with life := Function.update w.life o .dead })
  | .initWeak location newObj => initWeak c true w location newObj
  | .initWeakOrNil location newObj => initWeak c false w location newObj
  | .storeWeak location newObj => storeWeak c true true true w location newObj
  | .storeWeakOrNil location newObj => storeWeak c true true false w location newObj
  | .destroyWeak location => storeWeak c true false false w location none
  | .loadWeak location => .ok (loadWeakRetained c w location, w)
  | .copyWeak dst src => copyWeak c w dst src
  | .moveWeak dst src => moveWeak c w dst src

/-- A run, with everything that was returned. -/
def run (w : WeakWorld Obj Loc) :
    List (WeakEvent Obj Loc) → Except (WeakFatal Obj) (List (Option Obj) × WeakWorld Obj Loc)
  | [] => .ok ([], w)
  | e :: es => do
      let (x, w) ← perform c w e
      let (xs, w) ← run w es
      return (x :: xs, w)

end WeakWorld

/-! ## What weak variables are for -/

/-- The weak variables there are, with what they hold. -/
structure WeakVars (Obj Loc : Type) where
  vars : Loc → Option (Option Obj)
  life : Obj → Life

namespace WeakVars

variable {Obj Loc : Type} [DecidableEq Obj] [DecidableEq Loc] (c : WeakConfig Obj Loc)

def start : WeakVars Obj Loc := ⟨fun _ => none, fun _ => .dead⟩

def set (v : WeakVars Obj Loc) (l : Loc) (x : Option (Option Obj)) : WeakVars Obj Loc :=
  { v with vars := Function.update v.vars l x }

/-- What a variable gets when `newObj` is assigned. Nothing is formed to an object that
    is deallocating: the program halts, or gets nil. -/
def form (crashIfDeallocating : Bool) (v : WeakVars Obj Loc) (newObj : Option Obj) :
    Except (WeakFatal Obj) (Option Obj) :=
  match newObj with
  | none => .ok none
  | some o =>
      if c.tagged o = false ∧ v.life o = .deallocating then
        if crashIfDeallocating then .error (.cannotForm o) else .ok none
      else .ok (some o)

def load (v : WeakVars Obj Loc) (l : Loc) : Option Obj :=
  match (v.vars l).join with
  | none => none
  | some o => if c.tagged o = true ∨ v.life o = .live then some o else none

/-- An object that is disposed of leaves every variable which holds it nil. -/
def perform (v : WeakVars Obj Loc) :
    WeakEvent Obj Loc → Except (WeakFatal Obj) (Option Obj × WeakVars Obj Loc)
  | .alloc o => .ok (none, { v with life := Function.update v.life o .live })
  | .lastRelease o => .ok (none, { v with life := Function.update v.life o .deallocating })
  | .dispose o => .ok (none, {
      vars := fun l => if v.vars l = some (some o) then some none else v.vars l
      life := Function.update v.life o .dead })
  | .initWeak l newObj | .storeWeak l newObj =>
      (form c true v newObj).map fun x => (x, v.set l (some x))
  | .initWeakOrNil l newObj | .storeWeakOrNil l newObj =>
      (form c false v newObj).map fun x => (x, v.set l (some x))
  | .destroyWeak l => .ok (none, v.set l none)
  | .loadWeak l => .ok (load c v l, v)
  | .copyWeak dst src => .ok (load c v src, v.set dst (some (load c v src)))
  | .moveWeak dst src => .ok ((v.vars src).join, (v.set dst (v.vars src)).set src (some none))

/-- An object that may be assigned: its memory is still there. -/
def Usable (v : WeakVars Obj Loc) (newObj : Option Obj) : Prop :=
  ∀ o, newObj = some o → c.tagged o = true ∨ v.life o ≠ .dead

/-- What a program must keep to, and compilers do: a variable is initialized once
    before its other uses and not used after it is destroyed, and so is an object. -/
def Allowed (v : WeakVars Obj Loc) : WeakEvent Obj Loc → Prop
  | .alloc o => c.tagged o = false ∧ v.life o = .dead
  | .lastRelease o => c.tagged o = false ∧ v.life o = .live
  | .dispose o => c.tagged o = false ∧ v.life o = .deallocating
  | .initWeak l newObj | .initWeakOrNil l newObj => v.vars l = none ∧ Usable c v newObj
  | .storeWeak l newObj | .storeWeakOrNil l newObj => (v.vars l).isSome ∧ Usable c v newObj
  | .destroyWeak l | .loadWeak l => (v.vars l).isSome
  | .copyWeak dst src | .moveWeak dst src => v.vars dst = none ∧ (v.vars src).isSome

def run (v : WeakVars Obj Loc) :
    List (WeakEvent Obj Loc) → Except (WeakFatal Obj) (List (Option Obj) × WeakVars Obj Loc)
  | [] => .ok ([], v)
  | e :: es => do
      let (x, v) ← perform c v e
      let (xs, v) ← run v es
      return (x :: xs, v)

/-- Every event of a run is allowed where it happens. -/
def AllAllowed (v : WeakVars Obj Loc) : List (WeakEvent Obj Loc) → Prop
  | [] => True
  | e :: es => Allowed c v e ∧
      match perform c v e with
      | .error _ => True
      | .ok (_, u) => AllAllowed u es

end WeakVars

section Tables

variable {Obj Loc : Type} [DecidableEq Obj] [DecidableEq Loc] {c : WeakConfig Obj Loc}
  {R S : Obj → Loc → Prop} {tables : ℕ → WeakTable Obj Loc} {o : Obj} {l : Loc}

/-- The weak tables hold the pairs of `R`, each in the table of its object. -/
structure Tables (c : WeakConfig Obj Loc) (R : Obj → Loc → Prop)
    (tables : ℕ → WeakTable Obj Loc) : Prop where
  wf : ∀ s, WeakTable.Wf c.toPtrHash (tables s)
  has : ∀ s o, WeakTable.Has (tables s) o → c.stripe o = s ∧ c.tagged o = false
  refs : ∀ o l, WeakTable.Refs (tables (c.stripe o)) o l ↔ R o l

omit [DecidableEq Obj] [DecidableEq Loc] in
theorem Tables.congr (T : Tables c R tables) (same : ∀ o l, S o l ↔ R o l) : Tables c S tables :=
  ⟨T.wf, T.has, fun o l => (T.refs o l).trans (same o l).symm⟩

omit [DecidableEq Loc] in
/-- A change to the table of `o` that only concerns `o`. -/
theorem Tables.update (T : Tables c R tables) {t : WeakTable Obj Loc}
    (wf : WeakTable.Wf c.toPtrHash t) (plain : c.tagged o = false)
    (has : ∀ o', WeakTable.Has t o' → o' = o ∨ WeakTable.Has (tables (c.stripe o)) o')
    (refs : ∀ o' l', WeakTable.Refs t o' l' ↔
      if o' = o then S o l' else WeakTable.Refs (tables (c.stripe o)) o' l')
    (others : ∀ o' l', o' ≠ o → (S o' l' ↔ R o' l')) :
    Tables c S (Function.update tables (c.stripe o) t) := by
  constructor
  · intro s
    by_cases here : s = c.stripe o
    · rw [here, Function.update_self]
      exact wf
    · rw [Function.update_of_ne here]
      exact T.wf s
  · intro s o' there
    by_cases here : s = c.stripe o
    · rw [here, Function.update_self] at there
      cases has o' there with
      | inl same => exact ⟨by rw [same, here], same ▸ plain⟩
      | inr old => exact here ▸ T.has (c.stripe o) o' old
    · rw [Function.update_of_ne here] at there
      exact T.has s o' there
  · intro o' l'
    by_cases same : o' = o
    · subst same
      rw [Function.update_self, refs, if_pos rfl]
    · rw [others o' l' same, ← T.refs]
      by_cases here : c.stripe o' = c.stripe o
      · rw [here, Function.update_self, refs, if_neg same]
      · rw [Function.update_of_ne here]

omit [DecidableEq Loc] in
theorem Tables.register (T : Tables c R tables) (plain : c.tagged o = false) (fresh : ¬R o l) :
    ∃ t, WeakTable.register c.toPtrHash (tables (c.stripe o)) o l = some t ∧
      Tables c (fun o' l' => (o' = o ∧ l' = l) ∨ R o' l')
        (Function.update tables (c.stripe o) t) := by
  obtain ⟨t, registered, wf, has, refs⟩ := WeakTable.register_spec (T.wf (c.stripe o))
    (fun known => fresh ((T.refs o l).mp known))
  refine ⟨t, registered, T.update wf plain has (fun o' l' => ?_) fun o' l' other => ?_⟩
  · rw [refs]
    split_ifs with same
    · subst same
      rw [T.refs]
    · simp [same]
  · simp [other]

theorem Tables.unregister (T : Tables c R tables) (plain : c.tagged o = false) (known : R o l) :
    ∃ t, WeakTable.unregister c.toPtrHash (tables (c.stripe o)) o l = some (t, []) ∧
      Tables c (fun o' l' => R o' l' ∧ ¬(o' = o ∧ l' = l))
        (Function.update tables (c.stripe o) t) := by
  obtain ⟨t, unregistered, wf, has, refs⟩ := WeakTable.unregister_spec (T.wf (c.stripe o))
    ((T.refs o l).mpr known)
  refine ⟨t, unregistered, T.update wf plain (fun o' there => .inr (has o' there)) (fun o' l' => ?_)
    fun o' l' other => ?_⟩
  · rw [refs]
    split_ifs with same
    · subst same
      rw [T.refs]
    · simp [same]
  · simp [other]

theorem Tables.unregister_tagged (T : Tables c R tables) (tagged : c.tagged o = true) :
    WeakTable.unregister c.toPtrHash (tables (c.stripe o)) o l =
      some (tables (c.stripe o), []) := by
  refine WeakTable.unregister_of_not_has (T.wf (c.stripe o)) fun there => ?_
  have := (T.has _ o there).2
  rw [tagged] at this
  contradiction

omit [DecidableEq Loc] in
theorem Tables.clear (T : Tables c R tables) (plain : c.tagged o = false) :
    ∃ t ls, WeakTable.clear c.toPtrHash (tables (c.stripe o)) o = some (t, ls) ∧
      (∀ l, l ∈ ls ↔ R o l) ∧ ls.Nodup ∧
      Tables c (fun o' l' => o' ≠ o ∧ R o' l') (Function.update tables (c.stripe o) t) := by
  obtain ⟨t, ls, cleared, members, nodup, wf, has, refs⟩ :=
    WeakTable.clear_spec (T.wf (c.stripe o)) o
  refine ⟨t, ls, cleared, fun l => (members l).trans (T.refs o l), nodup,
    T.update wf plain (fun o' there => .inr (has o' there)) (fun o' l' => ?_) fun o' l' other => ?_⟩
  · rw [refs]
    split_ifs with same
    · simp [same]
    · simp [same]
  · simp [other]

end Tables

section Refinement

variable {Obj Loc : Type} [DecidableEq Obj] [DecidableEq Loc] {c : WeakConfig Obj Loc}
  {v : WeakVars Obj Loc} {w : WeakWorld Obj Loc} {l : Loc} {o : Obj} {x : Option Obj}

/-- The variable is to be in the weak table of the object. -/
def WeakVars.Holds (c : WeakConfig Obj Loc) (v : WeakVars Obj Loc) (o : Obj) (l : Loc) : Prop :=
  v.vars l = some (some o) ∧ c.tagged o = false

instance (o : Obj) (l : Loc) : Decidable (v.Holds c o l) := by
  unfold WeakVars.Holds
  infer_instance

/-- The variables in memory and the weak tables behind them. -/
structure Represents (c : WeakConfig Obj Loc) (v : WeakVars Obj Loc) (w : WeakWorld Obj Loc) :
    Prop where
  mem : ∀ l x, v.vars l = some x → w.mem l = x
  life : w.life = v.life
  tables : Tables c (v.Holds c) w.sideTables
  bit : ∀ o l, v.Holds c o l → w.weaklyReferenced o = true
  there : ∀ o l, v.Holds c o l → v.life o ≠ .dead
  quiet : w.informs = []

omit [DecidableEq Obj] in
@[simp] theorem WeakVars.vars_set (l' : Loc) (y : Option (Option Obj)) :
    (v.set l y).vars l' = if l' = l then y else v.vars l' := by
  simp [WeakVars.set, Function.update_apply]

omit [DecidableEq Obj] in
@[simp] theorem WeakVars.life_set (y : Option (Option Obj)) : (v.set l y).life = v.life := rfl

omit [DecidableEq Obj] in
theorem WeakVars.holds_set {y : Option (Option Obj)} {o' : Obj} {l' : Loc} :
    (v.set l y).Holds c o' l' ↔
      if l' = l then y = some (some o') ∧ c.tagged o' = false else v.Holds c o' l' := by
  unfold WeakVars.Holds
  rw [WeakVars.vars_set]
  split_ifs <;> rfl

omit [DecidableEq Obj] [DecidableEq Loc] in
theorem Represents.start : Represents c WeakVars.start WeakWorld.start where
  mem l x there := by simp [WeakVars.start] at there
  life := rfl
  tables := {
    wf := fun _ => ⟨.inl ⟨rfl, rfl⟩, fun e there => by
      simp [WeakWorld.start, WeakTable.start, Probed.contents] at there⟩
    has := fun s o there => by
      simp [WeakWorld.start, WeakTable.start, WeakTable.Has, Probed.contents] at there
    refs := fun o l => by
      simp [WeakWorld.start, WeakTable.start, WeakTable.Refs, Probed.contents, WeakVars.Holds,
        WeakVars.start] }
  bit o l holds := by simp [WeakVars.Holds, WeakVars.start] at holds
  there o l holds := by simp [WeakVars.Holds, WeakVars.start] at holds
  quiet := rfl

/-- Taking the old value of a variable out of its weak table. -/
theorem Represents.unregister (rep : Represents c v w) (var : v.vars l = some x) :
    ∃ u, w.unregister c x l = .ok u ∧ Represents c (v.set l none) u ∧ u.mem = w.mem ∧
      u.weaklyReferenced = w.weaklyReferenced := by
  have mem : ∀ l' y, (v.set l none).vars l' = some y → w.mem l' = y := fun l' y here => by
    rw [WeakVars.vars_set] at here
    split_ifs at here
    exact rep.mem l' y here
  have smaller : ∀ o' l', (v.set l none).Holds c o' l' → v.Holds c o' l' := fun o' l' holds => by
    rw [WeakVars.holds_set] at holds
    split_ifs at holds with same
    · simp at holds
    · exact holds
  -- nothing was registered for nil or for a tagged pointer
  have unchanged : (∀ o', ¬v.Holds c o' l) → Represents c (v.set l none) w := fun none_held =>
    { mem := mem
      life := rep.life
      tables := rep.tables.congr fun o' l' => by
        rw [WeakVars.holds_set]
        split_ifs with same
        · subst same
          simp [none_held o']
        · rfl
      bit := fun o' l' holds => rep.bit o' l' (smaller o' l' holds)
      there := fun o' l' holds => rep.there o' l' (smaller o' l' holds)
      quiet := rep.quiet }
  cases x with
  | none =>
      exact ⟨w, rfl, unchanged fun o' holds => by simp [WeakVars.Holds, var] at holds, rfl, rfl⟩
  | some o =>
      cases tagged : c.tagged o with
      | true =>
          refine ⟨w, ?_, unchanged fun o' holds => ?_, rfl, rfl⟩
          · simp only [WeakWorld.unregister, rep.tables.unregister_tagged tagged,
              Function.update_eq_self, List.append_nil]
          · obtain ⟨here, plain⟩ := holds
            obtain rfl : o = o' := by simpa [var] using here
            rw [tagged] at plain
            contradiction
      | false =>
          obtain ⟨t, unregistered, tables⟩ := rep.tables.unregister tagged ⟨var, tagged⟩
          refine ⟨{ w with sideTables := Function.update w.sideTables (c.stripe o) t },
            by simp [WeakWorld.unregister, unregistered], ?_, rfl, rfl⟩
          exact {
            mem := mem
            life := rep.life
            tables := tables.congr fun o' l' => by
              rw [WeakVars.holds_set]
              split_ifs with same
              · subst same
                simp only [false_and, false_iff, not_and, not_not, and_true]
                intro holds
                simpa [var, eq_comm] using holds.1
              · simp [same]
            bit := fun o' l' holds => rep.bit o' l' (smaller o' l' holds)
            there := fun o' l' holds => rep.there o' l' (smaller o' l' holds)
            quiet := rep.quiet }

omit [DecidableEq Loc] in
/-- Only the bit of the object changes. -/
theorem WeakWorld.setWeaklyReferenced_eq (x : Option Obj) : ∃ bits : Obj → Bool,
    w.setWeaklyReferenced c x = { w with weaklyReferenced := bits } ∧
      (∀ o, w.weaklyReferenced o = true → bits o = true) ∧
      ∀ o, x = some o → c.tagged o = false → bits o = true := by
  cases x with
  | none => exact ⟨w.weaklyReferenced, rfl, fun _ => id, by simp⟩
  | some o =>
      cases tagged : c.tagged o with
      | true =>
          refine ⟨w.weaklyReferenced, by simp [setWeaklyReferenced, tagged], fun _ => id, ?_⟩
          rintro o' ⟨⟩ plain
          rw [tagged] at plain
          contradiction
      | false =>
          refine ⟨Function.update w.weaklyReferenced o true, by simp [setWeaklyReferenced, tagged],
            fun o' set => ?_, ?_⟩
          · rw [Function.update_apply]
            split_ifs
            · rfl
            · exact set
          · rintro o' ⟨⟩ -
            simp

omit [DecidableEq Obj] in
/-- A world in which the memory and the tables have taken over a new value. -/
theorem Represents.put (rep : Represents c v w) {u : WeakWorld Obj Loc}
    (tables : Tables c ((v.set l (some x)).Holds c) u.sideTables) (mem : u.mem = w.mem)
    (life : u.life = w.life) (informs : u.informs = w.informs)
    (bits : ∀ o, w.weaklyReferenced o = true → u.weaklyReferenced o = true)
    (bit : ∀ o, x = some o → c.tagged o = false → u.weaklyReferenced o = true)
    (there : ∀ o, x = some o → c.tagged o = false → v.life o ≠ .dead) :
    Represents c (v.set l (some x)) (u.setMem l x) where
  mem l' y here := by
    rw [WeakVars.vars_set] at here
    change Function.update u.mem l x l' = y
    split_ifs at here with same
    · rw [same, Function.update_self]
      exact Option.some.inj here
    · rw [Function.update_of_ne same, mem]
      exact rep.mem l' y here
  life := life.trans rep.life
  tables := tables
  bit o' l' holds := by
    rw [WeakVars.holds_set] at holds
    split_ifs at holds with same
    · exact bit o' (Option.some.inj holds.1) holds.2
    · exact bits o' (rep.bit o' l' holds)
  there o' l' holds := by
    rw [WeakVars.holds_set] at holds
    split_ifs at holds with same
    · exact there o' (Option.some.inj holds.1) holds.2
    · exact rep.there o' l' holds
  quiet := informs.trans rep.quiet

omit [DecidableEq Obj] in
/-- A variable that holds no object, or a tagged pointer, is in no weak table. -/
theorem WeakVars.holds_set_free (free : v.vars l = none)
    (untracked : ∀ o, x = some o → c.tagged o = true) (o : Obj) (l' : Loc) :
    (v.set l (some x)).Holds c o l' ↔ v.Holds c o l' := by
  rw [WeakVars.holds_set]
  split_ifs with same
  · subst same
    constructor
    · intro holds
      have := untracked o (Option.some.inj holds.1)
      rw [holds.2] at this
      contradiction
    · intro holds
      simp [WeakVars.Holds, free] at holds
  · rfl

omit [DecidableEq Loc] in
/-- Putting a value into the weak table for a variable that is in none. -/
theorem Represents.register [DecidableEq Loc] (rep : Represents c v w) (free : v.vars l = none)
    (options : WeakRegisterDeallocatingOptions)
    (formed : ∀ o, x = some o → c.tagged o = false →
      options = .dontCheckDeallocating ∨ v.life o ≠ .deallocating) :
    ∃ u, w.register c x l options = .ok (x, u) ∧
      Tables c ((v.set l (some x)).Holds c) u.sideTables ∧ u.mem = w.mem ∧ u.life = w.life ∧
      u.informs = w.informs ∧ u.weaklyReferenced = w.weaklyReferenced := by
  cases x with
  | none => exact ⟨w, rfl, rep.tables.congr (WeakVars.holds_set_free free (by simp)),
      rfl, rfl, rfl, rfl⟩
  | some o =>
      cases tagged : c.tagged o with
      | true =>
          refine ⟨w, by simp [WeakWorld.register, tagged], rep.tables.congr
            (WeakVars.holds_set_free free ?_), rfl, rfl, rfl, rfl⟩
          rintro o' ⟨⟩
          exact tagged
      | false =>
          obtain ⟨t, registered, tables⟩ := rep.tables.register (l := l) tagged fun holds => by
            simp [WeakVars.Holds, free] at holds
          have viable : ¬(options ≠ .dontCheckDeallocating ∧ w.life o = .deallocating) := by
            rw [rep.life]
            cases formed o rfl tagged with
            | inl unchecked => exact fun both => both.1 unchecked
            | inr alive => exact fun both => alive both.2
          refine ⟨{ w with sideTables := Function.update w.sideTables (c.stripe o) t },
            by simp only [WeakWorld.register, tagged, Bool.false_eq_true, if_false, if_neg viable,
              registered], tables.congr fun o' l' => ?_, rfl, rfl, rfl, rfl⟩
          rw [WeakVars.holds_set]
          split_ifs with same
          · subst same
            simp only [Option.some.injEq, and_true]
            constructor
            · intro holds
              exact .inl holds.1.symm
            · intro either
              cases either with
              | inl here => exact ⟨here.symm, here ▸ tagged⟩
              | inr holds => simp [WeakVars.Holds, free] at holds
          · simp [same]

/-- Assigning to a variable that is in no weak table. -/
theorem Represents.assign (rep : Represents c v w) (free : v.vars l = none)
    (usable : v.Usable c x) (crash : Bool) :
    match v.form c crash x with
    | .error e => w.register c x l
        (if crash then .crashIfDeallocating else .returnNilIfDeallocating) =
        .error e
    | .ok y => ∃ u, w.register c x l
          (if crash then .crashIfDeallocating else .returnNilIfDeallocating) = .ok (y, u) ∧
        Represents c (v.set l (some y)) ((u.setWeaklyReferenced c y).setMem l y) := by
  by_cases refused : ∃ o, x = some o ∧ c.tagged o = false ∧ v.life o = .deallocating
  · obtain ⟨o, rfl, plain, gone⟩ := refused
    have world_gone : w.life o = .deallocating := by rw [rep.life, gone]
    cases crash with
    | true => simp [WeakVars.form, WeakWorld.register, plain, gone, world_gone]
    | false =>
        simp only [WeakVars.form, plain, gone, and_self, if_true, Bool.false_eq_true, if_false]
        refine ⟨w, by simp [WeakWorld.register, plain, world_gone], ?_⟩
        exact rep.put (rep.tables.congr (WeakVars.holds_set_free free (by simp))) rfl rfl rfl
          (fun _ => id) (by simp) (by simp)
  · have formed : v.form c crash x = .ok x := by
      cases x with
      | none => rfl
      | some o =>
          have viable : ¬(c.tagged o = false ∧ v.life o = .deallocating) := fun both =>
            refused ⟨o, rfl, both⟩
          simp only [WeakVars.form, if_neg viable]
    rw [formed]
    obtain ⟨u, registered, tables, mem, life, informs, bits⟩ := rep.register (x := x) free
      (if crash then .crashIfDeallocating else .returnNilIfDeallocating)
      fun o same plain => .inr fun gone => refused ⟨o, same, plain, gone⟩
    obtain ⟨set, result, more, own⟩ := WeakWorld.setWeaklyReferenced_eq (c := c) (w := u) x
    refine ⟨u, registered, result ▸ rep.put tables mem life informs (fun o old => ?_) own ?_⟩
    · exact more o (by rw [bits]; exact old)
    · intro o same plain
      cases usable o same with
      | inl tagged =>
          rw [plain] at tagged
          contradiction
      | inr alive => exact alive

omit [DecidableEq Obj] in
@[simp] theorem WeakVars.set_set (y z : Option (Option Obj)) : (v.set l y).set l z = v.set l z := by
  simp [WeakVars.set]

omit [DecidableEq Obj] in
theorem WeakVars.set_comm {l' : Loc} (other : l ≠ l') (y z : Option (Option Obj)) :
    (v.set l y).set l' z = (v.set l' z).set l y := by
  simp only [WeakVars.set, Function.update_comm other]

omit [DecidableEq Obj] [DecidableEq Loc] in
theorem WeakVars.form_congr {u : WeakVars Obj Loc} (life : u.life = v.life) (crash : Bool)
    (x : Option Obj) : u.form c crash x = v.form c crash x := by
  cases x <;> simp [WeakVars.form, life]

/-- What it means that an operation on the world does what the variables say. -/
def Simulates (c : WeakConfig Obj Loc)
    (result : Except (WeakFatal Obj) (Option Obj × WeakWorld Obj Loc))
    (expected : Except (WeakFatal Obj) (Option Obj × WeakVars Obj Loc)) : Prop :=
  match expected with
  | .error e => result = .error e
  | .ok (y, v) => ∃ u, result = .ok (y, u) ∧ Represents c v u

theorem Represents.initWeak (rep : Represents c v w) (free : v.vars l = none)
    (usable : v.Usable c x) (crash : Bool) :
    Simulates c (w.initWeak c crash l x)
      ((v.form c crash x).map fun y => (y, v.set l (some y))) := by
  cases x with
  | none =>
      exact ⟨_, rfl, rep.put (rep.tables.congr (WeakVars.holds_set_free free (by simp))) rfl rfl rfl
        (fun _ => id) (by simp) (by simp)⟩
  | some o =>
      have assigned := rep.assign free usable crash
      have unfolded : w.initWeak c crash l (some o) = (w.register c (some o) l
          (if crash then .crashIfDeallocating else .returnNilIfDeallocating)).map
            fun r => (r.1, (r.2.setWeaklyReferenced c r.1).setMem l r.1) := by
        simp only [WeakWorld.initWeak, WeakWorld.storeWeak, Bool.false_eq_true, if_false, if_true,
          bind, Except.bind, pure, Except.pure]
        cases w.register c (some o) l _ <;> rfl
      rw [unfolded]
      cases formed : v.form c crash (some o) with
      | error e =>
          rw [formed] at assigned
          simp only [assigned]
          rfl
      | ok y =>
          rw [formed] at assigned
          obtain ⟨u, registered, rep'⟩ := assigned
          simp only [registered]
          exact ⟨_, rfl, rep'⟩

theorem Represents.storeWeak (rep : Represents c v w) {old : Option Obj} (var : v.vars l = some old)
    (usable : v.Usable c x) (crash : Bool) :
    Simulates c (w.storeWeak c true true crash l x)
      ((v.form c crash x).map fun y => (y, v.set l (some y))) := by
  obtain ⟨w', unregistered, rep', -, -⟩ := rep.unregister var
  have assigned := rep'.assign (l := l) (x := x) (by simp) usable crash
  rw [WeakVars.form_congr (u := v.set l none) (v := v) rfl] at assigned
  have unfolded : w.storeWeak c true true crash l x = (w'.register c x l
      (if crash then .crashIfDeallocating else .returnNilIfDeallocating)).map
        fun r => (r.1, (r.2.setWeaklyReferenced c r.1).setMem l r.1) := by
    simp only [WeakWorld.storeWeak, if_true, rep.mem l old var, unregistered, bind,
      Except.bind, pure, Except.pure]
    cases w'.register c x l _ <;> rfl
  rw [unfolded]
  cases formed : v.form c crash x with
  | error e =>
      rw [formed] at assigned
      simp only [assigned]
      rfl
  | ok y =>
      rw [formed] at assigned
      obtain ⟨u, registered, rep''⟩ := assigned
      rw [WeakVars.set_set] at rep''
      simp only [registered]
      exact ⟨_, rfl, rep''⟩

theorem Represents.destroyWeak (rep : Represents c v w) (var : v.vars l = some x) :
    Simulates c (w.storeWeak c true false false l none) (.ok (none, v.set l none)) := by
  obtain ⟨w', unregistered, rep', -, -⟩ := rep.unregister var
  refine ⟨w', ?_, rep'⟩
  simp [WeakWorld.storeWeak, rep.mem l x var, unregistered, bind, Except.bind, pure, Except.pure]

omit [DecidableEq Obj] [DecidableEq Loc] in
theorem Represents.load (rep : Represents c v w) (var : v.vars l = some x) :
    w.loadWeakRetained c l = v.load c l := by
  cases x with
  | none => simp [WeakWorld.loadWeakRetained, WeakVars.load, rep.mem l none var, var]
  | some o =>
      cases tagged : c.tagged o with
      | true => simp [WeakWorld.loadWeakRetained, WeakVars.load, rep.mem l _ var, var, tagged]
      | false =>
          by_cases live : v.life o = .live <;>
            simp [WeakWorld.loadWeakRetained, WeakVars.load, rep.mem l _ var, var, tagged,
              rep.life, live]

omit [DecidableEq Obj] [DecidableEq Loc] in
/-- What was loaded can be assigned. -/
theorem WeakVars.form_load (crash : Bool) : v.form c crash (v.load c l) = .ok (v.load c l) ∧
    v.Usable c (v.load c l) := by
  unfold WeakVars.load
  cases held : (v.vars l).join with
  | none => exact ⟨rfl, by simp [WeakVars.Usable]⟩
  | some o =>
      cases tagged : c.tagged o with
      | true => simp [WeakVars.form, WeakVars.Usable, tagged]
      | false =>
          by_cases live : v.life o = .live
          · simp [WeakVars.form, WeakVars.Usable, tagged, live]
          · simp [WeakVars.form, WeakVars.Usable, tagged, live]

theorem Represents.copyWeak (rep : Represents c v w) {dst src : Loc} (free : v.vars dst = none)
    (var : v.vars src = some x) :
    Simulates c (w.copyWeak c dst src) (.ok (v.load c src, v.set dst (some (v.load c src)))) := by
  obtain ⟨formed, usable⟩ := WeakVars.form_load (c := c) (v := v) (l := src) true
  have copied := rep.initWeak free usable true
  rw [formed] at copied
  rw [WeakWorld.copyWeak, rep.load var]
  exact copied

theorem Represents.moveWeak (rep : Represents c v w) {dst src : Loc} (free : v.vars dst = none)
    (var : v.vars src = some x) :
    Simulates c (w.moveWeak c dst src) (.ok (x, (v.set dst (some x)).set src (some none))) := by
  have other : dst ≠ src := fun same => by
    subst same
    simp [free] at var
  cases x with
  | none =>
      have same : (v.set dst (some none)).set src (some none) = v.set dst (some none) := by
        rw [WeakVars.set_comm other]
        congr 1
        simp only [WeakVars.set, ← var, Function.update_eq_self]
      rw [same]
      refine ⟨w.setMem dst none, ?_, rep.put (rep.tables.congr
        (WeakVars.holds_set_free free (by simp))) rfl rfl rfl (fun _ => id) (by simp) (by simp)⟩
      simp [WeakWorld.moveWeak, rep.mem src none var]
  | some o =>
      obtain ⟨w', unregistered, rep', mem', bits'⟩ := rep.unregister var
      obtain ⟨u, registered, tables, mem, life, informs, bits⟩ := rep'.register (l := dst)
        (x := some o) (by simp [free, other]) .dontCheckDeallocating fun _ _ _ => .inl rfl
      have moved : Represents c ((v.set src none).set dst (some (some o)))
          (u.setMem dst (some o)) := by
        refine rep'.put tables mem life informs (fun o' old => by rw [bits]; exact old) ?_ ?_
        · rintro o' ⟨⟩ plain
          rw [bits, bits']
          exact rep.bit o src ⟨var, plain⟩
        · rintro o' ⟨⟩ plain
          exact rep.there o src ⟨var, plain⟩
      have emptied := moved.put (l := src) (x := none) (u := u.setMem dst (some o))
        (moved.tables.congr (WeakVars.holds_set_free (by simp [other.symm]) (by simp))) rfl rfl rfl
        (fun _ => id) (by simp) (by simp)
      rw [WeakVars.set_comm other.symm, WeakVars.set_set] at emptied
      refine ⟨_, ?_, emptied⟩
      simp [WeakWorld.moveWeak, rep.mem src _ var, unregistered, registered, bind,
        Except.bind, pure, Except.pure]

/-- Every variable of the list holds the object, so that all become nil and there is
    nothing to complain of. -/
theorem WeakWorld.zero_eq {referrers : List Loc} (nodup : referrers.Nodup)
    (hold : ∀ l ∈ referrers, w.mem l = some o) :
    w.zero o referrers = { w with mem := fun l => if l ∈ referrers then none else w.mem l } := by
  induction referrers generalizing w with
  | nil => simp [zero]
  | cons l ls ih =>
      rw [List.nodup_cons] at nodup
      rw [List.forall_mem_cons] at hold
      have next : ∀ l' ∈ ls, (w.setMem l none).mem l' = some o := fun l' there => by
        have other : l' ≠ l := fun same => nodup.1 (same ▸ there)
        change Function.update w.mem l none l' = some o
        rw [Function.update_of_ne other]
        exact hold.2 l' there
      have rest := ih nodup.2 next
      simp only [zero, List.foldl_cons, hold.1, if_true] at rest ⊢
      rw [rest]
      simp only [setMem, mk.injEq, and_true]
      funext l'
      by_cases same : l' = l
      · simp [same]
      · simp [same]

theorem Represents.clear (rep : Represents c v w) (plain : c.tagged o = false) :
    ∃ u, w.clearDeallocating c o = .ok u ∧ u.life = w.life ∧ u.informs = w.informs ∧
      u.weaklyReferenced = w.weaklyReferenced ∧
      (∀ l, u.mem l = if v.Holds c o l then none else w.mem l) ∧
      Tables c (fun o' l => o' ≠ o ∧ v.Holds c o' l) u.sideTables := by
  cases referenced : w.weaklyReferenced o with
  | false =>
      -- without the bit no variable holds the object
      have unheld : ∀ l, ¬v.Holds c o l := fun l holds => by
        have := rep.bit o l holds
        rw [referenced] at this
        contradiction
      refine ⟨w, by simp [WeakWorld.clearDeallocating, referenced], rfl, rfl, rfl,
        fun l => by simp [unheld l], rep.tables.congr fun o' l => ?_⟩
      constructor
      · exact fun both => both.2
      · exact fun holds => ⟨fun same => unheld l (same ▸ holds), holds⟩
  | true =>
      obtain ⟨t, ls, cleared, members, nodup, tables⟩ := rep.tables.clear plain
      have zeroed := WeakWorld.zero_eq (o := o)
        (w := { w with sideTables := Function.update w.sideTables (c.stripe o) t }) nodup
        fun l there => rep.mem l _ ((members l).mp there).1
      refine ⟨_, by simp only [WeakWorld.clearDeallocating, referenced, if_true, cleared]; rfl, ?_⟩
      rw [zeroed]
      refine ⟨rfl, rfl, rfl, fun l => ?_, tables⟩
      simp only [members]

theorem Represents.dispose (rep : Represents c v w) (plain : c.tagged o = false) :
    Simulates c (w.perform c (.dispose o)) (v.perform c (.dispose o)) := by
  obtain ⟨u, cleared, life, informs, bits, mem, tables⟩ := rep.clear plain
  refine ⟨{ u with life := Function.update u.life o .dead }, by
    simp [WeakWorld.perform, cleared, bind, Except.bind, pure, Except.pure], ?_⟩
  have held : ∀ o' l, WeakVars.Holds c ⟨fun l => if v.vars l = some (some o) then some none
      else v.vars l, Function.update v.life o .dead⟩ o' l ↔ o' ≠ o ∧ v.Holds c o' l := by
    intro o' l
    unfold WeakVars.Holds
    by_cases here : v.vars l = some (some o)
    · simp only [if_pos here]
      constructor
      · intro holds
        simp at holds
      · intro both
        have same : o = o' := by simpa using here.symm.trans both.2.1
        exact absurd same.symm both.1
    · simp only [if_neg here]
      constructor
      · exact fun holds => ⟨fun same => here (same ▸ holds.1), holds⟩
      · exact fun both => both.2
  constructor
  case mem =>
    intro l x here
    simp only at here
    rw [mem]
    by_cases holds : v.vars l = some (some o)
    · rw [if_pos holds] at here
      rw [if_pos ⟨holds, plain⟩]
      exact Option.some.inj here
    · rw [if_neg holds] at here
      rw [if_neg fun both => holds both.1]
      exact rep.mem l x here
  case life => simp [life, rep.life]
  case tables => exact tables.congr held
  case bit =>
    intro o' l holds
    simp only [bits]
    exact rep.bit o' l ((held o' l).mp holds).2
  case there =>
    intro o' l holds
    obtain ⟨other, before⟩ := (held o' l).mp holds
    simp only
    rw [Function.update_of_ne other]
    exact rep.there o' l before
  case quiet => exact informs.trans rep.quiet

/-- Every event does to the world what it does to the variables. -/
theorem Represents.step (rep : Represents c v w) (e : WeakEvent Obj Loc) (allowed : v.Allowed c e) :
    Simulates c (w.perform c e) (v.perform c e) := by
  cases e with
  | alloc o =>
      refine ⟨_, rfl, ?_⟩
      have other : ∀ o' l, v.Holds c o' l → o' ≠ o := fun o' l holds same =>
        rep.there o' l holds (same ▸ allowed.2)
      exact {
        mem := rep.mem
        life := by rw [← rep.life]
        tables := rep.tables
        bit := fun o' l holds => by
          change Function.update w.weaklyReferenced o false o' = true
          rw [Function.update_of_ne (other o' l holds)]
          exact rep.bit o' l holds
        there := fun o' l holds => by
          change Function.update v.life o .live o' ≠ .dead
          rw [Function.update_of_ne (other o' l holds)]
          exact rep.there o' l holds
        quiet := rep.quiet }
  | lastRelease o =>
      refine ⟨_, rfl, ?_⟩
      exact {
        mem := rep.mem
        life := by rw [← rep.life]
        tables := rep.tables
        bit := rep.bit
        there := fun o' l holds => by
          change Function.update v.life o .deallocating o' ≠ .dead
          rw [Function.update_apply]
          split_ifs
          · simp
          · exact rep.there o' l holds
        quiet := rep.quiet }
  | dispose o => exact rep.dispose allowed.1
  | initWeak l x => exact rep.initWeak allowed.1 allowed.2 true
  | initWeakOrNil l x => exact rep.initWeak allowed.1 allowed.2 false
  | storeWeak l x =>
      obtain ⟨old, var⟩ := Option.isSome_iff_exists.mp allowed.1
      exact rep.storeWeak var allowed.2 true
  | storeWeakOrNil l x =>
      obtain ⟨old, var⟩ := Option.isSome_iff_exists.mp allowed.1
      exact rep.storeWeak var allowed.2 false
  | destroyWeak l =>
      obtain ⟨x, var⟩ := Option.isSome_iff_exists.mp allowed
      exact rep.destroyWeak var
  | loadWeak l =>
      obtain ⟨x, var⟩ := Option.isSome_iff_exists.mp allowed
      exact ⟨w, by rw [WeakWorld.perform, rep.load var], rep⟩
  | copyWeak dst src =>
      obtain ⟨x, var⟩ := Option.isSome_iff_exists.mp allowed.2
      exact rep.copyWeak allowed.1 var
  | moveWeak dst src =>
      obtain ⟨x, var⟩ := Option.isSome_iff_exists.mp allowed.2
      have moved := rep.moveWeak allowed.1 var
      simpa [WeakWorld.perform, WeakVars.perform, var] using moved

theorem Represents.run (rep : Represents c v w) (es : List (WeakEvent Obj Loc))
    (allowed : v.AllAllowed c es) :
    match v.run c es with
    | .error e => w.run c es = .error e
    | .ok (xs, u) => ∃ w', w.run c es = .ok (xs, w') ∧ Represents c u w' := by
  induction es generalizing v w with
  | nil => exact ⟨w, rfl, rep⟩
  | cons e es ih =>
      have step := rep.step e allowed.1
      cases here : v.perform c e with
      | error fatal =>
          rw [here] at step
          simp only [WeakVars.run, here, bind, Except.bind]
          simp only [WeakWorld.run, bind, Except.bind]
          rw [show w.perform c e = .error fatal from step]
      | ok r =>
          obtain ⟨x, v'⟩ := r
          rw [here] at step
          obtain ⟨w', there, rep'⟩ := step
          have later := allowed.2
          rw [here] at later
          have rest := ih rep' later
          simp only [WeakVars.run, WeakWorld.run, here, there, bind, Except.bind]
          cases runs : v'.run c es with
          | error fatal =>
              rw [runs] at rest
              simp only [rest]
          | ok r =>
              obtain ⟨xs, u⟩ := r
              rw [runs] at rest
              obtain ⟨w'', there', rep''⟩ := rest
              exact ⟨w'', by simp only [there', pure, Except.pure], rep''⟩

/-- In every run the hash tables do their work and are never seen: each weak variable
    holds and returns what it would without them, none is left that holds an object
    which is gone, the tables are never found bad, and nothing is complained of. A run
    halts only where a variable is to be formed to an object that is deallocating. -/
theorem weak_run (c : WeakConfig Obj Loc) (es : List (WeakEvent Obj Loc))
    (allowed : WeakVars.start.AllAllowed c es) :
    match WeakVars.start.run c es with
    | .error e => WeakWorld.start.run c es = .error e
    | .ok (xs, v) => ∃ w, WeakWorld.start.run c es = .ok (xs, w) ∧ w.informs = [] ∧
        (∀ l x, v.vars l = some x → w.mem l = x) ∧
        ∀ l o, v.vars l = some (some o) → c.tagged o = false → v.life o ≠ .dead := by
  have runs := Represents.start.run es allowed
  cases result : WeakVars.start.run c es with
  | error e =>
      rw [result] at runs
      exact runs
  | ok r =>
      rw [result] at runs
      obtain ⟨w, there, rep⟩ := runs
      exact ⟨w, there, rep.quiet, rep.mem, fun l o held plain => rep.there o l ⟨held, plain⟩⟩

end Refinement

section Witness

/-- Addresses that are their own hashes, in eight side tables. -/
def plainConfig : WeakConfig ℕ ℕ := ⟨⟨id, id⟩, (· % 8), fun _ => false⟩

/-- Six variables of one object, so that they are kept out of line, and its end. -/
def sixVariables : List (WeakEvent ℕ ℕ) :=
  [.alloc 9, .alloc 17, .initWeak 0 (some 9), .initWeak 1 (some 9), .initWeak 2 (some 9),
    .initWeak 3 (some 9), .copyWeak 4 0, .moveWeak 5 1, .storeWeak 1 none, .storeWeak 2 (some 17),
    .destroyWeak 3, .lastRelease 9, .dispose 9, .loadWeak 0, .loadWeak 2, .loadWeak 5]

theorem weak_run_sixVariables : ∃ w, WeakWorld.start.run plainConfig sixVariables =
      .ok ([none, none, some 9, some 9, some 9, some 9, some 9, some 9, none, some 17, none, none,
        none, none, some 17, none], w) ∧ w.informs = [] := by
  have runs := weak_run plainConfig sixVariables (by
    simp [sixVariables, WeakVars.AllAllowed, WeakVars.Allowed, WeakVars.perform, WeakVars.form,
      WeakVars.Usable, WeakVars.set, WeakVars.load, WeakVars.start, plainConfig, Except.map,
      Function.update_apply])
  obtain ⟨w, there, quiet, -⟩ := runs
  exact ⟨w, there, quiet⟩

end Witness

end LearningProjects.ObjC
