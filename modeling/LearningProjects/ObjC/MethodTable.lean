import Mathlib.Data.List.Basic
import Mathlib.Data.List.Nodup
import Mathlib.Logic.Function.Basic
import Mathlib.Tactic.Common

/-! # Classes and their method lists

The part of `objc-runtime-new.mm` which finds and changes methods. A class keeps
a method list of its own; a selector that is not in it is looked for along the
superclasses. A metaclass is a class like any other, so class methods are the
instance methods of `getMeta`.
-/

namespace LearningProjects.ObjC

/-- Classes with their superclasses. Every chain of superclasses ends, so that
    `lineage` can list it; the list starts with the class itself. -/
structure Hierarchy (Class : Type*) where
  superclass : Class → Option Class
  getMeta : Class → Class
  lineage : Class → List Class
  lineage_eq : ∀ c, lineage c = c :: (superclass c).elim [] lineage

namespace Hierarchy

variable {Class : Type*} (h : Hierarchy Class) {c d x : Class}

theorem mem_lineage_self : c ∈ h.lineage c := by
  rw [h.lineage_eq]
  exact List.mem_cons_self

theorem lineage_induction {P : Class → Prop}
    (step : ∀ c, (∀ d, h.superclass c = some d → P d) → P c) (c : Class) : P c := by
  induction size : (h.lineage c).length using Nat.strongRecOn generalizing c with
  | ind n ih =>
      refine step c fun d above => ih (h.lineage d).length ?_ d rfl
      rw [← size, h.lineage_eq c, above]
      simp

/-- The chain of a class ends with the chain of each class in it. -/
theorem lineage_suffix : d ∈ h.lineage c → h.lineage d <:+ h.lineage c := by
  induction c using h.lineage_induction with
  | step c ih =>
      intro there
      rw [h.lineage_eq c] at there
      rcases List.mem_cons.mp there with rfl | later
      · exact List.suffix_rfl
      · cases above : h.superclass c with
        | none => simp [above] at later
        | some b =>
            rw [above] at later
            rw [h.lineage_eq c, above]
            exact (ih b above later).trans (List.suffix_cons c _)

theorem lineage_trans (hd : d ∈ h.lineage c) (hx : x ∈ h.lineage d) : x ∈ h.lineage c :=
  (h.lineage_suffix hd).subset hx

/-- Two classes in each other's chains are one. -/
theorem lineage_antisymm (hd : d ∈ h.lineage c) (hc : c ∈ h.lineage d) : c = d := by
  have same : h.lineage c = h.lineage d :=
    (h.lineage_suffix hc).eq_of_length_le (h.lineage_suffix hd).length_le
  rw [h.lineage_eq c, h.lineage_eq d] at same
  exact (List.cons.inj same).1

/-- Of two classes in one chain, one inherits from the other. -/
theorem lineage_total (hc : c ∈ h.lineage x) (hd : d ∈ h.lineage x) :
    c ∈ h.lineage d ∨ d ∈ h.lineage c := by
  rcases List.suffix_or_suffix_of_suffix (h.lineage_suffix hc) (h.lineage_suffix hd) with up | up
  · exact .inl (up.subset h.mem_lineage_self)
  · exact .inr (up.subset h.mem_lineage_self)

end Hierarchy

/-- What every class has in its own method list: `some none` is a method whose
    `imp` is nil. -/
abbrev MethodLists (Class SEL Body : Type*) := Class → SEL → Option (Option Body)

/-- A `Method` points into the method list that holds it. -/
structure Method (Class SEL : Type*) where
  owner : Class
  name : SEL
  deriving DecidableEq, Repr

/-- What a message send finds: the `imp` of a method, or `_objc_msgForward`. -/
inductive Entry (Body : Type*) where
  | imp (body : Option Body)
  | forward
  deriving DecidableEq, Repr

namespace MethodLists

variable {Class SEL Body : Type*}

section Find

variable (h : Hierarchy Class) (t : MethodLists Class SEL Body)

def getMethodNoSuper (c : Class) (s : SEL) : Option (Method Class SEL) :=
  (t c s).map fun _ => ⟨c, s⟩

/-- The loop over the superclasses in `getMethod_nolock`. -/
def getMethod (c : Class) (s : SEL) : Option (Method Class SEL) :=
  (h.lineage c).findSome? fun d => t.getMethodNoSuper d s

def classGetInstanceMethod (c : Option Class) (s : SEL) : Option (Method Class SEL) :=
  c.bind fun c => t.getMethod h c s

def classGetClassMethod (c : Option Class) (s : SEL) : Option (Method Class SEL) :=
  t.classGetInstanceMethod h (c.map h.getMeta) s

/-- `method_getImplementation`, nil for a null method. -/
def getImplementation (m : Option (Method Class SEL)) : Option Body :=
  m.bind fun m => (t m.owner m.name).join

/-- What a lookup without any cache returns for a message `s` to an instance of `c`. -/
def lookUp (c : Class) (s : SEL) : Entry Body :=
  match t.getMethod h c s with
  | none => .forward
  | some m => .imp (t m.owner m.name).join

end Find

section Change

variable [DecidableEq Class] [DecidableEq SEL] (t : MethodLists Class SEL Body)

def set (m : Method Class SEL) (imp : Option Body) : MethodLists Class SEL Body :=
  fun c s => if c = m.owner ∧ s = m.name then some imp else t c s

/-- `_method_setImplementation`: nothing happens on a null method or a nil `imp`. -/
def methodSetImplementation (m : Option (Method Class SEL)) (imp : Option Body) :
    MethodLists Class SEL Body × Option Body :=
  match m, imp with
  | some m, some body => (t.set m (some body), t.getImplementation (some m))
  | _, _ => (t, none)

def addMethod (c : Class) (s : SEL) (imp : Option Body) (replace : Bool) :
    MethodLists Class SEL Body × Option Body :=
  match t.getMethodNoSuper c s with
  | some m =>
      if replace then t.methodSetImplementation (some m) imp
      else (t, t.getImplementation (some m))
  | none => (t.set ⟨c, s⟩ imp, none)

/-- The result is negated from the `imp` that `addMethod` returns, so a method
    that exists with a nil `imp` counts as added. -/
def classAddMethod (c : Option Class) (s : SEL) (imp : Option Body) :
    MethodLists Class SEL Body × Bool :=
  match c with
  | none => (t, false)
  | some c => ((t.addMethod c s imp false).1, (t.addMethod c s imp false).2.isNone)

def classReplaceMethod (c : Option Class) (s : SEL) (imp : Option Body) :
    MethodLists Class SEL Body × Option Body :=
  match c with
  | none => (t, none)
  | some c => t.addMethod c s imp true

def methodExchangeImplementations (m1 m2 : Option (Method Class SEL)) :
    MethodLists Class SEL Body :=
  match m1, m2 with
  | some m1, some m2 =>
      (t.set m1 (t.getImplementation (some m2))).set m2 (t.getImplementation (some m1))
  | _, _ => t

end Change

section Lemmas

variable {h : Hierarchy Class} {t : MethodLists Class SEL Body} {c d x : Class} {s r : SEL}
  {m : Method Class SEL} {imp : Option Body}

theorem getMethodNoSuper_eq_some :
    t.getMethodNoSuper c s = some m ↔ m = ⟨c, s⟩ ∧ (t c s).isSome := by
  cases own : t c s with
  | none => simp [getMethodNoSuper, own]
  | some i => simp [getMethodNoSuper, own, eq_comm]

/-- A lookup stops at the first class of the chain that has the selector. -/
theorem getMethod_eq : t.getMethod h c s =
    ((h.lineage c).find? fun d => (t d s).isSome).map fun d => ⟨d, s⟩ := by
  unfold getMethod
  induction h.lineage c with
  | nil => rfl
  | cons d ds ih =>
      cases own : t d s with
      | none => simpa [getMethodNoSuper, own] using ih
      | some i => simp [getMethodNoSuper, own]

theorem getMethod_step : t.getMethod h c s =
    if (t c s).isSome then some ⟨c, s⟩ else (h.superclass c).elim none fun d =>
      t.getMethod h d s := by
  rw [getMethod, h.lineage_eq]
  cases own : t c s with
  | none => cases above : h.superclass c <;> simp [getMethodNoSuper, own, getMethod]
  | some i => simp [getMethodNoSuper, own]

theorem name_of_getMethod (found : t.getMethod h c s = some m) : m.name = s := by
  rw [getMethod_eq, Option.map_eq_some_iff] at found
  obtain ⟨d, -, rfl⟩ := found
  rfl

theorem owner_of_getMethod (found : t.getMethod h c s = some m) :
    m.owner ∈ h.lineage c ∧ (t m.owner s).isSome := by
  rw [getMethod_eq, Option.map_eq_some_iff] at found
  obtain ⟨d, first, rfl⟩ := found
  have has := List.find?_some first
  exact ⟨List.mem_of_find?_eq_some first, has⟩

/-- A lookup depends only on which classes of the chain have the selector. -/
theorem getMethod_congr {u : MethodLists Class SEL Body}
    (same : ∀ d ∈ h.lineage c, (u d s).isSome = (t d s).isSome) :
    u.getMethod h c s = t.getMethod h c s := by
  rw [getMethod_eq, getMethod_eq]
  congr 1
  generalize h.lineage c = chain at same
  induction chain with
  | nil => rfl
  | cons d ds ih =>
      have here := same d List.mem_cons_self
      have rest := ih fun e there => same e (List.mem_cons_of_mem d there)
      simp only [List.find?_cons, here, rest]

/-- The method found is the one in the chain that no class below overrides. -/
theorem getMethod_eq_some_iff : t.getMethod h c s = some m ↔
    m.name = s ∧ m.owner ∈ h.lineage c ∧ (t m.owner s).isSome ∧
      ∀ d ∈ h.lineage c, d ∉ h.lineage m.owner → t d s = none := by
  induction c using h.lineage_induction with
  | step c ih =>
      rw [getMethod_step]
      cases own : t c s with
      | some i =>
          simp only [Option.isSome_some, if_true, Option.some.injEq]
          constructor
          · rintro rfl
            refine ⟨rfl, h.mem_lineage_self,
              by simp [own], fun d below unlike => absurd below unlike⟩
          · rintro ⟨rfl, above, -, first⟩
            have reached : c ∈ h.lineage m.owner := by
              by_contra below
              have missing := first c h.mem_lineage_self below
              rw [own] at missing
              contradiction
            rw [h.lineage_antisymm above reached]
      | none =>
          cases above : h.superclass c with
          | none =>
              have alone : h.lineage c = [c] := by simp [h.lineage_eq c, above]
              simp only [Option.isSome_none, Bool.false_eq_true, if_false, Option.elim_none, alone,
                List.mem_singleton, false_iff, reduceCtorEq]
              rintro ⟨-, here, has, -⟩
              simp [here, own] at has
          | some b =>
              simp only [Option.isSome_none, Bool.false_eq_true, if_false, Option.elim_some,
                ih b above, h.lineage_eq c, above, List.mem_cons]
              constructor
              · rintro ⟨name, there, has, first⟩
                refine ⟨name, .inr there, has, ?_⟩
                rintro d (rfl | later) unlike
                · exact own
                · exact first d later unlike
              · rintro ⟨name, here | there, has, first⟩
                · simp [here, own] at has
                · exact ⟨name, there, has, fun d later => first d (.inr later)⟩

theorem lookUp_step : t.lookUp h c s =
    match t c s with
    | some imp => .imp imp
    | none => (h.superclass c).elim .forward fun d => t.lookUp h d s := by
  rw [lookUp, getMethod_step]
  cases own : t c s with
  | none => cases above : h.superclass c <;> simp [lookUp]
  | some i => simp [own]

theorem lookUp_eq_imp (found : t.getMethod h c s = some m) :
    t.lookUp h c s = .imp (t.getImplementation (some m)) := by
  simp [lookUp, found, getImplementation]

theorem lookUp_eq_some_iff {body : Body} : t.lookUp h c s = .imp (some body) ↔
    ∃ m, t.getMethod h c s = some m ∧ t m.owner m.name = some (some body) := by
  cases found : t.getMethod h c s with
  | none => simp [lookUp, found]
  | some m => cases own : t m.owner m.name <;> simp [lookUp, found, own]

theorem lookUp_eq_forward_iff : t.lookUp h c s = .forward ↔ ∀ d ∈ h.lineage c, t d s = none := by
  have none_found : t.lookUp h c s = .forward ↔ t.getMethod h c s = none := by
    cases found : t.getMethod h c s <;> simp [lookUp, found]
  rw [none_found, getMethod_eq]
  simp

end Lemmas

section Set

variable [DecidableEq Class] [DecidableEq SEL] {h : Hierarchy Class}
  {t : MethodLists Class SEL Body} {c d : Class} {s r : SEL} {m : Method Class SEL}
  {imp : Option Body}

@[simp] theorem set_self : t.set m imp m.owner m.name = some imp := by simp [set]

theorem set_of_ne (other : d = m.owner → r ≠ m.name) : t.set m imp d r = t d r := by
  simp only [set, ite_eq_right_iff, and_imp]
  exact fun owner name => absurd name (other owner)

theorem isSome_set (there : (t d r).isSome) : (t.set m imp d r).isSome := by
  unfold set
  split_ifs with self
  · rfl
  · exact there

theorem set_of_name_ne (other : r ≠ m.name) : t.set m imp d r = t d r :=
  set_of_ne fun _ => other

/-- Setting an existing method moves no lookup to another method. -/
theorem getMethod_set (there : (t m.owner m.name).isSome) :
    (t.set m imp).getMethod h c s = t.getMethod h c s := by
  refine getMethod_congr fun d _ => ?_
  by_cases self : d = m.owner ∧ s = m.name
  · rw [self.1, self.2, set_self, there]
    rfl
  · rw [set_of_ne fun owner name => self ⟨owner, name⟩]

/-- A lookup through a method that was set gives the new `imp`, every other
    lookup is what it was. -/
theorem lookUp_set (there : (t m.owner m.name).isSome) :
    (t.set m imp).lookUp h c s =
      if t.getMethod h c s = some m then .imp imp else t.lookUp h c s := by
  cases found : t.getMethod h c s with
  | none => simp [lookUp, getMethod_set there, found]
  | some m' =>
      by_cases same : m' = m
      · subst same
        simp [lookUp, getMethod_set there, found]
      · have untouched : t.set m imp m'.owner m'.name = t m'.owner m'.name := by
          refine set_of_ne fun owner name => same ?_
          cases m
          cases m'
          exact congrArg₂ Method.mk owner name
        simp [lookUp, getMethod_set there, found, same, untouched]

/-- A new method of `c` changes no lookup for a class outside of `c` and its subclasses. -/
theorem lookUp_set_outside (outside : m.owner ∉ h.lineage c) :
    (t.set m imp).lookUp h c s = t.lookUp h c s := by
  have untouched : ∀ d ∈ h.lineage c, t.set m imp d s = t d s := fun d there =>
    set_of_ne fun owner => absurd (owner ▸ there) outside
  have same : (t.set m imp).getMethod h c s = t.getMethod h c s :=
    getMethod_congr fun d there => by rw [untouched d there]
  cases found : t.getMethod h c s with
  | none => simp [lookUp, same, found]
  | some m' =>
      have kept := untouched m'.owner (owner_of_getMethod found).1
      rw [← name_of_getMethod found] at kept
      simp [lookUp, same, found, kept]

theorem isSome_addMethod {replace : Bool} (there : (t d r).isSome) :
    ((t.addMethod c s imp replace).1 d r).isSome := by
  unfold addMethod
  cases t.getMethodNoSuper c s with
  | none => exact isSome_set there
  | some m =>
      cases replace with
      | false => exact there
      | true =>
          cases imp with
          | none => exact there
          | some body => exact isSome_set there

theorem addMethod_there {replace : Bool} : ((t.addMethod c s imp replace).1 c s).isSome := by
  cases own : t c s with
  | none => simp [addMethod, getMethodNoSuper, own, set]
  | some i => exact isSome_addMethod (by rw [own]; rfl)

theorem addMethod_of_isSome (there : (t c s).isSome) : (t.addMethod c s imp false).1 = t := by
  obtain ⟨i, own⟩ := Option.isSome_iff_exists.mp there
  simp [addMethod, getMethodNoSuper, own]

theorem addMethod_replace (body : Body) :
    (t.addMethod c s (some body) true).1 = t.set ⟨c, s⟩ (some body) := by
  unfold addMethod
  cases own : t.getMethodNoSuper c s with
  | none => rfl
  | some m =>
      obtain ⟨rfl, -⟩ := getMethodNoSuper_eq_some.mp own
      rfl

end Set

end MethodLists

end LearningProjects.ObjC
