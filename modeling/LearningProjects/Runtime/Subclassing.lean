import LearningProjects.Runtime.DictModelSpec
import Mathlib.Logic.Relation

/-! # Models of subclasses

`class_copyIvarList` lists the ivars that a class declares itself, so
`modelWithDict:` of a subclass never sets an inherited one.
-/

namespace LearningProjects.Runtime

variable {Leaf : Type}

/-- An instance has the slots of the superclass and one for each ivar that the class
    declares itself. -/
structure DirectSubclass (sub super : ObjcClass Leaf) : Prop where
  slots : sub.init.map Prod.fst = super.init.map Prod.fst ++ sub.ivars.map Ivar.name
  fresh : ∀ ivar ∈ sub.ivars, ivar.name ∉ super.init.map Prod.fst

/-- Through any number of classes. -/
def Descends : ObjcClass Leaf → ObjcClass Leaf → Prop := Relation.TransGen DirectSubclass

/-- A class declares no ivar that it inherits. -/
theorem Descends.fresh {sub super : ObjcClass Leaf} (h : Descends sub super) :
    ∀ ivar ∈ sub.ivars, ivar.name ∉ super.init.map Prod.fst := by
  induction h with
  | single direct => exact direct.fresh
  | tail descends direct ih =>
      intro ivar member inherited
      exact ih ivar member (direct.slots ▸ List.mem_append_left _ inherited)

section Inherited

variable {classes : List (ObjcClass Leaf)} {sub super : ObjcClass Leaf}
  {entries : List (String × Value Leaf)}

/-- The subclass returns and has what the superclass stores from the dictionary. -/
def SetAlike (classes : List (ObjcClass Leaf)) (sub super : ObjcClass Leaf)
    (entries : List (String × Value Leaf)) (slots : List (String × Value Leaf)) : Prop :=
  ∃ slots', modelWithDict classes sub (.dict entries) = .ok (.object sub.name slots') ∧
    ∀ ivar ∈ super.ivars, ∀ key value, ivar.name = "_" ++ key → entries.lookup key = some value →
      slots'.lookup ivar.name = slots.lookup ivar.name

/-- The values for the subclass's own ivars raise no exception, and those for the
    superclass's are what its `init` leaves anyway. -/
structure NothingToSet (classes : List (ObjcClass Leaf)) (sub super : ObjcClass Leaf)
    (entries : List (String × Value Leaf)) : Prop where
  own : ∀ ivar ∈ sub.ivars, ∀ key value, ivar.name = "_" ++ key → entries.lookup key = some value →
    ∃ content, Converts classes sub ivar key value content
  inherited : ∀ ivar ∈ super.ivars, ∀ key value, ivar.name = "_" ++ key →
    entries.lookup key = some value → ∀ content, super.init.lookup ivar.name = some content →
      Converts classes super ivar key value content

theorem lookup_of_mem {slots : List (String × Value Leaf)} {name : String}
    (present : name ∈ slots.map Prod.fst) : ∃ content, slots.lookup name = some content := by
  rw [← Option.ne_none_iff_exists']
  intro missing
  obtain ⟨slot, member, rfl⟩ := List.mem_map.mp present
  simpa using List.lookup_eq_none_iff.mp missing slot member

/-- A call on a subclass leaves the ivars of the superclass as `init` did. -/
theorem inherited_kept (descends : Descends sub super)
    (named : ∀ ivar ∈ sub.ivars, ∃ key, ivar.name = "_" ++ key)
    {object : Value Leaf} (returned : modelWithDict classes sub (.dict entries) = .ok object) :
    ∃ slots, object = .object sub.name slots ∧
      ∀ ivar ∈ super.ivars, slots.lookup ivar.name = sub.init.lookup ivar.name := by
  obtain ⟨slots, same, -, kept⟩ := modelWithDict_slots named (modelWithDict_returns returned)
  refine ⟨slots, Except.ok.inj (returned.symm.trans same), fun ivar member => ?_⟩
  apply kept
  intro own declared inherited
  exact descends.fresh own declared (inherited ▸ super.has_slots ivar member)

/-- Where the call on the superclass returns, the one on a descendant stores the same
    for its ivars exactly if there is nothing to set. -/
theorem setAlike_iff (descends : Descends sub super)
    (subNamed : ∀ ivar ∈ sub.ivars, ∃ key, ivar.name = "_" ++ key)
    (superNamed : ∀ ivar ∈ super.ivars, ∃ key, ivar.name = "_" ++ key)
    (defaults : ∀ ivar ∈ super.ivars, sub.init.lookup ivar.name = super.init.lookup ivar.name)
    {slots : List (String × Value Leaf)}
    (returned : modelWithDict classes super (.dict entries) = .ok (.object super.name slots)) :
    SetAlike classes sub super entries slots ↔ NothingToSet classes sub super entries := by
  obtain ⟨stored_slots, same, stored, -⟩ :=
    modelWithDict_slots superNamed (modelWithDict_returns returned)
  obtain rfl : slots = stored_slots := by simpa [returned] using same
  constructor
  · rintro ⟨slots', returned', alike⟩
    refine ⟨modelWithDict_returns returned', ?_⟩
    intro ivar member key value name found content default_
    obtain ⟨_, same', kept⟩ := inherited_kept descends subNamed returned'
    obtain rfl := (Value.object.inj same').2
    obtain ⟨content', there, converted⟩ := stored ivar member key value name found
    have equal : some content = some content' := by
      rw [← default_, ← defaults ivar member, ← kept ivar member, ← there]
      exact alike ivar member key value name found
    exact Option.some.inj equal ▸ converted
  · intro nothing
    obtain ⟨slots', returned', -⟩ := modelWithDict_slots subNamed nothing.own
    obtain ⟨_, same', kept⟩ := inherited_kept descends subNamed returned'
    obtain rfl := (Value.object.inj same').2
    refine ⟨slots', returned', ?_⟩
    intro ivar member key value name found
    obtain ⟨content, default_⟩ := lookup_of_mem (super.has_slots ivar member)
    obtain ⟨content', there, converted⟩ := stored ivar member key value name found
    have expected := nothing.inherited ivar member key value name found content default_
    obtain rfl := Except.ok.inj (expected.symm.trans converted)
    rw [kept ivar member, defaults ivar member, default_, there]

end Inherited

/-! ## A subclass of the example -/

def dog : ObjcClass (Option String) where
  name := "Dog"
  ivars := [⟨"_breed", "@\"NSString\""⟩]
  init := [("_name", .leaf none), ("_patTypeName", .leaf none), ("_breed", .leaf none)]
  arrayContainModelClass := none
  names_nodup := by decide
  has_slots := by decide

theorem dog_descends : Descends dog pat :=
  .single ⟨rfl, by decide⟩

/-- The name is set in a pat and lost in a dog. -/
theorem inherited_name_lost :
    Descends dog pat ∧
      modelWithDict [pat, dog] pat (.dict [("name", .leaf (some "贝贝"))]) =
        .ok (.object "Pat" [("_name", .leaf (some "贝贝")), ("_patTypeName", .leaf none)]) ∧
      modelWithDict [pat, dog] dog (.dict [("name", .leaf (some "贝贝"))]) =
        .ok (.object "Dog"
          [("_name", .leaf none), ("_patTypeName", .leaf none), ("_breed", .leaf none)]) :=
  ⟨dog_descends, rfl, rfl⟩

/-- A pat whose `init` names it. -/
def namedPat : ObjcClass (Option String) :=
  { pat with
    init := [("_name", .leaf (some "贝贝")), ("_patTypeName", .leaf none)]
    has_slots := by decide }

def namedDog : ObjcClass (Option String) :=
  { dog with
    init := [("_name", .leaf (some "贝贝")), ("_patTypeName", .leaf none), ("_breed", .leaf none)]
    has_slots := by decide }

/-- The dictionary has the name which a dog has anyway. -/
theorem default_name_set_alike :
    SetAlike [namedPat, namedDog] namedDog namedPat
      [("name", .leaf (some "贝贝")), ("breed", .leaf (some "x"))] namedPat.init := by
  have read (name key : String) (named : "_" ++ name = "_" ++ key) : key = name :=
    ((String.append_right_inj _).mp named).symm
  refine (setAlike_iff (.single ⟨rfl, by decide⟩) ?_ ?_ ?_ rfl).mpr ⟨?_, ?_⟩
  · simp only [namedDog, dog, List.forall_mem_singleton]
    exact ⟨"breed", rfl⟩
  · simp only [namedPat, pat, List.forall_mem_cons]
    exact ⟨⟨"name", rfl⟩, ⟨"patTypeName", rfl⟩, by simp⟩
  · simp only [namedPat, namedDog, pat, List.forall_mem_cons]
    exact ⟨rfl, rfl, by simp⟩
  · simp only [namedDog, dog, List.forall_mem_singleton]
    intro key value named found
    obtain rfl := read "breed" key named
    obtain rfl := Option.some.inj found
    exact ⟨_, rfl⟩
  · simp only [namedPat, pat, List.forall_mem_cons]
    refine ⟨?_, ?_, by simp⟩
    · intro key value named found content default_
      obtain rfl := read "name" key named
      obtain rfl := Option.some.inj found
      obtain rfl := Option.some.inj default_
      rfl
    · intro key value named found
      obtain rfl := read "patTypeName" key named
      cases found

end LearningProjects.Runtime
