import LearningProjects.Runtime.DictModelSpec

/-! # Dictionaries under ivars that hold no model

A dictionary value is taken for a model whenever the ivar's type encoding names a
class that is loaded, of the app or of a framework. `NSDictionary` is such a class, and
its new instances are empty; an `id` has no quotes to cut a name out of.
-/

namespace LearningProjects.Runtime

variable {Leaf : Type}

/-- The classes that the frameworks load. A dictionary class declares no ivars, and its
    new instances are empty dictionaries. -/
structure Frameworks (Leaf : Type) where
  classes : List (ObjcClass Leaf)
  isDictionary : String → Bool
  declares_no_ivars : ∀ cls ∈ classes, isDictionary cls.name = true → cls.ivars = []

/-- They are loaded beside the classes of the app. -/
def loaded (frameworks : Frameworks Leaf) (user : List (ObjcClass Leaf)) : List (ObjcClass Leaf) :=
  frameworks.classes ++ user

/-- The entries of a dictionary; a new instance of a dictionary class has none. -/
def Value.dictionary? (frameworks : Frameworks Leaf) :
    Value Leaf → Option (List (String × Value Leaf))
  | .dict entries => some entries
  | .object className _ => if frameworks.isDictionary className then some [] else none
  | _ => none

/-- The ivar is declared as a model class of the app. -/
def DeclaresModel (user : List (ObjcClass Leaf)) (ivar : Ivar) : Prop :=
  ∃ modelClass ∈ user, modelClassName ivar.typeEncoding = .ok modelClass.name

/-- The type encoding has a quoted name, and the name is no loaded class, or that of
    a dictionary class and there is nothing to lose. -/
def Kept (frameworks : Frameworks Leaf) (user : List (ObjcClass Leaf)) (ivar : Ivar)
    (inner : List (String × Value Leaf)) : Prop :=
  ∃ name, modelClassName ivar.typeEncoding = .ok name ∧
    (nsClassFromString (loaded frameworks user) name = none ∨
      frameworks.isDictionary name = true ∧ inner = [])

section Loop

variable {classes : List (ObjcClass Leaf)}
  {recurse : ObjcClass Leaf → Value Leaf → Except Exception (Value Leaf)}

theorem setValue_object {className key : String} {slots : List (String × Value Leaf)}
    {value object : Value Leaf} (set : setValue (.object className slots) value key = .ok object) :
    ∃ slots', object = .object className slots' := by
  rw [setValue] at set
  split at set
  · exact ⟨_, (Except.ok.inj set).symm⟩
  · cases set

theorem assign_object {cls : ObjcClass Leaf} {dict object : Value Leaf} {ivar : Ivar}
    {className : String} {slots : List (String × Value Leaf)}
    (round : assign classes recurse cls dict (.object className slots) ivar = .ok object) :
    ∃ slots', object = .object className slots' := by
  obtain ⟨key, -, round⟩ := Fallible.bind_eq_ok.mp round
  obtain ⟨value?, -, round⟩ := Fallible.bind_eq_ok.mp round
  cases value? with
  | none => exact ⟨slots, (Except.ok.inj round).symm⟩
  | some value =>
      obtain ⟨content, -, set⟩ := Fallible.bind_eq_ok.mp round
      exact setValue_object set

/-- `modelWithDict:` returns an instance of its class. -/
theorem modelWithDict_object {cls : ObjcClass Leaf} {entries : List (String × Value Leaf)}
    {object : Value Leaf} (returned : modelWithDict classes cls (.dict entries) = .ok object) :
    ∃ slots, object = .object cls.name slots := by
  rw [modelWithDict_eq] at returned
  refine Fallible.foldlM_invariant (I := fun object => ∃ slots, object = .object cls.name slots)
    ?_ returned ⟨cls.init, rfl⟩
  rintro _ ivar object ⟨slots, rfl⟩ round
  exact assign_object round

end Loop

section Fields

variable {frameworks : Frameworks Leaf} {user : List (ObjcClass Leaf)} {cls : ObjcClass Leaf}
  {ivar : Ivar} {key : String} {inner : List (String × Value Leaf)}

/-- What is found under the name of no model class is a class of the frameworks. -/
theorem framework_of_found {name : String} {found : ObjcClass Leaf}
    (type : modelClassName ivar.typeEncoding = .ok name)
    (lookup : nsClassFromString (loaded frameworks user) name = some found)
    (noModel : ¬DeclaresModel user ivar) : found.name = name ∧ found ∈ frameworks.classes := by
  have named : found.name = name := by simpa using List.find?_some lookup
  refine ⟨named, ?_⟩
  cases List.mem_append.mp (List.mem_of_find?_eq_some lookup) with
  | inl framework => exact framework
  | inr model => exact absurd ⟨found, model, named ▸ type⟩ noModel

/-- Without ivars there is nothing to set. -/
theorem modelWithDict_of_no_ivars (classes : List (ObjcClass Leaf)) (none : cls.ivars = [])
    (entries : List (String × Value Leaf)) :
    modelWithDict classes cls (.dict entries) = .ok (.object cls.name cls.init) := by
  rw [modelWithDict_eq, none]
  rfl

/-- A dictionary under such an ivar stays one exactly if it is kept. -/
theorem converts_dictionary_iff (noModel : ¬DeclaresModel user ivar) :
    (∃ content, Converts (loaded frameworks user) cls ivar key (.dict inner) content ∧
      content.dictionary? frameworks = some inner) ↔ Kept frameworks user ivar inner := by
  unfold Converts Kept
  simp only [modelValue]
  cases type : modelClassName ivar.typeEncoding with
  | error exception => simp [bind, Except.bind]
  | ok name =>
      simp only [bind, Except.bind, Except.ok.injEq, exists_eq_left']
      cases found : nsClassFromString (loaded frameworks user) name with
      | none => simp [pure, Except.pure, Value.dictionary?]
      | some modelClass =>
          obtain ⟨rfl, framework⟩ := framework_of_found type found noModel
          cases dictionary : frameworks.isDictionary modelClass.name with
          | true =>
              have new := modelWithDict_of_no_ivars (loaded frameworks user)
                (frameworks.declares_no_ivars _ framework dictionary) inner
              simp only [new, Except.ok.injEq, exists_eq_left']
              simp [Value.dictionary?, dictionary, eq_comm]
          | false =>
              refine iff_of_false ?_ (by simp)
              rintro ⟨content, returned, same⟩
              obtain ⟨slots, rfl⟩ := modelWithDict_object returned
              simp [Value.dictionary?, dictionary] at same

end Fields

/-- Where no other value raises an exception: the call returns and every ivar that
    declares no model holds the dictionary of its key, exactly if each of them is
    kept. -/
theorem keeps_dictionaries_iff (frameworks : Frameworks Leaf) (user : List (ObjcClass Leaf))
    (cls : ObjcClass Leaf) (named : ∀ ivar ∈ cls.ivars, ∃ key, ivar.name = "_" ++ key)
    {entries : List (String × Value Leaf)}
    (others : ∀ ivar ∈ cls.ivars, ∀ key value, ivar.name = "_" ++ key →
      entries.lookup key = some value →
        (∃ content, Converts (loaded frameworks user) cls ivar key value content) ∨
          ¬DeclaresModel user ivar ∧ ∃ inner, value = .dict inner) :
    (∃ slots, modelWithDict (loaded frameworks user) cls (.dict entries) =
        .ok (.object cls.name slots) ∧
      ∀ ivar ∈ cls.ivars, ¬DeclaresModel user ivar → ∀ key inner, ivar.name = "_" ++ key →
        entries.lookup key = some (.dict inner) →
          (slots.lookup ivar.name).bind (Value.dictionary? frameworks) = some inner) ↔
      ∀ ivar ∈ cls.ivars, ¬DeclaresModel user ivar → ∀ key inner, ivar.name = "_" ++ key →
        entries.lookup key = some (.dict inner) → Kept frameworks user ivar inner := by
  constructor
  · rintro ⟨slots, returned, holds⟩ ivar member noModel key inner name found
    have converts := modelWithDict_returns returned
    obtain ⟨slots', same, stored, -⟩ := modelWithDict_slots named converts
    rw [returned] at same
    obtain rfl : slots = slots' := by simpa using same
    obtain ⟨content, content_there, converted⟩ := stored ivar member key _ name found
    have dictionary := holds ivar member noModel key inner name found
    rw [content_there] at dictionary
    exact (converts_dictionary_iff noModel).mp ⟨content, converted, dictionary⟩
  · intro kept
    have converts : ∀ ivar ∈ cls.ivars, ∀ key value, ivar.name = "_" ++ key →
        entries.lookup key = some value →
          ∃ content, Converts (loaded frameworks user) cls ivar key value content := by
      intro ivar member key value name found
      cases others ivar member key value name found with
      | inl converts => exact converts
      | inr dictionary =>
          obtain ⟨noModel, inner, rfl⟩ := dictionary
          obtain ⟨content, converted, -⟩ :=
            (converts_dictionary_iff noModel).mpr (kept ivar member noModel key inner name found)
          exact ⟨content, converted⟩
    obtain ⟨slots, returned, stored, -⟩ := modelWithDict_slots named converts
    refine ⟨slots, returned, ?_⟩
    intro ivar member noModel key inner name found
    obtain ⟨content, there, converted⟩ := stored ivar member key _ name found
    obtain ⟨content', converted', dictionary⟩ := (converts_dictionary_iff noModel).mpr
      (kept ivar member noModel key inner name found)
    obtain rfl := Except.ok.inj (converted.symm.trans converted')
    rw [there]
    exact dictionary

/-- A class of a cluster, whose instances declare nothing. -/
def cluster (name : String) : ObjcClass Leaf where
  name := name
  ivars := []
  init := []
  arrayContainModelClass := none
  names_nodup := List.nodup_nil
  has_slots := nofun

/-- The object in `isa` stands for the class. -/
def nsObject : ObjcClass Leaf where
  name := "NSObject"
  ivars := [⟨"isa", "#"⟩]
  init := [("isa", .object "NSObject" [])]
  arrayContainModelClass := none
  names_nodup := by decide
  has_slots := by simp

/-- Some classes of Foundation. -/
def foundation : Frameworks Leaf where
  classes := [nsObject, cluster "NSString", cluster "NSArray", cluster "NSDictionary",
    cluster "NSMutableDictionary"]
  isDictionary name := name == "NSDictionary" || name == "NSMutableDictionary"
  declares_no_ivars := by simp [nsObject, cluster]

/-- A class with one ivar, for any object. -/
def note (typeEncoding : String) : ObjcClass (Option String) where
  name := "Note"
  ivars := [⟨"_info", typeEncoding⟩]
  init := [("_info", .leaf none)]
  arrayContainModelClass := none
  names_nodup := by simp
  has_slots := by simp

/-- A dictionary for an `id`. -/
theorem id_dictionary_raises :
    modelWithDict (loaded foundation []) (note "@")
        (.dict [("info", .dict [("a", .leaf (some "b"))])]) = .error .range := by
  rfl

/-- A dictionary for an array becomes an empty array. -/
example :
    modelWithDict (loaded foundation []) (note "@\"NSArray\"")
        (.dict [("info", .dict [("a", .leaf (some "b"))])]) =
      .ok (.object "Note" [("_info", .object "NSArray" [])]) := by
  rfl

theorem protocol_dictionary_kept :
    ∃ slots, modelWithDict (loaded foundation []) (note "@\"<NSCopying>\"")
        (.dict [("info", .dict [("a", .leaf (some "b"))])]) = .ok (.object "Note" slots) ∧
      ∀ ivar ∈ (note "@\"<NSCopying>\"").ivars,
        ¬DeclaresModel ([] : List (ObjcClass (Option String))) ivar → ∀ key inner,
        ivar.name = "_" ++ key →
          [("info", Value.dict [("a", Value.leaf (some "b"))])].lookup key = some (.dict inner) →
            (slots.lookup ivar.name).bind (Value.dictionary? foundation) = some inner := by
  refine (keeps_dictionaries_iff foundation [] (note "@\"<NSCopying>\"") ?_ ?_).mpr ?_
  · simp only [note, List.forall_mem_singleton]
    exact ⟨"info", rfl⟩
  · simp only [note, List.forall_mem_singleton]
    intro key value name found
    have same : "_" ++ "info" = "_" ++ key := name
    obtain rfl := (String.append_right_inj _).mp same
    obtain rfl := Option.some.inj found
    exact .inr ⟨by simp [DeclaresModel], _, rfl⟩
  · simp only [note, List.forall_mem_singleton]
    intro _ key inner _ _
    exact ⟨"<NSCopying>", rfl, .inl rfl⟩

end LearningProjects.Runtime
