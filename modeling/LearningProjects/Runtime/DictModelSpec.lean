import LearningProjects.Fallible
import LearningProjects.Runtime.DictModel

/-! # Which models dictionaries describe

For a schema of model classes and a dictionary that fits it, `modelWithDict:`
returns the instance that the dictionary describes, at every depth.
-/

namespace LearningProjects.Runtime

variable {Leaf : Type}

section Models

variable (classes : List (ObjcClass Leaf))

/-- The ivar is declared as a class of the schema. -/
structure Declares (ivar : Ivar) (modelClass : ObjcClass Leaf) : Prop where
  encoding : ivar.typeEncoding = "@\"" ++ modelClass.name ++ "\""
  unquoted : '"' ∉ modelClass.name.toList
  found : nsClassFromString classes modelClass.name = some modelClass

mutual

/-- A dictionary that fits a class whose ivars are named `_key`. -/
inductive WellTyped : ObjcClass Leaf → Value Leaf → Prop where
  | dict {cls : ObjcClass Leaf} {entries : List (String × Value Leaf)}
      (named : ∀ ivar ∈ cls.ivars, ∃ key, ivar.name = "_" ++ key)
      (fields : ∀ ivar ∈ cls.ivars, ∀ key value, ivar.name = "_" ++ key →
        entries.lookup key = some value → FieldTyped cls ivar key value) :
      WellTyped cls (.dict entries)

/-- A value that fits an ivar: a dictionary for a model class, an array of
    dictionaries under a mapped key, or anything else. -/
inductive FieldTyped : ObjcClass Leaf → Ivar → String → Value Leaf → Prop where
  | model {cls modelClass : ObjcClass Leaf} {ivar : Ivar} {key : String}
      {entries : List (String × Value Leaf)} (declared : Declares classes ivar modelClass)
      (typed : WellTyped modelClass (.dict entries)) : FieldTyped cls ivar key (.dict entries)
  | models {cls elementClass : ObjcClass Leaf} {ivar : Ivar} {key type : String}
      {elements : List (Value Leaf)} (mapped : cls.elementType key = some type)
      (found : nsClassFromString classes type = some elementClass)
      (typed : ∀ element ∈ elements, WellTyped elementClass element) :
      FieldTyped cls ivar key (.array elements)
  | array {cls : ObjcClass Leaf} {ivar : Ivar} {key : String} {elements : List (Value Leaf)}
      (unmapped : cls.elementType key = none) : FieldTyped cls ivar key (.array elements)
  | leaf {cls : ObjcClass Leaf} {ivar : Ivar} {key : String} {value : Leaf} :
      FieldTyped cls ivar key (.leaf value)
  | object {cls : ObjcClass Leaf} {ivar : Ivar} {key className : String}
      {slots : List (String × Value Leaf)} : FieldTyped cls ivar key (.object className slots)

end

mutual

/-- The instance of a class that a dictionary describes. -/
inductive IsModel : ObjcClass Leaf → Value Leaf → Value Leaf → Prop where
  | filled {cls : ObjcClass Leaf} {entries slots : List (String × Value Leaf)}
      (shape : slots.map Prod.fst = cls.init.map Prod.fst)
      (stored : ∀ ivar ∈ cls.ivars, ∀ key value content, ivar.name = "_" ++ key →
        entries.lookup key = some value → slots.lookup ivar.name = some content →
          StoredAs cls ivar key value content)
      (kept : ∀ name, (∀ ivar ∈ cls.ivars, ∀ key, ivar.name = name → name = "_" ++ key →
        entries.lookup key = none) → slots.lookup name = cls.init.lookup name) :
      IsModel cls (.dict entries) (.object cls.name slots)

/-- What the ivar holds for a value of the dictionary. -/
inductive StoredAs : ObjcClass Leaf → Ivar → String → Value Leaf → Value Leaf → Prop where
  | model {cls modelClass : ObjcClass Leaf} {ivar : Ivar} {key : String}
      {entries : List (String × Value Leaf)} {content : Value Leaf}
      (declared : Declares classes ivar modelClass)
      (isModel : IsModel modelClass (.dict entries) content) :
      StoredAs cls ivar key (.dict entries) content
  | models {cls elementClass : ObjcClass Leaf} {ivar : Ivar} {key type : String}
      {elements contents : List (Value Leaf)} (mapped : cls.elementType key = some type)
      (found : nsClassFromString classes type = some elementClass)
      (length : contents.length = elements.length)
      (each : ∀ (i : Nat) element content, elements[i]? = some element →
        contents[i]? = some content → IsModel elementClass element content) :
      StoredAs cls ivar key (.array elements) (.array contents)
  | array {cls : ObjcClass Leaf} {ivar : Ivar} {key : String} {elements : List (Value Leaf)}
      (unmapped : cls.elementType key = none) :
      StoredAs cls ivar key (.array elements) (.array elements)
  | leaf {cls : ObjcClass Leaf} {ivar : Ivar} {key : String} {value : Leaf} :
      StoredAs cls ivar key (.leaf value) (.leaf value)
  | object {cls : ObjcClass Leaf} {ivar : Ivar} {key className : String}
      {slots : List (String × Value Leaf)} :
      StoredAs cls ivar key (.object className slots) (.object className slots)

end

end Models

variable {classes : List (ObjcClass Leaf)}

/-! ## The conversion is what it describes -/

theorem FieldTyped.converts {cls : ObjcClass Leaf} {ivar : Ivar} {key : String} {value : Value Leaf}
    (typed : FieldTyped classes cls ivar key value)
    {recurse : ObjcClass Leaf → Value Leaf → Except Exception (Value Leaf)}
    (nested : ∀ cls' value', WellTyped classes cls' value' → value'.depth ≤ value.depth →
      ∃ object, recurse cls' value' = .ok object ∧ IsModel classes cls' value' object) :
    ∃ content, modelValue classes recurse cls ivar key value = .ok content ∧
      StoredAs classes cls ivar key value content := by
  cases typed with
  | model declared typed =>
      obtain ⟨object, converted, isModel⟩ := nested _ _ typed (Nat.le_refl _)
      refine ⟨object, ?_, .model declared isModel⟩
      rw [modelValue, declared.encoding, modelClassName_quoted declared.unquoted]
      simp only [bind, Except.bind, declared.found]
      exact converted
  | @models _ elementClass _ _ type elements mapped found typed =>
      have round : ∀ element ∈ elements, ∃ object,
          modelElement classes recurse type element = pure object ∧
            IsModel classes elementClass element object := by
        intro element member
        rw [modelElement, found]
        exact nested _ _ (typed element member) (Nat.le_of_lt (depth_lt_of_mem member))
      obtain ⟨contents, converted, models⟩ := Fallible.mapM_spec round
      refine ⟨.array contents, ?_, .models mapped found models.length_eq.symm ?_⟩
      · simp only [modelValue, mapped, converted, pure_bind]
        rfl
      · intro i element content source target
        obtain ⟨inside, rfl⟩ := List.getElem?_eq_some_iff.mp source
        obtain ⟨inside', rfl⟩ := List.getElem?_eq_some_iff.mp target
        exact models.get inside inside'
  | array unmapped =>
      refine ⟨_, ?_, .array unmapped⟩
      simp only [modelValue, unmapped]
      rfl
  | leaf => exact ⟨_, rfl, .leaf⟩
  | object => exact ⟨_, rfl, .object⟩

/-- With a stack for the depth of the dictionary, the conversion succeeds. -/
theorem modelWithDictIn_spec {calls : Nat} {cls : ObjcClass Leaf} {dict : Value Leaf}
    (typed : WellTyped classes cls dict) (deep : dict.depth < calls) :
    ∃ object, modelWithDictIn classes calls cls dict = .ok object ∧
      IsModel classes cls dict object := by
  induction calls generalizing cls dict with
  | zero => exact absurd deep (Nat.not_lt_zero _)
  | succ calls ih =>
      cases typed with
      | @dict _ entries named fields =>
          have converts : ∀ ivar ∈ cls.ivars, ∀ key value, ivar.name = "_" ++ key →
              entries.lookup key = some value →
                ∃ content, modelValue classes (modelWithDictIn classes calls) cls ivar key value =
                  .ok content ∧ StoredAs classes cls ivar key value content := by
            intro ivar member key value name found
            apply (fields ivar member key value name found).converts
            intro cls' value' typed' shallow
            have inner := depth_lt_of_lookup found
            exact ih typed' (by omega)
          obtain ⟨slots, looped, shape, stored, kept⟩ :=
            loop_spec cls.name cls.names_nodup named converts cls.has_slots
          refine ⟨_, looped, .filled shape ?_ kept⟩
          intro ivar member key value content name found holds
          obtain ⟨content', holds', storedAs⟩ := stored ivar member key value name found
          cases holds.symm.trans holds'
          exact storedAs

/-! ## Nothing else matters -/

section Congr

variable {recurse recurse' : ObjcClass Leaf → Value Leaf → Except Exception (Value Leaf)}

theorem modelValue_congr {value : Value Leaf}
    (same : ∀ cls' value', value'.depth ≤ value.depth → recurse cls' value' = recurse' cls' value')
    (cls : ObjcClass Leaf) (ivar : Ivar) (key : String) :
    modelValue classes recurse cls ivar key value =
      modelValue classes recurse' cls ivar key value := by
  cases value with
  | leaf | object => rfl
  | dict entries =>
      simp only [modelValue, same _ _ (Nat.le_refl _)]
  | array elements =>
      have elementwise : ∀ type : String, elements.mapM (modelElement classes recurse type) =
          elements.mapM (modelElement classes recurse' type) := by
        intro type
        apply Fallible.mapM_congr
        intro element member
        rw [modelElement, modelElement]
        split
        · exact same _ _ (Nat.le_of_lt (depth_lt_of_mem member))
        · rfl
      simp only [modelValue, elementwise]

theorem assign_congr {dict : Value Leaf}
    (same : ∀ cls' value', value'.depth < dict.depth → recurse cls' value' = recurse' cls' value')
    (cls : ObjcClass Leaf) (objc : Value Leaf) (ivar : Ivar) :
    assign classes recurse cls dict objc ivar = assign classes recurse' cls dict objc ivar := by
  rw [assign, assign]
  cases cut : substringFromIndex ivar.name 1 with
  | error => rfl
  | ok key =>
      cases dict with
      | leaf | array | object => rfl
      | dict entries =>
          simp only [bind, Except.bind, objectForKey]
          cases found : entries.lookup key with
          | none => rfl
          | some value =>
              have inner := depth_lt_of_lookup found
              have converted : modelValue classes recurse cls ivar key value =
                  modelValue classes recurse' cls ivar key value :=
                modelValue_congr
                  (fun cls' value' shallow => same cls' value' (by omega)) cls ivar key
              simp only [converted]

end Congr

/-- More stack than needed changes nothing. -/
theorem modelWithDictIn_stable {calls calls' : Nat} {cls : ObjcClass Leaf} {dict : Value Leaf}
    (enough : dict.depth < calls) (enough' : dict.depth < calls') :
    modelWithDictIn classes calls cls dict = modelWithDictIn classes calls' cls dict := by
  induction calls generalizing calls' cls dict with
  | zero => exact absurd enough (Nat.not_lt_zero _)
  | succ calls ih =>
      cases calls' with
      | zero => exact absurd enough' (Nat.not_lt_zero _)
      | succ calls' =>
          rw [modelWithDictIn, modelWithDictIn]
          apply Fallible.foldlM_congr
          intro ivar _ objc
          apply assign_congr
          exact fun cls' value' shallow => ih (by omega) (by omega)

/-- With enough stack, the loop converts nested values by `modelWithDict:` itself. -/
theorem modelWithDict_eq (cls : ObjcClass Leaf) (entries : List (String × Value Leaf)) :
    modelWithDict classes cls (.dict entries) =
      cls.ivars.foldlM (assign classes (modelWithDict classes) cls (.dict entries))
        (.object cls.name cls.init) := by
  rw [modelWithDict, modelWithDictIn]
  apply Fallible.foldlM_congr
  intro ivar _ objc
  apply assign_congr
  exact fun cls' value' shallow => modelWithDictIn_stable shallow (Nat.lt_succ_self _)

/-- What the ivar holds for a value, if the value raises no exception. -/
def Converts (classes : List (ObjcClass Leaf)) (cls : ObjcClass Leaf) (ivar : Ivar) (key : String)
    (value content : Value Leaf) : Prop :=
  modelValue classes (modelWithDict classes) cls ivar key value = .ok content

theorem assign_converts {recurse : ObjcClass Leaf → Value Leaf → Except Exception (Value Leaf)}
    {cls : ObjcClass Leaf} {entries : List (String × Value Leaf)} {ivar : Ivar}
    {objc object : Value Leaf}
    (round : assign classes recurse cls (.dict entries) objc ivar = .ok object) {key : String}
    {value : Value Leaf} (name : ivar.name = "_" ++ key) (found : entries.lookup key = some value) :
    ∃ content, modelValue classes recurse cls ivar key value = .ok content := by
  rw [assign, name, substringFromIndex_key] at round
  obtain ⟨_, cut, round⟩ := Fallible.bind_eq_ok.mp round
  obtain rfl := Except.ok.inj cut
  rw [objectForKey, found] at round
  obtain ⟨_, looked, round⟩ := Fallible.bind_eq_ok.mp round
  obtain rfl := Except.ok.inj looked
  obtain ⟨content, converted, -⟩ := Fallible.bind_eq_ok.mp round
  exact ⟨content, converted⟩

/-- A call returns only if no value that it takes raises an exception. -/
theorem modelWithDict_returns {cls : ObjcClass Leaf} {entries : List (String × Value Leaf)}
    {object : Value Leaf} (returned : modelWithDict classes cls (.dict entries) = .ok object) :
    ∀ ivar ∈ cls.ivars, ∀ key value, ivar.name = "_" ++ key → entries.lookup key = some value →
      ∃ content, Converts classes cls ivar key value content := by
  intro ivar member key value name found
  rw [modelWithDict_eq] at returned
  obtain ⟨_, _, round⟩ := Fallible.foldlM_rounds returned ivar member
  exact assign_converts round name found

/-- Then the ivars hold the values of their keys, and all other slots what `init`
    left in them. -/
theorem modelWithDict_slots {cls : ObjcClass Leaf} {entries : List (String × Value Leaf)}
    (named : ∀ ivar ∈ cls.ivars, ∃ key, ivar.name = "_" ++ key)
    (converts : ∀ ivar ∈ cls.ivars, ∀ key value, ivar.name = "_" ++ key →
      entries.lookup key = some value → ∃ content, Converts classes cls ivar key value content) :
    ∃ slots, modelWithDict classes cls (.dict entries) = .ok (.object cls.name slots) ∧
      (∀ ivar ∈ cls.ivars, ∀ key value, ivar.name = "_" ++ key → entries.lookup key = some value →
        ∃ content, slots.lookup ivar.name = some content ∧
          Converts classes cls ivar key value content) ∧
      ∀ other, (∀ ivar ∈ cls.ivars, ivar.name ≠ other) →
        slots.lookup other = cls.init.lookup other := by
  have each : ∀ ivar ∈ cls.ivars, ∀ key value, ivar.name = "_" ++ key →
      entries.lookup key = some value →
        ∃ content, modelValue classes (modelWithDict classes) cls ivar key value = .ok content ∧
          Converts classes cls ivar key value content := by
    intro ivar member key value name found
    obtain ⟨content, converted⟩ := converts ivar member key value name found
    exact ⟨content, converted, converted⟩
  obtain ⟨slots, looped, -, stored, kept⟩ :=
    loop_spec cls.name cls.names_nodup named each cls.has_slots
  refine ⟨slots, (modelWithDict_eq cls entries).trans looped, stored, fun other foreign => ?_⟩
  exact kept other fun ivar member _ same => absurd same (foreign ivar member)

/-- Two dictionaries that agree on the keys of a class give the same model. -/
theorem modelWithDict_congr {cls : ObjcClass Leaf} {entries entries' : List (String × Value Leaf)}
    (named : ∀ ivar ∈ cls.ivars, ∃ key, ivar.name = "_" ++ key)
    (agree : ∀ ivar ∈ cls.ivars, ∀ key, ivar.name = "_" ++ key →
      entries'.lookup key = entries.lookup key) :
    modelWithDict classes cls (.dict entries') = modelWithDict classes cls (.dict entries) := by
  have enough : (Value.dict entries).depth <
      max ((Value.dict entries).depth + 1) ((Value.dict entries').depth + 1) := by omega
  have enough' : (Value.dict entries').depth <
      max ((Value.dict entries).depth + 1) ((Value.dict entries').depth + 1) := by omega
  rw [modelWithDict, modelWithDict, modelWithDictIn_stable (Nat.lt_succ_self _) enough,
    modelWithDictIn_stable (Nat.lt_succ_self _) enough']
  cases max ((Value.dict entries).depth + 1) ((Value.dict entries').depth + 1) with
  | zero => rfl
  | succ calls =>
      rw [modelWithDictIn, modelWithDictIn]
      apply Fallible.foldlM_congr
      intro ivar member objc
      obtain ⟨key, name⟩ := named ivar member
      rw [assign, assign, name, substringFromIndex_key]
      simp only [bind, Except.bind, objectForKey, agree ivar member key name]

/-- The model of a dictionary is the one it describes, and keys that name no ivar
    have no effect. -/
theorem modelWithDict_isModel {cls : ObjcClass Leaf} {entries : List (String × Value Leaf)}
    (typed : WellTyped classes cls (.dict entries)) :
    ∃ object, modelWithDict classes cls (.dict entries) = .ok object ∧
      IsModel classes cls (.dict entries) object ∧
      ∀ entries', (∀ ivar ∈ cls.ivars, ∀ key, ivar.name = "_" ++ key →
        entries'.lookup key = entries.lookup key) →
          modelWithDict classes cls (.dict entries') = .ok object := by
  obtain ⟨object, converted, isModel⟩ := modelWithDictIn_spec typed (Nat.lt_succ_self _)
  refine ⟨object, converted, isModel, fun entries' agree => ?_⟩
  cases typed with
  | dict named fields => exact (modelWithDict_congr named agree).trans converted

/-! ## The classes of the example -/

def pat : ObjcClass (Option String) where
  name := "Pat"
  ivars := [⟨"_name", "@\"NSString\""⟩, ⟨"_patTypeName", "@\"NSString\""⟩]
  init := [("_name", .leaf none), ("_patTypeName", .leaf none)]
  arrayContainModelClass := none
  names_nodup := by decide
  has_slots := by decide

def company : ObjcClass (Option String) where
  name := "Company"
  ivars := [⟨"_name", "@\"NSString\""⟩, ⟨"_cid", "@\"NSString\""⟩]
  init := [("_name", .leaf none), ("_cid", .leaf none)]
  arrayContainModelClass := none
  names_nodup := by decide
  has_slots := by decide

def man : ObjcClass (Option String) where
  name := "Man"
  ivars := [⟨"_age", "i"⟩, ⟨"_address", "@\"NSString\""⟩, ⟨"_name", "@\"NSString\""⟩,
    ⟨"_tel", "@\"NSString\""⟩, ⟨"_friends", "@\"NSArray\""⟩, ⟨"_company", "@\"Company\""⟩]
  init := [("_age", .leaf (some "0")), ("_address", .leaf none), ("_name", .leaf none),
    ("_tel", .leaf none), ("_friends", .leaf none), ("_company", .leaf none)]
  arrayContainModelClass := some [("friends", "Pat")]
  names_nodup := by decide
  has_slots := by decide

def patDict : Value (Option String) :=
  .dict [("name", .leaf (some "贝贝")), ("patTypeName", .leaf (some "猫"))]

def companyDict : Value (Option String) := .dict [("cid", .leaf (some "sd12235890q3"))]

def manEntries : List (String × Value (Option String)) :=
  [("age", .leaf (some "29")), ("company", companyDict), ("friends", .array [patDict])]

/-- The key of an ivar is determined by its name. -/
theorem fieldTyped_of_key {cls : ObjcClass Leaf} {entries : List (String × Value Leaf)}
    {name typeEncoding : String} (k : String) (named : name = "_" ++ k)
    (typed : ∀ value, entries.lookup k = some value →
      FieldTyped classes cls ⟨name, typeEncoding⟩ k value) :
    ∀ key value, name = "_" ++ key → entries.lookup key = some value →
      FieldTyped classes cls ⟨name, typeEncoding⟩ key value := by
  intro key value named' found
  obtain rfl : k = key := by simpa [named] using named'
  exact typed value found

theorem wellTyped_pat : WellTyped [man, company, pat] pat patDict := by
  apply WellTyped.dict
  · simp only [pat, List.forall_mem_cons]
    exact ⟨⟨"name", rfl⟩, ⟨"patTypeName", rfl⟩, by simp⟩
  · simp only [pat, List.forall_mem_cons]
    refine ⟨fieldTyped_of_key "name" rfl ?_, fieldTyped_of_key "patTypeName" rfl ?_, by simp⟩
    all_goals
      intro value found
      cases found
      exact .leaf

theorem wellTyped_company : WellTyped [man, company, pat] company companyDict := by
  apply WellTyped.dict
  · simp only [company, List.forall_mem_cons]
    exact ⟨⟨"name", rfl⟩, ⟨"cid", rfl⟩, by simp⟩
  · simp only [company, List.forall_mem_cons]
    refine ⟨fieldTyped_of_key "name" rfl ?_, fieldTyped_of_key "cid" rfl ?_, by simp⟩
    all_goals
      intro value found
      cases found
    exact .leaf

theorem wellTyped_man : WellTyped [man, company, pat] man (.dict manEntries) := by
  apply WellTyped.dict
  · simp only [man, List.forall_mem_cons]
    exact ⟨⟨"age", rfl⟩, ⟨"address", rfl⟩, ⟨"name", rfl⟩, ⟨"tel", rfl⟩, ⟨"friends", rfl⟩,
      ⟨"company", rfl⟩, by simp⟩
  · simp only [man, List.forall_mem_cons]
    refine ⟨fieldTyped_of_key "age" rfl ?_, fieldTyped_of_key "address" rfl ?_,
      fieldTyped_of_key "name" rfl ?_, fieldTyped_of_key "tel" rfl ?_,
      fieldTyped_of_key "friends" rfl ?_, fieldTyped_of_key "company" rfl ?_, by simp⟩
    all_goals
      intro value found
      cases found
    · exact .leaf
    · apply FieldTyped.models rfl rfl
      intro element member
      obtain rfl := List.mem_singleton.mp member
      exact wellTyped_pat
    · exact .model ⟨rfl, by decide, rfl⟩ wellTyped_company

theorem modelWithDict_man :
    ∃ object, modelWithDict [man, company, pat] man (.dict manEntries) = .ok object ∧
      IsModel [man, company, pat] man (.dict manEntries) object ∧
      ∀ entries', (∀ ivar ∈ man.ivars, ∀ key, ivar.name = "_" ++ key →
        entries'.lookup key = manEntries.lookup key) →
          modelWithDict [man, company, pat] man (.dict entries') = .ok object :=
  modelWithDict_isModel wellTyped_man

end LearningProjects.Runtime
