import Mathlib.Algebra.Ring.Nat
import Mathlib.Data.List.Basic
import Mathlib.Tactic.Common

/-! # Dictionaries to models

`modelWithDict:` fills a new instance from a dictionary, ivar by ivar. The class
of a nested model is cut out of the ivar's type encoding; the class of the
elements of an array comes from `arrayContainModelClass`.
-/

namespace LearningProjects.Runtime

/-- What a dictionary or an ivar can hold. A leaf is anything that is neither a
    collection nor a model: strings, numbers, nil. -/
inductive Value (Leaf : Type) where
  | leaf (value : Leaf)
  | array (elements : List (Value Leaf))
  | dict (entries : List (String × Value Leaf))
  | object (className : String) (slots : List (String × Value Leaf))

inductive Exception where
  | range
  | unknownKey
  | unrecognizedSelector
  | invalidArgument
  | stackOverflow
  deriving DecidableEq, Repr

structure Ivar where
  name : String
  typeEncoding : String
  deriving DecidableEq, Repr

/-- A class as the runtime knows it: the ivars it declares itself, the slots of a
    new instance after `init`, and what `arrayContainModelClass` returns, if
    instances respond to it. -/
structure ObjcClass (Leaf : Type) where
  name : String
  ivars : List Ivar
  init : List (String × Value Leaf)
  arrayContainModelClass : Option (List (String × String))
  names_nodup : (ivars.map Ivar.name).Nodup
  has_slots : ∀ ivar ∈ ivars, ivar.name ∈ init.map Prod.fst

variable {Leaf : Type}

/-! ## Strings -/

structure NSRange where
  location : Nat
  length : Nat
  deriving DecidableEq, Repr

def notFound : Nat := 2 ^ 63 - 1

def rangeOfQuote (s : String) : NSRange :=
  match s.toList.findIdx? (· = '"') with
  | some location => ⟨location, 1⟩
  | none => ⟨notFound, 0⟩

def substringFromIndex (s : String) (index : Nat) : Except Exception String :=
  if index ≤ s.toList.length then .ok (String.ofList (s.toList.drop index)) else .error .range

def substringToIndex (s : String) (index : Nat) : Except Exception String :=
  if index ≤ s.toList.length then .ok (String.ofList (s.toList.take index)) else .error .range

/-- What stands between the first two quotes of a type encoding. -/
def modelClassName (typeEncoding : String) : Except Exception String := do
  let range := rangeOfQuote typeEncoding
  let type ← substringFromIndex typeEncoding (range.location + range.length)
  let range := rangeOfQuote type
  substringToIndex type range.location

/-! ## Objects -/

/-- `dict[key]`; only dictionaries answer. -/
def objectForKey (dict : Value Leaf) (key : String) : Except Exception (Option (Value Leaf)) :=
  match dict with
  | .dict entries => .ok (entries.lookup key)
  | _ => .error .unrecognizedSelector

def store (slots : List (String × Value Leaf)) (name : String) (value : Value Leaf) :
    List (String × Value Leaf) :=
  slots.map fun slot => if slot.1 = name then (slot.1, value) else slot

/-- `setValue:forKey:` stores into the ivar named after the key. -/
def setValue (objc value : Value Leaf) (key : String) : Except Exception (Value Leaf) :=
  match objc with
  | .object className slots =>
      if "_" ++ key ∈ slots.map Prod.fst then
        .ok (.object className (store slots ("_" ++ key) value))
      else .error .unknownKey
  | _ => .error .unknownKey

section Convert

variable (classes : List (ObjcClass Leaf))

/-- `classes` are the classes that are loaded. -/
def nsClassFromString (name : String) : Option (ObjcClass Leaf) :=
  classes.find? (·.name = name)

/-- The class that `arrayContainModelClass` names for a key. -/
def ObjcClass.elementType (cls : ObjcClass Leaf) (key : String) : Option String :=
  cls.arrayContainModelClass.bind (·.lookup key)

/-- An element of an array. Without a class it would become nil, which no array
    takes. -/
def modelElement (recurse : ObjcClass Leaf → Value Leaf → Except Exception (Value Leaf))
    (type : String) (dic : Value Leaf) : Except Exception (Value Leaf) :=
  match nsClassFromString classes type with
  | some classModel => recurse classModel dic
  | none => .error .invalidArgument

/-- The two nested cases, and everything else as it is. -/
def modelValue (recurse : ObjcClass Leaf → Value Leaf → Except Exception (Value Leaf))
    (cls : ObjcClass Leaf) (ivar : Ivar) (key : String) (value : Value Leaf) :
    Except Exception (Value Leaf) :=
  match value with
  | .dict _ => do
      let type ← modelClassName ivar.typeEncoding
      match nsClassFromString classes type with
      | some modelClass => recurse modelClass value
      | none => return value
  | .array elements =>
      match cls.elementType key with
      | some type => do
          let arrTypes ← elements.mapM (modelElement classes recurse type)
          return .array arrTypes
      | none => return value
  | _ => return value

/-- One round of the loop over the ivars. -/
def assign (recurse : ObjcClass Leaf → Value Leaf → Except Exception (Value Leaf))
    (cls : ObjcClass Leaf) (dict objc : Value Leaf) (ivar : Ivar) :
    Except Exception (Value Leaf) := do
  let key ← substringFromIndex ivar.name 1
  match ← objectForKey dict key with
  | some value => do
      let value ← modelValue classes recurse cls ivar key value
      setValue objc value key
  | none => return objc

/-- `modelWithDict:` with a stack for `calls` nested calls. -/
def modelWithDictIn : Nat → ObjcClass Leaf → Value Leaf → Except Exception (Value Leaf)
  | 0, _, _ => .error .stackOverflow
  | calls + 1, cls, dict =>
      cls.ivars.foldlM (assign classes (modelWithDictIn calls) cls dict) (.object cls.name cls.init)

end Convert

/-- How deep collections are nested. -/
def Value.depth : Value Leaf → Nat
  | .leaf _ => 0
  | .array elements => depths elements + 1
  | .dict entries => entryDepths entries + 1
  | .object _ _ => 0
where
  depths : List (Value Leaf) → Nat
  | [] => 0
  | value :: values => max value.depth (depths values)
  entryDepths : List (String × Value Leaf) → Nat
  | [] => 0
  | (_, value) :: entries => max value.depth (entryDepths entries)

/-- A call never needs more stack than the dictionary is deep. -/
def modelWithDict (classes : List (ObjcClass Leaf)) (cls : ObjcClass Leaf) (dict : Value Leaf) :
    Except Exception (Value Leaf) :=
  modelWithDictIn classes (dict.depth + 1) cls dict

/-! ## Lemmas about the parts -/

theorem rangeOfQuote_spec {s : String} {front rest : List Char}
    (text : s.toList = front ++ '"' :: rest) (unquoted : '"' ∉ front) :
    rangeOfQuote s = ⟨front.length, 1⟩ := by
  have first : front.findIdx? (· = '"') = none := by
    rw [List.findIdx?_eq_none_iff]
    intro c member
    exact decide_eq_false fun same => unquoted (same ▸ member)
  rw [rangeOfQuote, text, List.findIdx?_append, first]
  simp [List.findIdx?_cons]

/-- An ivar declared as a class has the class's name between quotes. -/
theorem modelClassName_quoted {name : String} (unquoted : '"' ∉ name.toList) :
    modelClassName ("@\"" ++ name ++ "\"") = .ok name := by
  have text : ("@\"" ++ name ++ "\"").toList = ['@'] ++ '"' :: (name.toList ++ ['"']) := by simp
  have rest : (name ++ "\"").toList = name.toList ++ '"' :: [] := by simp
  have cut : substringFromIndex ("@\"" ++ name ++ "\"") (['@'].length + 1) =
      .ok (name ++ "\"") := by
    rw [substringFromIndex, text]
    simp
  rw [modelClassName, rangeOfQuote_spec text (by simp)]
  simp only [cut]
  change substringToIndex (name ++ "\"") (rangeOfQuote (name ++ "\"")).location = .ok name
  rw [rangeOfQuote_spec rest unquoted, substringToIndex, rest]
  simp

theorem map_fst_store (slots : List (String × Value Leaf)) (name : String) (value : Value Leaf) :
    (store slots name value).map Prod.fst = slots.map Prod.fst := by
  rw [store, List.map_map, List.map_inj_left]
  intro slot _
  rw [Function.comp_apply]
  split <;> rfl

theorem lookup_store_ne {slots : List (String × Value Leaf)} {name other : String}
    (different : other ≠ name) (value : Value Leaf) :
    (store slots name value).lookup other = slots.lookup other := by
  induction slots with
  | nil => rfl
  | cons slot slots ih =>
      obtain ⟨key, content⟩ := slot
      rw [store, List.map_cons, ← store]
      by_cases same : key = name
      · subst same
        have other_ne : (other == key) = false := by simpa using different
        simp [List.lookup_cons, ih, other_ne]
      · simp [List.lookup_cons, ih, same]

theorem lookup_store {slots : List (String × Value Leaf)} {name : String}
    (present : name ∈ slots.map Prod.fst) (value : Value Leaf) :
    (store slots name value).lookup name = some value := by
  induction slots with
  | nil => simp at present
  | cons slot slots ih =>
      obtain ⟨key, content⟩ := slot
      rw [store, List.map_cons, ← store]
      by_cases same : key = name
      · simp [same]
      · have later : name ∈ slots.map Prod.fst := by
          simpa [Ne.symm same] using present
        have name_ne : (name == key) = false := by simpa using Ne.symm same
        simp [List.lookup_cons, same, name_ne, ih later]

/-- A key is the ivar's name without its first character. -/
theorem substringFromIndex_key (key : String) : substringFromIndex ("_" ++ key) 1 = .ok key := by
  simp [substringFromIndex]

theorem depth_lt_of_mem {value : Value Leaf} {elements : List (Value Leaf)}
    (member : value ∈ elements) :
    value.depth < (Value.array elements).depth := by
  have bound : value.depth ≤ Value.depth.depths elements := by
    induction elements with
    | nil => cases member
    | cons head elements ih =>
        rw [Value.depth.depths]
        cases member with
        | head => exact Nat.le_max_left _ _
        | tail _ later => exact Nat.le_trans (ih later) (Nat.le_max_right _ _)
  rw [Value.depth]
  omega

theorem depth_lt_of_lookup {key : String} {value : Value Leaf}
    {entries : List (String × Value Leaf)} (found : entries.lookup key = some value) :
    value.depth < (Value.dict entries).depth := by
  have bound : value.depth ≤ Value.depth.entryDepths entries := by
    induction entries with
    | nil => cases found
    | cons entry entries ih =>
        obtain ⟨name, content⟩ := entry
        rw [Value.depth.entryDepths]
        rw [List.lookup_cons] at found
        split at found
        · cases found
          exact Nat.le_max_left _ _
        · exact Nat.le_trans (ih found) (Nat.le_max_right _ _)
  rw [Value.depth]
  omega

/-! ## One round, and the whole loop -/

section Loop

variable {classes : List (ObjcClass Leaf)}
  {recurse : ObjcClass Leaf → Value Leaf → Except Exception (Value Leaf)}
  {cls : ObjcClass Leaf} {entries : List (String × Value Leaf)} {ivar : Ivar} {key : String}

theorem assign_absent (named : ivar.name = "_" ++ key) (absent : entries.lookup key = none)
    (objc : Value Leaf) : assign classes recurse cls (.dict entries) objc ivar = .ok objc := by
  simp only [assign, named, substringFromIndex_key, bind, Except.bind, objectForKey, absent]
  rfl

theorem assign_present (named : ivar.name = "_" ++ key) {value content : Value Leaf}
    (found : entries.lookup key = some value)
    (converted : modelValue classes recurse cls ivar key value = .ok content)
    {className : String} {slots : List (String × Value Leaf)}
    (present : ivar.name ∈ slots.map Prod.fst) :
    assign classes recurse cls (.dict entries) (.object className slots) ivar =
      .ok (.object className (store slots ivar.name content)) := by
  rw [named] at present
  simp only [assign, named, substringFromIndex_key, bind, Except.bind, objectForKey, found,
    converted, setValue, if_pos present]

/-- The loop gives each ivar whose key occurs its converted value and leaves every
    other slot alone. -/
theorem loop_spec {spec : Ivar → String → Value Leaf → Value Leaf → Prop} (className : String)
    {ivars : List Ivar} (distinct : (ivars.map Ivar.name).Nodup)
    (named : ∀ ivar ∈ ivars, ∃ key, ivar.name = "_" ++ key)
    (converts : ∀ ivar ∈ ivars, ∀ key value, ivar.name = "_" ++ key →
      entries.lookup key = some value →
        ∃ content, modelValue classes recurse cls ivar key value = .ok content ∧
          spec ivar key value content)
    {slots : List (String × Value Leaf)}
    (present : ∀ ivar ∈ ivars, ivar.name ∈ slots.map Prod.fst) :
    ∃ slots', ivars.foldlM (assign classes recurse cls (.dict entries)) (.object className slots) =
        .ok (.object className slots') ∧
      slots'.map Prod.fst = slots.map Prod.fst ∧
      (∀ ivar ∈ ivars, ∀ key value, ivar.name = "_" ++ key → entries.lookup key = some value →
        ∃ content, slots'.lookup ivar.name = some content ∧ spec ivar key value content) ∧
      ∀ other, (∀ ivar ∈ ivars, ∀ key, ivar.name = other → other = "_" ++ key →
        entries.lookup key = none) → slots'.lookup other = slots.lookup other := by
  induction ivars generalizing slots with
  | nil => exact ⟨slots, rfl, rfl, by simp, fun _ _ => rfl⟩
  | cons ivar ivars ih =>
      rw [List.map_cons, List.nodup_cons] at distinct
      rw [List.forall_mem_cons] at named converts present
      obtain ⟨key, name⟩ := named.1
      cases found : entries.lookup key with
      | none =>
          obtain ⟨slots', looped, shape, stored, kept⟩ := ih distinct.2 named.2 converts.2 present.2
          refine ⟨slots', ?_, shape, ?_, ?_⟩
          · rw [List.foldlM_cons, assign_absent name found]
            exact looped
          · rw [List.forall_mem_cons]
            refine ⟨fun key' value name' found' => ?_, stored⟩
            obtain rfl : key = key' := by simpa [name] using name'
            cases found.symm.trans found'
          · intro other unset
            exact kept other fun later member => unset later (List.mem_cons_of_mem _ member)
      | some value =>
          obtain ⟨content, converted, holds⟩ := converts.1 key value name found
          have present' : ∀ later ∈ ivars,
              later.name ∈ (store slots ivar.name content).map Prod.fst := by
            rw [map_fst_store]
            exact present.2
          obtain ⟨slots', looped, shape, stored, kept⟩ := ih distinct.2 named.2 converts.2 present'
          -- No later ivar has the same name, so this one keeps its content.
          have mine : slots'.lookup ivar.name = some content := by
            rw [kept ivar.name, lookup_store present.1]
            intro later member _ same
            exact absurd (List.mem_map.mpr ⟨later, member, same⟩) distinct.1
          refine ⟨slots', ?_, shape.trans (map_fst_store _ _ _), ?_, ?_⟩
          · rw [List.foldlM_cons, assign_present name found converted present.1]
            exact looped
          · rw [List.forall_mem_cons]
            refine ⟨fun key' value' name' found' => ?_, stored⟩
            obtain rfl : key = key' := by simpa [name] using name'
            cases found.symm.trans found'
            exact ⟨content, mine, holds⟩
          · intro other unset
            rw [kept other fun later member => unset later (List.mem_cons_of_mem _ member)]
            apply lookup_store_ne
            intro same
            have absent := unset ivar List.mem_cons_self key same.symm (same.trans name)
            cases found.symm.trans absent

end Loop

end LearningProjects.Runtime
