import Mathlib.Logic.Function.Basic
import LearningProjects.Fallible

/-! # Archiving instances ivar by ivar

The macro `codeRuntime` gives a class `encodeWithCoder:` and `initWithCoder:`.
Both walk the ivars that the instance's own class declares. Encoding asks
`valueForKey:` for their names, which boxes scalars and prefers methods and other ivars
to the one that is meant; decoding stores the decoded pointer into the slot, whatever
the slot is declared to hold.
-/

namespace LearningProjects.Runtime.Archive

inductive IvarType where
  | object
  | scalar (encoding : Char)
  deriving DecidableEq, Repr

structure Ivar where
  name : String
  type : IvarType
  deriving DecidableEq, Repr

variable {Object : Type}

/-- What an ivar's slot can hold. -/
abbrev Slot (Object : Type) : IvarType → Type
  | .object => Option Object
  | .scalar _ => Int

/-- The slots of an instance. A class in its hierarchy is given by the number of
    its ancestors. -/
abbrev Instance (Object : Type) := (depth : Nat) → (ivar : Ivar) → Slot Object ivar.type

/-- `initialise` is what `init` does after `[super init]`. Of a method there is what
    `valueForKey:` makes of the value it returns, if it takes no argument. The last two
    methods are asked by `valueForKey:`; a class that does not override them inherits
    them. -/
structure ObjcClass (Object : Type) where
  ivars : List Ivar
  codeRuntime : Bool
  initialise : Instance Object → Instance Object
  methods : List (String × (Instance Object → Option Object))
  accessInstanceVariablesDirectly : Option Bool
  valueForUndefinedKey : Option (Instance Object → String → Option (Option Object))
  names_nodup : (ivars.map Ivar.name).Nodup

/-- A class with its ancestors, nearest first, one of which adopts `codeRuntime`. -/
structure CodedClass (Object : Type) where
  cls : ObjcClass Object
  supers : List (ObjcClass Object)
  adopts : ∃ c ∈ cls :: supers, c.codeRuntime = true

/-- Numbers as objects, what a scalar slot reads as when a pointer to an object is
    stored into it, and the collection that stands for the collection methods of a key. -/
structure Boxing (Object : Type) where
  number : Char → Int → Object
  bits : Char → Option Object → Int
  proxy : Instance Object → String → Object

abbrev Coder (Object : Type) := List (String × Option Object)

def decodeObject (coder : Coder Object) (key : String) : Option Object := (coder.lookup key).join

def zero : (type : IvarType) → Slot Object type
  | .object => none
  | .scalar _ => (0 : Int)

def alloc : Instance Object := fun _ ivar => zero ivar.type

def setSlot (self : Instance Object) (depth : Nat) (ivar : Ivar) (slot : Slot Object ivar.type) :
    Instance Object :=
  Function.update self depth (Function.update (self depth) ivar slot)

/-- The state that `init` of the nearest class leaves. -/
def initOf : List (ObjcClass Object) → Instance Object
  | [] => alloc
  | cls :: supers => cls.initialise (initOf supers)

/-- What `[super init]` leaves when the nearest class with `codeRuntime` calls it. -/
def superInit : List (ObjcClass Object) → Instance Object
  | [] => alloc
  | cls :: supers => if cls.codeRuntime then initOf supers else superInit supers

/-! ## Key-value coding -/

/-- A key with a capital letter at its front. -/
def capitalized (key : String) : String :=
  match key.toList with
  | [] => ""
  | c :: cs => String.ofList (c.toUpper :: cs)

/-- The methods that answer for a key, in the order in which they are tried. -/
def accessors (key : String) : List String :=
  ["get" ++ capitalized key, key, "is" ++ capitalized key, "_get" ++ capitalized key, "_" ++ key]

/-- The ivars that do, before the one of exactly this name. -/
def earlierIvars (key : String) : List String := ["_" ++ key, "_is" ++ capitalized key]

def ivarNames (key : String) : List String := earlierIvars key ++ [key, "is" ++ capitalized key]

/-- Methods are looked up along the hierarchy. -/
def method (classes : List (ObjcClass Object)) (selector : String) :
    Option (Instance Object → Option Object) :=
  classes.findSome? (·.methods.lookup selector)

/-- The methods of a collection are there: of an array or of a set. -/
def collects (classes : List (ObjcClass Object)) (key : String) : Bool :=
  let responds (selector : String) : Bool := (method classes selector).isSome
  responds ("countOf" ++ capitalized key) &&
    (responds ("objectIn" ++ capitalized key ++ "AtIndex:") || responds (key ++ "AtIndexes:") ||
      responds ("enumeratorOf" ++ capitalized key) &&
        responds ("memberOf" ++ capitalized key ++ ":"))

/-- The answer of the nearest class that overrides it. -/
def accessesDirectly (classes : List (ObjcClass Object)) : Bool :=
  (classes.findSome? ObjcClass.accessInstanceVariablesDirectly).getD true

/-- The ivar of this name in the nearest class that declares one. -/
def findIvar (name : String) : List (ObjcClass Object) → Option (Nat × Ivar)
  | [] => none
  | cls :: supers =>
      match cls.ivars.find? (·.name = name) with
      | some ivar => some (supers.length, ivar)
      | none => findIvar name supers

/-- Where the value of a key comes from. -/
inductive Source (Object : Type) where
  | method (get : Instance Object → Option Object)
  | collection
  | ivar (depth : Nat) (ivar : Ivar)
  | undefined

/-- Methods come first, then a collection, then the ivars. -/
def search (classes : List (ObjcClass Object)) (key : String) : Source Object :=
  match (accessors key).findSome? (method classes) with
  | some get => .method get
  | none =>
      if collects classes key then .collection
      else if accessesDirectly classes then
        match (ivarNames key).findSome? (findIvar · classes) with
        | some (depth, ivar) => .ivar depth ivar
        | none => .undefined
      else .undefined

/-! ## The codec -/

section Codec

variable (boxing : Boxing Object)

def boxed : (type : IvarType) → Slot Object type → Option Object
  | .object, pointer => pointer
  | .scalar encoding, (value : Int) => some (boxing.number encoding value)

def stored : (type : IvarType) → Option Object → Slot Object type
  | .object, pointer => pointer
  | .scalar encoding, pointer => (boxing.bits encoding pointer : Int)

/-- `valueForKey:`; `none` is the exception for an unknown key. -/
def valueForKey (self : Instance Object) (key : String) (classes : List (ObjcClass Object)) :
    Option (Option Object) :=
  match search classes key with
  | .method get => some (get self)
  | .collection => some (some (boxing.proxy self key))
  | .ivar depth ivar => some (boxed boxing ivar.type (self depth ivar))
  | .undefined => do
      let valueForUndefinedKey ← classes.findSome? ObjcClass.valueForUndefinedKey
      valueForUndefinedKey self key

/-- `object_setIvar` stores the pointer, also into a scalar slot. -/
def setIvar (self : Instance Object) (depth : Nat) (ivar : Ivar) (value : Option Object) :
    Instance Object :=
  setSlot self depth ivar (stored boxing ivar.type value)

def encodeWithCoder (c : CodedClass Object) (self : Instance Object) : Option (Coder Object) :=
  c.cls.ivars.mapM fun ivar => do
    let value ← valueForKey boxing self ivar.name (c.cls :: c.supers)
    return (ivar.name, value)

def initWithCoder (c : CodedClass Object) (coder : Coder Object) : Instance Object :=
  c.cls.ivars.foldl
    (fun self ivar => setIvar boxing self c.supers.length ivar (decodeObject coder ivar.name))
    (superInit (c.cls :: c.supers))

end Codec

/-! ## What is encoded -/

theorem find?_name {ivars : List Ivar} (distinct : (ivars.map Ivar.name).Nodup) {ivar : Ivar}
    (member : ivar ∈ ivars) : ivars.find? (·.name = ivar.name) = some ivar := by
  induction ivars with
  | nil => cases member
  | cons head ivars ih =>
      rw [List.map_cons, List.nodup_cons] at distinct
      cases member with
      | head => simp
      | tail _ later =>
          have different : head.name ≠ ivar.name :=
            fun same => distinct.1 (List.mem_map.mpr ⟨ivar, later, same.symm⟩)
          simp [different, ih distinct.2 later]

/-- Looking a name up among values kept by name is finding its ivar. -/
theorem lookup_name (ivars : List Ivar) (value : Ivar → Option Object) (name : String) :
    (ivars.map fun ivar => (ivar.name, value ivar)).lookup name =
      (ivars.find? (·.name = name)).map value := by
  induction ivars with
  | nil => rfl
  | cons head ivars ih =>
      by_cases same : head.name = name
      · simp [same]
      · have different : (name == head.name) = false := by simpa using Ne.symm same
        simp [List.lookup_cons, same, different, ih]

/-- An own ivar is found under its name: no method, no collection and no ivar of another
    name comes before it. -/
structure Unshadowed (c : CodedClass Object) (ivar : Ivar) : Prop where
  noMethod : ∀ selector ∈ accessors ivar.name, method (c.cls :: c.supers) selector = none
  noCollection : collects (c.cls :: c.supers) ivar.name = false
  direct : accessesDirectly (c.cls :: c.supers) = true
  noIvar : ∀ name ∈ earlierIvars ivar.name, findIvar name (c.cls :: c.supers) = none

section Codec

variable {boxing : Boxing Object} {c : CodedClass Object} {self : Instance Object} {ivar : Ivar}

theorem search_of_unshadowed (h : Unshadowed c ivar) (member : ivar ∈ c.cls.ivars) :
    search (c.cls :: c.supers) ivar.name = .ivar c.supers.length ivar := by
  have found : findIvar ivar.name (c.cls :: c.supers) = some (c.supers.length, ivar) := by
    rw [findIvar, find?_name c.cls.names_nodup member]
  have first : (ivarNames ivar.name).findSome? (findIvar · (c.cls :: c.supers)) =
      some (c.supers.length, ivar) := by
    rw [ivarNames, List.findSome?_append, List.findSome?_eq_none_iff.mpr h.noIvar, Option.none_or,
      List.findSome?_cons, found]
  simp only [search, List.findSome?_eq_none_iff.mpr h.noMethod, h.noCollection, h.direct, first]
  rfl

/-- Encoding writes a value for each name, if all of them have one. -/
theorem encodeWithCoder_eq {value : Ivar → Option Object} (read : ∀ ivar ∈ c.cls.ivars,
      valueForKey boxing self ivar.name (c.cls :: c.supers) = some (value ivar)) :
    encodeWithCoder boxing c self = some (c.cls.ivars.map fun ivar => (ivar.name, value ivar)) := by
  have round : ∀ ivar ∈ c.cls.ivars,
      (do let value ← valueForKey boxing self ivar.name (c.cls :: c.supers)
          return (ivar.name, value) : Option (String × Option Object)) =
        pure (ivar.name, value ivar) := by
    intro ivar member
    rw [read ivar member]
    rfl
  rw [encodeWithCoder, Fallible.mapM_congr round, List.mapM_pure]
  rfl

theorem encodeWithCoder_spec {coder : Coder Object}
    (encoded : encodeWithCoder boxing c self = some coder) :
    ∃ value : Ivar → Option Object,
      (∀ ivar ∈ c.cls.ivars,
        valueForKey boxing self ivar.name (c.cls :: c.supers) = some (value ivar)) ∧
      coder = c.cls.ivars.map fun ivar => (ivar.name, value ivar) := by
  let value (ivar : Ivar) := (valueForKey boxing self ivar.name (c.cls :: c.supers)).getD none
  have read : ∀ ivar ∈ c.cls.ivars,
      valueForKey boxing self ivar.name (c.cls :: c.supers) = some (value ivar) := by
    intro ivar member
    obtain ⟨_, round⟩ := Fallible.mapM_rounds encoded ivar member
    obtain ⟨found, known, -⟩ := Option.bind_eq_some_iff.mp round
    simp only [value, known, Option.getD_some]
  exact ⟨value, read, Option.some.inj (encoded.symm.trans (encodeWithCoder_eq read))⟩

/-! ## What is decoded -/

theorem setIvar_self (self : Instance Object) (depth : Nat) (ivar : Ivar) (value : Option Object) :
    setIvar boxing self depth ivar value depth ivar = stored boxing ivar.type value := by
  simp [setIvar, setSlot]

theorem setIvar_of_ne (self : Instance Object) {depth depth' : Nat} {ivar ivar' : Ivar}
    (value : Option Object) (different : depth' = depth → ivar' ≠ ivar) :
    setIvar boxing self depth ivar value depth' ivar' = self depth' ivar' := by
  by_cases same : depth' = depth
  · subst same
    rw [setIvar, setSlot, Function.update_self, Function.update_of_ne (different rfl)]
  · rw [setIvar, setSlot, Function.update_of_ne same]

/-- The loop of `initWithCoder:` over some of the ivars. -/
def decodeIvars (boxing : Boxing Object) (depth : Nat) (value : Ivar → Option Object)
    (start : Instance Object) (ivars : List Ivar) : Instance Object :=
  ivars.foldl (fun self ivar => setIvar boxing self depth ivar (value ivar)) start

theorem decodeIvars_of_not_mem {depth depth' : Nat} {value : Ivar → Option Object}
    {start : Instance Object} {ivars : List Ivar} {ivar : Ivar}
    (untouched : depth' = depth → ivar ∉ ivars) :
    decodeIvars boxing depth value start ivars depth' ivar = start depth' ivar := by
  induction ivars generalizing start with
  | nil => rfl
  | cons head ivars ih =>
      rw [decodeIvars, List.foldl_cons, ← decodeIvars,
        ih fun same => List.not_mem_of_not_mem_cons (untouched same)]
      exact setIvar_of_ne start _ fun same => List.ne_of_not_mem_cons (untouched same)

theorem decodeIvars_of_mem {depth : Nat} {value : Ivar → Option Object} {start : Instance Object}
    {ivars : List Ivar} {ivar : Ivar} (member : ivar ∈ ivars) :
    decodeIvars boxing depth value start ivars depth ivar =
      stored boxing ivar.type (value ivar) := by
  induction ivars generalizing start with
  | nil => cases member
  | cons head ivars ih =>
      rw [decodeIvars, List.foldl_cons, ← decodeIvars]
      by_cases later : ivar ∈ ivars
      · exact ih later
      · obtain rfl : ivar = head := by simpa [later] using member
        rw [decodeIvars_of_not_mem fun _ => later, setIvar_self]

/-- The decoded instance in terms of what was found in the original. -/
theorem decoded_own {coder : Coder Object} (encoded : encodeWithCoder boxing c self = some coder)
    (member : ivar ∈ c.cls.ivars) :
    ∃ value, valueForKey boxing self ivar.name (c.cls :: c.supers) = some value ∧
      initWithCoder boxing c coder c.supers.length ivar = stored boxing ivar.type value := by
  obtain ⟨value, read, rfl⟩ := encodeWithCoder_spec encoded
  refine ⟨value ivar, read ivar member, (decodeIvars_of_mem member).trans ?_⟩
  rw [decodeObject, lookup_name, find?_name c.cls.names_nodup member]
  rfl

theorem decoded_inherited (boxing : Boxing Object) (coder : Coder Object) {depth : Nat}
    (other : depth ≠ c.supers.length) (ivar : Ivar) :
    initWithCoder boxing c coder depth ivar = superInit (c.cls :: c.supers) depth ivar :=
  decodeIvars_of_not_mem fun same => absurd same other

end Codec

/-! ## The round trip -/

/-- The ivars of a hierarchy, each with the number of ancestors of its class. -/
def Declares : List (ObjcClass Object) → Nat → Ivar → Prop
  | [], _, _ => False
  | cls :: supers, depth, ivar =>
      (depth = supers.length ∧ ivar ∈ cls.ivars) ∨ Declares supers depth ivar

theorem Declares.depth_lt {classes : List (ObjcClass Object)} {depth : Nat} {ivar : Ivar}
    (declared : Declares classes depth ivar) : depth < classes.length := by
  induction classes with
  | nil => exact declared.elim
  | cons cls supers ih =>
      cases declared with
      | inl own => exact own.1 ▸ Nat.lt_succ_self _
      | inr inherited => exact Nat.lt_succ_of_lt (ih inherited)

/-- Decoding what was encoded gives every ivar of the hierarchy its value back. -/
def RoundTrips (boxing : Boxing Object) (c : CodedClass Object) (self : Instance Object) : Prop :=
  ∃ coder, encodeWithCoder boxing c self = some coder ∧
    ∀ depth ivar, Declares (c.cls :: c.supers) depth ivar →
      initWithCoder boxing c coder depth ivar = self depth ivar

/-- A pointer always survives; a scalar does when the pointer to its box reads as
    the scalar itself. -/
def Survives (boxing : Boxing Object) : (type : IvarType) → Slot Object type → Prop
  | .object, _ => True
  | .scalar encoding, (value : Int) =>
      boxing.bits encoding (some (boxing.number encoding value)) = value

/-- What `valueForKey:` finds under the ivar's name reads as the ivar itself, when the
    pointer to it is stored there. -/
def StandsFor (boxing : Boxing Object) (c : CodedClass Object) (self : Instance Object)
    (ivar : Ivar) : Prop :=
  ∃ value, valueForKey boxing self ivar.name (c.cls :: c.supers) = some value ∧
    stored boxing ivar.type value = self c.supers.length ivar

section RoundTrip

variable {boxing : Boxing Object} {c : CodedClass Object} {self : Instance Object} {ivar : Ivar}

theorem survives_iff {type : IvarType} {slot : Slot Object type} :
    stored boxing type (boxed boxing type slot) = slot ↔ Survives boxing type slot := by
  cases type with
  | object => exact iff_of_true rfl trivial
  | scalar encoding => exact Iff.rfl

theorem Unshadowed.valueForKey_eq (h : Unshadowed c ivar) (member : ivar ∈ c.cls.ivars) :
    valueForKey boxing self ivar.name (c.cls :: c.supers) =
      some (boxed boxing ivar.type (self c.supers.length ivar)) := by
  rw [valueForKey, search_of_unshadowed h member]

/-- An ivar which is found stands for itself if its value survives. -/
theorem Unshadowed.standsFor_iff (h : Unshadowed c ivar) (member : ivar ∈ c.cls.ivars) :
    StandsFor boxing c self ivar ↔ Survives boxing ivar.type (self c.supers.length ivar) := by
  simp only [StandsFor, h.valueForKey_eq member, Option.some.injEq, exists_eq_left', survives_iff]

theorem roundTrips_iff_standsFor : RoundTrips boxing c self ↔
    (∀ ivar ∈ c.cls.ivars, StandsFor boxing c self ivar) ∧
      ∀ depth ivar, Declares c.supers depth ivar →
        superInit (c.cls :: c.supers) depth ivar = self depth ivar := by
  constructor
  · rintro ⟨coder, encoded, same⟩
    refine ⟨fun ivar member => ?_, fun depth ivar declared => ?_⟩
    · obtain ⟨value, found, decoded⟩ := decoded_own encoded member
      exact ⟨value, found, decoded.symm.trans (same _ _ (.inl ⟨rfl, member⟩))⟩
    · rw [← decoded_inherited boxing coder (Nat.ne_of_lt declared.depth_lt)]
      exact same _ _ (.inr declared)
  · rintro ⟨own, inherited⟩
    have read : ∀ ivar ∈ c.cls.ivars, valueForKey boxing self ivar.name (c.cls :: c.supers) =
        some ((valueForKey boxing self ivar.name (c.cls :: c.supers)).getD none) := by
      intro ivar member
      obtain ⟨value, found, -⟩ := own ivar member
      rw [found, Option.getD_some]
    refine ⟨_, encodeWithCoder_eq read, fun depth ivar declared => ?_⟩
    cases declared with
    | inl here =>
        obtain ⟨rfl, member⟩ := here
        obtain ⟨value, found, stands⟩ := own ivar member
        obtain ⟨value', found', decoded⟩ := decoded_own (encodeWithCoder_eq read) member
        obtain rfl := Option.some.inj (found.symm.trans found')
        exact decoded.trans stands
    | inr declared =>
        rw [decoded_inherited boxing _ (Nat.ne_of_lt declared.depth_lt)]
        exact inherited depth ivar declared

end RoundTrip

inductive Foundation where
  | string (value : String)
  | number (value : Int)
  deriving DecidableEq, Repr

/-- Small numbers are pointers with a tag in the low byte. -/
def tagged : Boxing Foundation where
  number _ value := .number value
  bits _
    | none => 0
    | some (.number value) => value * 256 + 55
    | some (.string _) => 4096
  proxy _ key := .string key

/-- `Teacher` with the getters of its properties and the values its `init` sets; nothing but
    `NSObject` is above it. -/
def teacher : ObjcClass Foundation where
  ivars := [⟨"_name", .object⟩, ⟨"_profession", .object⟩, ⟨"_address", .object⟩,
    ⟨"_age", .scalar 'q'⟩, ⟨"_gender", .scalar 'q'⟩]
  codeRuntime := true
  initialise self :=
    let self := setSlot self 0 ⟨"_name", .object⟩ (some (Foundation.string "Lucy"))
    let self := setSlot self 0 ⟨"_address", .object⟩ (some (Foundation.string "成都"))
    let self := setSlot self 0 ⟨"_profession", .object⟩ (some (Foundation.string "teacher"))
    let self := setSlot self 0 ⟨"_age", .scalar 'q'⟩ (12 : Int)
    setSlot self 0 ⟨"_gender", .scalar 'q'⟩ (1 : Int)
  methods := [("name", fun self => self 0 ⟨"_name", .object⟩),
    ("profession", fun self => self 0 ⟨"_profession", .object⟩),
    ("address", fun self => self 0 ⟨"_address", .object⟩),
    ("age", fun self => some (.number (self 0 ⟨"_age", .scalar 'q'⟩))),
    ("gender", fun self => some (.number (self 0 ⟨"_gender", .scalar 'q'⟩)))]
  accessInstanceVariablesDirectly := none
  valueForUndefinedKey := none
  names_nodup := by decide

/-- A subclass that adds nothing of its own. -/
def headTeacher : ObjcClass Foundation where
  ivars := []
  codeRuntime := false
  initialise self := self
  methods := []
  accessInstanceVariablesDirectly := none
  valueForUndefinedKey := none
  names_nodup := by decide

/-- Of two ivars `name` and `_name` the second one is found under both names. -/
example :
    let cls : ObjcClass Foundation :=
      { headTeacher with
        ivars := [⟨"name", .object⟩, ⟨"_name", .object⟩]
        names_nodup := by decide }
    search [cls] "name" = .ivar 0 ⟨"_name", .object⟩ ∧
      search [cls] "_name" = .ivar 0 ⟨"_name", .object⟩ :=
  ⟨rfl, rfl⟩

end LearningProjects.Runtime.Archive
