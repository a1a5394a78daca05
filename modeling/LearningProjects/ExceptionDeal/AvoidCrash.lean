import LearningProjects.ExceptionDeal.Swizzling
import Mathlib.Data.List.Basic
import Mathlib.Data.List.Nodup
import Mathlib.Data.List.Flatten
import Mathlib.Data.List.Induction
import Mathlib.Data.List.Perm.Subperm
import Mathlib.Tactic.Common

/-! # Which methods AvoidCrash protects

The categories exchange their methods under a `dispatch_once` each, and
`becomeEffective` and `makeAllEffective` run all of them under one more. An app may
call any of these, in any order and as often as it likes.
-/

universe u

namespace LearningProjects.ExceptionDeal

open ObjC

/-- What a wrapper does about an exception; the signature wrapper lets it pass and
    looks at the value instead. -/
inductive Fallback where
  | returnNil
  | ignore
  | unassigned
  | removeNil
  | removeNilKeyValues
  | signature
  deriving DecidableEq, Repr

def Fallback.defaultToDo : Fallback → String
  | .returnNil => "AvoidCrash default is to return nil to avoid crash."
  | .ignore => "AvoidCrash default is to ignore this operation to avoid crash."
  | .unassigned => "AvoidCrash default is to return a without assign unichar."
  | .removeNil => "AvoidCrash default is to remove nil object and instance a array."
  | .removeNilKeyValues =>
      "AvoidCrash default is to remove nil key-values and instance a dictionary."
  | .signature => ""

inductive Category where
  | object
  | array
  | mutableArray
  | dictionary
  | mutableDictionary
  | string
  | mutableString
  | attributedString
  | mutableAttributedString
  deriving DecidableEq, Repr

def Category.className : Category → String
  | .object => "NSObject"
  | .array => "NSArray"
  | .mutableArray => "NSMutableArray"
  | .dictionary => "NSDictionary"
  | .mutableDictionary => "NSMutableDictionary"
  | .string => "NSString"
  | .mutableString => "NSMutableString"
  | .attributedString => "NSAttributedString"
  | .mutableAttributedString => "NSMutableAttributedString"

/-- The two methods of `AvoidCrash`, and a category that does it by hand. -/
inductive Means where
  | exchangeClassMethod
  | exchangeInstanceMethod
  | direct
  deriving DecidableEq, Repr

/-- One exchange of a category; `method2Sel` is a wrapper of the same category. -/
structure Exchange where
  means : Means
  anClass : String
  method1Sel : String
  method2Sel : String
  fallback : Fallback
  deriving DecidableEq, Repr

def NSObject.avoidCrashExchangeMethodIfDealWithNoneSel (ifDealWithNoneSel : Bool) :
    List Exchange :=
  [⟨.exchangeInstanceMethod, "NSObject", "setValue:forKey:",
      "avoidCrashSetValue:forKey:", .ignore⟩,
    ⟨.exchangeInstanceMethod, "NSObject", "setValue:forKeyPath:",
      "avoidCrashSetValue:forKeyPath:", .ignore⟩,
    ⟨.exchangeInstanceMethod, "NSObject", "setValue:forUndefinedKey:",
      "avoidCrashSetValue:forUndefinedKey:", .ignore⟩,
    ⟨.exchangeInstanceMethod, "NSObject", "setValuesForKeysWithDictionary:",
      "avoidCrashSetValuesForKeysWithDictionary:", .ignore⟩] ++
  if ifDealWithNoneSel then
    [⟨.exchangeInstanceMethod, "NSObject", "methodSignatureForSelector:",
        "avoidCrashMethodSignatureForSelector:", .signature⟩,
      ⟨.exchangeInstanceMethod, "NSObject", "forwardInvocation:",
        "avoidCrashForwardInvocation:", .ignore⟩]
  else []

def NSArray.avoidCrashExchangeMethod (isiOS11 : Bool) : List Exchange :=
  [⟨.exchangeClassMethod, "NSArray", "arrayWithObjects:count:",
      "AvoidCrashArrayWithObjects:count:", .removeNil⟩,
    ⟨.exchangeInstanceMethod, "NSArray", "objectsAtIndexes:",
      "avoidCrashObjectsAtIndexes:", .returnNil⟩,
    ⟨.exchangeInstanceMethod, "__NSArrayI", "objectAtIndex:",
      "__NSArrayIAvoidCrashObjectAtIndex:", .returnNil⟩,
    ⟨.exchangeInstanceMethod, "__NSSingleObjectArrayI", "objectAtIndex:",
      "__NSSingleObjectArrayIAvoidCrashObjectAtIndex:", .returnNil⟩,
    ⟨.exchangeInstanceMethod, "__NSArray0", "objectAtIndex:",
      "__NSArray0AvoidCrashObjectAtIndex:", .returnNil⟩] ++
  (if isiOS11 then
    [⟨.exchangeInstanceMethod, "__NSArrayI", "objectAtIndexedSubscript:",
        "__NSArrayIAvoidCrashObjectAtIndexedSubscript:", .returnNil⟩]
  else []) ++
  [⟨.exchangeInstanceMethod, "NSArray", "getObjects:range:",
      "NSArrayAvoidCrashGetObjects:range:", .ignore⟩,
    ⟨.exchangeInstanceMethod, "__NSSingleObjectArrayI", "getObjects:range:",
      "__NSSingleObjectArrayIAvoidCrashGetObjects:range:", .ignore⟩,
    ⟨.exchangeInstanceMethod, "__NSArrayI", "getObjects:range:",
      "__NSArrayIAvoidCrashGetObjects:range:", .ignore⟩]

def NSMutableArray.avoidCrashExchangeMethod (isiOS11 : Bool) : List Exchange :=
  [⟨.exchangeInstanceMethod, "__NSArrayM", "objectAtIndex:",
      "avoidCrashObjectAtIndex:", .returnNil⟩] ++
  (if isiOS11 then
    [⟨.exchangeInstanceMethod, "__NSArrayM", "objectAtIndexedSubscript:",
        "avoidCrashObjectAtIndexedSubscript:", .returnNil⟩]
  else []) ++
  [⟨.exchangeInstanceMethod, "__NSArrayM", "setObject:atIndexedSubscript:",
      "avoidCrashSetObject:atIndexedSubscript:", .ignore⟩,
    ⟨.exchangeInstanceMethod, "__NSArrayM", "removeObjectAtIndex:",
      "avoidCrashRemoveObjectAtIndex:", .ignore⟩,
    ⟨.exchangeInstanceMethod, "__NSArrayM", "insertObject:atIndex:",
      "avoidCrashInsertObject:atIndex:", .ignore⟩,
    ⟨.exchangeInstanceMethod, "__NSArrayM", "getObjects:range:",
      "avoidCrashGetObjects:range:", .ignore⟩]

def NSDictionary.avoidCrashExchangeMethod : List Exchange :=
  [⟨.exchangeClassMethod, "NSDictionary", "dictionaryWithObjects:forKeys:count:",
      "avoidCrashDictionaryWithObjects:forKeys:count:", .removeNilKeyValues⟩]

def NSMutableDictionary.avoidCrashExchangeMethod (isiOS11 : Bool) : List Exchange :=
  [⟨.exchangeInstanceMethod, "__NSDictionaryM", "setObject:forKey:",
      "avoidCrashSetObject:forKey:", .ignore⟩] ++
  (if isiOS11 then
    [⟨.exchangeInstanceMethod, "__NSDictionaryM", "setObject:forKeyedSubscript:",
        "avoidCrashSetObject:forKeyedSubscript:", .ignore⟩]
  else []) ++
  [⟨.direct, "__NSDictionaryM", "removeObjectForKey:",
      "avoidCrashRemoveObjectForKey:", .ignore⟩]

def NSString.avoidCrashExchangeMethod : List Exchange :=
  [⟨.exchangeInstanceMethod, "__NSCFConstantString", "characterAtIndex:",
      "avoidCrashCharacterAtIndex:", .unassigned⟩,
    ⟨.exchangeInstanceMethod, "__NSCFConstantString", "substringFromIndex:",
      "avoidCrashSubstringFromIndex:", .returnNil⟩,
    ⟨.exchangeInstanceMethod, "__NSCFConstantString", "substringToIndex:",
      "avoidCrashSubstringToIndex:", .returnNil⟩,
    ⟨.exchangeInstanceMethod, "__NSCFConstantString", "substringWithRange:",
      "avoidCrashSubstringWithRange:", .returnNil⟩,
    ⟨.exchangeInstanceMethod, "__NSCFConstantString",
      "stringByReplacingOccurrencesOfString:withString:",
      "avoidCrashStringByReplacingOccurrencesOfString:withString:", .returnNil⟩,
    ⟨.exchangeInstanceMethod, "__NSCFConstantString",
      "stringByReplacingOccurrencesOfString:withString:options:range:",
      "avoidCrashStringByReplacingOccurrencesOfString:withString:options:range:", .returnNil⟩,
    ⟨.exchangeInstanceMethod, "__NSCFConstantString",
      "stringByReplacingCharactersInRange:withString:",
      "avoidCrashStringByReplacingCharactersInRange:withString:", .returnNil⟩]

def NSMutableString.avoidCrashExchangeMethod : List Exchange :=
  [⟨.exchangeInstanceMethod, "__NSCFString", "replaceCharactersInRange:withString:",
      "avoidCrashReplaceCharactersInRange:withString:", .ignore⟩,
    ⟨.exchangeInstanceMethod, "__NSCFString", "insertString:atIndex:",
      "avoidCrashInsertString:atIndex:", .ignore⟩,
    ⟨.exchangeInstanceMethod, "__NSCFString", "deleteCharactersInRange:",
      "avoidCrashDeleteCharactersInRange:", .ignore⟩]

def NSAttributedString.avoidCrashExchangeMethod : List Exchange :=
  [⟨.exchangeInstanceMethod, "NSConcreteAttributedString", "initWithString:",
      "avoidCrashInitWithString:", .returnNil⟩,
    ⟨.exchangeInstanceMethod, "NSConcreteAttributedString", "initWithAttributedString:",
      "avoidCrashInitWithAttributedString:", .returnNil⟩,
    ⟨.exchangeInstanceMethod, "NSConcreteAttributedString", "initWithString:attributes:",
      "avoidCrashInitWithString:attributes:", .returnNil⟩]

def NSMutableAttributedString.avoidCrashExchangeMethod : List Exchange :=
  [⟨.exchangeInstanceMethod, "NSConcreteMutableAttributedString", "initWithString:",
      "avoidCrashInitWithString:", .returnNil⟩,
    ⟨.exchangeInstanceMethod, "NSConcreteMutableAttributedString", "initWithString:attributes:",
      "avoidCrashInitWithString:attributes:", .returnNil⟩]

/-- What a category exchanges. Only that of `NSObject` reads the flag. -/
def exchanges (isiOS11 ifDealWithNoneSel : Bool) : Category → List Exchange
  | .object => NSObject.avoidCrashExchangeMethodIfDealWithNoneSel ifDealWithNoneSel
  | .array => NSArray.avoidCrashExchangeMethod isiOS11
  | .mutableArray => NSMutableArray.avoidCrashExchangeMethod isiOS11
  | .dictionary => NSDictionary.avoidCrashExchangeMethod
  | .mutableDictionary => NSMutableDictionary.avoidCrashExchangeMethod isiOS11
  | .string => NSString.avoidCrashExchangeMethod
  | .mutableString => NSMutableString.avoidCrashExchangeMethod
  | .attributedString => NSAttributedString.avoidCrashExchangeMethod
  | .mutableAttributedString => NSMutableAttributedString.avoidCrashExchangeMethod

/-- The order in `effectiveIfDealWithNoneSel:`. -/
def categories : List Category :=
  [.object, .array, .mutableArray, .dictionary, .mutableDictionary, .string, .mutableString,
    .attributedString, .mutableAttributedString]

/-- All wrappers there are, each with its category. -/
def wrappers : List (Category × Exchange) :=
  categories.flatMap fun c => (exchanges true true c).map (Prod.mk c)

section Activation

variable {Class Prim : Type*} [DecidableEq Class] (h : Hierarchy Class)
  (nsClassFromString : String → Option Class) (isiOS11 : Bool)

def Exchange.apply (t : MethodLists Class String (Body String Prim Fallback)) (e : Exchange) :
    MethodLists Class String (Body String Prim Fallback) :=
  let anClass := nsClassFromString e.anClass
  match e.means with
  | .exchangeClassMethod => exchangeClassMethod h t anClass e.method1Sel e.method2Sel
  | .exchangeInstanceMethod => exchangeInstanceMethod h t anClass e.method1Sel e.method2Sel
  | .direct => t.methodExchangeImplementations (t.classGetInstanceMethod h anClass e.method1Sel)
      (t.classGetInstanceMethod h anClass e.method2Sel)

/-- The method lists and the tokens of `dispatch_once`. -/
structure Activation (Class Prim : Type*) where
  methods : MethodLists Class String (Body String Prim Fallback)
  effective : Bool
  exchanged : List Category

def avoidCrashExchangeMethod (ifDealWithNoneSel : Bool) (a : Activation Class Prim) (c : Category) :
    Activation Class Prim :=
  if c ∈ a.exchanged then a
  else { a with
    methods := (exchanges isiOS11 ifDealWithNoneSel c).foldl (Exchange.apply h nsClassFromString)
      a.methods
    exchanged := a.exchanged ++ [c] }

def effectiveIfDealWithNoneSel (dealWithNoneSel : Bool) (a : Activation Class Prim) :
    Activation Class Prim :=
  if a.effective then a
  else { categories.foldl (avoidCrashExchangeMethod h nsClassFromString isiOS11 dealWithNoneSel) a
    with
    effective := true }

/-- What an app may call. The flag is for `NSObject`, whose method is
    `avoidCrashExchangeMethodIfDealWithNoneSel:`. -/
inductive Call where
  | becomeEffective
  | makeAllEffective
  | avoidCrashExchangeMethod (c : Category) (ifDealWithNoneSel : Bool)
  deriving DecidableEq, Repr

def Call.perform (a : Activation Class Prim) : Call → Activation Class Prim
  | .becomeEffective => effectiveIfDealWithNoneSel h nsClassFromString isiOS11 false a
  | .makeAllEffective => effectiveIfDealWithNoneSel h nsClassFromString isiOS11 true a
  | .avoidCrashExchangeMethod c ifDealWithNoneSel =>
      LearningProjects.ExceptionDeal.avoidCrashExchangeMethod h nsClassFromString isiOS11
        ifDealWithNoneSel a c

def activate (t : MethodLists Class String (Body String Prim Fallback)) (calls : List Call) :
    Activation Class Prim :=
  calls.foldl (Call.perform h nsClassFromString isiOS11) ⟨t, false, []⟩

end Activation

section Tokens

variable {Class Prim : Type*} [DecidableEq Class] {h : Hierarchy Class}
  {nsClassFromString : String → Option Class} {isiOS11 : Bool}
  {t : MethodLists Class String (Body String Prim Fallback)} {a : Activation Class Prim}
  {f f' : Bool} {c d : Category} {cs : List Category} {calls : List Call}

def Call.reaches (call : Call) (c : Category) : Prop :=
  match call with
  | .avoidCrashExchangeMethod d _ => d = c
  | _ => True

def Call.dealsWithNoneSel : Call → Option Bool
  | .becomeEffective => some false
  | .makeAllEffective => some true
  | .avoidCrashExchangeMethod .object ifDealWithNoneSel => some ifDealWithNoneSel
  | .avoidCrashExchangeMethod _ _ => none

/-- The flag of the first call that reaches `NSObject`. -/
def dealWithNoneSel (calls : List Call) : Bool :=
  (calls.findSome? Call.dealsWithNoneSel).getD false

/-- The exchanges of some categories, each with its category. -/
def exchangesOf (isiOS11 f : Bool) (cs : List Category) : List (Category × Exchange) :=
  cs.flatMap fun c => (exchanges isiOS11 f c).map (Prod.mk c)

theorem exchanges_congr (other : c ≠ .object) : exchanges isiOS11 f c = exchanges isiOS11 f' c := by
  cases c with
  | object => contradiction
  | _ => rfl

theorem exchangesOf_congr (other : .object ∉ cs) :
    exchangesOf isiOS11 f cs = exchangesOf isiOS11 f' cs := by
  refine List.flatMap_congr fun c there => ?_
  rw [exchanges_congr fun same => other (same ▸ there)]

/-- The categories that were reached have exchanged their methods once each. -/
structure Sound (h : Hierarchy Class) (nsClassFromString : String → Option Class) (isiOS11 : Bool)
    (t : MethodLists Class String (Body String Prim Fallback)) (f : Bool)
    (a : Activation Class Prim) : Prop where
  methods : a.methods = (exchangesOf isiOS11 f a.exchanged).foldl
    (fun t p => p.2.apply h nsClassFromString t) t
  once : a.exchanged.Nodup

theorem Sound.flag (sound : Sound h nsClassFromString isiOS11 t f a)
    (other : .object ∉ a.exchanged) : Sound h nsClassFromString isiOS11 t f' a :=
  ⟨sound.methods.trans (by rw [exchangesOf_congr other]), sound.once⟩

theorem mem_exchanged :
    d ∈ (avoidCrashExchangeMethod h nsClassFromString isiOS11 f a c).exchanged ↔
      d ∈ a.exchanged ∨ d = c := by
  unfold avoidCrashExchangeMethod
  split_ifs with there
  · constructor
    · exact .inl
    · intro either
      cases either with
      | inl old => exact old
      | inr new => exact new ▸ there
  · simp

/-- The flag counts only if `NSObject` has its turn. -/
theorem Sound.step (sound : Sound h nsClassFromString isiOS11 t f a)
    (flag : c = .object → .object ∉ a.exchanged → f' = f) :
    Sound h nsClassFromString isiOS11 t f
      (avoidCrashExchangeMethod h nsClassFromString isiOS11 f' a c) := by
  unfold avoidCrashExchangeMethod
  split_ifs with there
  · exact sound
  · have same : exchanges isiOS11 f' c = exchanges isiOS11 f c := by
      by_cases object : c = .object
      · rw [flag object (object ▸ there)]
      · exact exchanges_congr object
    constructor
    · simp only [exchangesOf, List.flatMap_append, List.foldl_append, List.flatMap_cons,
        List.flatMap_nil, List.append_nil, List.foldl_map]
      rw [same, sound.methods]
      rfl
    · simpa [List.nodup_append] using ⟨sound.once, fun d old new => there (new ▸ old)⟩

theorem mem_exchanged_fold :
    d ∈ (cs.foldl (avoidCrashExchangeMethod h nsClassFromString isiOS11 f) a).exchanged ↔
      d ∈ a.exchanged ∨ d ∈ cs := by
  induction cs generalizing a with
  | nil => simp
  | cons c cs ih => simp [ih, mem_exchanged, or_assoc]

theorem Sound.fold (sound : Sound h nsClassFromString isiOS11 t f a) (cs : List Category)
    (flag : .object ∉ a.exchanged → f' = f) :
    Sound h nsClassFromString isiOS11 t f
      (cs.foldl (avoidCrashExchangeMethod h nsClassFromString isiOS11 f') a) := by
  induction cs generalizing a with
  | nil => exact sound
  | cons c cs ih =>
      exact ih (sound.step fun _ => flag) fun missing =>
        flag fun old => missing (mem_exchanged.mpr (.inl old))

/-- What the calls have done so far. The outer token adds nothing to the inner ones. -/
structure Activated (h : Hierarchy Class) (nsClassFromString : String → Option Class)
    (isiOS11 : Bool) (t : MethodLists Class String (Body String Prim Fallback)) (calls : List Call)
    (a : Activation Class Prim) : Prop where
  sound : Sound h nsClassFromString isiOS11 t (dealWithNoneSel calls) a
  reached : ∀ c, c ∈ a.exchanged ↔ ∃ call ∈ calls, call.reaches c
  effective : a.effective = true → ∀ c, c ∈ a.exchanged

theorem isSome_dealsWithNoneSel (call : Call) :
    call.dealsWithNoneSel.isSome ↔ call.reaches .object := by
  cases call with
  | avoidCrashExchangeMethod c f => cases c <;> simp [Call.dealsWithNoneSel, Call.reaches]
  | _ => simp [Call.dealsWithNoneSel, Call.reaches]

theorem Sound.next {call : Call} (inv : Activated h nsClassFromString isiOS11 t calls a) :
    Sound h nsClassFromString isiOS11 t (dealWithNoneSel (calls ++ [call])) a ∧
      ∀ b, call.dealsWithNoneSel = some b → .object ∉ a.exchanged →
        b = dealWithNoneSel (calls ++ [call]) := by
  cases before : calls.findSome? Call.dealsWithNoneSel with
  | some b =>
      have same : dealWithNoneSel (calls ++ [call]) = dealWithNoneSel calls := by
        simp [dealWithNoneSel, List.findSome?_append, before]
      obtain ⟨earlier, there, deals⟩ := List.exists_of_findSome?_eq_some before
      have reached := (isSome_dealsWithNoneSel earlier).mp (by rw [deals]; rfl)
      have done := (inv.reached .object).mpr ⟨earlier, there, reached⟩
      exact ⟨same ▸ inv.sound, fun _ _ missing => absurd done missing⟩
  | none =>
      have missing : .object ∉ a.exchanged := fun done => by
        obtain ⟨earlier, there, reached⟩ := (inv.reached .object).mp done
        have := (isSome_dealsWithNoneSel earlier).mpr reached
        rw [List.findSome?_eq_none_iff.mp before earlier there] at this
        contradiction
      refine ⟨inv.sound.flag missing, fun b deals _ => ?_⟩
      simp [dealWithNoneSel, List.findSome?_append, before, deals]

theorem mem_categories (c : Category) : c ∈ categories := by
  cases c <;> decide

theorem Activated.effectiveIfDealWithNoneSel {call : Call}
    (inv : Activated h nsClassFromString isiOS11 t calls a) (deals : call.dealsWithNoneSel = some f)
    (all : ∀ c, call.reaches c) :
    Activated h nsClassFromString isiOS11 t (calls ++ [call])
      (effectiveIfDealWithNoneSel h nsClassFromString isiOS11 f a) := by
  obtain ⟨sound, flag⟩ := Sound.next inv
  have reached : ∀ c, ∃ call' ∈ calls ++ [call], call'.reaches c := fun c =>
    ⟨call, by simp, all c⟩
  unfold LearningProjects.ExceptionDeal.effectiveIfDealWithNoneSel
  split_ifs with done
  · exact ⟨sound, fun c => ⟨fun _ => reached c, fun _ => inv.effective done c⟩, inv.effective⟩
  · have fold := sound.fold categories (flag f deals)
    have every : ∀ c, c ∈ (categories.foldl
        (avoidCrashExchangeMethod h nsClassFromString isiOS11 f) a).exchanged := fun c =>
      mem_exchanged_fold.mpr (.inr (mem_categories c))
    generalize categories.foldl _ a = b at fold every
    exact ⟨⟨fold.methods, fold.once⟩, fun c => ⟨fun _ => reached c, fun _ => every c⟩,
      fun _ => every⟩

theorem Activated.step (inv : Activated h nsClassFromString isiOS11 t calls a) (call : Call) :
    Activated h nsClassFromString isiOS11 t (calls ++ [call])
      (call.perform h nsClassFromString isiOS11 a) := by
  cases call with
  | becomeEffective => exact inv.effectiveIfDealWithNoneSel rfl fun _ => trivial
  | makeAllEffective => exact inv.effectiveIfDealWithNoneSel rfl fun _ => trivial
  | avoidCrashExchangeMethod c f =>
      obtain ⟨sound, flag⟩ := Sound.next inv
      constructor
      · refine sound.step fun object missing => ?_
        subst object
        exact flag f rfl missing
      · intro d
        refine mem_exchanged.trans ?_
        rw [inv.reached]
        simp [Call.reaches, or_and_right, exists_or, eq_comm]
      · intro done d
        refine mem_exchanged.mpr (.inl (inv.effective ?_ d))
        rw [← done]
        simp only [Call.perform, LearningProjects.ExceptionDeal.avoidCrashExchangeMethod]
        split_ifs <;> rfl

theorem activated (calls : List Call) :
    Activated h nsClassFromString isiOS11 t calls
      (activate h nsClassFromString isiOS11 t calls) := by
  induction calls using List.reverseRecOn with
  | nil => exact ⟨⟨rfl, List.nodup_nil⟩, by simp [activate], by simp [activate]⟩
  | append_singleton calls call ih =>
      have step := ih.step call
      simpa [activate] using step

end Tokens

section Loading

variable {Class Prim : Type*} [DecidableEq Class] (h : Hierarchy Class)
  (nsClassFromString : String → Option Class)

/-- The class whose method list an exchange works on, the metaclass for a class method. -/
def Means.target (c : Class) : Means → Class
  | .exchangeClassMethod => h.getMeta c
  | _ => c

/-- Where the wrapper of an exchange is, before any exchange. -/
def home (p : Category × Exchange) : Option Class :=
  (nsClassFromString p.1.className).map fun c => p.2.means.target h c

/-- The methods of the framework with those of the categories. -/
def loadCategories (framework : MethodLists Class String (Body String Prim Fallback)) :
    MethodLists Class String (Body String Prim Fallback) := fun c s =>
  match wrappers.find? fun p => home h nsClassFromString p = some c ∧ p.2.method2Sel = s with
  | some p => some (some (.wrapper p.2.method2Sel p.2.fallback))
  | none => framework c s

/-- An exchange on a class that is there. -/
def Exchange.swizzle (e : Exchange) : Option (Swizzle Class String Fallback) :=
  (nsClassFromString e.anClass).map fun c =>
    ⟨e.means = .exchangeInstanceMethod, e.means.target h c, e.method1Sel, e.method2Sel, e.fallback⟩

/-- What the exchanges rely on in the framework: it knows no wrapper, every class they
    name inherits from that of the category and has the method to protect, and the two
    attributed strings that share the names of their wrappers lie as they do. -/
structure Foundation (framework : MethodLists Class String (Body String Prim Fallback)) : Prop where
  plain : ∀ p ∈ wrappers, ∀ c, framework c p.2.method2Sel = none
  inherits : ∀ p ∈ wrappers, ∀ z, p.2.swizzle h nsClassFromString = some z →
    ∃ d ∈ h.lineage z.anClass, home h nsClassFromString p = some d
  original : ∀ p ∈ wrappers, ∀ z, p.2.swizzle h nsClassFromString = some z →
    ∃ q, framework.lookUp h z.anClass z.method1Sel = .imp (some (.original q))
  own : ∀ p ∈ wrappers, ∀ z, p.2.swizzle h nsClassFromString = some z → z.adds = false →
    (framework z.anClass z.method1Sel).isSome
  attributed : ∀ c m x, nsClassFromString "NSConcreteAttributedString" = some c →
    nsClassFromString "NSMutableAttributedString" = some m → c ∈ h.lineage x → m ∉ h.lineage x
  mutableAttributed : ∀ a m, nsClassFromString "NSAttributedString" = some a →
    nsClassFromString "NSMutableAttributedString" = some m → a ∈ h.lineage m

end Loading

/-- No exchange protects a wrapper. -/
theorem method1Sel_ne : ∀ p ∈ wrappers, ∀ q ∈ wrappers, p.2.method1Sel ≠ q.2.method2Sel := by
  decide

/-- Two wrappers of one name are those of the attributed strings. -/
theorem eq_of_method2Sel : ∀ p ∈ wrappers, ∀ q ∈ wrappers, q.2.method2Sel = p.2.method2Sel →
    q = p ∨ (p.1 = .attributedString ∧ q.1 = .mutableAttributedString ∧
      p.2.anClass = "NSConcreteAttributedString") ∨
    (p.1 = .mutableAttributedString ∧ q.1 = .attributedString ∧
      q.2.anClass = "NSConcreteAttributedString") := by
  decide

theorem attributed_exchange : ∀ p ∈ wrappers,
    (p.1 = .attributedString ∨ p.1 = .mutableAttributedString) →
      p.2.means = .exchangeInstanceMethod ∧ p.2.fallback = .returnNil := by
  decide

/-- Only one exchange is in front of the method signatures. -/
theorem signature_once : ∀ p ∈ wrappers, ∀ q ∈ wrappers, p.2.fallback = .signature →
    q.2.method1Sel = p.2.method1Sel → q = p := by
  decide

theorem same_fallback : ∀ p ∈ wrappers, ∀ q ∈ wrappers, q.2.method2Sel = p.2.method2Sel →
    q.2.fallback = p.2.fallback := by
  intro p there q also same
  cases eq_of_method2Sel p there q also same with
  | inl equal => rw [equal]
  | inr either =>
      cases either with
      | inl pair =>
          rw [(attributed_exchange q also (.inr pair.2.1)).2,
            (attributed_exchange p there (.inl pair.1)).2]
      | inr pair =>
          rw [(attributed_exchange q also (.inl pair.2.1)).2,
            (attributed_exchange p there (.inr pair.1)).2]

/-- The wrappers of one method fall back to the same. -/
theorem same_fallback_of_method1Sel : ∀ p ∈ wrappers, ∀ q ∈ wrappers,
    q.2.method1Sel = p.2.method1Sel → q.2.fallback = p.2.fallback := by
  decide

theorem nodup_exchanges (isiOS11 f : Bool) (c : Category) : (exchanges isiOS11 f c).Nodup := by
  cases c <;> cases isiOS11 <;> cases f <;> decide

theorem exchanges_sublist (isiOS11 f : Bool) (c : Category) :
    (exchanges isiOS11 f c).Sublist (exchanges true true c) := by
  cases c <;> cases isiOS11 <;> cases f <;> decide

section Loaded

variable {Class Prim : Type*} [DecidableEq Class] {h : Hierarchy Class}
  {nsClassFromString : String → Option Class}
  {framework t : MethodLists Class String (Body String Prim Fallback)}
  {p q : Category × Exchange} {z : Swizzle Class String Fallback} {x c d : Class} {s : String}

theorem Exchange.apply_eq (e : Exchange) :
    e.apply h nsClassFromString t = (e.swizzle h nsClassFromString).elim t (exchange h t) := by
  cases there : nsClassFromString e.anClass with
  | none =>
      cases means : e.means <;>
        simp [Exchange.apply, Exchange.swizzle, there, means, exchangeClassMethod,
          exchangeInstanceMethod, MethodLists.classGetClassMethod, MethodLists.classAddMethod,
          MethodLists.classGetInstanceMethod, MethodLists.methodExchangeImplementations]
  | some c =>
      cases means : e.means <;>
        simp [Exchange.apply, Exchange.swizzle, there, means, exchange, Means.target,
          exchangeClassMethod, MethodLists.classGetClassMethod, MethodLists.classGetInstanceMethod]

theorem foldl_apply (ps : List (Category × Exchange)) :
    ps.foldl (fun t p => p.2.apply h nsClassFromString t) t =
      install h t (ps.filterMap fun p => p.2.swizzle h nsClassFromString) := by
  induction ps generalizing t with
  | nil => rfl
  | cons p ps ih =>
      rw [List.foldl_cons, ih, Exchange.apply_eq, List.filterMap_cons]
      cases p.2.swizzle h nsClassFromString <;> rfl

omit [DecidableEq Class] in
theorem swizzle_eq (there : p.2.swizzle h nsClassFromString = some z) :
    ∃ c, nsClassFromString p.2.anClass = some c ∧
      z = ⟨p.2.means = .exchangeInstanceMethod, p.2.means.target h c, p.2.method1Sel,
        p.2.method2Sel, p.2.fallback⟩ := by
  unfold Exchange.swizzle at there
  cases found : nsClassFromString p.2.anClass with
  | none => simp [found] at there
  | some c => exact ⟨c, rfl, by simpa [found, eq_comm] using there⟩

theorem loadCategories_of_plain (plain : ∀ p ∈ wrappers, s ≠ p.2.method2Sel) :
    loadCategories h nsClassFromString framework c s = framework c s := by
  unfold loadCategories
  cases found : wrappers.find? _ with
  | none => rfl
  | some p =>
      have holds := List.find?_some found
      simp only [decide_eq_true_eq] at holds
      exact absurd holds.2.symm (plain p (List.mem_of_find?_eq_some found))

theorem lookUp_loadCategories (plain : ∀ p ∈ wrappers, s ≠ p.2.method2Sel) :
    (loadCategories h nsClassFromString framework).lookUp h x s = framework.lookUp h x s := by
  have same : (loadCategories h nsClassFromString framework).getMethod h x s =
      framework.getMethod h x s :=
    MethodLists.getMethod_congr fun d _ => by rw [loadCategories_of_plain plain]
  cases found : framework.getMethod h x s with
  | none => simp [MethodLists.lookUp, same, found]
  | some m =>
      have name := MethodLists.name_of_getMethod found
      simp only [MethodLists.lookUp, same, found]
      rw [name, loadCategories_of_plain plain]

variable (F : Foundation h nsClassFromString framework)

include F

omit F [DecidableEq Class] in
theorem home_attributed (there : p ∈ wrappers)
    (kind : p.1 = .attributedString ∨ p.1 = .mutableAttributedString) :
    home h nsClassFromString p = nsClassFromString p.1.className := by
  simp [home, (attributed_exchange p there kind).1, Means.target]

omit [DecidableEq Class] in
theorem Foundation.homes_ne (there : p ∈ wrappers) (also : q ∈ wrappers)
    (pair : p.1 = .attributedString ∧ q.1 = .mutableAttributedString ∧
      p.2.anClass = "NSConcreteAttributedString")
    (found : p.2.swizzle h nsClassFromString = some z) (homep : home h nsClassFromString p = some c)
    (homeq : home h nsClassFromString q = some d) : c ≠ d := by
  intro same
  obtain ⟨e, inherited, here⟩ := F.inherits p there z found
  obtain rfl : e = c := Option.some.inj (here.symm.trans homep)
  obtain ⟨concrete, named, rfl⟩ := swizzle_eq found
  rw [pair.2.2] at named
  rw [home_attributed also (.inr pair.2.1), pair.2.1] at homeq
  rw [(attributed_exchange p there (.inl pair.1)).1] at inherited
  exact F.attributed concrete d concrete named homeq h.mem_lineage_self (same ▸ inherited)

omit [DecidableEq Class] in
/-- In a class where the wrapper's class is in the chain, no other category of the same
    wrapper name comes before it. -/
theorem Foundation.before (there : p ∈ wrappers) (also : q ∈ wrappers)
    (same : q.2.method2Sel = p.2.method2Sel) (found : p.2.swizzle h nsClassFromString = some z)
    (above : z.anClass ∈ h.lineage x) (homep : home h nsClassFromString p = some c)
    (homeq : home h nsClassFromString q = some d) (chain : d ∈ h.lineage x) : d ∈ h.lineage c := by
  cases eq_of_method2Sel p there q also same with
  | inl equal =>
      subst equal
      obtain rfl : c = d := Option.some.inj (homep.symm.trans homeq)
      exact h.mem_lineage_self
  | inr either =>
      cases either with
      | inl pair =>
          obtain ⟨concrete, here, rfl⟩ := swizzle_eq found
          rw [pair.2.2] at here
          rw [home_attributed also (.inr pair.2.1), pair.2.1] at homeq
          rw [(attributed_exchange p there (.inl pair.1)).1] at above
          exact absurd chain (F.attributed concrete d x here homeq above)
      | inr pair =>
          rw [home_attributed also (.inl pair.2.1), pair.2.1] at homeq
          rw [home_attributed there (.inr pair.1), pair.1] at homep
          exact F.mutableAttributed d c homeq homep

theorem Foundation.wrapper (there : p ∈ wrappers)
    (found : p.2.swizzle h nsClassFromString = some z) (above : z.anClass ∈ h.lineage x) :
    ∃ d, home h nsClassFromString p = some d ∧
      (loadCategories h nsClassFromString framework).getMethod h x z.method2Sel =
        some ⟨d, z.method2Sel⟩ ∧
      loadCategories h nsClassFromString framework d z.method2Sel =
        some (some (.wrapper z.method2Sel z.guard)) := by
  obtain ⟨d, inherited, here⟩ := F.inherits p there z found
  have self := swizzle_eq found
  have body : loadCategories h nsClassFromString framework d z.method2Sel =
      some (some (.wrapper z.method2Sel z.guard)) := by
    obtain ⟨c, -, rfl⟩ := self
    unfold loadCategories
    cases first : wrappers.find? _ with
    | none =>
        have missing := List.find?_eq_none.mp first p there
        simp [here] at missing
    | some q =>
        have holds := List.find?_some first
        simp only [decide_eq_true_eq] at holds
        have also := List.mem_of_find?_eq_some first
        exact congrArg₂ (fun s f => some (some (Body.wrapper s f))) holds.2
          (same_fallback p there q also holds.2)
  refine ⟨d, here, MethodLists.getMethod_eq_some_iff.mpr
    ⟨rfl, h.lineage_trans above inherited, by rw [body]; rfl, fun e chain below => ?_⟩, body⟩
  obtain ⟨c, -, rfl⟩ := self
  unfold loadCategories
  cases first : wrappers.find? _ with
  | none => exact F.plain p there e
  | some q =>
      have holds := List.find?_some first
      simp only [decide_eq_true_eq] at holds
      have also := List.mem_of_find?_eq_some first
      exact absurd (F.before there also holds.2 found above here holds.1 chain) below

theorem Foundation.installable {ps : List (Category × Exchange)} (all : ∀ p ∈ ps, p ∈ wrappers)
    (once : ps.Nodup) :
    Installable h (loadCategories h nsClassFromString framework)
      (ps.filterMap fun p => p.2.swizzle h nsClassFromString) := by
  have mem : ∀ z ∈ ps.filterMap fun p => p.2.swizzle h nsClassFromString,
      ∃ p ∈ wrappers, p.2.swizzle h nsClassFromString = some z := fun z there => by
    obtain ⟨p, member, found⟩ := List.mem_filterMap.mp there
    exact ⟨p, all p member, found⟩
  have plain : ∀ p ∈ wrappers, ∀ z, p.2.swizzle h nsClassFromString = some z →
      ∀ q ∈ wrappers, z.method1Sel ≠ q.2.method2Sel := fun p there z found q also => by
    obtain ⟨c, -, rfl⟩ := swizzle_eq found
    exact method1Sel_ne p there q also
  constructor
  case original =>
    intro z there
    obtain ⟨p, member, found⟩ := mem z there
    obtain ⟨prim, original⟩ := F.original p member z found
    exact ⟨prim, (lookUp_loadCategories (plain p member z found)).trans original⟩
  case wrapper =>
    intro z there
    obtain ⟨p, member, found⟩ := mem z there
    obtain ⟨d, -, seen, body⟩ := F.wrapper member found h.mem_lineage_self
    exact MethodLists.lookUp_eq_some_iff.mpr ⟨_, seen, body⟩
  case own =>
    intro z there direct
    obtain ⟨p, member, found⟩ := mem z there
    rw [loadCategories_of_plain (plain p member z found)]
    exact F.own p member z found direct
  case seen =>
    intro z there x above
    obtain ⟨p, member, found⟩ := mem z there
    obtain ⟨d, here, seen, -⟩ := F.wrapper member found above
    obtain ⟨d', here', seen', -⟩ := F.wrapper member found h.mem_lineage_self
    obtain rfl : d = d' := Option.some.inj (here.symm.trans here')
    rw [seen, seen']
  case once =>
    rw [List.Nodup, List.pairwise_map, List.pairwise_filterMap]
    refine once.imp_of_mem fun {p q} pmem qmem differ z found y found' same => ?_
    obtain ⟨d, here, seen, -⟩ := F.wrapper (all p pmem) found h.mem_lineage_self
    obtain ⟨e, here', seen', -⟩ := F.wrapper (all q qmem) found' h.mem_lineage_self
    simp only [seen, seen', Option.some.injEq, Method.mk.injEq] at same
    obtain ⟨rfl, name⟩ := same
    obtain ⟨c, -, rfl⟩ := swizzle_eq found
    obtain ⟨c', -, rfl⟩ := swizzle_eq found'
    cases eq_of_method2Sel p (all p pmem) q (all q qmem) name.symm with
    | inl equal => exact differ equal.symm
    | inr either =>
        cases either with
        | inl pair => exact F.homes_ne (all p pmem) (all q qmem) pair found here here' rfl
        | inr pair =>
            exact F.homes_ne (all q qmem) (all p pmem)
              ⟨pair.2.1, pair.1, pair.2.2⟩ found' here' here rfl
  case apart =>
    intro z there y also
    obtain ⟨p, member, found⟩ := mem z there
    obtain ⟨q, member', found'⟩ := mem y also
    obtain ⟨c, -, rfl⟩ := swizzle_eq found'
    exact plain p member z found q member'

end Loaded

/-- What the framework's methods do, how AvoidCrash reports an exception, and what its
    wrappers make of arguments and values. -/
structure Behaviour (Prim : Type*) (Args Exception Value World : Type u) where
  perform : Prim → Args → World → Except Exception Value × World
  noteErrorWithException : Exception → String → World → World
  removeNil : Args → Args
  removeNilKeyValues : Args → Args
  signature : Args → Value → World → Value
  default : Fallback → Value

section Behaviour

variable {Prim : Type*} {Args Exception Value World : Type u}

def Behaviour.semantics (b : Behaviour Prim Args Exception Value World) :
    Semantics Prim Fallback Args Exception Value World where
  perform := b.perform
  handle fallback args result :=
    match fallback, result with
    | .signature, (.ok value, w) => .done (.ok (b.signature args value w), w)
    | .signature, (.error exception, w) => .done (.error exception, w)
    | _, (.ok value, w) => .done (.ok value, w)
    | .removeNil, (.error exception, w) => .again (b.removeNil args)
        (b.noteErrorWithException exception Fallback.removeNil.defaultToDo w)
    | .removeNilKeyValues, (.error exception, w) => .again (b.removeNilKeyValues args)
        (b.noteErrorWithException exception Fallback.removeNilKeyValues.defaultToDo w)
    | fallback, (.error exception, w) => .done (.ok (b.default fallback),
        b.noteErrorWithException exception fallback.defaultToDo w)
  default := b.default

/-- All wrappers but the one of the signatures catch. -/
theorem Behaviour.catches (b : Behaviour Prim Args Exception Value World) {fallback : Fallback}
    (other : fallback ≠ .signature) : b.semantics.Catches fallback := by
  constructor
  · intro args v w
    cases fallback with
    | signature => contradiction
    | _ => rfl
  · intro args e w e' w'
    cases fallback with
    | signature => contradiction
    | _ => simp [Behaviour.semantics]

end Behaviour

section Effect

variable {Class Prim : Type*} {Args Exception Value World : Type u} [DecidableEq Class]
  {h : Hierarchy Class} {nsClassFromString : String → Option Class}
  {framework : MethodLists Class String (Body String Prim Fallback)} {isiOS11 : Bool}
  {ps : List (Category × Exchange)} {z : Swizzle Class String Fallback} {x : Class} {s : String}
  {p : Prim} {fuel : ℕ}

/-- The calls have reached the category of the exchange. -/
def Active (isiOS11 : Bool) (calls : List Call) (e : Exchange) : Prop :=
  ∃ c, (∃ call ∈ calls, call.reaches c) ∧ e ∈ exchanges isiOS11 (dealWithNoneSel calls) c

/-- The exchange is in front of `s` for an instance of `x`. -/
def Exchange.Guards (h : Hierarchy Class) (nsClassFromString : String → Option Class)
    (framework : MethodLists Class String (Body String Prim Fallback)) (x : Class) (s : String)
    (e : Exchange) : Prop :=
  ∃ z, e.swizzle h nsClassFromString = some z ∧ Protects h framework x s z

theorem mem_exchangesOf {f : Bool} {cs : List Category} {q : Category × Exchange} :
    q ∈ exchangesOf isiOS11 f cs ↔ q.1 ∈ cs ∧ q.2 ∈ exchanges isiOS11 f q.1 := by
  simp only [exchangesOf, List.mem_flatMap, List.mem_map]
  constructor
  · rintro ⟨c, there, e, member, rfl⟩
    exact ⟨there, member⟩
  · intro both
    exact ⟨q.1, both.1, q.2, both.2, rfl⟩

theorem exchangesOf_wrappers {f : Bool} {cs : List Category} :
    ∀ q ∈ exchangesOf isiOS11 f cs, q ∈ wrappers := fun q there =>
  (mem_exchangesOf.mpr ⟨mem_categories q.1,
    (exchanges_sublist isiOS11 f q.1).subset (mem_exchangesOf.mp there).2⟩ :
      q ∈ exchangesOf true true categories)

theorem nodup_exchangesOf {f : Bool} {cs : List Category} (once : cs.Nodup) :
    (exchangesOf isiOS11 f cs).Nodup := by
  refine List.nodup_flatMap.mpr ⟨fun c _ => ?_, once.imp fun {c d} differ => ?_⟩
  · exact (nodup_exchanges isiOS11 f c).map fun e e' same => (Prod.mk.inj same).2
  · intro q first second
    obtain ⟨e, -, rfl⟩ := List.mem_map.mp first
    obtain ⟨e', -, same⟩ := List.mem_map.mp second
    exact differ (Prod.mk.inj same).1.symm

omit [DecidableEq Class] in
/-- All the exchanges in front of a method catch, or there is but one. -/
theorem settled (b : Behaviour Prim Args Exception Value World) (all : ∀ q ∈ ps, q ∈ wrappers)
    (once : ps.Nodup) (s : String) :
    (∀ z ∈ ps.filterMap fun q => q.2.swizzle h nsClassFromString, z.method1Sel = s →
      b.semantics.Catches z.guard) ∨
    ((ps.filterMap fun q => q.2.swizzle h nsClassFromString).filter
      fun z => z.method1Sel = s).length ≤ 1 := by
  by_cases signature : ∃ q ∈ wrappers, q.2.fallback = .signature ∧ q.2.method1Sel = s
  · right
    obtain ⟨q, member, kind, rfl⟩ := signature
    have alone : (ps.filterMap fun q => q.2.swizzle h nsClassFromString).Pairwise
        fun z y => ¬(z.method1Sel = q.2.method1Sel ∧ y.method1Sel = q.2.method1Sel) := by
      refine List.pairwise_filterMap.mpr (once.imp_of_mem ?_)
      rintro q₁ q₂ there₁ there₂ differ z found y found' ⟨same₁, same₂⟩
      obtain ⟨c, -, rfl⟩ := swizzle_eq found
      obtain ⟨c', -, rfl⟩ := swizzle_eq found'
      have first := signature_once q member q₁ (all q₁ there₁) kind same₁
      have second := signature_once q member q₂ (all q₂ there₂) kind same₂
      exact differ (first.trans second.symm)
    have filtered := alone.filter fun z => decide (z.method1Sel = q.2.method1Sel)
    cases rest : (ps.filterMap fun q => q.2.swizzle h nsClassFromString).filter
        fun z => z.method1Sel = q.2.method1Sel with
    | nil => simp
    | cons z zs =>
        cases zs with
        | nil => simp
        | cons y zs =>
            have both : ∀ v ∈ z :: y :: zs, v.method1Sel = q.2.method1Sel := fun v there => by
              rw [← rest] at there
              simpa using (List.mem_filter.mp there).2
            rw [rest] at filtered
            exact absurd ⟨both z (by simp), both y (by simp)⟩
              ((List.pairwise_cons.mp filtered).1 y (by simp))
  · left
    intro z there name
    obtain ⟨q, member, found⟩ := List.mem_filterMap.mp there
    obtain ⟨c, -, rfl⟩ := swizzle_eq found
    exact b.catches fun kind => signature ⟨q, all q member, kind, name⟩

omit [DecidableEq Class] in
theorem protects_congr {t u : MethodLists Class String (Body String Prim Fallback)}
    (same : ∀ c, t c s = u c s) : Protects h t x s z ↔ Protects h u x s z := by
  simp only [Protects, same]

/-- After any calls the exchanges of the categories that were reached are installed,
    once each. -/
theorem activate_install (calls : List Call) :
    ∃ ps : List (Category × Exchange), (∀ q ∈ ps, q ∈ wrappers) ∧ ps.Nodup ∧
      (∀ e, Active isiOS11 calls e ↔ ∃ c, (c, e) ∈ ps) ∧
      (activate h nsClassFromString isiOS11 (loadCategories h nsClassFromString framework)
        calls).methods = install h (loadCategories h nsClassFromString framework)
          (ps.filterMap fun q => q.2.swizzle h nsClassFromString) := by
  have inv : Activated h nsClassFromString isiOS11 (loadCategories h nsClassFromString framework)
    calls _ := activated calls
  refine ⟨_, exchangesOf_wrappers, nodup_exchangesOf inv.sound.once, fun e => ?_,
    inv.sound.methods.trans (foldl_apply _)⟩
  simp only [mem_exchangesOf, inv.reached, Active]

/-- After any calls, in any order and however often: a send that ran a method of the
    framework runs it behind the wrapper of an exchange in front of it, once, whichever
    of these was installed first, and as before if none of the exchanges of the
    categories that were reached is in front of it. -/
theorem activate_send (b : Behaviour Prim Args Exception Value World)
    (F : Foundation h nsClassFromString framework) (isiOS11 : Bool) (calls : List Call)
    (plain : ∀ q ∈ wrappers, s ≠ q.2.method2Sel)
    (original : framework.lookUp h x s = .imp (some (.original p)))
    (enough : wrappers.length ≤ fuel) :
    let a := activate h nsClassFromString isiOS11
      (loadCategories h nsClassFromString framework) calls
    (∀ e, Active isiOS11 calls e → e.Guards h nsClassFromString framework x s →
      send b.semantics h a.methods x fuel s =
        fun args w => some (b.semantics.guarded e.fallback (b.perform p) args w)) ∧
    ((∀ e, Active isiOS11 calls e → ¬e.Guards h nsClassFromString framework x s) →
      send b.semantics h a.methods x fuel s = fun args w => some (b.perform p args w)) := by
  intro a
  obtain ⟨ps, all, once, active, methods⟩ := activate_install (h := h) calls
  have few : (ps.filterMap fun q => q.2.swizzle h nsClassFromString).length ≤ fuel :=
    Nat.le_trans (List.length_filterMap_le _ ps)
      (Nat.le_trans (List.subperm_of_subset once all).length_le enough)
  have plain' : ∀ z ∈ ps.filterMap fun q => q.2.swizzle h nsClassFromString, s ≠ z.method2Sel := by
    intro z there
    obtain ⟨q, member, found⟩ := List.mem_filterMap.mp there
    obtain ⟨c, -, rfl⟩ := swizzle_eq found
    exact plain q (all q member)
  have sends := install_send b.semantics (F.installable all once) plain'
    ((lookUp_loadCategories plain).trans original) (settled b all once s) few
  rw [← methods] at sends
  have guards : ∀ z, Protects h (loadCategories h nsClassFromString framework) x s z ↔
      Protects h framework x s z := fun z => protects_congr fun c => loadCategories_of_plain plain
  rw [sends]
  cases first : (ps.filterMap fun q => q.2.swizzle h nsClassFromString).find? fun z =>
      decide (Protects h (loadCategories h nsClassFromString framework) x s z) with
  | none =>
      refine ⟨fun e reached inFront => ?_, fun _ => rfl⟩
      obtain ⟨z, found, protects⟩ := inFront
      obtain ⟨c, member⟩ := (active e).mp reached
      have missing := List.find?_eq_none.mp first z (List.mem_filterMap.mpr ⟨(c, e), member, found⟩)
      simp [(guards z).mpr protects] at missing
  | some z =>
      obtain ⟨q, member, found⟩ := List.mem_filterMap.mp (List.mem_of_find?_eq_some first)
      have protects := (guards z).mp (by simpa using List.find?_some first)
      constructor
      · intro e reached inFront
        obtain ⟨y, found', protects'⟩ := inFront
        obtain ⟨c, member'⟩ := (active e).mp reached
        obtain ⟨d, -, rfl⟩ := swizzle_eq found
        obtain ⟨d', -, rfl⟩ := swizzle_eq (p := (c, e)) found'
        have same := same_fallback_of_method1Sel (c, e) (all _ member') q (all q member)
          (protects.1.trans protects'.1.symm)
        funext args w
        simp only [Option.elim_some, same]
        rfl
      · intro none_in_front
        exact absurd ⟨z, found, protects⟩ (none_in_front q.2 ((active q.2).mpr ⟨q.1, member⟩))

/-- No calls give an object a method that it did not have. -/
theorem activate_forward (F : Foundation h nsClassFromString framework) (isiOS11 : Bool)
    (calls : List Call)
    (plain : ∀ q ∈ wrappers, s ≠ q.2.method2Sel) (missing : framework.lookUp h x s = .forward) :
    (activate h nsClassFromString isiOS11 (loadCategories h nsClassFromString framework)
      calls).methods.lookUp h x s = .forward := by
  obtain ⟨ps, all, once, -, methods⟩ := activate_install (h := h) calls
  rw [methods]
  refine install_forward (F.installable all once) (fun z there => ?_)
    ((lookUp_loadCategories plain).trans missing)
  obtain ⟨q, member, found⟩ := List.mem_filterMap.mp there
  obtain ⟨c, -, rfl⟩ := swizzle_eq found
  exact plain q (all q member)

end Effect

section Clusters

/-- The array clusters and that of the mutable dictionaries. All the class methods are in
    one metaclass. -/
inductive Known where
  | object
  | array
  | arrayI
  | mutableArray
  | arrayM
  | mutableDictionary
  | dictionaryM
  | metaclass
  deriving DecidableEq, Repr

def clusters : Hierarchy Known where
  superclass
    | .object => none
    | .array | .mutableDictionary | .metaclass => some .object
    | .arrayI | .mutableArray => some .array
    | .arrayM => some .mutableArray
    | .dictionaryM => some .mutableDictionary
  getMeta _ := .metaclass
  lineage
    | .object => [.object]
    | .array => [.array, .object]
    | .arrayI => [.arrayI, .array, .object]
    | .mutableArray => [.mutableArray, .array, .object]
    | .arrayM => [.arrayM, .mutableArray, .array, .object]
    | .mutableDictionary => [.mutableDictionary, .object]
    | .dictionaryM => [.dictionaryM, .mutableDictionary, .object]
    | .metaclass => [.metaclass, .object]
  lineage_eq c := by cases c <;> rfl

def known : String → Option Known
  | "NSObject" => some .object
  | "NSArray" => some .array
  | "__NSArrayI" => some .arrayI
  | "NSMutableArray" => some .mutableArray
  | "__NSArrayM" => some .arrayM
  | "NSMutableDictionary" => some .mutableDictionary
  | "__NSDictionaryM" => some .dictionaryM
  | _ => none

/-- Every class implements everything itself. -/
def knownMethods : MethodLists Known String (Body String (Known × String) Fallback) := fun c s =>
  if wrappers.any fun q => q.2.method2Sel = s then none else some (some (.original (c, s)))

theorem known_foundation : Foundation clusters known knownMethods := by
  have present : ∀ q ∈ wrappers, ∀ z, q.2.swizzle clusters known = some z →
      z.method1Sel = q.2.method1Sel ∧
        ∃ d ∈ clusters.lineage z.anClass, home clusters known q = some d := by
    decide
  have own : ∀ q ∈ wrappers, ∀ c, knownMethods c q.2.method1Sel =
      some (some (.original (c, q.2.method1Sel))) := by
    intro q there c
    have other : ∀ r ∈ wrappers, r.2.method2Sel ≠ q.2.method1Sel := fun r also =>
      (method1Sel_ne q there r also).symm
    unfold knownMethods
    rw [if_neg (by simpa using other)]
  constructor
  case plain =>
    intro q there c
    unfold knownMethods
    rw [if_pos (by simpa using ⟨q.1, q.2, there, rfl⟩)]
  case inherits => exact fun q there z found => (present q there z found).2
  case original =>
    intro q there z found
    rw [(present q there z found).1, MethodLists.lookUp_step, own q there]
    exact ⟨_, rfl⟩
  case own =>
    intro q there z found _
    rw [(present q there z found).1, own q there]
    rfl
  case attributed => exact fun c m x absent => by simp [known] at absent
  case mutableAttributed => exact fun a m absent => by simp [known] at absent

def raisingBehaviour : Behaviour (Known × String) Unit String String (List String) where
  perform p _ w := (.error p.2, w)
  noteErrorWithException e defaultToDo w := e :: defaultToDo :: w
  removeNil args := args
  removeNilKeyValues args := args
  signature _ v _ := v
  default _ := "nil"

/-- The mutable arrays come first and then all, twice: in each cluster the exception is
    noted once. `count` of an array is in no category. -/
theorem activate_send_clusters :
    let a := activate clusters known true (loadCategories clusters known knownMethods)
      [.avoidCrashExchangeMethod .mutableArray false, .makeAllEffective, .becomeEffective]
    let sends := fun x s => send raisingBehaviour.semantics clusters a.methods x wrappers.length s
    sends .arrayM "removeObjectAtIndex:" () [] = some (.ok "nil", ["removeObjectAtIndex:",
      "AvoidCrash default is to ignore this operation to avoid crash."]) ∧
    sends .arrayI "objectAtIndex:" () [] = some (.ok "nil", ["objectAtIndex:",
      "AvoidCrash default is to return nil to avoid crash."]) ∧
    sends .dictionaryM "removeObjectForKey:" () [] = some (.ok "nil", ["removeObjectForKey:",
      "AvoidCrash default is to ignore this operation to avoid crash."]) ∧
    sends .arrayI "count" () [] = some (.error "count", []) := by
  intro a sends
  have all {x : Known} {s : String} (plain : ∀ q ∈ wrappers, s ≠ q.2.method2Sel)
      (original : knownMethods.lookUp clusters x s = .imp (some (.original (x, s)))) :=
    activate_send raisingBehaviour known_foundation true [.avoidCrashExchangeMethod .mutableArray
      false, .makeAllEffective, .becomeEffective] plain original (Nat.le_refl _)
  have reached (c : Category) : ∃ call ∈ ([.avoidCrashExchangeMethod .mutableArray false,
      .makeAllEffective, .becomeEffective] : List Call), call.reaches c :=
    ⟨.makeAllEffective, by simp, trivial⟩
  refine ⟨?_, ?_, ?_, ?_⟩
  · have runs := (all (x := .arrayM) (s := "removeObjectAtIndex:") (by decide) rfl).1
      ⟨.exchangeInstanceMethod, "__NSArrayM", "removeObjectAtIndex:",
        "avoidCrashRemoveObjectAtIndex:", .ignore⟩ ⟨.mutableArray, reached _, by decide⟩
      ⟨_, rfl, by decide⟩
    simp only [sends, a, runs]
    rfl
  · have runs := (all (x := .arrayI) (s := "objectAtIndex:") (by decide) rfl).1
      ⟨.exchangeInstanceMethod, "__NSArrayI", "objectAtIndex:",
        "__NSArrayIAvoidCrashObjectAtIndex:", .returnNil⟩ ⟨.array, reached _, by decide⟩
      ⟨_, rfl, by decide⟩
    simp only [sends, a, runs]
    rfl
  · have runs := (all (x := .dictionaryM) (s := "removeObjectForKey:") (by decide) rfl).1
      ⟨.direct, "__NSDictionaryM", "removeObjectForKey:",
        "avoidCrashRemoveObjectForKey:", .ignore⟩ ⟨.mutableDictionary, reached _, by decide⟩
      ⟨_, rfl, by decide⟩
    simp only [sends, a, runs]
    rfl
  · have alone := (all (x := .arrayI) (s := "count") (by decide) rfl).2 ?_
    · simp only [sends, a, alone]
      rfl
    · rintro e ⟨c, -, member⟩ ⟨z, found, protects⟩
      have other : ∀ q ∈ wrappers, q.2.method1Sel ≠ "count" := by decide
      obtain ⟨d, -, rfl⟩ := swizzle_eq (p := (c, e)) found
      exact other (c, e) (exchangesOf_wrappers _ (mem_exchangesOf.mpr ⟨mem_categories c, member⟩))
        protects.1

end Clusters

end LearningProjects.ExceptionDeal
