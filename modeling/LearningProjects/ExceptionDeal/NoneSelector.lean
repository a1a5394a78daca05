import LearningProjects.ExceptionDeal.AvoidCrash

/-! # Unrecognized selectors

With `makeAllEffective` AvoidCrash also gets between an object and a selector it does
not implement. The wrapper of `methodSignatureForSelector:` hands out the signature of
a stub for the classes that the app has set up, so that the message is forwarded, and
the wrapper of `forwardInvocation:` catches what `NSObject` raises there.
-/

namespace LearningProjects.ExceptionDeal

open ObjC

namespace NoneSelector

inductive Signature (Class : Type) where
  | ofMethod (m : Method Class String)
  | proxyMethod
  deriving DecidableEq

inductive Value (Class : Type) where
  | void
  | signature (ms : Option (Signature Class))
  deriving DecidableEq

/-- `-[x s]: unrecognized selector sent to instance`. -/
structure Message (Class : Type) where
  receiver : Class
  selector : String
  deriving DecidableEq

/-- The methods of the framework that forwarding goes through, and all others. -/
inductive Prim where
  | methodSignatureForSelector
  | forwardInvocation
  | other (name : String)
  deriving DecidableEq, Repr

inductive Log (Class : Type) where
  | calledAgain
  | ignored (className : String)
  | noted (exception : Message Class) (defaultToDo : String)
  deriving DecidableEq

/-- The static arrays, nil before their `dispatch_once`, and the log. -/
structure World (Class : Type) where
  noneSelClassStrings : Option (List String)
  noneSelClassStringPrefixs : Option (List String)
  log : List (Log Class)
  deriving DecidableEq

/-- The empty string is no prefix. -/
def hasPrefix (s p : String) : Bool :=
  p ≠ "" && p.toList.isPrefixOf s.toList

section Setup

variable {Class : Type}

/-- Both setups: the first call fills the array with the names it accepts. -/
def setupArray (accepts : String → Bool) (arr : Option (List String)) (log : List (Log Class))
    (names : List String) : Option (List String) × List (Log Class) :=
  match arr with
  | some arr => (some arr, log ++ [.calledAgain])
  | none => names.foldl (fun r className =>
      if accepts className then (r.1.map (· ++ [className]), r.2)
      else (r.1, r.2 ++ [.ignored className])) (some [], log)

/-- No UIKit class and not `NSObject` itself. -/
def acceptsClass (className : String) : Bool :=
  hasPrefix className "UI" = false ∧ className ≠ "NSObject"

def acceptsPrefix (classNamePrefix : String) : Bool :=
  hasPrefix classNamePrefix "UI" = false ∧ hasPrefix classNamePrefix "NS" = false

def setupNoneSelClassStringsArr (w : World Class) (classStrings : List String) : World Class :=
  let r := setupArray acceptsClass w.noneSelClassStrings w.log classStrings
  { w with noneSelClassStrings := r.1, log := r.2 }

def setupNoneSelClassStringPrefixsArr (w : World Class) (classStringPrefixs : List String) :
    World Class :=
  let r := setupArray acceptsPrefix w.noneSelClassStringPrefixs w.log classStringPrefixs
  { w with noneSelClassStringPrefixs := r.1, log := r.2 }

end Setup

section Forwarding

variable {Class : Type} [DecidableEq Class] (h : Hierarchy Class)
  (nsClassFromString : String → Option Class) (name : Class → String)
  (t : MethodLists Class String (Body String Prim Fallback))

def isKindOfClass (x : Class) (c : Option Class) : Bool :=
  c.any fun c => c ∈ h.lineage x

/-- What `avoidCrashMethodSignatureForSelector:` makes of the signature of the system.
    The prefixes are looked at even if that is not nil. -/
def avoidCrashMethodSignatureForSelector (x : Class) (ms : Option (Signature Class))
    (w : World Class) : Option (Signature Class) :=
  let flag := ms = none ∧
    (w.noneSelClassStrings.getD []).any fun classStr =>
      isKindOfClass h x (nsClassFromString classStr)
  if flag then some .proxyMethod
  else if (w.noneSelClassStringPrefixs.getD []).any fun classStrPrefix =>
      hasPrefix (name x) classStrPrefix then some .proxyMethod
  else ms

/-- `NSObject` has a signature for the methods it finds and raises on an invocation. -/
def behaviour (others : String → Message Class → World Class →
      Except (Message Class) (Value Class) × World Class) :
    Behaviour Prim (Message Class) (Message Class) (Value Class) (World Class) where
  perform
    | .methodSignatureForSelector, args, w =>
        (.ok (.signature ((t.getMethod h args.receiver args.selector).map .ofMethod)), w)
    | .forwardInvocation, args, w => (.error args, w)
    | .other method, args, w => others method args w
  noteErrorWithException exception defaultToDo w :=
    { w with log := w.log ++ [.noted exception defaultToDo] }
  removeNil args := args
  removeNilKeyValues args := args
  signature args value w :=
    match value with
    | .signature ms => .signature
        (avoidCrashMethodSignatureForSelector h nsClassFromString name args.receiver ms w)
    | value => value
  default _ := .void

variable (others : String → Message Class → World Class →
  Except (Message Class) (Value Class) × World Class)

/-- What the runtime does with a message that nobody implements, for a class without
    a forwarding target. -/
def forwarding (x : Class) (fuel : ℕ) (s : String) (w : World Class) :
    Option (Except (Message Class) (Value Class) × World Class) :=
  let m := (behaviour h nsClassFromString name t others).semantics
  match send m h t x fuel "methodSignatureForSelector:" ⟨x, s⟩ w with
  | some (.ok (.signature (some _)), w) => send m h t x fuel "forwardInvocation:" ⟨x, s⟩ w
  | some (.ok _, w) => some (.error ⟨x, s⟩, w)
  | result => result

def message (x : Class) (fuel : ℕ) (s : String) (w : World Class) :
    Option (Except (Message Class) (Value Class) × World Class) :=
  match t.lookUp h x s with
  | .forward => forwarding h nsClassFromString name t others x fuel s w
  | .imp _ =>
      send (behaviour h nsClassFromString name t others).semantics h t x fuel s ⟨x, s⟩ w

end Forwarding

/-- What an app does before it sends messages, in any order. -/
inductive Event where
  | activates (c : Call)
  | setupNoneSelClassStringsArr (classStrings : List String)
  | setupNoneSelClassStringPrefixsArr (classStringPrefixs : List String)
  deriving DecidableEq, Repr

section Run

variable {Class : Type} [DecidableEq Class] (h : Hierarchy Class)
  (nsClassFromString : String → Option Class) (isiOS11 : Bool)

def Event.perform (state : Activation Class Prim × World Class) :
    Event → Activation Class Prim × World Class
  | .activates c => (c.perform h nsClassFromString isiOS11 state.1, state.2)
  | .setupNoneSelClassStringsArr classStrings =>
      (state.1, NoneSelector.setupNoneSelClassStringsArr state.2 classStrings)
  | .setupNoneSelClassStringPrefixsArr classStringPrefixs =>
      (state.1, NoneSelector.setupNoneSelClassStringPrefixsArr state.2 classStringPrefixs)

def launch (t : MethodLists Class String (Body String Prim Fallback)) (events : List Event) :
    Activation Class Prim × World Class :=
  events.foldl (Event.perform h nsClassFromString isiOS11) (⟨t, false, []⟩, ⟨none, none, []⟩)

end Run

def Event.calls : Event → Option Call
  | .activates c => some c
  | _ => none

def Event.classStrings : Event → Option (List String)
  | .setupNoneSelClassStringsArr classStrings => some classStrings
  | _ => none

def Event.classStringPrefixs : Event → Option (List String)
  | .setupNoneSelClassStringPrefixsArr classStringPrefixs => some classStringPrefixs
  | _ => none

/-- The class names that count: those of the first call, without the ignored ones. -/
def classStrings (events : List Event) : List String :=
  ((events.findSome? Event.classStrings).getD []).filter acceptsClass

def classStringPrefixs (events : List Event) : List String :=
  ((events.findSome? Event.classStringPrefixs).getD []).filter acceptsPrefix

section Lemmas

variable {Class : Type} [DecidableEq Class] {h : Hierarchy Class}
  {nsClassFromString : String → Option Class} {name : Class → String} {isiOS11 : Bool}
  {t : MethodLists Class String (Body String Prim Fallback)} {w : World Class}

omit [DecidableEq Class] in
theorem setupArray_eq (accepts : String → Bool) (arr : Option (List String))
    (log : List (Log Class)) (names : List String) :
    (setupArray accepts arr log names).1 = some (arr.getD (names.filter accepts)) := by
  have loop : ∀ (kept : List String) (log : List (Log Class)),
      (names.foldl (fun (r : Option (List String) × List (Log Class)) className =>
        if accepts className then (r.1.map (· ++ [className]), r.2)
        else (r.1, r.2 ++ [.ignored className])) (some kept, log)).1 =
      some (kept ++ names.filter accepts) := by
    induction names with
    | nil => intro kept log; simp
    | cons className names ih =>
        intro kept log
        cases counts : accepts className with
        | true => simpa [counts] using ih (kept ++ [className]) log
        | false => simpa [counts] using ih kept (log ++ [.ignored className])
  cases arr with
  | some arr => rfl
  | none => exact loop [] log

/-- What the calls before the messages leave behind: every setup but the first of its
    kind is lost. -/
theorem launch_eq (events : List Event) :
    (launch h nsClassFromString isiOS11 t events).1 =
        activate h nsClassFromString isiOS11 t (events.filterMap Event.calls) ∧
      (launch h nsClassFromString isiOS11 t events).2.noneSelClassStrings =
        (events.findSome? Event.classStrings).map (·.filter acceptsClass) ∧
      (launch h nsClassFromString isiOS11 t events).2.noneSelClassStringPrefixs =
        (events.findSome? Event.classStringPrefixs).map (·.filter acceptsPrefix) := by
  induction events using List.reverseRecOn with
  | nil => exact ⟨rfl, rfl, rfl⟩
  | append_singleton events event ih =>
      obtain ⟨calls, strings, prefixs⟩ := ih
      have snoc : launch h nsClassFromString isiOS11 t (events ++ [event]) =
          event.perform h nsClassFromString isiOS11
            (launch h nsClassFromString isiOS11 t events) := by
        simp [launch]
      rw [snoc, List.filterMap_append, List.findSome?_append, List.findSome?_append]
      cases event with
      | activates c =>
          refine ⟨?_, ?_, ?_⟩
          · simp [Event.perform, calls, activate, Event.calls]
          · simp [Event.perform, strings, Event.classStrings]
          · simp [Event.perform, prefixs, Event.classStringPrefixs]
      | setupNoneSelClassStringsArr names =>
          refine ⟨?_, ?_, ?_⟩
          · simp [Event.perform, calls, Event.calls, List.filterMap_cons]
          · simp only [Event.perform, setupNoneSelClassStringsArr, setupArray_eq, strings]
            cases events.findSome? Event.classStrings <;> simp [Event.classStrings]
          · simp [Event.perform, setupNoneSelClassStringsArr, prefixs, Event.classStringPrefixs]
      | setupNoneSelClassStringPrefixsArr names =>
          refine ⟨?_, ?_, ?_⟩
          · simp [Event.perform, calls, Event.calls, List.filterMap_cons]
          · simp [Event.perform, setupNoneSelClassStringPrefixsArr, strings, Event.classStrings]
          · simp only [Event.perform, setupNoneSelClassStringPrefixsArr, setupArray_eq, prefixs]
            cases events.findSome? Event.classStringPrefixs <;> simp [Event.classStringPrefixs]

end Lemmas

section Outcome

variable {Class : Type} [DecidableEq Class] {h : Hierarchy Class}
  {nsClassFromString : String → Option Class} {name : Class → String}
  {framework : MethodLists Class String (Body String Prim Fallback)} {x o : Class}
  {s : String} {fuel : ℕ}

theorem without_noneSel (isiOS11 : Bool) (c : Category) : ∀ e ∈ exchanges isiOS11 false c,
    e.method1Sel ≠ "methodSignatureForSelector:" := by
  cases c <;> cases isiOS11 <;> decide

theorem plain_forwarding : ∀ q ∈ wrappers, "methodSignatureForSelector:" ≠ q.2.method2Sel ∧
    "forwardInvocation:" ≠ q.2.method2Sel := by
  decide

/-- A class that forwards as `NSObject` does. -/
structure Forwards (h : Hierarchy Class) (nsClassFromString : String → Option Class)
    (framework : MethodLists Class String (Body String Prim Fallback)) (x o : Class) : Prop where
  object : nsClassFromString "NSObject" = some o
  above : o ∈ h.lineage x
  signature : framework.lookUp h x "methodSignatureForSelector:" =
    .imp (some (.original .methodSignatureForSelector))
  invocation : framework.lookUp h x "forwardInvocation:" =
    .imp (some (.original .forwardInvocation))
  below : ∀ d ∈ h.lineage x, d ∉ h.lineage o →
    framework d "methodSignatureForSelector:" = none ∧ framework d "forwardInvocation:" = none

/-- The class of the receiver or one above it was set up, or a prefix of its name. -/
def SetUp (h : Hierarchy Class) (nsClassFromString : String → Option Class) (name : Class → String)
    (events : List Event) (x : Class) : Prop :=
  (∃ classStr ∈ classStrings events, isKindOfClass h x (nsClassFromString classStr)) ∨
    ∃ classStrPrefix ∈ classStringPrefixs events, hasPrefix (name x) classStrPrefix

instance (events : List Event) : Decidable (SetUp h nsClassFromString name events x) := by
  unfold SetUp
  infer_instance

theorem signature_none {w : World Class} {events : List Event}
    (strings : w.noneSelClassStrings.getD [] = classStrings events)
    (prefixs : w.noneSelClassStringPrefixs.getD [] = classStringPrefixs events) :
    avoidCrashMethodSignatureForSelector h nsClassFromString name x none w =
      if SetUp h nsClassFromString name events x then some .proxyMethod else none := by
  have reads : avoidCrashMethodSignatureForSelector h nsClassFromString name x none w =
      if ∃ classStr ∈ classStrings events, isKindOfClass h x (nsClassFromString classStr) then
        some .proxyMethod
      else if ∃ classStrPrefix ∈ classStringPrefixs events, hasPrefix (name x) classStrPrefix then
        some .proxyMethod
      else none := by
    simp [avoidCrashMethodSignatureForSelector, strings, prefixs]
  rw [reads]
  by_cases kind : ∃ classStr ∈ classStrings events, isKindOfClass h x (nsClassFromString classStr)
  · rw [if_pos kind, if_pos (.inl kind)]
  · by_cases starts : ∃ classStrPrefix ∈ classStringPrefixs events,
      hasPrefix (name x) classStrPrefix
    · rw [if_neg kind, if_pos starts, if_pos (.inr starts)]
    · rw [if_neg kind, if_neg starts, if_neg (fun either => either.elim kind starts)]

def signatureExchange : Exchange :=
  ⟨.exchangeInstanceMethod, "NSObject", "methodSignatureForSelector:",
    "avoidCrashMethodSignatureForSelector:", .signature⟩

def invocationExchange : Exchange :=
  ⟨.exchangeInstanceMethod, "NSObject", "forwardInvocation:",
    "avoidCrashForwardInvocation:", .ignore⟩

theorem active_of_dealWithNoneSel {isiOS11 : Bool} {calls : List Call}
    (deals : dealWithNoneSel calls) {e : Exchange}
    (there : e ∈ NSObject.avoidCrashExchangeMethodIfDealWithNoneSel true) :
    Active isiOS11 calls e := by
  have first : calls.findSome? Call.dealsWithNoneSel = some true := by
    cases found : calls.findSome? Call.dealsWithNoneSel with
    | none => simp [dealWithNoneSel, found] at deals
    | some b => simpa [dealWithNoneSel, found] using deals
  obtain ⟨call, member, asks⟩ := List.exists_of_findSome?_eq_some first
  refine ⟨.object, ⟨call, member, (isSome_dealsWithNoneSel call).mp (by rw [asks]; rfl)⟩, ?_⟩
  rw [deals]
  exact there

omit [DecidableEq Class] in
theorem Forwards.signature_guards (forwards : Forwards h nsClassFromString framework x o) :
    signatureExchange.Guards h nsClassFromString framework x "methodSignatureForSelector:" :=
  ⟨⟨true, o, "methodSignatureForSelector:", "avoidCrashMethodSignatureForSelector:", .signature⟩,
    by simp [Exchange.swizzle, signatureExchange, forwards.object, Means.target],
    rfl, forwards.above, fun d there unlike => (forwards.below d there unlike).1⟩

omit [DecidableEq Class] in
theorem Forwards.invocation_guards (forwards : Forwards h nsClassFromString framework x o) :
    invocationExchange.Guards h nsClassFromString framework x "forwardInvocation:" :=
  ⟨⟨true, o, "forwardInvocation:", "avoidCrashForwardInvocation:", .ignore⟩,
    by simp [Exchange.swizzle, invocationExchange, forwards.object, Means.target],
    rfl, forwards.above, fun d there unlike => (forwards.below d there unlike).2⟩

/-- After any calls and setups, in any order: a message that the receiver does not
    implement raises, as without AvoidCrash, unless the first call that reached `NSObject`
    asked for unrecognized selectors and the receiver was set up. Then it does nothing
    but log the exception it would have raised. -/
theorem message_unrecognized (F : Foundation h nsClassFromString framework) (isiOS11 : Bool)
    (name : Class → String) (forwards : Forwards h nsClassFromString framework x o)
    (events : List Event) (others : String → Message Class → World Class →
      Except (Message Class) (Value Class) × World Class)
    (plain : ∀ q ∈ wrappers, s ≠ q.2.method2Sel) (unrecognized : framework.lookUp h x s = .forward)
    (enough : wrappers.length ≤ fuel) :
    let state := launch h nsClassFromString isiOS11
      (loadCategories h nsClassFromString framework) events
    message h nsClassFromString name state.1.methods others x fuel s state.2 =
      if dealWithNoneSel (events.filterMap Event.calls) ∧
        SetUp h nsClassFromString name events x then
        some (.ok .void, { state.2 with
          log := state.2.log ++ [.noted ⟨x, s⟩ Fallback.ignore.defaultToDo] })
      else some (.error ⟨x, s⟩, state.2) := by
  intro state
  obtain ⟨installed, strings, prefixs⟩ : state.1 = _ ∧ _ := launch_eq events
  obtain ⟨calls, listed⟩ : ∃ calls, events.filterMap Event.calls = calls := ⟨_, rfl⟩
  rw [listed] at installed ⊢
  have forward := activate_forward F isiOS11 calls plain unrecognized
  have signatures := activate_send (behaviour h nsClassFromString name state.1.methods others) F
    isiOS11 calls (fun q there => (plain_forwarding q there).1) forwards.signature enough
  have invocations := activate_send (behaviour h nsClassFromString name state.1.methods others) F
    isiOS11 calls (fun q there => (plain_forwarding q there).2) forwards.invocation enough
  rw [← installed] at forward signatures invocations
  have none_found : state.1.methods.getMethod h x s = none := by
    cases found : state.1.methods.getMethod h x s with
    | none => rfl
    | some m => simp [MethodLists.lookUp, found] at forward
  have asked : avoidCrashMethodSignatureForSelector h nsClassFromString name x none state.2 =
      if SetUp h nsClassFromString name events x then some .proxyMethod else none := by
    apply signature_none
    · rw [strings, classStrings]
      cases events.findSome? Event.classStrings <;> rfl
    · rw [prefixs, classStringPrefixs]
      cases events.findSome? Event.classStringPrefixs <;> rfl
  simp only [message, forward, forwarding]
  cases deals : dealWithNoneSel calls with
  | true =>
      have active : ∀ e ∈ NSObject.avoidCrashExchangeMethodIfDealWithNoneSel true,
          Active isiOS11 calls e := fun e there => active_of_dealWithNoneSel deals there
      rw [signatures.1 signatureExchange (active _ (by decide)) forwards.signature_guards,
        invocations.1 invocationExchange (active _ (by decide)) forwards.invocation_guards]
      simp only [guarded_eq, signatureExchange, invocationExchange, Behaviour.semantics, behaviour,
        none_found, Option.map_none, asked, true_and]
      by_cases setUp : SetUp h nsClassFromString name events x
      · simp [setUp]
      · simp [setUp]
  | false =>
      have untouched : ∀ e, Active isiOS11 calls e →
          ¬e.Guards h nsClassFromString framework x "methodSignatureForSelector:" := by
        intro e reached inFront
        obtain ⟨c, -, member⟩ := reached
        obtain ⟨z, found, protects⟩ := inFront
        obtain ⟨d, -, rfl⟩ := swizzle_eq (p := (c, e)) found
        rw [deals] at member
        exact without_noneSel isiOS11 c e member protects.1
      rw [signatures.2 untouched]
      simp [behaviour, none_found]

end Outcome

section Tiger

/-- `NSObject`, and a class below it that implements nothing. -/
def tiger : String → Option Bool
  | "NSObject" => some false
  | "Tiger" => some true
  | _ => none

def tigerMethods : MethodLists Bool String (Body String Prim Fallback) := fun c s =>
  if c then none
  else if s = "methodSignatureForSelector:" then some (some (.original .methodSignatureForSelector))
  else if s = "forwardInvocation:" then some (some (.original .forwardInvocation))
  else if s ∈ ["setValue:forKey:", "setValue:forKeyPath:", "setValue:forUndefinedKey:",
    "setValuesForKeysWithDictionary:"] then some (some (.original (.other s)))
  else none

theorem tiger_foundation : Foundation cluster tiger tigerMethods := by
  have present : ∀ q ∈ wrappers, ∀ z, q.2.swizzle cluster tiger = some z →
      q.1 = .object ∧ q.2.means = .exchangeInstanceMethod ∧ z.anClass = false ∧ z.adds = true ∧
        ((tigerMethods false z.method1Sel).join.any fun b => b matches .original _) = true := by
    decide
  constructor
  case plain => decide
  case inherits =>
    intro q there z found
    obtain ⟨category, means, target, -, -⟩ := present q there z found
    refine ⟨false, by rw [target]; decide, ?_⟩
    simp [home, category, means, Category.className, tiger, Means.target]
  case original =>
    intro q there z found
    obtain ⟨-, -, target, -, original⟩ := present q there z found
    rw [target, MethodLists.lookUp_step]
    cases own : tigerMethods false z.method1Sel with
    | none => simp [own] at original
    | some imp =>
        cases imp with
        | none => simp [own] at original
        | some b =>
            cases b with
            | original p => exact ⟨p, rfl⟩
            | wrapper via guard => simp [own] at original
  case own =>
    intro q there z found direct
    obtain ⟨-, -, -, adds, -⟩ := present q there z found
    rw [adds] at direct
    contradiction
  case attributed => exact fun c m x absent => by simp [tiger] at absent
  case mutableAttributed => exact fun a m absent => by simp [tiger] at absent

theorem message_unrecognized_tiger :
    message cluster tiger (fun c => if c then "Tiger" else "NSObject")
      (launch cluster tiger true (loadCategories cluster tiger tigerMethods)
        [.setupNoneSelClassStringsArr ["UIView", "Tiger"], .activates .makeAllEffective]).1.methods
      (fun _ _ w => (.ok .void, w)) true wrappers.length "run"
        ⟨some ["Tiger"], none, [.ignored "UIView"]⟩ =
    some (.ok .void, ⟨some ["Tiger"], none,
      [.ignored "UIView", .noted ⟨true, "run"⟩ Fallback.ignore.defaultToDo]⟩) := by
  have forwards : Forwards cluster tiger tigerMethods true false :=
    ⟨rfl, by decide, rfl, rfl, by decide⟩
  have events := message_unrecognized (s := "run") tiger_foundation true
    (fun c => if c then "Tiger" else "NSObject") forwards
    [.setupNoneSelClassStringsArr ["UIView", "Tiger"], .activates .makeAllEffective]
    (fun _ _ w => (.ok .void, w)) (by decide) (by decide) (Nat.le_refl _)
  simp only at events
  rw [if_pos (by decide)] at events
  exact events

end Tiger

end NoneSelector

end LearningProjects.ExceptionDeal
