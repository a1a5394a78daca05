import LearningProjects.Machine
import LearningProjects.ObjC.MethodTable
import Mathlib.Data.List.Lookmap
import Mathlib.Tactic.Common

/-! # Method caches

`objc_msgSend` looks into the cache of the receiver's class first, and
`lookUpImpOrForward` fills that cache, also from the caches of superclasses. The
caches are dropped only in part when a method changes: `method_exchangeImplementations`
drops those that still hold one of the two old implementations, and
`class_addMethod` those of the class and its subclasses. A run on the cached
runtime is compared here with the same run on the method lists alone.
-/

namespace LearningProjects.ObjC

/-- What differs between the architectures of `objc-cache.mm`. -/
structure CacheConfig where
  endMarker : Nat
  initSize : Nat
  fillRatio : Nat → Nat
  allowFullUtilization : Bool

namespace CacheConfig

def x86 : CacheConfig := ⟨1, 4, fun capacity => capacity * 3 / 4, false⟩

def arm64 : CacheConfig := ⟨0, 2, fun capacity => capacity * 7 / 8, true⟩

def maxCacheSize : Nat := 65536

def fullUtilizationCacheSize : Nat := 8

end CacheConfig

/-- A method cache. `allocated` is false while it shares the constant empty buckets. -/
structure Cache (SEL Body : Type*) where
  allocated : Bool
  capacity : Nat
  entries : List (SEL × Entry Body)

namespace Cache

variable {SEL Body : Type*} [BEq SEL] (cache : Cache SEL Body)

def empty : Cache SEL Body := ⟨false, 0, []⟩

/-- What the cache scan of `objc_msgSend` hits. -/
def hit (s : SEL) : Option (Entry Body) := cache.entries.lookup s

/-- `cache_getImp` cannot tell an entry with a nil `imp` from a miss. -/
def getImp (s : SEL) : Option (Entry Body) :=
  match cache.hit s with
  | some (.imp none) => none
  | found => found

def reallocate (capacity : Nat) : Cache SEL Body := ⟨true, capacity, []⟩

/-- The cache in which `insert` then looks for a free bucket: as it is if it
    has room, and otherwise a larger one without the old entries. -/
def withRoom (config : CacheConfig) : Cache SEL Body :=
  if !cache.allocated then
    reallocate (if cache.capacity = 0 then config.initSize else cache.capacity)
  else if cache.entries.length + 1 + config.endMarker ≤ config.fillRatio cache.capacity then cache
  else if config.allowFullUtilization && cache.capacity ≤ CacheConfig.fullUtilizationCacheSize &&
      cache.entries.length + 1 + config.endMarker ≤ cache.capacity then cache
  else
    reallocate (min (if cache.capacity = 0 then config.initSize else cache.capacity * 2)
      CacheConfig.maxCacheSize)

/-- The loop over the buckets: an entry for the selector stays as it is. -/
def put (s : SEL) (e : Entry Body) : Cache SEL Body :=
  match cache.hit s with
  | some _ => cache
  | none => { cache with entries := cache.entries ++ [(s, e)] }

def insert (config : CacheConfig) (s : SEL) (e : Entry Body) : Cache SEL Body :=
  (cache.withRoom config).put s e

def eraseNolock : Cache SEL Body :=
  if cache.entries.isEmpty then cache else { cache with allocated := false, entries := [] }

/-- `cache_getImp(cls(), sel) == imp`. -/
def shouldFlush [DecidableEq Body] (s : SEL) (imp : Option Body) : Bool :=
  match cache.getImp s with
  | none => imp = none
  | some .forward => false
  | some (.imp body) => body = imp

end Cache

/-- The method lists of all classes with their caches. -/
structure Runtime (Class SEL Body : Type*) where
  methods : MethodLists Class SEL Body
  cache : Class → Cache SEL Body

/-- The calls that change or search methods. A `Method` argument is one that an
    earlier search returned. -/
inductive RuntimeCall (Class SEL Body : Type*) where
  | msgSend (c : Class) (s : SEL)
  | getInstanceMethod (c : Class) (s : SEL)
  | add (c : Option Class) (s : SEL) (imp : Option Body)
  | replace (c : Option Class) (s : SEL) (imp : Option Body)
  | setImplementation (m : Option (Method Class SEL)) (imp : Option Body)
  | exchange (m1 m2 : Option (Method Class SEL))

/-- What a call returns to the program. -/
inductive Answer (Class SEL Body : Type*) where
  | entry (e : Entry Body)
  | method (m : Option (Method Class SEL))
  | added (result : Bool)
  | imp (old : Option Body)
  | void
  deriving DecidableEq

section Model

variable {Class SEL Body : Type*} [DecidableEq Class] [DecidableEq SEL] [DecidableEq Body]

/-- The methods which `+resolveInstanceMethod:` of a class adds to that class
    when it is asked about a selector. -/
abbrev Resolver (Class SEL Body : Type*) := Class → SEL → List (SEL × Option Body)

namespace Runtime

variable (config : CacheConfig) (h : Hierarchy Class) (resolver : Resolver Class SEL Body)
  (rt : Runtime Class SEL Body)

/-- Every class under `cls`, or every class at all, whose cache meets the predicate. -/
def flushCaches (cls : Option Class) (predicate : Class → Bool) : Runtime Class SEL Body :=
  { rt with
    cache := fun c =>
      if (cls.all fun d => d ∈ h.lineage c) && predicate c then (rt.cache c).eraseNolock
      else rt.cache c }

/-- `_method_setImplementation` with the class as far as the caller knows it. -/
def setImplementation (cls : Option Class) (m : Option (Method Class SEL)) (imp : Option Body) :
    Runtime Class SEL Body × Option Body :=
  match m, imp with
  | some m, some body =>
      let old := rt.methods.getImplementation (some m)
      ({ rt with methods := rt.methods.set m (some body) }.flushCaches h cls fun c =>
        (rt.cache c).shouldFlush m.name old, old)
  | _, _ => (rt, none)

def addMethod (c : Class) (s : SEL) (imp : Option Body) (replace : Bool) :
    Runtime Class SEL Body × Option Body :=
  match rt.methods.getMethodNoSuper c s with
  | some m =>
      if replace then rt.setImplementation h (some c) (some m) imp
      else (rt, rt.methods.getImplementation (some m))
  | none =>
      ({ rt with methods := rt.methods.set ⟨c, s⟩ imp }.flushCaches h (some c) fun _ => true, none)

def exchange (m1 m2 : Option (Method Class SEL)) : Runtime Class SEL Body :=
  match m1, m2 with
  | some m1, some m2 =>
      let imp1 := rt.methods.getImplementation (some m1)
      let imp2 := rt.methods.getImplementation (some m2)
      { rt with methods := (rt.methods.set m1 imp2).set m2 imp1 }.flushCaches h none fun c =>
        (rt.cache c).shouldFlush m1.name imp1 || (rt.cache c).shouldFlush m2.name imp2
  | _, _ => rt

/-- The search loop of `lookUpImpOrForward`; the head of the list is `curClass`.
    The cache of each superclass is tried before its method list. -/
def search (s : SEL) : List Class → Entry Body
  | [] => .forward
  | c :: supers =>
      match rt.methods c s with
      | some imp => .imp imp
      | none =>
          match supers with
          | [] => .forward
          | d :: _ =>
              match (rt.cache d).getImp s with
              | some found => found
              | none => search s supers

def fill (c : Class) (s : SEL) (e : Entry Body) : Runtime Class SEL Body :=
  { rt with cache := Function.update rt.cache c ((rt.cache c).insert config s e) }

/-- `lookUpImpOrForward` without `LOOKUP_RESOLVER`. -/
def lookUpNoResolver (c : Class) (s : SEL) : Runtime Class SEL Body × Entry Body :=
  let e := rt.search s (h.lineage c)
  (rt.fill config c s e, e)

def lookUpTryCache (c : Class) (s : SEL) : Runtime Class SEL Body × Entry Body :=
  match (rt.cache c).getImp s with
  | some e => (rt, e)
  | none => rt.lookUpNoResolver config h c s

/-- The calls of `class_addMethod` in a resolver, one after the other. -/
def addAll (c : Class) (additions : List (SEL × Option Body)) : Runtime Class SEL Body :=
  additions.foldl (fun rt a => (rt.addMethod h c a.1 a.2 false).1) rt

/-- `resolveInstanceMethod`: what the class adds to itself, then a lookup that
    caches the result, good or bad. -/
def resolveInstanceMethod (c : Class) (s : SEL) : Runtime Class SEL Body :=
  ((rt.addAll h c (resolver c s)).lookUpTryCache config h c s).1

def lookUpImpOrForward (c : Class) (s : SEL) : Runtime Class SEL Body × Entry Body :=
  match rt.search s (h.lineage c) with
  | .forward => (rt.resolveInstanceMethod config h resolver c s).lookUpTryCache config h c s
  | .imp imp => (rt.fill config c s (.imp imp), .imp imp)

def msgSend (c : Class) (s : SEL) : Runtime Class SEL Body × Entry Body :=
  match (rt.cache c).hit s with
  | some e => (rt, e)
  | none => rt.lookUpImpOrForward config h resolver c s

/-- A `Method` that the program can hold: null or a method of some list. -/
def Held (t : MethodLists Class SEL Body) (m : Option (Method Class SEL)) : Prop :=
  ∀ m' ∈ m, (t m'.owner m'.name).isSome

instance (t : MethodLists Class SEL Body) (m : Option (Method Class SEL)) : Decidable (Held t m) :=
  match m with
  | none => isTrue (by simp [Held])
  | some m => decidable_of_iff ((t m.owner m.name).isSome) (by simp [Held])

def call : RuntimeCall Class SEL Body → Option (Runtime Class SEL Body × Answer Class SEL Body)
  | .msgSend c s =>
      let found := rt.msgSend config h resolver c s
      some (found.1, .entry found.2)
  | .getInstanceMethod c s =>
      let looked := (rt.lookUpImpOrForward config h resolver c s).1
      some (looked, .method (looked.methods.getMethod h c s))
  | .add none _ _ => some (rt, .added false)
  | .add (some c) s imp =>
      let result := rt.addMethod h c s imp false
      some (result.1, .added result.2.isNone)
  | .replace none _ _ => some (rt, .imp none)
  | .replace (some c) s imp =>
      let result := rt.addMethod h c s imp true
      some (result.1, .imp result.2)
  | .setImplementation m imp =>
      if Held rt.methods m then
        let result := rt.setImplementation h none m imp
        some (result.1, .imp result.2)
      else none
  | .exchange m1 m2 =>
      if Held rt.methods m1 ∧ Held rt.methods m2 then some (rt.exchange h m1 m2, .void) else none

/-- Runs of the runtime, with what it has answered. -/
def machine : Machine (Runtime Class SEL Body × List (Answer Class SEL Body))
    (RuntimeCall Class SEL Body) where
  step s e := (s.1.call config h resolver e).map fun r => (r.1, s.2 ++ [r.2])

end Runtime

/-! The same calls on the method lists alone. -/

namespace MethodLists

variable (h : Hierarchy Class) (resolver : Resolver Class SEL Body)
  (t : MethodLists Class SEL Body)

def addAll (c : Class) (additions : List (SEL × Option Body)) : MethodLists Class SEL Body :=
  additions.foldl (fun t a => (t.addMethod c a.1 a.2 false).1) t

/-- What the resolver adds for a selector that nobody in the chain has. -/
def resolve (c : Class) (s : SEL) : MethodLists Class SEL Body :=
  match t.lookUp h c s with
  | .forward => t.addAll c (resolver c s)
  | .imp _ => t

def call : RuntimeCall Class SEL Body →
    Option (MethodLists Class SEL Body × Answer Class SEL Body)
  | .msgSend c s =>
      let t' := t.resolve h resolver c s
      some (t', .entry (t'.lookUp h c s))
  | .getInstanceMethod c s =>
      let t' := t.resolve h resolver c s
      some (t', .method (t'.getMethod h c s))
  | .add c s imp =>
      let result := t.classAddMethod c s imp
      some (result.1, .added result.2)
  | .replace c s imp =>
      let result := t.classReplaceMethod c s imp
      some (result.1, .imp result.2)
  | .setImplementation m imp =>
      if Runtime.Held t m then
        let result := t.methodSetImplementation m imp
        some (result.1, .imp result.2)
      else none
  | .exchange m1 m2 =>
      if Runtime.Held t m1 ∧ Runtime.Held t m2 then
        some (t.methodExchangeImplementations m1 m2, .void)
      else none

def machine : Machine (MethodLists Class SEL Body × List (Answer Class SEL Body))
    (RuntimeCall Class SEL Body) where
  step s e := (s.1.call h resolver e).map fun r => (r.1, s.2 ++ [r.2])

end MethodLists

end Model

/-! A cache never holds anything that was not put into it. -/

namespace Cache

variable {SEL Body : Type*} [DecidableEq SEL] {cache : Cache SEL Body} {s r : SEL}
  {e found : Entry Body} {config : CacheConfig}

omit [DecidableEq SEL] in
theorem withRoom_cases (cache : Cache SEL Body) (config : CacheConfig) :
    cache.withRoom config = cache ∨ ∃ capacity, cache.withRoom config = reallocate capacity := by
  unfold withRoom
  split
  · exact .inr ⟨_, rfl⟩
  · split
    · exact .inl rfl
    · split
      · exact .inl rfl
      · exact .inr ⟨_, rfl⟩

/-- The last of eight buckets is filled on arm64 only. -/
example : (withRoom ⟨true, 8, List.replicate 7 ((), .imp (some 0))⟩ .arm64).capacity = 8 ∧
    (withRoom ⟨true, 8, List.replicate 7 ((), .imp (some 0))⟩ .x86).capacity = 16 := by
  decide

theorem hit_withRoom (held : (cache.withRoom config).hit s = some e) : cache.hit s = some e := by
  rcases withRoom_cases cache config with same | ⟨capacity, emptied⟩
  · rwa [same] at held
  · simp [emptied, reallocate, hit] at held

theorem hit_put (held : (cache.put s e).hit r = some found) :
    cache.hit r = some found ∨ r = s ∧ found = e := by
  unfold put at held
  cases before : cache.hit s with
  | some other =>
      rw [before] at held
      exact .inl held
  | none =>
      rw [before, hit, List.lookup_append, Option.or_eq_some_iff] at held
      rcases held with old | ⟨-, new⟩
      · exact .inl old
      · by_cases same : r = s
        · exact .inr ⟨same, by simpa [same, eq_comm] using new⟩
        · simp [List.lookup_cons, beq_false_of_ne same] at new

theorem hit_insert (held : (cache.insert config s e).hit r = some found) :
    cache.hit r = some found ∨ r = s ∧ found = e :=
  (hit_put held).imp_left hit_withRoom

@[simp] theorem hit_eraseNolock : cache.eraseNolock.hit s = none := by
  unfold eraseNolock
  split_ifs with nothing
  · simp [Cache.hit, List.isEmpty_iff.mp nothing]
  · rfl

theorem hit_of_getImp (found_here : cache.getImp s = some e) : cache.hit s = some e := by
  unfold getImp at found_here
  split at found_here
  · simp at found_here
  · exact found_here

/-- A cache that holds an implementation for the selector is flushed on its change. -/
theorem shouldFlush_of_hit [DecidableEq Body] {imp : Option Body}
    (held : cache.hit s = some (.imp imp)) : cache.shouldFlush s imp = true := by
  cases imp with
  | none => simp [shouldFlush, getImp, held]
  | some body => simp [shouldFlush, getImp, held]

end Cache

section Transparent

variable {Class SEL Body : Type*} [DecidableEq SEL]

namespace MethodLists

variable [DecidableEq Class] {t : MethodLists Class SEL Body} {c d : Class} {r : SEL}
  {additions : List (SEL × Option Body)} {a : SEL × Option Body}

theorem addAll_cons : t.addAll c (a :: additions) =
    (t.addMethod c a.1 a.2 false).1.addAll c additions :=
  rfl

theorem isSome_addAll_of_isSome (there : (t d r).isSome) : (t.addAll c additions d r).isSome := by
  induction additions generalizing t with
  | nil => exact there
  | cons a additions ih => exact ih (isSome_addMethod there)

theorem isSome_addAll (added : a ∈ additions) : (t.addAll c additions c a.1).isSome := by
  induction additions generalizing t with
  | nil => contradiction
  | cons b additions ih =>
      cases added with
      | head =>
          rw [addAll_cons]
          exact isSome_addAll_of_isSome addMethod_there
      | tail _ later => exact ih later

theorem addAll_of_isSome (there : ∀ a ∈ additions, (t c a.1).isSome) :
    t.addAll c additions = t := by
  induction additions with
  | nil => rfl
  | cons a additions ih =>
      rw [List.forall_mem_cons] at there
      rw [addAll_cons, addMethod_of_isSome there.1]
      exact ih there.2

end MethodLists

namespace Runtime

/-- The caches agree with the method lists, and a class that has cached a miss
    has asked its resolver before. -/
structure Coherent (h : Hierarchy Class) (resolver : Resolver Class SEL Body)
    (rt : Runtime Class SEL Body) : Prop where
  hit : ∀ c s e, (rt.cache c).hit s = some e → rt.methods.lookUp h c s = e
  asked : ∀ c s, (rt.cache c).hit s = some .forward →
    ∀ a ∈ resolver c s, (rt.methods c a.1).isSome

variable {config : CacheConfig} {h : Hierarchy Class} {resolver : Resolver Class SEL Body}
  {rt : Runtime Class SEL Body} {c : Class} {s : SEL} {e : Entry Body} {imp : Option Body}

/-- Taking entries from the superclasses' caches finds what the method lists have. -/
theorem Coherent.search_eq (coherent : Coherent h resolver rt) :
    rt.search s (h.lineage c) = rt.methods.lookUp h c s := by
  induction c using h.lineage_induction with
  | step c ih =>
      rw [h.lineage_eq c, MethodLists.lookUp_step]
      unfold search
      cases own : rt.methods c s with
      | some i => rfl
      | none =>
          cases above : h.superclass c with
          | none => rfl
          | some d =>
              have rest := ih d above
              rw [h.lineage_eq d] at rest
              simp only [Option.elim_some, h.lineage_eq d]
              cases cached : (rt.cache d).getImp s with
              | none => exact rest
              | some found => exact (coherent.hit d s found (Cache.hit_of_getImp cached)).symm

theorem coherent_empty (t : MethodLists Class SEL Body) :
    Coherent h resolver ⟨t, fun _ => Cache.empty⟩ where
  hit := fun _ _ _ held => by simp [Cache.empty, Cache.hit] at held
  asked := fun _ _ held => by simp [Cache.empty, Cache.hit] at held

section Changes

variable [DecidableEq Class]

theorem Coherent.fill (coherent : Coherent h resolver rt) (right : rt.methods.lookUp h c s = e)
    (asked : e = .forward → ∀ a ∈ resolver c s, (rt.methods c a.1).isSome) :
    Coherent h resolver (rt.fill config c s e) where
  hit := by
    intro d r found held
    by_cases same : d = c
    · subst same
      simp only [Runtime.fill, Function.update_self] at held
      rcases Cache.hit_insert held with old | ⟨rfl, rfl⟩
      · exact coherent.hit d r found old
      · exact right
    · simp only [Runtime.fill, Function.update_of_ne same] at held
      exact coherent.hit d r found held
  asked := by
    intro d r held
    by_cases same : d = c
    · subst same
      simp only [Runtime.fill, Function.update_self] at held
      rcases Cache.hit_insert held with old | ⟨rfl, missed⟩
      · exact coherent.asked d r old
      · exact asked missed.symm
    · simp only [Runtime.fill, Function.update_of_ne same] at held
      exact coherent.asked d r held

/-- A change of the method lists keeps the caches coherent if every cache that
    holds a changed entry is flushed. -/
theorem Coherent.change (coherent : Coherent h resolver rt) {methods : MethodLists Class SEL Body}
    {cls : Option Class} {predicate : Class → Bool}
    (kept : ∀ c s, (rt.methods c s).isSome → (methods c s).isSome)
    (flushed : ∀ c s e, (rt.cache c).hit s = some e → methods.lookUp h c s ≠ e →
      (cls.all fun d => d ∈ h.lineage c) && predicate c) :
    Coherent h resolver ({ rt with methods := methods }.flushCaches h cls predicate) where
  hit := by
    intro c s e held
    by_contra wrong
    cases dropped : (cls.all fun d => d ∈ h.lineage c) && predicate c with
    | true =>
        simp only [flushCaches, dropped, if_true, Cache.hit_eraseNolock] at held
        contradiction
    | false =>
        simp only [flushCaches, dropped, Bool.false_eq_true, if_false] at held
        rw [flushed c s e held wrong] at dropped
        contradiction
  asked := by
    intro c s held a there
    simp only [flushCaches] at held
    split_ifs at held
    · simp at held
    · exact kept c a.1 (coherent.asked c s held a there)

omit [DecidableEq Class] in
/-- A method whose `imp` changes: whoever has cached the old `imp` of the selector
    finds it there, and others do not use the method. -/
theorem Coherent.stale [DecidableEq Body] (coherent : Coherent h resolver rt) {m : Method Class SEL}
    (held : (rt.cache c).hit s = some e)
    (through : rt.methods.getMethod h c s = some m) :
    (rt.cache c).shouldFlush m.name (rt.methods.getImplementation (some m)) = true := by
  have right := coherent.hit c s e held
  rw [MethodLists.lookUp_eq_imp through] at right
  rw [MethodLists.name_of_getMethod through]
  exact Cache.shouldFlush_of_hit (right ▸ held)

variable [DecidableEq Body]

theorem Coherent.setImplementation (coherent : Coherent h resolver rt) {cls : Option Class}
    {m : Option (Method Class SEL)} (known : Held rt.methods m)
    (owner : ∀ m' ∈ m, ∀ d ∈ cls, m'.owner = d) :
    Coherent h resolver (rt.setImplementation h cls m imp).1 := by
  cases m with
  | none => exact coherent
  | some m =>
      cases imp with
      | none => exact coherent
      | some body =>
          refine coherent.change (fun _ _ => MethodLists.isSome_set) fun c s e held changed => ?_
          rw [MethodLists.lookUp_set (known m rfl)] at changed
          split_ifs at changed with through
          · rw [coherent.stale held through, Bool.and_true, Option.all_eq_true_iff_get]
            intro some_class
            obtain ⟨d, rfl⟩ := Option.isSome_iff_exists.mp some_class
            have here := (MethodLists.owner_of_getMethod through).1
            rw [owner m rfl d rfl] at here
            simpa using here
          · exact absurd (coherent.hit c s e held) changed

theorem Coherent.addMethod (coherent : Coherent h resolver rt) (c : Class) (s : SEL)
    (imp : Option Body) (replace : Bool) :
    Coherent h resolver (rt.addMethod h c s imp replace).1 := by
  unfold Runtime.addMethod
  cases own : rt.methods.getMethodNoSuper c s with
  | some m =>
      obtain ⟨rfl, there⟩ := MethodLists.getMethodNoSuper_eq_some.mp own
      cases replace with
      | false => exact coherent
      | true =>
          refine coherent.setImplementation ?_ ?_
          · rintro m' ⟨⟩
            exact there
          · rintro m' ⟨⟩ d ⟨⟩
            rfl
  | none =>
      refine coherent.change (fun _ _ => MethodLists.isSome_set) fun d r e held changed => ?_
      by_cases under : c ∈ h.lineage d
      · simpa using under
      · rw [MethodLists.lookUp_set_outside under] at changed
        exact absurd (coherent.hit d r e held) changed

theorem Coherent.exchange (coherent : Coherent h resolver rt) {m1 m2 : Option (Method Class SEL)}
    (known1 : Held rt.methods m1) (known2 : Held rt.methods m2) :
    Coherent h resolver (rt.exchange h m1 m2) := by
  cases m1 with
  | none => exact coherent
  | some m1 =>
      cases m2 with
      | none => exact coherent
      | some m2 =>
          refine coherent.change (fun _ _ there => MethodLists.isSome_set
            (MethodLists.isSome_set there))
            fun c s e held changed => ?_
          rw [MethodLists.lookUp_set (MethodLists.isSome_set (known2 m2 rfl)),
            MethodLists.getMethod_set (known1 m1 rfl),
            MethodLists.lookUp_set (known1 m1 rfl)] at changed
          split_ifs at changed with second first
          · simp [coherent.stale held second]
          · simp [coherent.stale held first]
          · exact absurd (coherent.hit c s e held) changed

/-! The method lists of the cached runtime change as they do without caches. -/

theorem setImplementation_methods {cls : Option Class} {m : Option (Method Class SEL)} :
    (rt.setImplementation h cls m imp).1.methods = (rt.methods.methodSetImplementation m imp).1 ∧
      (rt.setImplementation h cls m imp).2 = (rt.methods.methodSetImplementation m imp).2 := by
  cases m <;> cases imp <;> exact ⟨rfl, rfl⟩

theorem addMethod_methods {replace : Bool} :
    (rt.addMethod h c s imp replace).1.methods = (rt.methods.addMethod c s imp replace).1 ∧
      (rt.addMethod h c s imp replace).2 = (rt.methods.addMethod c s imp replace).2 := by
  unfold Runtime.addMethod MethodLists.addMethod
  cases rt.methods.getMethodNoSuper c s with
  | none => exact ⟨rfl, rfl⟩
  | some m =>
      cases replace with
      | false => exact ⟨rfl, rfl⟩
      | true => exact setImplementation_methods

theorem exchange_methods {m1 m2 : Option (Method Class SEL)} :
    (rt.exchange h m1 m2).methods = rt.methods.methodExchangeImplementations m1 m2 := by
  cases m1 <;> cases m2 <;> rfl

/-- What a lookup leaves and returns: the given method lists, the entry that they
    have for the message, and caches that agree with them. -/
structure LooksUp (h : Hierarchy Class) (resolver : Resolver Class SEL Body)
    (t : MethodLists Class SEL Body) (c : Class) (s : SEL)
    (result : Runtime Class SEL Body × Entry Body) : Prop where
  lists : result.1.methods = t
  entry : result.2 = t.lookUp h c s
  coherent : Coherent h resolver result.1

omit [DecidableEq Body] in
theorem Coherent.lookUpTryCache (coherent : Coherent h resolver rt) (config : CacheConfig)
    (asked : ∀ a ∈ resolver c s, (rt.methods c a.1).isSome) :
    LooksUp h resolver rt.methods c s (rt.lookUpTryCache config h c s) := by
  unfold Runtime.lookUpTryCache
  cases cached : (rt.cache c).getImp s with
  | some e =>
      have right := coherent.hit c s e (Cache.hit_of_getImp cached)
      exact ⟨rfl, right.symm, coherent⟩
  | none =>
      have found := coherent.search_eq (c := c) (s := s)
      exact ⟨rfl, found, coherent.fill found.symm fun _ => asked⟩

theorem Coherent.addAll (additions : List (SEL × Option Body)) (coherent : Coherent h resolver rt) :
    Coherent h resolver (rt.addAll h c additions) ∧
      (rt.addAll h c additions).methods = rt.methods.addAll c additions := by
  induction additions generalizing rt with
  | nil => exact ⟨coherent, rfl⟩
  | cons a additions ih =>
      have kept := ih (coherent.addMethod c a.1 a.2 false)
      rw [addMethod_methods.1] at kept
      exact kept

theorem Coherent.resolveInstanceMethod (coherent : Coherent h resolver rt) (config : CacheConfig) :
    let resolved := rt.resolveInstanceMethod config h resolver c s
    resolved.methods = rt.methods.addAll c (resolver c s) ∧ Coherent h resolver resolved := by
  obtain ⟨kept, lists⟩ := coherent.addAll (c := c) (resolver c s)
  have asked : ∀ a ∈ resolver c s, ((rt.addAll h c (resolver c s)).methods c a.1).isSome := by
    rw [lists]
    exact fun a there => MethodLists.isSome_addAll there
  have looked := kept.lookUpTryCache config asked
  exact ⟨looked.lists.trans lists, looked.coherent⟩

theorem Coherent.lookUpImpOrForward (coherent : Coherent h resolver rt) (config : CacheConfig) :
    LooksUp h resolver (rt.methods.resolve h resolver c s) c s
      (rt.lookUpImpOrForward config h resolver c s) := by
  have found := coherent.search_eq (c := c) (s := s)
  unfold Runtime.lookUpImpOrForward MethodLists.resolve
  rw [found]
  cases plain : rt.methods.lookUp h c s with
  | imp i => exact ⟨rfl, plain.symm, coherent.fill plain fun missed => by contradiction⟩
  | forward =>
      obtain ⟨lists, kept⟩ := coherent.resolveInstanceMethod config (c := c) (s := s)
      rw [← lists]
      apply kept.lookUpTryCache config
      rw [lists]
      exact fun a there => MethodLists.isSome_addAll there

/-- A cached miss is a miss after asking the resolver, which had its say before. -/
theorem Coherent.msgSend (coherent : Coherent h resolver rt) (config : CacheConfig) :
    LooksUp h resolver (rt.methods.resolve h resolver c s) c s
      (rt.msgSend config h resolver c s) := by
  unfold Runtime.msgSend
  cases cached : (rt.cache c).hit s with
  | none => exact coherent.lookUpImpOrForward config
  | some e =>
      have right := coherent.hit c s e cached
      have settled : rt.methods.resolve h resolver c s = rt.methods := by
        unfold MethodLists.resolve
        rw [right]
        cases e with
        | imp i => rfl
        | forward => exact MethodLists.addAll_of_isSome (coherent.asked c s cached)
      rw [settled]
      exact ⟨rfl, right.symm, coherent⟩

/-- Each call does to the method lists, and answers, what it does without caches. -/
theorem Coherent.call (coherent : Coherent h resolver rt) (config : CacheConfig)
    (e : RuntimeCall Class SEL Body) :
    (rt.call config h resolver e).map (fun r => (r.1.methods, r.2)) =
        rt.methods.call h resolver e ∧
      ∀ r, rt.call config h resolver e = some r → Coherent h resolver r.1 := by
  cases e with
  | msgSend c s =>
      have looked := coherent.msgSend config (c := c) (s := s)
      constructor
      · simp only [Runtime.call, MethodLists.call, Option.map_some, looked.lists, looked.entry]
      · rintro r ⟨⟩
        exact looked.coherent
  | getInstanceMethod c s =>
      have looked := coherent.lookUpImpOrForward config (c := c) (s := s)
      constructor
      · simp only [Runtime.call, MethodLists.call, Option.map_some, looked.lists]
      · rintro r ⟨⟩
        exact looked.coherent
  | add c s i =>
      cases c with
      | none => exact ⟨rfl, by rintro r ⟨⟩; exact coherent⟩
      | some c =>
          constructor
          · simp only [Runtime.call, MethodLists.call, MethodLists.classAddMethod, Option.map_some,
              addMethod_methods]
          · rintro r ⟨⟩
            exact coherent.addMethod c s i _
  | replace c s i =>
      cases c with
      | none => exact ⟨rfl, by rintro r ⟨⟩; exact coherent⟩
      | some c =>
          constructor
          · simp only [Runtime.call, MethodLists.call, MethodLists.classReplaceMethod,
              Option.map_some, addMethod_methods]
          · rintro r ⟨⟩
            exact coherent.addMethod c s i _
  | setImplementation m i =>
      by_cases held : Held rt.methods m
      · simp only [Runtime.call, MethodLists.call, held, if_true, Option.map_some,
          setImplementation_methods, true_and, Option.some.injEq]
        rintro r rfl
        exact coherent.setImplementation held fun _ _ _ none_known => by contradiction
      · simp [Runtime.call, MethodLists.call, held]
  | exchange m1 m2 =>
      by_cases held : Held rt.methods m1 ∧ Held rt.methods m2
      · simp only [Runtime.call, MethodLists.call, held, and_self, if_true, Option.map_some,
          exchange_methods, true_and, Option.some.injEq]
        rintro r rfl
        exact coherent.exchange held.1 held.2
      · simp [Runtime.call, MethodLists.call, held]

theorem Coherent.run (coherent : Coherent h resolver rt) (config : CacheConfig)
    (calls : List (RuntimeCall Class SEL Body))
    (log : List (Answer Class SEL Body)) :
    ((machine config h resolver).run (rt, log) calls).map (fun s => (s.1.methods, s.2)) =
      (MethodLists.machine h resolver).run (rt.methods, log) calls := by
  induction calls generalizing rt log with
  | nil => rfl
  | cons e calls ih =>
      obtain ⟨same, kept⟩ := coherent.call config e
      simp only [Machine.run_cons, machine, MethodLists.machine, ← same]
      cases called : rt.call config h resolver e with
      | none => rfl
      | some r => exact ih (kept r called) (log ++ [r.2])

end Changes

/-- The caches are never seen: from empty caches, a run of sends, additions,
    replacements and exchanges has the same answers and method lists as without them. -/
theorem cached_run_eq [DecidableEq Class] [DecidableEq Body] (config : CacheConfig)
    (h : Hierarchy Class) (resolver : Resolver Class SEL Body) (t : MethodLists Class SEL Body)
    (calls : List (RuntimeCall Class SEL Body)) :
    ((machine config h resolver).run (⟨t, fun _ => Cache.empty⟩, []) calls).map
        (fun s => (s.1.methods, s.2)) =
      (MethodLists.machine h resolver).run (t, []) calls :=
  (coherent_empty t).run config calls []

end Runtime

end Transparent

end LearningProjects.ObjC
