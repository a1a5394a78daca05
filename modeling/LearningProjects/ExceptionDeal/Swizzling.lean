import LearningProjects.ObjC.MethodTable
import Mathlib.Data.List.Basic
import Mathlib.Tactic.Common

/-! # Exchanging methods for guarded ones

AvoidCrash puts a wrapper in front of each method it protects. The wrapper is
written as a call to itself, `[self avoidCrash…]`, because after the exchange
its own selector names the original method. What the exchange does depends on
where the two methods live: a class that inherits the original gets methods of
its own, any other exchange swaps two existing methods, and the wrapper often
lies in a category of a superclass.
-/

universe u v

namespace LearningProjects.ExceptionDeal

open ObjC

/-- A method of the framework, or a wrapper of a category, which calls `[self via]`
    and has a guard that says what to do with the result. -/
inductive Body (SEL Prim Guard : Type*) where
  | original (p : Prim)
  | wrapper (via : SEL) (guard : Guard)
  deriving DecidableEq

section Exchange

variable {Class SEL B : Type*} [DecidableEq Class] [DecidableEq SEL]

def exchangeClassMethod (h : Hierarchy Class) (t : MethodLists Class SEL B)
    (anClass : Option Class) (method1Sel method2Sel : SEL) : MethodLists Class SEL B :=
  let method1 := t.classGetClassMethod h anClass method1Sel
  let method2 := t.classGetClassMethod h anClass method2Sel
  t.methodExchangeImplementations method1 method2

def exchangeInstanceMethod (h : Hierarchy Class) (t : MethodLists Class SEL B)
    (anClass : Option Class) (method1Sel method2Sel : SEL) : MethodLists Class SEL B :=
  let originalMethod := t.classGetInstanceMethod h anClass method1Sel
  let swizzledMethod := t.classGetInstanceMethod h anClass method2Sel
  let didAdd := t.classAddMethod anClass method1Sel (t.getImplementation swizzledMethod)
  if didAdd.2 then
    (didAdd.1.classReplaceMethod anClass method2Sel
      (didAdd.1.getImplementation originalMethod)).1
  else didAdd.1.methodExchangeImplementations originalMethod swizzledMethod

end Exchange

/-- What a wrapper goes on with after its call: it is finished, or it calls once more
    with other arguments. -/
inductive Handled (Args Exception Value World : Type u) where
  | done (result : Except Exception Value × World)
  | again (args : Args) (w : World)

/-- What methods do: the framework's own ones, and how a guard handles what its call
    returned or raised. After a second call `@finally` returns, the default if that
    call raised. -/
structure Semantics (Prim Guard : Type*) (Args Exception Value World : Type u) where
  perform : Prim → Args → World → Except Exception Value × World
  handle : Guard → Args → Except Exception Value × World → Handled Args Exception Value World
  default : Guard → Value

section Send

variable {Class SEL Prim Guard : Type*} {Args Exception Value World : Type u}

/-- The body of a wrapper around what its selector does. -/
def Semantics.wrap (m : Semantics Prim Guard Args Exception Value World) {M : Type u → Type v}
    [Monad M] (guard : Guard) (act : Args → World → M (Except Exception Value × World))
    (args : Args) (w : World) : M (Except Exception Value × World) :=
  act args w >>= fun result =>
    match m.handle guard args result with
    | .done result => pure result
    | .again args w => act args w >>= fun second =>
        match second with
        | (.ok value, w) => pure (.ok value, w)
        | (.error _, w) => pure (.ok (m.default guard), w)

def Semantics.guarded (m : Semantics Prim Guard Args Exception Value World) (guard : Guard)
    (act : Args → World → Except Exception Value × World) :
    Args → World → Except Exception Value × World :=
  m.wrap (M := Id) guard act

/-- A guard that catches: it leaves a value alone and lets no exception out. -/
structure Semantics.Catches (m : Semantics Prim Guard Args Exception Value World)
    (guard : Guard) : Prop where
  value : ∀ args v w, m.handle guard args (.ok v, w) = .done (.ok v, w)
  settled : ∀ args e w e' w', m.handle guard args (.error e, w) ≠ .done (.error e', w')

/-- Send `s` to an instance of `x`, with at most `fuel` nested wrappers. There is no
    result if the stack overflows, if nobody implements `s`, or if its `imp` is nil. -/
def send (m : Semantics Prim Guard Args Exception Value World) (h : Hierarchy Class)
    (t : MethodLists Class SEL (Body SEL Prim Guard)) (x : Class) :
    Nat → SEL → Args → World → Option (Except Exception Value × World)
  | fuel, s, args, w =>
      match t.lookUp h x s with
      | .imp (some (.original p)) => some (m.perform p args w)
      | .imp (some (.wrapper via guard)) =>
          match fuel with
          | 0 => none
          | fuel + 1 => m.wrap guard (fun args w => send m h t x fuel via args w) args w
      | _ => none

end Send

section Install

variable {Class SEL Prim Guard : Type*}

/-- One exchange: `adds` tells `exchangeInstanceMethod` from a direct
    `method_exchangeImplementations`, and `guard` is what the wrapper does. -/
structure Swizzle (Class SEL Guard : Type*) where
  adds : Bool
  anClass : Class
  method1Sel : SEL
  method2Sel : SEL
  guard : Guard

variable [DecidableEq Class] [DecidableEq SEL] (h : Hierarchy Class)
  (t : MethodLists Class SEL (Body SEL Prim Guard))

def exchange (z : Swizzle Class SEL Guard) : MethodLists Class SEL (Body SEL Prim Guard) :=
  if z.adds then exchangeInstanceMethod h t (some z.anClass) z.method1Sel z.method2Sel
  else t.methodExchangeImplementations (t.getMethod h z.anClass z.method1Sel)
    (t.getMethod h z.anClass z.method2Sel)

def install (zs : List (Swizzle Class SEL Guard)) : MethodLists Class SEL (Body SEL Prim Guard) :=
  zs.foldl (exchange h) t

/-- The exchange is in front of what an instance of `x` does on `s`: no class
    below the exchanged one implements `s` itself. -/
def Protects (x : Class) (s : SEL) (z : Swizzle Class SEL Guard) : Prop :=
  z.method1Sel = s ∧ z.anClass ∈ h.lineage x ∧
    ∀ d ∈ h.lineage x, d ∉ h.lineage z.anClass → t d s = none

instance (x : Class) (s : SEL) :
    DecidablePred (Protects h t x s : Swizzle Class SEL Guard → Prop) :=
  fun z => by
    unfold Protects
    have (d : Class) : Decidable (t d s = none) := decidable_of_iff _ Option.isNone_iff_eq_none
    infer_instance

/-- What the exchanges rely on. The methods to protect are there, a class that does
    not go through `class_addMethod` has its own, and every wrapper can be seen from
    the class, is not overridden below it and belongs to one exchange only. -/
structure Installable (zs : List (Swizzle Class SEL Guard)) : Prop where
  original : ∀ z ∈ zs, ∃ p, t.lookUp h z.anClass z.method1Sel = .imp (some (.original p))
  wrapper : ∀ z ∈ zs, t.lookUp h z.anClass z.method2Sel =
    .imp (some (.wrapper z.method2Sel z.guard))
  own : ∀ z ∈ zs, z.adds = false → (t z.anClass z.method1Sel).isSome
  seen : ∀ z ∈ zs, ∀ x, z.anClass ∈ h.lineage x →
    t.getMethod h x z.method2Sel = t.getMethod h z.anClass z.method2Sel
  once : (zs.map fun z => t.getMethod h z.anClass z.method2Sel).Nodup
  apart : ∀ z ∈ zs, ∀ y ∈ zs, z.method1Sel ≠ y.method2Sel

end Install

section Chains

variable {Class SEL Prim Guard : Type*} {Args Exception Value World : Type u}

/-- Running `b` on an instance of `x` passes the guards, the outermost first, on its
    way to `p`, and uses the given methods after the first one. -/
inductive Runs (h : Hierarchy Class) (t : MethodLists Class SEL (Body SEL Prim Guard)) (x : Class) :
    Body SEL Prim Guard → List (Method Class SEL) → Prim → List Guard → Prop where
  | original (p : Prim) : Runs h t x (.original p) [] p []
  | wrapper {via : SEL} {guard : Guard} {k : Method Class SEL} {b : Body SEL Prim Guard}
      {cells : List (Method Class SEL)} {p : Prim} {guards : List Guard} :
      t.getMethod h x via = some k → t k.owner k.name = some (some b) →
      Runs h t x b cells p guards → Runs h t x (.wrapper via guard) (k :: cells) p (guard :: guards)

variable {m : Semantics Prim Guard Args Exception Value World} {h : Hierarchy Class}
  {t u : MethodLists Class SEL (Body SEL Prim Guard)} {x : Class} {s : SEL}
  {b : Body SEL Prim Guard} {p : Prim} {guards : List Guard} {cells : List (Method Class SEL)}

theorem Runs.found (runs : Runs h t x b cells p guards) :
    ∀ k ∈ cells, t.getMethod h x k.name = some k := by
  induction runs with
  | original p => simp
  | wrapper found body rest ih =>
      intro k there
      cases there with
      | head => rwa [MethodLists.name_of_getMethod found]
      | tail _ later => exact ih k later

/-- Nothing but the methods on its way decides what a body does. -/
theorem Runs.congr (runs : Runs h t x b cells p guards)
    (same : ∀ k ∈ cells, u.getMethod h x k.name = some k ∧ u k.owner k.name = t k.owner k.name) :
    Runs h u x b cells p guards := by
  induction runs with
  | original p => exact .original p
  | wrapper found body rest ih =>
      rw [List.forall_mem_cons] at same
      obtain ⟨found', body'⟩ := same.1
      rw [MethodLists.name_of_getMethod found] at found'
      exact .wrapper found' (body'.trans body) (ih same.2)

theorem guarded_eq (guard : Guard) (act : Args → World → Except Exception Value × World)
    (args : Args) (w : World) : m.guarded guard act args w =
      match m.handle guard args (act args w) with
      | .done result => result
      | .again args w => match act args w with
        | (.ok value, w) => (.ok value, w)
        | (.error _, w) => (.ok (m.default guard), w) := rfl

/-- A guard that catches always returns a value. -/
theorem guarded_returns {guard : Guard} (catches : m.Catches guard)
    (act : Args → World → Except Exception Value × World) (args : Args) (w : World) :
    ∃ value, (m.guarded guard act args w).1 = .ok value := by
  rw [guarded_eq]
  cases handled : m.handle guard args (act args w) with
  | done result =>
      rcases acted : act args w with ⟨exception | value, w'⟩
      · rcases result with ⟨exception' | value, w''⟩
        · rw [acted] at handled
          exact absurd handled (catches.settled _ _ _ _ _)
        · exact ⟨value, rfl⟩
      · rw [acted, catches.value] at handled
        obtain rfl := Handled.done.inj handled
        exact ⟨value, rfl⟩
  | again args' w' =>
      cases again : act args' w' with
      | mk second w'' => cases second <;> simp [again]

/-- A guard that catches does nothing around something that never raises. -/
theorem guarded_of_returns {guard : Guard} (catches : m.Catches guard)
    {act : Args → World → Except Exception Value × World}
    (returns : ∀ args w, ∃ value, (act args w).1 = .ok value) : m.guarded guard act = act := by
  funext args w
  obtain ⟨value, fine⟩ := returns args w
  cases acted : act args w with
  | mk result w' =>
      rw [acted] at fine
      simp only at fine
      rw [guarded_eq, acted, fine, catches.value]

/-- Of nested guards that catch only the innermost one matters. -/
theorem guards_eq {guards : List Guard} (catch_all : ∀ guard ∈ guards, m.Catches guard)
    (act : Args → World → Except Exception Value × World) :
    guards.foldr m.guarded act = (guards.getLast?).elim act fun guard => m.guarded guard act := by
  induction guards with
  | nil => rfl
  | cons guard guards ih =>
      have catches := catch_all guard List.mem_cons_self
      have rest := ih fun inner there => catch_all inner (List.mem_cons_of_mem guard there)
      cases guards with
      | nil => rfl
      | cons inner guards =>
          rw [List.foldr_cons, rest, List.getLast?_cons_cons]
          cases last : (inner :: guards).getLast? with
          | none => simp at last
          | some g =>
              have innermost := catch_all g (List.mem_cons_of_mem guard (List.mem_of_getLast? last))
              exact guarded_of_returns catches (guarded_returns innermost act)

theorem wrap_some (guard : Guard) (act : Args → World → Except Exception Value × World) :
    m.wrap guard (fun args w => some (act args w)) =
      fun args w => some (m.guarded guard act args w) := by
  funext args w
  simp only [guarded_eq, Semantics.wrap, Option.bind_eq_bind, Option.bind_some]
  cases m.handle guard args (act args w) with
  | done result => rfl
  | again args' w' =>
      dsimp only
      cases act args' w' with
      | mk second w'' => cases second <;> rfl

theorem send_original {fuel : Nat} (found : t.lookUp h x s = .imp (some (.original p))) :
    send m h t x fuel s = fun args w => some (m.perform p args w) := by
  funext args w
  rw [send.eq_def]
  simp only [found]

theorem send_wrapper {fuel : Nat} {via : SEL} {guard : Guard}
    (found : t.lookUp h x s = .imp (some (.wrapper via guard))) :
    send m h t x (fuel + 1) s = m.wrap guard (send m h t x fuel via) := by
  funext args w
  rw [send.eq_def]
  simp only [found]

theorem send_of_runs (runs : Runs h t x b cells p guards) {fuel : Nat}
    (found : t.lookUp h x s = .imp (some b)) (enough : guards.length ≤ fuel) :
    send m h t x fuel s = fun args w => some (guards.foldr m.guarded (m.perform p) args w) := by
  induction runs generalizing s fuel with
  | original p => exact send_original found
  | @wrapper via guard k b cells p guards through body rest ih =>
      cases fuel with
      | zero => simp at enough
      | succ fuel =>
          have here : t.lookUp h x via = .imp (some b) := by
            simp [MethodLists.lookUp_eq_imp through, MethodLists.getImplementation, body]
          rw [send_wrapper found, ih here (Nat.le_of_succ_le_succ enough), wrap_some,
            List.foldr_cons]

end Chains

section Exchanged

variable {Class SEL Prim Guard : Type*} [DecidableEq Class] [DecidableEq SEL]
  {h : Hierarchy Class} {t : MethodLists Class SEL (Body SEL Prim Guard)}
  {z : Swizzle Class SEL Guard} {o d : Method Class SEL} {b w : Body SEL Prim Guard}

/-- Either way the class has the wrapper under the original selector, and what was
    there moves to the wrapper's: in the method that held the wrapper if the class
    has its own original, in a method of the class itself otherwise. -/
theorem exchange_eq (original : t.getMethod h z.anClass z.method1Sel = some o)
    (body1 : t o.owner o.name = some (some b))
    (swizzled : t.getMethod h z.anClass z.method2Sel = some d)
    (body2 : t d.owner d.name = some (some w))
    (own : z.adds = false → (t z.anClass z.method1Sel).isSome) :
    ∃ k, exchange h t z = (t.set ⟨z.anClass, z.method1Sel⟩ (some w)).set k (some b) ∧
      (k = d ∧ (t z.anClass z.method1Sel).isSome ∨ k = ⟨z.anClass, z.method2Sel⟩) := by
  have imp2 : t.getImplementation (some d) = some w := by
    simp [MethodLists.getImplementation, body2]
  cases has : t z.anClass z.method1Sel with
  | some i =>
      have self : o = ⟨z.anClass, z.method1Sel⟩ := by
        simpa [MethodLists.getMethod_step, has, eq_comm] using original
      have imp1 : t.getImplementation (some o) = some b := by
        simp [MethodLists.getImplementation, body1]
      have swapped : t.methodExchangeImplementations (some o) (some d) =
          (t.set ⟨z.anClass, z.method1Sel⟩ (some w)).set d (some b) := by
        rw [← self, MethodLists.methodExchangeImplementations, imp1, imp2]
      refine ⟨d, ?_, .inl ⟨rfl, rfl⟩⟩
      cases adds : z.adds with
      | false =>
          simp only [exchange, adds, Bool.false_eq_true, if_false, original, swizzled]
          exact swapped
      | true =>
          have kept : t.classAddMethod (some z.anClass) z.method1Sel (some w) = (t, false) := by
            have holds : i = some b := by
              rw [self, has] at body1
              exact Option.some.inj body1
            simp [MethodLists.classAddMethod, MethodLists.addMethod, MethodLists.getMethodNoSuper,
              MethodLists.getImplementation, has, holds]
          simp only [exchange, adds, if_true, exchangeInstanceMethod,
            MethodLists.classGetInstanceMethod, Option.bind_some, original, swizzled, imp2, kept,
            Bool.false_eq_true, if_false]
          exact swapped
  | none =>
      have adds : z.adds = true := by
        by_contra direct
        have := own (by simpa using direct)
        simp [has] at this
      have elsewhere : o ≠ ⟨z.anClass, z.method1Sel⟩ := by
        rintro rfl
        simp [has] at body1
      have imp1 : (t.set ⟨z.anClass, z.method1Sel⟩ (some w)).getImplementation
          (some o) = some b := by
        have kept : t.set ⟨z.anClass, z.method1Sel⟩ (some w) o.owner o.name = t o.owner o.name := by
          refine MethodLists.set_of_ne fun owner name => elsewhere ?_
          cases o
          exact congrArg₂ Method.mk owner name
        simp [MethodLists.getImplementation, kept, body1]
      have added : t.classAddMethod (some z.anClass) z.method1Sel (some w) =
          (t.set ⟨z.anClass, z.method1Sel⟩ (some w), true) := by
        simp [MethodLists.classAddMethod, MethodLists.addMethod, MethodLists.getMethodNoSuper, has]
      refine ⟨⟨z.anClass, z.method2Sel⟩, ?_, .inr rfl⟩
      simp only [exchange, adds, if_true, exchangeInstanceMethod,
        MethodLists.classGetInstanceMethod, Option.bind_some, original, swizzled, imp2, added, imp1,
        MethodLists.classReplaceMethod, MethodLists.addMethod_replace]

/-- One exchange seen from the method lists before all exchanges, `t₀`: the wrapper
    moves under the original selector and the original to the method `k`. -/
structure Exchanged (h : Hierarchy Class) (t₀ t u : MethodLists Class SEL (Body SEL Prim Guard))
    (z : Swizzle Class SEL Guard) (k : Method Class SEL) (b : Body SEL Prim Guard) : Prop where
  moved : u = (t.set ⟨z.anClass, z.method1Sel⟩ (some (.wrapper z.method2Sel z.guard))).set k
    (some b)
  name : k.name = z.method2Sel
  differ : z.method1Sel ≠ z.method2Sel
  place : (t₀.getMethod h z.anClass z.method2Sel = some k ∧ (t k.owner k.name).isSome ∧
    (t z.anClass z.method1Sel).isSome) ∨ k.owner = z.anClass
  seen : ∀ x, z.anClass ∈ h.lineage x →
    t.getMethod h x z.method2Sel = t₀.getMethod h z.anClass z.method2Sel
  there : (t₀.getMethod h z.anClass z.method2Sel).isSome
  original : t.lookUp h z.anClass z.method1Sel = .imp (some b)

namespace Exchanged

variable {t₀ u : MethodLists Class SEL (Body SEL Prim Guard)} {k f : Method Class SEL} {x c : Class}
  {s : SEL} (e : Exchanged h t₀ t u z k b)

include e

theorem of_ne {m : Method Class SEL} (first : m ≠ ⟨z.anClass, z.method1Sel⟩) (second : m ≠ k) :
    u m.owner m.name = t m.owner m.name := by
  rw [e.moved, MethodLists.set_of_ne, MethodLists.set_of_ne]
  · exact fun owner name => first (by cases m; exact congrArg₂ Method.mk owner name)
  · exact fun owner name => second (by cases m; cases k; exact congrArg₂ Method.mk owner name)

theorem kept (there : (t c s).isSome) : (u c s).isSome := by
  rw [e.moved]
  exact MethodLists.isSome_set (MethodLists.isSome_set there)

/-- Only one method of each of the two selectors is new, and both in the class itself. -/
theorem isSome_eq (first : s = z.method1Sel → c ≠ z.anClass)
    (second : s = z.method2Sel → z.anClass ∈ h.lineage x → False) (above : c ∈ h.lineage x) :
    (u c s).isSome = (t c s).isSome := by
  by_cases self : (⟨c, s⟩ : Method Class SEL) = k
  · subst self
    cases e.place with
    | inl old => rw [old.2.1, e.kept old.2.1]
    | inr here =>
        simp only at here
        exact (second e.name (here ▸ above)).elim
  · have other : (⟨c, s⟩ : Method Class SEL) ≠ ⟨z.anClass, z.method1Sel⟩ := fun same => by
      simp only [Method.mk.injEq] at same
      exact first same.2 same.1
    exact congrArg Option.isSome (e.of_ne other self)

theorem wrapped : u z.anClass z.method1Sel = some (some (.wrapper z.method2Sel z.guard)) := by
  rw [e.moved, MethodLists.set_of_name_ne (by rw [e.name]; exact e.differ)]
  exact MethodLists.set_self

theorem stored : u k.owner k.name = some (some b) := by
  rw [e.moved]
  exact MethodLists.set_self

/-- The wrapper's selector now leads to the original, from the class and below it. -/
theorem getMethod_via (above : z.anClass ∈ h.lineage x) :
    u.getMethod h x z.method2Sel = some k := by
  obtain ⟨d, found⟩ := Option.isSome_iff_exists.mp e.there
  have before : t.getMethod h x z.method2Sel = some d := (e.seen x above).trans found
  cases e.place with
  | inl old =>
      rw [e.moved, MethodLists.getMethod_set (MethodLists.isSome_set old.2.1),
        MethodLists.getMethod_set old.2.2, before, ← found, old.1]
  | inr here =>
      have reached : d.owner ∈ h.lineage z.anClass :=
        (MethodLists.owner_of_getMethod ((e.seen _ h.mem_lineage_self).trans found)).1
      have unset := (MethodLists.getMethod_eq_some_iff.mp before).2.2.2
      refine MethodLists.getMethod_eq_some_iff.mpr
        ⟨e.name, here ▸ above, ?_, fun c there below => ?_⟩
      · rw [← e.name, e.stored]
        rfl
      · rw [here] at below
        have missing := unset c there fun up => below (h.lineage_trans reached up)
        have same := e.of_ne (m := ⟨c, z.method2Sel⟩)
            (fun same => e.differ (congrArg Method.name same).symm)
          (fun same => below (by rw [← here, ← same]; exact h.mem_lineage_self))
        exact same.trans missing

/-- A method on the way of another wrapper stays where it is. -/
theorem getMethod_kept (found : t.getMethod h x f.name = some f) (name : f.name ≠ z.method1Sel)
    (other : t₀.getMethod h z.anClass z.method2Sel ≠ some f) :
    u.getMethod h x f.name = some f ∧ u f.owner f.name = t f.owner f.name := by
  have outside : f.name = z.method2Sel → z.anClass ∈ h.lineage x → False := by
    intro same above
    rw [same, e.seen x above] at found
    exact other found
  constructor
  · rw [← found]
    exact MethodLists.getMethod_congr fun c above =>
      e.isSome_eq (fun same => absurd same name) outside above
  · apply e.of_ne
    · exact fun same => name (congrArg Method.name same)
    · rintro rfl
      cases e.place with
      | inl old => exact other old.1
      | inr here =>
          have owner := (MethodLists.owner_of_getMethod found).1
          exact outside e.name (here ▸ owner)

/-- Sends of the original selector that reach the class now meet the wrapper. -/
theorem lookUp_reached (above : z.anClass ∈ h.lineage x)
    (none_below : ∀ c ∈ h.lineage x, c ∉ h.lineage z.anClass → t c z.method1Sel = none) :
    t.lookUp h x z.method1Sel = .imp (some b) ∧
      u.lookUp h x z.method1Sel = .imp (some (.wrapper z.method2Sel z.guard)) := by
  constructor
  · obtain ⟨o, found, body⟩ := MethodLists.lookUp_eq_some_iff.mp e.original
    obtain ⟨name, reached, has, first⟩ := MethodLists.getMethod_eq_some_iff.mp found
    refine MethodLists.lookUp_eq_some_iff.mpr ⟨o, MethodLists.getMethod_eq_some_iff.mpr
      ⟨name, h.lineage_trans above reached, has, fun c there unlike => ?_⟩, body⟩
    by_cases up : c ∈ h.lineage z.anClass
    · exact first c up unlike
    · exact none_below c there up
  · refine MethodLists.lookUp_eq_some_iff.mpr ⟨⟨z.anClass, z.method1Sel⟩,
      MethodLists.getMethod_eq_some_iff.mpr ⟨rfl, above, ?_, fun c there below => ?_⟩, e.wrapped⟩
    · rw [e.wrapped]
      rfl
    · have same := e.of_ne (m := ⟨c, z.method1Sel⟩)
        (fun same => below (congrArg Method.owner same ▸ h.mem_lineage_self))
        (fun same => e.differ ((congrArg Method.name same).trans e.name))
      exact same.trans (none_below c there below)

/-- Any other send of a selector that no wrapper uses stays as it was. -/
theorem lookUp_other (plain : s ≠ z.method2Sel)
    (other : s = z.method1Sel → z.anClass ∈ h.lineage x →
      ∃ c ∈ h.lineage x, c ∉ h.lineage z.anClass ∧ (t c s).isSome)
    (found : t.lookUp h x s = .imp (some w)) : u.lookUp h x s = .imp (some w) := by
  obtain ⟨m, first, body⟩ := MethodLists.lookUp_eq_some_iff.mp found
  obtain ⟨name, reached, has, below⟩ := MethodLists.getMethod_eq_some_iff.mp first
  -- the class found lies below the exchanged one, if that is in the chain at all
  have apart : s = z.method1Sel → ∀ c ∈ h.lineage x, c ∉ h.lineage m.owner ∨ c = m.owner →
      c ≠ z.anClass := by
    rintro rfl c there unlike rfl
    obtain ⟨c, inChain, strict, own⟩ := other rfl there
    have up : c ∈ h.lineage m.owner := by
      by_contra missing
      simp [below c inChain missing] at own
    cases unlike with
    | inl unlike =>
        cases h.lineage_total there reached with
        | inl up' => exact unlike up'
        | inr down => exact strict (h.lineage_trans down up)
    | inr same => exact strict (same ▸ up)
  have kept : u m.owner m.name = t m.owner m.name := by
    apply e.of_ne
    · intro same
      refine apart ?_ m.owner reached (.inr rfl) (congrArg Method.owner same)
      rw [← name]
      exact congrArg Method.name same
    · rintro rfl
      exact plain (name.symm.trans e.name)
  refine MethodLists.lookUp_eq_some_iff.mpr ⟨m, MethodLists.getMethod_eq_some_iff.mpr
    ⟨name, reached, ?_, fun c there unlike => ?_⟩, kept.trans body⟩
  · rw [← name, kept, name]
    exact has
  · have same := e.isSome_eq (x := x) (c := c) (s := s)
      (fun first => apart first c there (.inl unlike)) (fun same => absurd same plain) there
    rw [below c there unlike] at same
    exact Option.isNone_iff_eq_none.mp (by simpa using same)

end Exchanged

end Exchanged

section Installing

variable {Class SEL Prim Guard : Type*} [DecidableEq Class] [DecidableEq SEL]
  {h : Hierarchy Class} {t₀ t : MethodLists Class SEL (Body SEL Prim Guard)}
  {done rest : List (Swizzle Class SEL Guard)} {z : Swizzle Class SEL Guard}

/-- After the exchanges `done`, with `rest` to come: what a send of a plain selector
    ran at first it runs behind the guards of the exchanges in front of it, and the
    wrappers to come are untouched. -/
structure Installed (h : Hierarchy Class) (t₀ t : MethodLists Class SEL (Body SEL Prim Guard))
    (done rest : List (Swizzle Class SEL Guard)) : Prop where
  runs : ∀ x s p, (∀ z ∈ done ++ rest, s ≠ z.method2Sel) →
    t₀.lookUp h x s = .imp (some (.original p)) →
    ∃ b cells guards, t.lookUp h x s = .imp (some b) ∧ Runs h t x b cells p guards ∧
      guards.getLast? = (done.find? (Protects h t₀ x s)).map (·.guard) ∧
      guards.Sublist ((done.filter fun z => z.method1Sel = s).map (·.guard)).reverse ∧
      ∀ k ∈ cells, (∃ z ∈ done, k.name = z.method2Sel) ∧
        ∀ z ∈ rest, t₀.getMethod h z.anClass z.method2Sel ≠ some k
  seen : ∀ z ∈ rest, ∀ x, z.anClass ∈ h.lineage x →
    t.getMethod h x z.method2Sel = t₀.getMethod h z.anClass z.method2Sel
  body : ∀ z ∈ rest, ∀ k, t₀.getMethod h z.anClass z.method2Sel = some k →
    t k.owner k.name = some (some (.wrapper z.method2Sel z.guard))
  kept : ∀ c s, (t₀ c s).isSome → (t c s).isSome
  added : ∀ c s, (∀ z ∈ done ++ rest, s ≠ z.method2Sel) → (t c s).isSome →
    (t₀ c s).isSome ∨ ∃ z ∈ done, z.anClass = c ∧ z.method1Sel = s

omit [DecidableEq Class] [DecidableEq SEL] in
theorem Installable.wrapper_found (can : Installable h t₀ (done ++ z :: rest)) :
    ∃ d, t₀.getMethod h z.anClass z.method2Sel = some d ∧
      t₀ d.owner d.name = some (some (.wrapper z.method2Sel z.guard)) :=
  MethodLists.lookUp_eq_some_iff.mp (can.wrapper z (by simp))

theorem Installed.start (can : Installable h t₀ rest) : Installed h t₀ t₀ [] rest where
  runs := fun x s p _ found =>
    ⟨.original p, [], [], found, .original p, rfl, .slnil, by simp⟩
  seen := can.seen
  body := by
    intro z there k found
    obtain ⟨d, found', body⟩ := MethodLists.lookUp_eq_some_iff.mp (can.wrapper z there)
    obtain rfl : d = k := Option.some.inj (found'.symm.trans found)
    exact body
  kept := fun _ _ there => there
  added := fun _ _ _ there => .inl there

theorem Installed.exchanged (inv : Installed h t₀ t done (z :: rest))
    (can : Installable h t₀ (done ++ z :: rest)) :
    ∃ k b, Exchanged h t₀ t (exchange h t z) z k b := by
  have member : z ∈ done ++ z :: rest := by simp
  obtain ⟨p, original⟩ := can.original z member
  obtain ⟨b, cells, guards, found, -⟩ :=
    inv.runs z.anClass z.method1Sel p (fun y there => can.apart z member y there) original
  obtain ⟨o, found1, body1⟩ := MethodLists.lookUp_eq_some_iff.mp found
  obtain ⟨d, found2, -⟩ := can.wrapper_found
  have body2 := inv.body z List.mem_cons_self d found2
  have seen := inv.seen z List.mem_cons_self
  obtain ⟨k, moved, place⟩ := exchange_eq found1 body1
    ((seen _ h.mem_lineage_self).trans found2) body2 fun direct =>
      inv.kept _ _ (can.own z member direct)
  have name := MethodLists.name_of_getMethod found2
  refine ⟨k, b, moved, ?_, can.apart z member z member, ?_, seen, by rw [found2]; rfl, found⟩
  · cases place with
    | inl old => rw [old.1, name]
    | inr new => rw [new]
  · cases place with
    | inl old =>
        refine .inl ⟨by rw [old.1, found2], ?_, old.2⟩
        rw [old.1, body2]
        rfl
    | inr new => exact .inr (by rw [new])

/-- The original never moves to a method which a later exchange uses. -/
theorem Installed.apart (can : Installable h t₀ (done ++ z :: rest)) {k : Method Class SEL}
    {b : Body SEL Prim Guard} {u : MethodLists Class SEL (Body SEL Prim Guard)}
    (e : Exchanged h t₀ t u z k b) {y : Swizzle Class SEL Guard} (later : y ∈ rest) :
    t₀.getMethod h y.anClass y.method2Sel ≠ t₀.getMethod h z.anClass z.method2Sel ∧
      t₀.getMethod h y.anClass y.method2Sel ≠ some k := by
  have differ : t₀.getMethod h y.anClass y.method2Sel ≠ t₀.getMethod h z.anClass z.method2Sel := by
    have once := can.once
    rw [List.map_append, List.map_cons] at once
    have first := (List.nodup_cons.mp (List.nodup_append'.mp once).2.1).1
    exact fun same => first (List.mem_map.mpr ⟨y, later, same⟩)
  refine ⟨differ, fun same => ?_⟩
  cases e.place with
  | inl old => exact differ (same.trans old.1.symm)
  | inr here =>
      obtain ⟨name, -, has, -⟩ := MethodLists.getMethod_eq_some_iff.mp same
      refine differ (same.trans (MethodLists.getMethod_eq_some_iff.mpr
        ⟨e.name, here ▸ h.mem_lineage_self, ?_, fun c there unlike => ?_⟩).symm)
      · rw [← e.name, name]
        exact has
      · exact absurd there (here ▸ unlike)

/-- An exchange that is in front of a send, but not the first of the class's own
    methods, comes after another that is in front of it. -/
theorem Installed.protected_before (inv : Installed h t₀ t done (z :: rest)) {x c : Class} {s : SEL}
    (plain : ∀ y ∈ done ++ z :: rest, s ≠ y.method2Sel) (protects : Protects h t₀ x s z)
    (inChain : c ∈ h.lineage x) (strict : c ∉ h.lineage z.anClass) (own : (t c s).isSome) :
    ∃ y ∈ done, Protects h t₀ x s y := by
  obtain ⟨-, above, first⟩ := protects
  cases inv.added c s plain own with
  | inl old => simp [first c inChain strict] at old
  | inr new =>
      obtain ⟨y, there, rfl, rfl⟩ := new
      refine ⟨y, there, rfl, inChain, fun d chain unlike => first d chain fun up => unlike ?_⟩
      cases h.lineage_total above inChain with
      | inl reached => exact h.lineage_trans reached up
      | inr below => exact absurd below strict

theorem Installed.step (inv : Installed h t₀ t done (z :: rest))
    (can : Installable h t₀ (done ++ z :: rest)) :
    Installed h t₀ (exchange h t z) (done ++ [z]) rest := by
  obtain ⟨k, b, e⟩ := inv.exchanged can
  have append : done ++ [z] ++ rest = done ++ z :: rest := by simp
  constructor
  case runs =>
    intro x s p plain original
    rw [append] at plain
    obtain ⟨b', cells, guards, found, runs, last, few, apart⟩ := inv.runs x s p plain original
    have plainz : s ≠ z.method2Sel := plain z (by simp)
    -- the methods which a chain passes are those of other wrappers
    have kept : Runs h (exchange h t z) x b' cells p guards := runs.congr fun f there => by
      obtain ⟨⟨y, earlier, name⟩, unlike⟩ := apart f there
      refine e.getMethod_kept (runs.found f there) ?_ (unlike z List.mem_cons_self)
      rw [name]
      exact (can.apart z (by simp) y (by simp [earlier])).symm
    have apart' : ∀ f ∈ cells, (∃ y ∈ done ++ [z], f.name = y.method2Sel) ∧
        ∀ y ∈ rest, t₀.getMethod h y.anClass y.method2Sel ≠ some f := fun f there => by
      obtain ⟨⟨y, earlier, name⟩, unlike⟩ := apart f there
      exact ⟨⟨y, by simp [earlier], name⟩, fun y later => unlike y (List.mem_cons_of_mem z later)⟩
    by_cases reached : s = z.method1Sel ∧ z.anClass ∈ h.lineage x ∧
        ∀ c ∈ h.lineage x, c ∉ h.lineage z.anClass → t c z.method1Sel = none
    · obtain ⟨rfl, above, none_below⟩ := reached
      obtain ⟨before, after⟩ := e.lookUp_reached above none_below
      obtain rfl : b' = b := by simpa [before, eq_comm] using found
      have protects : Protects h t₀ x z.method1Sel z := by
        refine ⟨rfl, above, fun c there unlike => ?_⟩
        by_contra own
        have := inv.kept c z.method1Sel (Option.isSome_iff_ne_none.mpr own)
        simp [none_below c there unlike] at this
      refine ⟨_, k :: cells, z.guard :: guards, after,
        .wrapper (e.getMethod_via above) e.stored kept, ?_, ?_, ?_⟩
      · rw [List.find?_append]
        cases guards with
        | nil =>
            have nothing : done.find? (Protects h t₀ x z.method1Sel) = none := by
              cases earlier : done.find? (Protects h t₀ x z.method1Sel) with
              | none => rfl
              | some y => simp [earlier] at last
            simp [nothing, protects]
        | cons guard guards =>
            rw [List.getLast?_cons_cons, last]
            cases earlier : done.find? (Protects h t₀ x z.method1Sel) with
            | none => simp [earlier] at last
            | some y => simp
      · simpa using few.cons_cons z.guard
      · intro f there
        cases there with
        | head =>
            exact ⟨⟨z, by simp, e.name⟩, fun y later => (Installed.apart can e later).2⟩
        | tail _ there => exact apart' f there
    · have other : s = z.method1Sel → z.anClass ∈ h.lineage x →
          ∃ c ∈ h.lineage x, c ∉ h.lineage z.anClass ∧ (t c s).isSome := by
        rintro rfl above
        by_contra none_own
        push Not at none_own
        exact reached ⟨rfl, above, fun c there unlike => by simpa using none_own c there unlike⟩
      refine ⟨b', cells, guards, e.lookUp_other plainz other found, kept, ?_, ?_, apart'⟩
      swap
      · refine few.trans (List.reverse_sublist.mpr (List.Sublist.map _ ?_))
        exact (List.sublist_append_left done [z]).filter _
      rw [last, List.find?_append]
      by_cases protects : Protects h t₀ x s z
      · obtain ⟨c, inChain, strict, own⟩ := other protects.1.symm protects.2.1
        obtain ⟨y, earlier, also⟩ := inv.protected_before plain protects inChain strict own
        cases found' : done.find? (Protects h t₀ x s) with
        | none => simpa [also] using List.find?_eq_none.mp found' y earlier
        | some y => rfl
      · simp [protects]
  case seen =>
    intro y later x above
    have before := inv.seen y (List.mem_cons_of_mem z later) x above
    rw [← before]
    refine MethodLists.getMethod_congr fun c there => e.isSome_eq ?_ ?_ there
    · exact fun same => absurd same.symm (can.apart z (by simp) y (by simp [later]))
    · intro same up
      refine (Installed.apart can e later).1 ?_
      rw [← before, same]
      exact e.seen x up
  case body =>
    intro y later f found
    rw [← inv.body y (List.mem_cons_of_mem z later) f found]
    apply e.of_ne
    · rintro rfl
      have name := MethodLists.name_of_getMethod found
      exact can.apart z (by simp) y (by simp [later]) name
    · rintro rfl
      exact (Installed.apart can e later).2 found
  case kept => exact fun c s there => e.kept (inv.kept c s there)
  case added =>
    intro c s plain there
    rw [append] at plain
    by_cases new : s = z.method1Sel ∧ c = z.anClass
    · exact .inr ⟨z, by simp, new.2.symm, new.1.symm⟩
    · have same := e.isSome_eq (x := c) (fun first owner => new ⟨first, owner⟩)
        (fun via => absurd via (plain z (by simp))) h.mem_lineage_self
      rw [same] at there
      cases inv.added c s plain there with
      | inl old => exact .inl old
      | inr earlier =>
          obtain ⟨y, member, facts⟩ := earlier
          exact .inr ⟨y, by simp [member], facts⟩

theorem Installed.install (inv : Installed h t₀ t done rest)
    (can : Installable h t₀ (done ++ rest)) :
    Installed h t₀ (install h t rest) (done ++ rest) [] := by
  induction rest generalizing t done with
  | nil => simpa [ExceptionDeal.install] using inv
  | cons z rest ih =>
      have next := ih (inv.step can) (by simpa using can)
      simpa [ExceptionDeal.install] using next

end Installing

section Sending

variable {Class SEL Prim Guard : Type*} {Args Exception Value World : Type u} [DecidableEq Class]
  [DecidableEq SEL] {h : Hierarchy Class} {t : MethodLists Class SEL (Body SEL Prim Guard)}
  {zs : List (Swizzle Class SEL Guard)} {x : Class} {s : SEL} {p : Prim} {fuel : Nat}

/-- What the exchanges are for. A send that ran `p` still does, and if an exchange is
    in front of it, behind the guard of the first such one: an outer guard that catches
    has nothing left to do. No send loops, although every wrapper calls itself. -/
theorem install_send (m : Semantics Prim Guard Args Exception Value World)
    (can : Installable h t zs) (plain : ∀ z ∈ zs, s ≠ z.method2Sel)
    (original : t.lookUp h x s = .imp (some (.original p)))
    (settled : (∀ z ∈ zs, z.method1Sel = s → m.Catches z.guard) ∨
      (zs.filter fun z => z.method1Sel = s).length ≤ 1)
    (enough : zs.length ≤ fuel) :
    send m h (install h t zs) x fuel s = fun args w => some
      ((zs.find? (Protects h t x s)).elim (m.perform p)
        (fun z => m.guarded z.guard (m.perform p)) args w) := by
  have inv := (Installed.start can).install can
  simp only [List.nil_append] at inv
  obtain ⟨b, cells, guards, found, runs, last, few, -⟩ :=
    inv.runs x s p (by simpa using plain) original
  have short : guards.length ≤ (zs.filter fun z => z.method1Sel = s).length := by
    simpa using few.length_le
  have within : guards.length ≤ fuel := by
    have := List.length_filter_le (fun z : Swizzle Class SEL Guard => z.method1Sel = s) zs
    omega
  have folded : guards.foldr m.guarded (m.perform p) =
      (guards.getLast?).elim (m.perform p) fun guard => m.guarded guard (m.perform p) := by
    cases settled with
    | inl catches =>
        refine guards_eq (fun guard there => ?_) _
        have from_swizzle := few.subset there
        simp only [List.mem_reverse, List.mem_map, List.mem_filter,
          decide_eq_true_eq] at from_swizzle
        obtain ⟨z, ⟨member, name⟩, rfl⟩ := from_swizzle
        exact catches z member name
    | inr one =>
        match guards, Nat.le_trans short one with
        | [], _ => rfl
        | [_], _ => rfl
  rw [send_of_runs runs found within, folded, last]
  cases zs.find? (Protects h t x s) with
  | none => rfl
  | some z => rfl

/-- No exchange gives an object a method that it did not have. -/
theorem install_forward (can : Installable h t zs) (plain : ∀ z ∈ zs, s ≠ z.method2Sel)
    (missing : t.lookUp h x s = .forward) : (install h t zs).lookUp h x s = .forward := by
  have inv := (Installed.start can).install can
  rw [MethodLists.lookUp_eq_forward_iff] at missing ⊢
  intro c there
  by_contra own
  cases inv.added c s (by simpa using plain) (Option.isSome_iff_ne_none.mpr own) with
  | inl old => simp [missing c there] at old
  | inr new =>
      obtain ⟨z, member, rfl, rfl⟩ := new
      obtain ⟨p, original⟩ := can.original z (by simpa using member)
      have none_found := MethodLists.lookUp_eq_forward_iff.mpr fun d up =>
        missing d (h.lineage_trans there up)
      rw [none_found] at original
      contradiction

end Sending

section Cluster

/-- A class cluster: `true` is the concrete class below the public one. -/
def cluster : Hierarchy Bool where
  superclass c := if c then some false else none
  getMeta c := c
  lineage c := if c then [true, false] else [false]
  lineage_eq c := by cases c <;> rfl

/-- Selector 0 is implemented by both classes, selector 1 by the wrapper in a
    category of the public class. -/
def clusterMethods : MethodLists Bool ℕ (Body ℕ String Unit) := fun c s =>
  match c, s with
  | true, 0 => some (some (.original "of the concrete class"))
  | false, 0 => some (some (.original "of the public class"))
  | false, 1 => some (some (.wrapper 1 ()))
  | _, _ => none

def raising : Semantics String Unit Unit String String (List String) where
  perform p _ w := (.error p, w)
  handle _ _ result :=
    match result with
    | (.ok value, w) => .done (.ok value, w)
    | (.error exception, w) => .done (.ok "nil", exception :: w)
  default _ := "nil"

theorem install_send_cluster :
    send raising cluster (install cluster clusterMethods [⟨true, true, 0, 1, ()⟩]) true 1 0 () [] =
      some (.ok "nil", ["of the concrete class"]) := by
  have can : Installable cluster clusterMethods [⟨true, true, 0, 1, ()⟩] := by
    constructor <;> simp [cluster, clusterMethods, MethodLists.lookUp, MethodLists.getMethod,
      MethodLists.getMethodNoSuper]
  rw [install_send raising can (p := "of the concrete class") (by simp) rfl
    (.inr (by decide)) (Nat.le_refl 1)]
  rfl

end Cluster

end LearningProjects.ExceptionDeal
