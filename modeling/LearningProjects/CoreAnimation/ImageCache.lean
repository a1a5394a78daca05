import LearningProjects.CoreAnimation.ImageContext
import LearningProjects.Machine

/-! # The cached image list

`cellForItemAt` and `willDisplay` share one loader, which returns the image on a hit
and calls back on a miss. `cellForItemAt` uses only the returned image and passes
no callback; `willDisplay` uses only the callback. A load that ends between the two
is therefore lost on the cell, and a callback sets its cell even after the cell was
reused for another index.
-/

namespace LearningProjects.CoreAnimation.ImageCache

inductive Trap where
  | indexOutOfRange
  /-- `image!` of an image that could not be drawn. -/
  | unwrappedNil
  deriving DecidableEq, Repr

/-- The block of one load. `loadComplete` is the cell that its callback captured. -/
structure Load (Cell : Type*) where
  key : Nat
  path : String
  loadComplete : Option Cell
  deriving DecidableEq, Repr

/-- The last `cellForItemAt` of a cell: its index, whether the index was cached then,
    and the index of the last callback that the cell got since. Only `index` is known
    to the collection view, the rest is a log. -/
structure Binding where
  index : Nat
  cached : Bool
  called : Option Nat
  deriving DecidableEq, Repr

structure State (Cell Content : Type*) where
  cache : Nat → Option (UIImage Content)
  image : Cell → Option (UIImage Content)
  binding : Cell → Option Binding
  displayed : Cell → Option Nat
  background : List (Load Cell)
  main : List (Load Cell × Option (UIImage Content))

inductive Event (Cell : Type*) where
  | cellForItemAt (cell : Cell) (indexPath : Nat)
  | willDisplay (cell : Cell) (indexPath : Nat)
  | didEndDisplaying (cell : Cell)
  /-- A block on the concurrent queue ends, in any order. -/
  | loaded (load : Load Cell)
  | main
  | evict (key : Nat)
  deriving DecidableEq, Repr

variable {Cell Content : Type*}

namespace State

def start : State Cell Content :=
  ⟨fun _ => none, fun _ => none, fun _ => none, fun _ => none, [], []⟩

def Idle (s : State Cell Content) : Prop := s.background = [] ∧ s.main = []

end State

/-- The image that the block of a load makes. -/
def loadedImage (files : String → Option (UIImage Content)) (path : String) :
    Option (UIImage Content) :=
  let image := files path
  imageFromContext ((image.map UIImage.size).getD .zero) image

section Controller

variable [DecidableEq Cell] (imagePaths : List String) (files : String → Option (UIImage Content))

def loadImageAt (index : Nat) (loadComplete : Option Cell) (s : State Cell Content) :
    Except Trap (State Cell Content × Option (UIImage Content)) :=
  match s.cache index with
  | some image => .ok (s, some image)
  | none =>
      match imagePaths[index]? with
      | some path =>
          .ok ({ s with background := s.background ++ [⟨index, path, loadComplete⟩] }, none)
      | none => .error .indexOutOfRange

/-- The cell comes from the reuse pool, so it is not displayed any more. -/
def cellForItemAt (cell : Cell) (indexPath : Nat) (s : State Cell Content) :
    Except Trap (State Cell Content) := do
  let cached := (s.cache indexPath).isSome
  let (s, image) ← loadImageAt imagePaths indexPath none s
  return { s with
    image := Function.update s.image cell image
    binding := Function.update s.binding cell (some ⟨indexPath, cached, none⟩)
    displayed := Function.update s.displayed cell none }

def willDisplay (cell : Cell) (indexPath : Nat) (s : State Cell Content) :
    Except Trap (State Cell Content) := do
  let (s, _) ← loadImageAt imagePaths indexPath (some cell) s
  return { s with displayed := Function.update s.displayed cell (some indexPath) }

def didEndDisplaying (cell : Cell) (s : State Cell Content) : State Cell Content :=
  { s with displayed := Function.update s.displayed cell none }

def callback (cell : Cell) (index : Nat) (image : UIImage Content) (s : State Cell Content) :
    State Cell Content :=
  { s with
    image := Function.update s.image cell (some image)
    binding := Function.update s.binding cell
      ((s.binding cell).map fun binding => { binding with called := some index }) }

/-- The block on the main queue that ends a load. -/
def continuation (load : Load Cell) (image : Option (UIImage Content)) (s : State Cell Content) :
    Except Trap (State Cell Content) :=
  match image with
  | some image =>
      let s := { s with cache := Function.update s.cache load.key (some image) }
      match load.loadComplete with
      | some cell => .ok (callback cell load.key image s)
      | none => .ok s
  | none => .error .unwrappedNil

/-- A cell is asked for at an index of the list, and displayed at the one it was last
    asked for. Nothing happens after a trap. -/
def machine : Machine (Except Trap (State Cell Content)) (Event Cell) where
  step
    | .error _, _ => none
    | .ok s, .cellForItemAt cell indexPath =>
        if indexPath < imagePaths.length then some (cellForItemAt imagePaths cell indexPath s)
        else none
    | .ok s, .willDisplay cell indexPath =>
        if (s.binding cell).map Binding.index = some indexPath then
          some (willDisplay imagePaths cell indexPath s)
        else none
    | .ok s, .didEndDisplaying cell => some (.ok (didEndDisplaying cell s))
    | .ok s, .loaded load =>
        if load ∈ s.background then
          some (.ok { s with
            background := s.background.erase load
            main := s.main ++ [(load, loadedImage files load.path)] })
        else none
    | .ok s, .main =>
        match s.main with
        | (load, image) :: rest => some (continuation load image { s with main := rest })
        | [] => none
    | .ok s, .evict key => some (.ok { s with cache := Function.update s.cache key none })

end Controller

/-! ## What the cells should show -/

section Coherence

variable (imagePaths : List String) (files : String → Option (UIImage Content))

def imageAt (index : Nat) : Option (UIImage Content) :=
  imagePaths[index]?.bind (loadedImage files)

/-- The cache holds images of their own indices, and when nothing is pending so do
    the displayed cells. -/
structure Coherent (s : State Cell Content) : Prop where
  cache : ∀ index image, s.cache index = some image → imageAt imagePaths files index = some image
  displayed : s.Idle → ∀ cell index, s.displayed cell = some index →
    ∃ image, s.image cell = some image ∧ imageAt imagePaths files index = some image

/-- The app runs and its list is coherent. -/
def Works : Except Trap (State Cell Content) → Prop
  | .ok s => Coherent imagePaths files s
  | .error _ => False

/-- The last callback which the cell got since its `cellForItemAt` was for the same
    image, or it got none and did not need one. -/
def Binding.Served (binding : Binding) : Prop :=
  match binding.called with
  | some index => imageAt imagePaths files index = imageAt imagePaths files binding.index
  | none => binding.cached

/-- No load of an image that cannot be drawn ends. -/
def Drawable (s : Except Trap (State Cell Content)) (e : Event Cell) : Prop :=
  ∀ u, s = .ok u → e = .main → ∀ load image rest, u.main = (load, image) :: rest →
    (loadedImage files load.path).isSome

/-- When nothing is pending, every displayed cell was served. -/
def Served (t : Except Trap (State Cell Content)) : Prop :=
  ∀ u, t = .ok u → u.Idle → ∀ cell binding, u.displayed cell ≠ none →
    u.binding cell = some binding → binding.Served imagePaths files

/-- What decides the image of a cell since its `cellForItemAt`. -/
def Binding.image (binding : Binding) : Option (UIImage Content) :=
  match binding.called with
  | some index => imageAt imagePaths files index
  | none => if binding.cached then imageAt imagePaths files binding.index else none

structure Binding.Ok (binding : Binding) (image : Option (UIImage Content)) : Prop where
  inRange : binding.index < imagePaths.length
  image : image = binding.image imagePaths files
  called : ∀ index, binding.called = some index → (imageAt imagePaths files index).isSome
  cached : binding.cached → (imageAt imagePaths files binding.index).isSome

structure Inv (s : State Cell Content) : Prop where
  cache : ∀ index image, s.cache index = some image → imageAt imagePaths files index = some image
  background : ∀ load ∈ s.background, imagePaths[load.key]? = some load.path
  main : ∀ load image, (load, image) ∈ s.main →
    imagePaths[load.key]? = some load.path ∧ image = loadedImage files load.path
  bound : ∀ cell binding, s.binding cell = some binding →
    binding.Ok imagePaths files (s.image cell)
  displayed : ∀ cell index, s.displayed cell = some index →
    (s.binding cell).map Binding.index = some index

end Coherence

section Steps

variable {imagePaths : List String} {files : String → Option (UIImage Content)}
  {s : State Cell Content}

theorem Inv.start : Inv imagePaths files (State.start : State Cell Content) where
  cache _ _ cached := by cases cached
  background := by simp [State.start]
  main := by simp [State.start]
  bound _ _ bound := by cases bound
  displayed _ _ displayed := by cases displayed

theorem imageAt_of_path {index : Nat} {path : String} (h : imagePaths[index]? = some path) :
    imageAt imagePaths files index = loadedImage files path := by
  simp [imageAt, h]

/-- A loader only adds a load, and returns what is in the cache. -/
theorem Inv.loadImageAt (h : Inv imagePaths files s) {index : Nat}
    (inRange : index < imagePaths.length) (loadComplete : Option Cell) :
    ∃ background, loadImageAt imagePaths index loadComplete s =
        .ok ({ s with background := background }, s.cache index) ∧
      Inv imagePaths files { s with background := background } := by
  cases found : s.cache index with
  | some image => exact ⟨s.background, by simp [ImageCache.loadImageAt, found], h⟩
  | none =>
      have path := List.getElem?_eq_getElem inRange
      refine ⟨s.background ++ [⟨index, imagePaths[index], loadComplete⟩],
        by simp only [ImageCache.loadImageAt, found, path], { h with background := ?_ }⟩
      intro load member
      cases List.mem_append.mp member with
      | inl old => exact h.background load old
      | inr new =>
          obtain rfl := List.mem_singleton.mp new
          exact path

theorem Inv.evict (h : Inv imagePaths files s) (key : Nat) :
    Inv imagePaths files { s with cache := Function.update s.cache key none } := by
  refine { h with cache := ?_ }
  rw [Function.forall_update_iff s.cache fun index cached =>
    ∀ image, cached = some image → imageAt imagePaths files index = some image]
  exact ⟨nofun, fun index _ => h.cache index⟩

variable [DecidableEq Cell]

theorem Inv.cellForItemAt (h : Inv imagePaths files s) (cell : Cell) {index : Nat}
    (inRange : index < imagePaths.length) :
    ∃ u, cellForItemAt imagePaths cell index s = .ok u ∧ Inv imagePaths files u := by
  obtain ⟨background, loaded, grown⟩ := h.loadImageAt inRange none
  have asked : ImageCache.cellForItemAt imagePaths cell index s = .ok { s with
      background := background
      image := Function.update s.image cell (s.cache index)
      binding := Function.update s.binding cell (some ⟨index, (s.cache index).isSome, none⟩)
      displayed := Function.update s.displayed cell none } := by
    simp only [ImageCache.cellForItemAt, loaded]
    rfl
  refine ⟨_, asked, grown.cache, grown.background, grown.main, fun other binding bound => ?_,
    fun other shown displayed => ?_⟩
  · by_cases same : other = cell
    · subst same
      simp only [Function.update_self, Option.some.injEq] at bound ⊢
      subst bound
      refine ⟨inRange, ?_, by simp, fun cached => ?_⟩
      · cases found : s.cache index with
        | none => simp [Binding.image]
        | some image => simpa [Binding.image] using (h.cache index image found).symm
      · obtain ⟨image, found⟩ := Option.isSome_iff_exists.mp cached
        simp [h.cache index image found]
    · simp only [Function.update_of_ne same] at bound ⊢
      exact h.bound other binding bound
  · by_cases same : other = cell
    · simp [same] at displayed
    · simp only [Function.update_of_ne same] at displayed ⊢
      exact h.displayed other shown displayed

theorem Inv.willDisplay (h : Inv imagePaths files s) {cell : Cell} {index : Nat}
    (bound : (s.binding cell).map Binding.index = some index) :
    ∃ u, willDisplay imagePaths cell index s = .ok u ∧ Inv imagePaths files u := by
  obtain ⟨binding, found, rfl⟩ := Option.map_eq_some_iff.mp bound
  obtain ⟨background, loaded, grown⟩ :=
    h.loadImageAt (h.bound cell binding found).inRange (some cell)
  have asked : ImageCache.willDisplay imagePaths cell binding.index s = .ok { s with
      background := background
      displayed := Function.update s.displayed cell (some binding.index) } := by
    simp only [ImageCache.willDisplay, loaded]
    rfl
  refine ⟨_, asked, { grown with displayed := ?_ }⟩
  rw [Function.forall_update_iff s.displayed fun other displayed =>
    ∀ index, displayed = some index → (s.binding other).map Binding.index = some index]
  refine ⟨fun index shown => ?_, fun other _ => h.displayed other⟩
  rw [← shown]
  exact bound

/-- The callback overwrites the image of its cell, whatever the cell is for now. -/
theorem Inv.callback (h : Inv imagePaths files s) (cell : Cell) {index : Nat}
    {image : UIImage Content} (drawn : imageAt imagePaths files index = some image) :
    Inv imagePaths files (callback cell index image s) := by
  refine { h with bound := ?_, displayed := ?_ }
  · intro other binding bound
    by_cases same : other = cell
    · subst same
      simp only [ImageCache.callback, Function.update_self, Option.map_eq_some_iff] at bound ⊢
      obtain ⟨before, found, rfl⟩ := bound
      have ok := h.bound other before found
      refine ⟨ok.inRange, by simp [Binding.image, drawn], ?_, ok.cached⟩
      intro called asked
      obtain rfl := Option.some.inj asked
      simp [drawn]
    · simp only [ImageCache.callback, Function.update_of_ne same] at bound ⊢
      exact h.bound other binding bound
  · intro other shown displayed
    have before := h.displayed other shown displayed
    by_cases same : other = cell
    · subst same
      simp only [ImageCache.callback, Function.update_self, Option.map_map]
      exact before
    · simpa only [ImageCache.callback, Function.update_of_ne same] using before

theorem Inv.continuation (h : Inv imagePaths files s) {load : Load Cell}
    {image : UIImage Content} (drawn : imageAt imagePaths files load.key = some image) :
    ∃ u, continuation load (some image) s = .ok u ∧ Inv imagePaths files u := by
  have stored : Inv imagePaths files
      { s with cache := Function.update s.cache load.key (some image) } := by
    refine { h with cache := ?_ }
    rw [Function.forall_update_iff s.cache fun index cached =>
      ∀ image, cached = some image → imageAt imagePaths files index = some image]
    exact ⟨fun cached found => drawn.trans found, fun index _ => h.cache index⟩
  cases captured : load.loadComplete with
  | none => exact ⟨_, by simp only [ImageCache.continuation, captured], stored⟩
  | some cell =>
      exact ⟨_, by simp only [ImageCache.continuation, captured], stored.callback cell drawn⟩

theorem Inv.didEndDisplaying (h : Inv imagePaths files s) (cell : Cell) :
    Inv imagePaths files (didEndDisplaying cell s) := by
  refine { h with displayed := ?_ }
  unfold ImageCache.didEndDisplaying
  rw [Function.forall_update_iff s.displayed fun other displayed =>
    ∀ index, displayed = some index → (s.binding other).map Binding.index = some index]
  exact ⟨nofun, fun other _ => h.displayed other⟩

/-- Only the continuation of an image that could not be drawn traps. -/
theorem Inv.step (h : Inv imagePaths files s) {e : Event Cell}
    {t : Except Trap (State Cell Content)}
    (stepped : (machine imagePaths files).step (.ok s) e = some t) :
    (∃ u, t = .ok u ∧ Inv imagePaths files u ∧ Drawable files (.ok s) e) ∨
      ∃ trap, t = .error trap ∧ ¬Drawable files (.ok s) e := by
  have notMain (other : e ≠ .main) : Drawable files (.ok s) e := by
    intro u _ run
    exact absurd run other
  cases e with
  | cellForItemAt cell indexPath =>
      simp only [machine, Option.ite_none_right_eq_some, Option.some.injEq] at stepped
      obtain ⟨inRange, rfl⟩ := stepped
      obtain ⟨u, eq, inv⟩ := h.cellForItemAt cell inRange
      exact .inl ⟨u, eq, inv, notMain nofun⟩
  | willDisplay cell indexPath =>
      simp only [machine, Option.ite_none_right_eq_some, Option.some.injEq] at stepped
      obtain ⟨bound, rfl⟩ := stepped
      obtain ⟨u, eq, inv⟩ := h.willDisplay bound
      exact .inl ⟨u, eq, inv, notMain nofun⟩
  | didEndDisplaying cell =>
      obtain rfl := Option.some.inj stepped
      exact .inl ⟨_, rfl, h.didEndDisplaying cell, notMain nofun⟩
  | loaded load =>
      simp only [machine, Option.ite_none_right_eq_some, Option.some.injEq] at stepped
      obtain ⟨member, rfl⟩ := stepped
      refine .inl ⟨_, rfl, { h with background := ?_, main := ?_ }, notMain nofun⟩
      · exact fun other kept => h.background other (List.mem_of_mem_erase kept)
      · intro other image queued
        cases List.mem_append.mp queued with
        | inl old => exact h.main other image old
        | inr new =>
            obtain ⟨rfl, rfl⟩ := Prod.mk.inj (List.mem_singleton.mp new)
            exact ⟨h.background other member, rfl⟩
  | main =>
      cases queue : s.main with
      | nil => simp [machine, queue] at stepped
      | cons head rest =>
          obtain ⟨load, image⟩ := head
          simp only [machine, queue, Option.some.injEq] at stepped
          subst stepped
          obtain ⟨path, rfl⟩ := h.main load image (by simp [queue])
          have popped : Inv imagePaths files { s with main := rest } :=
            { h with main := fun other image later => h.main other image (by simp [queue, later]) }
          cases drawn : loadedImage files load.path with
          | none =>
              refine .inr ⟨.unwrappedNil, rfl, fun drawable => ?_⟩
              have readable := drawable s rfl rfl load _ rest queue
              simp [drawn] at readable
          | some image =>
              obtain ⟨u, eq, inv⟩ := popped.continuation ((imageAt_of_path path).trans drawn)
              refine .inl ⟨u, eq, inv, fun same ran _ other _ _ found => ?_⟩
              obtain rfl := Except.ok.inj ran
              obtain ⟨⟨rfl, -⟩, -⟩ := by simpa [queue] using found
              simp [drawn]
  | evict key =>
      obtain rfl := Option.some.inj stepped
      exact .inl ⟨_, rfl, h.evict key, notMain nofun⟩

omit [DecidableEq Cell] in
theorem Inv.coherent_iff (h : Inv imagePaths files s) :
    Coherent imagePaths files s ↔ Served imagePaths files (.ok s) := by
  constructor
  · intro coherent u same idle cell binding displayed found
    obtain rfl := Except.ok.inj same
    obtain ⟨index, shown⟩ := Option.ne_none_iff_exists'.mp displayed
    obtain ⟨image, has, right⟩ := coherent.displayed idle cell index shown
    have own := h.displayed cell index shown
    rw [found, Option.map_some, Option.some.injEq] at own
    have ok := (h.bound cell binding found).image
    rw [has, Binding.image] at ok
    rw [← own] at right
    unfold Binding.Served
    cases called : binding.called with
    | some other =>
        rw [called] at ok
        exact ok.symm.trans right.symm
    | none =>
        by_contra missing
        simp [called, missing] at ok
  · intro served
    refine ⟨h.cache, fun idle cell index shown => ?_⟩
    obtain ⟨binding, found, rfl⟩ := Option.map_eq_some_iff.mp (h.displayed cell index shown)
    have enough := served s rfl idle cell binding (by simp [shown]) found
    have ok := h.bound cell binding found
    rw [Binding.Served] at enough
    rw [ok.image, Binding.image]
    cases called : binding.called with
    | some other =>
        rw [called] at enough
        obtain ⟨image, right⟩ := Option.isSome_iff_exists.mp (ok.called other called)
        exact ⟨image, right, enough ▸ right⟩
    | none =>
        rw [called] at enough
        obtain ⟨image, right⟩ := Option.isSome_iff_exists.mp (ok.cached enough)
        exact ⟨image, by simpa [enough] using right, right⟩

end Steps

variable [DecidableEq Cell] (imagePaths : List String) (files : String → Option (UIImage Content))

/-- In every run: the list works after each step exactly if every image whose load
    ends can be drawn and the displayed cells were served whenever nothing was
    pending. -/
theorem works_iff_served (es : List (Event Cell)) :
    (machine imagePaths files).Each (fun _ _ t => Works imagePaths files t)
        (.ok State.start) es ↔
      (machine imagePaths files).Each
        (fun s e t => Drawable files s e ∧ Served imagePaths files t) (.ok State.start) es := by
  refine Machine.each_congr_trap (I := Inv imagePaths files) (fun _ _ => rfl) ?_ Inv.start es
  intro s e t inv stepped
  cases inv.step stepped with
  | inl taken =>
      obtain ⟨u, rfl, after, drawable⟩ := taken
      refine ⟨after.coherent_iff.trans (and_iff_right drawable).symm, fun _ next same => ?_⟩
      exact Except.ok.inj same ▸ after
  | inr trapped =>
      obtain ⟨trap, rfl, undrawable⟩ := trapped
      exact ⟨iff_of_false id fun h => undrawable h.1, fun works => works.elim⟩

/-- The load that `cellForItemAt` started ends before `willDisplay`, which then finds
    the image in the cache and leaves the cell without it. -/
theorem displayed_without_image :
    ¬(machine ["one"] fun path => some ⟨some path, ⟨1, 1⟩⟩).Each
      (fun _ _ t => Works ["one"] (fun path => some ⟨some path, ⟨1, 1⟩⟩) t)
      (.ok (State.start : State Unit String))
      [.cellForItemAt () 0, .loaded ⟨0, "one", none⟩, .main, .willDisplay () 0] := by
  intro all
  obtain ⟨-, all⟩ := all _ rfl
  obtain ⟨-, all⟩ := all _ rfl
  obtain ⟨-, all⟩ := all _ rfl
  obtain ⟨works, -⟩ := all _ rfl
  obtain ⟨image, shown, -⟩ := works.displayed ⟨rfl, rfl⟩ () 0 rfl
  cases shown

end LearningProjects.CoreAnimation.ImageCache
