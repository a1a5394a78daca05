import Mathlib.Data.List.Rotate
import Mathlib.Data.List.Perm.Basic
import Mathlib.Tactic.Common

/-! # Linear probing with a bounded displacement

A hash table which looks for a key from the bucket of its hash onwards. It keeps the
largest distance that any item was put away from its first bucket, so that a search
stops there: an item can be taken out without a mark in its place, because no search
relies on the buckets before an item being full.
-/

namespace LearningProjects

/-- The buckets, the number of items in them and the largest displacement so far. -/
structure Probed (α : Type*) where
  slots : List (Option α)
  count : ℕ
  reach : ℕ
  deriving DecidableEq, Repr

/-- How a search ends; it is lost when it comes back to its first bucket. -/
inductive Search where
  | found (i : ℕ)
  | absent
  | lost
  deriving DecidableEq, Repr

namespace Probed

variable {α κ : Type*}

def empty (size : ℕ) : Probed α := ⟨List.replicate size none, 0, 0⟩

def size (t : Probed α) : ℕ := t.slots.length

/-- The bucket `i`, counted around. -/
def slot (t : Probed α) (i : ℕ) : Option α := (t.slots[i % t.size]?).join

def contents (t : Probed α) : List α := t.slots.filterMap id

/-- The first free bucket of the next `left` ones. -/
def freeFrom (t : Probed α) : ℕ → ℕ → Option ℕ
  | 0, _ => none
  | left + 1, i => if (t.slot i).isNone then some i else freeFrom t left (i + 1)

def remove (t : Probed α) (i : ℕ) : Probed α :=
  { t with slots := t.slots.set i none, count := t.count - 1 }

def replace (t : Probed α) (i : ℕ) (a : α) : Probed α :=
  { t with slots := t.slots.set i (some a) }

section Keys

variable (key : α → κ) (hash : κ → ℕ)

/-- There is no result if every bucket is full. -/
def insert (t : Probed α) (a : α) : Option (Probed α) :=
  (t.freeFrom t.size (hash (key a))).map fun i =>
    { slots := t.slots.set (i % t.size) (some a)
      count := t.count + 1
      reach := max t.reach (i - hash (key a)) }

/-- All items again, in another number of buckets. -/
def refill (t : Probed α) (size : ℕ) : Option (Probed α) :=
  t.contents.foldlM (insert key hash) (empty size)

variable [DecidableEq κ]

def searchFrom (t : Probed α) (k : κ) : ℕ → ℕ → Search
  | left, d =>
      if (t.slot (hash k + d)).any fun a => key a = k then .found ((hash k + d) % t.size)
      else
        match left with
        | 0 => .lost
        | left + 1 => if t.reach < d + 1 then .absent else searchFrom t k left (d + 1)

def search (t : Probed α) (k : κ) : Search := t.searchFrom key hash k (t.size - 1) 0

end Keys

/-- Every item is within reach of the bucket of its key, and no search gets around. -/
structure Wf (key : α → κ) (hash : κ → ℕ) (t : Probed α) : Prop where
  count_eq : t.count = t.contents.length
  nodup : (t.contents.map key).Nodup
  near : ∀ i a, t.slots[i]? = some (some a) → ∃ d ≤ t.reach, (hash (key a) + d) % t.size = i
  room : t.reach + 1 < t.size

section Contents

variable {t : Probed α} {a b : α} {i d h : ℕ}

theorem mem_contents : a ∈ t.contents ↔ some a ∈ t.slots := by
  simp [contents]

theorem mem_contents_iff : a ∈ t.contents ↔ ∃ i : ℕ, t.slots[i]? = some (some a) := by
  rw [mem_contents, List.mem_iff_getElem?]

theorem slot_eq_some (here : t.slot i = some a) : t.slots[i % t.size]? = some (some a) := by
  unfold slot at here
  cases found : t.slots[i % t.size]? with
  | none => simp [found] at here
  | some x =>
      rw [found] at here
      exact congrArg some here

theorem slot_of_lt (there : t.slots[i]? = some (some a)) (same : h % t.size = i) :
    t.slot h = some a := by
  rw [slot, same, there]
  rfl

theorem contents_set_some (x : Option α) (within : i < t.slots.length) :
    ((t.slots.set i x).filterMap id) =
      (t.slots.take i).filterMap id ++ x.toList ++ (t.slots.drop (i + 1)).filterMap id := by
  rw [List.set_eq_take_append_cons_drop, if_pos within, List.filterMap_append]
  cases x <;> simp

theorem contents_split (within : i < t.slots.length) :
    t.contents = (t.slots.take i).filterMap id ++ (t.slots[i]).toList ++
      (t.slots.drop (i + 1)).filterMap id := by
  have same := contents_set_some (t := t) t.slots[i] within
  rwa [List.set_getElem_self] at same

/-- What is put into a free bucket is new. -/
theorem perm_set_some (free : t.slots[i]? = some none) :
    ((t.slots.set i (some a)).filterMap id).Perm (a :: t.contents) := by
  obtain ⟨within, empty⟩ := List.getElem?_eq_some_iff.mp free
  rw [contents_set_some _ within, contents_split within, empty]
  simp [List.perm_middle]

theorem perm_set_none (full : t.slots[i]? = some (some a)) :
    t.contents.Perm (a :: (t.slots.set i none).filterMap id) := by
  obtain ⟨within, here⟩ := List.getElem?_eq_some_iff.mp full
  rw [contents_set_some _ within, contents_split within, here]
  simp [List.perm_middle]

/-- Full buckets in a row are as many items. -/
theorem le_contents_of_full (full : ∀ j, h ≤ j → j < h + d → (t.slot j).isSome) (le : d ≤ t.size) :
    d ≤ t.contents.length := by
  have rotated : ((t.slots.rotate h).filterMap id).Perm t.contents :=
    (List.rotate_perm _ _).filterMap id
  rw [← rotated.length_eq, ← List.take_append_drop d (t.slots.rotate h), List.filterMap_append,
    List.length_append]
  have all : ∀ x ∈ (t.slots.rotate h).take d, (id x).isSome := by
    intro x there
    obtain ⟨j, lt, here⟩ := List.mem_iff_getElem.mp there
    rw [List.length_take] at lt
    rw [List.getElem_take, List.getElem_rotate] at here
    have some_here := full (h + j) (by omega) (by omega)
    have within : (h + j) % t.slots.length < t.slots.length :=
      Nat.mod_lt _ (by unfold size at le; omega)
    rw [slot, size, List.getElem?_eq_getElem within] at some_here
    rw [← here]
    simpa [Nat.add_comm] using some_here
  have kept := List.filterMap_length_eq_length.mpr all
  rw [kept, List.length_take, List.length_rotate]
  unfold size at le
  omega

theorem freeFrom_spec (t : Probed α) (left i : ℕ) :
    match t.freeFrom left i with
    | none => ∀ j, i ≤ j → j < i + left → (t.slot j).isSome
    | some f => i ≤ f ∧ f < i + left ∧ t.slot f = none ∧ ∀ j, i ≤ j → j < f →
        (t.slot j).isSome := by
  induction left generalizing i with
  | zero =>
      intro j from_i below
      omega
  | succ left ih =>
      unfold freeFrom
      cases here : t.slot i with
      | none =>
          simp only [Option.isNone_none, if_true]
          exact ⟨Nat.le_refl i, by omega, here, fun j from_i below => by omega⟩
      | some a =>
          simp only [Option.isNone_some, Bool.false_eq_true, if_false]
          have first : ∀ j, i ≤ j → ¬i + 1 ≤ j → (t.slot j).isSome := fun j from_i next => by
            obtain rfl : i = j := by omega
            rw [here]
            rfl
          have later := ih (i + 1)
          cases found : t.freeFrom left (i + 1) with
          | none =>
              rw [found] at later
              intro j from_i below
              by_cases next : i + 1 ≤ j
              · exact later j next (by omega)
              · exact first j from_i next
          | some f =>
              rw [found] at later
              obtain ⟨after, below, free, full⟩ := later
              refine ⟨by omega, by omega, free, fun j from_i before => ?_⟩
              by_cases next : i + 1 ≤ j
              · exact full j next before
              · exact first j from_i next

end Contents

section Operations

variable {key : α → κ} {hash : κ → ℕ} {t u : Probed α} {a : α} {i : ℕ}

theorem wf_empty {size : ℕ} (two : 1 < size) : Wf key hash (empty size : Probed α) where
  count_eq := by simp [empty, contents]
  nodup := by simp [empty, contents]
  near i a there := by simp [empty, List.getElem?_replicate] at there
  room := by simpa [empty, Probed.size] using two

theorem contents_empty (size : ℕ) : (empty size : Probed α).contents = [] := by
  simp [empty, contents]

theorem size_empty (size : ℕ) : (empty size : Probed α).size = size := by
  simp [empty, Probed.size]

/-- Where an item was put depends on the table as it was then, what follows from it
    only on there being room. -/
theorem insert_spec (wf : Wf key hash t) (fresh : key a ∉ t.contents.map key)
    (room : t.count + 1 < t.size) :
    ∃ u, t.insert key hash a = some u ∧ Wf key hash u ∧ u.contents.Perm (a :: t.contents) ∧
      u.size = t.size := by
  have probe := freeFrom_spec t t.size (hash (key a))
  unfold insert
  cases found : t.freeFrom t.size (hash (key a)) with
  | none =>
      rw [found] at probe
      have := le_contents_of_full probe (Nat.le_refl _)
      rw [wf.count_eq] at room
      omega
  | some f =>
      rw [found] at probe
      obtain ⟨after, below, free, full⟩ := probe
      have short : f - hash (key a) ≤ t.count := by
        rw [wf.count_eq]
        exact le_contents_of_full (fun j from_h before => full j from_h (by omega)) (by omega)
      have bucket : f % t.size < t.slots.length := Nat.mod_lt _ (by unfold size at room; omega)
      have empty_there : t.slots[f % t.size]? = some none := by
        rw [slot, List.getElem?_eq_getElem bucket] at free
        rw [List.getElem?_eq_getElem bucket]
        simpa using free
      have perm := perm_set_some (a := a) empty_there
      refine ⟨_, rfl, ⟨?_, ?_, ?_, ?_⟩, perm, by simp [size]⟩
      · rw [contents, perm.length_eq, List.length_cons, wf.count_eq]
      · rw [contents, (perm.map key).nodup_iff, List.map_cons, List.nodup_cons]
        exact ⟨fresh, wf.nodup⟩
      · intro j b there
        simp only [size, List.length_set] at *
        rw [List.getElem?_set] at there
        split_ifs at there with same
        · obtain rfl : a = b := by simpa using there
          refine ⟨f - hash (key a), Nat.le_max_right _ _, ?_⟩
          rw [Nat.add_sub_cancel' after]
          exact same
        · obtain ⟨d, le, place⟩ := wf.near j b there
          exact ⟨d, Nat.le_trans le (Nat.le_max_left _ _), place⟩
      · have := wf.room
        simp only [size, List.length_set] at *
        omega

theorem insert_count (inserted : t.insert key hash a = some u) :
    u.count = t.count + 1 ∧ u.size = t.size := by
  unfold insert at inserted
  obtain ⟨f, -, rfl⟩ := Option.map_eq_some_iff.mp inserted
  exact ⟨rfl, by simp [size]⟩

theorem insertAll_spec (as : List α) (wf : Wf key hash t) (nodup : (as.map key).Nodup)
    (fresh : ∀ a ∈ as, key a ∉ t.contents.map key) (room : t.count + as.length < t.size) :
    ∃ u, as.foldlM (insert key hash) t = some u ∧ Wf key hash u ∧
      u.contents.Perm (as ++ t.contents) ∧ u.size = t.size := by
  induction as generalizing t with
  | nil => exact ⟨t, rfl, wf, List.Perm.refl _, rfl⟩
  | cons a as ih =>
      rw [List.map_cons, List.nodup_cons] at nodup
      rw [List.length_cons] at room
      obtain ⟨u, inserted, wfu, perm, size_u⟩ :=
        insert_spec wf (fresh a List.mem_cons_self) (by omega)
      have fresh_u : ∀ b ∈ as, key b ∉ u.contents.map key := fun b there => by
        rw [(perm.map key).mem_iff, List.map_cons, List.mem_cons, not_or]
        refine ⟨fun same => nodup.1 ?_, fresh b (List.mem_cons_of_mem a there)⟩
        rw [← same]
        exact List.mem_map_of_mem there
      have counted := insert_count inserted
      obtain ⟨v, all, wfv, perm_v, size_v⟩ := ih wfu nodup.2 fresh_u (by omega)
      refine ⟨v, by rw [List.foldlM_cons, inserted]; exact all, wfv, ?_, size_v.trans size_u⟩
      calc v.contents.Perm (as ++ u.contents) := perm_v
        _ |>.Perm (as ++ a :: t.contents) := perm.append_left as
        _ |>.Perm (a :: as ++ t.contents) := List.perm_middle

theorem refill_spec (size : ℕ) (wf : Wf key hash t) (two : 1 < size) (room : t.count < size) :
    ∃ u, t.refill key hash size = some u ∧ Wf key hash u ∧ u.contents.Perm t.contents ∧
      u.size = size := by
  have count := wf.count_eq
  obtain ⟨u, all, wfu, perm, size_u⟩ := insertAll_spec t.contents (wf_empty two) wf.nodup
    (by simp [contents_empty]) (by rw [size_empty]; simp [empty]; omega)
  exact ⟨u, all, wfu, by simpa [contents_empty] using perm, size_u.trans (size_empty size)⟩

theorem remove_spec (wf : Wf key hash t) (full : t.slots[i]? = some (some a)) :
    Wf key hash (t.remove i) ∧ t.contents.Perm (a :: (t.remove i).contents) := by
  have perm := perm_set_none full
  refine ⟨⟨?_, ?_, ?_, ?_⟩, perm⟩
  · have count := wf.count_eq
    rw [perm.length_eq, List.length_cons] at count
    simp [remove, contents, count]
  · have nodup := wf.nodup
    rw [(perm.map key).nodup_iff, List.map_cons, List.nodup_cons] at nodup
    exact nodup.2
  · intro j b there
    simp only [remove, size, List.length_set] at *
    rw [List.getElem?_set] at there
    split_ifs at there with same within
    · simp at there
    · exact wf.near j b there
  · have := wf.room
    simpa [remove, size] using this

/-- An item may be changed in its place if it keeps its key. -/
theorem replace_spec {b : α} (wf : Wf key hash t) (full : t.slots[i]? = some (some a))
    (same_key : key b = key a) :
    Wf key hash (t.replace i b) ∧ ∃ rest, t.contents.Perm (a :: rest) ∧
      (t.replace i b).contents.Perm (b :: rest) := by
  have perm := perm_set_none full
  obtain ⟨within, -⟩ := List.getElem?_eq_some_iff.mp full
  have free : (t.slots.set i none)[i]? = some none := by simp [within]
  have perm' := perm_set_some (t := ⟨t.slots.set i none, 0, 0⟩) (a := b) free
  rw [List.set_set] at perm'
  refine ⟨⟨?_, ?_, ?_, ?_⟩, _, perm, perm'⟩
  · rw [replace, contents, perm'.length_eq, wf.count_eq, perm.length_eq]
    rfl
  · have nodup := wf.nodup
    rw [(perm.map key).nodup_iff] at nodup
    rw [replace, contents, (perm'.map key).nodup_iff, List.map_cons, same_key]
    exact nodup
  · intro j c there
    simp only [replace, size, List.length_set] at *
    rw [List.getElem?_set] at there
    split_ifs at there with same
    · obtain rfl : b = c := by simpa using there
      obtain ⟨d, le, place⟩ := wf.near i a full
      exact ⟨d, le, by rw [same_key]; exact place.trans same⟩
    · exact wf.near j c there
  · have := wf.room
    simpa [replace, size] using this

variable [DecidableEq κ]

theorem searchFrom_spec (wf : Wf key hash t) (k : κ) (left d : ℕ) (around : left + d + 1 = t.size)
    (reached : d ≤ t.reach) (passed : ∀ e < d, ∀ a, t.slot (hash k + e) = some a → key a ≠ k) :
    match t.searchFrom key hash k left d with
    | .found i => ∃ a, t.slots[i]? = some (some a) ∧ key a = k
    | .absent => k ∉ t.contents.map key
    | .lost => False := by
  induction left generalizing d with
  | zero =>
      unfold searchFrom
      have := wf.room
      omega
  | succ left ih =>
      unfold searchFrom
      split_ifs with hit stop
      · cases here : t.slot (hash k + d) with
        | none => simp [here] at hit
        | some a => exact ⟨a, slot_eq_some here, by simpa [here] using hit⟩
      all_goals
        have passed' : ∀ e < d + 1, ∀ a, t.slot (hash k + e) = some a → key a ≠ k := by
          intro e before a here
          cases Nat.lt_succ_iff_lt_or_eq.mp before with
          | inl earlier => exact passed e earlier a here
          | inr now =>
              subst now
              simpa [here] using hit
      · intro there
        obtain ⟨a, member, rfl⟩ := List.mem_map.mp there
        obtain ⟨i, here⟩ := mem_contents_iff.mp member
        obtain ⟨e, le, place⟩ := wf.near i a here
        exact passed' e (by omega) a (slot_of_lt here place) rfl
      · exact ih (d + 1) (by omega) (by omega) passed'

/-- A search finds the key if it is there, and never gets lost. -/
theorem search_spec (wf : Wf key hash t) (k : κ) :
    match t.search key hash k with
    | .found i => ∃ a, t.slots[i]? = some (some a) ∧ key a = k
    | .absent => k ∉ t.contents.map key
    | .lost => False :=
  searchFrom_spec wf k (t.size - 1) 0 (by have := wf.room; omega) (Nat.zero_le _)
    fun e before => absurd before (Nat.not_lt_zero e)

end Operations

end Probed

end LearningProjects
