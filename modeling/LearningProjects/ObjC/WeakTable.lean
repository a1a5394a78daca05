import LearningProjects.Probing
import Mathlib.Data.List.Basic
import Mathlib.Data.List.Perm.Basic
import Mathlib.Tactic.Common

/-! # The table of weak references

`objc-weak.mm`: for each object that is weakly referenced, the set of the variables
that hold it. Four variables fit into the entry of an object, more are kept out of line
in a hash set; the entries themselves are in a hash table, and both grow.
-/

namespace LearningProjects.ObjC

/-- The variables that refer to an object. -/
inductive Referrers (Loc : Type) where
  | inlined (referrers : List (Option Loc))
  | outOfLine (table : Probed Loc)
  deriving DecidableEq

structure WeakEntry (Obj Loc : Type) where
  referent : Obj
  referrers : Referrers Loc
  deriving DecidableEq

abbrev WeakTable (Obj Loc : Type) := Probed (WeakEntry Obj Loc)

/-- `ptr_hash` of an object and of the address of a variable. -/
structure PtrHash (Obj Loc : Type) where
  pointer : Obj → ℕ
  weakPointer : Loc → ℕ

def weakInlineCount : ℕ := 4

namespace Referrers

variable {Loc : Type} (wHash : Loc → ℕ)

/-- The end of `append_referrer` together with `grow_refs_and_insert`, which appends all
    the old referrers and the new one to a new table. There is no result for a bad weak
    table, or if the two nest deeper than `depth`. -/
def appendOutOfLine : ℕ → Probed Loc → Loc → Option (Probed Loc)
  | 0, _, _ => none
  | depth + 1, table, newReferrer =>
      if table.count ≥ table.size * 3 / 4 then do
        let newSize := if table.size = 0 then 8 else table.size * 2
        let oldRefs := table.contents.take table.count
        let table ← oldRefs.foldlM (appendOutOfLine depth) (Probed.empty newSize)
        appendOutOfLine depth table newReferrer
      else table.insert id wHash newReferrer

/-- `append_referrer`. The table made of the inline referrers is invalid, but it is
    full, so that it grows at once. -/
def append (depth : ℕ) (newReferrer : Loc) : Referrers Loc → Option (Referrers Loc)
  | .inlined referrers =>
      match referrers.findIdx? Option.isNone with
      | some i => some (.inlined (referrers.set i (some newReferrer)))
      | none => (appendOutOfLine wHash depth
          ⟨referrers, weakInlineCount, 0⟩ newReferrer).map .outOfLine
  | .outOfLine table => (appendOutOfLine wHash depth table newReferrer).map .outOfLine

/-- `remove_referrer`, and whether it complains of an unknown variable. -/
def remove [DecidableEq Loc] (oldReferrer : Loc) : Referrers Loc → Option (Referrers Loc × Bool)
  | .inlined referrers =>
      match referrers.findIdx? (· = some oldReferrer) with
      | some i => some (.inlined (referrers.set i none), false)
      | none => some (.inlined referrers, true)
  | .outOfLine table =>
      match table.search id wHash oldReferrer with
      | .found i => some (.outOfLine (table.remove i), false)
      | .absent => some (.outOfLine table, true)
      | .lost => none

/-- The test in `weak_unregister_no_lock`. It looks at the words of the inline referrers
    also if an entry is out of line, and then the first one is the address of the table. -/
def isEmpty : Referrers Loc → Bool
  | .inlined referrers => referrers.all Option.isNone
  | .outOfLine _ => false

/-- All of them, in the order of the array. -/
def toList : Referrers Loc → List Loc
  | .inlined referrers => referrers.filterMap id
  | .outOfLine table => table.contents

def Wf : Referrers Loc → Prop
  | .inlined referrers => referrers.length = weakInlineCount ∧ (referrers.filterMap id).Nodup
  | .outOfLine table => table.Wf id wHash

section Lemmas

variable {wHash} {table u : Probed Loc} {r : Referrers Loc} {l : Loc} {depth : ℕ}

theorem contents_length_le (table : Probed Loc) : table.contents.length ≤ table.size :=
  List.length_filterMap_le _ _

theorem appendOutOfLine_of_room (room : table.count < table.size * 3 / 4) :
    appendOutOfLine wHash (depth + 1) table l = table.insert id wHash l := by
  rw [appendOutOfLine, if_neg (by omega)]

/-- The new table is so large that nothing nests in the loop of `grow_refs_and_insert`. -/
theorem foldlM_appendOutOfLine {as : List Loc}
    (room : table.count + as.length ≤ table.size * 3 / 4) :
    as.foldlM (appendOutOfLine wHash (depth + 1)) table =
      as.foldlM (Probed.insert id wHash) table := by
  induction as generalizing table with
  | nil => rfl
  | cons a as ih =>
      rw [List.length_cons] at room
      rw [List.foldlM_cons, List.foldlM_cons, appendOutOfLine_of_room (by omega)]
      cases inserted : table.insert id wHash a with
      | none => rfl
      | some u =>
          obtain ⟨count, size⟩ := Probed.insert_count inserted
          exact ih (by rw [count, size]; omega)

theorem grow_spec (depth : ℕ) (count : table.count = table.contents.length)
    (nodup : table.contents.Nodup) (fresh : l ∉ table.contents) (two : 1 < table.size)
    (full : table.count ≥ table.size * 3 / 4) :
    ∃ u, appendOutOfLine wHash (depth + 2) table l = some u ∧ u.Wf id wHash ∧
      u.contents.Perm (l :: table.contents) := by
  have le := contents_length_le table
  have all : table.contents.take table.count = table.contents := by
    rw [count, List.take_length]
  have blank : Probed.Wf id wHash (Probed.empty (table.size * 2)) := Probed.wf_empty (by omega)
  obtain ⟨v, refilled, wfv, permv, sizev⟩ := Probed.insertAll_spec table.contents blank
    (by simpa using nodup) (by simp [Probed.contents_empty])
    (by rw [Probed.size_empty]; change 0 + _ < _; omega)
  rw [Probed.size_empty] at sizev
  rw [Probed.contents_empty, List.append_nil] at permv
  have countv : v.count = table.count := by rw [wfv.count_eq, permv.length_eq, count]
  obtain ⟨u, inserted, wfu, permu, -⟩ := Probed.insert_spec (a := l) wfv
    (by simpa using fun there => fresh (permv.mem_iff.mp there)) (by omega)
  refine ⟨u, ?_, wfu, permu.trans (permv.cons l)⟩
  rw [appendOutOfLine, if_pos full]
  simp only [all, if_neg (show ¬table.size = 0 by omega)]
  rw [foldlM_appendOutOfLine (by rw [Probed.size_empty]; change 0 + _ ≤ _; omega), refilled]
  exact (appendOutOfLine_of_room (by omega)).trans inserted

theorem appendOutOfLine_spec (depth : ℕ) (wf : table.Wf id wHash) (fresh : l ∉ table.contents) :
    ∃ u, appendOutOfLine wHash (depth + 2) table l = some u ∧ u.Wf id wHash ∧
      u.contents.Perm (l :: table.contents) := by
  have room := wf.room
  by_cases full : table.count ≥ table.size * 3 / 4
  · exact grow_spec depth wf.count_eq (by simpa using wf.nodup) fresh (by omega) full
  · obtain ⟨u, inserted, wfu, perm, -⟩ :=
      Probed.insert_spec (a := l) wf (by simpa using fresh) (by omega)
    exact ⟨u, (appendOutOfLine_of_room (by omega)).trans inserted, wfu, perm⟩

theorem append_spec (depth : ℕ) (wf : r.Wf wHash) (fresh : l ∉ r.toList) :
    ∃ r', r.append wHash (depth + 2) l = some r' ∧ r'.Wf wHash ∧
      r'.toList.Perm (l :: r.toList) := by
  cases r with
  | inlined referrers =>
      obtain ⟨four, nodup⟩ := wf
      cases free : referrers.findIdx? Option.isNone with
      | some i =>
          obtain ⟨within, none_there, -⟩ := List.findIdx?_eq_some_iff_getElem.mp free
          have empty_there : referrers[i]? = some none := by
            rw [List.getElem?_eq_getElem within, Option.isNone_iff_eq_none.mp none_there]
          have perm := Probed.perm_set_some (t := ⟨referrers, 0, 0⟩) (a := l) empty_there
          refine ⟨.inlined (referrers.set i (some l)),
            by simp [append, free], ⟨by simpa using four, ?_⟩, perm⟩
          exact perm.nodup_iff.mpr (List.nodup_cons.mpr ⟨fresh, nodup⟩)
      | none =>
          have every := List.findIdx?_eq_none_iff.mp free
          have count : weakInlineCount = (referrers.filterMap id).length := by
            rw [← four, eq_comm, List.filterMap_length_eq_length]
            intro x there
            simpa using every x there
          have grows : ∃ u, appendOutOfLine wHash (depth + 2)
              ⟨referrers, weakInlineCount, 0⟩ l = some u ∧
              u.Wf id wHash ∧ u.contents.Perm (l :: referrers.filterMap id) :=
            grow_spec depth count nodup fresh (by simp [Probed.size, four, weakInlineCount])
              (by simp [Probed.size, four, weakInlineCount])
          obtain ⟨u, grown, wfu, perm⟩ := grows
          exact ⟨.outOfLine u, by simp [append, free, grown], wfu, perm⟩
  | outOfLine table =>
      obtain ⟨u, appended, wfu, perm⟩ := appendOutOfLine_spec depth wf fresh
      exact ⟨.outOfLine u, by simp [append, appended], wfu, perm⟩

/-- A known variable is removed without complaint. -/
theorem remove_spec [DecidableEq Loc] (wf : r.Wf wHash) (there : l ∈ r.toList) :
    ∃ r', r.remove wHash l = some (r', false) ∧ r'.Wf wHash ∧ r.toList.Perm (l :: r'.toList) := by
  cases r with
  | inlined referrers =>
      obtain ⟨four, nodup⟩ := wf
      cases found : referrers.findIdx? (· = some l) with
      | none =>
          have missing := List.findIdx?_eq_none_iff.mp found (some l)
              (by simpa [toList] using there)
          simp at missing
      | some i =>
          obtain ⟨within, here, -⟩ := List.findIdx?_eq_some_iff_getElem.mp found
          have full : referrers[i]? = some (some l) := by
            rw [List.getElem?_eq_getElem within]
            simpa using here
          have perm := Probed.perm_set_none (t := ⟨referrers, 0, 0⟩) full
          refine ⟨.inlined (referrers.set i none),
            by simp [remove, found], ⟨by simpa using four, ?_⟩, perm⟩
          exact (List.nodup_cons.mp (perm.nodup_iff.mp nodup)).2
  | outOfLine table =>
      have found := Probed.search_spec wf l
      cases search : table.search id wHash l with
      | lost => simp [search] at found
      | absent =>
          rw [search] at found
          exact absurd (by simpa [toList] using there) found
      | found i =>
          rw [search] at found
          obtain ⟨a, full, same⟩ := found
          obtain rfl : a = l := same
          obtain ⟨wf', perm⟩ := Probed.remove_spec wf full
          exact ⟨.outOfLine (table.remove i), by simp [remove, search], wf', perm⟩

/-- Only an entry without variables counts as empty. -/
theorem toList_of_isEmpty (empty : r.isEmpty) : r.toList = [] := by
  cases r with
  | inlined referrers =>
      have every := List.all_eq_true.mp empty
      refine List.filterMap_eq_nil_iff.mpr fun x there => ?_
      simpa using every x there
  | outOfLine table => simp [isEmpty] at empty

theorem nodup_toList (wf : r.Wf wHash) : r.toList.Nodup := by
  cases r with
  | inlined referrers => exact wf.2
  | outOfLine table => simpa [toList] using wf.nodup

end Lemmas

end Referrers

namespace WeakTable

variable {Obj Loc : Type} (p : PtrHash Obj Loc)

/-- `l` is registered for the object `o`. -/
def Refs (t : WeakTable Obj Loc) (o : Obj) (l : Loc) : Prop :=
  ∃ e ∈ t.contents, e.referent = o ∧ l ∈ e.referrers.toList

def Has (t : WeakTable Obj Loc) (o : Obj) : Prop := ∃ e ∈ t.contents, e.referent = o

structure Wf (t : WeakTable Obj Loc) : Prop where
  entries : t.slots = [] ∧ t.count = 0 ∨ Probed.Wf WeakEntry.referent p.pointer t
  referrers : ∀ e ∈ t.contents, e.referrers.Wf p.weakPointer

variable [DecidableEq Obj] [DecidableEq Loc]

/-- No entries are allocated yet. -/
def start : WeakTable Obj Loc := ⟨[], 0, 0⟩

def entryForReferent (t : WeakTable Obj Loc) (referent : Obj) : Search :=
  if t.slots = [] then .absent else t.search WeakEntry.referent p.pointer referent

def entryInsert (t : WeakTable Obj Loc) (newEntry : WeakEntry Obj Loc) :
    Option (WeakTable Obj Loc) :=
  t.insert WeakEntry.referent p.pointer newEntry

def resize (t : WeakTable Obj Loc) (newSize : ℕ) : Option (WeakTable Obj Loc) :=
  t.refill WeakEntry.referent p.pointer newSize

def growMaybe (t : WeakTable Obj Loc) : Option (WeakTable Obj Loc) :=
  if t.count ≥ t.size * 3 / 4 then resize p t (if t.size = 0 then 64 else t.size * 2) else some t

def compactMaybe (t : WeakTable Obj Loc) : Option (WeakTable Obj Loc) :=
  if 1024 ≤ t.size ∧ t.count ≤ t.size / 16 then resize p t (t.size / 8) else some t

def entryRemove (t : WeakTable Obj Loc) (i : ℕ) : Option (WeakTable Obj Loc) :=
  compactMaybe p (t.remove i)

/-- `weak_unregister_no_lock` for an object, with the variables it complains of. -/
def unregister (t : WeakTable Obj Loc) (referent : Obj) (referrer : Loc) :
    Option (WeakTable Obj Loc × List Loc) :=
  match entryForReferent p t referent with
  | .lost => none
  | .absent => some (t, [])
  | .found i =>
      match (t.slots[i]?).join with
      | none => none
      | some entry => do
          let (referrers, unknown) ← entry.referrers.remove p.weakPointer referrer
          let t := t.replace i { entry with referrers := referrers }
          let t ← if referrers.isEmpty then entryRemove p t i else some t
          return (t, if unknown then [referrer] else [])

/-- The end of `weak_register_no_lock`, for an object that can be referred to. -/
def register (t : WeakTable Obj Loc) (referent : Obj) (referrer : Loc) :
    Option (WeakTable Obj Loc) :=
  match entryForReferent p t referent with
  | .lost => none
  | .found i =>
      match (t.slots[i]?).join with
      | none => none
      | some entry => do
          let referrers ← entry.referrers.append p.weakPointer 2 referrer
          return t.replace i { entry with referrers := referrers }
  | .absent => do
      let t ← growMaybe p t
      entryInsert p t ⟨referent, .inlined [some referrer, none, none, none]⟩

/-- `weak_clear_no_lock`: the table without the object, and the variables to zero. -/
def clear (t : WeakTable Obj Loc) (referent : Obj) : Option (WeakTable Obj Loc × List Loc) :=
  match entryForReferent p t referent with
  | .lost => none
  | .absent => some (t, [])
  | .found i =>
      match (t.slots[i]?).join with
      | none => none
      | some entry => do
          let t ← entryRemove p t i
          return (t, entry.referrers.toList)

section Lemmas

variable {p} {t : WeakTable Obj Loc} {o o' : Obj} {l l' : Loc} {i : ℕ} {e : WeakEntry Obj Loc}

omit [DecidableEq Obj] [DecidableEq Loc] in
theorem contents_nil (none_yet : t.slots = []) : t.contents = [] := by
  simp [Probed.contents, none_yet]

omit [DecidableEq Obj] [DecidableEq Loc] in
theorem refs_congr {u : WeakTable Obj Loc} (perm : u.contents.Perm t.contents) :
    Refs u o l ↔ Refs t o l := by
  simp only [Refs, perm.mem_iff]

omit [DecidableEq Loc] in
/-- A lookup of an entry tells whether there is one, and never gets lost. -/
theorem entryForReferent_spec (wf : Wf p t) (o : Obj) :
    match entryForReferent p t o with
    | .found i => Probed.Wf WeakEntry.referent p.pointer t ∧
        ∃ e, t.slots[i]? = some (some e) ∧ e.referent = o
    | .absent => ∀ e ∈ t.contents, e.referent ≠ o
    | .lost => False := by
  unfold entryForReferent
  cases wf.entries with
  | inl none_yet =>
      rw [if_pos none_yet.1]
      simp [contents_nil none_yet.1]
  | inr entries =>
      have some_there : t.slots ≠ [] := fun none_there => by
        have := entries.room
        simp [Probed.size, none_there] at this
      rw [if_neg some_there]
      have found := Probed.search_spec entries o
      cases search : t.search WeakEntry.referent p.pointer o with
      | lost => simp [search] at found
      | absent =>
          rw [search] at found
          exact fun e there same => found (List.mem_map.mpr ⟨e, there, same⟩)
      | found i =>
          rw [search] at found
          exact ⟨entries, found⟩

omit [DecidableEq Obj] [DecidableEq Loc] in
/-- The entry of an object is the only one. -/
theorem refs_iff_of_perm (entries : Probed.Wf WeakEntry.referent p.pointer t)
    {rest : List (WeakEntry Obj Loc)} (perm : t.contents.Perm (e :: rest)) :
    (∀ f ∈ rest, f.referent ≠ e.referent) ∧
      ∀ o l, Refs t o l ↔ (o = e.referent ∧ l ∈ e.referrers.toList) ∨
        ∃ f ∈ rest, f.referent = o ∧ l ∈ f.referrers.toList := by
  constructor
  · have nodup := entries.nodup
    rw [(perm.map _).nodup_iff, List.map_cons, List.nodup_cons] at nodup
    exact fun f there same => nodup.1 (List.mem_map.mpr ⟨f, there, same⟩)
  · intro o l
    simp only [Refs, perm.mem_iff, List.exists_mem_cons_iff, eq_comm (a := o)]

omit [DecidableEq Loc] in
/-- The table after the entry of an object got other variables. -/
theorem replace_spec (wf : Wf p t) (entries : Probed.Wf WeakEntry.referent p.pointer t)
    (full : t.slots[i]? = some (some e)) {r : Referrers Loc} (wf_r : r.Wf p.weakPointer) :
    Wf p (t.replace i { e with referrers := r }) ∧
      Probed.Wf WeakEntry.referent p.pointer (t.replace i { e with referrers := r }) ∧
      ∀ o l, Refs (t.replace i { e with referrers := r }) o l ↔
        if o = e.referent then l ∈ r.toList else Refs t o l := by
  obtain ⟨entries', rest, perm, perm'⟩ := Probed.replace_spec
    (b := { e with referrers := r }) entries full rfl
  obtain ⟨others, refs⟩ := refs_iff_of_perm entries perm
  obtain ⟨-, refs'⟩ := refs_iff_of_perm entries' perm'
  refine ⟨⟨.inr entries', fun f there => ?_⟩, entries', fun o l => ?_⟩
  · cases List.mem_cons.mp (perm'.mem_iff.mp there) with
    | inl here => exact here ▸ wf_r
    | inr there => exact wf.referrers f (perm.mem_iff.mpr (List.mem_cons_of_mem e there))
  · rw [refs', refs]
    split_ifs with same
    · subst same
      have none_other : ¬∃ f ∈ rest, f.referent = e.referent ∧ l ∈ f.referrers.toList :=
        fun ⟨f, there, same, _⟩ => others f there same
      simp [none_other]
    · simp [same]

omit [DecidableEq Obj] [DecidableEq Loc] in
theorem refs_own (entries : Probed.Wf WeakEntry.referent p.pointer t)
    (full : t.slots[i]? = some (some e)) : Refs t e.referent l ↔ l ∈ e.referrers.toList := by
  obtain ⟨-, rest, perm, -⟩ := Probed.replace_spec (b := e) entries full rfl
  obtain ⟨others, refs⟩ := refs_iff_of_perm entries perm
  have none_other : ¬∃ f ∈ rest, f.referent = e.referent ∧ l ∈ f.referrers.toList :=
    fun ⟨f, there, same, _⟩ => others f there same
  rw [refs]
  simp [none_other]

omit [DecidableEq Obj] [DecidableEq Loc] in
theorem has_replace (entries : Probed.Wf WeakEntry.referent p.pointer t)
    (full : t.slots[i]? = some (some e)) {r : Referrers Loc}
    (has : Has (t.replace i { e with referrers := r }) o) : Has t o := by
  obtain ⟨-, rest, perm, perm'⟩ :=
    Probed.replace_spec (b := { e with referrers := r }) entries full rfl
  obtain ⟨f, there, rfl⟩ := has
  cases List.mem_cons.mp (perm'.mem_iff.mp there) with
  | inl here => exact ⟨e, Probed.mem_contents_iff.mpr ⟨i, full⟩, here ▸ rfl⟩
  | inr there => exact ⟨f, perm.mem_iff.mpr (List.mem_cons_of_mem e there), rfl⟩

omit [DecidableEq Obj] [DecidableEq Loc] in
/-- A table which is not full has room for one more entry, and growing one that is full
    makes that. -/
theorem growMaybe_spec (wf : Wf p t) :
    ∃ u, growMaybe p t = some u ∧ Probed.Wf WeakEntry.referent p.pointer u ∧
      u.contents.Perm t.contents ∧ u.count + 1 < u.size := by
  unfold growMaybe
  cases wf.entries with
  | inl none_yet =>
      obtain ⟨nil, zero⟩ := none_yet
      have size : t.size = 0 := by simp [Probed.size, nil]
      rw [if_pos (by omega), if_pos size]
      refine ⟨Probed.empty 64, ?_, Probed.wf_empty (by decide), ?_, ?_⟩
      · simp [resize, Probed.refill, contents_nil nil]
      · simp [Probed.contents_empty, contents_nil nil]
      · rw [Probed.size_empty]
        change 0 + 1 < 64
        decide
  | inr entries =>
      have room := entries.room
      have le : t.count ≤ t.size := by
        rw [entries.count_eq]
        exact List.length_filterMap_le _ _
      split_ifs with full
      · omega
      · obtain ⟨u, grown, wfu, perm, size⟩ := Probed.refill_spec (t.size * 2) entries
          (by omega) (by omega)
        exact ⟨u, grown, wfu, perm, by rw [wfu.count_eq, perm.length_eq, ← entries.count_eq]; omega⟩
      · exact ⟨t, rfl, entries, List.Perm.refl _, by omega⟩

omit [DecidableEq Obj] [DecidableEq Loc] in
theorem entryRemove_spec (wf : Wf p t) (entries : Probed.Wf WeakEntry.referent p.pointer t)
    (full : t.slots[i]? = some (some e)) :
    ∃ u, entryRemove p t i = some u ∧ Wf p u ∧ (∀ o, Has u o → Has t o) ∧
      ∀ o l, Refs u o l ↔ o ≠ e.referent ∧ Refs t o l := by
  obtain ⟨removed, perm⟩ := Probed.remove_spec entries full
  have compacted : ∃ u, entryRemove p t i = some u ∧ Probed.Wf WeakEntry.referent p.pointer u ∧
      u.contents.Perm (t.remove i).contents := by
    unfold entryRemove compactMaybe
    split_ifs with sparse
    · obtain ⟨u, shrunk, wfu, permu, -⟩ := Probed.refill_spec ((t.remove i).size / 8) removed
        (by omega) (by omega)
      exact ⟨u, shrunk, wfu, permu⟩
    · exact ⟨_, rfl, removed, List.Perm.refl _⟩
  obtain ⟨u, result, wfu, permu⟩ := compacted
  obtain ⟨others, refs⟩ := refs_iff_of_perm entries perm
  have kept : ∀ f ∈ u.contents, f ∈ t.contents := fun f there =>
    perm.mem_iff.mpr (List.mem_cons_of_mem e (permu.mem_iff.mp there))
  refine ⟨u, result, ⟨.inr wfu, fun f there => wf.referrers f (kept f there)⟩,
    fun o ⟨f, there, same⟩ => ⟨f, kept f there, same⟩, fun o l => ?_⟩
  rw [refs_congr permu, refs]
  constructor
  · intro registered
    obtain ⟨f, there, rfl, member⟩ := registered
    exact ⟨others f there, .inr ⟨f, there, rfl, member⟩⟩
  · intro both
    cases both.2 with
    | inl here => exact absurd here.1 both.1
    | inr registered => exact registered

omit [DecidableEq Loc] in
/-- Registering a new variable of an object. -/
theorem register_spec (wf : Wf p t) (fresh : ¬Refs t o l) :
    ∃ u, register p t o l = some u ∧ Wf p u ∧ (∀ o', Has u o' → o' = o ∨ Has t o') ∧
      ∀ o' l', Refs u o' l' ↔ (o' = o ∧ l' = l) ∨ Refs t o' l' := by
  have lookup := entryForReferent_spec wf o
  unfold register
  cases found : entryForReferent p t o with
  | lost => simp [found] at lookup
  | found i =>
      rw [found] at lookup
      obtain ⟨entries, e, full, rfl⟩ := lookup
      have there := Probed.mem_contents_iff.mpr ⟨i, full⟩
      obtain ⟨r, appended, wf_r, perm⟩ := Referrers.append_spec 0 (wf.referrers e there)
        fun known => fresh ⟨e, there, rfl, known⟩
      obtain ⟨wfu, -, refs⟩ := replace_spec wf entries full wf_r
      refine ⟨t.replace i { e with referrers := r }, by simp [full, appended], wfu,
        fun o' has => .inr (has_replace entries full has), fun o' l' => ?_⟩
      rw [refs]
      split_ifs with same
      · subst same
        rw [refs_own entries full, perm.mem_iff, List.mem_cons]
        simp
      · simp [same]
  | absent =>
      rw [found] at lookup
      obtain ⟨v, grown, wfv, permv, room⟩ := growMaybe_spec wf
      obtain ⟨u, inserted, wfu, permu, -⟩ := Probed.insert_spec
        (a := (⟨o, .inlined [some l, none, none, none]⟩ : WeakEntry Obj Loc)) wfv (fun there => by
          obtain ⟨e, member, same⟩ := List.mem_map.mp there
          exact lookup e (permv.mem_iff.mp member) same) room
      have perm := permu.trans (permv.cons _)
      refine ⟨u, by simp [grown, entryInsert, inserted], ⟨.inr wfu, fun e there => ?_⟩,
        fun o' ⟨e, there, same⟩ => ?_, fun o' l' => ?_⟩
      · cases List.mem_cons.mp (perm.mem_iff.mp there) with
        | inl new => exact new ▸ ⟨rfl, by simp⟩
        | inr old => exact wf.referrers e old
      · cases List.mem_cons.mp (perm.mem_iff.mp there) with
        | inl new => exact .inl (same.symm.trans (new ▸ rfl))
        | inr old => exact .inr ⟨e, old, same⟩
      · simp only [Refs, perm.mem_iff, List.exists_mem_cons_iff]
        simp [Referrers.toList, eq_comm]

/-- Unregistering a variable which is registered for the object. -/
theorem unregister_spec (wf : Wf p t) (registered : Refs t o l) :
    ∃ u, unregister p t o l = some (u, []) ∧ Wf p u ∧ (∀ o', Has u o' → Has t o') ∧
      ∀ o' l', Refs u o' l' ↔ Refs t o' l' ∧ ¬(o' = o ∧ l' = l) := by
  have lookup := entryForReferent_spec wf o
  unfold unregister
  cases found : entryForReferent p t o with
  | lost => simp [found] at lookup
  | absent =>
      rw [found] at lookup
      obtain ⟨e, there, same, -⟩ := registered
      exact absurd same (lookup e there)
  | found i =>
      rw [found] at lookup
      obtain ⟨entries, e, full, rfl⟩ := lookup
      have there := Probed.mem_contents_iff.mpr ⟨i, full⟩
      have own : ∀ l', Refs t e.referent l' ↔ l' ∈ e.referrers.toList := fun _ =>
        refs_own entries full
      obtain ⟨r, removed, wf_r, perm⟩ := Referrers.remove_spec (wf.referrers e there)
        ((own l).mp registered)
      obtain ⟨wfv, entries_v, refs⟩ := replace_spec wf entries full wf_r
      have without : ∀ l', l' ∈ r.toList ↔ l' ∈ e.referrers.toList ∧ l' ≠ l := fun l' => by
        have nodup := Referrers.nodup_toList (wf.referrers e there)
        rw [perm.nodup_iff, List.nodup_cons] at nodup
        rw [perm.mem_iff, List.mem_cons]
        constructor
        · intro member
          exact ⟨.inr member, fun same => nodup.1 (same ▸ member)⟩
        · intro both
          exact both.1.resolve_left both.2
      have refs_v : ∀ o' l', Refs (t.replace i { e with referrers := r }) o' l' ↔
          Refs t o' l' ∧ ¬(o' = e.referent ∧ l' = l) := by
        intro o' l'
        rw [refs]
        split_ifs with same
        · subst same
          rw [without, own]
          simp
        · simp [same]
      cases empty : r.isEmpty with
      | false =>
          exact ⟨t.replace i { e with referrers := r }, by simp [full, removed, empty], wfv,
            fun o' => has_replace entries full, refs_v⟩
      | true =>
          have bucket : (t.replace i { e with referrers := r }).slots[i]? =
              some (some { e with referrers := r }) := by
            obtain ⟨within, -⟩ := List.getElem?_eq_some_iff.mp full
            simp [Probed.replace, within]
          obtain ⟨u, result, wfu, has_u, refs_u⟩ := entryRemove_spec wfv entries_v bucket
          refine ⟨u, by simp [full, removed, empty, result], wfu,
            fun o' has => has_replace entries full (has_u o' has), fun o' l' => ?_⟩
          rw [refs_u, refs_v]
          constructor
          · exact fun both => both.2
          · intro both
            refine ⟨fun same => ?_, both⟩
            subst same
            have member := (without l').mpr ⟨(own l').mp both.1, fun same => both.2 ⟨rfl, same⟩⟩
            rw [Referrers.toList_of_isEmpty empty] at member
            contradiction

omit [DecidableEq Loc] in
/-- An object without an entry has nothing to unregister or to clear. -/
theorem entryForReferent_of_not_has (wf : Wf p t) (missing : ¬Has t o) :
    entryForReferent p t o = .absent := by
  have lookup := entryForReferent_spec wf o
  cases found : entryForReferent p t o with
  | lost => simp [found] at lookup
  | absent => rfl
  | found i =>
      rw [found] at lookup
      obtain ⟨-, e, full, same⟩ := lookup
      exact absurd ⟨e, Probed.mem_contents_iff.mpr ⟨i, full⟩, same⟩ missing

theorem unregister_of_not_has (wf : Wf p t) (missing : ¬Has t o) :
    unregister p t o l = some (t, []) := by
  simp [unregister, entryForReferent_of_not_has wf missing]

omit [DecidableEq Loc] in
/-- Clearing gives the variables that are registered for the object. -/
theorem clear_spec (wf : Wf p t) (o : Obj) :
    ∃ u ls, clear p t o = some (u, ls) ∧ (∀ l, l ∈ ls ↔ Refs t o l) ∧ ls.Nodup ∧ Wf p u ∧
      (∀ o', Has u o' → Has t o') ∧ ∀ o' l', Refs u o' l' ↔ o' ≠ o ∧ Refs t o' l' := by
  have lookup := entryForReferent_spec wf o
  unfold clear
  cases found : entryForReferent p t o with
  | lost => simp [found] at lookup
  | absent =>
      rw [found] at lookup
      have none_registered : ∀ l, ¬Refs t o l := fun l ⟨e, there, same, _⟩ => lookup e there same
      refine ⟨t, [], rfl, by simp [none_registered], List.nodup_nil, wf, fun _ => id,
        fun o' l' => ?_⟩
      constructor
      · intro registered
        refine ⟨fun same => none_registered l' (same ▸ registered), registered⟩
      · exact fun both => both.2
  | found i =>
      rw [found] at lookup
      obtain ⟨entries, e, full, rfl⟩ := lookup
      have there := Probed.mem_contents_iff.mpr ⟨i, full⟩
      obtain ⟨u, result, wfu, has_u, refs_u⟩ := entryRemove_spec wf entries full
      exact ⟨u, e.referrers.toList, by simp [full, result], fun l => (refs_own entries full).symm,
        Referrers.nodup_toList (wf.referrers e there), wfu, has_u, refs_u⟩

end Lemmas

end WeakTable

end LearningProjects.ObjC
