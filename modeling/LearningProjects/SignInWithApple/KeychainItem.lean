import LearningProjects.Machine
import Mathlib.Tactic.Common

/-! # Keychain items as a map

A `KeychainItem` names generic passwords by service, account and access group. The
access group may be absent, and then its queries match the items of every group:
they read any of them, update or delete all of them, and add to the app's default
group. So items are kept apart by their keys only where the keys cannot match the
same item.
-/

namespace LearningProjects.SignInWithApple

inductive KeychainError where
  | noPassword
  | unexpectedPasswordData
  | unexpectedItemData
  | unhandledError
  deriving DecidableEq, Repr

abbrev OSStatus := Int32

def noErr : OSStatus := 0

def errSecItemNotFound : OSStatus := -25300

def errSecDuplicateItem : OSStatus := -25299

/-- A generic password in the keychain. -/
structure Item where
  service : String
  account : String
  accessGroup : String
  data : ByteArray

/-- The attributes of a query. -/
structure Query where
  service : String
  account : Option String
  accessGroup : Option String
  deriving DecidableEq, Repr

def Query.finds (query : Query) (item : Item) : Bool :=
  item.service == query.service && query.account.all (· == item.account) &&
    query.accessGroup.all (· == item.accessGroup)

/-! ## The keychain services -/

/-- A status that says neither that a call was fine nor that nothing was found. -/
abbrev Fault := { status : OSStatus // status ≠ noErr ∧ status ≠ errSecItemNotFound }

/-- What the system adds to one call: a failure of its own, or which of the matching
    items to return. -/
structure Call where
  fault : Option Fault
  pick : Nat

def SecItemCopyMatching (call : Call) (query : Query) (items : List Item) :
    OSStatus × Option Item :=
  match call.fault with
  | some fault => (fault, none)
  | none =>
      let found := items.filter query.finds
      match found[call.pick % found.length]? with
      | some item => (noErr, some item)
      | none => (errSecItemNotFound, none)

def SecItemUpdate (call : Call) (query : Query) (data : ByteArray) (items : List Item) :
    OSStatus × List Item :=
  match call.fault with
  | some fault => (fault, items)
  | none =>
      if items.any query.finds then
        (noErr, items.map fun item => if query.finds item then { item with data := data } else item)
      else (errSecItemNotFound, items)

def SecItemAdd (call : Call) (defaultGroup : String) (newItem : Query) (data : ByteArray)
    (items : List Item) : OSStatus × List Item :=
  match call.fault with
  | some fault => (fault, items)
  | none =>
      let item : Item := ⟨newItem.service, newItem.account.getD "",
        newItem.accessGroup.getD defaultGroup, data⟩
      let primary : Query := ⟨item.service, some item.account, some item.accessGroup⟩
      if items.any primary.finds then (errSecDuplicateItem, items)
      else (noErr, items ++ [item])

def SecItemDelete (call : Call) (query : Query) (items : List Item) : OSStatus × List Item :=
  match call.fault with
  | some fault => (fault, items)
  | none =>
      if items.any query.finds then (noErr, items.filter fun item => !query.finds item)
      else (errSecItemNotFound, items)

/-! ## `KeychainItem` -/

structure KeychainItem where
  service : String
  account : String
  accessGroup : Option String
  deriving DecidableEq, Repr

namespace KeychainItem

def keychainQuery (service : String) (account accessGroup : Option String) : Query :=
  ⟨service, account, accessGroup⟩

def query (key : KeychainItem) : Query :=
  keychainQuery key.service (some key.account) key.accessGroup

def readItem (key : KeychainItem) (call : Call) (items : List Item) :
    Except KeychainError String :=
  let (status, queryResult) := SecItemCopyMatching call key.query items
  if status = errSecItemNotFound then .error .noPassword
  else if status ≠ noErr then .error .unhandledError
  else
    match queryResult.bind fun existingItem => String.fromUTF8? existingItem.data with
    | some password => .ok password
    | none => .error .unexpectedPasswordData

/-- `guard status == noErr`, with the keychain that the call left. -/
def guardStatus (result : OSStatus × List Item) : Except KeychainError Unit × List Item :=
  if result.1 = noErr then (.ok (), result.2) else (.error .unhandledError, result.2)

/-- Makes two calls: `copy` is for the one of `readItem`. -/
def saveItem (key : KeychainItem) (password : String) (defaultGroup : String) (copy write : Call)
    (items : List Item) : Except KeychainError Unit × List Item :=
  let encodedPassword := password.toUTF8
  match key.readItem copy items with
  | .ok _ => guardStatus (SecItemUpdate write key.query encodedPassword items)
  | .error .noPassword =>
      guardStatus (SecItemAdd write defaultGroup key.query encodedPassword items)
  | .error error => (.error error, items)

def deleteItem (key : KeychainItem) (call : Call) (items : List Item) :
    Except KeychainError Unit × List Item :=
  let (status, items) := SecItemDelete call key.query items
  if status = noErr ∨ status = errSecItemNotFound then (.ok (), items)
  else (.error .unhandledError, items)

/-- Two keys that can match the same item. -/
def overlaps (key other : KeychainItem) : Prop :=
  key.service = other.service ∧ key.account = other.account ∧
    (key.accessGroup = none ∨ other.accessGroup = none ∨ key.accessGroup = other.accessGroup)

instance (key other : KeychainItem) : Decidable (key.overlaps other) :=
  inferInstanceAs (Decidable (_ ∧ _ ∧ (_ ∨ _ ∨ _)))

/-- The items that a key's query matches. -/
def held (key : KeychainItem) (items : List Item) : List Item := items.filter key.query.finds

end KeychainItem

inductive Operation where
  | saveItem (key : KeychainItem) (password : String) (copy write : Call)
  | deleteItem (key : KeychainItem) (call : Call)
  | readItem (key : KeychainItem) (call : Call)

def Operation.key : Operation → KeychainItem
  | saveItem key _ _ _ | deleteItem key _ | readItem key _ => key

/-- An operation that succeeded in writing: the password saved, none for a deletion. -/
structure Write where
  key : KeychainItem
  password : Option String
  deriving DecidableEq, Repr

structure State where
  items : List Item
  /-- The successful writes so far. -/
  writes : List Write

namespace State

def start : State := ⟨[], []⟩

def perform (defaultGroup : String) (s : State) : Operation → State
  | .saveItem key password copy write =>
      match key.saveItem password defaultGroup copy write s.items with
      | (.ok (), items) => ⟨items, s.writes ++ [⟨key, some password⟩]⟩
      | (.error _, items) => { s with items := items }
  | .deleteItem key call =>
      match key.deleteItem call s.items with
      | (.ok (), items) => ⟨items, s.writes ++ [⟨key, none⟩]⟩
      | (.error _, items) => { s with items := items }
  | .readItem _ _ => s

end State

/-- Every operation is possible in every state. -/
def machine (defaultGroup : String) : Machine State Operation where
  step s operation := some (s.perform defaultGroup operation)

/-! ## The map -/

/-- The last write on a key that overlaps the given one. -/
def lastWrite (key : KeychainItem) (writes : List Write) : Option Write :=
  (writes.filter fun write => write.key.overlaps key).getLast?

/-- What a map answers for a key. -/
def answer : Option String → Except KeychainError String
  | some password => .ok password
  | none => .error .noPassword

/-- A key reads as the map has it unless an overlapping key was written last, and an
    operation does not change what a key reads that does not overlap its own. -/
structure IsMap (defaultGroup : String) (s : State) : Prop where
  unwritten : ∀ key, lastWrite key s.writes = none → ∀ call, call.fault = none →
    key.readItem call s.items = .error .noPassword
  written : ∀ key write, lastWrite key s.writes = some write → write.key = key →
    ∀ call, call.fault = none → key.readItem call s.items = answer write.password
  frame : ∀ (operation : Operation) (key : KeychainItem), ¬operation.key.overlaps key →
    ∀ call, key.readItem call (s.perform defaultGroup operation).items =
      key.readItem call s.items

/-- The items of a key have the data of this password, or there are none. -/
def Holds (password : Option String) (held : List Item) : Prop :=
  match password with
  | some password => held ≠ [] ∧ ∀ item ∈ held, item.data = password.toUTF8
  | none => held = []

theorem fromUTF8?_toUTF8 (s : String) : String.fromUTF8? s.toUTF8 = some s := by
  unfold String.fromUTF8?
  exact dif_pos s.isValidUTF8

namespace KeychainItem

variable {key other : KeychainItem} {items : List Item} {item : Item}

theorem finds_iff : key.query.finds item ↔ item.service = key.service ∧
    key.account = item.account ∧ ∀ group, key.accessGroup = some group →
      group = item.accessGroup := by
  cases named : key.accessGroup <;> simp [query, keychainQuery, Query.finds, and_assoc, named]

theorem overlaps_of_finds (own : key.query.finds item) (others : other.query.finds item) :
    key.overlaps other := by
  obtain ⟨service, account, group⟩ := finds_iff.mp own
  obtain ⟨service', account', group'⟩ := finds_iff.mp others
  refine ⟨service.symm.trans service', account.trans account'.symm, ?_⟩
  cases named : key.accessGroup with
  | none => exact .inl rfl
  | some g =>
      cases named' : other.accessGroup with
      | none => exact .inr (.inl rfl)
      | some g' => exact .inr (.inr (by rw [group g named, group' g' named']))

/-- Reading sees the items of the key and nothing else. -/
theorem readItem_congr {items' : List Item} (same : key.held items' = key.held items)
    (call : Call) :
    key.readItem call items' = key.readItem call items := by
  have copied : SecItemCopyMatching call key.query items' =
      SecItemCopyMatching call key.query items := by
    unfold held at same
    simp only [SecItemCopyMatching, same]
  rw [readItem, readItem, copied]

theorem readItem_of_holds {password : Option String} (holds : Holds password (key.held items))
    {call : Call} (works : call.fault = none) : key.readItem call items = answer password := by
  cases password with
  | none =>
      have nothing : items.filter key.query.finds = [] := holds
      simp [readItem, SecItemCopyMatching, works, nothing, answer]
  | some password =>
      obtain ⟨nonempty, data⟩ := holds
      have inRange := Nat.mod_lt call.pick (List.length_pos_of_ne_nil nonempty)
      have read := data _ (List.getElem_mem inRange)
      have found := List.getElem?_eq_getElem inRange
      unfold held at read found
      simp only [readItem, SecItemCopyMatching, works, found, Option.bind_some, read,
        fromUTF8?_toUTF8]
      rfl

end KeychainItem

/-- What a successful write of a key does. -/
structure Wrote (key : KeychainItem) (password : Option String) (items items' : List Item) :
    Prop where
  holds : Holds password (key.held items')
  frame : ∀ other : KeychainItem, ¬key.overlaps other → other.held items' = other.held items

namespace KeychainItem

variable {key : KeychainItem} {items : List Item}

/-- The data is not among the attributes that a query matches. -/
theorem held_update (other : KeychainItem) (data : ByteArray) :
    other.held (items.map fun item =>
        if key.query.finds item then { item with data := data } else item) =
      (other.held items).map fun item =>
        if key.query.finds item then { item with data := data } else item := by
  unfold held
  rw [List.filter_map]
  congr 1
  apply List.filter_congr
  intro item _
  simp only [Function.comp_apply]
  split <;> rfl

theorem wrote_update (password : String) (found : items.any key.query.finds) :
    Wrote key (some password) items (items.map fun item =>
      if key.query.finds item then { item with data := password.toUTF8 } else item) where
  holds := by
    rw [held_update]
    constructor
    · obtain ⟨item, member, finds⟩ := List.any_eq_true.mp found
      exact List.ne_nil_of_mem (List.mem_map_of_mem (List.mem_filter.mpr ⟨member, finds⟩))
    · intro item member
      obtain ⟨before, held, rfl⟩ := List.mem_map.mp member
      rw [if_pos (List.mem_filter.mp held).2]
  frame other apart := by
    rw [held_update]
    have untouched : ∀ item ∈ other.held items,
        (if key.query.finds item then { item with data := password.toUTF8 } else item) = item := by
      intro item held
      exact if_neg fun own => apart (overlaps_of_finds own (List.mem_filter.mp held).2)
    rw [List.map_congr_left untouched, List.map_id']

theorem wrote_add (password : String) (item : Item) (own : key.query.finds item)
    (data : item.data = password.toUTF8) (nothing : key.held items = []) :
    Wrote key (some password) items (items ++ [item]) where
  holds := by
    have added : key.held (items ++ [item]) = [item] := by
      rw [held, List.filter_append, ← held, nothing]
      simp [own]
    rw [added]
    exact ⟨nofun, fun other member => List.mem_singleton.mp member ▸ data⟩
  frame other apart := by
    have unseen : ¬other.query.finds item := fun finds => apart (overlaps_of_finds own finds)
    rw [held, held, List.filter_append]
    simp [unseen]

theorem wrote_delete (key : KeychainItem) (items : List Item) :
    Wrote key none items (items.filter fun item => !key.query.finds item) where
  holds := by
    simp [Holds, held, List.filter_filter]
  frame other apart := by
    rw [held, held, List.filter_filter]
    apply List.filter_congr
    intro item _
    by_cases finds : other.query.finds item
    · have unseen : ¬key.query.finds item := fun own => apart (overlaps_of_finds own finds)
      simp [finds, unseen]
    · simp [finds]

theorem readItem_noPassword {call : Call} (h : key.readItem call items = .error .noPassword) :
    key.held items = [] := by
  by_contra some_
  have inRange := Nat.mod_lt call.pick (List.length_pos_of_ne_nil some_)
  have found := List.getElem?_eq_getElem inRange
  unfold held at found
  cases faulty : call.fault with
  | some fault => simp [readItem, SecItemCopyMatching, faulty, fault.2] at h
  | none =>
      simp only [readItem, SecItemCopyMatching, faulty, found] at h
      split at h
      · rename_i absent
        simp [noErr, errSecItemNotFound] at absent
      · simp only [ne_eq, not_true_eq_false, if_false] at h
        split at h <;> cases h

/-- Where no item matches the key, the item that it adds is not a duplicate. -/
theorem add_of_held_nil (nothing : key.held items = []) {write : Call} (works : write.fault = none)
    (defaultGroup password : String) :
    ∃ items', SecItemAdd write defaultGroup key.query password.toUTF8 items = (noErr, items') ∧
      Wrote key (some password) items items' := by
  let added : KeychainItem := { key with accessGroup := some (key.accessGroup.getD defaultGroup) }
  have single : ¬items.any added.query.finds := by
    intro duplicate
    obtain ⟨item, member, finds⟩ := List.any_eq_true.mp duplicate
    obtain ⟨service, account, group⟩ := finds_iff.mp finds
    have own : key.query.finds item := by
      refine finds_iff.mpr ⟨service, account, fun g named => ?_⟩
      exact group g (by simp [added, named])
    have matching : item ∈ key.held items := List.mem_filter.mpr ⟨member, own⟩
    exact List.not_mem_nil (nothing ▸ matching)
  refine ⟨_, ?_, wrote_add password ⟨key.service, key.account, key.accessGroup.getD defaultGroup,
    password.toUTF8⟩ ?_ rfl nothing⟩
  · simp only [SecItemAdd, works]
    exact if_neg single
  · exact finds_iff.mpr ⟨rfl, rfl, fun g named => by simp [named]⟩

/-- A save either fails and changes nothing, or writes the password. -/
theorem saveItem_cases (key : KeychainItem) (password defaultGroup : String) (copy write : Call)
    (items : List Item) :
    (∃ error, key.saveItem password defaultGroup copy write items = (.error error, items)) ∨
      ∃ items', key.saveItem password defaultGroup copy write items = (.ok (), items') ∧
        Wrote key (some password) items items' := by
  unfold saveItem
  cases read : key.readItem copy items with
  | ok existing =>
      cases faulty : write.fault with
      | some fault => exact .inl ⟨_, by simp [guardStatus, SecItemUpdate, faulty, fault.2.1]; rfl⟩
      | none =>
          by_cases found : items.any key.query.finds
          · refine .inr ⟨_, by simp only [guardStatus, SecItemUpdate, faulty, found]; rfl, ?_⟩
            exact wrote_update password found
          · refine .inl ⟨.unhandledError, ?_⟩
            simp [guardStatus, SecItemUpdate, faulty, found, errSecItemNotFound, noErr]
  | error error =>
      cases error with
      | noPassword =>
          cases faulty : write.fault with
          | some fault => exact .inl ⟨_, by simp [guardStatus, SecItemAdd, faulty, fault.2.1]; rfl⟩
          | none =>
              obtain ⟨items', added, wrote⟩ :=
                add_of_held_nil (readItem_noPassword read) faulty defaultGroup password
              exact .inr ⟨items', by simp only [guardStatus, added]; rfl, wrote⟩
      | unexpectedPasswordData | unexpectedItemData | unhandledError => exact .inl ⟨_, rfl⟩

theorem deleteItem_cases (key : KeychainItem) (call : Call) (items : List Item) :
    (∃ error, key.deleteItem call items = (.error error, items)) ∨
      ∃ items', key.deleteItem call items = (.ok (), items') ∧ Wrote key none items items' := by
  unfold deleteItem
  cases faulty : call.fault with
  | some fault => exact .inl ⟨.unhandledError, by simp [SecItemDelete, faulty, fault.2]⟩
  | none =>
      by_cases found : items.any key.query.finds
      · refine .inr ⟨_, ?_, wrote_delete key items⟩
        simp only [SecItemDelete, faulty, found]
        rfl
      · refine .inr ⟨items, by simp [SecItemDelete, faulty, found], ?_, fun _ _ => rfl⟩
        simpa [Holds, held, List.filter_eq_nil_iff] using found

end KeychainItem

theorem lastWrite_concat (key : KeychainItem) (writes : List Write) (write : Write) :
    lastWrite key (writes ++ [write]) =
      if write.key.overlaps key then some write else lastWrite key writes := by
  unfold lastWrite
  rw [getLast?_filter_concat]
  simp only [decide_eq_true_eq]

/-- What a key holds, as far as the writes tell. -/
def Inv (s : State) : Prop :=
  ∀ key, match lastWrite key s.writes with
    | none => key.held s.items = []
    | some write => write.key = key → Holds write.password (key.held s.items)

theorem Inv.start : Inv State.start := fun _ => rfl

theorem Inv.wrote {s : State} (h : Inv s) {key : KeychainItem} {password : Option String}
    {items : List Item} (wrote : Wrote key password s.items items) :
    Inv ⟨items, s.writes ++ [⟨key, password⟩]⟩ := by
  intro other
  rw [lastWrite_concat]
  by_cases same : key.overlaps other
  · simp only [same, if_true]
    rintro rfl
    exact wrote.holds
  · simp only [same, if_false, wrote.frame other same]
    exact h other

/-- An operation writes its key or changes nothing. -/
theorem State.perform_cases (defaultGroup : String) (s : State) (operation : Operation) :
    s.perform defaultGroup operation = s ∨
      ∃ password items, Wrote operation.key password s.items items ∧
        s.perform defaultGroup operation = ⟨items, s.writes ++ [⟨operation.key, password⟩]⟩ := by
  cases operation with
  | saveItem key password copy write =>
      cases key.saveItem_cases password defaultGroup copy write s.items with
      | inl failed =>
          obtain ⟨error, saved⟩ := failed
          exact .inl (by simp only [State.perform, saved])
      | inr done =>
          obtain ⟨items, saved, wrote⟩ := done
          exact .inr ⟨some password, items, wrote,
            by simp only [State.perform, saved, Operation.key]⟩
  | deleteItem key call =>
      cases key.deleteItem_cases call s.items with
      | inl failed =>
          obtain ⟨error, deleted⟩ := failed
          exact .inl (by simp only [State.perform, deleted])
      | inr done =>
          obtain ⟨items, deleted, wrote⟩ := done
          exact .inr ⟨none, items, wrote, by simp only [State.perform, deleted, Operation.key]⟩
  | readItem key call => exact .inl rfl

theorem Inv.isMap {s : State} (h : Inv s) (defaultGroup : String) : IsMap defaultGroup s where
  unwritten key fresh call works := by
    have holds := h key
    rw [fresh] at holds
    have empty : Holds none (key.held s.items) := holds
    exact KeychainItem.readItem_of_holds empty works
  written key write last own call works := by
    have holds := h key
    rw [last] at holds
    exact KeychainItem.readItem_of_holds (holds own) works
  frame operation key apart call := by
    cases s.perform_cases defaultGroup operation with
    | inl same => rw [same]
    | inr written =>
        obtain ⟨password, items, wrote, performed⟩ := written
        rw [performed]
        exact KeychainItem.readItem_congr (wrote.frame key apart) call

/-- After any operations on an empty keychain. -/
theorem isMap_of_reachable {defaultGroup : String} {s : State}
    (h : (machine defaultGroup).Reachable State.start s) : IsMap defaultGroup s := by
  refine Inv.isMap (h.invariant ?_ Inv.start) defaultGroup
  intro s operation t inv stepped
  obtain rfl := Option.some.inj stepped
  cases s.perform_cases defaultGroup operation with
  | inl same => exact same.symm ▸ inv
  | inr written =>
      obtain ⟨password, items, wrote, performed⟩ := written
      exact performed.symm ▸ inv.wrote wrote

/-- The key without a group deletes what was saved for the group, and is saved itself. -/
theorem isMap_overlapping :
    let key : KeychainItem := ⟨"app", "user", some "group"⟩
    let other : KeychainItem := ⟨"app", "user", none⟩
    let operations : List Operation := [.saveItem key "secret" ⟨none, 0⟩ ⟨none, 0⟩,
      .deleteItem other ⟨none, 0⟩, .saveItem other "changed" ⟨none, 0⟩ ⟨none, 0⟩]
    ∃ s, (machine "default").run State.start operations = some s ∧ key.overlaps other ∧
      s.writes = [⟨key, some "secret"⟩, ⟨other, none⟩, ⟨other, some "changed"⟩] ∧
      IsMap "default" s := by
  intro key other operations
  exact ⟨_, rfl, by decide, rfl, isMap_of_reachable ⟨operations, rfl⟩⟩

/-- A key without an access group was never saved, and reads what was saved for a
    group. -/
theorem other_group_read :
    let key : KeychainItem := ⟨"app", "user", none⟩
    let s := State.start.perform "default"
      (.saveItem ⟨"app", "user", some "group"⟩ "secret" ⟨none, 0⟩ ⟨none, 0⟩)
    (∀ write ∈ s.writes, write.key ≠ key) ∧
      key.readItem ⟨none, 0⟩ State.start.items = .error .noPassword ∧
      key.readItem ⟨none, 0⟩ s.items = .ok "secret" := by
  intro key s
  have writes : s.writes = [⟨⟨"app", "user", some "group"⟩, some "secret"⟩] := rfl
  have items : s.items = [⟨"app", "user", "group", "secret".toUTF8⟩] := rfl
  have holds : Holds (some "secret") (key.held s.items) := by
    rw [items]
    exact ⟨nofun, fun item member => by rw [List.mem_singleton.mp member]⟩
  refine ⟨?_, rfl, KeychainItem.readItem_of_holds holds rfl⟩
  intro write member
  rw [writes] at member
  obtain rfl := List.mem_singleton.mp member
  decide

end LearningProjects.SignInWithApple
