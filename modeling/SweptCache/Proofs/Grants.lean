import SweptCache.Proofs.Withdrawals

/-!
# Who is given which entry

The grants of a history are its submissions that were not refused, with the
entries that they were given. Every entry that is given away is given away as new
exactly once, before it is found by others, and an entry for a search that does
not use the cache is given to nobody else. While no entry of a key is withdrawn,
all submissions of that key are given one entry.
-/

namespace SweptCache

/-- A list in which every two items are related, with one more that all are related to. -/
theorem pairwise_concat {α : Type} {related : α → α → Prop} {items : List α} {last : α}
    (before : items.Pairwise related) (apart : ∀ item ∈ items, related item last) :
    (items ++ [last]).Pairwise related := by
  refine List.pairwise_append.mpr ⟨before, List.pairwise_singleton _ _, ?_⟩
  intro item member other isLast
  rw [List.mem_singleton] at isLast
  exact isLast ▸ apart item member

namespace Store

/-- What an event grants: a search with the entry that it is given. -/
def grant? (store : Store) : StoreEvent → Option (Search × Submitted)
  | .submit search =>
    match (store.submit search).1 with
    | .ok submitted => some (search, submitted)
    | .error _ => none
  | _ => none

/-- What the events of a history grant, one after the other. -/
def grants (store : Store) : List StoreEvent → List (Search × Submitted)
  | [] => []
  | event :: rest => (store.grant? event).toList ++ (store.after event).grants rest

variable {store : Store}

theorem grants_append (store : Store) (earlier later : List StoreEvent) :
    store.grants (earlier ++ later) =
      store.grants earlier ++ (store.afterAll earlier).grants later := by
  induction earlier generalizing store with
  | nil => rfl
  | cons event rest ih => simp [grants, ih]

/-- Only a submission that is not refused grants anything. -/
theorem grant?_eq_some_iff {event : StoreEvent} {search : Search} {submitted : Submitted} :
    store.grant? event = some (search, submitted) ↔
      event = .submit search ∧ (store.submit search).1 = .ok submitted := by
  cases event with
  | submit other =>
    simp only [grant?, StoreEvent.submit.injEq]
    cases answer : (store.submit other).1 with
    | error refusal =>
      simp only [reduceCtorEq, false_iff, not_and]
      rintro rfl
      simp [answer]
    | ok granted =>
      simp only [Option.some.injEq, Prod.mk.injEq]
      constructor
      · rintro ⟨rfl, rfl⟩
        exact ⟨rfl, answer⟩
      · rintro ⟨rfl, same⟩
        rw [answer] at same
        exact ⟨rfl, Except.ok.inj same⟩
  | _ => simp [grant?]

/-- What a history grants, a submission in it was answered with. -/
theorem exists_submit_of_mem_grants {history : List StoreEvent} {search : Search}
    {submitted : Submitted} (granted : (search, submitted) ∈ store.grants history) :
    ∃ before rest, history = before ++ .submit search :: rest ∧
      ((store.afterAll before).submit search).1 = .ok submitted := by
  induction history generalizing store with
  | nil => cases granted
  | cons event rest ih =>
    rcases List.mem_append.mp granted with isNow | isLater
    · obtain ⟨rfl, answered⟩ := grant?_eq_some_iff.mp (Option.mem_toList.mp isNow)
      exact ⟨[], rest, rfl, answered⟩
    · obtain ⟨before, others, rfl, answered⟩ := ih isLater
      exact ⟨event :: before, others, rfl, answered⟩

/-- Whether a search uses the cache does not change. -/
theorem usesCache_after (store : Store) (event : StoreEvent) (search : Search) :
    (store.after event).usesCache search = store.usesCache search := by
  simp only [usesCache, (store.after_frame event).1]

theorem usesCache_afterAll (store : Store) (history : List StoreEvent) (search : Search) :
    (store.afterAll history).usesCache search = store.usesCache search := by
  simp only [usesCache, (store.afterAll_frame history).1]

/-- A store with everything that was granted on the way to it. -/
structure Accounts (store : Store) (granted : List (Search × Submitted)) : Prop where
  /-- The entries that were given away are there, for the keys of the searches. -/
  made : ∀ grant ∈ granted, ∃ entry, store.find? grant.2.id = some entry ∧
    entry.key = grant.1.key
  /-- Every registered entry was given to somebody as new. -/
  registered : ∀ id ∈ store.registeredIds, ∃ search, (search, .created id) ∈ granted
  /-- Every entry that was found was given to somebody as new. -/
  found : ∀ search id, (search, .found id) ∈ granted → ∃ other, (other, .created id) ∈ granted
  /-- No entry was given away as new twice. -/
  once : granted.Pairwise fun first second => ∀ id, first.2 = .created id → second.2 ≠ .created id
  /-- The entry of a search that does not use the cache is not registered. -/
  unregistered : ∀ grant ∈ granted, store.usesCache grant.1 = false →
    grant.2.id ∉ store.registeredIds
  /-- A search that does not use the cache shares its entry with no other. -/
  apart : granted.Pairwise fun first second =>
    store.usesCache first.1 = false ∨ store.usesCache second.1 = false → first.2.id ≠ second.2.id

/-- What is registered after an event was so before, or the event granted it as new. -/
theorem WellFormed.registered_cases (wellFormed : store.WellFormed) {event : StoreEvent}
    {id : EntryId} (registered : id ∈ (store.after event).registeredIds) :
    id ∈ store.registeredIds ∨
      ∃ search, store.usesCache search = true ∧
        store.grant? event = some (search, .created id) := by
  obtain ⟨registration, member, rfl⟩ := List.mem_map.mp registered
  rcases (wellFormed.mem_registrations_after_iff event registration).mp member with
    registers | ⟨before, _, _⟩
  · obtain ⟨search, rfl⟩ := isSubmit_of_registers registers
    refine .inr ⟨search, (reusable?_of_registers registers).1, ?_⟩
    simp only [Store.registers] at registers
    split at registers
    next id granted =>
      split at registers
      next =>
        rw [Option.some.injEq] at registers
        rw [grant?_eq_some_iff, ← registers]
        exact ⟨rfl, granted⟩
      next => cases registers
    next => cases registers
    next => cases registers
  · exact .inl (List.mem_map_of_mem before)

/-- A registered entry was so before an event, or the event made it and granted it as new. -/
theorem WellFormed.registered_entry_cases (wellFormed : store.WellFormed) {event : StoreEvent}
    {entry : Entry} (registered : entry ∈ (store.after event).registeredEntries) :
    (∃ before ∈ store.registeredEntries,
      entry = before.afterAll store.clock (store.effects event before)) ∨
      ∃ search, store.usesCache search = true ∧
        store.grant? event = some (search, .created store.nextId) ∧
        entry = .make store.nextId search store.clock := by
  have wellFormedAfter := wellFormed.after event
  obtain ⟨member, registeredId⟩ := wellFormedAfter.mem_registeredEntries_iff.mp registered
  have found := wellFormedAfter.find?_eq_some_iff.mpr ⟨member, rfl⟩
  rcases wellFormed.registered_cases registeredId with registeredBefore | ⟨search, uses, isNew⟩
  · obtain ⟨before, foundBefore⟩ := wellFormed.find?_of_registered registeredBefore
    obtain ⟨memberBefore, sameId⟩ := wellFormed.find?_eq_some_iff.mp foundBefore
    have becomes := wellFormed.find?_after foundBefore event
    rw [found, Option.some.injEq] at becomes
    exact .inl ⟨before, wellFormed.mem_registeredEntries_iff.mpr
      ⟨memberBefore, sameId ▸ registeredBefore⟩, becomes⟩
  · obtain ⟨rfl, answered⟩ := grant?_eq_some_iff.mp isNew
    rcases wellFormed.submit_granted answered with ⟨_, isFound, _⟩ | ⟨isCreated, _, foundNew⟩
    · cases isFound
    · injection isCreated with isNext
      rw [isNext, foundNew, Option.some.injEq] at found
      exact .inr ⟨search, uses, by rw [isNew, isNext], found.symm⟩

/-- The entries that were given away remain, whatever happens. -/
theorem Accounts.made_after {granted : List (Search × Submitted)}
    (accounts : store.Accounts granted) (wellFormed : store.WellFormed) (event : StoreEvent) :
    ∀ grant ∈ granted, ∃ entry, (store.after event).find? grant.2.id = some entry ∧
      entry.key = grant.1.key := by
  intro grant member
  obtain ⟨entry, found, sameKey⟩ := accounts.made grant member
  exact ⟨_, wellFormed.find?_after found event, (Entry.key_afterAll ..).trans sameKey⟩

/-- The entry of a search that does not use the cache is not registered later either. -/
theorem Accounts.unregistered_after {granted : List (Search × Submitted)}
    (accounts : store.Accounts granted) (wellFormed : store.WellFormed) (event : StoreEvent) :
    ∀ grant ∈ granted, (store.after event).usesCache grant.1 = false →
      grant.2.id ∉ (store.after event).registeredIds := by
  intro grant member uncached
  obtain ⟨entry, found, _⟩ := accounts.made grant member
  rw [usesCache_after] at uncached
  exact wellFormed.notMem_registeredIds_afterAll found
    (accounts.unregistered grant member uncached) [event]

/-- An entry that was given away has a number that was. -/
theorem Accounts.lt_nextId {granted : List (Search × Submitted)}
    (accounts : store.Accounts granted) (wellFormed : store.WellFormed)
    {grant : Search × Submitted} (member : grant ∈ granted) : grant.2.id < store.nextId := by
  obtain ⟨entry, found, _⟩ := accounts.made grant member
  exact wellFormed.lt_nextId_of_find? found

/-- An event that grants nothing leaves the account as it is. -/
theorem Accounts.after_none {granted : List (Search × Submitted)}
    (accounts : store.Accounts granted) (wellFormed : store.WellFormed) {event : StoreEvent}
    (none : store.grant? event = none) : (store.after event).Accounts granted where
  made := accounts.made_after wellFormed event
  registered := by
    intro id registered
    rcases wellFormed.registered_cases registered with before | ⟨search, _, isNew⟩
    · exact accounts.registered id before
    · simp [none] at isNew
  found := accounts.found
  once := accounts.once
  unregistered := accounts.unregistered_after wellFormed event
  apart := by simpa only [usesCache_after] using accounts.apart

/-- An entry that is found is added to the account. -/
theorem Accounts.after_found {granted : List (Search × Submitted)}
    (accounts : store.Accounts granted) (wellFormed : store.WellFormed) {search : Search}
    {entry : Entry} (reusable : store.reusable? search = some entry)
    (answered : (store.submit search).1 = .ok (.found entry.id)) :
    (store.after (.submit search)).Accounts (granted ++ [(search, .found entry.id)]) := by
  obtain ⟨uses, isRegistered, sameKey, _⟩ := wellFormed.reusable?_eq_some_iff.mp reusable
  have registeredId := (wellFormed.mem_registeredEntries_iff.mp isRegistered).2
  obtain ⟨creator, created⟩ := accounts.registered entry.id registeredId
  constructor
  case made =>
    refine List.forall_mem_append.mpr ⟨accounts.made_after wellFormed _, ?_⟩
    rw [List.forall_mem_singleton]
    exact ⟨_, wellFormed.find?_after (wellFormed.find?_reusable reusable) _,
      (Entry.key_afterAll ..).trans sameKey⟩
  case registered =>
    intro id registered
    rcases wellFormed.registered_cases registered with before | ⟨other, _, isNew⟩
    · obtain ⟨other, member⟩ := accounts.registered id before
      exact ⟨other, List.mem_append_left _ member⟩
    · rw [grant?_eq_some_iff.mpr ⟨rfl, answered⟩] at isNew
      cases isNew
  case found =>
    intro other id member
    rcases List.mem_append.mp member with before | isLast
    · obtain ⟨first, firstMember⟩ := accounts.found other id before
      exact ⟨first, List.mem_append_left _ firstMember⟩
    · rw [List.mem_singleton, Prod.mk.injEq, Submitted.found.injEq] at isLast
      rw [isLast.2]
      exact ⟨creator, List.mem_append_left _ created⟩
  case once =>
    refine pairwise_concat accounts.once fun grant _ id _ again => ?_
    cases again
  case unregistered =>
    refine List.forall_mem_append.mpr ⟨accounts.unregistered_after wellFormed _, ?_⟩
    rw [List.forall_mem_singleton, usesCache_after]
    simp [uses]
  case apart =>
    simp only [usesCache_after]
    refine pairwise_concat accounts.apart fun grant member uncached sameId => ?_
    rcases uncached with first | second
    · exact accounts.unregistered grant member first (sameId ▸ registeredId)
    · simp [uses] at second

/-- A new entry is added to the account. -/
theorem Accounts.after_created {granted : List (Search × Submitted)}
    (accounts : store.Accounts granted) (wellFormed : store.WellFormed) {search : Search}
    (answered : (store.submit search).1 = .ok (.created store.nextId)) :
    (store.after (.submit search)).Accounts (granted ++ [(search, .created store.nextId)]) := by
  have older : ∀ grant ∈ granted, grant.2.id ≠ store.nextId := fun grant member =>
    Nat.ne_of_lt (accounts.lt_nextId wellFormed member)
  have isGrant := grant?_eq_some_iff.mpr ⟨rfl, answered⟩
  constructor
  case made =>
    refine List.forall_mem_append.mpr ⟨accounts.made_after wellFormed _, ?_⟩
    rw [List.forall_mem_singleton]
    rcases wellFormed.submit_granted answered with ⟨_, isFound, _⟩ | ⟨_, _, found⟩
    · cases isFound
    · exact ⟨_, found, rfl⟩
  case registered =>
    intro id registered
    rcases wellFormed.registered_cases registered with before | ⟨other, _, isNew⟩
    · obtain ⟨other, member⟩ := accounts.registered id before
      exact ⟨other, List.mem_append_left _ member⟩
    · rw [isGrant, Option.some.injEq] at isNew
      exact ⟨other, List.mem_append_right _ (isNew ▸ List.mem_singleton_self _)⟩
  case found =>
    intro other id member
    rcases List.mem_append.mp member with before | isLast
    · obtain ⟨first, firstMember⟩ := accounts.found other id before
      exact ⟨first, List.mem_append_left _ firstMember⟩
    · simp at isLast
  case once =>
    refine pairwise_concat accounts.once fun grant member id isCreated again => ?_
    injection again with again
    exact older grant member (by rw [isCreated, ← again]; rfl)
  case unregistered =>
    refine List.forall_mem_append.mpr ⟨accounts.unregistered_after wellFormed _, ?_⟩
    rw [List.forall_mem_singleton, usesCache_after]
    intro uncached registered
    rcases wellFormed.registered_cases registered with before | ⟨other, uses, isNew⟩
    · exact Nat.lt_irrefl _ (wellFormed.registeredId_lt_nextId before)
    · rw [isGrant, Option.some.injEq, Prod.mk.injEq] at isNew
      simp [isNew.1, uses] at uncached
  case apart =>
    simp only [usesCache_after]
    exact pairwise_concat accounts.apart fun grant member _ => older grant member

/-- A cache in which nothing is registered owes no account. -/
theorem accounts_nil (initially : store.registrations = []) : store.Accounts [] :=
  ⟨by simp, by simp [registeredIds, initially], by simp, .nil, by simp, .nil⟩

/-- What a history grants is added to the account. -/
theorem WellFormed.accounts_afterAll (wellFormed : store.WellFormed)
    {granted : List (Search × Submitted)} (accounts : store.Accounts granted)
    (history : List StoreEvent) :
    (store.afterAll history).Accounts (granted ++ store.grants history) := by
  induction history generalizing store granted with
  | nil => rwa [grants, List.append_nil]
  | cons event rest ih =>
    rw [afterAll_cons, grants, ← List.append_assoc]
    refine ih (wellFormed.after event) ?_
    cases isGrant : store.grant? event with
    | none =>
      rw [Option.toList_none, List.append_nil]
      exact accounts.after_none wellFormed isGrant
    | some grant =>
      obtain ⟨search, submitted⟩ := grant
      obtain ⟨rfl, answered⟩ := grant?_eq_some_iff.mp isGrant
      rcases wellFormed.submit_granted answered with ⟨entry, rfl, reusable⟩ | ⟨rfl, _, _⟩
      · exact accounts.after_found wellFormed reusable answered
      · exact accounts.after_created wellFormed answered

/-- An account does not depend on the order of its grants. -/
theorem Accounts.of_perm {granted other : List (Search × Submitted)}
    (accounts : store.Accounts granted) (perm : granted.Perm other) : store.Accounts other where
  made := fun grant member => accounts.made grant (perm.mem_iff.mpr member)
  registered := by
    intro id registered
    obtain ⟨search, member⟩ := accounts.registered id registered
    exact ⟨search, perm.mem_iff.mp member⟩
  found := by
    intro search id member
    obtain ⟨creator, created⟩ := accounts.found search id (perm.mem_iff.mpr member)
    exact ⟨creator, perm.mem_iff.mp created⟩
  once := by
    refine (perm.pairwise_iff ?_).mp accounts.once
    exact fun distinct id second first => distinct id first second
  unregistered := fun grant member => accounts.unregistered grant (perm.mem_iff.mpr member)
  apart := by
    refine (perm.pairwise_iff ?_).mp accounts.apart
    exact fun distinct uncached same => distinct uncached.symm same.symm

/-- Every entry that was given away was given to somebody as new. -/
theorem Accounts.exists_created {granted : List (Search × Submitted)}
    (accounts : store.Accounts granted) {grant : Search × Submitted} (member : grant ∈ granted) :
    ∃ search, (search, .created grant.2.id) ∈ granted := by
  obtain ⟨search, submitted⟩ := grant
  cases submitted with
  | created id => exact ⟨search, member⟩
  | found id => exact accounts.found search id member

/-- A history is quiet for a key if it withdraws none of the entries that are
registered for it on the way. -/
def IsQuietFor (store : Store) (history : List StoreEvent) (key : SearchKey) : Prop :=
  ∀ before event after entry, history = before ++ event :: after →
    entry ∈ (store.afterAll before).registeredEntries → entry.key = key →
      ¬(store.afterAll before).Withdraws event entry.id

/-- The rest of a quiet history is quiet. -/
theorem IsQuietFor.tail {event : StoreEvent} {rest : List StoreEvent} {key : SearchKey}
    (quiet : store.IsQuietFor (event :: rest) key) : (store.after event).IsQuietFor rest key := by
  rintro before withdrawal after entry rfl
  exact quiet (event :: before) withdrawal after entry rfl

/-- A history is quiet if its first event is and its rest. -/
theorem IsQuietFor.cons {event : StoreEvent} {rest : List StoreEvent} {key : SearchKey}
    (keepsAll : store.removes event = false)
    (asksNone : ∀ id, event ≠ .cancel id ∧ event ≠ .trip id)
    (quiet : (store.after event).IsQuietFor rest key) : store.IsQuietFor (event :: rest) key := by
  intro before withdrawal after entry split registered sameKey
  cases before with
  | nil =>
    rw [List.nil_append, List.cons.injEq] at split
    rw [← split.1]
    rintro (isCancel | isTrip | ⟨removes, _⟩)
    · exact (asksNone _).1 isCancel
    · exact (asksNone _).2 isTrip
    · rw [afterAll_nil, keepsAll] at removes
      cases removes
  | cons first before =>
    rw [List.cons_append, List.cons.injEq] at split
    obtain ⟨rfl, rfl⟩ := split
    exact quiet before withdrawal after entry rfl registered sameKey

/-- A key is registered by a submission of a search with that key. -/
theorem WellFormed.registered_key_cases (wellFormed : store.WellFormed) {event : StoreEvent}
    {entry : Entry} (registered : entry ∈ (store.after event).registeredEntries) :
    (∃ before ∈ store.registeredEntries, before.key = entry.key) ∨
      ∃ search submitted, store.usesCache search = true ∧ search.key = entry.key ∧
        store.grant? event = some (search, submitted) := by
  rcases wellFormed.registered_entry_cases registered with
    ⟨before, registeredBefore, rfl⟩ | ⟨search, uses, isNew, rfl⟩
  · exact .inl ⟨before, registeredBefore, (Entry.key_afterAll ..).symm⟩
  · exact .inr ⟨search, _, uses, rfl, isNew⟩

/-- All that were granted searches of a key that use the cache hold the one entry that
stands for the key. If there are none, nothing is registered for the key. -/
def HoldOne (store : Store) (granted : List (Search × Submitted)) (key : SearchKey) : Prop :=
  ((∀ grant ∈ granted, grant.1.key = key → store.usesCache grant.1 = false) ∧
    ∀ entry ∈ store.registeredEntries, entry.key ≠ key) ∨
  ∃ id, store.Stands key id ∧
    ∀ grant ∈ granted, grant.1.key = key → store.usesCache grant.1 = true → grant.2.id = id

/-- One more search of the key is given the entry that the others hold. -/
theorem HoldOne.after_submit {granted : List (Search × Submitted)} {search : Search}
    (one : store.HoldOne granted search.key) (wellFormed : store.WellFormed)
    {submitted : Submitted} (uses : store.usesCache search = true)
    (answered : (store.submit search).1 = .ok submitted) :
    (store.after (.submit search)).HoldOne (granted ++ [(search, submitted)]) search.key := by
  refine .inr ⟨submitted.id, wellFormed.stands_of_granted uses answered, ?_⟩
  simp only [usesCache_after]
  refine List.forall_mem_append.mpr ⟨?_, by simp⟩
  intro grant member sameKey usesToo
  rcases one with ⟨none, _⟩ | ⟨id, stands, shared⟩
  · simp [none grant member sameKey] at usesToo
  · obtain ⟨entry, reusable, isEntry⟩ := wellFormed.reusable?_of_stands uses stands
    rcases wellFormed.submit_granted answered with ⟨other, rfl, found⟩ | ⟨_, missing, _⟩
    · rw [reusable, Option.some.injEq] at found
      rw [shared grant member sameKey usesToo, ← isEntry, found]
      rfl
    · simp [reusable] at missing

/-- What does not submit a search of the key that uses the cache, and does not withdraw
the entry that stands for it, has no part in who holds what. -/
theorem HoldOne.after_other {granted : List (Search × Submitted)} {key : SearchKey}
    (one : store.HoldOne granted key) (wellFormed : store.WellFormed) {event : StoreEvent}
    (stays : ∀ entry ∈ store.registeredEntries, entry.key = key →
      ¬store.Withdraws event entry.id)
    (other : ∀ search submitted, store.grant? event = some (search, submitted) →
      search.key = key → store.usesCache search = false) :
    (store.after event).HoldOne (granted ++ (store.grant? event).toList) key := by
  have others : ∀ grant ∈ (store.grant? event).toList, grant.1.key = key →
      store.usesCache grant.1 = false :=
    fun grant member => other grant.1 grant.2 (Option.mem_toList.mp member)
  rcases one with ⟨none, unregistered⟩ | ⟨id, stands, shared⟩
  · refine .inl ⟨?_, ?_⟩
    · simp only [usesCache_after]
      exact List.forall_mem_append.mpr ⟨none, others⟩
    · rintro entry registered rfl
      rcases wellFormed.registered_key_cases registered with
        ⟨before, beforeRegistered, sameKey⟩ | ⟨search, submitted, uses, sameKey, isGrant⟩
      · exact unregistered before beforeRegistered sameKey
      · simp [other search submitted isGrant sameKey] at uses
  · refine .inr ⟨id, wellFormed.stands_after stands ?_, ?_⟩
    · obtain ⟨entry, registered, rfl, sameKey, _⟩ := stands
      exact stays entry registered sameKey
    · simp only [usesCache_after]
      refine List.forall_mem_append.mpr ⟨shared, ?_⟩
      intro grant member sameKey uses
      simp [others grant member sameKey] at uses

/-- In a history that is quiet for a key all that are granted searches of that key with
the cache come to hold one entry. -/
theorem HoldOne.afterAll {granted : List (Search × Submitted)} {key : SearchKey}
    (one : store.HoldOne granted key) (wellFormed : store.WellFormed)
    {history : List StoreEvent} (quiet : store.IsQuietFor history key) :
    (store.afterAll history).HoldOne (granted ++ store.grants history) key := by
  induction history generalizing store granted with
  | nil => rwa [grants, List.append_nil]
  | cons event rest ih =>
    rw [afterAll_cons, grants, ← List.append_assoc]
    refine ih ?_ (wellFormed.after event) quiet.tail
    by_cases submits : ∃ search submitted, store.grant? event = some (search, submitted) ∧
        search.key = key ∧ store.usesCache search = true
    · obtain ⟨search, submitted, isGrant, rfl, uses⟩ := submits
      obtain ⟨rfl, answered⟩ := grant?_eq_some_iff.mp isGrant
      rw [isGrant, Option.toList_some]
      exact one.after_submit wellFormed uses answered
    · refine one.after_other wellFormed (fun entry => quiet [] event rest entry rfl) ?_
      intro search submitted isGrant sameKey
      rw [Bool.eq_false_iff]
      exact fun uses => submits ⟨search, submitted, isGrant, sameKey, uses⟩

/-- Submissions of a key for which nothing was registered share one entry as long
as no entry of the key is withdrawn, and that entry stands for the key. -/
theorem WellFormed.shared_in_quiet (wellFormed : store.WellFormed) {key : SearchKey}
    (unregistered : ∀ entry ∈ store.registeredEntries, entry.key ≠ key)
    {history : List StoreEvent} (quiet : store.IsQuietFor history key) :
    (store.afterAll history).HoldOne (store.grants history) key := by
  have one : store.HoldOne [] key := .inl ⟨by simp, unregistered⟩
  exact one.afterAll wellFormed quiet

end Store

end SweptCache
