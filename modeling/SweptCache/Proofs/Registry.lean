import Mathlib.Data.List.Nodup
import SweptCache.Proofs.EntryLife
import SweptCache.Store

/-!
# Entries and their registrations

A store is `WellFormed` when its entries are numbered in the order in which
they were made and are coherent, no key is registered twice, and every
registration leads to an entry of its key. Lookups by number, by key and over
all registrations then agree with membership, which is how they are used
everywhere else.
-/

namespace SweptCache.Store

/-- A store in which entries and registrations are as they should be. -/
structure WellFormed (store : Store) : Prop where
  ids : store.entries.map (·.id) = List.range' 1 store.entries.length
  coherent : ∀ entry ∈ store.entries, entry.Coherent
  keys : (store.registrations.map (·.key)).Nodup
  leads : ∀ registration ∈ store.registrations,
    ∃ entry ∈ store.entries, entry.id = registration.entry ∧ entry.key = registration.key

section Mapped

variable {store later : Store} {change : Entry → Entry}

/-- A change to every entry that keeps their numbers shows in every lookup. -/
theorem find?_map (mapped : later.entries = store.entries.map change)
    (keepsId : ∀ entry, (change entry).id = entry.id) (id : EntryId) :
    later.find? id = (store.find? id).map change := by
  simp only [find?, mapped, List.find?_map]
  congr 2
  funext entry
  simp [keepsId]

/-- A change to every entry that keeps their numbers shows in the registered ones. -/
theorem registeredEntries_map (mapped : later.entries = store.entries.map change)
    (registrations : later.registrations = store.registrations)
    (keepsId : ∀ entry, (change entry).id = entry.id) :
    later.registeredEntries = store.registeredEntries.map change := by
  simp only [registeredEntries, registrations, List.map_filterMap]
  congr 1
  funext registration
  exact find?_map mapped keepsId registration.entry

end Mapped

/-- Registering a key adds it to the registered keys if it is not among them. -/
theorem keys_registerIn (key : SearchKey) (id : EntryId) (registrations : List Registration) :
    (registerIn key id registrations).map (·.key) =
      if key ∈ registrations.map (·.key) then registrations.map (·.key)
      else registrations.map (·.key) ++ [key] := by
  induction registrations with
  | nil => simp [registerIn]
  | cons first rest ih =>
    unfold registerIn
    split
    next same => simp [same]
    next different =>
      have notFirst : ¬key = first.key := fun same => different same.symm
      rw [List.map_cons, ih]
      simp only [List.map_cons, List.mem_cons, notFirst, false_or]
      split <;> rfl

/-- Registering keeps keys from being registered twice. -/
theorem nodup_keys_registerIn (key : SearchKey) (id : EntryId) {registrations : List Registration}
    (nodup : (registrations.map (·.key)).Nodup) :
    ((registerIn key id registrations).map (·.key)).Nodup := by
  rw [keys_registerIn]
  split
  next => exact nodup
  next absent =>
    rw [List.nodup_append]
    refine ⟨nodup, List.nodup_singleton key, ?_⟩
    intro other member last isKey
    rw [List.mem_singleton] at isKey
    rw [isKey]
    exact fun same => absent (same ▸ member)

/-- Registering puts one registration in the place of what was registered for its key. -/
theorem mem_registerIn_iff {key : SearchKey} {id : EntryId} {registrations : List Registration}
    (nodup : (registrations.map (·.key)).Nodup) (registration : Registration) :
    registration ∈ registerIn key id registrations ↔
      registration = ⟨key, id⟩ ∨ registration ∈ registrations ∧ registration.key ≠ key := by
  induction registrations with
  | nil => simp [registerIn]
  | cons first rest ih =>
    rw [List.map_cons, List.nodup_cons] at nodup
    unfold registerIn
    split
    next same =>
      have othersDiffer : registration ∈ rest → registration.key ≠ key := by
        intro member equal
        exact nodup.1 (List.mem_map.mpr ⟨registration, member, equal.trans same.symm⟩)
      simp only [List.mem_cons]
      constructor
      · rintro (isNew | member)
        · exact .inl isNew
        · exact .inr ⟨.inr member, othersDiffer member⟩
      · rintro (isNew | ⟨isFirst | member, different⟩)
        · exact .inl isNew
        · exact absurd (isFirst ▸ same) different
        · exact .inr member
    next different =>
      simp only [List.mem_cons, ih nodup.2]
      constructor
      · rintro (isFirst | isNew | ⟨member, other⟩)
        · exact .inr ⟨.inl isFirst, isFirst ▸ different⟩
        · exact .inl isNew
        · exact .inr ⟨.inr member, other⟩
      · rintro (isNew | ⟨isFirst | member, other⟩)
        · exact .inr (.inl isNew)
        · exact .inl isFirst
        · exact .inr (.inr ⟨member, other⟩)

/-- A filter that loses nothing keeps what it makes beside what it made it from. -/
theorem forall₂_filterMap {α β : Type} {make : α → Option β} {related : β → α → Prop}
    {items : List α} (makes : ∀ item ∈ items, ∃ result, make item = some result ∧
      related result item) : List.Forall₂ related (items.filterMap make) items := by
  induction items with
  | nil => exact .nil
  | cons item rest ih =>
    obtain ⟨result, made, isRelated⟩ := makes item List.mem_cons_self
    rw [List.filterMap_cons, made]
    exact .cons isRelated (ih fun other member => makes other (List.mem_cons_of_mem _ member))

/-- Whatever is in the first of two related lists has its like in the second. -/
theorem exists_of_forall₂ {α β : Type} {related : α → β → Prop} {first : List α} {second : List β}
    (all : List.Forall₂ related first second) {item : α} (member : item ∈ first) :
    ∃ other ∈ second, related item other := by
  induction all with
  | nil => cases member
  | @cons head other rest others isRelated _ ih =>
    obtain rfl | later := List.mem_cons.mp member
    · exact ⟨other, List.mem_cons_self, isRelated⟩
    · obtain ⟨found, foundMember, foundRelated⟩ := ih later
      exact ⟨found, List.mem_cons_of_mem _ foundMember, foundRelated⟩

namespace WellFormed

variable {store : Store}

/-- Two entries with one number are the same entry. -/
theorem entry_unique (wellFormed : store.WellFormed) {first second : Entry}
    (firstMember : first ∈ store.entries) (secondMember : second ∈ store.entries)
    (same : first.id = second.id) : first = second := by
  have nodup : (store.entries.map (·.id)).Nodup := by
    rw [wellFormed.ids]
    exact List.nodup_range'
  exact List.inj_on_of_nodup_map nodup firstMember secondMember same

/-- A lookup finds the entry with that number. -/
theorem find?_eq_some_iff (wellFormed : store.WellFormed) {id : EntryId} {entry : Entry} :
    store.find? id = some entry ↔ entry ∈ store.entries ∧ entry.id = id := by
  constructor
  · intro found
    exact ⟨List.mem_of_find?_eq_some found, by simpa using List.find?_some found⟩
  · rintro ⟨member, same⟩
    cases found : store.find? id with
    | none =>
      have absent := List.find?_eq_none.mp found entry member
      simp [same] at absent
    | some other =>
      have otherSame : other.id = id := by simpa using List.find?_some found
      rw [wellFormed.entry_unique (List.mem_of_find?_eq_some found) member
        (otherSame.trans same.symm)]

/-- The numbers of all entries come before the next one. -/
theorem id_lt_nextId (wellFormed : store.WellFormed) {entry : Entry}
    (member : entry ∈ store.entries) : entry.id < store.nextId := by
  have listed : entry.id ∈ store.entries.map (·.id) := List.mem_map_of_mem member
  rw [wellFormed.ids, List.mem_range'_1] at listed
  rw [nextId, Nat.add_comm]
  exact listed.2

/-- A registration leads to an entry of its key. -/
theorem find?_registration (wellFormed : store.WellFormed) {registration : Registration}
    (member : registration ∈ store.registrations) :
    ∃ entry, store.find? registration.entry = some entry ∧ entry.key = registration.key := by
  obtain ⟨entry, entryMember, id, key⟩ := wellFormed.leads registration member
  exact ⟨entry, wellFormed.find?_eq_some_iff.mpr ⟨entryMember, id⟩, key⟩

/-- What is registered has been made. -/
theorem registeredId_lt_nextId (wellFormed : store.WellFormed) {id : EntryId}
    (member : id ∈ store.registeredIds) : id < store.nextId := by
  obtain ⟨registration, registered, rfl⟩ := List.mem_map.mp member
  obtain ⟨entry, entryMember, id, _⟩ := wellFormed.leads registration registered
  rw [← id]
  exact wellFormed.id_lt_nextId entryMember

/-- No entry is registered twice. -/
theorem nodup_registeredIds (wellFormed : store.WellFormed) : store.registeredIds.Nodup := by
  apply List.Nodup.map_on _ (List.Nodup.of_map _ wellFormed.keys)
  intro first firstMember second secondMember same
  obtain ⟨firstEntry, firstFound, firstKey⟩ := wellFormed.find?_registration firstMember
  obtain ⟨secondEntry, secondFound, secondKey⟩ := wellFormed.find?_registration secondMember
  rw [same, secondFound, Option.some.injEq] at firstFound
  subst firstFound
  exact List.inj_on_of_nodup_map wellFormed.keys firstMember secondMember
    (firstKey.symm.trans secondKey)

/-- The registered entries, one for each registration. -/
theorem forall₂_registeredEntries (wellFormed : store.WellFormed) :
    List.Forall₂ (fun entry registration =>
        store.find? registration.entry = some entry ∧ entry.key = registration.key)
      store.registeredEntries store.registrations :=
  forall₂_filterMap fun registration member => by
    obtain ⟨entry, found, key⟩ := wellFormed.find?_registration member
    exact ⟨entry, found, found, key⟩

/-- There are as many registered entries as registrations. -/
theorem size_eq (wellFormed : store.WellFormed) : store.size = store.registeredEntries.length :=
  wellFormed.forall₂_registeredEntries.length_eq.symm

/-- The keys of the registered entries are the registered keys. -/
theorem keys_registeredEntries (wellFormed : store.WellFormed) :
    store.registeredEntries.map (·.key) = store.registrations.map (·.key) := by
  rw [← List.forall₂_eq_eq_eq, List.forall₂_map_left_iff, List.forall₂_map_right_iff]
  exact wellFormed.forall₂_registeredEntries.imp fun _ _ leads => leads.2

/-- The numbers of the registered entries are the registered numbers. -/
theorem ids_registeredEntries (wellFormed : store.WellFormed) :
    store.registeredEntries.map (·.id) = store.registeredIds := by
  rw [registeredIds, ← List.forall₂_eq_eq_eq, List.forall₂_map_left_iff,
    List.forall₂_map_right_iff]
  exact wellFormed.forall₂_registeredEntries.imp fun _ _ leads =>
    (wellFormed.find?_eq_some_iff.mp leads.1).2

/-- No two registered entries have one key. -/
theorem nodup_keys_registeredEntries (wellFormed : store.WellFormed) :
    (store.registeredEntries.map (·.key)).Nodup := by
  rw [wellFormed.keys_registeredEntries]
  exact wellFormed.keys

/-- A registered entry is an entry. -/
theorem mem_entries_of_registered {entry : Entry} (member : entry ∈ store.registeredEntries) :
    entry ∈ store.entries := by
  obtain ⟨registration, _, found⟩ := List.mem_filterMap.mp member
  exact List.mem_of_find?_eq_some found

/-- An entry is registered if its number is. -/
theorem mem_registeredEntries_iff (wellFormed : store.WellFormed) {entry : Entry} :
    entry ∈ store.registeredEntries ↔ entry ∈ store.entries ∧ entry.id ∈ store.registeredIds := by
  constructor
  · intro member
    refine ⟨mem_entries_of_registered member, ?_⟩
    rw [← wellFormed.ids_registeredEntries]
    exact List.mem_map_of_mem member
  · rintro ⟨member, registered⟩
    obtain ⟨registration, registrationMember, same⟩ := List.mem_map.mp registered
    refine List.mem_filterMap.mpr ⟨registration, registrationMember, ?_⟩
    exact wellFormed.find?_eq_some_iff.mpr ⟨member, same.symm⟩

/-- Two registered entries with one key are the same entry. -/
theorem registered_unique (wellFormed : store.WellFormed) {first second : Entry}
    (firstMember : first ∈ store.registeredEntries)
    (secondMember : second ∈ store.registeredEntries)
    (same : first.key = second.key) : first = second :=
  List.inj_on_of_nodup_map wellFormed.nodup_keys_registeredEntries firstMember secondMember same

/-- A lookup by key finds the registered entry with that key. -/
theorem registered?_eq_some_iff (wellFormed : store.WellFormed) {key : SearchKey} {entry : Entry} :
    store.registered? key = some entry ↔ entry ∈ store.registeredEntries ∧ entry.key = key := by
  simp only [registered?, registration?]
  constructor
  · intro found
    obtain ⟨registration, located, leads⟩ := Option.bind_eq_some_iff.mp found
    have member := List.mem_of_find?_eq_some located
    obtain ⟨other, otherFound, otherKey⟩ := wellFormed.find?_registration member
    rw [leads, Option.some.injEq] at otherFound
    subst otherFound
    refine ⟨List.mem_filterMap.mpr ⟨registration, member, leads⟩, otherKey.trans ?_⟩
    simpa using List.find?_some located
  · rintro ⟨member, rfl⟩
    obtain ⟨registration, registered, leads⟩ := List.mem_filterMap.mp member
    obtain ⟨other, otherFound, otherKey⟩ := wellFormed.find?_registration registered
    rw [leads, Option.some.injEq] at otherFound
    subst otherFound
    cases located : store.registrations.find? fun registration => registration.key = entry.key with
    | none =>
      have absent := List.find?_eq_none.mp located registration registered
      simp [otherKey] at absent
    | some found =>
      have sameKey : found.key = registration.key := by
        have key := List.find?_some located
        rw [← otherKey]
        simpa using key
      have same : found = registration := List.inj_on_of_nodup_map wellFormed.keys
        (List.mem_of_find?_eq_some located) registered sameKey
      rw [Option.bind_some, same, leads]

/-- A key that the cache does not contain is the key of no registered entry. -/
theorem contains_eq_false_iff (wellFormed : store.WellFormed) {key : SearchKey} :
    store.contains key = false ↔ ∀ entry ∈ store.registeredEntries, entry.key ≠ key := by
  have keys : (∀ entry ∈ store.registeredEntries, entry.key ≠ key) ↔
      key ∉ store.registrations.map (·.key) := by
    rw [← wellFormed.keys_registeredEntries]
    simp
  rw [keys, contains, registration?, Option.isSome_eq_false_iff, Option.isNone_iff_eq_none,
    List.find?_eq_none]
  simp

/-- One entry is registered for the key of a registered entry. -/
theorem filter_key_registeredEntries (wellFormed : store.WellFormed) {entry : Entry}
    (registered : entry ∈ store.registeredEntries) :
    store.registeredEntries.filter (fun other => other.key = entry.key) = [entry] := by
  have nodup : store.registeredEntries.Nodup :=
    .of_map _ wellFormed.nodup_keys_registeredEntries
  have same : ∀ other ∈ store.registeredEntries,
      decide (other.key = entry.key) = decide (other = entry) := by
    intro other member
    rw [decide_eq_decide]
    exact ⟨wellFormed.registered_unique member registered, fun same => by rw [same]⟩
  rw [List.filter_congr same, List.filter_eq, List.count_eq_one_of_mem nodup registered]
  rfl

/-- A reading of free memory leaves a store well-formed. -/
theorem afterReading (wellFormed : store.WellFormed) : store.afterReading.WellFormed :=
  ⟨wellFormed.ids, wellFormed.coherent, wellFormed.keys, wellFormed.leads⟩

end WellFormed

end SweptCache.Store
