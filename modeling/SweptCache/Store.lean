import SweptCache.Entry
import SweptCache.Sweep.Plan
import SweptCache.View

/-!
# The cache

A `Store` is a cache together with all entries ever made, whether they are
still registered, were removed, or never were in it. Clients hold entries by
their numbers, so an entry lives on in the store after it has left the cache.

The registrations are the cache proper. Each maps the key of a search to an
entry, and no key has two of them. A registration keeps the key apart from the
entry, for it may outlive the entry with which it was made. The list has some
order, but it means nothing: a cache can go through its registrations in any
order, and in another one the next time (`Store.relist`).

Readings of free memory are taken from a list of which the last one stays.
-/

namespace SweptCache

/-- The readings of free memory that are still to come. -/
structure MemoryReadings where
  next : UInt64
  later : List UInt64
  deriving DecidableEq, Repr

namespace MemoryReadings

/-- The same reading every time. -/
def fixed (bytes : UInt64) : MemoryReadings := ⟨bytes, []⟩

/-- The readings after one has been taken; the last one is never used up. -/
def afterReading (readings : MemoryReadings) : MemoryReadings :=
  match readings.later with
  | [] => readings
  | next :: later => ⟨next, later⟩

end MemoryReadings

/-- One search in the cache. -/
structure Registration where
  key : SearchKey
  entry : EntryId
  deriving DecidableEq, Repr

/-- A report as it is handed out, with a listing of the entries from time to time. -/
structure DeliveredReport where
  report : Report
  listing : Option (List Snapshot)
  deriving DecidableEq, Repr

/-- A cache with all entries ever made. -/
structure Store where
  settings : Settings
  policy : Policy
  /-- Every entry made so far, in the order of their numbers. -/
  entries : List Entry
  registrations : List Registration
  memory : MemoryReadings
  clock : Instant
  isShutDown : Bool
  /-- When a report was last handed out. -/
  lastReport : Option Instant
  /-- When a report was last handed out with a listing. -/
  lastListing : Option Instant
  /-- The reports handed out so far. -/
  reports : List DeliveredReport

namespace Store

/-- A cache without entries. -/
def empty (settings : Settings) (policy : Policy) (memory : MemoryReadings) : Store where
  settings := settings
  policy := policy
  entries := []
  registrations := []
  memory := memory
  clock := .start
  isShutDown := false
  lastReport := none
  lastListing := none
  reports := []

/-- A cache without entries, unless its settings have a flaw. -/
def create (settings : Settings) (policy : Policy) (memory : MemoryReadings) :
    Except SettingsFlaw Store :=
  match settings.validate with
  | .error flaw => .error flaw
  | .ok settings => .ok (empty settings policy memory)

/-- The entry with a given number. -/
def find? (store : Store) (id : EntryId) : Option Entry :=
  store.entries.find? fun entry => entry.id = id

/-- The store with an entry replaced by what it has become. -/
def update (store : Store) (id : EntryId) (change : Entry → Entry) : Store :=
  { store with
    entries := store.entries.map fun entry => if entry.id = id then change entry else entry }

/-- An update changes the entry with its number and no other. -/
theorem find?_update (store : Store) (id other : EntryId) (change : Entry → Entry)
    (keepsId : ∀ entry, (change entry).id = entry.id) :
    (store.update id change).find? other =
      (store.find? other).map fun entry => if entry.id = id then change entry else entry := by
  simp only [update, find?, List.find?_map]
  congr 2
  funext entry
  simp only [Function.comp]
  split <;> simp [keepsId]

/-- The store with each of several entries replaced by what it has become. -/
def updateAll (store : Store) (ids : List EntryId) (change : Entry → Entry) : Store :=
  { store with
    entries := store.entries.map fun entry =>
      if ids.contains entry.id then change entry else entry }

/-- The registration of a key. -/
def registration? (store : Store) (key : SearchKey) : Option Registration :=
  store.registrations.find? fun registration => registration.key = key

/-- The entry registered for a key. -/
def registered? (store : Store) (key : SearchKey) : Option Entry :=
  (store.registration? key).bind fun registration => store.find? registration.entry

/-- The numbers of all registered entries. -/
def registeredIds (store : Store) : List EntryId := store.registrations.map (·.entry)

/-- All registered entries. -/
def registeredEntries (store : Store) : List Entry :=
  store.registrations.filterMap fun registration => store.find? registration.entry

/-- The number of registered entries. -/
def size (store : Store) : Nat := store.registrations.length

/-- Whether a key is registered. -/
def contains (store : Store) (key : SearchKey) : Bool := (store.registration? key).isSome

/-- The number of the next entry. -/
def nextId (store : Store) : EntryId := store.entries.length + 1

/-- The store with one more entry, which is not registered. -/
def addEntry (store : Store) (search : Search) : Store :=
  { store with entries := store.entries ++ [.make store.nextId search store.clock] }

/-- Registrations in which a key leads to an entry, in place of the one it led to before. -/
def registerIn (key : SearchKey) (id : EntryId) : List Registration → List Registration
  | [] => [⟨key, id⟩]
  | registration :: rest =>
    if registration.key = key then ⟨key, id⟩ :: rest
    else registration :: registerIn key id rest

/-- The store with an entry registered for a key. -/
def register (store : Store) (key : SearchKey) (id : EntryId) : Store :=
  { store with registrations := registerIn key id store.registrations }

/-- The store with its registrations listed in another way. -/
def relisted (store : Store) (registrations : List Registration) : Store :=
  { store with registrations := registrations }

/-- The store with its registrations in an order, if that is an order of them. -/
def relist (store : Store) (registrations : List Registration) : Store :=
  if registrations.isPerm store.registrations then store.relisted registrations else store

/-- The store after a reading of free memory. -/
def afterReading (store : Store) : Store := { store with memory := store.memory.afterReading }

/-- The store some time later. -/
def pass (store : Store) (duration : Duration) : Store :=
  { store with clock := store.clock.after duration }

/-- The store with an entry's score computed and remembered. -/
def score (store : Store) (policy : Policy) (id : EntryId) : Store :=
  store.update id fun entry => entry.rememberWorthiness (policy (entry.stats store.clock))

/-- The store with an entry started, if it was pending. -/
def start (store : Store) (id : EntryId) : Store := store.update id (Entry.start store.clock)

/-- The store after one step of an entry's worker. -/
def advance (store : Store) (id : EntryId) : Store := store.update id (Entry.advance store.clock)

/-- The store with an entry's cancellation requested. -/
def cancel (store : Store) (id : EntryId) : Store := store.update id (Entry.cancel store.clock)

/-- The store with the token of an entry tripped by its own search. -/
def trip (store : Store) (id : EntryId) : Store := store.update id Entry.trip

/-- The store with an entry just asked for by a client. -/
def touch (store : Store) (id : EntryId) : Store := store.update id (Entry.touch store.clock)

/-- The estimated size of all registered entries. -/
def sizeBytes (store : Store) : Except Overflow Nat :=
  totalSize (store.registeredEntries.map (·.storedHits))

/-- The cache at a glance, for which a reading of free memory is taken once its
size is known. -/
def overview (store : Store) : Except Overflow Overview × Store :=
  match store.sizeBytes with
  | .error overflow => (.error overflow, store)
  | .ok sizeBytes =>
    (.ok (.ofSettings store.settings sizeBytes store.size store.memory.next), store.afterReading)

/-- The registered entries in the order of their numbers. -/
def contents (store : Store) (isDetailed : Bool) : Except Overflow (List Snapshot) :=
  Snapshot.captureAll store.clock isDetailed <|
    store.registeredEntries.mergeSort fun first second => first.id ≤ second.id

end Store

end SweptCache
