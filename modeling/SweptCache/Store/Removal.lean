import SweptCache.Store

/-!
# Removing searches

Clients remove single searches, all searches of an index, or everything. An
entry that is removed on its own keeps running; one that leaves with its index
is cancelled unless its search is done, and so is everything when the cache is
cleared with cancellation or shut down. A cache that is shut down stays so.
-/

namespace SweptCache.Store

/-- The store without the registration of a key. The entry is left alone. -/
def remove (store : Store) (key : SearchKey) : Store :=
  { store with
    registrations := store.registrations.filter fun registration => registration.key ≠ key }

/-- The registrations of an index. -/
def registrationsOf (store : Store) (index : String) : List Registration :=
  store.registrations.filter fun registration => registration.key.index = index

/-- The store without the searches of an index, those of them cancelled that were not done. -/
def removeIndex (store : Store) (index : String) : Store :=
  { store.updateAll ((store.registrationsOf index).map (·.entry))
      (Entry.cancelUnlessDone store.clock) with
    registrations := store.registrations.filter fun registration =>
      registration.key.index ≠ index }

/-- The store without any registered search, those that were not done cancelled if wanted. -/
def clear (store : Store) (cancelsRunning : Bool) : Store :=
  { (if cancelsRunning then
      store.updateAll store.registeredIds (Entry.cancelUnlessDone store.clock)
    else store) with
    registrations := [] }

/-- The store shut down: nothing is registered any more, and nothing will be. -/
def shutDown (store : Store) : Store := { store.clear true with isShutDown := true }

end SweptCache.Store
