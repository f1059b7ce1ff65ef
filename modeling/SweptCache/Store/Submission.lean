import SweptCache.Store.Sweeping

/-!
# Submitting searches

A submission looks for an entry of an equal search and makes one if there is
none to be had. Both happen as one step, so that equal searches share an entry.
An entry that was cancelled, or is asked to, is no answer and is replaced.

A new entry is made only if enough memory is free. If too little is, a sweep
gets the chance to free some before the submission is refused. The entry is
registered unless the search opts out or caching is off, and it still has to be
started.
-/

namespace SweptCache

/-- The entry that a submission was given. -/
inductive Submitted where
  /-- An entry that was there. -/
  | found (id : EntryId)
  /-- A new entry, which has to be started. -/
  | created (id : EntryId)
  deriving DecidableEq, Repr

/-- The number of the entry that a submission was given. -/
def Submitted.id : Submitted → EntryId
  | .found id | .created id => id

/-- Why a submission was given no entry. -/
inductive Refusal where
  | error (error : CacheError)
  /-- The sweep that should have freed memory came to nothing. -/
  | overflow (overflow : Overflow)
  deriving DecidableEq, Repr

namespace Store

/-- Whether a search is answered from the cache and kept in it. -/
def usesCache (store : Store) (search : Search) : Bool :=
  search.cacheable && !store.settings.isDisabled

/-- The registered entry that answers a search, if there is one. -/
def reusable? (store : Store) (search : Search) : Option Entry :=
  if store.usesCache search then
    (store.registered? search.key).filter fun entry =>
      !decide (entry.status = .cancelled) && !entry.cancelRequested
  else none

/-- Whether the next reading of free memory allows a new search. -/
def hasMemory (store : Store) : Bool :=
  store.settings.minFreeMegabytesForSearch.toNat ≤ wholeMegabytes store.memory.next.toNat

/-- The store after a search has asked for memory, sweeping it if too little is free. -/
def acquireMemory (store : Store) : Except Refusal Unit × Store :=
  if store.hasMemory then (.ok (), store.afterReading)
  else
    match store.afterReading.sweep with
    | (.error overflow, swept) => (.error (.overflow overflow), swept)
    | (.ok _, swept) =>
      if swept.hasMemory then (.ok (), swept.afterReading)
      else
        (.error (.error (.insufficientMemory (wholeMegabytes swept.memory.next.toNat)
          store.settings.minFreeMegabytesForSearch.toNat)), swept.afterReading)

/-- The store with a new entry for a search, registered if the search uses the cache. -/
def addSearch (store : Store) (search : Search) : Store :=
  if store.usesCache search then (store.addEntry search).register search.key store.nextId
  else store.addEntry search

/-- The entry for a search, or a new one. -/
def submit (store : Store) (search : Search) : Except Refusal Submitted × Store :=
  if store.isShutDown then (.error (.error .shutDown), store)
  else
    match store.reusable? search with
    | some entry => (.ok (.found entry.id), store.touch entry.id)
    | none =>
      match store.acquireMemory with
      | (.error refusal, refused) => (.error refusal, refused)
      | (.ok (), admitted) => (.ok (.created admitted.nextId), admitted.addSearch search)

end Store

end SweptCache
