import SweptCache.Store.History

/-!
# Clients of a cache

A `Site` is a cache with any number of clients. Each client makes one call, which
submits a search and goes on from there in steps: it looks the search up, it
starts the entry if that is new, and it waits for the outcome if the call asks
for one. Between any two steps of a client the other clients take steps of
theirs and other things happen to the cache, workers' steps among them. A client
that executes a search on its own thread waits for its own worker.
-/

namespace SweptCache

/-- The ways in which clients submit searches. -/
inductive CallKind where
  /-- Returns the entry, started in the background if it is new. -/
  | getAsync
  /-- Returns the outcome, a new entry executed on the client's own thread. -/
  | get
  /-- Returns the outcome, a new entry started in the background. -/
  | search
  deriving DecidableEq, Repr

namespace CallKind

/-- Whether a call returns only once there is an outcome. -/
def waits : CallKind → Bool
  | .getAsync => false
  | .get | .search => true

end CallKind

/-- How far the call of a client has come. -/
inductive Progress where
  /-- The search is about to be looked up. -/
  | submitting
  /-- The client was given a new entry, which it is about to start. -/
  | starting (id : EntryId)
  /-- The client has its entry, and waits for the outcome if it wants one. -/
  | holding (submitted : Submitted)
  /-- The search was refused. -/
  | refused (refusal : Refusal)
  /-- The client was given the outcome of its entry. -/
  | answered (submitted : Submitted) (outcome : Outcome)

/-- What the lookup of a search came to, if it has been granted. -/
def Progress.submitted? : Progress → Option Submitted
  | .submitting | .refused _ => none
  | .starting id => some (.created id)
  | .holding submitted | .answered submitted _ => some submitted

/-- A client with its call. -/
structure Client where
  kind : CallKind
  search : Search
  progress : Progress

namespace Client

/-- A client that has just come with its call. -/
def arriving (kind : CallKind) (search : Search) : Client := ⟨kind, search, .submitting⟩

/-- What the next step of a client does to the cache. -/
def events (client : Client) : List StoreEvent :=
  match client.progress with
  | .submitting => [.submit client.search]
  | .starting id => [.start id]
  | .holding _ | .refused _ | .answered _ _ => []

/-- How far a client comes with its next step, which it takes at a store. -/
def next (store : Store) (client : Client) : Progress :=
  match client.progress with
  | .submitting =>
    match (store.submit client.search).1 with
    | .error refusal => .refused refusal
    | .ok (.found id) => .holding (.found id)
    | .ok (.created id) => .starting id
  | .starting id => .holding (.created id)
  | .holding submitted =>
    if client.kind.waits then
      match store.outcome? submitted.id with
      | none => .holding submitted
      | some outcome => .answered submitted outcome
    else .holding submitted
  | .refused refusal => .refused refusal
  | .answered submitted outcome => .answered submitted outcome

/-- A client after its next step. -/
def step (store : Store) (client : Client) : Client :=
  { client with progress := client.next store }

/-- The search of a client with the entry that it was given for it. -/
def grant? (client : Client) : Option (Search × Submitted) :=
  client.progress.submitted?.map fun submitted => (client.search, submitted)

end Client

/-- A cache with its clients. -/
structure Site where
  store : Store
  clients : List Client

/-- One thing that happens at a site. -/
inductive SiteEvent where
  /-- A client comes with a call. -/
  | arrive (kind : CallKind) (search : Search)
  /-- A client takes its next step. -/
  | step (client : Nat)
  /-- Something else happens to the cache. -/
  | happen (event : StoreEvent)

/-- Whether an event submits a search, which only clients do. -/
def StoreEvent.isSubmission : StoreEvent → Bool
  | .submit _ => true
  | _ => false

namespace Site

/-- A site to which no client has come yet. -/
def opening (store : Store) : Site := ⟨store, []⟩

/-- What an event at a site does to the cache. -/
def storeEvents (site : Site) : SiteEvent → List StoreEvent
  | .arrive _ _ => []
  | .step index => (site.clients[index]?.map Client.events).getD []
  | .happen event => if event.isSubmission then [] else [event]

/-- The clients of a site after an event. -/
def clientsAfter (site : Site) : SiteEvent → List Client
  | .arrive kind search => site.clients ++ [.arriving kind search]
  | .step index => site.clients.modify index (Client.step site.store)
  | .happen _ => site.clients

/-- The site after an event. -/
def after (site : Site) (event : SiteEvent) : Site where
  store := site.store.afterAll (site.storeEvents event)
  clients := site.clientsAfter event

/-- The site after several events. -/
def afterAll (site : Site) (events : List SiteEvent) : Site := events.foldl after site

/-- What several events at a site do to the cache. -/
def trace (site : Site) : List SiteEvent → List StoreEvent
  | [] => []
  | event :: rest => site.storeEvents event ++ (site.after event).trace rest

end Site

end SweptCache
