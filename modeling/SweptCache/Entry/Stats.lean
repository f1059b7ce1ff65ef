import SweptCache.Bytes
import SweptCache.Clock

/-!
# What is known of an entry at a moment

`Status` is the stage of its life that an entry has reached; the last three
stages are terminal. `Stats` are the figures of one entry at one moment, from
which it is scored and a sweep is planned.
-/

namespace SweptCache

/-- The stage of its life that an entry has reached. -/
inductive Status where
  | pending
  | running
  | done
  | failed
  | cancelled
  deriving DecidableEq, Repr

namespace Status

/-- Every status, in the order of an entry's life. -/
def all : List Status := [.pending, .running, .done, .failed, .cancelled]

/-- An entry with a terminal status stays as it is. -/
def isTerminal : Status → Bool
  | .pending | .running => false
  | .done | .failed | .cancelled => true

/-- The name of a status in documents. -/
def name : Status → String
  | .pending => "pending"
  | .running => "running"
  | .done => "done"
  | .failed => "failed"
  | .cancelled => "cancelled"

/-- The name of a status in listings. -/
def label : Status → String
  | .pending => "Pending"
  | .running => "Running"
  | .done => "Done"
  | .failed => "Failed"
  | .cancelled => "Cancelled"

/-- The status with a given name in documents. -/
def ofName? (name : String) : Option Status := all.find? fun status => status.name = name

end Status

/-- The figures of one entry at one moment. -/
structure Stats where
  status : Status
  /-- Whether the execution has ended, or never will begin. -/
  searchDone : Bool
  storedHits : UInt64
  sinceCreation : Duration
  sinceLastAccess : Duration
  /-- How long the search has been running, or ran. -/
  waited : Duration
  /-- How long a finished search has gone without access. -/
  unused : Duration
  isCount : Bool
  deriving DecidableEq, Repr

namespace Stats

/-- Whether the entry is finished for good. -/
def isDone (stats : Stats) : Bool := stats.status.isTerminal

/-- The estimated size of the entry. -/
def sizeBytes (stats : Stats) : Except Overflow Nat := sizeOfHits stats.storedHits

end Stats

end SweptCache
