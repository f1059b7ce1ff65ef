/-!
# Searches

A search is known to the cache by its `SearchKey`: two searches with equal keys
are the same search. What a search does when it is executed is a script of
steps, which report hits, look for a request to cancel, and may end the
execution early. An execution that reaches the end of its script returns the
search's own output.

An execution is handed the token on which its cancellation is requested, so that
it can pass it on to whatever it waits for. Whoever has the token can trip it,
at any time. A trip is therefore no step of a script but an event of its own,
which comes between any two steps of the worker and even after the last one
(`Entry.trip`).
-/

namespace SweptCache

/-- What makes two searches the same: where they look, what for, and whether they only count. -/
structure SearchKey where
  index : String
  pattern : String
  isCount : Bool
  deriving DecidableEq, Repr

/-- The text that names a search: its index and pattern, marked if it only counts. -/
def SearchKey.text (key : SearchKey) : String :=
  key.index ++ "/" ++ key.pattern ++ (if key.isCount then "#count" else "")

/-- An error with the contexts added to it on its way out, the outermost last. -/
structure Failure where
  cause : String
  contexts : List String
  deriving DecidableEq, Repr

namespace Failure

/-- An error to which no context was added. -/
def ofText (cause : String) : Failure := ⟨cause, []⟩

/-- An error shows the context added last, or its cause when there is none. -/
def message (failure : Failure) : String := failure.contexts.getLastD failure.cause

/-- The error of a checkpoint that found cancellation requested. -/
def interrupted : Failure := ofText "search interrupted"

end Failure

/-- What an execution that crashed left behind: a text, or something that is none. -/
inductive CrashReport where
  | text (message : String)
  | unknown
  deriving DecidableEq, Repr

/-- A crash is a failure whose text tells what the crash left behind. -/
def CrashReport.failure : CrashReport → Failure
  | .text message => .ofText ("search panicked: " ++ message)
  | .unknown => .ofText "search panicked: unknown panic"

/-- What a search gives when it returns: how many hits it stores, and the rest, into which the
cache never looks. -/
structure Output where
  hits : UInt64
  payload : String := ""
  deriving DecidableEq, Repr

/-- What a search gives that has nothing to give but its hits. -/
def Output.ofHits (hits : UInt64) : Output := ⟨hits, ""⟩

instance : Coe UInt64 Output := ⟨Output.ofHits⟩

/-- One step of a search's execution. -/
inductive ScriptStep where
  /-- Reports how many hits are stored; a smaller number than before changes nothing. -/
  | reportHits (hits : UInt64)
  /-- Adds to the stored hits, modulo the word. -/
  | addHits (hits : UInt64)
  /-- Fails if cancellation was requested. -/
  | checkpoint
  /-- Returns a result. -/
  | finish (output : Output)
  /-- Returns a result if cancellation was requested. -/
  | finishIfCancelled (output : Output)
  /-- Fails if cancellation was requested. -/
  | failIfCancelled (failure : Failure)
  /-- Fails. -/
  | fail (failure : Failure)
  /-- Crashes. -/
  | crash (report : CrashReport)
  /-- Lets others go on before it continues. -/
  | pause
  deriving DecidableEq, Repr

/-- How an execution ended. -/
inductive Ending where
  | result (output : Output)
  | error (failure : Failure)
  | crash (report : CrashReport)
  deriving DecidableEq, Repr

/-- A search as it is submitted, with the output that it returns at the end of its script. -/
structure Search extends output : Output where
  key : SearchKey
  /-- Whether the search may be answered from the cache and kept in it. -/
  cacheable : Bool
  script : List ScriptStep
  deriving DecidableEq, Repr

end SweptCache
