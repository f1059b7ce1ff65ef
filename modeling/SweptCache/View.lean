import SweptCache.Entry
import SweptCache.Settings

/-!
# Views of a cache

What an administrator gets to see: a `Snapshot` of an entry, the `Overview` of
the whole cache, the `Report` that a sweep may hand out, and the
`SweepSummary` of what a sweep did. Each has its form as a document. A snapshot
shows the size of its entry, so there is none if that does not fit in a word.
-/

namespace SweptCache

/-- What a detailed snapshot shows in addition. -/
structure SnapshotDetail where
  waitedMilliseconds : Nat
  unusedMilliseconds : Nat
  sinceLastAccessMilliseconds : Nat
  searchDone : Bool
  isCount : Bool
  deriving DecidableEq, Repr

/-- One entry as a listing shows it. -/
structure Snapshot where
  id : EntryId
  search : String
  index : String
  status : Status
  storedHits : UInt64
  sizeBytes : Nat
  /-- The score that was last computed. -/
  worthiness : Score
  ageMilliseconds : Nat
  detail : Option SnapshotDetail
  deriving DecidableEq, Repr

namespace Snapshot

/-- The snapshot of an entry at a moment. -/
def capture (now : Instant) (isDetailed : Bool) (entry : Entry) : Except Overflow Snapshot :=
  let stats := entry.stats now
  match stats.sizeBytes with
  | .error overflow => .error overflow
  | .ok sizeBytes => .ok {
      id := entry.id
      search := entry.key.text
      index := entry.key.index
      status := stats.status
      storedHits := stats.storedHits
      sizeBytes := sizeBytes
      worthiness := entry.worthiness
      ageMilliseconds := stats.sinceCreation.milliseconds
      detail :=
        if isDetailed then some {
          waitedMilliseconds := stats.waited.milliseconds
          unusedMilliseconds := stats.unused.milliseconds
          sinceLastAccessMilliseconds := stats.sinceLastAccess.milliseconds
          searchDone := stats.searchDone
          isCount := stats.isCount }
        else none }

/-- The snapshots of several entries at a moment, if all of them can be taken. -/
def captureAll (now : Instant) (isDetailed : Bool) :
    List Entry → Except Overflow (List Snapshot)
  | [] => .ok []
  | entry :: rest =>
    match capture now isDetailed entry with
    | .error overflow => .error overflow
    | .ok snapshot =>
      match captureAll now isDetailed rest with
      | .error overflow => .error overflow
      | .ok snapshots => .ok (snapshot :: snapshots)

/-- The line of a listing for an entry. -/
def line (snapshot : Snapshot) : String :=
  toString snapshot.id ++ " " ++ snapshot.search ++ " " ++ snapshot.status.label ++ " " ++
    toString snapshot.storedHits.toNat

/-- The form of a snapshot as a document, with a member for the detail only if there is one. -/
def toJson (snapshot : Snapshot) : Json :=
  .object <|
    [("id", .ofNat snapshot.id),
      ("search", .string snapshot.search),
      ("index", .string snapshot.index),
      ("status", .string snapshot.status.name),
      ("storedHits", .ofNat snapshot.storedHits.toNat),
      ("sizeBytes", .ofNat snapshot.sizeBytes),
      ("worthiness", .number snapshot.worthiness.toInt),
      ("ageMs", .ofNat snapshot.ageMilliseconds)] ++
    match snapshot.detail with
    | none => []
    | some detail =>
      [("debug", .object
        [("waitedMs", .ofNat detail.waitedMilliseconds),
          ("unusedMs", .ofNat detail.unusedMilliseconds),
          ("sinceLastAccessMs", .ofNat detail.sinceLastAccessMilliseconds),
          ("searchDone", .bool detail.searchDone),
          ("isCount", .bool detail.isCount)])]

end Snapshot

/-- The whole cache at a glance. -/
structure Overview where
  maxSizeBytes : Option Nat
  maxNumberOfSearches : Option UInt64
  maxSearchAgeSeconds : Option UInt64
  sizeBytes : Nat
  numberOfSearches : Nat
  freeMemory : UInt64
  deriving DecidableEq, Repr

namespace Overview

/-- The overview of a cache with such settings, size, number of entries and free memory. -/
def ofSettings (settings : Settings) (sizeBytes numberOfSearches : Nat) (freeMemory : UInt64) :
    Overview where
  maxSizeBytes := settings.maxSizeBytes
  maxNumberOfSearches := settings.maxNumberOfSearches
  maxSearchAgeSeconds := settings.maxSearchAgeSeconds
  sizeBytes := sizeBytes
  numberOfSearches := numberOfSearches
  freeMemory := freeMemory

/-- The form of an overview as a document. -/
def toJson (overview : Overview) : Json :=
  .object
    [("maxSizeBytes", .ofOption .ofNat overview.maxSizeBytes),
      ("maxNumberOfSearches",
        .ofOption (fun amount => .ofNat amount.toNat) overview.maxNumberOfSearches),
      ("maxSearchAgeSec",
        .ofOption (fun amount => .ofNat amount.toNat) overview.maxSearchAgeSeconds),
      ("sizeBytes", .ofNat overview.sizeBytes),
      ("numberOfSearches", .ofNat overview.numberOfSearches),
      ("freeMemory", .ofNat overview.freeMemory.toNat)]

end Overview

/-- What a sweep reports of the cache as it found it. -/
structure Report where
  numberOfSearches : Nat
  numberRunning : Nat
  sizeBytes : Nat
  freeMemory : UInt64
  largestEntryBytes : Nat
  oldestEntryAgeSeconds : Nat
  deriving DecidableEq, Repr

namespace Report

/-- The report on entries of such a total size, with so much memory free. -/
def ofSnapshots (snapshots : List Snapshot) (sizeBytes : Nat) (freeMemory : UInt64) :
    Report where
  numberOfSearches := snapshots.length
  numberRunning := snapshots.countP fun snapshot => !snapshot.status.isTerminal
  sizeBytes := sizeBytes
  freeMemory := freeMemory
  largestEntryBytes := (snapshots.map Snapshot.sizeBytes).foldl max 0
  oldestEntryAgeSeconds :=
    (snapshots.map fun snapshot => snapshot.ageMilliseconds / 1000).foldl max 0

/-- The form of a report as a document. -/
def toJson (report : Report) : Json :=
  .object
    [("numberOfSearches", .ofNat report.numberOfSearches),
      ("numberRunning", .ofNat report.numberRunning),
      ("sizeBytes", .ofNat report.sizeBytes),
      ("freeMemory", .ofNat report.freeMemory.toNat),
      ("largestEntryBytes", .ofNat report.largestEntryBytes),
      ("oldestEntryAgeSec", .ofNat report.oldestEntryAgeSeconds)]

end Report

/-- What a sweep did, and what it left. -/
structure SweepSummary where
  evicted : Nat
  aborted : Nat
  remaining : Nat
  running : Nat
  sizeBytes : Nat
  deriving DecidableEq, Repr

namespace SweepSummary

/-- The number of entries that a sweep removed. -/
def removed (summary : SweepSummary) : Except Overflow Nat :=
  addAmounts summary.evicted summary.aborted

/-- The form of a summary as a document. -/
def toJson (summary : SweepSummary) : Json :=
  .object
    [("evicted", .ofNat summary.evicted),
      ("aborted", .ofNat summary.aborted),
      ("remaining", .ofNat summary.remaining),
      ("running", .ofNat summary.running),
      ("sizeBytes", .ofNat summary.sizeBytes)]

end SweepSummary

/-- Every line of a text moved to the right by four blanks. -/
def indentLines (text : List Char) : List Char := indent true text
where
  /-- The rest of a text, which may be at the start of a line. -/
  indent : Bool → List Char → List Char
    | _, [] => []
    | true, character :: rest =>
      [' ', ' ', ' ', ' ', character] ++ indent (character = '\n') rest
    | false, character :: rest => character :: indent (character = '\n') rest

namespace Entry

/-- What is shown of an entry, with the names under which it is shown. -/
def shownFields (entry : Entry) : List (String × String) :=
  [("id", toString entry.id), ("task", entry.key.text), ("status", entry.status.label),
    ("stored_hits", toString entry.storedHits.toNat)]

/-- An entry in a few characters. -/
def label (entry : Entry) : String :=
  "#" ++ toString entry.id ++ " " ++ entry.key.text ++ " [" ++ entry.status.label ++ "]"

/-- The fields of an entry on one line. -/
def description (entry : Entry) : String :=
  "CacheEntry \x7b " ++
    String.intercalate ", " (entry.shownFields.map fun (name, value) => name ++ ": " ++ value) ++
    " \x7d"

/-- The fields of an entry, each on a line of its own. -/
def descriptionLines (entry : Entry) : String :=
  "CacheEntry \x7b\n" ++
    String.join (entry.shownFields.map fun (name, value) =>
      String.ofList (indentLines (name ++ ": " ++ value ++ ",\n").toList)) ++
    "\x7d"

end Entry

end SweptCache
