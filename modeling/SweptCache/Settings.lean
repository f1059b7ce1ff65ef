import SweptCache.Bytes
import SweptCache.Clock
import SweptCache.Json

/-!
# Settings

The options of a cache. Three of them limit its capacity: absent, such a limit
never applies, and at zero it turns caching off. Every other option is a plain
amount. An `Assignment` sets one option, so settings are a default with
assignments made to it, and the settings of a cache are in use only when
`Settings.validate` finds no fault in them.

`Settings.limits` are the options from which a sweep is planned, in the units
in which entries are measured.
-/

namespace SweptCache

/-- The options of a cache. -/
structure Settings where
  /-- The most searches to keep, unlimited if absent. -/
  maxNumberOfSearches : Option UInt64
  /-- The largest estimated size, unlimited if absent. -/
  maxSizeMegabytes : Option UInt64
  /-- The longest time a finished search is kept unused, unlimited if absent. -/
  maxSearchAgeSeconds : Option UInt64
  /-- The longest time a search may run. -/
  maxSearchTimeSeconds : UInt64
  /-- The most searches that may run at once. -/
  maxConcurrentSearches : UInt64
  /-- The longest time a counting search may run without being asked for. -/
  abandonedCountSeconds : UInt64
  /-- Finished searches are evicted while less memory than this is free. -/
  targetFreeMegabytes : UInt64
  /-- New searches are refused while less memory than this is free. -/
  minFreeMegabytesForSearch : UInt64
  /-- The time between sweeps. -/
  sweepIntervalMilliseconds : UInt64
  deriving DecidableEq, Repr

/-- The options that limit the capacity of the cache. -/
inductive CapacityOption where
  | maxNumberOfSearches
  | maxSizeMegabytes
  | maxSearchAgeSeconds
  deriving DecidableEq, Repr

/-- The options that are plain amounts. -/
inductive AmountOption where
  | maxSearchTimeSeconds
  | maxConcurrentSearches
  | abandonedCountSeconds
  | targetFreeMegabytes
  | minFreeMegabytesForSearch
  | sweepIntervalMilliseconds
  deriving DecidableEq, Repr

/-- An option of either kind. -/
inductive SettingsOption where
  | capacity (option : CapacityOption)
  | amount (option : AmountOption)
  deriving DecidableEq, Repr

namespace SettingsOption

/-- Every option, in the order in which settings are written. -/
def all : List SettingsOption :=
  [.capacity .maxNumberOfSearches, .capacity .maxSizeMegabytes, .capacity .maxSearchAgeSeconds,
    .amount .maxSearchTimeSeconds, .amount .maxConcurrentSearches, .amount .abandonedCountSeconds,
    .amount .targetFreeMegabytes, .amount .minFreeMegabytesForSearch,
    .amount .sweepIntervalMilliseconds]

/-- The name under which an option is written. -/
def name : SettingsOption → String
  | .capacity .maxNumberOfSearches => "maxNumberOfSearches"
  | .capacity .maxSizeMegabytes => "maxSizeMegs"
  | .capacity .maxSearchAgeSeconds => "maxSearchAgeSec"
  | .amount .maxSearchTimeSeconds => "maxSearchTimeSec"
  | .amount .maxConcurrentSearches => "maxConcurrentSearches"
  | .amount .abandonedCountSeconds => "abandonedCountAbortTimeSec"
  | .amount .targetFreeMegabytes => "targetFreeMemMegs"
  | .amount .minFreeMegabytesForSearch => "minFreeMemForSearchMegs"
  | .amount .sweepIntervalMilliseconds => "sweepIntervalMs"

/-- The option with a given name. -/
def ofName? (name : List Char) : Option SettingsOption :=
  all.find? fun option => option.name.toList = name

end SettingsOption

/-- A value for one option. -/
inductive Assignment where
  | capacity (option : CapacityOption) (value : Option UInt64)
  | amount (option : AmountOption) (value : UInt64)
  deriving DecidableEq, Repr

/-- The option that an assignment sets. -/
def Assignment.option : Assignment → SettingsOption
  | .capacity option _ => .capacity option
  | .amount option _ => .amount option

/-- What keeps settings from being used. -/
inductive SettingsFlaw where
  | noConcurrency
  | noSweepInterval
  deriving DecidableEq, Repr

/-- The text that explains a flaw. -/
def SettingsFlaw.message : SettingsFlaw → String
  | .noConcurrency => "maxConcurrentSearches must be at least 1"
  | .noSweepInterval => "sweepIntervalMs must be at least 1"

/-- The bounds within which sweeps keep the cache. -/
structure Limits where
  maxEntries : Option UInt64
  maxSizeMegabytes : Option UInt64
  maxAge : Option Duration
  maxSearchTime : Duration
  maxConcurrent : UInt64
  abandonedCountTimeout : Duration
  targetFreeMegabytes : UInt64
  deriving DecidableEq, Repr

namespace Settings

/-- The settings of a machine with so many processor cores when no option is set. -/
def standard (cores : UInt64) : Settings where
  maxNumberOfSearches := some 100
  maxSizeMegabytes := some 500
  maxSearchAgeSeconds := some 3600
  maxSearchTimeSeconds := 300
  maxConcurrentSearches := cores
  abandonedCountSeconds := 30
  targetFreeMegabytes := 100
  minFreeMegabytesForSearch := 50
  sweepIntervalMilliseconds := 500

/-- The settings with one option set to a value. -/
def assign (settings : Settings) : Assignment → Settings
  | .capacity .maxNumberOfSearches value => { settings with maxNumberOfSearches := value }
  | .capacity .maxSizeMegabytes value => { settings with maxSizeMegabytes := value }
  | .capacity .maxSearchAgeSeconds value => { settings with maxSearchAgeSeconds := value }
  | .amount .maxSearchTimeSeconds value => { settings with maxSearchTimeSeconds := value }
  | .amount .maxConcurrentSearches value => { settings with maxConcurrentSearches := value }
  | .amount .abandonedCountSeconds value => { settings with abandonedCountSeconds := value }
  | .amount .targetFreeMegabytes value => { settings with targetFreeMegabytes := value }
  | .amount .minFreeMegabytesForSearch value =>
    { settings with minFreeMegabytesForSearch := value }
  | .amount .sweepIntervalMilliseconds value =>
    { settings with sweepIntervalMilliseconds := value }

/-- The settings with several options set, one after the other. -/
def assignAll (settings : Settings) (assignments : List Assignment) : Settings :=
  assignments.foldl assign settings

/-- The value that the settings give to an option. -/
def assignment (settings : Settings) : SettingsOption → Assignment
  | .capacity .maxNumberOfSearches =>
    .capacity .maxNumberOfSearches settings.maxNumberOfSearches
  | .capacity .maxSizeMegabytes => .capacity .maxSizeMegabytes settings.maxSizeMegabytes
  | .capacity .maxSearchAgeSeconds =>
    .capacity .maxSearchAgeSeconds settings.maxSearchAgeSeconds
  | .amount .maxSearchTimeSeconds => .amount .maxSearchTimeSeconds settings.maxSearchTimeSeconds
  | .amount .maxConcurrentSearches =>
    .amount .maxConcurrentSearches settings.maxConcurrentSearches
  | .amount .abandonedCountSeconds =>
    .amount .abandonedCountSeconds settings.abandonedCountSeconds
  | .amount .targetFreeMegabytes => .amount .targetFreeMegabytes settings.targetFreeMegabytes
  | .amount .minFreeMegabytesForSearch =>
    .amount .minFreeMegabytesForSearch settings.minFreeMegabytesForSearch
  | .amount .sweepIntervalMilliseconds =>
    .amount .sweepIntervalMilliseconds settings.sweepIntervalMilliseconds

/-- The settings, unless one of their amounts has to be positive and is not. -/
def validate (settings : Settings) : Except SettingsFlaw Settings :=
  if settings.maxConcurrentSearches = 0 then .error .noConcurrency
  else if settings.sweepIntervalMilliseconds = 0 then .error .noSweepInterval
  else .ok settings

/-- Whether a capacity limit of zero turns caching off: searches still run, but none is kept. -/
def isDisabled (settings : Settings) : Bool :=
  settings.maxNumberOfSearches = some 0 || settings.maxSearchAgeSeconds = some 0 ||
    settings.maxSizeMegabytes = some 0

/-- The largest estimated size in bytes, unlimited if absent. -/
def maxSizeBytes (settings : Settings) : Option Nat :=
  settings.maxSizeMegabytes.map bytesOfMegabytes

/-- The time between sweeps. -/
def sweepInterval (settings : Settings) : Duration :=
  .ofMilliseconds settings.sweepIntervalMilliseconds

/-- The bounds within which sweeps keep the cache. -/
def limits (settings : Settings) : Limits where
  maxEntries := settings.maxNumberOfSearches
  maxSizeMegabytes := settings.maxSizeMegabytes
  maxAge := settings.maxSearchAgeSeconds.map .ofSeconds
  maxSearchTime := .ofSeconds settings.maxSearchTimeSeconds
  maxConcurrent := settings.maxConcurrentSearches
  abandonedCountTimeout := .ofSeconds settings.abandonedCountSeconds
  targetFreeMegabytes := settings.targetFreeMegabytes

end Settings

/-- The written form of an assigned value. -/
def Assignment.valueToJson : Assignment → Json
  | .capacity _ value => .ofOption (fun amount => .ofNat amount.toNat) value
  | .amount _ value => .ofNat value.toNat

/-- The settings as an object with a member for every option. -/
def Settings.toJson (settings : Settings) : Json :=
  .object <| SettingsOption.all.map fun option =>
    (option.name, (settings.assignment option).valueToJson)

/-- The settings as a text. -/
def Settings.render (settings : Settings) : String := settings.toJson.render

end SweptCache
