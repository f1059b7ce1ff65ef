/-!
# Durations and clock readings

Time is counted in whole nanoseconds. A `Duration` is a length of time and an
`Instant` is a reading of a clock that never goes back. The time between two
readings is zero when they are given in the wrong order, so no difference of
readings is ever negative.
-/

namespace SweptCache

/-- Nanoseconds in one second. -/
def nanosecondsPerSecond : Nat := 1000000000

/-- Nanoseconds in one millisecond. -/
def nanosecondsPerMillisecond : Nat := 1000000

/-- A length of time in nanoseconds. -/
structure Duration where
  nanoseconds : Nat
  deriving DecidableEq, Repr, Inhabited

namespace Duration

/-- No time at all. -/
def zero : Duration := ⟨0⟩

/-- A number of whole seconds and nanoseconds beyond them. -/
def ofParts (seconds : UInt64) (nanoseconds : Nat) : Duration :=
  ⟨seconds.toNat * nanosecondsPerSecond + nanoseconds⟩

/-- A number of whole seconds. -/
def ofSeconds (seconds : UInt64) : Duration := ofParts seconds 0

/-- A number of whole milliseconds. -/
def ofMilliseconds (milliseconds : UInt64) : Duration :=
  ⟨milliseconds.toNat * nanosecondsPerMillisecond⟩

/-- The whole seconds of a duration. -/
def seconds (duration : Duration) : Nat := duration.nanoseconds / nanosecondsPerSecond

/-- The nanoseconds of a duration beyond its whole seconds. -/
def nanosecondsOfSecond (duration : Duration) : Nat := duration.nanoseconds % nanosecondsPerSecond

/-- The whole milliseconds of a duration. -/
def milliseconds (duration : Duration) : Nat := duration.nanoseconds / nanosecondsPerMillisecond

instance : LT Duration := ⟨fun shorter longer => shorter.nanoseconds < longer.nanoseconds⟩

instance : LE Duration := ⟨fun shorter longer => shorter.nanoseconds ≤ longer.nanoseconds⟩

instance (first second : Duration) : Decidable (first < second) :=
  inferInstanceAs (Decidable (first.nanoseconds < second.nanoseconds))

instance (first second : Duration) : Decidable (first ≤ second) :=
  inferInstanceAs (Decidable (first.nanoseconds ≤ second.nanoseconds))

/-- Durations are ordered by their nanoseconds. -/
theorem le_iff {shorter longer : Duration} :
    shorter ≤ longer ↔ shorter.nanoseconds ≤ longer.nanoseconds := Iff.rfl

/-- A duration splits into its whole seconds and the nanoseconds beyond them. -/
theorem seconds_mul_add (duration : Duration) :
    duration.seconds * nanosecondsPerSecond + duration.nanosecondsOfSecond =
      duration.nanoseconds := by
  simp only [seconds, nanosecondsOfSecond, nanosecondsPerSecond]
  omega

end Duration

/-- A reading of the clock, in nanoseconds since it was set going. -/
structure Instant where
  nanoseconds : Nat
  deriving DecidableEq, Repr, Inhabited

namespace Instant

/-- The reading at which the clock was set going. -/
def start : Instant := ⟨0⟩

/-- The time from an earlier reading to a later one, and no time the other way round. -/
def since (later earlier : Instant) : Duration := ⟨later.nanoseconds - earlier.nanoseconds⟩

/-- The reading some time after another. -/
def after (instant : Instant) (duration : Duration) : Instant :=
  ⟨instant.nanoseconds + duration.nanoseconds⟩

/-- The later of two readings. -/
def latest (first second : Instant) : Instant := ⟨max first.nanoseconds second.nanoseconds⟩

instance : LE Instant := ⟨fun earlier later => earlier.nanoseconds ≤ later.nanoseconds⟩

instance (first second : Instant) : Decidable (first ≤ second) :=
  inferInstanceAs (Decidable (first.nanoseconds ≤ second.nanoseconds))

/-- Readings are ordered by their nanoseconds. -/
theorem le_iff {earlier later : Instant} :
    earlier ≤ later ↔ earlier.nanoseconds ≤ later.nanoseconds := Iff.rfl

@[simp] theorem nanoseconds_since (later earlier : Instant) :
    (later.since earlier).nanoseconds = later.nanoseconds - earlier.nanoseconds := rfl

@[simp] theorem nanoseconds_latest (first second : Instant) :
    (first.latest second).nanoseconds = max first.nanoseconds second.nanoseconds := rfl

/-- The time since a reading, measured some time after it, is that time. -/
theorem since_after (instant : Instant) (duration : Duration) :
    (instant.after duration).since instant = duration := by
  simp [since, after]

end Instant

end SweptCache
