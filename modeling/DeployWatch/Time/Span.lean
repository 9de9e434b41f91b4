/-
# Spans of time

A span is a length of time in whole seconds and nanoseconds.  The seconds fit into 64 bits
and the nanoseconds are fewer than a second has; both bounds are part of the type, and the
only sum there is gives nothing when the seconds would not fit.
-/

namespace DeployWatch.Time

/-- The number of nanoseconds in a second. -/
def nanosPerSecond : Nat := 1000000000

/-- The exclusive bound of the seconds of a span. -/
def secondBound : Nat := 1 <<< 64

/-- A length of time. -/
structure Span where
  /-- Whole seconds. -/
  seconds : Nat
  /-- Nanoseconds beyond the whole seconds. -/
  nanos : Nat
  seconds_lt : seconds < secondBound
  nanos_lt : nanos < nanosPerSecond
  deriving DecidableEq, Repr

namespace Span

/-- The empty span. -/
def zero : Span := ⟨0, 0, by decide, by decide⟩

instance : Inhabited Span := ⟨zero⟩

/-- A span of so many seconds and nanoseconds, the latter carried into the seconds; none if
the seconds do not fit. -/
def ofParts? (seconds nanos : Nat) : Option Span :=
  if h : seconds + nanos / nanosPerSecond < secondBound then
    some ⟨seconds + nanos / nanosPerSecond, nanos % nanosPerSecond, h,
      Nat.mod_lt _ (by decide)⟩
  else none

/-- A span of milliseconds, at most the longest span. -/
def ofMillis (ms : Nat) : Span :=
  (ofParts? (ms / 1000) (ms % 1000 * 1000000)).getD
    ⟨secondBound - 1, nanosPerSecond - 1, by decide, by decide⟩

/-- The length in nanoseconds. -/
def toNanos (span : Span) : Nat := span.seconds * nanosPerSecond + span.nanos

/-- The span is empty. -/
def isZero (span : Span) : Bool := span.seconds == 0 && span.nanos == 0

end Span

end DeployWatch.Time
