/-
# Clocks

A clock counts ticks of one length.  A pause that has to last a span of time is made of as few
ticks as that takes, so it is never too short, and too long by less than a tick.  On a clock that
counts nanoseconds it is just as long as the span.
-/

import DeployWatch.Time.Span

namespace DeployWatch.Time

/-- A clock that counts ticks. -/
structure Clock where
  /-- The nanoseconds from one tick to the next. -/
  tick : Nat
  tick_pos : 0 < tick
  deriving DecidableEq, Repr

namespace Clock

/-- The clock that counts milliseconds. -/
def millis : Clock := ⟨1000000, by decide⟩

/-- The clock that counts nanoseconds. -/
def nanos : Clock := ⟨1, by decide⟩

/-- The ticks that a pause takes which has to last a span. -/
def ticks (clock : Clock) (span : Span) : Nat := (span.toNanos + clock.tick - 1) / clock.tick

variable {clock : Clock} {span : Span} {pause : Nat}

/-- A pause of so many ticks lasts a span: it is not shorter, and longer by less than a tick. -/
structure Lasts (clock : Clock) (pause : Nat) (span : Span) : Prop where
  enough : span.seconds * 1000000000 + span.nanos ≤ pause * clock.tick
  tight : pause * clock.tick < span.seconds * 1000000000 + span.nanos + clock.tick

theorem lasts_ticks (clock : Clock) (span : Span) : clock.Lasts (clock.ticks span) span := by
  have pos := clock.tick_pos
  have length : span.toNanos = span.seconds * 1000000000 + span.nanos := rfl
  have whole := Nat.div_mul_le_self (span.toNanos + clock.tick - 1) clock.tick
  have rest := Nat.lt_div_mul_add pos (a := span.toNanos + clock.tick - 1)
  constructor <;> unfold ticks <;> omega

end Clock

end DeployWatch.Time
