/-!
# Kademlia.Time

Instants and durations in whole milliseconds. Nothing in the library reads a clock: every operation
that depends on the time takes the instant as an argument. Subtraction stops at zero, so time that
has passed since a later instant is none.

Durations are counted in whole seconds of 64 bits and a fraction, so not every multiple of a
duration is one: `Duration.times?`. The clock of a host has a bit less, so not every duration leads
from an instant to another: `Time.after?`.
-/

namespace Kademlia

/-- An instant, in milliseconds since some fixed beginning. -/
abbrev Time := Nat

/-- A span of time in milliseconds. -/
abbrev Duration := Nat

namespace Time

/-- What the instants of a host's clock stay below: the milliseconds of 2^63 seconds. -/
def limit : Nat := (1 <<< 63) * 1000

/-- The instant of a host's clock that is a duration later, unless the clock does not get there. -/
def after? (now : Time) (span : Duration) : Option Time :=
  if now + span < limit then some (now + span) else none

end Time

namespace Duration

/-- What durations stay below: the milliseconds of 2^64 seconds. -/
def limit : Nat := (1 <<< 64) * 1000

/-- A multiple of a duration, unless it is too long to be a duration itself. -/
def times? (span : Duration) (count : Nat) : Option Duration :=
  if span * count < limit then some (span * count) else none

end Duration

end Kademlia
