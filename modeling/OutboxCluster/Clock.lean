/-!
# Clocks

A node reads two clocks. The wall clock counts milliseconds in a signed 64-bit
word; it is shared between nodes, may jump in either direction, and is what
leases in the table are measured by. The monotonic clock counts milliseconds
from zero, only moves forward, and is local to a node.

A wall clock that is moved past its largest reading goes on at the smallest.
The end of a lease stops there instead, so that a lease is never over before it
began. The time between two readings need not be a reading, and then there is no
such time.

## Main definitions

* `IsReading`: A value that the wall clock can have.
* `wrap`: An integer brought into the range of a signed 64-bit word.
* `saturate`: The reading nearest to an integer.
* `reading?`: An integer as a reading, if it is one.
* `WallClock`: A clock that is moved by hand.
-/

namespace OutboxCluster

/-- The smallest reading. -/
def minReading : Int := -9223372036854775808

/-- The largest reading. -/
def maxReading : Int := 9223372036854775807

/-- A value that the wall clock can have. -/
def IsReading (n : Int) : Prop := minReading ≤ n ∧ n ≤ maxReading

instance (n : Int) : Decidable (IsReading n) := inferInstanceAs (Decidable (_ ∧ _))

/-- Bring an integer into range by turns of 2^64. -/
def wrap (n : Int) : Int := n.bmod 18446744073709551616

/-- The reading nearest to an integer. -/
def saturate (n : Int) : Int := max minReading (min maxReading n)

/-- An integer as a reading, if it is one. -/
def reading? (n : Int) : Option Int := if IsReading n then some n else none

/-- A wall clock that is moved by hand. -/
structure WallClock where
  now : Int
deriving DecidableEq, Repr

namespace WallClock

/-- Move the clock by some milliseconds. -/
def advance (c : WallClock) (ms : Int) : WallClock := ⟨wrap (c.now + ms)⟩

/-- Set the clock. -/
def set (_ : WallClock) (now : Int) : WallClock := ⟨now⟩

end WallClock

end OutboxCluster
