/-!
Lengths of time with nanosecond resolution.
-/

namespace Jobflow.Time

/-- A length of time: whole seconds and nanoseconds below one second. -/
structure Duration where
  secs : Nat
  nanos : Nat
  deriving DecidableEq, Repr

namespace Duration

def ofSeconds (n : Nat) : Duration := ⟨n, 0⟩

def ofMillis (n : Nat) : Duration := ⟨n / 1000, n % 1000 * 1000000⟩

/-- The length in whole milliseconds, rounded up: how long a timer with
millisecond ticks waits. -/
def millisUp (d : Duration) : Nat :=
  d.secs * 1000 + (d.nanos + 999999) / 1000000

end Duration

end Jobflow.Time
