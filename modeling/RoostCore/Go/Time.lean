import Mathlib.Algebra.Order.Ring.Int

/-! Go instants and durations. An instant counts nanoseconds from Go's zero time
(January 1, year 1 UTC), so the zero value is `0` and `Truncate` is relative to it;
monotonic readings are not modelled. -/
namespace Roost.Go

abbrev Time := Int

/-- `time.Duration`, in nanoseconds. -/
abbrev Duration := Int

namespace Time

/-- Nanoseconds from the zero time to the Unix epoch. -/
def unixEpoch : Time := 62135596800 * 1000000000

def isZero (t : Time) : Bool := t == 0

/-- `Time.UnixNano`, which wraps at the range of `int64`. -/
def unixNano (t : Time) : Int := Int.bmod (t - unixEpoch) (2 ^ 64)

def unixMilli (t : Time) : Int := (t - unixEpoch) / 1000000

def unix (t : Time) : Int := (t - unixEpoch) / 1000000000

def truncate (t : Time) (unit : Duration) : Time := t - t % unit

/-- The JSON encoder refuses years before 0 and after 9999; year zero has 366 days. -/
def marshals (t : Time) : Bool :=
  -366 * 86400 * 1000000000 ≤ t && t < 315537897600 * 1000000000

end Time

def millisecond : Duration := 1000000

def second : Duration := 1000000000

end Roost.Go
