import Jasil.Core.Timestamps

/-! # Retry backoff
The delay before a failed job runs again: exponential in the attempt number, clamped, with *equal
jitter* on top. Arithmetic is exact; the draw of the random generator is an argument in `[0, 1]`,
or `none` when jitter is off. -/

namespace Jasil.Jobs

/-- Cap on the exponent of the backoff. -/
def maxShift : ℤ := 30

/-- `random.uniform(a, b)` for the draw `u` of the generator. -/
def uniform (a b u : ℚ) : ℚ := a + (b - a) * u

/-- The retry delay after `attempts` failed attempts, in seconds. -/
def backoffSeconds (attempts : ℤ) (baseSeconds maxSeconds : ℚ) (jitter : Option ℚ) : ℚ :=
  let delay :=
    if attempts ≤ 1 then baseSeconds
    else baseSeconds * 2 ^ (min (attempts - 1) maxShift).toNat
  let delay := min delay maxSeconds
  let delay :=
    match jitter with
    | some u => delay * (1 / 2) + uniform 0 (delay * (1 / 2)) u
    | none => delay
  max 0 delay

/-- How long a deferred or continued job waits, in seconds: the request clamped, with up to a tenth of
it added when there is jitter. -/
def deferSeconds (requestedSeconds maxSeconds : ℚ) (jitter : Option ℚ) : ℚ :=
  let delay := min (max requestedSeconds 0) maxSeconds
  let delay :=
    match jitter with
    | some u => delay + uniform 0 (delay * (1 / 10)) u
    | none => delay
  min delay maxSeconds

end Jasil.Jobs
