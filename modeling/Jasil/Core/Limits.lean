import Mathlib.Data.Int.Notation
import Mathlib.Data.Nat.Notation

/-! # Bounds on stored values
`checkLength` refuses an identifier that would not fit its column; `fitLength` clamps a diagnostic
text and marks that it was cut; `checkLimit` refuses the size of a page. -/

namespace Jasil

/-- Cap on the failure text written to `processing_jobs.last_error`. -/
def maxStoredErrorLength : ℕ := 4000

/-- What ends a text that was cut. -/
def truncationMarker : String := "..."

/-- Raise when `value` would not fit the `limit`-character column for `field`. The value itself is
not echoed. -/
def checkLength (value field : String) (limit : ℕ) : Except String Unit :=
  if limit < value.length then
    .error (field ++ " is " ++ toString value.length ++ " characters, which exceeds the "
      ++ toString limit ++ "-character limit and would be rejected or truncated on write")
  else .ok ()

/-- The longest duration of a setting of the job pipeline, in seconds: a year. -/
def maxJobSeconds : ℤ := 31536000

/-- `check_limit`: require `limit` to be from `minimum` to `maximum`. -/
def checkLimit (limit maximum : ℤ) (name : String) (minimum : ℤ := 1) : Except String Unit :=
  if minimum ≤ limit ∧ limit ≤ maximum then .ok ()
  else
    .error (name ++ " must be an integer between " ++ toString minimum ++ " and "
      ++ toString maximum)

/-- Clamp `value` to `limit` characters, marking it when it had to be cut. -/
def fitLength (value : Option String) (limit : ℕ) : Option String :=
  value.map fun v =>
    if v.length ≤ limit then v
    else String.ofList (v.toList.take (limit - truncationMarker.length)) ++ truncationMarker

/-- **A clamped text fits**, when the limit leaves room for the marker. -/
theorem length_fitLength_le {value : Option String} {limit : ℕ} {v : String}
    (hlimit : truncationMarker.length ≤ limit) (h : fitLength value limit = some v) :
    v.length ≤ limit := by
  obtain ⟨w, -, rfl⟩ := Option.map_eq_some_iff.mp h
  split
  · assumption
  · rw [String.length_append, String.length_ofList, List.length_take]
    omega

end Jasil
