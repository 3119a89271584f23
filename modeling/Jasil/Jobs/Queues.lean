import Jasil.Core.Limits

/-! # Queue names
Which names a durable-job queue may have, and the normalised allowlist a worker selects with. -/

namespace Jasil.Jobs

/-- Queue assigned to registrations and jobs that do not select one. -/
def defaultQueue : String := "default"

/-- Width of `processing_jobs.queue`. -/
def maxQueueNameLength : ℕ := 100

/-- A character a queue name may start with. -/
def isQueueNameStart (c : Char) : Bool := ('a' ≤ c && c ≤ 'z') || ('0' ≤ c && c ≤ '9')

/-- A character a queue name may go on with. -/
def isQueueNameRest (c : Char) : Bool := isQueueNameStart c || c == '.' || c == '_' || c == '-'

/-- The pattern a queue name has to match in full. -/
def queueNameMatches (queue : String) : Bool :=
  match queue.toList with
  | [] => false
  | c :: cs => isQueueNameStart c && cs.all isQueueNameRest

/-- Return the name unchanged, or raise when it is overlong or has an unsupported character. -/
def validateQueueName (queue : String) : Except String String := do
  checkLength queue "queue" maxQueueNameLength
  if queueNameMatches queue then return queue
  else throw ("queue must start with a lowercase letter or digit and contain only a-z, 0-9, '.', "
    ++ "'_', or '-'")

/-- An optional non-empty allowlist: validated, without repeats. -/
def normalizeQueueSelector (queues : Option (List String)) :
    Except String (Option (List String)) :=
  match queues with
  | none => .ok none
  | some [] => .error "queues must be a non-empty allowlist when provided"
  | some values => do
    let names ← values.mapM validateQueueName
    return some names.eraseDups

/-- What passes validation is the name itself. -/
theorem validateQueueName_ok {queue name : String} (h : validateQueueName queue = .ok name) :
    name = queue ∧ queueNameMatches queue = true ∧ queue.length ≤ maxQueueNameLength := by
  rw [validateQueueName, checkLength] at h
  by_cases hl : maxQueueNameLength < queue.length
  · rw [if_pos hl] at h
    exact nomatch h
  · rw [if_neg hl] at h
    cases hm : queueNameMatches queue with
    | true =>
      rw [hm] at h
      exact ⟨(Except.ok.inj h).symm, rfl, Nat.le_of_not_lt hl⟩
    | false =>
      rw [hm] at h
      exact nomatch h

end Jasil.Jobs
