import Jasil.Audit.Models
import Jasil.Paging.Pages

/-! # Listing the audit trail
`list_entries`: the entries that match a filter, newest first, one page at a time. An entry is the row as
it is read back. -/

namespace Jasil.Audit

open Keyset (Page)

/-- What `list_entries` matches. Every filter narrows; none is required. -/
structure AuditFilters where
  actionIds : Option (List String) := none
  categories : Option (List String) := none
  severities : Option (List String) := none
  outcomes : Option (List String) := none
  actorId : Option String := none
  actorType : Option String := none
  targetType : Option String := none
  targetId : Option String := none
  targetOwnerId : Option String := none
  requestId : Option String := none
  eventId : Option String := none
  source : Option String := none
  fromTs : Option Instant := none
  toTs : Option Instant := none

/-- `DEFAULT_WINDOW`: 24 hours. -/
def defaultWindow : ℤ := 24 * 3600 * 1000000

/-- `MAX_WINDOW`: 31 days. -/
def maxWindow : ℤ := 31 * 86400 * 1000000

/-- `MAX_PAGE_SIZE`. -/
def maxPageSize : ℤ := 500

/-- `column.in_(values)`, when there are values. -/
def InValues (values : Option (List String)) (column : String) : Prop := ∀ vs ∈ values, column ∈ vs

/-- `column == value`, when there is a value; `NULL` equals nothing. -/
def EqValue (value : Option String) (column : Option String) : Prop := ∀ v ∈ value, column = some v

instance (values : Option (List String)) (column : String) : Decidable (InValues values column) :=
  inferInstanceAs (Decidable (∀ vs ∈ values, column ∈ vs))

instance (value column : Option String) : Decidable (EqValue value column) :=
  inferInstanceAs (Decidable (∀ v ∈ value, column = some v))

/-- The row matches the filters and lies in the time range, both ends included. -/
def AuditFilters.Matches (f : AuditFilters) (fromTs toTs : Instant) (r : AuditLog) : Prop :=
  fromTs ≤ r.occurredAt ∧ r.occurredAt ≤ toTs
    ∧ InValues f.actionIds r.actionId ∧ InValues f.categories r.category
    ∧ InValues f.severities r.severity ∧ InValues f.outcomes r.outcome
    ∧ EqValue f.actorId r.actorId ∧ EqValue f.actorType (some r.actorType)
    ∧ EqValue f.targetType r.targetType ∧ EqValue f.targetId r.targetId
    ∧ EqValue f.targetOwnerId r.targetOwnerId ∧ EqValue f.requestId r.requestId
    ∧ EqValue f.eventId r.eventId ∧ EqValue f.source (some r.source)

instance (f : AuditFilters) (fromTs toTs : Instant) :
    DecidablePred (f.Matches fromTs toTs) := fun _ => inferInstanceAs (Decidable (_ ∧ _))

variable {κ : Type*} [LinearOrder κ]

/-- `list_entries`, at the time `now`. -/
def listEntries (collate : String ↪ κ) (log : Table AuditLog.key) (now : Instant)
    (filters : AuditFilters) (cursor : Option String) (limit : ℤ) :
    Except String (Page AuditLog String) :=
  if ¬(1 ≤ limit ∧ limit ≤ maxPageSize) then
    .error ("limit must be between 1 and " ++ toString maxPageSize ++ ", not " ++ toString limit)
  else
    let toTs := filters.toTs.getD now
    let fromTs := filters.fromTs.getD (toTs - defaultWindow)
    if fromTs > toTs then
      .error ("from_ts (" ++ isoformat fromTs ++ ") is after to_ts (" ++ isoformat toTs ++ ")")
    else if toTs - fromTs > maxWindow then
      .error ("the time range may cover at most " ++ toString (maxWindow / (86400 * 1000000))
        ++ " days; page through longer ones")
    else
      readPage collate AuditLog.occurredAt AuditLog.id "audit" limit.toNat
        (log.select (filters.Matches fromTs toTs)) cursor

/-- What an accepted call reads. -/
theorem listEntries_eq (collate : String ↪ κ) (log : Table AuditLog.key) (now : Instant)
    {filters : AuditFilters} {fromTs toTs : Instant} (hfrom : filters.fromTs = some fromTs)
    (hto : filters.toTs = some toTs) (hle : fromTs ≤ toTs) (hwindow : toTs - fromTs ≤ maxWindow)
    (cursor : Option String) {limit : ℤ} (h1 : 1 ≤ limit) (hmax : limit ≤ maxPageSize) :
    listEntries collate log now filters cursor limit
      = readPage collate AuditLog.occurredAt AuditLog.id "audit" limit.toNat
          (log.select (filters.Matches fromTs toTs)) cursor := by
  unfold listEntries
  rw [hfrom, hto, if_neg (not_not.mpr ⟨h1, hmax⟩)]
  dsimp only [Option.getD_some]
  rw [if_neg (not_lt.mpr hle), if_neg (not_lt.mpr hwindow)]

end Jasil.Audit
