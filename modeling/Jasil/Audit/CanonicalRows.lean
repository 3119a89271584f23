import Jasil.Audit.Models
import Jasil.Core.IsoFormat
import Jasil.Text.JsonKeys

/-! # What is hashed of a window
The rows of a window as text, one line each, in the order of their timestamps and then of their ids, and the
hash of the window before them at the end.

* **`canonicalRow`**: the line of one row.
* **`windowRows`**: the order, whatever the order in which the database returns rows of one timestamp.
* **`digestStream`**: what `_digest` gives to the hash function.
* **`digestStream_eq_iff`**: it is the same for the same rows and the same hash, and for no others. -/

namespace Jasil.Audit

open Json (Same WellFormed)

/-! ## A row as it is fetched -/

/-- A `datetime` as a driver returns it: the time on the clock of some zone, and the offset of that zone
from UTC unless it is left out. -/
structure DateTime where
  wall : ℤ
  offset : Option ℤ

/-- `as_utc`: a `datetime` without an offset is in UTC. -/
def DateTime.asUtc (moment : DateTime) : Instant := moment.wall - moment.offset.getD 0

/-- A row as a driver returns it. -/
structure FetchedRow where
  row : AuditLog
  occurredAt : DateTime
  /-- The timestamp is the one that is stored, in whatever zone. -/
  utc : occurredAt.asUtc = row.occurredAt

/-- A row as a driver returns it that keeps timestamps in UTC. -/
def AuditLog.fetched (r : AuditLog) : FetchedRow := ⟨r, ⟨r.occurredAt, some 0⟩, Int.sub_zero _⟩

/-- What is read of a row is the row that was stored. -/
@[simp] theorem row_fetched (r : AuditLog) : r.fetched.row = r := rfl

/-! ## The line of a row -/

/-- A column that may be `NULL`. -/
def ofText : Option String → Json
  | none => .null
  | some s => .str s

/-- The columns of a row, in the order of `_COLUMNS`. -/
def columns (r : FetchedRow) : List Json :=
  [.str r.row.id, .str (isoformatMicroseconds r.occurredAt.asUtc), .str r.row.actionId,
    .str r.row.category, .str r.row.severity, .str r.row.outcome, .str r.row.actorType,
    ofText r.row.actorId, ofText r.row.credentialType, ofText r.row.credentialId,
    ofText r.row.onBehalfOfId, ofText r.row.targetType, ofText r.row.targetId,
    ofText r.row.targetOwnerId, ofText r.row.requestId, ofText r.row.eventId, .str r.row.source,
    ofText r.row.ipAddress, ofText r.row.userAgent, r.row.details, .int r.row.detailsVersion,
    ofText r.row.instanceId, ofText r.row.appName, ofText r.row.appVersion]

/-- `canonical_row`. -/
def canonicalRow (r : FetchedRow) : List Char := Json.dumps (.arr (columns r))

/-- `_window_rows`, for rows that come in the order of their timestamps. -/
def windowRows (fetched : List FetchedRow) : List FetchedRow :=
  sortGroups (fun r => r.occurredAt.asUtc) (fun r => r.row.id) fetched

/-- The lines of the rows, and what comes after them. -/
def stream : List FetchedRow → List Char → List Char
  | [], rest => rest
  | r :: rs, rest => canonicalRow r ++ '\n' :: stream rs rest

/-- What `_digest` gives to the hash function. -/
def digestStream (fetched : List FetchedRow) (prevHash : Option String) : List Char :=
  stream (windowRows fetched) (prevHash.getD "").toList

/-! ## Rows that are the same -/

/-- The two rows agree in every column, in `details` up to the order of keys. -/
def SameRow (r r' : AuditLog) : Prop :=
  { r with details := .null } = { r' with details := .null } ∧ Same r.details r'.details

/-- A row as the table holds it: its timestamp is a `datetime`, its details are a value Python holds. -/
structure AuditLog.Stored (r : AuditLog) : Prop where
  occurredAt : Representable r.occurredAt
  details : WellFormed r.details

/-- The row with the keys of its details in order. -/
def AuditLog.sorted (r : AuditLog) : AuditLog := { r with details := r.details.sortKeys }

/-- The order of the rows of a window. -/
def AuditLog.rank (r : AuditLog) : Instant ×ₗ String := toLex (r.occurredAt, r.id)

/-- Sorting the keys of a row's JSON leaves the row where it is in the order of the rows. -/
@[simp] theorem rank_sorted (r : AuditLog) : r.sorted.rank = r.rank := rfl

/-- Two rows are the same for the digest exactly when they are equal once their keys are sorted. -/
theorem sorted_eq_iff {r r' : AuditLog} (h : r.Stored) (h' : r'.Stored) :
    r.sorted = r'.sorted ↔ SameRow r r' := by
  have hdetails := Json.sortKeys_eq_iff h.details h'.details
  cases r
  cases r'
  simp only [AuditLog.sorted, SameRow, AuditLog.mk.injEq, true_and] at hdetails ⊢
  rw [← hdetails]
  constructor
  · intro h
    simp only [h, and_self]
  · intro h
    simp only [h, and_self]

/-! ## One line -/

/-- Texts are the same as JSON when they are equal. -/
theorem same_ofText (a b : Option String) : Same (ofText a) (ofText b) ↔ a = b := by
  cases a <;> cases b <;> simp [ofText, Same]

/-- The JSON of a text is well formed. -/
theorem wellFormed_ofText (a : Option String) : WellFormed (ofText a) := by
  cases a <;> simp [ofText, WellFormed]

/-- The columns of a row that a table can store are well formed JSON. -/
theorem wellFormed_columns {r : FetchedRow} (h : r.row.Stored) :
    WellFormed (.arr (columns r)) := by
  simp only [columns, WellFormed, Json.ItemsWellFormed, wellFormed_ofText, h.details, and_self]

/-- The columns are the same for the same row only. -/
theorem same_columns {r r' : FetchedRow} (h : r.row.Stored) (h' : r'.row.Stored) :
    Same (.arr (columns r)) (.arr (columns r')) ↔ SameRow r.row r'.row := by
  have hiso : isoformatMicroseconds r.occurredAt.asUtc = isoformatMicroseconds r'.occurredAt.asUtc
      ↔ r.row.occurredAt = r'.row.occurredAt := by
    rw [r.utc, r'.utc]
    exact ⟨isoformatMicroseconds_inj h.occurredAt h'.occurredAt, fun h => by rw [h]⟩
  simp only [columns, Same, Json.ItemsSame, same_ofText, hiso, SameRow, and_true]
  cases hr : r.row
  cases hr' : r'.row
  simp only [AuditLog.mk.injEq, true_and]
  constructor
  · intro h
    simp only [h, and_self]
  · intro h
    simp only [h, and_self]

/-- **The lines of two rows are the same for the same row only.** -/
theorem canonicalRow_append_inj {r r' : FetchedRow} (h : r.row.Stored) (h' : r'.row.Stored)
    {rest rest' : List Char}
    (heq : canonicalRow r ++ '\n' :: rest = canonicalRow r' ++ '\n' :: rest') :
    SameRow r.row r'.row ∧ rest = rest' := by
  have hends (rest : List Char) : EndsNumber ('\n' :: rest) := by
    rintro c ⟨⟩
    decide
  obtain ⟨hsame, hrest⟩ := Json.dumps_append_inj (wellFormed_columns h) (wellFormed_columns h')
    (hends rest) (hends rest') heq
  exact ⟨(same_columns h h').mp hsame, (List.cons.inj hrest).2⟩

/-- Rows that are the same have one canonical text. -/
theorem canonicalRow_of_same {r r' : FetchedRow} (h : r.row.Stored) (h' : r'.row.Stored)
    (hsame : SameRow r.row r'.row) : canonicalRow r = canonicalRow r' :=
  (Json.dumps_eq_iff (wellFormed_columns h) (wellFormed_columns h')).mpr ((same_columns h h').mpr hsame)

/-! ## The whole window -/

/-- A hash as it is stored: hexadecimal digits. -/
def IsHash (h : String) : Prop := h ≠ "" ∧ ∀ c ∈ h.toList, c.isDigit = true ∨ 'a' ≤ c ∧ c ≤ 'f'

instance (h : String) : Decidable (IsHash h) :=
  @instDecidableAnd _ _ inferInstance (List.decidableBAll _ h.toList)

/-- The rows of a window as the database returns them: rows of one timestamp in any order. -/
structure Fetched (fetched : List FetchedRow) : Prop where
  stored : ∀ r ∈ fetched, r.row.Stored
  ids : (fetched.map fun r => r.row.id).Nodup
  ordered : fetched.Pairwise fun r r' => r.occurredAt.asUtc ≤ r'.occurredAt.asUtc

/-- The two lists hold the same rows, in whatever order. -/
def SameRows (rows rows' : List AuditLog) : Prop :=
  Multiset.Rel SameRow (rows : Multiset AuditLog) (rows' : Multiset AuditLog)

/-- Two tables have the same rows exactly when these are the same up to order once their keys are sorted. -/
theorem sameRows_iff {rows rows' : List AuditLog} (h : ∀ r ∈ rows, r.Stored)
    (h' : ∀ r ∈ rows', r.Stored) :
    SameRows rows rows' ↔ (rows.map AuditLog.sorted).Perm (rows'.map AuditLog.sorted) := by
  rw [← Multiset.coe_eq_coe, ← Multiset.map_coe, ← Multiset.map_coe, ← Multiset.rel_eq,
    Multiset.rel_map]
  constructor
  · intro hrel
    exact hrel.mono fun r hr r' hr' hsame => (sorted_eq_iff (h r hr) (h' r' hr')).mpr hsame
  · intro hrel
    exact hrel.mono fun r hr r' hr' heq => (sorted_eq_iff (h r hr) (h' r' hr')).mp heq

/-- A window is in the order of the rows' ranks. -/
theorem windowRows_eq {fetched : List FetchedRow} (h : Fetched fetched) :
    windowRows fetched = sortBy (fun r => r.row.rank) fetched := by
  have hkey : (fun r : FetchedRow => toLex (r.occurredAt.asUtc, r.row.id)) = fun r => r.row.rank := by
    funext r
    rw [r.utc]
    rfl
  have hranks : (fetched.map fun r : FetchedRow => r.row.rank).Nodup := by
    refine List.Nodup.of_map (fun rank => (ofLex rank).2) ?_
    rw [List.map_map]
    exact h.ids
  rw [windowRows, sortGroups_eq h.ordered (hkey ▸ hranks), hkey]

/-- The stream depends on the rows with sorted keys only. -/
theorem stream_of_sorted {rs rs' : List FetchedRow} (h : ∀ r ∈ rs, r.row.Stored)
    (h' : ∀ r ∈ rs', r.row.Stored) (rest : List Char)
    (heq : rs.map (fun r => r.row.sorted) = rs'.map fun r => r.row.sorted) :
    stream rs rest = stream rs' rest := by
  induction rs generalizing rs' with
  | nil =>
    rw [List.map_nil] at heq
    rw [List.map_eq_nil_iff.mp heq.symm]
  | cons r rs ih =>
    obtain ⟨r', rs', rfl, hr, hrs⟩ := List.map_eq_cons_iff.mp heq.symm
    rw [List.forall_mem_cons] at h h'
    rw [stream, stream, ih h.2 h'.2 hrs.symm,
      canonicalRow_of_same h.1 h'.1 ((sorted_eq_iff h.1 h'.1).mp hr.symm)]

/-- **The lines are those of one list of rows**, and tell where the rest begins. -/
theorem stream_inj {rs rs' : List FetchedRow} (h : ∀ r ∈ rs, r.row.Stored)
    (h' : ∀ r ∈ rs', r.row.Stored) {rest rest' : List Char} (hrest : rest.head? ≠ some '[')
    (hrest' : rest'.head? ≠ some '[') (heq : stream rs rest = stream rs' rest') :
    rs.map (fun r => r.row.sorted) = rs'.map (fun r => r.row.sorted) ∧ rest = rest' := by
  -- a line starts with a bracket
  have hline (r : FetchedRow) (cs : List Char) : (canonicalRow r ++ cs).head? = some '[' := by
    rw [canonicalRow, Json.dumps, columns, Json.sortKeys, Json.sortItems, Json.print]
    rfl
  induction rs generalizing rs' with
  | nil =>
    cases rs' with
    | nil => exact ⟨rfl, heq⟩
    | cons r' rs' =>
      rw [stream, stream] at heq
      exact absurd (heq ▸ hline r' _) hrest
  | cons r rs ih =>
    cases rs' with
    | nil =>
      rw [stream, stream] at heq
      exact absurd (heq ▸ hline r _) hrest'
    | cons r' rs' =>
      rw [stream, stream] at heq
      rw [List.forall_mem_cons] at h h'
      obtain ⟨hsame, htail⟩ := canonicalRow_append_inj h.1 h'.1 heq
      obtain ⟨hrows, hrest⟩ := ih h.2 h'.2 htail
      rw [List.map_cons, List.map_cons, hrows, (sorted_eq_iff h.1 h'.1).mpr hsame]
      exact ⟨rfl, hrest⟩

/-- Windows are the same in order exactly when they hold the same rows. -/
theorem map_sorted_windowRows {fetched fetched' : List FetchedRow} (h : Fetched fetched)
    (h' : Fetched fetched') :
    (windowRows fetched).map (fun r => r.row.sorted) = (windowRows fetched').map (fun r => r.row.sorted)
      ↔ SameRows (fetched.map FetchedRow.row) (fetched'.map FetchedRow.row) := by
  have hsort (rs : List FetchedRow) :
      (sortBy (fun r => r.row.rank) rs).map (fun r => r.row.sorted)
        = sortBy AuditLog.rank (rs.map fun r => r.row.sorted) :=
    List.map_insertionSort _ _ _ _ fun _ _ _ _ => Iff.rfl
  have hranks : ((fetched.map fun r => r.row.sorted).map AuditLog.rank).Nodup := by
    refine List.Nodup.of_map (fun rank => (ofLex rank).2) ?_
    rw [List.map_map, List.map_map]
    exact h.ids
  rw [windowRows_eq h, windowRows_eq h', hsort, hsort, sortBy_eq_iff_perm hranks, sameRows_iff]
  · rw [List.map_map, List.map_map]
    rfl
  · exact List.forall_mem_map.mpr h.stored
  · exact List.forall_mem_map.mpr h'.stored

/-- **What is hashed of a window is the same for the same rows and the same hash before them**, and for no
others. -/
theorem digestStream_eq_iff {fetched fetched' : List FetchedRow} (h : Fetched fetched)
    (h' : Fetched fetched') {prev prev' : Option String} (hprev : ∀ hash ∈ prev, IsHash hash)
    (hprev' : ∀ hash ∈ prev', IsHash hash) :
    digestStream fetched prev = digestStream fetched' prev' ↔
      SameRows (fetched.map FetchedRow.row) (fetched'.map FetchedRow.row) ∧ prev = prev' := by
  have hstored {rs : List FetchedRow} (h : Fetched rs) : ∀ r ∈ windowRows rs, r.row.Stored :=
    fun r hr => h.stored r ((sortGroups_perm _ _ _).mem_iff.mp hr)
  -- a hash does not start with a bracket
  have hhead {p : Option String} (hp : ∀ hash ∈ p, IsHash hash) :
      (p.getD "").toList.head? ≠ some '[' := by
    intro hbracket
    cases p with
    | none => exact nomatch hbracket
    | some hash =>
      rcases (hp hash rfl).2 _ (List.mem_of_head? hbracket) with hc | hc
      · exact absurd hc (by decide)
      · exact absurd hc (by decide)
  have hinj : (prev.getD "").toList = (prev'.getD "").toList → prev = prev' := by
    intro heq
    have heq := String.toList_injective heq
    cases prev with
    | none =>
      cases prev' with
      | none => rfl
      | some hash' => exact absurd heq.symm (hprev' hash' rfl).1
    | some hash =>
      cases prev' with
      | none => exact absurd heq (hprev hash rfl).1
      | some hash' => exact congrArg some heq
  rw [digestStream, digestStream, ← map_sorted_windowRows h h']
  constructor
  · intro heq
    obtain ⟨hrows, hrest⟩ := stream_inj (hstored h) (hstored h') (hhead hprev) (hhead hprev') heq
    exact ⟨hrows, hinj hrest⟩
  · rintro ⟨hrows, rfl⟩
    exact stream_of_sorted (hstored h) (hstored h') _ hrows

/-- A row with an id and details, all the rest the same. -/
def sampleRow (id : String) (details : Json) : AuditLog :=
  { id := id, occurredAt := 1000000, actionId := "users.user.update", category := "data",
    severity := "info", outcome := "success", actorType := "user", actorId := some "u1",
    credentialType := none, credentialId := none, onBehalfOfId := none, targetType := some "user",
    targetId := some "u2", targetOwnerId := none, requestId := none, eventId := none, source := "api",
    ipAddress := none, userAgent := none, details := details, detailsVersion := 1,
    instanceId := some "i1", appName := none, appVersion := none }

/-- Two rows of one moment, fetched once in UTC and once, the other way round, at two hours from it with the
keys of the details in another order; the hash before them counts too. -/
theorem digestStream_eq_iff_tie :
    let a := sampleRow "a" (.obj [("x", .int 1), ("y", .null)])
    let a' : FetchedRow :=
      ⟨sampleRow "a" (.obj [("y", .null), ("x", .int 1)]), ⟨7201000000, some 7200000000⟩, rfl⟩
    let b := sampleRow "b" .null
    digestStream [a.fetched, b.fetched] (some "0f") = digestStream [b.fetched, a'] (some "0f")
      ∧ digestStream [a.fetched, b.fetched] (some "0f") ≠ digestStream [b.fetched, a'] none := by
  intro a a' b
  have hat : Representable 1000000 := by decide
  have hstored : a.Stored ∧ a'.row.Stored ∧ b.Stored :=
    ⟨⟨hat, by simp [a, sampleRow, WellFormed, Json.FieldsWellFormed]⟩,
      ⟨hat, by simp [a', sampleRow, WellFormed, Json.FieldsWellFormed]⟩,
      ⟨hat, by simp [b, sampleRow, WellFormed]⟩⟩
  have hab : Fetched [a.fetched, b.fetched] :=
    ⟨by simpa using ⟨hstored.1, hstored.2.2⟩, by decide, by simp; decide⟩
  have hba : Fetched [b.fetched, a'] :=
    ⟨by simpa using ⟨hstored.2.2, hstored.2.1⟩, by decide, by simp; decide⟩
  have hint : Same (.int 1) (.int 1) := by rw [Same]
  have hnull : Same .null .null := by
    rw [Same]
    trivial
  have hsame : SameRow a a'.row := by
    refine ⟨rfl, ?_⟩
    show Same (.obj [("x", .int 1), ("y", .null)]) (.obj [("y", .null), ("x", .int 1)])
    rw [Same, Json.FieldsSame, Json.FieldsSame, Json.FieldsSame]
    exact ⟨rfl, ⟨_, .tail _ (.head _), hint⟩, ⟨_, .head _, hnull⟩, trivial⟩
  have hrefl : SameRow b b := ⟨rfl, hnull⟩
  have hrows : SameRows [a, b] [b, a'.row] := by
    have hswap : ((([b, a'.row] : List AuditLog)) : Multiset AuditLog) = ([a'.row, b] : List AuditLog) :=
      Multiset.coe_eq_coe.mpr (List.Perm.swap _ _ _)
    rw [SameRows, hswap]
    exact .cons hsame (.cons hrefl .zero)
  have hhash : ∀ hash ∈ some "0f", IsHash hash := by decide
  have hnone : ∀ hash ∈ (none : Option String), IsHash hash := nofun
  refine ⟨(digestStream_eq_iff hab hba hhash hhash).mpr ⟨hrows, rfl⟩, ?_⟩
  intro heq
  exact absurd ((digestStream_eq_iff hab hba hhash hnone).mp heq).2 (by decide)

end Jasil.Audit
