import Jasil.Audit.Chain
import Jasil.Core.IsoFormat

/-! # The copies in the sink
What the name and the document of a copy say of the checkpoint, and what `copyToSink` does with what the sink
holds under the name.

* **`sinkName_inj`**: windows that start at different minutes have different names.
* **`recordedRetention_sinkPayload`**: the retention is read back from the document.
* **`copyToSink_of_copy`**: of a window that is in the sink already, sealed over the same rows, the copy is
  stored, whatever the settings are by then. -/

namespace Jasil.Audit

/-! ## Names -/

section Names

variable {t u : ℤ}

/-- Two padded numbers of one width are told apart, whatever follows them. -/
theorem zeroPadded_append_inj {width : ℕ} {n m : ℤ} (hw : 0 < width) (hn : 0 ≤ n ∧ n < 10 ^ width)
    (hm : 0 ≤ m ∧ m < 10 ^ width) {rest rest' : List Char}
    (h : (zeroPadded width n).toList ++ rest = (zeroPadded width m).toList ++ rest') : n = m ∧ rest = rest' := by
  have hread := readDigits_zeroPadded hw hn.1 hn.2 rest
  rw [h, readDigits_zeroPadded hw hm.1 hm.2 rest'] at hread
  obtain ⟨hvalue, hrest⟩ := Prod.mk.inj (Option.some.inj hread)
  exact ⟨hvalue.symm, hrest.symm⟩

/-- **Whole minutes are told apart by their stamp.** -/
theorem stamp_inj (ht : Representable t) (hu : Representable u) (htm : minute ∣ t) (hum : minute ∣ u)
    (h : stamp t = stamp u) : t = u := by
  have hbounds {v : ℤ} (hv : Representable v) := by
    have hmin : (-62135596800000000 : ℤ) ≤ v := hv.1
    have hmax : (253402300799999999 : ℤ) ≥ v := hv.2
    exact civilFromDays_bounds (v / 86400000000) (by omega) (by omega)
  obtain ⟨⟨hy0, hy1⟩, ⟨hm0, hm1⟩, hd0, hd1⟩ := hbounds ht
  obtain ⟨⟨hy0', hy1'⟩, ⟨hm0', hm1'⟩, hd0', hd1'⟩ := hbounds hu
  have hdays := daysFromCivil_civilFromDays (t / 86400000000)
  have hdays' := daysFromCivil_civilFromDays (u / 86400000000)
  have hminute : (60000000 : ℤ) ∣ t := htm
  have hminute' : (60000000 : ℤ) ∣ u := hum
  unfold stamp at h
  generalize hc : civilFromDays (t / 86400000000) = date at *
  generalize hc' : civilFromDays (u / 86400000000) = date' at *
  obtain ⟨year, month, dayOfMonth⟩ := date
  obtain ⟨year', month', dayOfMonth'⟩ := date'
  dsimp only at hy0 hy1 hm0 hm1 hd0 hd1 hdays hy0' hy1' hm0' hm1' hd0' hd1' hdays' h
  have hsep : "T".toList = ['T'] := rfl
  have htext := congrArg String.toList h
  simp only [String.toList_append, List.append_assoc, hsep, List.cons_append, List.nil_append] at htext
  -- one field after the other
  obtain ⟨hyear, htext⟩ := zeroPadded_append_inj (by decide) (by omega) (by omega) htext
  obtain ⟨hmonth, htext⟩ := zeroPadded_append_inj (by decide) (by omega) (by omega) htext
  obtain ⟨hdayOfMonth, htext⟩ := zeroPadded_append_inj (by decide) (by omega) (by omega) htext
  obtain ⟨hhour, htext⟩ := zeroPadded_append_inj (by decide) (by omega) (by omega) (List.cons.inj htext).2
  obtain ⟨hmin, htext⟩ := zeroPadded_append_inj (by decide) (by omega) (by omega) htext
  rw [hyear, hmonth, hdayOfMonth, hdays'] at hdays
  omega

/-- The parts of a copy's name. -/
theorem sinkName_eq (start : ℤ) (instanceId : String) :
    sinkName start instanceId = "checkpoint-" ++ instanceId ++ "-" ++ stamp start ++ ".json" := rfl

/-- **Windows that start at different minutes have different names.** -/
theorem sinkName_inj {instanceId : String} (ht : Representable t) (hu : Representable u) (htm : minute ∣ t)
    (hum : minute ∣ u) (h : sinkName t instanceId = sinkName u instanceId) : t = u := by
  refine stamp_inj ht hu htm hum (String.toList_injective ?_)
  have htext := congrArg String.toList h
  simp only [sinkName_eq, String.toList_append, List.append_assoc] at htext
  exact List.append_cancel_right
    (List.append_cancel_left (List.append_cancel_left (List.append_cancel_left htext)))

/-- The characters of a padded number. -/
theorem nameChar_zeroPadded (width : ℕ) (n : ℤ) : ∀ c ∈ (zeroPadded width n).toList, NameChar c := by
  intro c hc
  rw [toList_zeroPadded, List.mem_append] at hc
  left
  rcases hc with hc | hc
  · rw [List.eq_of_mem_replicate hc]
    decide
  · have hdigit := Nat.isDigit_of_mem_toDigits (by decide) (by decide) hc
    simp [Char.isAlphanum, hdigit]

/-- The name of a copy is valid when the characters of the deployment's id are. -/
theorem validName_sinkName {instanceId : String} (h : ∀ c ∈ instanceId.toList, NameChar c) (start : ℤ) :
    ValidName (sinkName start instanceId) := by
  have hfixed {text : String} (htext : text.toList.all (fun c => decide (NameChar c)) = true) :
      ∀ c ∈ text.toList, NameChar c := by simpa using htext
  constructor
  · simp only [sinkName_eq, String.toList_append]
    rfl
  · simp only [sinkName_eq, stamp, String.toList_append, List.append_assoc, List.forall_mem_append]
    exact ⟨hfixed rfl, h, hfixed rfl, nameChar_zeroPadded _ _, nameChar_zeroPadded _ _, nameChar_zeroPadded _ _,
      hfixed rfl, nameChar_zeroPadded _ _, nameChar_zeroPadded _ _, nameChar_zeroPadded _ _, hfixed rfl,
        hfixed rfl⟩

end Names

/-! ## Documents -/

section Documents

variable {crypto : Crypto} {instanceId : String} {signingKey : Option String} {sink : Sink}
  {c c' : AuditCheckpoint}

/-- What a copy contains is well formed JSON. -/
theorem wellFormed_sinkFields (c : AuditCheckpoint) (instanceId : String) :
    Json.WellFormed (.obj (sinkFields c instanceId)) := by
  rw [Json.WellFormed]
  refine ⟨?_, ?_⟩
  · simp [sinkFields, Json.FieldsWellFormed, Json.WellFormed, wellFormed_ofText]
  · exact (by decide : ["v", "instance_id", "window_start", "window_end", "row_count", "hash", "prev_hash",
      "signature",
      "key_id", "retention_days", "legal_hold"].Nodup)

/-- A field is found among distinct keys. -/
theorem field_eq {fields : JsonObject} (hnodup : (fields.map Prod.fst).Nodup) {name : String} {v : Json}
    (hv : (name, v) ∈ fields) : field fields name = some v := by
  rw [field, Option.map_eq_some_iff]
  cases hfind : fields.find? (·.1 = name) with
  | none => simpa using List.find?_eq_none.mp hfind (name, v) hv
  | some entry =>
    have hname : entry.1 = name := by simpa using List.find?_some hfind
    have heq := List.inj_on_of_nodup_map hnodup (List.mem_of_find?_eq_some hfind) hv hname
    exact ⟨entry, rfl, by rw [heq]⟩

/-- The document is read back. -/
theorem loads_sinkPayload (c : AuditCheckpoint) (instanceId : String) :
    (ofUtf8 (sinkPayload c instanceId)).bind Json.loads = some
    (Json.sortKeys (.obj (sinkFields c instanceId))) := by
  rw [sinkPayload, ofUtf8_utf8, Option.bind_some, Json.loads_dumps (wellFormed_sinkFields c instanceId)]

-- the rest only needs what is read back
attribute [local irreducible] sinkPayload

/-- What a copy records of the retention is read from its JSON. -/
theorem recordedRetention_eq (document : List UInt8) :
    recordedRetention (some document) = ((ofUtf8 document).bind Json.loads).bind retentionFields := by
  cases h : ofUtf8 document <;> simp [recordedRetention, h]

/-- **The retention is read back from the document.** -/
theorem recordedRetention_sinkPayload (c : AuditCheckpoint) (instanceId : String) :
    recordedRetention (some (sinkPayload c instanceId)) = some (c.retentionDays, c.legalHold) := by
  have hwf := wellFormed_sinkFields c instanceId
  have hsorted := Json.wellFormed_sortKeys _ hwf
  rw [Json.sortKeys, Json.WellFormed] at hsorted
  have hmem (name : String) (v : Json) (hv : (name, v) ∈ sinkFields c instanceId) :
      (name, Json.sortKeys v) ∈ sortBy Prod.fst (Json.sortFields (sinkFields c instanceId)) :=
    mem_sortBy.mpr (Json.mem_sortFields.mpr ⟨v, hv, rfl⟩)
  have hdays := field_eq hsorted.2 (hmem "retention_days" (.int c.retentionDays) (by simp [sinkFields]))
  have hhold := field_eq hsorted.2 (hmem "legal_hold" (.bool c.legalHold) (by simp [sinkFields]))
  rw [recordedRetention_eq, loads_sinkPayload, Option.bind_some, Json.sortKeys, retentionFields, hdays, hhold]
  simp only [Json.sortKeys]

/-- Two checkpoints of one window, sealed over the same rows after the same checkpoint. -/
structure SameWindow (c c' : AuditCheckpoint) : Prop where
  start : c.windowStart = c'.windowStart
  stop : c.windowEnd = c'.windowEnd
  rowCount : c.rowCount = c'.rowCount
  hash : c.hash = c'.hash
  prevHash : c.prevHash = c'.prevHash

/-- The checkpoint is signed with this key, or not signed without one. -/
def SignedWith (crypto : Crypto) (signingKey : Option String) (instanceId : String)
    (c : AuditCheckpoint) : Prop :=
  sealed crypto signingKey c instanceId = c

/-- The sealed checkpoint is signed with the key it was sealed with. -/
theorem signedWith_sealed (c : AuditCheckpoint) :
    SignedWith crypto signingKey instanceId (sealed crypto signingKey c instanceId) := rfl

/-- **Under the retention of the copy the window is sealed as the copy was.** -/
theorem resealed_eq (h : SameWindow c c') (hsigned : SignedWith crypto signingKey instanceId c') :
    resealed crypto signingKey instanceId c (c'.retentionDays, c'.legalHold) = c' := by
  have hfields : { c with retentionDays := c'.retentionDays, legalHold := c'.legalHold }
      = { c' with signature := c.signature, keyId := c.keyId } := by
    cases c
    cases c'
    obtain ⟨rfl, rfl, rfl, rfl, rfl⟩ := h
    rfl
  rw [resealed, hfields]
  exact hsigned

/-- Two signed checkpoints of a window with the same retention are the same. -/
theorem SameWindow.eq (h : SameWindow c c') (hc : SignedWith crypto signingKey instanceId c)
    (hc' : SignedWith crypto signingKey instanceId c')
    (hretention : (c.retentionDays, c.legalHold) = (c'.retentionDays, c'.legalHold)) : c = c' := by
  have hsame : resealed crypto signingKey instanceId c (c.retentionDays, c.legalHold) = c := hc
  rw [← hsame, hretention, resealed_eq h hc']

/-- **A window that is in the sink already** is stored as its copy has it, whatever the retention is by then. -/
theorem copyToSink_of_copy (hname : ValidName (sinkName c.windowStart instanceId)) (h : SameWindow c c')
    (hc : SignedWith crypto signingKey instanceId c) (hc' : SignedWith crypto signingKey instanceId c')
    (hread : sink.read (sinkName c.windowStart instanceId) = some (sinkPayload c' instanceId)) :
    copyToSink crypto signingKey instanceId sink c = .ok (sink, c') := by
  by_cases hcontent : sinkPayload c' instanceId = sinkPayload c instanceId
  · -- the same bytes record the same retention
    have hretention : (c.retentionDays, c.legalHold) = (c'.retentionDays, c'.legalHold) := by
      have hrecorded := recordedRetention_sinkPayload c' instanceId
      rw [hcontent, recordedRetention_sinkPayload] at hrecorded
      exact Option.some.inj hrecorded
    obtain rfl := h.eq hc hc' hretention
    have hwrite : writeOnce sink (sinkName c.windowStart instanceId) (sinkPayload c instanceId) = .ok sink := by
      simp only [writeOnce, hread, if_neg (not_not.mpr hname), if_true]
    delta copyToSink
    simp only [hwrite]
  · have hconflict : writeOnce sink (sinkName c.windowStart instanceId) (sinkPayload c instanceId)
        = .error (.conflict (sinkName c.windowStart instanceId
          ++ " already exists with different content")) := by
      simp only [writeOnce, hread, if_neg (not_not.mpr hname), if_neg hcontent]
    have hsame : ¬some (sinkPayload c' instanceId) ≠ some (sinkPayload c' instanceId) := not_not.mpr rfl
    delta copyToSink
    simp only [hconflict, hread, recordedRetention_sinkPayload, resealed_eq h hc', if_neg hsame]

/-- A window that is not in the sink is copied there. -/
theorem copyToSink_of_absent (hname : ValidName (sinkName c.windowStart instanceId))
    (hread : sink.read (sinkName c.windowStart instanceId) = none) :
    copyToSink crypto signingKey instanceId sink c
      = .ok (sink.insert (sinkName c.windowStart instanceId, sinkPayload c instanceId), c) := by
  have hwrite : writeOnce sink (sinkName c.windowStart instanceId) (sinkPayload c instanceId)
      = .ok (sink.insert (sinkName c.windowStart instanceId, sinkPayload c instanceId)) := by
    simp only [writeOnce, hread, if_neg (not_not.mpr hname)]
  delta copyToSink
  simp only [hwrite]

/-- Nothing is copied under a name that is not valid. -/
theorem copyToSink_of_invalid (hname : ¬ValidName (sinkName c.windowStart instanceId)) :
    copyToSink crypto signingKey instanceId sink c
      = .error (.invalidName (sinkName c.windowStart instanceId)) := by
  have hwrite : writeOnce sink (sinkName c.windowStart instanceId) (sinkPayload c instanceId)
      = .error (.invalidName (sinkName c.windowStart instanceId)) := by
    simp only [writeOnce, if_pos hname]
  delta copyToSink
  simp only [hwrite]

/-! ## The store -/

/-- What is read under a name is the object of that name. -/
theorem Sink.read_eq_some {name : String} {content : List UInt8} :
    sink.read name = some content ↔ (name, content) ∈ sink.rows := by
  rw [Sink.read, Option.map_eq_some_iff]
  constructor
  · rintro ⟨object, hobject, rfl⟩
    obtain ⟨hmem, rfl⟩ := Table.get_eq_some_iff.mp hobject
    exact hmem
  · intro hmem
    exact ⟨_, Table.get_eq_some_iff.mpr ⟨hmem, rfl⟩, rfl⟩

/-- Nothing is read under a name exactly when there is no object. -/
theorem Sink.read_eq_none {name : String} : sink.read name = none ↔ sink.get name = none := by
  rw [Sink.read, Option.map_eq_none_iff]

/-- An object can be read once it is there. -/
theorem Sink.read_insert_self {object : String × List UInt8} (h : sink.read object.1 = none) :
    Sink.read (sink.insert object) object.1 = some object.2 := by
  rw [Sink.read, Table.get_insert, Sink.read_eq_none.mp h]
  simp

end Documents

end Jasil.Audit
