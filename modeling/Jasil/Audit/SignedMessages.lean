import Jasil.Audit.SinkCopies

/-! # What a signature vouches for
The message that is signed is the fields of a checkpoint, one after the other, with a separator between them.

* **`Matches`**: the two checkpoints agree in every field that is signed; no hash before the first window is
  the same as an empty one.
* **`message_inj`**: a row with the message of a checkpoint whose hashes are hashes matches it, whatever text
  stands in the hash columns of the row. -/

namespace Jasil.Audit

/-! ## Separators -/

section Separators

variable {α : Type*} {sep : α} {a b x y : List α}

/-- What comes before the first separator, and what comes after it. -/
theorem append_separator_inj (ha : sep ∉ a) (hb : sep ∉ b) (h : a ++ sep :: x = b ++ sep :: y) : a = b
    ∧ x = y := by
  induction a generalizing b with
  | nil =>
    cases b with
    | nil => exact ⟨rfl, (List.cons.inj h).2⟩
    | cons c b =>
      obtain ⟨rfl, -⟩ := List.cons.inj h
      exact absurd List.mem_cons_self hb
  | cons c a ih =>
    cases b with
    | nil =>
      obtain ⟨rfl, -⟩ := List.cons.inj h
      exact absurd List.mem_cons_self ha
    | cons d b =>
      obtain ⟨rfl, htail⟩ := List.cons.inj h
      obtain ⟨rfl, hrest⟩ := ih (fun hc => ha (List.mem_cons_of_mem _ hc)) (fun hc =>
        hb (List.mem_cons_of_mem _ hc)) htail
      exact ⟨rfl, hrest⟩

/-- What comes before the last separator, and what comes after it. -/
theorem separator_append_inj (hx : sep ∉ x) (hy : sep ∉ y) (h : a ++ sep :: x = b ++ sep :: y) : a = b
    ∧ x = y := by
  have hreverse := congrArg List.reverse h
  simp only [List.reverse_append, List.reverse_cons, List.append_assoc, List.singleton_append] at hreverse
  obtain ⟨hx', ha'⟩ := append_separator_inj (by simpa using hx) (by simpa using hy) hreverse
  exact ⟨List.reverse_inj.mp ha', List.reverse_inj.mp hx'⟩

/-- **A text with one separator** is cut in one way only. -/
theorem one_separator_inj [DecidableEq α] (hb : sep ∉ b) (hy : sep ∉ y) (h : a ++ sep :: x = b ++ sep :: y) :
    a = b ∧ x = y := by
  have hcount := congrArg (List.count sep) h
  simp only [List.count_append, List.count_cons_self, List.count_eq_zero_of_not_mem hb,
    List.count_eq_zero_of_not_mem hy] at hcount
  exact append_separator_inj (List.count_eq_zero.mp (by omega)) hb h

end Separators

/-! ## The fields of a message -/

section Fields

/-- Digits are no separator. -/
theorem not_separator_zeroPadded (width : ℕ) (n : ℤ) : '|' ∉ (zeroPadded width n).toList := by
  intro h
  exact absurd (nameChar_zeroPadded width n '|' h) (by decide)

/-- A timestamp contains no separator. -/
theorem not_separator_isoformat (t : Instant) : '|' ∉ (isoformatMicroseconds t).toList := by
  simp [isoformatMicroseconds, isoSeconds, String.toList_append, not_separator_zeroPadded]

/-- A number contains no separator. -/
theorem not_separator_intText (i : ℤ) : '|' ∉ (intText i).chars := by
  have hdigits : '|' ∉ Nat.toDigits 10 i.natAbs := by
    intro h
    exact absurd (digits_toDigits _ '|' h) (by decide)
  simp [NumberText.chars, intText, NumberText.exponentChars, hdigits]

/-- A hash contains no separator. -/
theorem not_separator_hash {hash : String} (h : IsHash hash) : '|' ∉ hash.toList := by
  intro hmem
  rcases h.2 '|' hmem with hdigit | ⟨-, hletter⟩
  · exact absurd hdigit (by decide)
  · exact absurd hletter (by decide)

/-- Different numbers are written differently. -/
theorem intText_inj {i j : ℤ} (h : (intText i).chars = (intText j).chars) : i = j := by
  have hread := @readNumber_chars (intText i) (valid_intText i) [] (by rintro c ⟨⟩)
  rw [h, readNumber_chars (valid_intText j) (by rintro c ⟨⟩), number_intText, number_intText] at hread
  simpa using hread.symm

end Fields

/-- **The checkpoints agree in every field that is signed.** -/
structure Matches (c g : AuditCheckpoint) : Prop where
  windowStart : c.windowStart = g.windowStart
  windowEnd : c.windowEnd = g.windowEnd
  rowCount : c.rowCount = g.rowCount
  hash : c.hash = g.hash
  prevHash : c.prevHash.getD "" = g.prevHash.getD ""
  retentionDays : c.retentionDays = g.retentionDays
  legalHold : c.legalHold = g.legalHold

/-- A checkpoint matches itself. -/
theorem Matches.refl (c : AuditCheckpoint) : Matches c c := ⟨rfl, rfl, rfl, rfl, rfl, rfl, rfl⟩

/-- A row whose bounds are `datetime`s. -/
structure AuditCheckpoint.Dated (c : AuditCheckpoint) : Prop where
  windowStart : Representable c.windowStart
  windowEnd : Representable c.windowEnd

/-- The parts of a message, one after the other. -/
theorem message_eq (c : AuditCheckpoint) (instanceId : String) :
    message c instanceId = messagePrefix.toList ++ '|' :: (instanceId.toList ++ '|' ::
      ((isoformatMicroseconds c.windowStart).toList ++ '|'
      :: ((isoformatMicroseconds c.windowEnd).toList ++ '|' ::
        ((intText c.rowCount).chars ++ '|' :: ((c.hash.toList ++ '|' :: (c.prevHash.getD "").toList) ++ '|' ::
          ((intText c.retentionDays).chars ++ '|' :: [if c.legalHold then '1' else '0'])))))) := by
  simp [message, List.intercalate]

/-- **A row with the message of a checkpoint matches it.** -/
theorem message_inj {c g : AuditCheckpoint} {instanceId : String} (hc : c.Dated) (hg : g.Dated)
    (hhash : IsHash g.hash) (hprev : ∀ hash ∈ g.prevHash, IsHash hash)
    (h : message c instanceId = message g instanceId) : Matches c g := by
  have hflag (hold : Bool) : '|' ∉ [if hold then '1' else '0'] := by cases hold <;> decide
  have hprev : '|' ∉ (g.prevHash.getD "").toList := by
    cases hnone : g.prevHash with
    | none => simp
    | some hash => exact not_separator_hash (hprev hash hnone)
  rw [message_eq, message_eq, List.append_cancel_left_eq, List.cons_inj_right, List.append_cancel_left_eq,
    List.cons_inj_right] at h
  -- from the left, one field after the other
  obtain ⟨hstart, h⟩ := append_separator_inj (not_separator_isoformat _) (not_separator_isoformat _) h
  obtain ⟨hend, h⟩ := append_separator_inj (not_separator_isoformat _) (not_separator_isoformat _) h
  obtain ⟨hcount, h⟩ := append_separator_inj (not_separator_intText _) (not_separator_intText _) h
  -- from the right, as the hash columns may hold any text
  have hassoc (hashes days : List Char) (hold : Char) :
      hashes ++ '|' :: (days ++ '|' :: [hold]) = (hashes ++ '|' :: days) ++ '|' :: [hold] := by simp
  rw [hassoc, hassoc] at h
  obtain ⟨h, hhold⟩ := separator_append_inj (hflag _) (hflag _) h
  obtain ⟨h, hdays⟩ := separator_append_inj (not_separator_intText _) (not_separator_intText _) h
  obtain ⟨hhash', hprev'⟩ := one_separator_inj (not_separator_hash hhash) hprev h
  refine ⟨?_, ?_, intText_inj hcount, String.toList_injective hhash', String.toList_injective hprev',
    intText_inj hdays, ?_⟩
  · exact isoformatMicroseconds_inj hc.windowStart hg.windowStart (String.toList_injective hstart)
  · exact isoformatMicroseconds_inj hc.windowEnd hg.windowEnd (String.toList_injective hend)
  · revert hhold
    cases c.legalHold <;> cases g.legalHold <;> simp

end Jasil.Audit
