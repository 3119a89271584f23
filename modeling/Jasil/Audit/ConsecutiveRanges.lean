import Jasil.Audit.Verification

/-! # Verifying a long range in parts
A range is verified in two parts, up to some instant and from it on.

* **`reportsOk_of_parts`**: two parts that are ok are ok together, when no checkpoint's window starts in the
  first and ends in the second.
* **`straddling_window_missed`**: such a window lies in neither part, so neither says what is wrong with it. -/

namespace Jasil.Audit

section Parts

variable {crypto : Crypto} {log : LogTable} {verifiers : Verifiers} {instanceId : String}
  {horizon : Option Instant} {db : AuditTables} {t₀ t₁ t₂ : Instant}

/-- Windows are verified in two parts, the second after the last window of the first. -/
theorem windowsOk_append {previous : Option AuditCheckpoint} {cs cs' : List AuditCheckpoint} :
    WindowsOk crypto log verifiers instanceId horizon previous (cs ++ cs') ↔
      WindowsOk crypto log verifiers instanceId horizon previous cs
        ∧ WindowsOk crypto log verifiers instanceId horizon (lastChecked previous cs) cs' := by
  induction cs generalizing previous with
  | nil => simp [WindowsOk, lastChecked]
  | cons c cs ih =>
    have hlast : lastChecked (some c) cs = lastChecked previous (c :: cs) := by
      cases cs with
      | nil => rfl
      | cons d ds => simp [lastChecked, List.getLast?_cons]
    rw [List.cons_append, WindowsOk, WindowsOk, ih, hlast, and_assoc]

/-- What was checked last, over two stretches one after the other. -/
theorem lastChecked_append (previous : Option AuditCheckpoint) (cs cs' : List AuditCheckpoint) :
    lastChecked previous (cs ++ cs') = lastChecked (lastChecked previous cs) cs' := by
  simp only [lastChecked, List.getLast?_append, Option.or_assoc]

/-- The sorted checkpoints are in the order of their starts. -/
theorem pairwise_sorted (db : AuditTables) :
    db.sorted.Pairwise fun c c' => c.windowStart ≤ c'.windowStart :=
  pairwise_sortBy _ _

/-- No checkpoint's window starts from `t₀` on and before `t₁`, and ends after `t₁`. -/
def NoneStraddles (db : AuditTables) (t₀ t₁ : Instant) : Prop :=
  ∀ c ∈ db.checkpoints.rows, ¬(t₀ ≤ c.windowStart ∧ c.windowStart < t₁ ∧ t₁ < c.windowEnd)

instance (db : AuditTables) (t₀ t₁ : Instant) : Decidable (NoneStraddles db t₀ t₁) :=
  inferInstanceAs (Decidable (∀ c ∈ db.checkpoints.rows, ¬_))

/-- The checkpoints that start in the first part. -/
def AuditTables.starting (db : AuditTables) (t₀ t₁ : Instant) : List AuditCheckpoint :=
  db.sorted.filter fun c => t₀ ≤ c.windowStart ∧ c.windowStart < t₁

/-- The checkpoints of a range are those that start in its first part and then those of its second part. -/
theorem inside_split (h01 : t₀ ≤ t₁) (h12 : t₁ ≤ t₂) (hnone : NoneStraddles db t₀ t₁) :
    db.inside t₀ t₂ = db.starting t₀ t₁ ++ db.inside t₁ t₂ := by
  rw [AuditTables.inside, filter_split (pairwise_sorted db) t₁]
  congr 1
  · refine List.filter_congr fun c hc => ?_
    have hstart := hnone c (mem_sortBy.mp hc)
    simp only [decide_eq_decide, decide_eq_true_eq]
    constructor
    · rintro ⟨⟨hfrom, -⟩, hlt⟩
      exact ⟨hfrom, hlt⟩
    · rintro ⟨hfrom, hlt⟩
      exact ⟨⟨hfrom, (not_lt.mp fun h => hstart ⟨hfrom, hlt, h⟩).trans h12⟩, hlt⟩
  · refine List.filter_congr fun c hc => ?_
    simp only [decide_eq_decide, decide_eq_true_eq]
    constructor
    · rintro ⟨⟨-, hto⟩, hge⟩
      exact ⟨hge, hto⟩
    · rintro ⟨hge, hto⟩
      exact ⟨⟨h01.trans hge, hto⟩, hge⟩

/-- The first part holds the checkpoints that start in it. -/
theorem inside_first_part (hnone : NoneStraddles db t₀ t₁) :
    ∃ rest, db.inside t₀ t₁ = db.starting t₀ t₁ ++ rest := by
  refine ⟨_, (filter_split (pairwise_sorted db) t₁ _).trans (congrArg₂ _ ?_ rfl)⟩
  refine List.filter_congr fun c hc => ?_
  have hstart := hnone c (mem_sortBy.mp hc)
  simp only [decide_eq_decide, decide_eq_true_eq]
  constructor
  · rintro ⟨⟨hfrom, -⟩, hlt⟩
    exact ⟨hfrom, hlt⟩
  · rintro ⟨hfrom, hlt⟩
    exact ⟨⟨hfrom, not_lt.mp fun h => hstart ⟨hfrom, hlt, h⟩⟩, hlt⟩

/-- What the second part finds before it is the last checkpoint that starts in the first, or what the first
part finds before it. -/
theorem previous_split (h01 : t₀ ≤ t₁) :
    db.previous t₁ = lastChecked (db.previous t₀) (db.starting t₀ t₁) := by
  have hsplit := filter_split (pairwise_sorted db) t₀ fun c => decide (c.windowStart < t₁)
  rw [AuditTables.previous, hsplit, List.getLast?_append, lastChecked, AuditTables.previous]
  congr 1
  · congr 1
    refine List.filter_congr fun c _ => ?_
    simp only [decide_eq_decide, decide_eq_true_eq]
    exact And.comm
  · congr 1
    refine List.filter_congr fun c _ => ?_
    simp only [decide_eq_decide, decide_eq_true_eq]
    exact ⟨fun h => h.2, fun h => ⟨h.trans_le h01, h⟩⟩

/-- **Two parts with nothing wrong are a range with nothing wrong.** -/
theorem rangeOk_of_parts (h01 : t₀ ≤ t₁) (h12 : t₁ ≤ t₂) (hnone : NoneStraddles db t₀ t₁)
    (hfirst : RangeOk crypto db verifiers t₀ t₁) (hsecond : RangeOk crypto db verifiers t₁ t₂) :
    RangeOk crypto db verifiers t₀ t₂ where
  orphans first hhead hlt r hr hwindow := by
    have hmin := hwindow.2
    rw [lt_min_iff] at hmin
    by_cases hr1 : r.occurredAt < t₁
    · exact hfirst.orphans first hhead hlt r hr ⟨hwindow.1, lt_min hmin.1 hr1⟩
    · exact hsecond.orphans first hhead ((not_lt.mp hr1).trans_lt hmin.1) r hr ⟨not_lt.mp hr1, hwindow.2⟩
  windows := by
    obtain ⟨rest, hrest⟩ := inside_first_part hnone
    have hwindows := hfirst.windows
    rw [hrest] at hwindows
    rw [inside_split h01 h12 hnone]
    refine windowsOk_append.mpr ⟨(windowsOk_append.mp hwindows).1, ?_⟩
    rw [← previous_split h01]
    exact hsecond.windows
  trailing := by
    rw [inside_split h01 h12 hnone, lastChecked_append, ← previous_split h01]
    exact hsecond.trailing

end Parts

/-- **Consecutive ranges cover a longer one**, when no checkpoint's window lies across the instant between
them. -/
theorem reportsOk_of_parts (crypto : Crypto) (db : AuditTables) (publicKey : Option (List String))
    (t₀ t₁ t₂ : Instant) (h01 : t₀ ≤ t₁) (h12 : t₁ ≤ t₂) (hrange : t₂ - t₀ ≤ maxVerifyRange)
    (hnone : NoneStraddles db t₀ t₁) (hfirst : ReportsOk crypto db publicKey t₀ t₁)
    (hsecond : ReportsOk crypto db publicKey t₁ t₂) : ReportsOk crypto db publicKey t₀ t₂ := by
  obtain ⟨-, -, verifiers, hload, hfirst⟩ := reportsOk_iff.mp hfirst
  obtain ⟨-, -, verifiers', hload', hsecond⟩ := reportsOk_iff.mp hsecond
  obtain rfl : verifiers = verifiers' := Except.ok.inj (hload.symm.trans hload')
  refine reportsOk_iff.mpr ⟨h01.trans h12, hrange, verifiers, hload, ?_⟩
  rcases hfirst with hempty | hfirst
  · exact .inl hempty
  · rcases hsecond with hempty | hsecond
    · exact .inl hempty
    · exact .inr (rangeOk_of_parts h01 h12 hnone hfirst hsecond)

/-- A checkpoint that counts a row, and a log without rows. -/
def emptiedTables : AuditTables where
  log := Table.empty
  checkpoints :=
    ⟨[{ windowStart := 10, windowEnd := 30, rowCount := 1, hash := "00", prevHash := none,
        signature := none, keyId := none, retentionDays := 0, legalHold := false }], by decide⟩
  instanceId := some "i1"

/-- **A window that lies across the instant between two parts is verified in neither.** -/
theorem straddling_window_missed :
    ¬ ∀ (crypto : Crypto) (db : AuditTables) (publicKey : Option (List String)) (t₀ t₁ t₂ : Instant),
      t₀ ≤ t₁ → t₁ ≤ t₂ → t₂ - t₀ ≤ maxVerifyRange → ReportsOk crypto db publicKey t₀ t₁ →
      ReportsOk crypto db publicKey t₁ t₂ → ReportsOk crypto db publicKey t₀ t₂ := by
  intro h
  have hfirst : (verifyRange blankCrypto emptiedTables [] 0 20).ok = true := by decide
  have hsecond : (verifyRange blankCrypto emptiedTables [] 20 40).ok = true := by decide
  have hwhole : (verifyRange blankCrypto emptiedTables [] 0 40).ok = false := by decide
  obtain ⟨report, hreport, hok⟩ := h blankCrypto emptiedTables none 0 20 40 (by decide) (by decide)
    (by decide) ⟨_, rfl, hfirst⟩ ⟨_, rfl, hsecond⟩
  obtain rfl : verifyRange blankCrypto emptiedTables [] 0 40 = report := Except.ok.inj hreport
  exact absurd (hwhole.symm.trans hok) (by decide)

/-- The two days with their rows. -/
def sampleTables : AuditTables where
  log := (Table.empty.insert firstRow).insert secondRow
  checkpoints := (Table.empty.insert firstWindow).insert secondWindow
  instanceId := some "i1"

/-- The two days under their key, verified in two parts: a window of one row in each. -/
theorem reportsOk_of_parts_sampleTables :
    sampleTables.inside 0 day = [firstWindow] ∧ sampleTables.inside day (2 * day) = [secondWindow]
      ∧ ReportsOk sampleCrypto sampleTables (some [samplePublicKey]) 0 (2 * day) := by
  refine ⟨by decide, by decide, ?_⟩
  refine reportsOk_of_parts sampleCrypto sampleTables (some [samplePublicKey]) 0 day (2 * day) (by decide)
    (by decide) (by decide) (by decide) ?_ ?_
  · exact ⟨_, rfl, by decide +kernel⟩
  · exact ⟨_, rfl, by decide +kernel⟩

end Jasil.Audit
