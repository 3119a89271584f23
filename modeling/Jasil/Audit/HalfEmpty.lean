import Jasil.Audit.SealedRows

/-! # Windows that a prune leaves half-empty
A run on a plain table deletes batch by batch, in whatever order the database hands the rows out, and may stop
after any batch.

* **`WholeWindows`**: every sealed window below the cutoff has all of its rows or none.
* **`Pruning`**: what the batches leave of the rows below the cutoff.
* **`whole_windows_iff`**: when a run leaves whole windows wherever it stops, and what verification says of the
  others. -/

namespace Jasil.Audit

/-! ## Windows and batches -/

/-- **Every sealed window below the cutoff** has all of its rows or none. -/
def WholeWindows (before after : LogTable) (checkpoints : CheckpointTable) (cutoff : Instant) : Prop :=
  ∀ c ∈ checkpoints.rows, c.windowEnd ≤ cutoff → windowOf after c = windowOf before c ∨ windowOf after c = []

/-- What happens while a run deletes: a batch, a stop, or a row that becomes visible. -/
def Deleting (s : AuditState) : AuditAction → Prop
  | .insert r => Fresh s r
  | .deleteBatch _ => True
  | .stop => True
  | _ => False

section Steps

variable {crypto : Crypto} {instanceId : String} {s s₁ s₂ s' : AuditState} {a : AuditAction} {cutoff : Instant}
  {log log' : LogTable} {c : AuditCheckpoint}

/-- A window below the cutoff is a part of what is older. -/
theorem windowOf_eq (h : c.windowEnd ≤ cutoff) :
    windowOf log c = (log.select (OlderThan cutoff)).filter fun r =>
      decide (InWindow c.windowStart c.windowEnd r) := by
  rw [windowOf, Table.select, Table.select, List.filter_filter]
  refine List.filter_congr fun r _ => ?_
  rw [← Bool.decide_and, decide_eq_decide]
  exact ⟨fun hin => ⟨hin, hin.2.trans_le h⟩, fun hin => hin.1⟩

/-- A row that is dated later is not older. -/
theorem older_insert {r : AuditLog} (hnew : log.get r.key = none) (hr : cutoff ≤ r.occurredAt) :
    (log.insert r).select (OlderThan cutoff) = log.select (OlderThan cutoff) := by
  have hnot : ¬OlderThan cutoff r := not_lt.mpr hr
  rw [Table.select_insert hnew, if_neg hnot, List.append_nil]

/-- What is left of the older rows after a batch. -/
theorem older_deletePage {page : List (String × Instant)} :
    ((log.deletePage AuditLog.id page).select (OlderThan cutoff)).Sublist (log.select (OlderThan cutoff)) :=
  Table.select_delete_sublist

/-- The cutoff of a run is the start of a sealed window, so what becomes visible is not older. -/
theorem cutoff_le_of_fresh {r : AuditLog} (hlinked : Linked s.checkpoints.rows)
    (hcutoff : ∃ c ∈ s.checkpoints.rows, c.windowStart = cutoff)
    (hfresh : Fresh s r) : cutoff ≤ r.occurredAt := by
  obtain ⟨c, hc, rfl⟩ := hcutoff
  exact (hlinked.fits c hc).nonempty.le.trans (hfresh.1 c hc)

/-! ## A run -/

/-- **What the batches leave**: of the rows below the cutoff only some that were there, and nothing else
changes. -/
structure Pruning (s : AuditState) (cutoff : Instant) (s₂ : AuditState) : Prop where
  checkpoints : s₂.checkpoints = s.checkpoints
  ids : (s₂.log.rows.map AuditLog.id).Nodup
  older : (s₂.log.select (OlderThan cutoff)).Sublist (s.log.select (OlderThan cutoff))
  run : ∀ run, s₂.phase = .pruning run → run.cutoff = cutoff

/-- **Every step while a run deletes keeps it.** -/
theorem pruning_step (hlinked : Linked s.checkpoints.rows)
    (hcutoff : ∃ c ∈ s.checkpoints.rows, c.windowStart = cutoff)
    (h : Pruning s cutoff s₂) (hok : Deleting s₂ a) (hstep : auditStep crypto instanceId s₂ a = some s') :
    Pruning s cutoff s' := by
  cases auditStep_cases hstep with
  | @insert r hnew hat =>
    have hle : cutoff ≤ r.occurredAt := by
      rw [← h.checkpoints] at hlinked hcutoff
      exact cutoff_le_of_fresh hlinked hcutoff hok
    refine ⟨h.checkpoints, ids_insert hnew h.ids hok.2, ?_, h.run⟩
    rw [older_insert hnew hle]
    exact h.older
  | @deleteBatch run page hphase hpage =>
    refine ⟨h.checkpoints, ids_delete h.ids, older_deletePage.trans h.older, fun run' hrun => ?_⟩
    dsimp only at hrun
    split at hrun
    · cases hrun
    · obtain rfl := Phase.pruning.inj hrun
      exact h.run run hphase
  | stop hphase =>
    refine ⟨h.checkpoints, h.ids, h.older, ?_⟩
    rintro _ ⟨⟩
  | beginSeal | digest | noSink | copied | copyFailed | store | finishSeal | prune | pruneNothing
    | dropPartition =>
    exact absurd hok not_false

/-- A run that starts. -/
theorem pruning_init {now : Instant} {settings : Settings} {entry : AuditLog} {run : PruneRun}
    (hinv : RetentionInv s)
    (hfresh : Fresh s entry) (hstep : auditStep crypto instanceId s (.prune now settings entry) = some s₁)
    (hrun : s₁.phase = .pruning run) :
    (∃ c ∈ s.checkpoints.rows, c.windowStart = run.cutoff) ∧ Pruning s run.cutoff s₁
      ∧ s₁.log.select (OlderThan run.cutoff) = s.log.select (OlderThan run.cutoff) := by
  cases auditStep_cases hstep with
  | @prune now settings entry cutoff hphase hcutoff hnew hat =>
    obtain rfl := Phase.pruning.inj hrun
    obtain ⟨reached, -, c, hc, hstart, -, -⟩ := pruneCutoff_some hcutoff
    have hle := cutoff_le_of_fresh hinv.chain.linked ⟨c, hc, hstart⟩ hfresh
    have holder := older_insert (r := pruneRow entry cutoff) hnew hle
    refine ⟨⟨c, hc, hstart⟩, ⟨rfl, ids_insert (r := pruneRow entry cutoff) hnew hinv.ids hfresh.2, ?_, ?_⟩,
      holder⟩
    · exact holder ▸ .refl _
    · rintro _ ⟨⟩
      rfl
  | pruneNothing hphase hcutoff =>
    rw [hphase] at hrun
    cases hrun

/-! ## One batch or many -/

/-- The rows older than the cutoff are all there still, or all gone. -/
def OlderWhole (before after : LogTable) (cutoff : Instant) : Prop :=
  after.select (OlderThan cutoff) = before.select (OlderThan cutoff) ∨ after.select (OlderThan cutoff) = []

/-- **One batch is enough** for as many rows as its limit: all of them are there or none. -/
theorem older_of_one_batch (hlinked : Linked s.checkpoints.rows)
    (hcutoff : ∃ c ∈ s.checkpoints.rows, c.windowStart = cutoff)
    (hfew : s.log.rowcount (OlderThan cutoff) ≤ pruneBatchSize) (hinit : Pruning s cutoff s₁)
    (hall : s₁.log.select (OlderThan cutoff) = s.log.select (OlderThan cutoff))
    (hreach : Reaches (auditStep crypto instanceId) Deleting s₁ s₂) : OlderWhole s.log s₂.log cutoff := by
  refine (hreach.invariant (fun s₂ => Pruning s cutoff s₂ ∧ OlderWhole s.log s₂.log cutoff) ⟨hinit, .inl hall⟩
    fun {t a t'} _ ht hok hstep => ⟨pruning_step hlinked hcutoff ht.1 hok hstep, ?_⟩).2
  cases auditStep_cases hstep with
  | @insert r hnew hat =>
    have hle : cutoff ≤ r.occurredAt := by
      rw [← ht.1.checkpoints] at hlinked hcutoff
      exact cutoff_le_of_fresh hlinked hcutoff hok
    rw [OlderWhole, older_insert hnew hle]
    exact ht.2
  | @deleteBatch run page hphase hpage =>
    obtain rfl := ht.1.run run hphase
    -- the batch holds every row below the cutoff
    right
    refine List.eq_nil_iff_forall_not_mem.mpr fun r hr => ?_
    obtain ⟨hr, hlt⟩ := Table.mem_select.mp hr
    obtain ⟨hr, hkept⟩ := (Table.mem_deletePage ht.1.ids).mp hr
    refine hkept (hpage.mem_of_full ?_ hr hlt)
    rw [Table.rowcount_eq_length] at hfew ⊢
    exact ht.1.older.length_le.trans hfew
  | stop hphase => exact ht.2
  | beginSeal | digest | noSink | copied | copyFailed | store | finishSeal | prune | pruneNothing
    | dropPartition =>
    exact absurd hok not_false

/-- **More rows than a batch takes, two of them of one window**: the first batch may take one of the two. -/
theorem exists_half_empty {run : PruneRun} (hinit : Pruning s run.cutoff s₁)
    (hall : s₁.log.select (OlderThan run.cutoff) = s.log.select (OlderThan run.cutoff))
    (hrun : s₁.phase = .pruning run) (hmany : pruneBatchSize < s.log.rowcount (OlderThan run.cutoff))
    (hend : c.windowEnd ≤ run.cutoff) (htwo : 1 < s.log.rowcount (InWindow c.windowStart c.windowEnd)) :
    ∃ s₂, Reaches (auditStep crypto instanceId) Deleting s₁ s₂ ∧ windowOf s₂.log c ≠ windowOf s.log c
      ∧ windowOf s₂.log c ≠ [] := by
  have hcount : s₁.log.rowcount (OlderThan run.cutoff) = s.log.rowcount (OlderThan run.cutoff) := by
    rw [Table.rowcount_eq_length, Table.rowcount_eq_length, hall]
  have hsame : windowOf s₁.log c = windowOf s.log c := by rw [windowOf_eq hend, windowOf_eq hend, hall]
  obtain ⟨r, hr, r', hr', hne⟩ : ∃ r ∈ windowOf s₁.log c, ∃ r' ∈ windowOf s₁.log c, r ≠ r' := by
    have hnodup : (windowOf s₁.log c).Nodup := (List.Nodup.of_map _ s₁.log.nodup).filter _
    have hlength : 1 < (windowOf s₁.log c).length := by
      rw [Table.rowcount_eq_length] at htwo
      rw [hsame]
      exact htwo
    cases hrows : windowOf s₁.log c with
    | nil => simp [hrows] at hlength
    | cons r rest =>
      cases rest with
      | nil => simp [hrows] at hlength
      | cons r' rest =>
        rw [hrows] at hnodup
        refine ⟨r, List.mem_cons_self, r', List.mem_cons_of_mem _ List.mem_cons_self, ?_⟩
        rintro rfl
        exact (List.nodup_cons.mp hnodup).1 List.mem_cons_self
  obtain ⟨hmem, hin⟩ := Table.mem_select.mp hr
  obtain ⟨hmem', hin'⟩ := Table.mem_select.mp hr'
  have hsize : 0 < pruneBatchSize := by decide
  obtain ⟨page, hpage, htaken, hleft⟩ := Table.exists_page hsize (hcount ▸ hmany)
    hmem (hin.2.trans_le hend) hmem' (hin'.2.trans_le hend) hne
  have hgone (r : AuditLog) : r ∈ (s₁.log.deletePage AuditLog.id page).rows ↔ r ∈ s₁.log.rows ∧ r.key ∉ page :=
    Table.mem_deletePage hinit.ids
  refine ⟨_, Reaches.refl.tail (show Deleting s₁ (.deleteBatch page) from trivial)
    (by rw [auditStep, hrun]; exact if_pos hpage),
    fun hsame' => ?_, fun hnil => ?_⟩
  · -- one of the two is gone
    have hstays : r ∈ windowOf (s₁.log.deletePage AuditLog.id page) c := by
      rw [hsame, ← hsame'] at hr
      exact hr
    exact ((hgone r).mp (Table.mem_select.mp hstays).1).2 htaken
  · -- the other is still there
    have hstays : r' ∈ windowOf (s₁.log.deletePage AuditLog.id page) c :=
      Table.mem_select.mpr ⟨(hgone r').mpr ⟨hmem', hleft⟩, hin'⟩
    exact absurd (hnil ▸ hstays) List.not_mem_nil

end Steps

/-- **When a prune can leave a window half-empty.** In a history in which rows become visible before their
window is sealed, a run that deletes leaves whole windows below its cutoff whatever rows its batches take,
wherever it stops and whatever becomes visible meanwhile, exactly when one batch holds everything older than
the cutoff, or no sealed window below it has two rows. -/
theorem whole_windows_iff (crypto : Crypto) (instanceId : String) (sink : Sink) {s s₁ : AuditState}
    {now : Instant} {settings : Settings} {entry : AuditLog} {run : PruneRun}
    (h : Reaches (auditStep crypto instanceId) Timely (AuditState.initial sink) s) (hfresh : Fresh s entry)
    (hstep : auditStep crypto instanceId s (.prune now settings entry) = some s₁)
    (hrun : s₁.phase = .pruning run) :
    (∀ s₂, Reaches (auditStep crypto instanceId) Deleting s₁ s₂ →
        WholeWindows s.log s₂.log s.checkpoints run.cutoff)
      ↔ s.log.rowcount (OlderThan run.cutoff) ≤ pruneBatchSize
        ∨ ∀ c ∈ s.checkpoints.rows, c.windowEnd ≤ run.cutoff →
          s.log.rowcount (InWindow c.windowStart c.windowEnd) ≤ 1 := by
  have hinv : RetentionInv s := retentionInv_reaches (fun _ _ hok => hok) h
  have hlinked := hinv.chain.linked
  obtain ⟨hcutoff, hinit, hall⟩ := pruning_init hinv hfresh hstep hrun
  constructor
  · intro hwhole
    by_contra hnot
    push Not at hnot
    obtain ⟨hmany, c, hc, hend, htwo⟩ := hnot
    obtain ⟨s₂, hreach, hless, hsome⟩ :=
      @exists_half_empty crypto instanceId _ _ _ _ hinit hall hrun hmany hend htwo
    rcases hwhole s₂ hreach c hc hend with hsame | hnil
    · exact hless hsame
    · exact hsome hnil
  · rintro (hfew | hone) s₂ hreach c hc hend
    · rcases older_of_one_batch hlinked hcutoff hfew hinit hall hreach with hsame | hnil
      · left
        rw [windowOf_eq hend, windowOf_eq hend, hsame]
      · right
        rw [windowOf_eq hend, hnil, List.filter_nil]
    · have hpruning : Pruning s run.cutoff s₂ :=
        hreach.invariant _ hinit fun _ hp hok hstep => pruning_step hlinked hcutoff hp hok hstep
      have hsub : (windowOf s₂.log c).Sublist (windowOf s.log c) := by
        rw [windowOf_eq hend, windowOf_eq hend]
        exact hpruning.older.filter _
      -- of one row all are left or none
      rcases Nat.eq_zero_or_pos (windowOf s₂.log c).length with hzero | hpos
      · exact .inr (List.eq_nil_of_length_eq_zero hzero)
      · left
        refine hsub.eq_of_length_le ?_
        have := hone c hc hend
        rw [Table.rowcount_eq_length] at this
        exact this.trans hpos

/-- The cutoff of the run that deletes, if there is one. -/
def Phase.cutoff : Phase → Option Instant
  | .pruning run => some run.cutoff
  | _ => none

/-- Two rows of the first day and one of the second, in a run on the fourth day that seals three windows. -/
def threeRows : List AuditAction :=
  [.insert firstRow, .insert { firstRow with id := "c" }, .insert secondRow,
    .beginSeal (3 * day + 5 * minute) dailySettings false, .digest, .copy, .store, .digest, .copy, .store,
    .digest, .copy, .store, .finishSeal]

/-- The prune after that has a window of two rows to delete, and one batch takes all. -/
theorem whole_windows_iff_threeRows :
    let s := runTo (auditStep blankCrypto "i1") Timely (.initial Table.empty) threeRows
    let entry := { sampleRow "d" .null with occurredAt := 3 * day + 5 * minute }
    ∃ s₁ run, auditStep blankCrypto "i1" s (.prune (3 * day + 5 * minute) dailySettings entry) = some s₁
      ∧ s₁.phase = .pruning run
      ∧ (∃ c ∈ s.checkpoints.rows, c.windowEnd ≤ run.cutoff
        ∧ s.log.rowcount (InWindow c.windowStart c.windowEnd) = 2)
      ∧ ∀ s₂, Reaches (auditStep blankCrypto "i1") Deleting s₁ s₂ →
        WholeWindows s.log s₂.log s.checkpoints run.cutoff := by
  intro s entry
  have hsome : (auditStep blankCrypto "i1" s (.prune (3 * day + 5 * minute) dailySettings entry)).isSome
      = true := by
    decide
  obtain ⟨s₁, hstep⟩ := Option.isSome_iff_exists.mp hsome
  have hpruning : ∀ t, auditStep blankCrypto "i1" s (.prune (3 * day + 5 * minute) dailySettings entry)
      = some t →
      t.phase.cutoff = some (2 * day) := by decide
  have htwo : ∃ c ∈ s.checkpoints.rows, c.windowEnd ≤ 2 * day
      ∧ s.log.rowcount (InWindow c.windowStart c.windowEnd) = 2 := by decide
  have hrows : s.log.rows.length ≤ pruneBatchSize := by decide
  have hcutoff := hpruning s₁ hstep
  cases hrun : s₁.phase with
  | pruning run =>
    rw [hrun] at hcutoff
    have hrunCutoff : run.cutoff = 2 * day := Option.some.inj hcutoff
    exact ⟨s₁, run, hstep, hrun, hrunCutoff ▸ htwo, (whole_windows_iff blankCrypto "i1" Table.empty
      (reaches_runTo (by decide)) (by decide) hstep hrun).mpr (.inl (List.countP_le_length.trans hrows))⟩
  | idle | sealing | digested | copied =>
    rw [hrun] at hcutoff
    cases hcutoff

end Jasil.Audit
