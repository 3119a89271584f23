import Jasil.Audit.SealedRows
import Jasil.Audit.ConsecutiveRanges

/-! # When verification raises an alarm
In a history in which rows become visible before their window is sealed and nobody changes the tables,
whatever runs stop where and however the settings change:

* **`verified_iff`**: a range is reported ok exactly when each of its windows has all of its rows or none.
* **`no_false_alarm`**: it is reported ok, when no run that deletes ends before everything older than its
  cutoff is gone. -/

namespace Jasil.Audit

/-- The tables that a verification reads. -/
def AuditState.tables (s : AuditState) (instanceId : String) : AuditTables :=
    ⟨s.log, s.checkpoints, some instanceId⟩

/-! ## The range in the chain -/

section Range

variable {crypto : Crypto} {log : LogTable} {verifiers : Verifiers} {instanceId : String}
  {horizon : Option Instant} {db : AuditTables} {cs front inside rest : List AuditCheckpoint}
  {fromTs toTs : Instant}

/-- **A range cuts the chain in three**: what starts before it, what lies inside it, and what ends after it. -/
theorem adjacent_split (h : Adjacent AuditCheckpoint.windowStart AuditCheckpoint.windowEnd cs)
    (fromTs toTs : Instant) :
    cs = cs.filter (·.windowStart < fromTs)
      ++ (cs.filter (fun c => fromTs ≤ c.windowStart ∧ c.windowEnd ≤ toTs)
      ++ cs.filter fun c => fromTs ≤ c.windowStart ∧ toTs < c.windowEnd) := by
  have hstarts := h.pairwise_start.imp fun hlt => hlt.le
  have hends : cs.Pairwise fun c c' => c.windowEnd ≤ c'.windowEnd :=
    h.pairwise.imp_of_mem fun _ hc' hle => hle.trans (h.nonempty _ hc').le
  calc cs = cs.filter fun _ => true := by simp
    _ = cs.filter (·.windowStart < fromTs) ++ cs.filter (fromTs ≤ ·.windowStart) := by
      rw [filter_split hstarts fromTs]
      simp
    _ = _ := by
      rw [filter_split hends (toTs + 1) fun c => decide (fromTs ≤ c.windowStart)]
      simp only [Int.lt_add_one_iff, Int.add_one_le_iff, Bool.decide_and, Bool.decide_eq_true]

/-- What was checked last is the last checkpoint so far. -/
theorem lastChecked_eq : lastChecked front.getLast? inside = (front ++ inside).getLast? := by
  rw [lastChecked, List.getLast?_append]

/-- What comes before a checkpoint of the chain is the one it names. -/
theorem link_of_chain {c : AuditCheckpoint}
    (hlinks : (front ++ c :: rest).IsChain fun c c' => c.windowEnd = c'.windowStart ∧ c'.prevHash = some c.hash)
    (hhead : ∀ first ∈ (front ++ c :: rest).head?, first.prevHash = none) :
    c.prevHash = front.getLast?.map (·.hash) ∧ ∀ p ∈ front.getLast?, p.windowEnd = c.windowStart := by
  cases hlast : front.getLast? with
  | none =>
    obtain rfl := List.getLast?_eq_none_iff.mp hlast
    refine ⟨hhead c rfl, ?_⟩
    rintro p ⟨⟩
  | some p =>
    obtain ⟨hend, hprev⟩ := (List.isChain_append.mp hlinks).2.2 p hlast c rfl
    refine ⟨hprev, ?_⟩
    rintro p' ⟨⟩
    exact hend

/-- **In a chain only rows and signatures can be wrong.** -/
theorem windowsOk_of_chain
    (hlinks : (front ++ inside).IsChain fun c c' => c.windowEnd = c'.windowStart ∧ c'.prevHash = some c.hash)
    (hhead : ∀ first ∈ (front ++ inside).head?, first.prevHash = none) :
    WindowsOk crypto log verifiers instanceId horizon front.getLast? inside
      ↔ ∀ c ∈ inside, (RowsMatch crypto log c ∨ Pruned crypto log horizon c)
        ∧ Trusted crypto verifiers instanceId c := by
  induction inside generalizing front with
  | nil => simp [WindowsOk]
  | cons c inside ih =>
    obtain ⟨hlink, hadjacent⟩ := link_of_chain hlinks hhead
    have hrest := @ih (front ++ [c]) (by simpa using hlinks) (by simpa using hhead)
    rw [List.getLast?_concat] at hrest
    rw [WindowsOk, hrest, List.forall_mem_cons]
    refine and_congr_left fun _ => ?_
    constructor
    · intro h
      exact ⟨h.rows, h.trusted⟩
    · rintro ⟨hrows, htrusted⟩
      exact ⟨hrows, htrusted, hlink, hadjacent⟩

/-- **After the last window checked the chain goes on without a gap.** -/
theorem next_of_chain {last next : AuditCheckpoint}
    (h : Adjacent AuditCheckpoint.windowStart AuditCheckpoint.windowEnd (front ++ rest))
    (hlast : last ∈ front.getLast?)
    (hnext : next ∈ (front ++ rest).find? fun c => last.windowEnd ≤ c.windowStart) :
    next.windowStart = last.windowEnd := by
  have hmem := List.mem_of_getLast? hlast
  have hfront : front.find? (fun c => last.windowEnd ≤ c.windowStart) = none := by
    refine List.find?_eq_none.mpr fun c hc => ?_
    -- what is checked ends by then
    have hle : c.windowEnd ≤ last.windowEnd := by
      obtain ⟨before, rfl⟩ := List.getLast?_eq_some_iff.mp hlast
      rcases List.mem_append.mp hc with hc | hc
      · have hpairwise := (List.pairwise_append.mp h.pairwise).1
        have hle := (List.pairwise_append.mp hpairwise).2.2 c hc last List.mem_cons_self
        exact hle.trans (h.nonempty last (List.mem_append_left _ hmem)).le
      · rw [List.mem_singleton.mp hc]
    have hlt := (h.nonempty c (List.mem_append_left _ hc)).trans_le hle
    simpa using hlt
  rw [List.find?_append, hfront, Option.none_or] at hnext
  cases rest with
  | nil => cases hnext
  | cons following rest =>
    have hend : last.windowEnd = following.windowStart :=
      (List.isChain_append.mp h.next).2.2 last hlast following rfl
    rw [List.find?_cons_of_pos (by simp [hend])] at hnext
    obtain rfl := Option.some.inj hnext
    exact hend.symm

/-- **Where the checkpoints form a chain, only rows and signatures inside the range can be wrong.** -/
theorem rangeOk_of_chain (hsorted : db.sorted = cs)
    (hadjacent : Adjacent AuditCheckpoint.windowStart AuditCheckpoint.windowEnd cs)
    (hlinks : cs.IsChain fun c c' => c'.prevHash = some c.hash)
    (hhead : ∀ first ∈ cs.head?, first.prevHash = none)
    (holdest : ∀ first ∈ cs.head?, ∀ r ∈ db.log.rows, first.windowStart ≤ r.occurredAt) :
    RangeOk crypto db verifiers fromTs toTs ↔ ∀ c ∈ cs, fromTs ≤ c.windowStart → c.windowEnd ≤ toTs →
      (RowsMatch crypto db.log c
        ∨ Pruned crypto db.log (pruningHorizon crypto db.checkpoints verifiers (db.instanceId.getD "")) c)
        ∧ Trusted crypto verifiers (db.instanceId.getD "") c := by
  have hsplit := adjacent_split hadjacent fromTs toTs
  have hchain := isChain_and hadjacent.next hlinks
  have hwindows : WindowsOk crypto db.log verifiers (db.instanceId.getD "")
        (pruningHorizon crypto db.checkpoints verifiers (db.instanceId.getD ""))
        (db.previous fromTs) (db.inside fromTs toTs)
      ↔ ∀ c ∈ db.inside fromTs toTs, (RowsMatch crypto db.log c
        ∨ Pruned crypto db.log (pruningHorizon crypto db.checkpoints verifiers (db.instanceId.getD "")) c)
        ∧ Trusted crypto verifiers (db.instanceId.getD "") c := by
    rw [AuditTables.previous, AuditTables.inside, hsorted]
    rw [hsplit, ← List.append_assoc] at hchain
    refine windowsOk_of_chain (List.isChain_append.mp hchain).1 fun first hfirst => hhead first ?_
    rw [hsplit, ← List.append_assoc, Option.mem_def, List.head?_append, Option.mem_def.mp hfirst]
    rfl
  have hinside {c : AuditCheckpoint} :
      c ∈ db.inside fromTs toTs ↔ c ∈ cs ∧ fromTs ≤ c.windowStart ∧ c.windowEnd ≤ toTs := by
    rw [AuditTables.inside, hsorted]
    simp
  constructor
  · intro hok c hc hfrom hto
    exact hwindows.mp hok.windows c (hinside.mpr ⟨hc, hfrom, hto⟩)
  · intro hall
    refine ⟨fun first hfirst _ r hr hin => ?_, hwindows.mpr fun c hc => ?_, fun last hlast _ next hnext => ?_⟩
    · -- no row is older than the chain
      rw [hsorted] at hfirst
      exact absurd (hin.2.trans_le (min_le_left _ _)) (not_lt.mpr (holdest first hfirst r hr))
    · obtain ⟨hc, hfrom, hto⟩ := hinside.mp hc
      exact hall c hc hfrom hto
    · rw [AuditTables.previous, AuditTables.inside, hsorted, lastChecked_eq] at hlast
      rw [hsorted, hsplit, ← List.append_assoc] at hnext
      rw [hsplit, ← List.append_assoc] at hadjacent
      exact next_of_chain hadjacent hlast hnext

end Range

section Account

variable {crypto : Crypto} {instanceId : String} {s s' : AuditState} {a : AuditAction} {verifiers : Verifiers}
  {fromTs toTs : Instant} {c : AuditCheckpoint}

/-- The window has all of the rows it was sealed over, or none. -/
def WholeOrEmpty (log : LogTable) (c : AuditCheckpoint) : Prop :=
  log.rowcount (InWindow c.windowStart c.windowEnd) = 0
    ∨ (log.rowcount (InWindow c.windowStart c.windowEnd) : ℤ) = c.rowCount

instance (log : LogTable) : DecidablePred (WholeOrEmpty log) := fun _ => inferInstanceAs (Decidable (_ ∨ _))

/-- **A range has nothing wrong exactly when each of its windows is whole or empty.** -/
theorem rangeOk_iff_whole (h : AccountInv (fun _ => True) crypto s)
    (htrusted : ∀ c ∈ s.checkpoints.rows, Trusted crypto verifiers instanceId c) :
    RangeOk crypto (s.tables instanceId) verifiers fromTs toTs
      ↔ ∀ c ∈ s.checkpoints.rows, fromTs ≤ c.windowStart → c.windowEnd ≤ toTs → WholeOrEmpty s.log c := by
  have hlinked := h.retention.chain.linked
  have hsorted : (s.tables instanceId).sorted = s.checkpoints.rows := hlinked.sorted
  rw [rangeOk_of_chain hsorted hlinked.adjacent hlinked.links hlinked.head h.retention.oldest]
  refine forall₂_congr fun c hc => forall₂_congr fun _ _ => ?_
  rw [WholeOrEmpty, ← rows_ok_iff htrusted (h.windows c hc)]
  exact and_iff_left (htrusted c hc)

/-! ## Runs that finish -/

/-- It holds of the run that deletes, if one does. -/
def Phase.OnPruning (p : PruneRun → Prop) : Phase → Prop
  | .pruning run => p run
  | _ => True

instance (p : PruneRun → Prop) [DecidablePred p] : DecidablePred (Phase.OnPruning p)
  | .pruning run => inferInstanceAs (Decidable (p run))
  | .idle | .sealing _ | .digested .. | .copied .. => .isTrue trivial

/-- A run that deletes only ends when nothing older than its cutoff is left. -/
def Completes (s : AuditState) : AuditAction → Prop
  | .stop => s.phase.OnPruning fun run => s.log.rowcount (OlderThan run.cutoff) = 0
  | .deleteBatch page => s.phase.OnPruning fun run =>
      run.batches + 1 = pruneMaxBatches → s.log.rowcount (OlderThan run.cutoff) ≤ page.length
  | _ => True

instance (s : AuditState) : DecidablePred (Completes s)
  | .stop => inferInstanceAs (Decidable (s.phase.OnPruning fun run => s.log.rowcount (OlderThan run.cutoff) = 0))
  | .deleteBatch page => inferInstanceAs (Decidable (s.phase.OnPruning fun run =>
      run.batches + 1 = pruneMaxBatches → s.log.rowcount (OlderThan run.cutoff) ≤ page.length))
  | .insert _ | .beginSeal .. | .digest | .copy | .store | .finishSeal | .prune .. | .dropPartition .. =>
      .isTrue trivial

/-- **Outside the reach of the run that deletes every window is whole or empty.** -/
structure OrderlyInv (crypto : Crypto) (s : AuditState) : Prop where
  account : AccountInv (fun _ => True) crypto s
  windows : ∀ c ∈ s.checkpoints.rows,
    WholeOrEmpty s.log c ∨ ∃ run, s.phase = .pruning run ∧ c.windowEnd ≤ run.cutoff

/-- A window whose rows are unchanged stays whole or empty. -/
theorem WholeOrEmpty.of_window {log log' : LogTable} (h : WholeOrEmpty log c)
    (hwindow : windowOf log' c = windowOf log c) : WholeOrEmpty log' c := by
  rw [WholeOrEmpty, Table.rowcount_eq_length] at h ⊢
  rw [windowOf, windowOf] at hwindow
  rwa [hwindow]

/-- When nothing older than the cutoff is left, the windows below it are empty. -/
theorem wholeOrEmpty_of_none_older {log : LogTable} {cutoff : Instant}
    (hnone : ∀ r ∈ log.rows, ¬OlderThan cutoff r) (hend : c.windowEnd ≤ cutoff) : WholeOrEmpty log c := by
  left
  refine List.countP_eq_zero.mpr fun r hr hin => hnone r hr ?_
  exact (of_decide_eq_true hin).2.trans_le hend

/-- A batch that ends the run leaves nothing older than the cutoff. -/
theorem none_older_of_last {run : PruneRun} {page : List (String × Instant)}
    (hids : (s.log.rows.map AuditLog.id).Nodup)
    (hpage : s.log.IsPage (OlderThan run.cutoff) pruneBatchSize page)
    (hlast : page.length < pruneBatchSize ∨ s.log.rowcount (OlderThan run.cutoff) ≤ page.length) :
    ∀ r ∈ (s.log.deletePage AuditLog.id page).rows, ¬OlderThan run.cutoff r := by
  intro r hr hlt
  obtain ⟨hr, hkept⟩ := (Table.mem_deletePage hids).mp hr
  refine hkept (hpage.mem_of_full ?_ hr hlt)
  have := hpage.length_eq
  omega

/-- A fresh installation is orderly. -/
theorem orderlyInv_initial (sink : Sink) : OrderlyInv crypto (AuditState.initial sink) := by
  refine ⟨accountInv_initial sink, ?_⟩
  intro c hc
  exact absurd hc List.not_mem_nil

/-- **Every step that lets no run end early keeps it.** -/
theorem orderlyInv_step (h : OrderlyInv crypto s) (hok : Timely s a) (hcompletes : Completes s a)
    (hstep : auditStep crypto instanceId s a = some s') : OrderlyInv crypto s' := by
  have haccount := accountInv_step h.account hok (brings_true a) hstep
  have hlinked := h.account.retention.chain.linked
  refine ⟨haccount, ?_⟩
  -- a run that does not delete has no reach
  have hidle (hphase : ∀ run, s.phase ≠ .pruning run) : ∀ c ∈ s.checkpoints.rows, WholeOrEmpty s.log c := by
    intro c hc
    refine (h.windows c hc).resolve_right ?_
    rintro ⟨run, hrun, -⟩
    exact hphase run hrun
  cases auditStep_cases hstep with
  | insert hnew hat =>
    intro c hc
    exact (h.windows c hc).imp_left fun hwhole => hwhole.of_window (windowOf_insert_of_le hnew (hok.1 c hc))
  | beginSeal hphase hnow =>
    intro c hc
    exact .inl (hidle (by simp [hphase]) c hc)
  | digest hphase hdue | noSink hphase hsink | copied hphase hsink hcopy | copyFailed hphase hsink hcopy
  | finishSeal hphase hdone =>
    intro c hc
    exact .inl (hidle (by simp [hphase]) c hc)
  | @store run c hphase hnew =>
    rw [Timely, hphase] at hok
    intro c' hc'
    left
    rw [Table.rows_insert_of_new hnew] at hc'
    rcases List.mem_append.mp hc' with hold | hnew'
    · exact hidle (by simp [hphase]) c' hold
    · obtain rfl := List.mem_singleton.mp hnew'
      -- a new checkpoint has all of its rows
      exact .inr hok.1
  | @prune now settings entry cutoff hphase hcutoff hnew hat =>
    intro c hc
    have hwindow := windowOf_insert_of_le (r := pruneRow entry cutoff) hnew (hok.1 c hc)
    exact .inl ((hidle (by simp [hphase]) c hc).of_window hwindow)
  | pruneNothing hphase hcutoff => exact h.windows
  | @deleteBatch run page hphase hpage =>
    intro c hc
    have hids := h.account.retention.ids
    rw [Completes, hphase, Phase.OnPruning] at hcompletes
    dsimp only at hcompletes ⊢
    -- a window below the cutoff is emptied by the end of the run, and no row of any other goes
    by_cases hend : c.windowEnd ≤ run.cutoff
    · split
      · rename_i hlast
        exact .inl (wholeOrEmpty_of_none_older (none_older_of_last hids hpage (hlast.imp_right hcompletes)) hend)
      · exact .inr ⟨_, rfl, hend⟩
    · left
      obtain ⟨-, -, w, hw, hcutoff, -⟩ := (h.account.retention.pruning run hphase).cutoff
      refine WholeOrEmpty.of_window ?_ (windowOf_deleteBatch hlinked hids ⟨w, hw, hcutoff⟩ hpage hc hend)
      refine (h.windows c hc).resolve_right ?_
      rintro ⟨run', hrun', hle⟩
      obtain rfl := Phase.pruning.inj (hphase.symm.trans hrun')
      exact hend hle
  | @dropPartition now databaseNow settings dayNumber cutoff hphase hcutoff hday =>
    intro c hc
    have hwhole := hidle (by simp [hphase]) c hc
    -- a window lies within one day, so that its rows go together
    have hwindow := @windowOf_dropPartition s.log c dayNumber (hlinked.fits c hc)
    left
    split at hwindow
    · left
      rw [Table.rowcount_eq_length]
      exact congrArg List.length hwindow
    · exact hwhole.of_window hwindow
  | stop hphase =>
    intro c hc
    left
    rcases h.windows c hc with hwhole | ⟨run, hrun, hend⟩
    · exact hwhole
    · rw [Completes, hrun, Phase.OnPruning] at hcompletes
      refine wholeOrEmpty_of_none_older (fun r hr hlt => ?_) hend
      exact List.countP_eq_zero.mp hcompletes r hr (decide_eq_true hlt)

end Account

/-- Without public keys there is nothing to load. -/
theorem loadVerifiers_none (crypto : Crypto) : loadVerifiers crypto none = .ok [] := rfl

end Jasil.Audit
