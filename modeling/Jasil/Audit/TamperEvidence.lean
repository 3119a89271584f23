import Jasil.Audit.FalseAlarms
import Jasil.Audit.SignedMessages

/-! # Tamper evidence
Someone who can write the database, but cannot sign, rewrites the rows and the checkpoints.

* **`Genuine`**: the checkpoints that were sealed, and the rows that each was sealed over.
* **`Rewritten`**: tables that someone without a signing key can leave behind.
* **`tamper_evident`**: what a range that is reported ok says of the genuine windows before a checkpoint that
  is there.
* **`forged_previous`**: where it says nothing: the checkpoint before the range is taken without its
  signature. -/

namespace Jasil.Audit

/-! ## What was sealed, and what is left behind -/

/-- What is hashed of a window with these rows. -/
def sealedStream (rows : List AuditLog) (prevHash : Option String) : List Char :=
  digestStream ((sortBy AuditLog.occurredAt rows).map AuditLog.fetched) prevHash

/-- **The checkpoints that were sealed, and the rows that each was sealed over.** -/
structure Genuine (crypto : Crypto) (genuine : List AuditCheckpoint)
    (sealedRows : AuditCheckpoint → List AuditLog) : Prop where
  linked : Linked genuine
  sealedOver : ∀ g ∈ genuine, SealedOver crypto g (sealedRows g)
  stored : ∀ g ∈ genuine, ∀ r ∈ sealedRows g, r.Stored

/-- What is hashed when the genuine windows are sealed. -/
def sealedTexts (genuine : List AuditCheckpoint)
    (sealedRows : AuditCheckpoint → List AuditLog) : Set (List Char) :=
  {text | ∃ g ∈ genuine, text = sealedStream (sealedRows g) g.prevHash}

/-- What is hashed when the tables are verified. -/
def verifiedTexts (db : AuditTables) : Set (List Char) :=
  {text | ∃ c ∈ db.checkpoints.rows, text = sealedStream (windowOf db.log c) c.prevHash}

/-- **Tables that someone who cannot sign leaves behind**: whatever is in them, no signature verifies but for
a message that was signed, and no two of the texts that were hashed have one hash. -/
structure Rewritten (crypto : Crypto) (instanceId : String) (verifiers : Verifiers)
    (genuine : List AuditCheckpoint)
    (sealedRows : AuditCheckpoint → List AuditLog) (db : AuditTables) : Prop where
  deployment : db.instanceId = some instanceId
  stored : ∀ r ∈ db.log.rows, r.Stored
  dated : ∀ c ∈ db.checkpoints.rows, c.Dated
  unforged : ∀ c ∈ db.checkpoints.rows, signatureOk crypto verifiers c instanceId = true →
    ∃ g ∈ genuine, message c instanceId = message g instanceId
  noCollision : Set.InjOn crypto.sha256 (sealedTexts genuine sealedRows ∪ verifiedTexts db)

section Streams

variable {fetched fetched' : List FetchedRow} {rows rows' : List AuditLog} {prev prev' : Option String}

/-- Windows that are hashed alike hold the same rows, also where two rows of different moments share an id. -/
theorem sameRows_of_digestStream (h : ∀ r ∈ fetched, r.row.Stored) (h' : ∀ r ∈ fetched', r.row.Stored)
    (hprev : (prev.getD "").toList.head? ≠ some '[') (hprev' : (prev'.getD "").toList.head? ≠ some '[')
    (heq : digestStream fetched prev = digestStream fetched' prev') :
    SameRows (fetched.map FetchedRow.row) (fetched'.map FetchedRow.row) := by
  have hperm (rs : List FetchedRow) : (windowRows rs).Perm rs := sortGroups_perm _ _ _
  have hlines := (stream_inj (fun r hr => h r ((hperm _).mem_iff.mp hr)) (fun r hr =>
      h' r ((hperm _).mem_iff.mp hr))
    hprev hprev' heq).1
  rw [sameRows_iff (List.forall_mem_map.mpr h) (List.forall_mem_map.mpr h'), List.map_map, List.map_map]
  calc (fetched.map (AuditLog.sorted ∘ FetchedRow.row)).Perm
        ((windowRows fetched).map fun r => r.row.sorted) := ((hperm _).map _).symm
    _ = (windowRows fetched').map fun r => r.row.sorted := hlines
    (List.Perm _ (fetched'.map (AuditLog.sorted ∘ FetchedRow.row))) := (hperm _).map _

/-- Texts that are sealed alike have the same rows. -/
theorem sameRows_of_sealedStream (h : ∀ r ∈ rows, r.Stored) (h' : ∀ r ∈ rows', r.Stored)
    (hprev : (prev.getD "").toList.head? ≠ some '[') (hprev' : (prev'.getD "").toList.head? ≠ some '[')
    (heq : sealedStream rows prev = sealedStream rows' prev') : SameRows rows rows' := by
  have hstored {rows : List AuditLog} (h : ∀ r ∈ rows, r.Stored) :
      ∀ r ∈ (sortBy AuditLog.occurredAt rows).map AuditLog.fetched, r.row.Stored :=
    List.forall_mem_map.mpr fun r hr => h r (mem_sortBy.mp hr)
  have hrows (rows : List AuditLog) :
      ((sortBy AuditLog.occurredAt rows).map AuditLog.fetched).map FetchedRow.row
        = sortBy AuditLog.occurredAt rows := by
    simp [Function.comp_def]
  have hsame := sameRows_of_digestStream (hstored h) (hstored h') hprev hprev' heq
  rw [hrows, hrows, SameRows] at hsame
  rwa [Multiset.coe_eq_coe.mpr (sortBy_perm _ rows), Multiset.coe_eq_coe.mpr (sortBy_perm _ rows')] at hsame

end Streams

section Detection

variable {crypto : Crypto} {instanceId : String} {verifiers : Verifiers}
  {genuine front rest : List AuditCheckpoint}
  {sealedRows : AuditCheckpoint → List AuditLog} {db : AuditTables} {horizon : Option Instant}
  {previous : Option AuditCheckpoint} {cs : List AuditCheckpoint} {c g w last : AuditCheckpoint}
  {fromTs toTs : Instant}

/-- **The checkpoints of a history are genuine**, as are the rows that are left of their windows. -/
theorem exists_genuine {sink : Sink} {s : AuditState}
    (h : Reaches (auditStep crypto instanceId) (fun s a => Timely s a ∧ a.Brings AuditLog.Stored)
      (AuditState.initial sink) s) :
    ∃ sealedRows, Genuine crypto s.checkpoints.rows sealedRows
      ∧ ∀ c ∈ s.checkpoints.rows, (windowOf s.log c).Sublist (sealedRows c) := by
  have hinv : AccountInv AuditLog.Stored crypto s := accountInv_reaches (fun _ _ hok => hok) h
  choose! sealedRows hsealed hstored hleft _ using hinv.windows
  exact ⟨sealedRows, ⟨hinv.retention.chain.linked, hsealed, hstored⟩, hleft⟩

/-- A genuine window starts and ends at instants that have a text. -/
theorem Genuine.dated (h : Genuine crypto genuine sealedRows) (hg : g ∈ genuine) : g.Dated :=
  ⟨(h.linked.fits g hg).start_representable, (h.linked.fits g hg).stop_representable⟩

/-- A genuine window's hash is one of the hash function's values. -/
theorem Genuine.hash (h : Genuine crypto genuine sealedRows) (hhash : ∀ text, IsHash (crypto.sha256 text))
    (hg : g ∈ genuine) : IsHash g.hash := by
  rw [(h.sealedOver g hg).hash]
  exact hhash _

/-- The hash that a genuine checkpoint names is that of another one. -/
theorem Genuine.prevHash (h : Genuine crypto genuine sealedRows) (hhash : ∀ text, IsHash (crypto.sha256 text))
    (hg : g ∈ genuine) : ∀ hash ∈ g.prevHash, IsHash hash := by
  intro hash hprev
  obtain ⟨front, rest, rfl⟩ := List.append_of_mem hg
  cases hlast : front.getLast? with
  | none =>
    obtain rfl := List.getLast?_eq_none_iff.mp hlast
    rw [h.linked.head g rfl] at hprev
    cases hprev
  | some p =>
    rw [(List.isChain_append.mp h.linked.links).2.2 p hlast g rfl] at hprev
    obtain rfl := Option.some.inj hprev
    exact h.hash hhash (List.mem_append_left _ (List.mem_of_getLast? hlast))

/-- **A checkpoint that counts is a genuine one.** -/
theorem matches_of_trusted (hgenuine : Genuine crypto genuine sealedRows)
    (hhash : ∀ text, IsHash (crypto.sha256 text))
    (h : Rewritten crypto instanceId verifiers genuine sealedRows db) (hkeys : verifiers ≠ [])
    (hc : c ∈ db.checkpoints.rows) (htrusted : Trusted crypto verifiers instanceId c) :
    ∃ g ∈ genuine, Matches c g := by
  obtain ⟨g, hg, hmessage⟩ := h.unforged c hc (htrusted.resolve_left hkeys)
  exact ⟨g, hg, message_inj (h.dated c hc) (hgenuine.dated hg) (hgenuine.hash hhash hg)
    (hgenuine.prevHash hhash hg)
    hmessage⟩

/-- Each of the windows is checked after the one before it. -/
theorem WindowsOk.split (hok : WindowsOk crypto db.log verifiers instanceId horizon previous cs) (hc : c ∈ cs) :
    ∃ before after, cs = before ++ c :: after
      ∧ WindowOk crypto db.log verifiers instanceId horizon (lastChecked previous before) c := by
  obtain ⟨before, after, rfl⟩ := List.append_of_mem hc
  exact ⟨before, after, rfl, (windowsOk_append.mp hok).2.1⟩

/-- Genuine windows that end at one instant are the same. -/
theorem Genuine.eq_of_windowEnd (h : Genuine crypto genuine sealedRows) (hg : g ∈ genuine) (hw : w ∈ genuine)
    (hend : g.windowEnd = w.windowEnd) : g = w := by
  have hadjacent := h.linked.adjacent
  rcases lt_trichotomy g.windowStart w.windowStart with hlt | heq | hlt
  · have hle := hadjacent.stop_le_start hg hw hlt
    exact absurd (hadjacent.nonempty w hw) (not_lt.mpr (hend ▸ hle))
  · exact hadjacent.start_inj hg hw heq
  · have hle := hadjacent.stop_le_start hw hg hlt
    exact absurd (hadjacent.nonempty g hg) (not_lt.mpr (hend ▸ hle))

/-- **One step back**: before a genuine window that is checked stands the genuine one before it, or the
checkpoint before the range ends where it does. -/
theorem matched_before (hgenuine : Genuine crypto genuine sealedRows)
    (hhash : ∀ text, IsHash (crypto.sha256 text)) (hmatch : ∀ c ∈ cs, ∃ g ∈ genuine, Matches c g)
    (hok : WindowsOk crypto db.log verifiers instanceId horizon previous cs) (hw : w ∈ genuine)
    (hlink : g.prevHash = some w.hash) (hend : w.windowEnd = g.windowStart) (hc : c ∈ cs) (hcg : Matches c g) :
    (∃ c' ∈ cs, Matches c' w) ∨ ∃ p ∈ previous, w.windowStart < p.windowEnd := by
  obtain ⟨before, after, rfl, hwindow⟩ := hok.split hc
  -- the link names a checkpoint, so there is one
  obtain ⟨p, hp⟩ : ∃ p, lastChecked previous before = some p := by
    cases hnone : lastChecked previous before with
    | some p => exact ⟨p, rfl⟩
    | none =>
      have hprev := hcg.prevHash
      rw [hwindow.link, hnone, hlink] at hprev
      exact absurd hprev.symm (hgenuine.hash hhash hw).1
  have hstop : p.windowEnd = w.windowEnd := by
    rw [hwindow.adjacent p hp, hcg.windowStart, hend]
  rw [lastChecked] at hp
  cases hlast : before.getLast? with
  | some q =>
    rw [hlast] at hp
    obtain rfl : q = p := Option.some.inj hp
    have hmem : q ∈ before ++ c :: after := List.mem_append_left _ (List.mem_of_getLast? hlast)
    obtain ⟨g', hg', hqg⟩ := hmatch q hmem
    obtain rfl := hgenuine.eq_of_windowEnd hg' hw (hqg.windowEnd.symm.trans hstop)
    exact .inl ⟨q, hmem, hqg⟩
  | none =>
    rw [hlast, Option.none_or] at hp
    exact .inr ⟨p, hp, hstop ▸ hgenuine.linked.adjacent.nonempty w hw⟩

/-- **All the way back** from a genuine window that is checked. -/
theorem matched_back (hgenuine : Genuine crypto genuine sealedRows) (hhash : ∀ text, IsHash (crypto.sha256 text))
    (hmatch : ∀ c ∈ cs, ∃ g ∈ genuine, Matches c g)
    (hok : WindowsOk crypto db.log verifiers instanceId horizon previous cs)
    (hlist : genuine = front ++ w :: rest) (hlast : last ∈ w :: rest) (hthere : ∃ c ∈ cs, Matches c last) :
    (∃ c ∈ cs, Matches c w) ∨ ∃ p ∈ previous, w.windowStart < p.windowEnd := by
  induction rest generalizing front w with
  | nil =>
    obtain rfl := List.mem_singleton.mp hlast
    exact .inl hthere
  | cons w' rest ih =>
    rcases List.mem_cons.mp hlast with rfl | hlater
    · exact .inl hthere
    have hw : w ∈ genuine := hlist ▸ List.mem_append_right _ List.mem_cons_self
    have hnext := hlist ▸ isChain_and hgenuine.linked.adjacent.next hgenuine.linked.links
    obtain ⟨hend, hlink⟩ := (List.isChain_cons_cons.mp (List.isChain_append.mp hnext).2.1).1
    rcases @ih (front ++ [w]) w' (by simpa using hlist) hlater with ⟨c, hc, hcw⟩ | ⟨p, hp, hlt⟩
    · exact matched_before hgenuine hhash hmatch hok hw hlink hend hc hcw
    · exact .inr ⟨p, hp, ((hgenuine.linked.adjacent.nonempty w hw).trans_eq hend).trans hlt⟩

/-- **The rows of a checked window are those that were sealed.** -/
theorem sameRows_of_rowsMatch (hgenuine : Genuine crypto genuine sealedRows)
    (hhash : ∀ text, IsHash (crypto.sha256 text))
    (h : Rewritten crypto instanceId verifiers genuine sealedRows db)
    (hc : c ∈ db.checkpoints.rows) (hw : w ∈ genuine) (hcw : Matches c w) (hrows : RowsMatch crypto db.log c) :
    SameRows (windowOf db.log w) (sealedRows w) := by
  have hwindow : windowOf db.log c = windowOf db.log w := by simp only [windowOf, hcw.windowStart, hcw.windowEnd]
  have hprev : (w.prevHash.getD "").toList.head? ≠ some '[' := by
    intro hbracket
    cases hprev : w.prevHash with
    | none =>
      rw [hprev] at hbracket
      cases hbracket
    | some hash =>
      rw [hprev] at hbracket
      rcases (hgenuine.prevHash hhash hw hash hprev).2 '[' (List.mem_of_head? hbracket) with hdigit
        | ⟨hletter, -⟩
      · exact absurd hdigit (by decide)
      · exact absurd hletter (by decide)
  have hsame : sealedStream (windowOf db.log c) c.prevHash = sealedStream (sealedRows w) w.prevHash := by
    refine h.noCollision (.inr ⟨c, hc, rfl⟩) (.inl ⟨w, hw, rfl⟩) ?_
    rw [RowsMatch, digest_window] at hrows
    calc crypto.sha256 (sealedStream (windowOf db.log c) c.prevHash) = c.hash := congrArg Digest.hash hrows
      _ = w.hash := hcw.hash
      _ = crypto.sha256 (sealedStream (sealedRows w) w.prevHash) := (hgenuine.sealedOver w hw).hash
  rw [hwindow] at hsame
  exact sameRows_of_sealedStream (fun r hr => h.stored r (Table.mem_select.mp hr).1) (hgenuine.stored w hw)
    (by rwa [hcw.prevHash]) hprev hsame

/-- How far pruning may have gone is what a checkpoint that counts allows. -/
theorem exists_of_pruningHorizon {checkpoints : CheckpointTable} {reached : Instant}
    (h : reached ∈ pruningHorizon crypto checkpoints verifiers instanceId) :
    ∃ c ∈ checkpoints.rows, Trusted crypto verifiers instanceId c ∧ 0 < c.retentionDays ∧ c.legalHold = false
      ∧ retentionHorizon c = some reached := by
  unfold pruningHorizon at h
  obtain ⟨candidate, hfind, rfl⟩ := Option.map_eq_some_iff.mp h
  have hmem := List.mem_of_find?_eq_some hfind
  rw [mem_sortBy, List.mem_filterMap] at hmem
  obtain ⟨c, hc, heq⟩ := hmem
  obtain ⟨hc, hdays, hhold⟩ := Table.mem_select.mp hc
  obtain ⟨horizon, hhorizon, rfl⟩ := Option.map_eq_some_iff.mp heq
  have htrusted := List.find?_some hfind
  exact ⟨c, hc, of_decide_eq_true htrusted, hdays, hhold, hhorizon⟩

/-- **A window that is accepted without its rows is excused by a genuine checkpoint.** -/
theorem excused_of_pruned (hgenuine : Genuine crypto genuine sealedRows)
    (hhash : ∀ text, IsHash (crypto.sha256 text))
    (h : Rewritten crypto instanceId verifiers genuine sealedRows db) (hkeys : verifiers ≠ [])
    (hcw : Matches c w)
    (hpruned : Pruned crypto db.log (pruningHorizon crypto db.checkpoints verifiers instanceId) c) :
    windowOf db.log w = [] ∧ Excused genuine w := by
  obtain ⟨-, hzero, -, reached, hreached, hle⟩ := hpruned
  have hwindow : windowOf db.log c = windowOf db.log w := by simp only [windowOf, hcw.windowStart, hcw.windowEnd]
  constructor
  · rw [digest_window, hwindow] at hzero
    exact List.eq_nil_of_length_eq_zero (Int.ofNat_eq_zero.mp hzero)
  · obtain ⟨c', hc', htrusted, hdays, hhold, hhorizon⟩ := exists_of_pruningHorizon hreached
    obtain ⟨g, hg, hmatches⟩ := matches_of_trusted hgenuine hhash h hkeys hc' htrusted
    refine ⟨g, hg, hmatches.retentionDays ▸ hdays, hmatches.legalHold ▸ hhold, reached, ?_, hcw.windowEnd ▸ hle⟩
    rw [← hhorizon, retentionHorizon, retentionHorizon, hmatches.windowEnd, hmatches.retentionDays]

end Detection

/-- With public keys there is something to verify with. -/
theorem loadVerifiers_ne_nil {crypto : Crypto} {keys : List String} {verifiers : Verifiers}
    (h : loadVerifiers crypto (some keys) = .ok verifiers) : verifiers ≠ [] := by
  rw [loadVerifiers] at h
  split at h
  · cases h
  rename_i hkeys
  split at h
  · obtain rfl := Except.ok.inj h
    simpa using hkeys
  · cases h

/-- **What a range that is reported ok says of the genuine windows in it.** Where the keys are those of the
genuine checkpoints, whatever someone who cannot sign makes of the rows and the checkpoints: if the range is
reported ok and a genuine checkpoint in it is still there, then of each genuine window from the start of the
range up to that one the rows are those that were sealed, or all are gone and the retention of a genuine
checkpoint allows it; or the checkpoint that stands before the range reaches beyond the start of the window,
and then it is no genuine one. -/
theorem tamper_evident (crypto : Crypto) (instanceId : String) {genuine : List AuditCheckpoint}
    {sealedRows : AuditCheckpoint → List AuditLog} (hgenuine : Genuine crypto genuine sealedRows)
    (hhash : ∀ text, IsHash (crypto.sha256 text)) {keys : List String} {verifiers : Verifiers}
    (hkeys : loadVerifiers crypto (some keys) = .ok verifiers) {db : AuditTables}
    (h : Rewritten crypto instanceId verifiers genuine sealedRows db) {fromTs toTs : Instant}
    (hok : ReportsOk crypto db (some keys) fromTs toTs) {w last : AuditCheckpoint} (hw : w ∈ genuine)
    (hlast : last ∈ genuine) (hfrom : fromTs ≤ w.windowStart) (hle : w.windowStart ≤ last.windowStart)
    (hto : last.windowEnd ≤ toTs) (hthere : last ∈ db.checkpoints.rows) :
    SameRows (windowOf db.log w) (sealedRows w) ∨ windowOf db.log w = [] ∧ Excused genuine w
      ∨ ∃ p ∈ db.previous fromTs, w.windowStart < p.windowEnd ∧ ¬Trusted crypto verifiers instanceId p := by
  have hne := loadVerifiers_ne_nil hkeys
  obtain ⟨-, -, verifiers', hkeys', hok⟩ := reportsOk_iff.mp hok
  obtain rfl : verifiers = verifiers' := Except.ok.inj (hkeys.symm.trans hkeys')
  have hok := hok.resolve_left (List.ne_nil_of_mem hthere)
  have hwindows := hok.windows
  rw [h.deployment, Option.getD_some] at hwindows
  have hmem {c : AuditCheckpoint} (hc : c ∈ db.inside fromTs toTs) : c ∈ db.checkpoints.rows :=
    mem_sortBy.mp (List.mem_filter.mp hc).1
  have hmatch : ∀ c ∈ db.inside fromTs toTs, ∃ g ∈ genuine, Matches c g := by
    intro c hc
    obtain ⟨_, _, _, hwindow⟩ := hwindows.split hc
    exact matches_of_trusted hgenuine hhash h hne (hmem hc) hwindow.trusted
  have hchecked : last ∈ db.inside fromTs toTs := by
    rw [AuditTables.inside, List.mem_filter, decide_eq_true_eq]
    exact ⟨mem_sortBy.mpr hthere, hfrom.trans hle, hto⟩
  obtain ⟨front, rest, hlist⟩ := List.append_of_mem hw
  have hlater : last ∈ w :: rest := by
    rw [hlist] at hlast
    rcases List.mem_append.mp hlast with hbefore | hafter
    · have hsorted := hlist ▸ hgenuine.linked.adjacent.pairwise_start
      exact absurd ((List.pairwise_append.mp hsorted).2.2 last hbefore w List.mem_cons_self) (not_lt.mpr hle)
    · exact hafter
  rcases matched_back hgenuine hhash hmatch hwindows hlist hlater ⟨last, hchecked, .refl last⟩ with
    ⟨c, hc, hcw⟩ | ⟨p, hp, hlt⟩
  · obtain ⟨_, _, _, hwindow⟩ := hwindows.split hc
    rcases hwindow.rows with hrows | hpruned
    · exact .inl (sameRows_of_rowsMatch hgenuine hhash h (hmem hc) hw hcw hrows)
    · exact .inr (.inl (excused_of_pruned hgenuine hhash h hne hcw hpruned))
  · refine .inr (.inr ⟨p, hp, hlt, fun htrusted => ?_⟩)
    -- a genuine checkpoint that starts before the range ends before the window starts
    have hp' := List.mem_filter.mp (List.mem_of_getLast? hp)
    obtain ⟨g, hg, hpg⟩ := matches_of_trusted hgenuine hhash h hne (mem_sortBy.mp hp'.1) htrusted
    have hbefore : g.windowStart < w.windowStart := hpg.windowStart ▸ (of_decide_eq_true hp'.2).trans_le hfrom
    have hend := hgenuine.linked.adjacent.stop_le_start hg hw hbefore
    exact absurd (hpg.windowEnd ▸ hlt) (not_lt.mpr hend)

/-- The two days after someone was at them: the row of the first day is gone, the details of the other row
have their keys in another order, and a third day that nobody sealed borrows a signature. -/
def rewrittenTables : AuditTables where
  log := Table.empty.insert { secondRow with details := .obj [("y", .null), ("x", .int 1)] }
  checkpoints := ((Table.empty.insert firstWindow).insert secondWindow).insert
    { secondWindow with windowStart := 2 * day, windowEnd := 3 * day, prevHash := none }
  instanceId := some "i1"

/-- What each of the two days was sealed over. -/
def sampleRows (c : AuditCheckpoint) : List AuditLog :=
  if c.windowStart = 0 then [firstRow] else [secondRow]

/-- The first row can be stored. -/
theorem stored_firstRow : firstRow.Stored := ⟨by decide, by simp [firstRow, sampleRow, Json.WellFormed]⟩

/-- So can the second one. -/
theorem stored_secondRow : secondRow.Stored :=
  ⟨by decide, by simp [secondRow, sampleRow, Json.WellFormed, Json.FieldsWellFormed]⟩

/-- Both windows are genuine. -/
theorem genuine_twoDays : Genuine sampleCrypto [firstWindow, secondWindow] sampleRows where
  linked := by
    refine (Linked.nil.concat ?_ (fun _ => rfl) ?_).concat ?_ (by rintro ⟨⟩) ?_
    · rintro last ⟨⟩
    · exact ⟨by decide, by decide, by decide, by decide, by decide, by decide⟩
    · rintro last ⟨⟩
      exact ⟨rfl, rfl⟩
    · exact ⟨by decide, by decide, by decide, by decide, by decide, by decide⟩
  sealedOver := by
    have hfirst : SealedOver sampleCrypto firstWindow (sampleRows firstWindow) := ⟨rfl, sha256_firstRow.symm⟩
    have hsecond : SealedOver sampleCrypto secondWindow (sampleRows secondWindow) :=
      ⟨rfl, sha256_secondRow.symm⟩
    simpa using ⟨hfirst, hsecond⟩
  stored := by
    have hfirst : sampleRows firstWindow = [firstRow] := rfl
    have hsecond : sampleRows secondWindow = [secondRow] := rfl
    simpa [hfirst, hsecond] using ⟨stored_firstRow, stored_secondRow⟩

/-- The row that is left. -/
def rewrittenRow : AuditLog := { secondRow with details := .obj [("y", .null), ("x", .int 1)] }

/-- It can be stored as well. -/
theorem stored_rewrittenRow : rewrittenRow.Stored :=
  ⟨by decide, by simp [rewrittenRow, Json.WellFormed, Json.FieldsWellFormed]⟩

/-- The checkpoints that are left. -/
theorem checkpoints_rewrittenTables : rewrittenTables.checkpoints.rows = [firstWindow, secondWindow,
    { secondWindow with windowStart := 2 * day, windowEnd := 3 * day, prevHash := none }] := rfl

/-- The texts that are hashed of the two days, when they are sealed and when they are verified. -/
def sampleTexts : List (List Char) :=
  [sealedStream [firstRow] none, sealedStream [secondRow] (some firstWindow.hash), sealedStream [] none]

/-- Every text that is sealed or verified in the sample is one of those that the sample's hash tells apart. -/
theorem hashed_twoDays :
    ∀ text ∈ sealedTexts [firstWindow, secondWindow] sampleRows ∪ verifiedTexts rewrittenTables,
      text ∈ sampleTexts := by
  have hempty : sealedStream [] none ∈ sampleTexts :=
    List.mem_cons_of_mem _ (List.mem_cons_of_mem _ List.mem_cons_self)
  have hsecond : sealedStream [secondRow] (some firstWindow.hash) ∈ sampleTexts :=
    List.mem_cons_of_mem _ List.mem_cons_self
  rintro text (⟨g, hg, rfl⟩ | ⟨c, hc, rfl⟩)
  · rcases List.mem_pair.mp hg with rfl | rfl
    · exact List.mem_cons_self
    · exact hsecond
  · rw [checkpoints_rewrittenTables] at hc
    rcases List.mem_cons.mp hc with rfl | hc
    · exact hempty
    · rcases List.mem_pair.mp hc with rfl | rfl
      · -- the keys are sorted before the details are hashed
        have hsame : Json.Same (.obj [("y", .null), ("x", .int 1)]) (.obj [("x", .int 1), ("y", .null)]) := by
          rw [Json.Same, Json.FieldsSame, Json.FieldsSame, Json.FieldsSame]
          refine ⟨rfl, ⟨.null, List.mem_cons_of_mem _ List.mem_cons_self, ?_⟩, ⟨.int 1, List.mem_cons_self, ?_⟩,
            trivial⟩
          · rw [Json.Same]
            trivial
          · rw [Json.Same]
        have hrow : canonicalRow rewrittenRow.fetched = canonicalRow secondRow.fetched :=
          canonicalRow_of_same stored_rewrittenRow stored_secondRow ⟨rfl, hsame⟩
        have hstream : sealedStream [rewrittenRow] (some firstWindow.hash)
            = sealedStream [secondRow] (some firstWindow.hash) :=
          congrArg (· ++ '\n' :: firstWindow.hash.toList) hrow
        exact hstream ▸ hsecond
      · exact hempty

/-- The second day was rewritten. -/
theorem rewritten_twoDays : Rewritten sampleCrypto "i1" [(sampleKeyId, samplePublicKey)]
    [firstWindow, secondWindow] sampleRows rewrittenTables where
  deployment := rfl
  stored := by
    have hrows : rewrittenTables.log.rows = [rewrittenRow] := rfl
    rw [hrows, List.forall_mem_singleton]
    exact stored_rewrittenRow
  dated := by
    have hdated : ∀ c ∈ rewrittenTables.checkpoints.rows,
        Representable c.windowStart ∧ Representable c.windowEnd := by decide
    exact fun c hc => ⟨(hdated c hc).1, (hdated c hc).2⟩
  unforged := by
    -- the borrowed signature is of another window
    have hborrowed : signatureOk sampleCrypto [(sampleKeyId, samplePublicKey)]
        { secondWindow with windowStart := 2 * day, windowEnd := 3 * day, prevHash := none } "i1" = false := by
      decide +kernel
    rw [checkpoints_rewrittenTables]
    intro c hc hok
    rcases List.mem_cons.mp hc with rfl | hc
    · exact ⟨_, List.mem_cons_self, rfl⟩
    · rcases List.mem_pair.mp hc with rfl | rfl
      · exact ⟨_, List.mem_cons_of_mem _ List.mem_cons_self, rfl⟩
      · rw [hborrowed] at hok
        cases hok
  noCollision := by
    have hhashes : (sampleTexts.map sampleCrypto.sha256).Nodup := by
      have hmap : sampleTexts.map sampleCrypto.sha256 = [firstWindow.hash, secondWindow.hash, emptyHash] :=
        congr (congrArg List.cons sha256_firstRow)
          (congr (congrArg List.cons sha256_secondRow) (congrArg (fun hash => [hash]) sha256_nil))
      rw [hmap]
      decide +kernel
    intro text htext text' htext' heq
    exact List.inj_on_of_nodup_map hhashes (hashed_twoDays text htext) (hashed_twoDays text' htext') heq

/-- The range is still reported ok: the second day has its row, and the first day is empty and its retention
is over. -/
theorem tamper_evident_rewrittenTables :
    (SameRows (windowOf rewrittenTables.log firstWindow) (sampleRows firstWindow)
      ∨ windowOf rewrittenTables.log firstWindow = [] ∧ Excused [firstWindow, secondWindow] firstWindow
      ∨ ∃ p ∈ rewrittenTables.previous 0, firstWindow.windowStart < p.windowEnd
        ∧ ¬Trusted sampleCrypto [(sampleKeyId, samplePublicKey)] "i1" p)
    ∧ (SameRows (windowOf rewrittenTables.log secondWindow) (sampleRows secondWindow)
      ∨ windowOf rewrittenTables.log secondWindow = [] ∧ Excused [firstWindow, secondWindow] secondWindow
      ∨ ∃ p ∈ rewrittenTables.previous 0, secondWindow.windowStart < p.windowEnd
        ∧ ¬Trusted sampleCrypto [(sampleKeyId, samplePublicKey)] "i1" p) := by
  have hkeys : loadVerifiers sampleCrypto (some [samplePublicKey]) = .ok [(sampleKeyId, samplePublicKey)] := rfl
  have hhash : ∀ text, IsHash (sampleCrypto.sha256 text) := by
    intro text
    simp only [sampleCrypto]
    split
    · decide
    split
    · decide
    · decide
  have hok : ReportsOk sampleCrypto rewrittenTables (some [samplePublicKey]) 0 (2 * day) :=
      ⟨_, rfl, by decide +kernel⟩
  have hlast : secondWindow ∈ [firstWindow, secondWindow] := List.mem_cons_of_mem _ List.mem_cons_self
  constructor
  · exact tamper_evident sampleCrypto "i1" genuine_twoDays hhash hkeys rewritten_twoDays hok
      List.mem_cons_self hlast (by decide) (by decide) le_rfl (by decide)
  · exact tamper_evident sampleCrypto "i1" genuine_twoDays hhash hkeys rewritten_twoDays hok hlast hlast
      (by decide) le_rfl le_rfl (by decide)

/-! ## The checkpoint before the range -/

/-- The checkpoint with its window stretched to before `fromTs`, and no signature. -/
def AuditCheckpoint.stretched (w : AuditCheckpoint) (fromTs : Instant) : AuditCheckpoint :=
  { w with windowStart := fromTs - 1, prevHash := none, signature := none, keyId := none }

/-- **Tables that anyone can make of these**: the rows and the checkpoints up to the window are gone, and a
checkpoint in its place reaches back to before `fromTs`. -/
def AuditTables.stretch (db : AuditTables) (w : AuditCheckpoint) (fromTs : Instant) : AuditTables where
  log := db.log.delete fun r => r.occurredAt < w.windowEnd
  checkpoints := (db.checkpoints.delete fun c => c.windowStart < w.windowEnd).insert (w.stretched fromTs)
  instanceId := db.instanceId

section Stretching

variable {db : AuditTables} {w : AuditCheckpoint} {front rest : List AuditCheckpoint} {fromTs : Instant}

/-- What is left of the chain is what comes after the window. -/
theorem rows_stretch (hlinked : Linked db.checkpoints.rows) (hrows : db.checkpoints.rows = front ++ w :: rest)
    (hfrom : fromTs ≤ w.windowStart) :
    (db.stretch w fromTs).checkpoints.rows = rest ++ [w.stretched fromTs] := by
  have hadjacent := hrows ▸ hlinked.adjacent
  have hw : w.windowStart < w.windowEnd := hadjacent.nonempty w (List.mem_append_right _ List.mem_cons_self)
  have hstarts := List.pairwise_append.mp hadjacent.pairwise_start
  have hkept : (db.checkpoints.delete fun c => c.windowStart < w.windowEnd).rows = rest := by
    have hfront : front.filter (fun c => ¬c.windowStart < w.windowEnd) = [] := by
      refine List.filter_eq_nil_iff.mpr fun c hc => ?_
      simpa using (hstarts.2.2 c hc w List.mem_cons_self).trans hw
    have hrest : rest.filter (fun c => ¬c.windowStart < w.windowEnd) = rest := by
      refine List.filter_eq_self.mpr fun c hc => ?_
      have hle := (List.pairwise_cons.mp (List.pairwise_append.mp hadjacent.pairwise).2.1).1 c hc
      simpa using hle
    show db.checkpoints.rows.filter (fun c => ¬c.windowStart < w.windowEnd) = rest
    rw [hrows, List.filter_append, List.filter_cons_of_neg (by simpa using hw), hfront, hrest,
      List.nil_append]
  have hnew : (db.checkpoints.delete fun c => c.windowStart < w.windowEnd).get (fromTs - 1) = none := by
    refine Table.get_eq_none_iff.mpr fun c hc heq => ?_
    have hlt : w.windowEnd ≤ c.windowStart := not_lt.mp (Table.mem_delete.mp hc).2
    rw [heq] at hlt
    exact absurd (hw.trans_le hlt) (not_lt.mpr ((Int.sub_one_lt_iff.mpr hfrom).le))
  rw [AuditTables.stretch, Table.rows_insert_of_new hnew, hkept]

/-- The checkpoints from a window on are that window and those after it. -/
theorem sorted_stretch (hlinked : Linked db.checkpoints.rows) (hrows : db.checkpoints.rows = front ++ w :: rest)
    (hfrom : fromTs ≤ w.windowStart) : (db.stretch w fromTs).sorted = w.stretched fromTs :: rest := by
  have hadjacent := hrows ▸ hlinked.adjacent
  have hstarts := (List.pairwise_append.mp hadjacent.pairwise_start).2.1
  have hsorted : (w.stretched fromTs :: rest).Pairwise fun c c' => c.windowStart < c'.windowStart := by
    refine List.pairwise_cons.mpr ⟨fun c hc => ?_, (List.pairwise_cons.mp hstarts).2⟩
    exact (Int.sub_one_lt_iff.mpr hfrom).trans ((List.pairwise_cons.mp hstarts).1 c hc)
  rw [AuditTables.sorted, rows_stretch hlinked hrows hfrom]
  refine (eq_of_perm_of_sorted (hsorted.imp fun hlt => hlt.le) (pairwise_sortBy _ _) ?_ ?_).symm
  · exact List.pairwise_map.mpr (hsorted.imp fun hlt => hlt.ne)
  · exact (List.perm_append_singleton _ _).symm.trans (sortBy_perm _ _).symm

/-- What is left is a chain again. -/
theorem adjacent_stretch (hlinked : Linked (front ++ w :: rest)) (hfrom : fromTs ≤ w.windowStart) :
    Adjacent AuditCheckpoint.windowStart AuditCheckpoint.windowEnd (w.stretched fromTs :: rest)
      ∧ (w.stretched fromTs :: rest).IsChain fun c c' => c'.prevHash = some c.hash := by
  have hnext := (List.isChain_append.mp hlinked.adjacent.next).2.1
  have hlinks := (List.isChain_append.mp hlinked.links).2.1
  have hw := hlinked.adjacent.nonempty w (List.mem_append_right _ List.mem_cons_self)
  refine ⟨⟨?_, ?_⟩, ?_⟩
  · exact List.isChain_cons.mpr (List.isChain_cons.mp hnext)
  · refine List.forall_mem_cons.mpr ⟨(Int.sub_one_lt_iff.mpr hfrom).trans hw, fun c hc => ?_⟩
    exact hlinked.adjacent.nonempty c (List.mem_append_right _ (List.mem_cons_of_mem _ hc))
  · exact List.isChain_cons.mpr (List.isChain_cons.mp hlinks)

end Stretching

/-- **Where an ok says nothing.** Of the checkpoints and the rows of a timely history, whose checkpoints all
count under the keys, anyone can take those up to a window that starts in the range, put a checkpoint without
a signature in their place, and the range is still reported ok, when the later windows in it have their rows.
The checkpoint before the range gives the link and the bound that the first window is compared with; its
signature is not looked at. -/
theorem forged_previous (crypto : Crypto) (instanceId : String) (sink : Sink) {s : AuditState}
    (h : Reaches (auditStep crypto instanceId) Timely (AuditState.initial sink) s)
    {publicKey : Option (List String)}
    {verifiers : Verifiers} (hkeys : loadVerifiers crypto publicKey = .ok verifiers)
    (htrusted : ∀ c ∈ s.checkpoints.rows, Trusted crypto verifiers instanceId c) {fromTs toTs : Instant}
    (hle : fromTs ≤ toTs) (hrange : toTs - fromTs ≤ maxVerifyRange) {w : AuditCheckpoint}
    (hw : w ∈ s.checkpoints.rows) (hfrom : fromTs ≤ w.windowStart)
    (hwhole : ∀ c ∈ s.checkpoints.rows, w.windowEnd ≤ c.windowStart → c.windowEnd ≤ toTs →
      (s.log.rowcount (InWindow c.windowStart c.windowEnd) : ℤ) = c.rowCount) :
    let db := (s.tables instanceId).stretch w fromTs
    ReportsOk crypto db publicKey fromTs toTs ∧ (∀ r ∈ db.log.rows, w.windowEnd ≤ r.occurredAt)
      ∧ ∀ c ∈ db.checkpoints.rows, c ∈ s.checkpoints.rows ∨ signatureOk crypto verifiers c instanceId
        = false := by
  intro db
  have hinv : AccountInv (fun _ => True) crypto s := accountInv_reaches (fun _ a hok => ⟨hok, brings_true a⟩) h
  have hlinked : Linked (s.tables instanceId).checkpoints.rows := hinv.retention.chain.linked
  obtain ⟨front, rest, hrows⟩ := List.append_of_mem hw
  have hrows : (s.tables instanceId).checkpoints.rows = front ++ w :: rest := hrows
  have hlater {c : AuditCheckpoint} (hc : c ∈ rest) : c ∈ s.checkpoints.rows ∧ w.windowEnd ≤ c.windowStart := by
    refine ⟨hrows ▸ List.mem_append_right _ (List.mem_cons_of_mem _ hc), ?_⟩
    have hpairwise := (List.pairwise_append.mp (hrows ▸ hlinked.adjacent.pairwise)).2.1
    exact (List.pairwise_cons.mp hpairwise).1 c hc
  have holdest : ∀ r ∈ db.log.rows, w.windowEnd ≤ r.occurredAt := by
    intro r hr
    exact not_lt.mp (Table.mem_delete.mp hr).2
  have hstart : fromTs - 1 < w.windowStart := Int.sub_one_lt_iff.mpr hfrom
  have hnonempty : w.windowStart < w.windowEnd := hlinked.adjacent.nonempty w hw
  obtain ⟨hadjacent, hlinks⟩ := adjacent_stretch (hrows ▸ hlinked) hfrom
  refine ⟨?_, holdest, ?_⟩
  · refine reportsOk_iff.mpr ⟨hle, hrange, verifiers, hkeys, .inr ?_⟩
    refine (rangeOk_of_chain (sorted_stretch hlinked hrows hfrom) hadjacent hlinks ?_ ?_).mpr
      fun c hc hin hto => ?_
    · rintro first ⟨⟩
      rfl
    · rintro first ⟨⟩ r hr
      exact (hstart.trans hnonempty).le.trans (holdest r hr)
    · rcases List.mem_cons.mp hc with rfl | hc
      · -- the checkpoint before the range is not one of those that are verified
        exact absurd hin (not_le.mpr (Int.sub_one_lt_iff.mpr le_rfl))
      obtain ⟨hc, hafter⟩ := hlater hc
      refine ⟨.inl ?_, htrusted c hc⟩
      have hwindow : windowOf db.log c = windowOf s.log c := by
        refine Table.select_delete_of_disjoint fun r _ hr hgone => ?_
        exact absurd (hafter.trans hr.1) (not_le.mpr hgone)
      have hmatch := (hinv.windows c hc).rowsMatch (hwhole c hc hafter hto)
      rw [RowsMatch, digest_window] at hmatch ⊢
      rwa [hwindow]
  · intro c hc
    rw [rows_stretch hlinked hrows hfrom] at hc
    rcases List.mem_append.mp hc with hc | hc
    · exact .inl (hlater hc).1
    · obtain rfl := List.mem_singleton.mp hc
      exact .inr rfl

/-- The first day goes with its row, and the second is reported ok under the key, which did not sign what is
put in. -/
theorem forged_previous_twoDays :
    let s := runTo (auditStep sampleCrypto "i1") Timely (.initial Table.empty) twoDays
    let db := (s.tables "i1").stretch firstWindow 0
    s.checkpoints.rows = [firstWindow, secondWindow]
      ∧ ReportsOk sampleCrypto db (some [samplePublicKey]) 0 (2 * day)
      ∧ (∀ r ∈ db.log.rows, day ≤ r.occurredAt) ∧ ∀ c ∈ db.checkpoints.rows, c ∈ s.checkpoints.rows
        ∨ signatureOk sampleCrypto [(sampleKeyId, samplePublicKey)] c "i1" = false := by
  intro s db
  obtain ⟨hreach, hread⟩ := reaches_runTo_of_map (by decide +kernel :
    (runChecked (auditStep sampleCrypto "i1") Timely (.initial Table.empty) twoDays).map
      (fun s => (s.checkpoints.rows, s.log.rowcount (InWindow day (2 * day)))) = some
      ([firstWindow, secondWindow], 1))
  obtain ⟨hrows, hsecond⟩ := Prod.mk.inj hread
  have hkeys : loadVerifiers sampleCrypto (some [samplePublicKey]) = .ok [(sampleKeyId, samplePublicKey)] := rfl
  have htrusted : ∀ c ∈ [firstWindow, secondWindow],
      Trusted sampleCrypto [(sampleKeyId, samplePublicKey)] "i1" c := by
    decide +kernel
  refine ⟨hrows, forged_previous sampleCrypto "i1" Table.empty hreach hkeys (hrows ▸ htrusted) (by decide)
    (by decide)
    (hrows ▸ List.mem_cons_self) le_rfl ?_⟩
  intro c hc hafter _
  rw [hrows] at hc
  rcases List.mem_cons.mp hc with rfl | hc
  · exact absurd hafter (by decide)
  · obtain rfl := List.mem_singleton.mp hc
    exact congrArg Nat.cast hsecond

end Jasil.Audit
