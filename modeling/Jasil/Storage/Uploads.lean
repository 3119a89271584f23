import Jasil.Storage.UploadRuns

/-! # All or nothing
A whole upload, of parts that are sent in any order and again.

* **`completeUpload_calmly`**: an upload that can be completed is completed when nothing fails.
* **`sendParts_spec`**: however many parts are sent, the session holds the latest of each.
* **`upload_allOrNothing`**: what a completion leaves, and that it can be made again. -/

namespace Jasil.Uploads

open State (Bytes)
open Objects (Text)
open Faulty
open Store

variable {t : Target} {session : UploadSession} {s s' s'' : Store}

/-! ## When nothing fails -/

/-- A step that may fail does not. -/
theorem calmly_touch : Calmly touch s () s := calmly_perform

/-- A write is made. -/
theorem calmly_effect {effect : Store → Store} : Calmly (perform effect) s () (effect s) := calmly_perform

/-- A look is made. -/
theorem calmly_look : Calmly (orUnavailable touch) s () s := calmly_tryCatch calmly_touch

/-- A step is made. -/
theorem calmly_pass : Calmly (suppress touch) s () s := calmly_tryCatch calmly_touch

/-- The session is loaded. -/
theorem calmly_loadUploadSession (hvalid : validateUploadSession t session = .ok ())
    (hmanifest : s.manifest = some session) : Calmly (loadUploadSession t session) s () s := by
  unfold loadUploadSession
  rw [hvalid]
  refine calmly_bind calmly_lift (calmly_bind calmly_look (calmly_bind calmly_observe ?_))
  rw [hmanifest]
  dsimp only
  rw [if_neg (not_not.mpr rfl)]
  exact calmly_pure

/-- The parts are those that were staged. -/
theorem calmly_uploadedParts : Calmly uploadedParts s s.parts s :=
  calmly_bind calmly_look (calmly_bind calmly_poll
    (calmly_bind calmly_look (calmly_bind calmly_observe calmly_pure)))

/-- An identity file is there and right. -/
theorem calmly_writeIdentity {file : Identity} (h : ∀ value ∈ s.identity file, value = t.value file) :
    ∃ s', Calmly (writeIdentity t file) s () s' := by
  unfold writeIdentity
  cases hidentity : s.identity file with
  | some value =>
    refine ⟨s, calmly_bind calmly_look (calmly_bind calmly_observe ?_)⟩
    rw [hidentity]
    dsimp only
    rw [if_neg (not_not.mpr (h value hidentity))]
    exact calmly_pure
  | none =>
    refine ⟨s.identify file (t.value file), calmly_bind calmly_look (calmly_bind calmly_observe ?_)⟩
    rw [hidentity]
    exact calmly_tryCatch (calmly_bind calmly_touch (calmly_bind calmly_effect calmly_touch))

/-- So are both. -/
theorem calmly_writeObjectIdentities (hsound : s.Sound t) : ∃ s', Calmly (writeObjectIdentities t) s () s' := by
  obtain ⟨s', harea⟩ := @calmly_writeIdentity t s .area hsound.area
  obtain ⟨hsteady, -⟩ := leads_of_calmly harea (leads_writeIdentity_steady .area)
  obtain ⟨s'', hkey⟩ := @calmly_writeIdentity t s' .key (hsteady.sound hsound).key
  exact ⟨s'', calmly_bind harea hkey⟩

/-- The object is prepared. -/
theorem calmly_prepareObject (hsound : s.Sound t) (hfree : Free t s) :
    ∃ s', Calmly (prepareObject t) s () s' := by
  unfold prepareObject
  split
  · rename_i hplain
    refine ⟨s, ?_⟩
    unfold checkPlainKey
    rw [hfree.name hplain]
    refine calmly_bind calmly_look (calmly_bind calmly_observe ?_)
    rw [hfree.conflict hplain]
    exact calmly_pure
  · exact calmly_writeObjectIdentities hsound

/-- A temporary path is found. -/
theorem calmly_temporaryObjectPath : Calmly (temporaryObjectPath t) s () s := by
  unfold temporaryObjectPath
  split
  · exact calmly_look
  · exact calmly_pure

/-- The chunks are copied. -/
theorem calmly_copyChunks (chunks : List Bytes) (copied : Bytes) :
    Calmly (chunks.foldlM (fun copied chunk => do touch; return copied ++ chunk) copied : Program Bytes) s
      (copied ++ chunks.flatten) s := by
  induction chunks generalizing copied with
  | nil =>
    rw [List.flatten_nil, List.append_nil]
    exact calmly_pure
  | cons chunk chunks ih =>
    rw [List.foldlM_cons, List.flatten_cons, ← List.append_assoc]
    exact calmly_bind (calmly_bind calmly_touch calmly_pure) (ih (copied ++ chunk))

/-- A part is copied. -/
theorem calmly_copyPart {ref : PartRef} {data : Bytes} (written : Bytes)
    (hlookup : s.parts.lookup ref.partNumber = some data)
    (href : ref = ⟨ref.partNumber, data.length, validatorOf t data⟩) :
    Calmly (copyPart t written ref) s (written ++ data) s := by
  obtain ⟨chunks, hchunks, rfl⟩ := readChunks_all data
  unfold copyPart
  refine calmly_bind calmly_touch (calmly_bind calmly_observe ?_)
  rw [hlookup]
  dsimp only
  rw [hchunks]
  refine calmly_bind calmly_lift (calmly_bind (calmly_copyChunks chunks []) (calmly_bind calmly_touch ?_))
  have hmatches : ¬((([] ++ chunks.flatten : Bytes).length : ℤ) ≠ ref.size ∨
      validatorOf t ([] ++ chunks.flatten) ≠ ref.validator) := by
    rw [href, List.nil_append]
    rintro (hne | hne)
    · exact hne rfl
    · exact hne rfl
  rw [if_neg hmatches, List.nil_append]
  exact calmly_pure

/-- The parts are copied. -/
theorem calmly_copyParts {refs : List PartRef} {datas : List Bytes} (written : Bytes)
    (hnamed : Named t s.parts.lookup refs datas) :
    Calmly (refs.foldlM (copyPart t) written) s (written ++ datas.flatten) s := by
  induction hnamed generalizing written with
  | nil =>
    rw [List.flatten_nil, List.append_nil]
    exact calmly_pure
  | cons hpart hrest ih =>
    rw [List.foldlM_cons, List.flatten_cons, ← List.append_assoc]
    exact calmly_bind (calmly_copyPart written hpart.1 hpart.2) (ih _)

/-- The object is put in its place. -/
theorem calmly_publish {refs : List PartRef} {datas : List Bytes} (hnamed : Named t s.parts.lookup refs datas) :
    Calmly (publish t refs) s () (s.put t datas.flatten) := by
  refine calmly_bind calmly_touch (calmly_bind (calmly_copyParts [] hnamed) (calmly_bind calmly_touch ?_))
  rw [List.nil_append]
  exact calmly_bind calmly_effect calmly_touch

/-- The opaque copy is removed. -/
theorem calmly_removeOpaqueObject (hsound : s.Sound t) : ∃ s', Calmly (removeOpaqueObject t) s () s' := by
  unfold removeOpaqueObject
  by_cases hpayload : s.payload = none
  · refine ⟨s, calmly_tryCatch (calmly_bind calmly_touch (calmly_bind calmly_observe ?_))⟩
    rw [if_pos hpayload]
    exact calmly_pure
  · obtain ⟨harea, hkey⟩ := hsound.payload hpayload
    refine ⟨{ s with payload := none, keyFile := none },
      calmly_tryCatch (calmly_bind calmly_touch (calmly_bind calmly_observe ?_))⟩
    rw [if_neg hpayload]
    refine calmly_bind calmly_touch ?_
    have hidentity : ¬(s.areaFile ≠ some t.area ∨ s.keyFile ≠ some t.key) := by
      rw [harea, hkey]
      rintro (hne | hne)
      · exact hne rfl
      · exact hne rfl
    rw [if_neg hidentity]
    exact calmly_bind calmly_effect (calmly_bind calmly_effect calmly_pass)

/-- The legacy copy is removed. -/
theorem calmly_removeLegacyObject : ∃ s', Calmly (removeLegacyObject t) s () s' := by
  unfold removeLegacyObject
  split
  · exact ⟨s, calmly_pure⟩
  by_cases hflat : s.flat = none
  · refine ⟨s, calmly_tryCatch (calmly_bind calmly_touch (calmly_bind calmly_observe ?_))⟩
    rw [if_neg (not_not.mpr hflat)]
    exact calmly_pure
  · refine ⟨{ s with flat := none }, calmly_tryCatch (calmly_bind calmly_touch (calmly_bind calmly_observe ?_))⟩
    rw [if_pos hflat]
    exact calmly_bind calmly_effect calmly_pass

/-- The commit is finished. -/
theorem calmly_finishCommit (hsound : s.Sound t) : ∃ s', Calmly (finishCommit t) s () s' := by
  unfold finishCommit
  split
  · exact calmly_removeOpaqueObject hsound
  · obtain ⟨s', hwritten⟩ := calmly_writeObjectIdentities hsound
    obtain ⟨s'', hremoved⟩ := @calmly_removeLegacyObject t s'
    exact ⟨s'', calmly_bind hwritten hremoved⟩

/-- The parts are removed. -/
theorem calmly_removeParts (partNumbers : List ℤ) :
    ∃ s', Calmly (partNumbers.forM fun partNumber => perform fun s =>
      { s with parts := s.parts.erase partNumber }) s
      () s' := by
  induction partNumbers generalizing s with
  | nil => exact ⟨s, calmly_pure⟩
  | cons partNumber partNumbers ih =>
    obtain ⟨s', hrest⟩ := @ih { s with parts := s.parts.erase partNumber }
    exact ⟨s', calmly_bind calmly_effect hrest⟩

/-- The session is removed. -/
theorem calmly_removeSession : ∃ s', Calmly removeSession s () s' := by
  obtain ⟨s', hremoved⟩ := @calmly_removeParts s s.parts.keys
  exact ⟨_, calmly_tryCatch (calmly_bind calmly_observe (calmly_bind hremoved calmly_effect))⟩

/-- A part that is named is there. -/
theorem named_of_mem {parts : FiniteMap ℤ Bytes} {refs : List PartRef} {datas : List Bytes}
    (h : Named t parts.lookup refs datas) {ref : PartRef} (href : ref ∈ refs) :
    ∃ data, parts.lookup ref.partNumber = some data
      ∧ ref = ⟨ref.partNumber, data.length, validatorOf t data⟩ := by
  induction h with
  | nil => cases href
  | cons hpart hrest ih =>
    rcases List.mem_cons.mp href with rfl | href
    · exact ⟨_, hpart⟩
    · exact ih href

/-- The references match the parts. -/
theorem matchParts_ok {parts : FiniteMap ℤ Bytes} {refs : List PartRef} {datas : List Bytes}
    (h : Completes t parts.lookup refs datas) : matchParts parts refs = .ok () := by
  have hevery : refs.all (fun part => part.partNumber ∈ parts) ∧
      parts.keys.all fun partNumber => refs.any fun part => part.partNumber = partNumber := by
    constructor
    · refine List.all_eq_true.mpr fun ref href => decide_eq_true ?_
      obtain ⟨data, hlookup, -⟩ := named_of_mem h.named href
      exact FiniteMap.mem_iff_lookup.mpr ⟨data, hlookup⟩
    · refine List.all_eq_true.mpr fun partNumber hmem => ?_
      have hfound : parts.lookup partNumber ≠ none := by
        rw [Ne, AList.lookup_eq_none, not_not]
        exact AList.mem_keys.mpr hmem
      obtain ⟨ref, href, hnumber⟩ := h.every partNumber hfound
      exact List.any_eq_true.mpr ⟨ref, href, decide_eq_true hnumber⟩
  rw [matchParts, if_neg (not_not.mpr hevery)]
  refine Failing.forM_ok fun ref href => ?_
  obtain ⟨data, hlookup, hsame⟩ := named_of_mem h.named href
  refine if_neg (not_not.mpr ?_)
  rw [hlookup, hsame]
  rfl

/-- **An upload that can be completed is completed**, when nothing fails. -/
theorem completeUpload_calmly {refs : List PartRef} {datas : List Bytes} {total : ℤ} (hsound : s.Sound t)
    (hfree : Free t s) (hvalid : validateUploadSession t session = .ok ())
    (hmanifest : s.manifest = some session) (hcompletes : Completes t s.parts.lookup refs datas)
    (htotal : validateCompletionParts session refs = .ok total) :
    ∃ s', Calmly (completeUpload t session refs) s total s' := by
  obtain ⟨s₁, hprepared⟩ := calmly_prepareObject hsound hfree
  obtain ⟨hsteady, hidentity⟩ := leads_of_calmly hprepared leads_prepareObject
  have hnamed : Named t s₁.parts.lookup refs datas := hsteady.session.parts ▸ hcompletes.named
  obtain ⟨-, hsound', -⟩ := @put_spec t s₁ datas.flatten (hsteady.sound hsound) (hidentity rfl)
  obtain ⟨s₂, hfinished⟩ := calmly_finishCommit hsound'
  obtain ⟨s₃, hremoved⟩ := @calmly_removeSession s₂
  refine ⟨s₃, ?_⟩
  unfold completeUpload
  rw [htotal]
  refine calmly_bind (calmly_loadUploadSession hvalid hmanifest) (calmly_bind calmly_lift
    (calmly_bind calmly_uploadedParts ?_))
  rw [matchParts_ok hcompletes]
  exact calmly_bind calmly_lift (calmly_bind hprepared (calmly_bind calmly_temporaryObjectPath
    (calmly_bind (calmly_tryCatch (calmly_publish hnamed))
    (calmly_bind hfinished (calmly_bind hremoved calmly_pure)))))

/-! ## A whole upload -/

/-- The manifest is written, or the call fails. -/
theorem leads_openSession (begun : UploadSession) : Leads (tryCatch (do
      touch
      perform fun s => { s with manifest := some begun, parts := ∅, staged := [] }
      touch) fun _ => do
        suppress (perform fun s => { s with manifest := none })
        throw backendUnavailable : Program Unit) s
    fun r s' => r = .ok () → s' = { s with manifest := some begun, parts := ∅, staged := [] } := by
  have hwritten : Leads (do
      touch
      perform fun s => { s with manifest := some begun, parts := ∅, staged := [] }
      touch : Program Unit) s
      fun r s' => r = .ok () → s' = { s with manifest := some begun, parts := ∅, staged := [] } := by
    refine leads_bind leads_touch (fun _ s₁ hs₁ => ?_) fun e _ _ => by rintro ⟨⟩
    obtain ⟨rfl, -⟩ := hs₁
    refine leads_bind leads_effect (fun _ s₂ hs₂ => ?_) fun e _ _ => by rintro ⟨⟩
    obtain ⟨-, rfl⟩ | ⟨⟨⟩, -⟩ := hs₂
    exact leads_touch.mono fun r s₃ hs₃ _ => hs₃.1
  refine leads_tryCatch hwritten (fun _ _ h => h) fun e s'' _ => ?_
  refine leads_bind leads_any (fun _ s₁ _ => ?_) fun e _ _ => by rintro ⟨⟩
  exact leads_throw (by rintro ⟨⟩)

/-- A session that is begun has no parts. -/
theorem leads_beginUpload {token : Text} {maxBytes : Option ℤ} :
    Leads (beginUpload t token maxBytes) s fun r s' => ∀ session, r = .ok session →
      validateUploadSession t session = .ok () ∧ Free t s ∧
        s' = { s with manifest := some session, parts := ∅, staged := [] } := by
  unfold beginUpload
  refine leads_bind_lift (fun _ _ => ?_) fun e _ => by rintro _ ⟨⟩
  refine leads_bind_lift (fun _ _ => ?_) fun e _ => by rintro _ ⟨⟩
  refine leads_bind_when (fun _ => leads_checkPlainKey) (fun hplain => ⟨rfl, fun _ => ?_⟩) (fun s' hs' => ?_)
    fun e _ _ => by rintro _ ⟨⟩
  · exact ⟨fun h => absurd h hplain, fun h => absurd h hplain⟩
  obtain ⟨rfl, hfree⟩ := hs'
  split
  · exact leads_bind_throw (by rintro _ ⟨⟩)
  dsimp only
  refine leads_bind_lift (fun _ hvalid => ?_) fun e _ => by rintro _ ⟨⟩
  refine leads_bind (leads_openSession _) (fun _ s₁ hs₁ => ?_) fun e _ _ => by rintro _ ⟨⟩
  refine leads_pure ?_
  rintro _ ⟨⟩
  exact ⟨hvalid, hfree rfl, hs₁ rfl⟩

variable (t session) in
/-- Parts are sent, the last of them first; each call is kept with what it returned. -/
def sendParts (w : Faulty Fault Store) :
    List PartCall → List (PartCall × Except UploadError PartRef) × Faulty Fault Store
  | [] => ([], w)
  | call :: calls =>
    let (history, w') := sendParts w calls
    let (r, w'') := (uploadPart t session call.partNumber call.source call.size).on w'
    ((call, r) :: history, w'')

variable (t) in
/-- **The versions that the calls leave**: a part that was accepted is moved into place, and any other may be. -/
inductive Leaves : List (PartCall × Except UploadError PartRef) → List (ℤ × Bytes) → Prop
  | nil : Leaves [] []
  | moved {call r history staged} (h : Leaves history staged)
      (href : ∀ ref, r = .ok ref → ref = ⟨call.partNumber, call.content.length, validatorOf t call.content⟩) :
      Leaves ((call, r) :: history) ((call.partNumber, call.content) :: staged)
  | refused {call e history staged} (h : Leaves history staged) : Leaves ((call, .error e) :: history) staged

variable (t session) in
/-- A session that parts are sent to. -/
structure Open (s₀ s : Store) : Prop where
  manifest : s.manifest = some session
  sound : s.Sound t
  held : s.held t = s₀.held t
  free : Free t s
  parts : ∀ partNumber, s.parts.lookup partNumber = latest s.staged partNumber

/-- The last part of its number is the latest. -/
@[simp]
theorem latest_cons_self (partNumber : ℤ) (data : Bytes) (staged : List (ℤ × Bytes)) :
    latest ((partNumber, data) :: staged) partNumber = some data := by simp [latest]

/-- A part of another number is no newer. -/
@[simp]
theorem latest_cons_of_ne {partNumber other : ℤ} (data : Bytes) (staged : List (ℤ × Bytes))
    (h : other ≠ partNumber) :
    latest ((partNumber, data) :: staged) other = latest staged other := by simp [latest, h.symm]

/-- A session stays open when a part is staged. -/
theorem open_stage {s₀ : Store} {partNumber : ℤ} {data : Bytes} (h : Open t session s₀ s) :
    Open t session s₀ (s.stage partNumber data) := by
  refine ⟨h.manifest, ⟨h.sound.area, h.sound.key, h.sound.payload⟩, h.held, ⟨h.free.name, h.free.conflict⟩, ?_⟩
  intro other
  show (s.parts.insert partNumber data).lookup other = latest ((partNumber, data) :: s.staged) other
  by_cases hother : other = partNumber
  · subst hother
    rw [AList.lookup_insert, latest_cons_self]
  · rw [AList.lookup_insert_ne hother, latest_cons_of_ne _ _ hother, h.parts]

/-- **However many parts are sent**, in any order, the session holds the latest of each. -/
theorem sendParts_spec {s₀ : Store} {w w' : Faulty Fault Store} {calls : List PartCall}
    {history : List (PartCall × Except UploadError PartRef)} (hopen : Open t session s₀ w.state)
    (hstaged : w.state.staged = []) (hsent : sendParts t session w calls = (history, w')) :
    Open t session s₀ w'.state ∧ Leaves t history w'.state.staged := by
  induction calls generalizing history w' with
  | nil =>
    cases hsent
    exact ⟨hopen, hstaged ▸ .nil⟩
  | cons call calls ih =>
    rcases hbefore : sendParts t session w calls with ⟨before, w₁⟩
    rcases hon : (uploadPart t session call.partNumber call.source call.size).on w₁ with ⟨r, w₂⟩
    rw [sendParts, hbefore] at hsent
    dsimp only at hsent
    rw [hon] at hsent
    cases hsent
    obtain ⟨hopen₁, hleaves⟩ := ih hbefore
    obtain ⟨hnext, hok⟩ := (leads_uploadPart call).on rfl hon
    rcases hnext with hsame | hstage
    · -- what returned is there, so it was there before
      rw [hsame]
      refine ⟨hopen₁, ?_⟩
      cases r with
      | error e => exact .refused hleaves
      | ok ref =>
        have hstaged' := congrArg Store.staged (hsame.symm.trans (hok ref rfl).1)
        exact absurd hstaged' (List.cons_ne_self _ _).symm
    · rw [hstage]
      exact ⟨open_stage hopen₁, .moved hleaves fun ref hr => (hok ref hr).2⟩

/-- References name one list of parts. -/
theorem named_unique {version : ℤ → Option Bytes} {refs : List PartRef} {datas datas' : List Bytes}
    (h : Named t version refs datas) (h' : Named t version refs datas') : datas = datas' := by
  induction h generalizing datas' with
  | nil =>
    cases h'
    rfl
  | cons hpart hrest ih =>
    cases h' with
    | cons hpart' hrest' =>
      have hdata := hpart.1.symm.trans hpart'.1
      rw [Option.some.inj hdata, ih hrest']

/-- **Completing again**, when nothing fails, puts the parts that are named in place. -/
theorem completeUpload_again {refs : List PartRef} {datas : List Bytes} {total : ℤ} (hsound : s.Sound t)
    (hfree : Free t s) (hvalid : validateUploadSession t session = .ok ())
    (hmanifest : s.manifest = some session) (hcompletes : Completes t s.parts.lookup refs datas)
    (htotal : validateCompletionParts session refs = .ok total)
    {w : Faulty Fault Store} (hcalm : w.Calm) (hw : w.state = s) :
    ∃ w', (completeUpload t session refs).on w = (.ok total, w')
      ∧ w'.state.object t = .ok (some datas.flatten) := by
  obtain ⟨s', hcalmly⟩ := completeUpload_calmly hsound hfree hvalid hmanifest hcompletes htotal
  obtain ⟨w', hon, -, -⟩ := hcalmly w hcalm hw
  obtain ⟨-, hsound', datas', hcompletes', hplaced⟩ := ((leads_completeUpload hsound).on hw hon).1 total rfl
  refine ⟨w', hon, ?_⟩
  rw [object_of_sound hsound', held_of_placed hplaced, named_unique hcompletes.named hcompletes'.named]

/-- **All or nothing.** A session is begun, parts are sent to it in any order, and it is completed; any
operation on the file system may fail. A completion that returns has put together the latest versions of the
parts, in the order of the references that name them. One that fails leaves the object that was there, or such
a new one, and leaves the parts, so that references which do name them complete the upload. -/
theorem upload_allOrNothing {token : Text} {maxBytes : Option ℤ} {w₀ w₁ w₂ w₃ : Faulty Fault Store}
    {calls : List PartCall} {history : List (PartCall × Except UploadError PartRef)} {refs : List PartRef}
    {r : Except UploadError ℤ} (hsound : w₀.state.Sound t)
    (hbegin : (beginUpload t token maxBytes).on w₀ = (.ok session, w₁))
    (hsent : sendParts t session w₁ calls = (history, w₂))
    (hcomplete : (completeUpload t session refs).on w₂ = (r, w₃)) :
    Leaves t history w₂.state.staged ∧ w₃.state.Sound t ∧
      (∀ total, r = .ok total → validateCompletionParts session refs = .ok total ∧
        ∃ datas, Completes t (latest w₂.state.staged) refs datas
          ∧ w₃.state.object t = .ok (some datas.flatten)) ∧
      ∀ e, r = .error e →
        (w₃.state.object t = w₀.state.object t ∨ ∃ datas, Completes t (latest w₂.state.staged) refs datas ∧
          w₃.state.object t = .ok (some datas.flatten)) ∧
        w₃.state.parts = w₂.state.parts ∧
        ∀ refs' datas' total', Completes t (latest w₂.state.staged) refs' datas' →
          validateCompletionParts session refs' = .ok total' → ∀ w : Faulty Fault Store, w.Calm
            → w.state = w₃.state →
            ∃ w', (completeUpload t session refs').on w = (.ok total', w') ∧
              w'.state.object t = .ok (some datas'.flatten) := by
  obtain ⟨hvalid, hfree, hbegun⟩ := leads_beginUpload.on rfl hbegin session rfl
  have hopened : Open t session w₀.state w₁.state := by
    rw [hbegun]
    exact ⟨rfl, ⟨hsound.area, hsound.key, hsound.payload⟩, rfl, ⟨hfree.name, hfree.conflict⟩, fun _ => rfl⟩
  have hnone : w₁.state.staged = [] := by rw [hbegun]
  obtain ⟨hopen, hleaves⟩ := sendParts_spec hopened hnone hsent
  have hlatest : w₂.state.parts.lookup = latest w₂.state.staged := funext hopen.parts
  obtain ⟨hok, herror⟩ := (leads_completeUpload hopen.sound).on rfl hcomplete
  rw [hlatest] at hok
  cases r with
  | ok total =>
    obtain ⟨htotal, hsound', datas, hcompletes, hplaced⟩ := hok total rfl
    refine ⟨hleaves, hsound', ?_, by rintro _ ⟨⟩⟩
    rintro _ ⟨⟩
    refine ⟨htotal, datas, hcompletes, ?_⟩
    rw [object_of_sound hsound', held_of_placed hplaced]
  | error e =>
    -- either way the session is as it was before the completion
    obtain ⟨hsession, hsound', hobject⟩ : SameSession w₂.state w₃.state ∧ w₃.state.Sound t ∧
        (w₃.state.object t = w₀.state.object t ∨ ∃ datas, Completes t (latest w₂.state.staged) refs datas ∧
          w₃.state.object t = .ok (some datas.flatten)) := by
      rcases herror e rfl with hsteady | ⟨hsession, hsound', datas, hcompletes, hplaced⟩
      · have hsound' := hsteady.sound hopen.sound
        refine ⟨hsteady.session, hsound', .inl ?_⟩
        rw [object_of_sound hsound', object_of_sound hsound, hsteady.held, hopen.held]
      · refine ⟨hsession, hsound', .inr ⟨datas, hlatest ▸ hcompletes, ?_⟩⟩
        rw [object_of_sound hsound', held_of_placed hplaced]
    refine ⟨hleaves, hsound', by rintro _ ⟨⟩, fun _ _ => ⟨hobject, hsession.parts,
      fun refs' datas' total' hcompletes htotal w hcalm hw => ?_⟩⟩
    refine completeUpload_again hsound' ⟨hopen.free.name, fun h => ?_⟩ hvalid ?_ ?_ htotal hcalm hw
    · rw [hsession.conflict, hopen.free.conflict h]
    · rw [hsession.manifest, hopen.manifest]
    · rw [hsession.parts, hlatest]
      exact hcompletes

/-- `str.casefold`, as far as it is asked for. -/
def lowerCase (c : Char) : Text := [c.toLower]

/-- ASCII letters have one lower case. -/
theorem lowerCase_ascii (c : Char) (_h : c.toNat < 128) : lowerCase c = [c.toLower] := rfl

/-- An address below a directory with nothing in it. -/
def sampleTarget : Target where
  folding := ⟨lowerCase, lowerCase_ascii⟩
  sha256 _ := "a12871fee210fb8619291eaea194581cbd2531e4b23759d225f6806923f63222".toList
  area := "photos".toList
  key := "cat.jpg".toList
  plain := false
  legacyLayout := false

/-- The operation that would move the object into place fails. -/
def sampleFaulty : Faulty Fault Store where
  state := ⟨none, ∅, [], none, none, none, none, none⟩
  faults i := if i = 29 then some .raised else none

/-- A session for the sample's object. -/
def sampleSession : UploadSession where
  area := "photos".toList
  key := "cat.jpg".toList
  sessionId := List.replicate 32 'a'
  maxBytes := none
  minPartSize := uploadMinPartSize
  maxPartSize := uploadMaxPartSize
  maxParts := uploadMaxParts

/-- A part of two bytes, one byte at a time. -/
def samplePart : PartCall := ⟨1, [1, 2], fun _ => .chunk 1, 2⟩

/-- What names the part. -/
def sampleRef : PartRef := ⟨1, 2, validatorOf sampleTarget [1, 2]⟩

/-- What is left when the completion has failed. -/
def sampleLeft : Store :=
  ((completeUpload sampleTarget sampleSession [sampleRef]).on
    (sendParts sampleTarget sampleSession
      ((beginUpload sampleTarget sampleSession.sessionId none).on sampleFaulty).2 [samplePart]).2).2.state

/-- The sample is completed, and its object is the part. -/
theorem upload_allOrNothing_sample :
    ∃ w', (completeUpload sampleTarget sampleSession [sampleRef]).on ⟨sampleLeft, fun _ => none⟩ = (.ok 2, w') ∧
      w'.state.object sampleTarget = .ok (some [1, 2]) := by
  have hsound : sampleFaulty.state.Sound sampleTarget :=
      ⟨(by rintro _ ⟨⟩), (by rintro _ ⟨⟩), fun h => absurd rfl h⟩
  have hbegin : ((beginUpload sampleTarget sampleSession.sessionId none).on sampleFaulty).1
      = .ok sampleSession := rfl
  obtain ⟨-, -, -, herror⟩ := upload_allOrNothing hsound (Prod.ext hbegin rfl)
    (rfl : sendParts sampleTarget sampleSession _ [samplePart] = (_, _))
    (rfl : (completeUpload sampleTarget sampleSession [sampleRef]).on _ = (_, _))
  refine (herror backendUnavailable (by decide +kernel)).2.2 [sampleRef] [[1, 2]] 2 ⟨?_, ?_, ?_⟩ rfl _
    (fun _ => rfl) rfl
  · exact List.pairwise_singleton _ _
  · exact .cons ⟨rfl, rfl⟩ .nil
  · intro partNumber hfound
    refine ⟨sampleRef, List.mem_singleton_self _, ?_⟩
    by_contra hother
    exact hfound (latest_cons_of_ne _ [] (fun h => hother h.symm))

end Jasil.Uploads
