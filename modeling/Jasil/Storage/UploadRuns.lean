import Jasil.Storage.LocalUploads

/-! # Uploads that fail
What the calls of a resumable upload leave behind wherever the file system fails.

* **`Store.Sound`**: what is identified is identified right; every call keeps it.
* **`Steady`**: nothing that is read at the address has changed, and nothing of the session.
* **`leads_uploadPart`**: a part is staged whole or not at all.
* **`Completes`**: the references that complete an upload.
* **`leads_completeUpload`**: the object is put together of what they name, or what is there is kept. -/

namespace Jasil.Uploads

open State (Bytes)
open Objects (readChunks)
open Objects.LocalStorage (isPlainTemporaryName)
open Storage (Source ExactSizeReader)
open Faulty

variable {α : Type} {t : Target} {session : UploadSession} {s s' s'' : Store} {p : Program α}

/-! ## Single operations -/

/-- A step that may fail changes nothing. -/
theorem leads_touch : Leads touch s fun r s' => s' = s ∧ (r = .ok () ∨ r = .error .os) :=
  leads_perform ⟨rfl, .inl rfl⟩ fun _ => ⟨rfl, .inr rfl⟩

/-- A write is made, or fails. -/
theorem leads_effect {effect : Store → Store} :
    Leads (perform effect) s fun r s' => (r = .ok () ∧ s' = effect s) ∨ r = .error .os ∧ s' = s :=
  leads_perform (.inl ⟨rfl, rfl⟩) fun _ => .inr ⟨rfl, rfl⟩

/-- What does not ask which error it was. -/
theorem leads_orUnavailable {post : Except UploadError α → Store → Prop} (hp : Leads p s post)
    (herror : ∀ e e' s', post (.error e) s' → post (.error e') s') : Leads (orUnavailable p) s post :=
  leads_tryCatch hp (fun _ _ h => h) fun e s' h => leads_throw (herror e _ s' h)

/-- A failure that is suppressed is none. -/
theorem leads_suppress {p : Program Unit} {post : Except UploadError Unit → Store → Prop} (hp : Leads p s post)
    (herror : ∀ s', post (.error .os) s' → post (.ok ()) s') : Leads (suppress p) s post := by
  refine leads_tryCatch hp (fun _ _ h => h) fun e s' h => ?_
  split
  · rename_i hos
    subst hos
    exact leads_pure (herror s' h)
  · exact leads_throw h

/-- What is looked at stays as it is. -/
theorem leads_look : Leads (orUnavailable touch) s fun _ s' => s' = s :=
  leads_orUnavailable (leads_touch.mono fun _ _ h => h.1) fun _ _ _ h => h

/-- A look that fails is unavailable. -/
theorem leads_bind_look {β : Type} {f : Unit → Program β} {post : Except UploadError β → Store → Prop}
    (h : Leads (f ()) s post) (herror : ∀ e, post (.error e) s) : Leads (orUnavailable touch >>= f) s post := by
  refine leads_bind leads_look (fun _ s' hs' => ?_) fun e s' hs' => ?_
  · subst hs'
    exact h
  · subst hs'
    exact herror e

/-- A step that may fail and is suppressed changes nothing. -/
theorem leads_pass : Leads (suppress touch) s fun _ s' => s' = s :=
  leads_suppress (leads_touch.mono fun _ _ h => h.1) fun _ h => h

/-! ## What is kept -/

namespace Store

/-- What is identified is identified right, and a payload is. -/
structure Sound (t : Target) (s : Store) : Prop where
  area : ∀ value ∈ s.areaFile, value = t.area
  key : ∀ value ∈ s.keyFile, value = t.key
  payload : s.payload ≠ none → s.areaFile = some t.area ∧ s.keyFile = some t.key

/-- What is at the address, in whichever layout. -/
def held (t : Target) (s : Store) : Option Bytes :=
  if t.plain then s.flat.or s.payload else s.payload.or (if t.legacyLayout then s.flat else none)

/-- **What is held can be read.** -/
theorem object_of_sound (h : s.Sound t) : s.object t = .ok (s.held t) := by
  unfold object held
  cases hplain : t.plain with
  | true =>
    cases hflat : s.flat with
    | some data => rfl
    | none =>
      cases hpayload : s.payload with
      | some data => exact if_pos (h.payload (by rw [hpayload]; rintro ⟨⟩))
      | none => rfl
  | false =>
    cases hpayload : s.payload with
    | some data => exact if_pos (h.payload (by rw [hpayload]; rintro ⟨⟩))
    | none =>
      cases t.legacyLayout with
      | true => rfl
      | false => rfl

/-- The files of the session are the same. -/
structure SameSession (s s' : Store) : Prop where
  manifest : s'.manifest = s.manifest
  parts : s'.parts = s.parts
  staged : s'.staged = s.staged
  conflict : s'.conflict = s.conflict

/-- A store has its own session. -/
theorem SameSession.refl (s : Store) : SameSession s s := ⟨rfl, rfl, rfl, rfl⟩

/-- The session is still the same. -/
theorem SameSession.trans (h : SameSession s s') (h' : SameSession s' s'') : SameSession s s'' :=
  ⟨h'.manifest.trans h.manifest, h'.parts.trans h.parts, h'.staged.trans h.staged, h'.conflict.trans h.conflict⟩

end Store

open Store

variable (t) in
/-- **Nothing of the session and of the object has changed.** -/
structure Steady (s s' : Store) : Prop where
  session : SameSession s s'
  payload : s'.payload = s.payload
  flat : s'.flat = s.flat
  sound : s.Sound t → s'.Sound t

/-- Nothing has changed. -/
theorem Steady.refl (s : Store) : Steady t s s := ⟨.refl s, rfl, rfl, id⟩

/-- The same, where the states are equal. -/
theorem steady_of_eq (h : s' = s) : Steady t s s' := by
  rw [h]
  exact .refl s

/-- What is steady twice is steady. -/
theorem Steady.trans (h : Steady t s s') (h' : Steady t s' s'') : Steady t s s'' :=
  ⟨h.session.trans h'.session, h'.payload.trans h.payload, h'.flat.trans h.flat, h'.sound ∘ h.sound⟩

/-- The object is the one it was. -/
theorem Steady.held (h : Steady t s s') : s'.held t = s.held t := by rw [Store.held, Store.held, h.payload,
    h.flat]

/-- An identity file is written where there is none. -/
theorem steady_identify {file : Identity} (hnone : s.identity file = none) :
    Steady t s (s.identify file (t.value file)) := by
  cases file with
  | area =>
    refine ⟨⟨rfl, rfl, rfl, rfl⟩, rfl, rfl, fun hsound => ⟨?_, hsound.key, fun hpayload => ?_⟩⟩
    · rintro value ⟨⟩
      rfl
    · exact ⟨rfl, (hsound.payload hpayload).2⟩
  | key =>
    refine ⟨⟨rfl, rfl, rfl, rfl⟩, rfl, rfl, fun hsound => ⟨hsound.area, ?_, fun hpayload => ?_⟩⟩
    · rintro value ⟨⟩
      rfl
    · exact ⟨(hsound.payload hpayload).1, rfl⟩

/-! ## Sessions and identities -/

/-- The session is the one of the manifest. -/
theorem leads_loadUploadSession :
    Leads (loadUploadSession t session) s fun r s' => s' = s ∧ (r = .ok () → s.manifest = some session) := by
  unfold loadUploadSession
  refine leads_bind_lift (fun _ _ => ?_) fun e _ => ⟨rfl, by rintro ⟨⟩⟩
  refine leads_bind_look ?_ fun e => ⟨rfl, by rintro ⟨⟩⟩
  refine leads_bind_observe ?_
  cases hmanifest : s.manifest with
  | none => exact leads_throw ⟨rfl, by rintro ⟨⟩⟩
  | some manifest =>
    dsimp only
    split
    · exact leads_throw ⟨rfl, by rintro ⟨⟩⟩
    · rename_i hsame
      exact leads_pure ⟨rfl, fun _ => by rw [not_not.mp hsame]⟩

/-- The parts that are found are those that are there, unless none is. -/
theorem leads_uploadedParts : Leads uploadedParts s fun r s' => s' = s ∧
    ∀ uploaded, r = .ok uploaded → uploaded = s.parts ∨ uploaded = ∅ := by
  unfold uploadedParts
  refine leads_bind_look ?_ fun e => ⟨rfl, by rintro _ ⟨⟩⟩
  refine leads_bind (leads_poll (fun _ => rfl) : Leads _ s fun _ s' => s' = s) (fun fault s' hs' => ?_)
    fun e s' hs' => ⟨hs', by rintro _ ⟨⟩⟩
  subst hs'
  cases fault with
  | some fault =>
    cases fault with
    | hidden => exact leads_pure ⟨rfl, fun _ h => .inr (Except.ok.inj h).symm⟩
    | raised => exact leads_throw ⟨rfl, by rintro _ ⟨⟩⟩
  | none =>
    refine leads_bind_look ?_ fun e => ⟨rfl, by rintro _ ⟨⟩⟩
    exact leads_bind_observe (leads_pure ⟨rfl, fun _ h => .inl (Except.ok.inj h).symm⟩)

/-- An identity file that is there stays, and is right; a missing one is written. -/
theorem leads_writeIdentity (file : Identity) : Leads (writeIdentity t file) s fun r s' =>
    (s' = s ∨ s.identity file = none ∧ s' = s.identify file (t.value file)) ∧
      (r = .ok () → s'.identity file = some (t.value file)) := by
  unfold writeIdentity
  refine leads_bind_look ?_ fun e => ⟨.inl rfl, by rintro ⟨⟩⟩
  refine leads_bind_observe ?_
  cases hidentity : s.identity file with
  | some value =>
    dsimp only
    split
    · exact leads_throw ⟨.inl rfl, by rintro ⟨⟩⟩
    · rename_i hsame
      exact leads_pure ⟨.inl rfl, fun _ => by rw [hidentity, not_not.mp hsame]⟩
  | none =>
    have hwritten : (s.identify file (t.value file)).identity file = some (t.value file) := by
      cases file with
      | area => rfl
      | key => rfl
    refine leads_orUnavailable ?_ fun e e' s' h => ⟨h.1, by rintro ⟨⟩⟩
    refine leads_bind leads_touch (fun _ s' hs' => ?_) fun e s' hs' => ⟨.inl hs'.1, by rintro ⟨⟩⟩
    obtain ⟨rfl, -⟩ := hs'
    refine leads_bind leads_effect (fun _ s'' hs'' => ?_) fun e s'' hs'' => ?_
    · obtain ⟨-, rfl⟩ | ⟨⟨⟩, -⟩ := hs''
      exact leads_touch.mono fun r s'' hs'' => ⟨.inr ⟨rfl, hs''.1⟩, fun _ => by rw [hs''.1, hwritten]⟩
    · obtain ⟨⟨⟩, -⟩ | ⟨-, rfl⟩ := hs''
      exact ⟨.inl rfl, by rintro ⟨⟩⟩

/-- Writing an identity is steady. -/
theorem leads_writeIdentity_steady (file : Identity) : Leads (writeIdentity t file) s fun r s' =>
    Steady t s s' ∧ (r = .ok () → s'.identity file = some (t.value file)) ∧
      ∀ other, other ≠ file → s'.identity other = s.identity other := by
  refine (leads_writeIdentity file).mono fun r s' h => ⟨?_, h.2, fun other hother => ?_⟩
  · rcases h.1 with rfl | ⟨hnone, rfl⟩
    · exact .refl _
    · exact steady_identify hnone
  · rcases h.1 with rfl | ⟨-, rfl⟩
    · rfl
    · cases file with
      | area =>
        cases other with
        | area => exact absurd rfl hother
        | key => rfl
      | key =>
        cases other with
        | area => rfl
        | key => exact absurd rfl hother

/-- **Identities** are written before anything is read or replaced. -/
theorem leads_writeObjectIdentities : Leads (writeObjectIdentities t) s fun r s' =>
    Steady t s s' ∧ (r = .ok () → s'.areaFile = some t.area ∧ s'.keyFile = some t.key) := by
  unfold writeObjectIdentities
  refine leads_bind (leads_writeIdentity_steady .area) (fun _ s' hs' => ?_) fun e s' hs' => ⟨hs'.1, by rintro ⟨⟩⟩
  obtain ⟨hsteady, harea, -⟩ := hs'
  refine (leads_writeIdentity_steady .key).mono fun r s'' h => ⟨hsteady.trans h.1, fun hok => ⟨?_, h.2.1 hok⟩⟩
  exact (h.2.2 .area (by rintro ⟨⟩)).trans (harea rfl)

variable (t) in
/-- Nothing stands in the way of the object, in a plain area. -/
structure Free (s : Store) : Prop where
  name : t.plain = true → isPlainTemporaryName ((Objects.components t.key).getLastD []) = false
  conflict : t.plain = true → s.conflict = none

/-- A plain key is free when the check passes. -/
theorem leads_checkPlainKey : Leads (checkPlainKey t) s fun r s' => s' = s ∧ (r = .ok () → Free t s) := by
  unfold checkPlainKey
  split
  · exact leads_bind_throw ⟨rfl, by rintro ⟨⟩⟩
  rename_i hname
  refine leads_bind_look ?_ fun e => ⟨rfl, by rintro ⟨⟩⟩
  refine leads_bind_observe ?_
  split
  · exact leads_throw ⟨rfl, by rintro ⟨⟩⟩
  · rename_i hconflict
    exact leads_pure ⟨rfl, fun _ => ⟨fun _ => Bool.not_eq_true _ ▸ hname, fun _ => hconflict⟩⟩

/-- Preparing the object is steady, and leaves right identities. -/
theorem leads_prepareObject : Leads (prepareObject t) s fun r s' =>
    Steady t s s' ∧ (r = .ok () → t.plain = false → s'.areaFile = some t.area ∧ s'.keyFile = some t.key) := by
  unfold prepareObject
  split
  · rename_i hplain
    refine leads_checkPlainKey.mono fun r s' hs' => ?_
    obtain ⟨rfl, -⟩ := hs'
    exact ⟨.refl _, fun _ hnot => absurd (hplain.symm.trans hnot) (by decide)⟩
  · exact leads_writeObjectIdentities.mono fun r s' h => ⟨h.1, fun hok _ => h.2 hok⟩

/-- A temporary path is no file yet. -/
theorem leads_temporaryObjectPath : Leads (temporaryObjectPath t) s fun _ s' => s' = s := by
  unfold temporaryObjectPath
  split
  · exact leads_look
  · exact leads_pure rfl

/-! ## Parts -/

/-- What a reader has handed on is the beginning of its source. -/
structure Reading (content : Bytes) (size : ℕ) (reader : ExactSizeReader) (received : Bytes) : Prop where
  content : reader.source.content = content
  size : reader.size = size
  inv : Storage.ReaderInv reader received
  kept : Storage.Kept reader received

/-- What is read is the next of the content. -/
theorem reading_read {content received chunk : Bytes} {size : ℕ} {reader reader' : ExactSizeReader} {asked : ℤ}
    (h : Reading content size reader received) (hread : reader.read asked = (.ok chunk, reader')) :
    Reading content size reader' (received ++ chunk) := by
  have hanswered := Storage.answered_read h.inv asked
  rw [hread] at hanswered
  exact ⟨hanswered.content.trans h.content, hanswered.size.trans h.size, hanswered.inv,
    Storage.kept_read h.kept hread⟩

/-- A source that passes the last check was of the declared size, and has been handed on. -/
theorem content_of_verifyComplete {content received : Bytes} {size : ℕ} {reader : ExactSizeReader}
    (h : Reading content size reader received) (hverify : reader.verifyComplete.1 = .ok ()) :
    received = content ∧ size = content.length := by
  have hanswered := Storage.answered h.inv .verifyComplete
  have hresult : (reader.answer .verifyComplete).1 = .ok [] := by
    show reader.verifyComplete.1.map _ = _
    rw [hverify]
    rfl
  obtain ⟨hlength, hreceived⟩ := (hanswered.honest h.kept).complete (by rintro ⟨⟩) hresult
  rw [h.content, h.size] at hlength
  exact ⟨hreceived.trans h.content, hlength.symm⟩

/-- What is received is the content. -/
theorem leads_receive {content : Bytes} {size : ℕ} (fuel : ℕ) (reader : ExactSizeReader) (received : Bytes)
    (h : Reading content size reader received) : Leads (receive fuel reader received) s fun r s' =>
      s' = s ∧ ∀ reader' data, r = .ok (reader', data) → Reading content size reader' data := by
  induction fuel generalizing reader received with
  | zero =>
    refine leads_pure ⟨rfl, ?_⟩
    rintro _ _ ⟨⟩
    exact h
  | succ fuel ih =>
    rw [receive]
    rcases hread : reader.read streamChunkBytes with ⟨result, reader'⟩
    cases result with
    | error e => exact leads_throw ⟨rfl, by rintro _ _ ⟨⟩⟩
    | ok chunk =>
      have hnext := reading_read h hread
      dsimp only
      split
      · rename_i hempty
        rw [hempty, List.append_nil] at hnext
        refine leads_pure ⟨rfl, ?_⟩
        rintro _ _ ⟨⟩
        exact hnext
      · exact leads_bind_look (ih reader' _ hnext) fun e => ⟨rfl, by rintro _ _ ⟨⟩⟩

/-- More fuel than there is to read changes nothing. -/
theorem receive_fuel {fuel : ℕ} {reader : ExactSizeReader} (received : Bytes) (h : reader.remaining < fuel) :
    receive (fuel + 1) reader received = receive fuel reader received := by
  induction fuel generalizing reader received with
  | zero => exact absurd h (Nat.not_lt_zero _)
  | succ fuel ih =>
    rw [receive, receive]
    rcases hread : reader.read streamChunkBytes with ⟨result, reader'⟩
    cases result with
    | error e => rfl
    | ok chunk =>
      dsimp only
      split
      · rfl
      · rename_i hchunk
        have hless : reader'.remaining < fuel :=
          ((Storage.read_ok hread).2 hchunk).trans_le (Nat.lt_succ_iff.mp h)
        rw [ih _ hless]

/-- A part is staged with its content. -/
theorem leads_stagePart {partNumber size : ℤ} {reader : ExactSizeReader} {content : Bytes}
    (hsize : size = (reader.size : ℤ)) (h : Reading content reader.size reader []) :
    Leads (stagePart t partNumber size reader) s fun r s' =>
      (s' = s ∨ s' = s.stage partNumber content) ∧ ∀ ref, r = .ok ref → s' = s.stage partNumber content ∧
        ref = ⟨partNumber, content.length, validatorOf t content⟩ := by
  unfold stagePart
  refine leads_bind (leads_receive _ reader [] h) (fun received s' hs' => ?_)
    fun e s' hs' => ⟨.inl hs'.1, by rintro _ ⟨⟩⟩
  obtain ⟨reader', data⟩ := received
  obtain ⟨rfl, hreading⟩ := hs'
  dsimp only
  cases hverify : reader'.verifyComplete.1 with
  | error e => exact leads_bind_throw ⟨.inl rfl, by rintro _ ⟨⟩⟩
  | ok u =>
    obtain ⟨rfl, hlength⟩ := content_of_verifyComplete (hreading _ _ rfl) hverify
    have hinstalled : Leads (orUnavailable do
        touch
        perform fun s => s.stage partNumber data
        touch) s' fun r s'' => (s'' = s' ∨ s'' = s'.stage partNumber data) ∧
          (r = .ok () → s'' = s'.stage partNumber data) := by
      refine leads_orUnavailable ?_ fun e e' s'' h => ⟨h.1, by rintro ⟨⟩⟩
      refine leads_bind leads_touch (fun _ s'' hs'' => ?_) fun e s'' hs'' => ⟨.inl hs''.1, by rintro ⟨⟩⟩
      obtain ⟨rfl, -⟩ := hs''
      refine leads_bind leads_effect (fun _ s₁ hs₁ => ?_) fun e s₁ hs₁ => ?_
      · obtain ⟨-, rfl⟩ | ⟨⟨⟩, -⟩ := hs₁
        exact leads_touch.mono fun r s₂ hs₂ => ⟨.inr hs₂.1, fun _ => hs₂.1⟩
      · obtain ⟨⟨⟩, -⟩ | ⟨-, rfl⟩ := hs₁
        exact ⟨.inl rfl, by rintro ⟨⟩⟩
    refine leads_bind hinstalled (fun _ s'' hs'' => ?_) fun e s'' hs'' => ⟨hs''.1, by rintro _ ⟨⟩⟩
    refine leads_pure ⟨hs''.1, ?_⟩
    rintro _ ⟨⟩
    refine ⟨hs''.2 rfl, ?_⟩
    rw [hsize, hlength]

/-- A part that is sent. -/
structure PartCall where
  partNumber : ℤ
  content : Bytes
  /-- What the source delivers when it is read. -/
  deliveries : ℕ → Storage.Delivery
  size : ℤ

/-- Where the content of a part comes from. -/
def PartCall.source (call : PartCall) : Source := ⟨call.content, call.deliveries, 0, 0⟩

/-- **A part is staged whole or not at all**: its file holds what the source held, or is as before. -/
theorem leads_uploadPart (call : PartCall) :
    Leads (uploadPart t session call.partNumber call.source call.size) s fun r s' =>
      (s' = s ∨ s' = s.stage call.partNumber call.content) ∧
        ∀ ref, r = .ok ref → s' = s.stage call.partNumber call.content ∧
          ref = ⟨call.partNumber, call.content.length, validatorOf t call.content⟩ := by
  have hnothing (e : UploadError) (s' : Store) (hs' : s' = s) :
      (s' = s ∨ s' = s.stage call.partNumber call.content) ∧
      ∀ ref, (Except.error e : Except UploadError PartRef) = .ok ref
        → s' = s.stage call.partNumber call.content ∧
        ref = ⟨call.partNumber, call.content.length, validatorOf t call.content⟩ :=
    ⟨.inl hs', by rintro _ ⟨⟩⟩
  unfold uploadPart
  refine leads_bind_lift (fun _ _ => ?_) fun e _ => hnothing e s rfl
  refine leads_bind_lift (fun _ _ => ?_) fun e _ => hnothing e s rfl
  cases hnew : ExactSizeReader.new call.source call.size with
  | none => exact leads_throw (hnothing _ s rfl)
  | some reader =>
    have hreader : reader = ⟨call.source, call.size.toNat, call.size.toNat, false⟩ ∧ 0 ≤ call.size := by
      unfold ExactSizeReader.new at hnew
      split at hnew
      · cases hnew
      · rename_i hnonneg
        exact ⟨(Option.some.inj hnew).symm, not_lt.mp hnonneg⟩
    have hreading : Reading call.content reader.size reader [] := by
      refine ⟨?_, rfl, Storage.inv_new hnew, ?_⟩
      · rw [hreader.1]
        rfl
      · rw [hreader.1]
        rfl
    have hsize : call.size = (reader.size : ℤ) := by
      rw [hreader.1]
      exact (Int.toNat_of_nonneg hreader.2).symm
    dsimp only
    split
    · exact leads_bind_throw (hnothing _ s rfl)
    refine leads_bind leads_loadUploadSession (fun _ s' hs' => ?_) fun e s' hs' => hnothing e s' hs'.1
    obtain ⟨rfl, -⟩ := hs'
    refine leads_bind leads_uploadedParts (fun uploaded s'' hs'' => ?_) fun e s'' hs'' => hnothing e s'' hs''.1
    obtain ⟨rfl, -⟩ := hs''
    refine leads_bind_lift (fun _ _ => ?_) fun e _ => hnothing e _ rfl
    refine leads_bind_look ?_ fun e => hnothing e _ rfl
    refine leads_tryCatch (leads_stagePart hsize hreading) (fun _ _ h => h) fun e s₁ hs₁ => ?_
    refine leads_bind leads_pass (fun _ s₂ hs₂ => ?_) fun e' s₂ hs₂ => ⟨hs₂ ▸ hs₁.1, by rintro _ ⟨⟩⟩
    exact leads_throw ⟨hs₂ ▸ hs₁.1, by rintro _ ⟨⟩⟩

/-! ## Putting parts together -/

variable (t) in
/-- The references name the versions of the parts that the data is of. -/
def Named (version : ℤ → Option Bytes) (refs : List PartRef) (datas : List Bytes) : Prop :=
  List.Forall₂ (fun ref data => version ref.partNumber = some data ∧
    ref = ⟨ref.partNumber, data.length, validatorOf t data⟩) refs datas

/-- All of a part is read. -/
theorem readChunks_all (data : Bytes) :
    ∃ chunks, readChunks streamChunkBytes none 0 data = .ok chunks ∧ chunks.flatten = data := by
  have hspec := @Objects.readChunks_spec streamChunkBytes (by decide) none 0 data (by rintro _ ⟨⟩)
  rw [Objects.limitSize_of_le (by rintro _ ⟨⟩)] at hspec
  cases hchunks : readChunks streamChunkBytes none 0 data with
  | error e =>
    rw [hchunks] at hspec
    cases hspec
  | ok chunks =>
    rw [hchunks] at hspec
    exact ⟨chunks, rfl, Except.ok.inj hspec⟩

/-- The chunks are copied one after the other. -/
theorem leads_copyChunks (chunks : List Bytes) (copied : Bytes) :
    Leads (chunks.foldlM (fun copied chunk => do touch; return copied ++ chunk) copied : Program Bytes) s
      fun r s' =>
      s' = s ∧ ∀ copied', r = .ok copied' → copied' = copied ++ chunks.flatten := by
  induction chunks generalizing copied with
  | nil =>
    refine leads_pure ⟨rfl, ?_⟩
    rintro _ ⟨⟩
    rw [List.flatten_nil, List.append_nil]
  | cons chunk chunks ih =>
    rw [List.foldlM_cons, bind_assoc]
    refine leads_bind leads_touch (fun _ s' hs' => ?_) fun e s' hs' => ⟨hs'.1, by rintro _ ⟨⟩⟩
    obtain ⟨rfl, -⟩ := hs'
    rw [pure_bind]
    refine (ih (copied ++ chunk)).mono fun r s'' hs'' => ⟨hs''.1, fun copied' hr => ?_⟩
    rw [hs''.2 copied' hr, List.flatten_cons, List.append_assoc]

/-- **A part is copied** as it is there, if that is how it is referred to. -/
theorem leads_copyPart (written : Bytes) (part : PartRef) : Leads (copyPart t written part) s fun r s' =>
    s' = s ∧ ∀ written', r = .ok written' → ∃ data, s.parts.lookup part.partNumber = some data ∧
      part = ⟨part.partNumber, data.length, validatorOf t data⟩ ∧ written' = written ++ data := by
  unfold copyPart
  refine leads_bind leads_touch (fun _ s' hs' => ?_) fun e s' hs' => ⟨hs'.1, by rintro _ ⟨⟩⟩
  obtain ⟨rfl, -⟩ := hs'
  refine leads_bind_observe ?_
  cases hlookup : s'.parts.lookup part.partNumber with
  | none => exact leads_throw ⟨rfl, by rintro _ ⟨⟩⟩
  | some data =>
    obtain ⟨chunks, hchunks, hflatten⟩ := readChunks_all data
    dsimp only
    refine leads_bind_lift (fun chunks' hchunks' => ?_) fun e _ => ⟨rfl, by rintro _ ⟨⟩⟩
    rw [hchunks] at hchunks'
    cases hchunks'
    refine leads_bind (leads_copyChunks chunks []) (fun copied s'' hs'' => ?_)
      fun e s'' hs'' => ⟨hs''.1, by rintro _ ⟨⟩⟩
    obtain ⟨rfl, hcopied⟩ := hs''
    have hdata : copied = data := by rw [hcopied copied rfl, List.nil_append, hflatten]
    subst hdata
    refine leads_bind leads_touch (fun _ s₁ hs₁ => ?_) fun e s₁ hs₁ => ⟨hs₁.1, by rintro _ ⟨⟩⟩
    obtain ⟨rfl, -⟩ := hs₁
    split
    · exact leads_bind_throw ⟨rfl, by rintro _ ⟨⟩⟩
    · rename_i hmatches
      obtain ⟨hsize, hvalidator⟩ := not_or.mp hmatches
      refine leads_pure ⟨rfl, ?_⟩
      rintro _ ⟨⟩
      refine ⟨copied, rfl, ?_, rfl⟩
      rw [not_not.mp hsize, not_not.mp hvalidator]

/-- The parts are copied one after the other. -/
theorem leads_copyParts (refs : List PartRef) (written : Bytes) :
    Leads (refs.foldlM (copyPart t) written) s fun r s' =>
      s' = s ∧ ∀ written', r = .ok written' → ∃ datas, Named t s.parts.lookup refs datas ∧
        written' = written ++ datas.flatten := by
  induction refs generalizing written with
  | nil =>
    refine leads_pure ⟨rfl, ?_⟩
    rintro _ ⟨⟩
    exact ⟨[], .nil, by rw [List.flatten_nil, List.append_nil]⟩
  | cons ref refs ih =>
    rw [List.foldlM_cons]
    refine leads_bind (leads_copyPart written ref) (fun first s' hs' => ?_) fun e s' hs' =>
      ⟨hs'.1, by rintro _ ⟨⟩⟩
    obtain ⟨rfl, hcopied⟩ := hs'
    obtain ⟨data, hlookup, href, rfl⟩ := hcopied _ rfl
    refine (ih (written ++ data)).mono fun r s'' hs'' => ⟨hs''.1, fun written' hr => ?_⟩
    obtain ⟨datas, hnamed, rfl⟩ := hs''.2 written' hr
    refine ⟨data :: datas, .cons ⟨hlookup, href⟩ hnamed, ?_⟩
    rw [List.flatten_cons, List.append_assoc]

/-- **The object is replaced as a whole or not at all.** -/
theorem leads_publish (refs : List PartRef) : Leads (publish t refs) s fun r s' =>
    (s' = s ∧ r ≠ .ok ()) ∨ ∃ datas, Named t s.parts.lookup refs datas ∧ s' = s.put t datas.flatten := by
  unfold publish
  refine leads_bind leads_touch (fun _ s' hs' => ?_) fun e s' hs' => .inl ⟨hs'.1, by rintro ⟨⟩⟩
  obtain ⟨rfl, -⟩ := hs'
  refine leads_bind (leads_copyParts refs []) (fun written s'' hs'' => ?_) fun e s'' hs'' =>
    .inl ⟨hs''.1, by rintro ⟨⟩⟩
  obtain ⟨rfl, hcopied⟩ := hs''
  obtain ⟨datas, hnamed, hwritten⟩ := hcopied written rfl
  rw [List.nil_append] at hwritten
  subst hwritten
  refine leads_bind leads_touch (fun _ s₁ hs₁ => ?_) fun e s₁ hs₁ => .inl ⟨hs₁.1, by rintro ⟨⟩⟩
  obtain ⟨rfl, -⟩ := hs₁
  refine leads_bind leads_effect (fun _ s₂ hs₂ => ?_) fun e s₂ hs₂ => ?_
  · obtain ⟨-, rfl⟩ | ⟨⟨⟩, -⟩ := hs₂
    exact leads_touch.mono fun r s₃ hs₃ => .inr ⟨datas, hnamed, hs₃.1⟩
  · obtain ⟨⟨⟩, -⟩ | ⟨-, rfl⟩ := hs₂
    exact .inl ⟨rfl, by rintro ⟨⟩⟩

/-! ## What is left -/

variable (t) in
/-- The data is what is read at the address. -/
def Placed (data : Bytes) (s : Store) : Prop := if t.plain then s.flat = some data else s.payload = some data

/-- The object is the one that was put in its place. -/
theorem held_of_placed {data : Bytes} (h : Placed t data s) : s.held t = some data := by
  unfold Placed at h
  unfold Store.held
  split
  · rename_i hplain
    rw [if_pos hplain] at h
    rw [h, Option.some_or]
  · rename_i hplain
    rw [if_neg hplain] at h
    rw [h, Option.some_or]

/-- An object that is moved into place. -/
theorem put_spec {data : Bytes} (hsound : s.Sound t)
    (hidentity : t.plain = false → s.areaFile = some t.area ∧ s.keyFile = some t.key) :
    SameSession s (s.put t data) ∧ (s.put t data).Sound t ∧ Placed t data (s.put t data) := by
  unfold Store.put Placed
  cases hplain : t.plain with
  | true => exact ⟨⟨rfl, rfl, rfl, rfl⟩, ⟨hsound.area, hsound.key, hsound.payload⟩, rfl⟩
  | false => exact ⟨⟨rfl, rfl, rfl, rfl⟩, ⟨hsound.area, hsound.key, fun _ => hidentity hplain⟩, rfl⟩

variable (t) in
/-- Nothing of the session has changed, and what was placed is there still. -/
structure Settled (s s' : Store) : Prop where
  session : SameSession s s'
  sound : s.Sound t → s'.Sound t
  placed : ∀ data, Placed t data s → Placed t data s'

/-- Nothing has changed. -/
theorem Settled.refl (s : Store) : Settled t s s := ⟨.refl s, id, fun _ => id⟩

/-- The same, where the states are equal. -/
theorem settled_of_eq (h : s' = s) : Settled t s s' := by
  rw [h]
  exact .refl s

/-- What is settled twice is settled. -/
theorem Settled.trans (h : Settled t s s') (h' : Settled t s' s'') : Settled t s s'' :=
  ⟨h.session.trans h'.session, h'.sound ∘ h.sound, fun data => h'.placed data ∘ h.placed data⟩

/-- What is steady is settled. -/
theorem Steady.settled (h : Steady t s s') : Settled t s s' := by
  refine ⟨h.session, h.sound, fun data hplaced => ?_⟩
  unfold Placed at hplaced ⊢
  rwa [h.flat, h.payload]

/-- **An upload that is given up** takes the key file of an object away that is not there. -/
theorem leads_abandonNewObject : Leads (abandonNewObject t) s fun _ s' => Steady t s s' := by
  have hcleared (s : Store) (hpayload : s.payload = none) : Steady t s { s with keyFile := none } := by
    refine ⟨⟨rfl, rfl, rfl, rfl⟩, rfl, rfl, fun hsound => ⟨hsound.area, ?_, fun h => absurd hpayload h⟩⟩
    rintro _ ⟨⟩
  have hpruned (s' : Store) (h : Steady t s s') : Leads (suppress touch) s' fun _ s'' => Steady t s s'' := by
    refine leads_pass.mono fun _ s'' hs'' => ?_
    rwa [hs'']
  unfold abandonNewObject
  split
  · refine leads_bind (leads_suppress (?_ : Leads _ s fun _ s' => Steady t s s') fun _ h => h)
      (fun _ s' hs' => hpruned s' hs') fun e s' hs' => hs'
    refine leads_bind leads_touch (fun _ s' hs' => ?_) fun e s' hs' => steady_of_eq hs'.1
    obtain ⟨rfl, -⟩ := hs'
    refine leads_bind_observe ?_
    split
    · rename_i hpayload
      refine leads_effect.mono fun r s'' hs'' => ?_
      obtain ⟨-, rfl⟩ | ⟨-, rfl⟩ := hs''
      · exact hcleared s' hpayload
      · exact .refl _
    · exact leads_pure (.refl _)
  · exact hpruned s (.refl s)

/-- Removing the opaque copy of a plain object is settled. -/
theorem leads_removeOpaqueObject (hplain : t.plain = true) :
    Leads (removeOpaqueObject t) s fun _ s' => Settled t s s' := by
  have hpayload (s : Store) : Settled t s { s with payload := none } := by
    refine ⟨⟨rfl, rfl, rfl, rfl⟩, fun hsound => ⟨hsound.area, hsound.key, fun h => absurd rfl h⟩,
      fun data h => ?_⟩
    unfold Placed at h ⊢
    rw [if_pos hplain] at h ⊢
    exact h
  have hkey (s : Store) (hnone : s.payload = none) : Settled t s { s with keyFile := none } := by
    refine ⟨⟨rfl, rfl, rfl, rfl⟩, fun hsound => ⟨hsound.area, ?_, fun h => absurd hnone h⟩, fun data h => ?_⟩
    · rintro _ ⟨⟩
    · unfold Placed at h ⊢
      rw [if_pos hplain] at h ⊢
      exact h
  unfold removeOpaqueObject
  refine leads_tryCatch (?_ : Leads _ s fun _ s' => Settled t s s') (fun _ _ h => h) fun _ s' h => leads_pure h
  refine leads_bind leads_touch (fun _ s' hs' => ?_) fun e s' hs' => settled_of_eq hs'.1
  obtain ⟨rfl, -⟩ := hs'
  refine leads_bind_observe ?_
  split
  · exact leads_pure (.refl _)
  refine leads_bind leads_touch (fun _ s₁ hs₁ => ?_) fun e s₁ hs₁ => settled_of_eq hs₁.1
  obtain ⟨rfl, -⟩ := hs₁
  split
  · exact leads_bind_throw (.refl _)
  refine leads_bind leads_effect (fun _ s₂ hs₂ => ?_) fun e s₂ hs₂ => ?_
  · obtain ⟨-, rfl⟩ | ⟨⟨⟩, -⟩ := hs₂
    refine leads_bind leads_effect (fun _ s₃ hs₃ => ?_) fun e s₃ hs₃ => ?_
    · obtain ⟨-, rfl⟩ | ⟨⟨⟩, -⟩ := hs₃
      exact leads_pass.mono fun _ s₄ hs₄ => hs₄ ▸ (hpayload s₁).trans (hkey _ rfl)
    · obtain ⟨⟨⟩, -⟩ | ⟨-, rfl⟩ := hs₃
      exact hpayload s₁
  · obtain ⟨⟨⟩, -⟩ | ⟨-, rfl⟩ := hs₂
    exact .refl _

/-- Removing the legacy copy of an opaque object is settled. -/
theorem leads_removeLegacyObject (hplain : t.plain = false) :
    Leads (removeLegacyObject t) s fun _ s' => Settled t s s' := by
  have hflat (s : Store) : Settled t s { s with flat := none } := by
    refine ⟨⟨rfl, rfl, rfl, rfl⟩, fun hsound => ⟨hsound.area, hsound.key, hsound.payload⟩, fun data h => ?_⟩
    have hnot : ¬ t.plain = true := by
      rw [hplain]
      rintro ⟨⟩
    unfold Placed at h ⊢
    rw [if_neg hnot] at h ⊢
    exact h
  unfold removeLegacyObject
  split
  · exact leads_pure (.refl _)
  refine leads_suppress (?_ : Leads _ s fun _ s' => Settled t s s') fun _ h => h
  refine leads_bind leads_touch (fun _ s' hs' => ?_) fun e s' hs' => settled_of_eq hs'.1
  obtain ⟨rfl, -⟩ := hs'
  refine leads_bind_observe ?_
  split
  · refine leads_bind leads_effect (fun _ s₁ hs₁ => ?_) fun e s₁ hs₁ => ?_
    · obtain ⟨-, rfl⟩ | ⟨⟨⟩, -⟩ := hs₁
      refine leads_pass.mono fun _ s₂ hs₂ => ?_
      rw [hs₂]
      exact hflat s'
    · obtain ⟨⟨⟩, -⟩ | ⟨-, rfl⟩ := hs₁
      exact .refl _
  · exact leads_pure (.refl _)

/-- **What follows the last rename** leaves the object. -/
theorem leads_finishCommit : Leads (finishCommit t) s fun _ s' => Settled t s s' := by
  unfold finishCommit
  split
  · rename_i hplain
    exact leads_removeOpaqueObject hplain
  · rename_i hplain
    refine leads_bind leads_writeObjectIdentities (fun _ s' hs' => ?_) fun e s' hs' => hs'.1.settled
    exact (leads_removeLegacyObject (Bool.not_eq_true _ ▸ hplain)).mono fun _ s'' h => hs'.1.settled.trans h

variable (t) in
/-- The address is as it was, whatever became of the session. -/
structure Left (s s' : Store) : Prop where
  sound : s.Sound t → s'.Sound t
  placed : ∀ data, Placed t data s → Placed t data s'

/-- What is left twice is left. -/
theorem Left.trans (h : Left t s s') (h' : Left t s' s'') : Left t s s'' :=
  ⟨h'.sound ∘ h.sound, fun data => h'.placed data ∘ h.placed data⟩

/-- What is removed of the session is no matter for the address. -/
theorem left_of_parts (parts : FiniteMap ℤ Bytes) : Left t s { s with parts } :=
  ⟨fun hsound => ⟨hsound.area, hsound.key, hsound.payload⟩, fun _ h => h⟩

/-- Parts are removed one after the other. -/
theorem leads_removeParts (partNumbers : List ℤ) :
    Leads (partNumbers.forM fun partNumber => perform fun s => { s with parts := s.parts.erase partNumber }) s
      fun r s' => Left t s s' ∧ (r = .ok () ∨ r = .error .os) := by
  induction partNumbers generalizing s with
  | nil => exact leads_pure ⟨⟨id, fun _ => id⟩, .inl rfl⟩
  | cons partNumber partNumbers ih =>
    refine leads_bind leads_effect (fun _ s' hs' => ?_) fun e s' hs' => ?_
    · obtain ⟨-, rfl⟩ | ⟨⟨⟩, -⟩ := hs'
      exact ih.mono fun r s'' h => ⟨(left_of_parts _).trans h.1, h.2⟩
    · obtain ⟨⟨⟩, -⟩ | ⟨herror, rfl⟩ := hs'
      exact ⟨⟨id, fun _ => id⟩, .inr herror⟩

/-- The session is removed, and nothing else. -/
theorem leads_removeSession : Leads removeSession s fun r s' => Left t s s' ∧ r = .ok () := by
  unfold removeSession
  have hbody : Leads (do
      (← observe).parts.keys.forM fun partNumber => perform fun s => { s with parts := s.parts.erase partNumber }
      perform fun s => { s with manifest := none }) s
        fun r s' => Left t s s' ∧ (r = .ok () ∨ r = .error .os) := by
    refine leads_bind_observe ?_
    refine leads_bind (leads_removeParts _) (fun _ s' hs' => ?_) fun e s' hs' => hs'
    refine leads_effect.mono fun r s'' hs'' => ?_
    obtain ⟨hok, rfl⟩ | ⟨herror, rfl⟩ := hs''
    · exact ⟨hs'.1.trans ⟨fun hsound => ⟨hsound.area, hsound.key, hsound.payload⟩, fun _ h => h⟩, .inl hok⟩
    · exact ⟨hs'.1, .inr herror⟩
  refine leads_tryCatch hbody (fun _ s' h => ?_) fun e s' h => ?_
  · exact ⟨h.1, rfl⟩
  obtain ⟨hleft, hok | herror⟩ := h
  · cases hok
  · cases herror
    rw [if_pos rfl]
    exact leads_pure ⟨hleft, rfl⟩

/-! ## Completion -/

variable (t) in
/-- **The references complete the upload**: they name every part once, in order, as it is there. -/
structure Completes (version : ℤ → Option Bytes) (refs : List PartRef) (datas : List Bytes) : Prop where
  ordered : refs.Pairwise fun ref ref' => ref.partNumber < ref'.partNumber
  named : Named t version refs datas
  every : ∀ partNumber, version partNumber ≠ none → ∃ ref ∈ refs, ref.partNumber = partNumber

variable (t) in
/-- The session is there with the object that it completes. -/
structure Published (refs : List PartRef) (s s' : Store) : Prop where
  session : SameSession s s'
  sound : s'.Sound t
  placed : ∃ datas, Completes t s.parts.lookup refs datas ∧ Placed t datas.flatten s'

/-- The parts that are given are all that are there. -/
theorem uploaded_of_matchParts {uploaded : FiniteMap ℤ Bytes} {refs : List PartRef} (hsome : refs ≠ [])
    (huploaded : uploaded = s.parts ∨ uploaded = ∅) (h : matchParts uploaded refs = .ok ()) :
    ∀ partNumber, s.parts.lookup partNumber ≠ none → ∃ ref ∈ refs, ref.partNumber = partNumber := by
  unfold matchParts at h
  by_cases hevery : refs.all (fun part => part.partNumber ∈ uploaded) ∧
      uploaded.keys.all fun partNumber => refs.any fun part => part.partNumber = partNumber
  · rcases huploaded with rfl | rfl
    · intro partNumber hfound
      have hmem : partNumber ∈ s.parts := by
        by_contra hmem
        exact hfound (AList.lookup_eq_none.mpr hmem)
      have hany := List.all_eq_true.mp hevery.2 partNumber (AList.mem_keys.mp hmem)
      obtain ⟨ref, href, hnumber⟩ := List.any_eq_true.mp hany
      exact ⟨ref, href, of_decide_eq_true hnumber⟩
    · obtain ⟨ref, rest, rfl⟩ := List.exists_cons_of_ne_nil hsome
      have hin := List.all_eq_true.mp hevery.1 ref List.mem_cons_self
      exact absurd (of_decide_eq_true hin) (AList.notMem_empty _)
  · rw [if_pos hevery] at h
    cases h

/-- The parts that are accepted are at least one, each with a number above the one before. -/
theorem ordered_of_validateOrder {previous : ℤ} {refs : List PartRef}
    (h : validateOrder session previous refs = .ok ()) :
    (∀ ref ∈ refs, previous < ref.partNumber) ∧ refs.Pairwise fun ref ref' =>
    ref.partNumber < ref'.partNumber := by
  induction refs generalizing previous with
  | nil => exact ⟨fun ref href => absurd href List.not_mem_nil, .nil⟩
  | cons ref refs ih =>
    rw [validateOrder] at h
    obtain ⟨_, -, h⟩ := Failing.ok_of_bind h
    by_cases hle : ref.partNumber ≤ previous
    · rw [if_pos hle] at h
      cases h
    rw [if_neg hle] at h
    obtain ⟨hlater, hpairwise⟩ := ih h
    refine ⟨?_, List.pairwise_cons.mpr ⟨hlater, hpairwise⟩⟩
    intro ref' href'
    rcases List.mem_cons.mp href' with rfl | href'
    · exact not_le.mp hle
    · exact (not_le.mp hle).trans (hlater ref' href')

/-- References that pass are in the order of their numbers. -/
theorem of_validateCompletionParts {refs : List PartRef} {total : ℤ}
    (h : validateCompletionParts session refs = .ok total) :
    refs ≠ [] ∧ refs.Pairwise fun ref ref' => ref.partNumber < ref'.partNumber := by
  unfold validateCompletionParts at h
  by_cases hnil : refs = []
  · rw [if_pos hnil] at h
    cases h
  rw [if_neg hnil] at h
  by_cases hmany : session.maxParts < refs.length
  · rw [if_pos hmany] at h
    cases h
  rw [if_neg hmany] at h
  obtain ⟨_, horder, -⟩ := Failing.ok_of_bind h
  exact ⟨hnil, (ordered_of_validateOrder horder).2⟩

/-- **The object is replaced**, or the session and the object are as before. -/
theorem leads_replaceObject {refs : List PartRef} (hsound : s.Sound t)
    (hidentity : t.plain = false → s.areaFile = some t.area ∧ s.keyFile = some t.key)
    (hordered : refs.Pairwise fun ref ref' => ref.partNumber < ref'.partNumber)
    (hevery : ∀ partNumber, s.parts.lookup partNumber ≠ none → ∃ ref ∈ refs, ref.partNumber = partNumber) :
    Leads (tryCatch (publish t refs) fun e => do
        suppress touch
        abandonNewObject t
        throw (if e = .os then backendUnavailable else e)) s fun r s' =>
      r ≠ .ok () ∧ Steady t s s' ∨ Published t refs s s' := by
  have hput (datas : List Bytes) (hnamed : Named t s.parts.lookup refs datas) :
      Published t refs s (s.put t datas.flatten) := by
    obtain ⟨hsession, hsound', hplaced⟩ := @put_spec t s datas.flatten hsound hidentity
    exact ⟨hsession, hsound', datas, ⟨hordered, hnamed, hevery⟩, hplaced⟩
  refine leads_tryCatch (leads_publish refs) (fun _ s' h => ?_) fun e s' h => ?_
  · rcases h with ⟨-, hok⟩ | ⟨datas, hnamed, rfl⟩
    · exact absurd rfl hok
    · exact .inr (hput datas hnamed)
  · -- what is given up is kept as it was
    have hkept (s'' : Store) (hsteady : Steady t s' s'') (e' : UploadError) :
        (Except.error e' : Except UploadError Unit) ≠ .ok () ∧ Steady t s s'' ∨ Published t refs s s'' := by
      rcases h with ⟨rfl, -⟩ | ⟨datas, hnamed, rfl⟩
      · exact .inl ⟨(by rintro ⟨⟩), hsteady⟩
      · obtain ⟨hsession, hsound', datas, hcompletes, hplaced⟩ := hput datas hnamed
        exact .inr ⟨hsession.trans hsteady.session, hsteady.sound hsound', datas, hcompletes,
          hsteady.settled.placed _ hplaced⟩
    refine leads_bind leads_pass (fun _ s'' hs'' => ?_) fun e' s'' hs'' => hkept s'' (steady_of_eq hs'') e'
    subst hs''
    refine leads_bind leads_abandonNewObject (fun _ s₁ hs₁ => ?_) fun e' s₁ hs₁ => hkept s₁ hs₁ e'
    exact leads_throw (hkept s₁ hs₁ _)

/-- **A completion**: it returns with the object put together, or it can be made again and the object is the
one that was there or the new one. -/
theorem leads_completeUpload {refs : List PartRef} (hsound : s.Sound t) :
    Leads (completeUpload t session refs) s fun r s' =>
      (∀ total, r = .ok total → validateCompletionParts session refs = .ok total ∧ s'.Sound t ∧
        ∃ datas, Completes t s.parts.lookup refs datas ∧ Placed t datas.flatten s') ∧
        ∀ e, r = .error e → Steady t s s' ∨ Published t refs s s' := by
  have hsteady (e : UploadError) (s' : Store) (h : Steady t s s') :
      (∀ total, (Except.error e : Except UploadError ℤ) = .ok total →
          validateCompletionParts session refs = .ok total ∧ s'.Sound t
            ∧ ∃ datas, Completes t s.parts.lookup refs datas ∧ Placed t datas.flatten s') ∧
        ∀ e', (Except.error e : Except UploadError ℤ) = .error e' → Steady t s s' ∨ Published t refs s s' :=
    ⟨by rintro _ ⟨⟩, fun _ _ => .inl h⟩
  unfold completeUpload
  refine leads_bind leads_loadUploadSession (fun _ s' hs' => ?_) fun e s' hs' =>
    hsteady e s' (steady_of_eq hs'.1)
  obtain ⟨rfl, -⟩ := hs'
  refine leads_bind_lift (fun total htotal => ?_) fun e _ => hsteady e _ (.refl _)
  obtain ⟨hsome, hordered⟩ := of_validateCompletionParts htotal
  refine leads_bind leads_uploadedParts (fun uploaded s'' hs'' => ?_) fun e s'' hs'' =>
    hsteady e _ (steady_of_eq hs''.1)
  obtain ⟨rfl, huploaded⟩ := hs''
  refine leads_bind_lift (fun _ hmatches => ?_) fun e _ => hsteady e _ (.refl _)
  have hevery := uploaded_of_matchParts hsome (huploaded uploaded rfl) hmatches
  refine leads_bind leads_prepareObject (fun _ s₁ hs₁ => ?_) fun e s₁ hs₁ => hsteady e s₁ hs₁.1
  obtain ⟨hprepared, hidentity⟩ := hs₁
  refine leads_bind leads_temporaryObjectPath (fun _ s₂ hs₂ => ?_) fun e s₂ hs₂ => hsteady e s₂ (hs₂ ▸ hprepared)
  subst hs₂
  have hparts : s₂.parts = s''.parts := hprepared.session.parts
  have hreplaced := @leads_replaceObject t s₂ refs (hprepared.sound hsound) (hidentity rfl) hordered
      (hparts ▸ hevery)
  have hfrom {s₃ : Store} (h : Published t refs s₂ s₃) : Published t refs s'' s₃ := by
    obtain ⟨hsession, hsound', datas, hcompletes, hplaced⟩ := h
    exact ⟨hprepared.session.trans hsession, hsound', datas, hparts ▸ hcompletes, hplaced⟩
  refine leads_bind hreplaced (fun _ s₃ hs₃ => ?_) fun e s₃ hs₃ => ⟨by rintro _ ⟨⟩, fun _ _ => ?_⟩
  · -- the object is there, and stays there
    obtain ⟨hsession, hsound', datas, hcompletes, hplaced⟩ := hfrom (hs₃.resolve_left fun h => h.1 rfl)
    refine leads_bind leads_finishCommit (fun _ s₄ hs₄ => ?_) fun e s₄ hs₄ =>
      ⟨by rintro _ ⟨⟩, fun _ _ => .inr ?_⟩
    · refine leads_bind (@leads_removeSession t s₄) (fun _ s₅ hs₅ => ?_) fun e s₅ hs₅ =>
        absurd hs₅.2 (by rintro ⟨⟩)
      refine leads_pure ⟨?_, by rintro _ ⟨⟩⟩
      rintro _ ⟨⟩
      refine ⟨htotal, hs₅.1.sound (hs₄.sound hsound'), datas, hcompletes, ?_⟩
      exact hs₅.1.placed _ (hs₄.placed _ hplaced)
    · exact ⟨hsession.trans hs₄.session, hs₄.sound hsound', datas, hcompletes, hs₄.placed _ hplaced⟩
  · rcases hs₃ with ⟨-, hkept⟩ | hpublished
    · exact .inl (hprepared.trans hkept)
    · exact .inr (hfrom hpublished)

end Jasil.Uploads
