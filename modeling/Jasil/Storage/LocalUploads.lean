import Jasil.Storage.LocalPaths
import Jasil.Storage.Chunks
import Jasil.Storage.Streams
import Jasil.Transition.Faults

/-! # Resumable uploads of the local backend
Parts of an object are staged as files of a session, in any order and again when they are sent again, and put
together when the upload is completed. Every call on the file system may fail. `Path.exists` raises what its
`stat` raises for a path that may be there, as in Python 3.12 and 3.13; from 3.14 on it says that there is
nothing.

* **`Store`**: the files of one address, and of one session for it.
* **`beginUpload`, `uploadPart`, `completeUpload`**: the calls, one file-system operation at a time.
* **`Store.object`**: what is read at the address.
* **`latest`**: the latest version of a part that was moved into place. -/

namespace Jasil.Uploads

open State (Bytes)
open Objects (Text StorageError CaseFolding checkArea checkSegment readChunks)
open Objects.LocalStorage (isPlainTemporaryName isHexDigit)
open Storage (Source ExactSizeReader ReadError)

/-! ## Sessions -/

/-- `_UPLOAD_MIN_PART_SIZE`. -/
def uploadMinPartSize : ℤ := 5 * 1024 * 1024

/-- `_UPLOAD_MAX_PART_SIZE`. -/
def uploadMaxPartSize : ℤ := 5 * 1024 * 1024 * 1024

/-- `_UPLOAD_MAX_PARTS`. -/
def uploadMaxParts : ℤ := 10000

/-- `_STREAM_CHUNK_BYTES`. -/
def streamChunkBytes : ℕ := 1024 * 1024

/-- `UploadSession`. -/
structure UploadSession where
  area : Text
  key : Text
  sessionId : Text
  maxBytes : Option ℤ
  minPartSize : ℤ
  maxPartSize : ℤ
  maxParts : ℤ
  deriving DecidableEq

/-- `PartRef`. -/
structure PartRef where
  partNumber : ℤ
  size : ℤ
  validator : Text
  deriving DecidableEq

/-- What is wrong with the parts that are given. -/
inductive PartError
  /-- part_number must be between 1 and … -/
  | number (maxParts : ℤ)
  /-- At least one upload part is required -/
  | none
  /-- An upload may contain at most … parts -/
  | tooMany (maxParts : ℤ)
  /-- Upload parts must be unique and ordered by part_number -/
  | unordered
  /-- Upload part size must be between 0 and … -/
  | size (maxPartSize : ℤ)
  /-- Upload part validator must not be empty -/
  | noValidator
  /-- Every upload part except the last must be at least … bytes -/
  | tooSmall (minPartSize : ℤ)
  /-- Storage part size must be a non-negative integer -/
  | negativeSize
  /-- Resumable upload max_bytes must not be negative -/
  | negativeMaxBytes
  /-- `StorageSizeLimitError`: Upload part exceeds max_part_size=… -/
  | partTooLarge (maxPartSize : ℤ)
  /-- `StorageSizeLimitError`: Resumable upload exceeds max_bytes=… -/
  | tooLarge (maxBytes : ℤ)
  deriving DecidableEq

/-- `StorageUploadSessionError`. -/
inductive SessionError
  /-- Upload session is not valid for local storage -/
  | invalid
  /-- Upload session is not active -/
  | notActive
  /-- Upload session does not match its durable state -/
  | otherState
  /-- Completion must reference every uploaded part exactly once -/
  | notEveryPart
  /-- Upload part … size does not match -/
  | otherSize (partNumber : ℤ)
  /-- Upload part … is no longer active -/
  | partGone (partNumber : ℤ)
  /-- Upload part … does not match its reference -/
  | otherReference (partNumber : ℤ)
  deriving DecidableEq

/-- What a call raises. -/
inductive UploadError
  /-- An `OSError`, while it is not handled. -/
  | os
  | part (e : PartError)
  | session (e : SessionError)
  /-- What the reader of the source raised. -/
  | reader (e : ReadError)
  | storage (e : StorageError)
  deriving DecidableEq

/-- "Local storage backend is unavailable" -/
def backendUnavailable : UploadError := .storage (.unavailable "Local storage backend is unavailable")

/-! ## The files -/

/-- The address of the session, and how the backend keeps it. -/
structure Target where
  folding : CaseFolding
  /-- The hexadecimal digest of SHA-256. -/
  sha256 : Bytes → Text
  area : Text
  key : Text
  /-- The area is one of `plain_areas`. -/
  plain : Bool
  legacyLayout : Bool

/-- The files of the address and of the session. Directories and temporary files are left out: a call that
finds no directory fails, as any call may, and no other call looks at a temporary file. -/
structure Store where
  /-- `session.json`, of which the session is what is compared. -/
  manifest : Option UploadSession
  /-- `parts/….part`. -/
  parts : FiniteMap ℤ Bytes
  /-- Every version of a part that was moved into place, the last one first. -/
  staged : List (ℤ × Bytes)
  /-- The identity files and the payload of the versioned layout. -/
  areaFile : Option Text
  keyFile : Option Text
  payload : Option Bytes
  /-- The file under the object's own name. -/
  flat : Option Bytes
  /-- What the check of the keys around it raises in a plain area. -/
  conflict : Option StorageError

/-- Why an operation fails. None says that a file is missing which is there, and `Path.exists` raises it, as
it does before Python 3.14. -/
inductive Fault
  /-- A listing passes it over. -/
  | hidden
  | raised
  deriving DecidableEq

/-- A part of the code: it may fail, and steps may fail or be looked at. -/
abbrev Program := Failing UploadError (Faulty Fault Store)

/-- The latest version of a part. -/
def latest (staged : List (ℤ × Bytes)) (partNumber : ℤ) : Option Bytes :=
  (staged.find? fun version => version.1 = partNumber).map Prod.snd

namespace Store

/-- Which identity file. -/
inductive Identity
  | area
  | key
  deriving DecidableEq

/-- The content of an identity file. -/
def identity (s : Store) : Identity → Option Text
  | .area => s.areaFile
  | .key => s.keyFile

/-- An identity file is linked into its place. -/
def identify (s : Store) (file : Identity) (value : Text) : Store :=
  match file with
  | .area => { s with areaFile := some value }
  | .key => { s with keyFile := some value }

/-- A part is moved into place. -/
def stage (s : Store) (partNumber : ℤ) (data : Bytes) : Store :=
  { s with parts := s.parts.insert partNumber data, staged := (partNumber, data) :: s.staged }

/-- The object is moved into place. -/
def put (t : Target) (data : Bytes) (s : Store) : Store :=
  if t.plain then { s with flat := some data } else { s with payload := some data }

/-- `get`, when nothing fails. -/
def object (t : Target) (s : Store) : Except StorageError (Option Bytes) :=
  if t.plain ∧ s.flat.isSome then .ok s.flat
  else
    match s.payload with
    | some data =>
      if s.areaFile = some t.area ∧ s.keyFile = some t.key then .ok (some data)
      else .error (.unavailable "Local storage object identity does not match its address")
    | none => .ok (if ¬ t.plain ∧ t.legacyLayout then s.flat else none)

end Store

/-! ## Operations -/

/-- An operation that changes nothing of this: what is looked at, a directory that is made, or a temporary
file. -/
def touch : Program Unit := Faulty.perform (fun _ => .os) id

/-- One that does. -/
def perform (effect : Store → Store) : Program Unit := Faulty.perform (fun _ => .os) effect

/-- A look at the store, which may change while nobody holds the lock. -/
def observe : Program Store := Faulty.observe

/-- `except OSError as error: raise StorageBackendUnavailableError`. -/
def orUnavailable {α : Type} (p : Program α) : Program α :=
  tryCatch p fun e => throw (if e = .os then backendUnavailable else e)

/-- `with suppress(OSError)`. -/
def suppress (p : Program Unit) : Program Unit := tryCatch p fun e => if e = .os then pure () else throw e

/-! ## Checks -/

/-- A session id is a UUID in hexadecimal. -/
def isSessionId (sessionId : Text) : Bool :=
  sessionId.length = 32 ∧ sessionId.all isHexDigit

variable (t : Target) (session : UploadSession)

/-- `_validate_upload_session`. -/
def validateUploadSession : Except UploadError Unit :=
  if checkArea t.folding session.area ≠ .ok () ∨ checkSegment session.key "key" ≠ .ok ()
      ∨ isSessionId session.sessionId = false ∨ (∃ limit ∈ session.maxBytes, limit < 0)
      ∨ session.minPartSize ≠ uploadMinPartSize ∨ session.maxPartSize ≠ uploadMaxPartSize
      ∨ session.maxParts ≠ uploadMaxParts then .error (.session .invalid)
  else .ok ()

/-- `_validate_part_number`. -/
def validatePartNumber (partNumber : ℤ) : Except UploadError Unit :=
  if 1 ≤ partNumber ∧ partNumber ≤ session.maxParts then .ok () else .error (.part (.number session.maxParts))

/-- The numbers of the parts, each above the one before. -/
def validateOrder : ℤ → List PartRef → Except UploadError Unit
  | _, [] => .ok ()
  | previous, part :: parts => do
    validatePartNumber session part.partNumber
    if part.partNumber ≤ previous then throw (.part .unordered)
    validateOrder part.partNumber parts

/-- The sizes and validators of the parts, and the sum of the sizes. -/
def validateSizes : ℤ → List PartRef → Except UploadError ℤ
  | total, [] => .ok total
  | total, part :: parts => do
    if part.size < 0 ∨ session.maxPartSize < part.size then throw (.part (.size session.maxPartSize))
    if part.validator = [] then throw (.part .noValidator)
    if parts ≠ [] ∧ part.size < session.minPartSize then throw (.part (.tooSmall session.minPartSize))
    validateSizes (total + part.size) parts

/-- `max_bytes`, where there is one and the total exceeds it. -/
def limitTotal (total : ℤ) : Except UploadError Unit :=
  match session.maxBytes.filter (· < total) with
  | some limit => .error (.part (.tooLarge limit))
  | none => .ok ()

/-- `_validate_completion_parts`, which leaves the parts as they are. -/
def validateCompletionParts (parts : List PartRef) : Except UploadError ℤ := do
  if parts = [] then throw (.part .none)
  if session.maxParts < parts.length then throw (.part (.tooMany session.maxParts))
  validateOrder session 0 parts
  let total ← validateSizes session 0 parts
  limitTotal session total
  return total

/-! ## Sessions on disk -/

/-- `_load_upload_session`. -/
def loadUploadSession : Program Unit := do
  Failing.lift (validateUploadSession t session)
  orUnavailable touch
  match (← observe).manifest with
  | none => throw (.session .notActive)
  | some manifest => if manifest ≠ session then throw (.session .otherState)

/-- `_uploaded_parts`, with what the files hold for their sizes. -/
def uploadedParts : Program (FiniteMap ℤ Bytes) := do
  orUnavailable touch
  match ← Faulty.poll with
  | some .hidden => return ∅
  | some .raised => throw backendUnavailable
  | none =>
    orUnavailable touch
    return (← observe).parts

/-! ## Objects on disk -/

/-- The value of an identity file. -/
def Target.value : Store.Identity → Text
  | .area => t.area
  | .key => t.key

/-- `_write_identity`. -/
def writeIdentity (file : Store.Identity) : Program Unit := do
  orUnavailable touch
  match (← observe).identity file with
  | some value =>
    if value ≠ t.value file then
      throw (.storage (.unavailable "Local storage object identity does not match its address"))
  | none =>
    orUnavailable do
      touch
      perform fun s => s.identify file (t.value file)
      touch

/-- `_write_object_identities`. -/
def writeObjectIdentities : Program Unit := do
  writeIdentity t .area
  writeIdentity t .key

/-- The check of `_prepare_object` and `begin_upload` in a plain area. -/
def checkPlainKey : Program Unit := do
  if isPlainTemporaryName ((Objects.components t.key).getLastD []) then throw (.storage (.value .stagingName))
  orUnavailable touch
  match (← observe).conflict with
  | some e => throw (.storage e)
  | none => return

/-- `_prepare_object`. -/
def prepareObject : Program Unit := if t.plain then checkPlainKey t else writeObjectIdentities t

/-- `_temporary_object_path`. -/
def temporaryObjectPath : Program Unit := if t.plain then orUnavailable touch else pure ()

/-- `_abandon_new_object`. -/
def abandonNewObject : Program Unit := do
  if ¬ t.plain then
    suppress do
      touch
      if (← observe).payload = none then perform fun s => { s with keyFile := none }
  suppress touch

/-- `_remove_opaque_object`, as far as it can. -/
def removeOpaqueObject : Program Unit :=
  tryCatch (do
    touch
    let s ← observe
    if s.payload = none then return
    touch
    if s.areaFile ≠ some t.area ∨ s.keyFile ≠ some t.key then
      throw (.storage (.unavailable "Local storage object identity does not match its address"))
    perform fun s => { s with payload := none }
    perform fun s => { s with keyFile := none }
    suppress touch) fun _ => pure ()

/-- `_remove_legacy_object`. -/
def removeLegacyObject : Program Unit :=
  if ¬ t.legacyLayout then pure ()
  else
    suppress do
      touch
      if (← observe).flat ≠ none then
        perform fun s => { s with flat := none }
        suppress touch

/-- `_finish_commit`. -/
def finishCommit : Program Unit :=
  if t.plain then removeOpaqueObject t
  else do
    writeObjectIdentities t
    removeLegacyObject t

/-! ## The calls -/

/-- `begin_upload`. -/
def beginUpload (token : Text) (maxBytes : Option ℤ) : Program UploadSession := do
  Failing.lift ((checkArea t.folding t.area).mapError fun e => .storage (.value e))
  Failing.lift ((checkSegment t.key "key").mapError fun e => .storage (.value e))
  if t.plain then checkPlainKey t
  if ∃ limit ∈ maxBytes, limit < 0 then throw (.part .negativeMaxBytes)
  let session := ⟨t.area, t.key, token, maxBytes, uploadMinPartSize, uploadMaxPartSize, uploadMaxParts⟩
  Failing.lift (validateUploadSession t session)
  tryCatch (do
    touch
    perform fun s => { s with manifest := some session, parts := ∅, staged := [] }
    touch) fun _ => do
      suppress (perform fun s => { s with manifest := none })
      throw backendUnavailable
  return session

/-- The validator of what a part holds. -/
def validatorOf (data : Bytes) : Text := "\"sha256-".toList ++ t.sha256 data ++ ['"']

/-- The loop of `upload_part`: a source is read until it ends, once for each unit of fuel. -/
def receive : ℕ → ExactSizeReader → Bytes → Program (ExactSizeReader × Bytes)
  | 0, reader, received => pure (reader, received)
  | fuel + 1, reader, received =>
    match reader.read streamChunkBytes with
    | (.error e, _) => throw (.reader e)
    | (.ok chunk, reader) =>
      if chunk = [] then pure (reader, received)
      else do
        orUnavailable touch
        receive fuel reader (received ++ chunk)

/-- What `upload_part` does once the temporary file is there. -/
def stagePart (partNumber size : ℤ) (reader : ExactSizeReader) : Program PartRef := do
  let (reader, data) ← receive (reader.remaining + 1) reader []
  match reader.verifyComplete.1 with
  | .error e => throw (.reader e)
  | .ok () => pure ()
  orUnavailable do
    touch
    perform fun s => s.stage partNumber data
    touch
  return ⟨partNumber, size, validatorOf t data⟩

/-- `upload_part`. -/
def uploadPart (partNumber : ℤ) (source : Source) (size : ℤ) : Program PartRef := do
  Failing.lift (validateUploadSession t session)
  Failing.lift (validatePartNumber session partNumber)
  let some reader := ExactSizeReader.new source size | throw (.part .negativeSize)
  if session.maxPartSize < size then throw (.part (.partTooLarge session.maxPartSize))
  loadUploadSession t session
  let uploaded ← uploadedParts
  let stagedTotal := ((uploaded.erase partNumber).entries.map fun entry => (entry.2.length : ℤ)).sum
  Failing.lift (limitTotal session (stagedTotal + size))
  orUnavailable touch
  tryCatch (stagePart t partNumber size reader) fun e => do
    suppress touch
    throw e

/-- The loop of `complete_upload` over one part, whose bytes are read and written chunk by chunk. -/
def copyPart (written : Bytes) (part : PartRef) : Program Bytes := do
  touch
  match (← observe).parts.lookup part.partNumber with
  | none => throw (.session (.partGone part.partNumber))
  | some data =>
    let chunks ← Failing.lift ((readChunks streamChunkBytes none 0 data).mapError .storage)
    let copied ← chunks.foldlM (fun copied chunk => do
      touch
      return copied ++ chunk) []
    touch
    if copied.length ≠ part.size ∨ validatorOf t copied ≠ part.validator then
      throw (.session (.otherReference part.partNumber))
    return written ++ copied

/-- The parts are put together and moved over the object. -/
def publish (parts : List PartRef) : Program Unit := do
  touch
  let written ← parts.foldlM (copyPart t) []
  touch
  perform (Store.put t written)
  touch

/-- The session's directory is removed, as far as it can. -/
def removeSession : Program Unit :=
  suppress do
    (← observe).parts.keys.forM fun partNumber => perform fun s => { s with parts := s.parts.erase partNumber }
    perform fun s => { s with manifest := none }

/-- The parts that are given are those that are there, of the sizes that they have. -/
def matchParts (uploaded : FiniteMap ℤ Bytes) (parts : List PartRef) : Except UploadError Unit := do
  if ¬(parts.all (fun part => part.partNumber ∈ uploaded) ∧
      uploaded.keys.all fun partNumber => parts.any fun part => part.partNumber = partNumber) then
    throw (.session .notEveryPart)
  parts.forM fun part =>
    if (uploaded.lookup part.partNumber).map (fun data => (data.length : ℤ)) ≠ some part.size then
      throw (.session (.otherSize part.partNumber))
    else return

/-- `complete_upload`. -/
def completeUpload (parts : List PartRef) : Program ℤ := do
  loadUploadSession t session
  let total ← Failing.lift (validateCompletionParts session parts)
  let uploaded ← uploadedParts
  Failing.lift (matchParts uploaded parts)
  prepareObject t
  temporaryObjectPath t
  tryCatch (publish t parts) fun e => do
    suppress touch
    abandonNewObject t
    throw (if e = .os then backendUnavailable else e)
  finishCommit t
  removeSession
  return total

end Jasil.Uploads
