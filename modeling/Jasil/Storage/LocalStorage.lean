import Jasil.Storage.LocalObjects

/-! # Calls of the local backend
What a caller reads, deletes and lists through the local backend, for an object that is there and for one that
is not.

* **`get`, `openStream`, `stat`, `serve`**: what is read of an object.
* **`delete`, `deletePrefix`**: objects are removed, and the directories that are left empty.
* **`iterObjects`**: the objects of an area in each layout, or what the walk raises on the way.
* **`exists?_false`**: an object does not exist exactly when no payload is where its address says. -/

namespace Jasil.Objects

open State (Bytes)

/-- `ObjectStat`, of which this backend knows this much. -/
structure ObjectStat where
  size : ℕ
  /-- `modified_epoch`. -/
  modifiedEpoch : ℚ
  deriving DecidableEq

/-- What is handed out to read an object from. -/
structure ObjectStream where
  data : Bytes
  offset : ℤ
  length : Option ℤ
  deriving DecidableEq

/-- What is left to read. -/
def ObjectStream.read (stream : ObjectStream) : Bytes :=
  let rest := stream.data.drop stream.offset.toNat
  stream.length.elim rest fun n => rest.take n.toNat

/-- What a generator hands out, if all of it is asked for. -/
def consume {ε α : Type} : List (Except ε α) → Except ε (List α)
  | [] => .ok []
  | .error e :: _ => .error e
  | .ok a :: rest =>
    match consume rest with
    | .ok as => .ok (a :: as)
    | .error e => .error e

/-- Texts are compared lawfully. -/
theorem lawful_text : LawfulBEq Text := inferInstance

attribute [local instance] lawful_text in
/-- What a generator hands out that leaves out the keys it has seen. -/
def unseen : List Text → List (Except StorageError (Text × ℚ)) → List (Except StorageError (Text × ℚ))
  | _, [] => []
  | seen, .error e :: rest => .error e :: unseen seen rest
  | seen, .ok (key, modified) :: rest =>
    if key ∈ seen then unseen seen rest else .ok (key, modified) :: unseen (key :: seen) rest

namespace LocalStorage

variable (s : LocalStorage) (disk : Disk) (area key : Text)

/-! ## Reading -/

/-- `open_stream`. -/
def openStream (offset : ℤ) (length : Option ℤ) : Except StorageError ObjectStream := do
  checked (validateStreamRange offset length)
  let some path ← s.existingObjectPath disk area key | throw (.notFound area key)
  match disk.readFile s.limits path with
  | .error .missing | .error .notDirectory => throw (.notFound area key)
  | .error _ => throw backendUnavailable
  | .ok data =>
    if 2 ^ 63 ≤ offset then throw (.value .offsetTooLarge)
    if s.maxOffset < offset then throw backendUnavailable
    return ⟨data.bytes, offset, length⟩

/-- `get`. -/
def get : Except StorageError (Option Bytes) :=
  match s.openStream disk area key 0 none with
  | .ok stream => .ok (some stream.read)
  | .error (.notFound _ _) => .ok none
  | .error e => .error e

/-- `stat`. -/
def stat : Except StorageError (Option ObjectStat) := do
  let some path ← s.existingObjectPath disk area key | return none
  match disk.stat s.limits path with
  | .ok (.file data) => return some ⟨data.bytes.length, data.modified⟩
  | .ok .directory => return none
  | .error .missing | .error .notDirectory => return none
  | .error _ => throw backendUnavailable

/-- `serve`, which answers with the path of the object. -/
def serve : Except StorageError Path := do
  let some path ← s.existingObjectPath disk area key | throw (.notFound area key)
  match disk.readFile s.limits path with
  | .error .missing => throw (.notFound area key)
  | .error _ => throw backendUnavailable
  | .ok _ => return path

/-! ## Deleting -/

/-- The file is removed with what is left empty around it. -/
def removeFile (path : Path) : Failing Errno Disk Unit := do
  FileTree.unlink s.limits path
  modify (FileTree.prune s.limits s.base path.tail)

/-- The payload is removed with the key beside it. -/
def removePayload (path : Path) : Failing Errno Disk Unit := do
  FileTree.unlink s.limits path
  FileTree.unlinkIfPresent s.limits (keyFileBeside path)
  modify (FileTree.prune s.limits s.base path.tail)

/-- `_remove_opaque_object`. -/
def removeOpaqueObject (bestEffort : Bool) : Failing StorageError Disk Unit :=
  tryCatch (do
    let some path ← Failing.lift (s.currentObjectPath (← MonadState.get) area key) | return
    orUnavailable (s.removePayload path)) fun e => if bestEffort then pure () else throw e

/-- `delete`. -/
def delete : Failing StorageError Disk Unit := do
  if area ∈ s.plainAreas then
    let plainPath ← Failing.lift (s.resolvePlain area key)
    match (← MonadState.get).stat s.limits plainPath with
    | .ok (.file _) => orUnavailable (s.removeFile plainPath)
    | .ok .directory => pure ()
    | .error .missing | .error .notDirectory => pure ()
    | .error _ => throw backendUnavailable
    s.removeOpaqueObject area key false
  else
    match ← Failing.lift (s.currentObjectPath (← MonadState.get) area key) with
    | some path => orUnavailable (s.removePayload path)
    | none => pure ()
    if s.legacyLayout then
      let legacyPath ← Failing.lift (s.resolveLegacy area key)
      match (← MonadState.get).stat s.limits legacyPath with
      | .ok (.file _) => orUnavailable (s.removeFile legacyPath)
      | .ok .directory => pure ()
      | .error e => if isAbsent e then pure () else throw backendUnavailable

/-! ## Listing -/

/-- `path.relative_to(dir).as_posix()`. -/
def relativeKey (dir path : Path) : Text := ['/'].intercalate (path.take (path.length - dir.length)).reverse

/-- What `iter_objects` makes of one path of a plain area. -/
def plainCandidate (start : Text) (plainArea candidate : Path) : Option (Except StorageError (Text × ℚ)) :=
  if isPlainTemporaryName (candidate.headD []) then none
  else
    match disk.isSymlink s.limits candidate with
    | .error _ => some (.error backendUnavailable)
    | .ok true => none
    | .ok false =>
      if resolvePath candidate ≠ candidate ∨ ¬ plainArea <:+ resolvePath candidate then none
      else
        match disk.stat s.limits candidate with
        | .error .missing => none
        | .error _ => some (.error backendUnavailable)
        | .ok .directory => none
        | .ok (.file data) =>
          match checkSegment (relativeKey plainArea candidate) "key" with
          | .error _ => none
          | .ok () =>
            if start <+: relativeKey plainArea candidate then
              some (.ok (relativeKey plainArea candidate, data.modified))
            else none

/-- What it makes of one path of a legacy area. -/
def legacyCandidate (start : Text) (legacyArea candidate : Path) : Option (Except StorageError (Text × ℚ)) :=
  match disk.isSymlink s.limits candidate with
  | .error _ => some (.error backendUnavailable)
  | .ok true => none
  | .ok false =>
    if resolvePath candidate ≠ candidate ∨ ¬ legacyArea <:+ resolvePath candidate then none
    else
      match disk.stat s.limits candidate with
      | .error .missing => none
      | .error _ => some (.error backendUnavailable)
      | .ok .directory => none
      | .ok (.file data) =>
        if start <+: relativeKey legacyArea candidate then
          match s.currentObjectPath disk area (relativeKey legacyArea candidate) with
          | .ok (some _) => none
          | .ok none => some (.ok (relativeKey legacyArea candidate, data.modified))
          | .error (.value _) => none
          | .error e => some (.error e)
        else none

/-- The objects below the directory of an area. -/
def flatObjects (candidate : Path → Path → Option (Except StorageError (Text × ℚ))) :
    List (Except StorageError (Text × ℚ)) :=
  match s.resolveArea area true with
  | .error e => [.error e]
  | .ok areaDir =>
    match disk.stat s.limits areaDir with
    | .error .missing => []
    | .error _ => [.error backendUnavailable]
    | .ok (.file _) => []
    | .ok .directory => (disk.walk s.limits areaDir).filterMap (candidate areaDir)

/-- `objects` of `iter_objects`, up to the first error. -/
def objects (start : Text) : List (Except StorageError (Text × ℚ)) :=
  let plain := if area ∈ s.plainAreas then s.flatObjects disk area (s.plainCandidate disk start) else []
  let seen := plain.filterMap fun step => step.toOption.map Prod.fst
  plain ++ unseen seen (s.iterOpaqueObjects disk area start) ++
    if s.legacyLayout ∧ area ∉ s.plainAreas then s.flatObjects disk area (s.legacyCandidate disk area start)
      else []

/-- `iter_objects`. -/
def iterObjects (start : Text) : Except StorageError (List (Except StorageError (Text × ℚ))) := do
  checked (checkArea s.folding area)
  if start ≠ [] then checked (checkListingPrefix start)
  return s.objects disk area start

/-- What `delete_prefix` does after its checks. -/
def deleteListed (start : Text) : Failing StorageError Disk ℕ := do
  let steps ← Failing.lift (s.iterObjects (← MonadState.get) area start)
  let listed ← Failing.lift (consume steps)
  let keys := (listed.map Prod.fst).filter fun key => key = start ∨ start ++ ['/'] <+: key
  keys.forM fun key => s.delete area key
  return keys.length

/-- `delete_prefix`. -/
def deletePrefix (start : Text) : Failing StorageError Disk ℕ := do
  Failing.lift (checked (checkArea s.folding area))
  Failing.lift (checked (checkSegment start "prefix"))
  if area ∈ s.plainAreas then
    let _ ← Failing.lift (s.resolvePlain area start)
  else if s.legacyLayout then
    let _ ← Failing.lift (s.resolveLegacy area start)
  s.deleteListed area start

/-! ## What there is -/

/-- The name of an address is consulted, besides its digest. -/
def FlatUsed : Prop :=
  if area ∈ s.plainAreas then isPlainTemporaryName ((components key).getLastD []) = false
  else s.legacyLayout = true

/-- A payload is where the address says, in one of the layouts. -/
def Stored : Prop :=
  (∃ data, disk.stat s.limits (s.objectPath area key) = .ok (.file data)) ∨
    s.FlatUsed area key ∧ ∃ data, disk.stat s.limits (s.plainPath area key) = .ok (.file data)

variable {s disk area key}

/-- No path is found exactly when neither layout has a file. -/
theorem opaqueOrLegacyPath_none (harea : checkArea s.folding area = .ok ())
    (hkey : checkSegment key "key" = .ok ()) :
    s.opaqueOrLegacyPath disk area key = .ok none ↔
      (∀ data, disk.stat s.limits (s.objectPath area key) ≠ .ok (.file data)) ∧
        (area ∉ s.plainAreas → s.legacyLayout = true →
          ∀ data, disk.stat s.limits (s.plainPath area key) ≠ .ok (.file data)) := by
  unfold opaqueOrLegacyPath
  cases hcurrent : s.currentObjectPath disk area key with
  | error e =>
    refine iff_of_false (by rintro ⟨⟩) fun h => ?_
    rw [(currentObjectPath_none harea hkey).mpr h.1] at hcurrent
    cases hcurrent
  | ok current =>
    cases current with
    | some path =>
      refine iff_of_false (by rintro ⟨⟩) fun h => ?_
      rw [(currentObjectPath_none harea hkey).mpr h.1] at hcurrent
      cases hcurrent
    | none =>
      rw [and_iff_right ((currentObjectPath_none harea hkey).mp hcurrent)]
      show (if area ∈ s.plainAreas ∨ _ then _ else _) = _ ↔ _
      split
      · rename_i hunused
        exact iff_of_true rfl fun hplain hlegacy => (hunused.elim hplain (absurd hlegacy)).elim
      · rename_i hused
        obtain ⟨hplain, hlegacy⟩ := not_or.mp hused
        rw [resolveLegacy_eq harea hkey]
        show (s.isRegularFile disk (s.plainPath area key) >>= _) = _ ↔ _
        rcases isRegularFile_cases s disk (s.plainPath area key) with ⟨hregular, data, hdata⟩ | ⟨hregular, hfile⟩
        · rw [hregular]
          exact iff_of_false (by rintro ⟨⟩) fun h => h hplain (not_not.mp hlegacy) data hdata
        · rw [hregular]
          exact iff_of_true rfl fun _ _ => hfile

/-- **What does not exist** has no payload. -/
theorem existingObjectPath_none (h : s.Accepts area key) :
    s.existingObjectPath disk area key = .ok none ↔ ¬ s.Stored disk area key := by
  have hrest := @opaqueOrLegacyPath_none s disk area key h.checkedArea h.checkedKey
  unfold existingObjectPath
  by_cases hplain : area ∈ s.plainAreas
  · rw [if_pos hplain, resolvePlain_eq h.checkedArea h.checkedKey, h.notStaging hplain]
    show (s.isRegularFile disk (s.plainPath area key) >>= _) = _ ↔ _
    have hused : s.FlatUsed area key := by
      rw [FlatUsed, if_pos hplain]
      exact h.notStaging hplain
    rcases isRegularFile_cases s disk (s.plainPath area key) with ⟨hregular, hfile⟩ | ⟨hregular, hfile⟩
    · rw [hregular]
      exact iff_of_false (by rintro ⟨⟩) fun hnot => hnot (.inr ⟨hused, hfile⟩)
    · rw [hregular]
      show s.opaqueOrLegacyPath disk area key = _ ↔ _
      rw [hrest]
      constructor
      · rintro ⟨hnone, -⟩ (⟨data, hdata⟩ | ⟨-, data, hdata⟩)
        · exact hnone data hdata
        · exact hfile data hdata
      · intro hnot
        exact ⟨fun data hdata => hnot (.inl ⟨data, hdata⟩), fun hno => absurd hplain hno⟩
  · rw [if_neg hplain]
    show s.opaqueOrLegacyPath disk area key = _ ↔ _
    rw [hrest]
    have hused : s.FlatUsed area key ↔ s.legacyLayout = true := by rw [FlatUsed, if_neg hplain]
    constructor
    · rintro ⟨hnone, hlegacy⟩ (⟨data, hdata⟩ | ⟨hflat, data, hdata⟩)
      · exact hnone data hdata
      · exact hlegacy hplain (hused.mp hflat) data hdata
    · intro hnot
      exact ⟨fun data hdata => hnot (.inl ⟨data, hdata⟩),
        fun _ hlegacy data hdata => hnot (.inr ⟨hused.mpr hlegacy, data, hdata⟩)⟩

/-- An object does not exist exactly when it is not stored. -/
theorem exists?_false (h : s.Accepts area key) : s.exists? disk area key = .ok false
    ↔ ¬ s.Stored disk area key := by
  rw [← existingObjectPath_none h]
  unfold exists?
  cases s.existingObjectPath disk area key with
  | error e => exact iff_of_false (by rintro ⟨⟩) (by rintro ⟨⟩)
  | ok found =>
    cases found with
    | none => exact iff_of_true rfl rfl
    | some path => exact iff_of_false (by rintro ⟨⟩) (by rintro ⟨⟩)

end LocalStorage

end Jasil.Objects
