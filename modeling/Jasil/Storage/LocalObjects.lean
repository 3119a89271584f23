import Jasil.Storage.LocalPaths

/-! # Local objects
What the local backend finds on disk at an address, and what it makes sure of before it writes an object
there. An object of the versioned layout lies beside a file that holds its key, below one that holds its area;
in a plain area an object is a file under its own name, so that its key can be no directory on the way to
another.

* **`existingObjectPath`**: the file of an object, or that there is none.
* **`iterOpaqueObjects`**: the objects of an area in the versioned layout, or what the walk raises on the way.
* **`prepareObject`**: what every write begins with.
* **`checkPlainKeyConflicts_error`**: in a plain area a key above or below that of an object is refused. -/

namespace Jasil.Objects

open State (Bytes)

/-! ## Files -/

/-- A file: its content and its time of change. -/
structure FileData where
  bytes : Bytes
  /-- `st_mtime`. -/
  modified : ℚ

/-- The files and directories of the file system. There are no links, and no call fails for another reason
than what is at its path. -/
abbrev Disk := FileTree Text FileData

/-- How line ends are read. -/
def universalNewlines : Text → Text
  | [] => []
  | '\r' :: '\n' :: cs => '\n' :: universalNewlines cs
  | '\r' :: cs => '\n' :: universalNewlines cs
  | c :: cs => c :: universalNewlines cs

/-- Why a text cannot be read. -/
inductive TextError
  | os (e : Errno)
  /-- `UnicodeDecodeError`. -/
  | undecodable
  deriving DecidableEq

/-- "Local storage backend is unavailable" -/
def backendUnavailable : StorageError := .unavailable "Local storage backend is unavailable"

/-- `_is_absent`. -/
def isAbsent (e : Errno) : Bool := e = .missing ∨ e = .notDirectory ∨ e = .nameTooLong

namespace Disk

variable (limits : Limits Text) (disk : Disk) (p : Path)

/-- `path.read_text(encoding="utf-8")`. -/
def readText : Except TextError Text :=
  match disk.readFile limits p with
  | .ok data =>
    match ofUtf8 data.bytes with
    | some text => .ok (universalNewlines text)
    | none => .error .undecodable
  | .error e => .error (.os e)

/-- `path.exists()`, before Python 3.14. -/
def exists? : Except Errno Bool :=
  match disk.stat limits p with
  | .ok _ => .ok true
  | .error e => if e = .missing ∨ e = .notDirectory then .ok false else .error e

/-- `path.is_dir()`, before Python 3.14. -/
def isDir : Except Errno Bool :=
  match disk.stat limits p with
  | .ok node => .ok node.isDirectory
  | .error e => if e = .missing ∨ e = .notDirectory then .ok false else .error e

/-- `path.is_symlink()`, which nothing is. -/
def isSymlink : Except Errno Bool := (disk.exists? limits p).map fun _ => false

end Disk

/-- Calls on the disk whose errors all mean the same. -/
def orUnavailable {α : Type} (p : Failing Errno Disk α) : Failing StorageError Disk α :=
  ExceptT.adapt (fun _ => backendUnavailable) p

namespace LocalStorage

variable (s : LocalStorage) (disk : Disk)

/-! ## Identities -/

/-- `_resolve_area(area).parent / _OBJECT_AREA_FILE`. -/
def resolveAreaFile (area : Text) : Except StorageError Path := do
  let areaDir ← s.resolveArea area false
  return joinPath areaDir.tail objectAreaFile

/-- `path.parent / _OBJECT_KEY_FILE`. -/
def keyFileBeside (path : Path) : Path := joinPath path.tail objectKeyFile

/-- `_verify_object_identity`. -/
def verifyObjectIdentity (area key : Text) (path : Path) : Except StorageError Unit := do
  let areaFile ← s.resolveAreaFile area
  match disk.readText s.limits areaFile, disk.readText s.limits (keyFileBeside path) with
  | .ok storedArea, .ok storedKey =>
    if storedArea ≠ area ∨ storedKey ≠ key then
      throw (.unavailable "Local storage object identity does not match its address")
  | _, _ => throw (.unavailable "Local storage object identity is unavailable")

/-- `_is_regular_file`. -/
def isRegularFile (path : Path) : Except StorageError Bool :=
  match disk.stat s.limits path with
  | .ok (.file _) => .ok true
  | .ok .directory => .ok false
  | .error e => if isAbsent e then .ok false else .error backendUnavailable

/-- `_current_object_path`. -/
def currentObjectPath (area key : Text) : Except StorageError (Option Path) := do
  let path ← s.resolve area key
  if ← s.isRegularFile disk path then
    s.verifyObjectIdentity disk area key path
    return some path
  return none

/-- What `_existing_object_path` does after the plain layout. -/
def opaqueOrLegacyPath (area key : Text) : Except StorageError (Option Path) := do
  if let some path ← s.currentObjectPath disk area key then return some path
  if area ∈ s.plainAreas ∨ ¬ s.legacyLayout then return none
  let legacyPath ← s.resolveLegacy area key
  return if ← s.isRegularFile disk legacyPath then some legacyPath else none

/-- `_existing_object_path`. -/
def existingObjectPath (area key : Text) : Except StorageError (Option Path) := do
  if area ∈ s.plainAreas then
    let plainPath ← s.resolvePlain area key
    if ← s.isRegularFile disk plainPath then return some plainPath
  s.opaqueOrLegacyPath disk area key

/-- `exists`. -/
def exists? (area key : Text) : Except StorageError Bool := do
  return (← s.existingObjectPath disk area key).isSome

/-! ## Listing -/

/-- What `_iter_opaque_objects` makes of one path: nothing, an object, or an error. -/
def opaqueCandidate (area start : Text) (areaDir candidate : Path) : Option (Except StorageError (Text × ℚ)) :=
  match disk.isSymlink s.limits candidate with
  | .error _ => some (.error backendUnavailable)
  | .ok true => none
  | .ok false =>
    if resolvePath candidate ≠ candidate ∨ ¬ areaDir <:+ resolvePath candidate
        ∨ candidate.head? ≠ some objectPayloadFile then none
    else
      match disk.stat s.limits candidate with
      | .error .missing => none
      | .error _ => some (.error backendUnavailable)
      | .ok .directory => none
      | .ok (.file data) =>
        match disk.readText s.limits (keyFileBeside candidate) with
        | .error (.os .missing) => none
        | .error (.os _) => some (.error backendUnavailable)
        | .error .undecodable => none
        | .ok key =>
          match checkSegment key "key" with
          | .error _ => none
          | .ok () =>
            match s.resolve area key with
            | .error e => some (.error e)
            | .ok path => if candidate = path ∧ start <+: key then some (.ok (key, data.modified)) else none

/-- `_iter_opaque_objects`, up to the first error. -/
def iterOpaqueObjects (area start : Text) : List (Except StorageError (Text × ℚ)) :=
  match s.resolveArea area false with
  | .error e => [.error e]
  | .ok areaDir =>
    match disk.stat s.limits areaDir with
    | .error .missing => []
    | .error _ => [.error backendUnavailable]
    | .ok (.file _) => []
    | .ok .directory =>
      match disk.readText s.limits (joinPath areaDir.tail objectAreaFile) with
      | .error (.os .missing) => []
      | .error (.os _) => [.error backendUnavailable]
      | .error .undecodable => [.error (.value .undecodable)]
      | .ok identity =>
        if identity ≠ area then [.error (.unavailable "Local storage area identity does not match its address")]
        else (disk.walk s.limits areaDir).filterMap (s.opaqueCandidate disk area start areaDir)

/-! ## Writing -/

/-- The keys that are directories on the way to the key. -/
def properAncestors (key : Text) : List Text :=
  (List.range' 1 ((components key).length - 1)).map fun index => ['/'].intercalate ((components key).take index)

/-- The directories on the way to a plain object. -/
def checkParents (conflict : StorageError) : Path → List Text → Except StorageError Unit
  | _, [] => .ok ()
  | current, segment :: segments =>
    match disk.exists? s.limits (joinPath current segment), disk.isDir s.limits (joinPath current segment) with
    | .ok false, _ => checkParents conflict (joinPath current segment) segments
    | .ok true, .ok true => checkParents conflict (joinPath current segment) segments
    | .ok true, .ok false => .error conflict
    | .ok true, .error _ => .error backendUnavailable
    | .error _, _ => .error backendUnavailable

/-- `_check_plain_key_conflicts`. -/
def checkPlainKeyConflicts (area key : Text) (path : Path) : Except StorageError Unit := do
  let conflict := StorageError.keyConflict area key
  let areaPath ← s.resolveArea area true
  s.checkParents disk conflict areaPath (components key).dropLast
  match disk.isDir s.limits path with
  | .error _ => throw backendUnavailable
  | .ok true => throw conflict
  | .ok false =>
    (properAncestors key).forM fun ancestor => do
      if (← s.currentObjectPath disk area ancestor).isSome then throw conflict
    match (s.iterOpaqueObjects disk area (key ++ ['/'])).head? with
    | none => return
    | some (.error e) => throw e
    | some (.ok _) => throw conflict

/-- What a write takes from elsewhere. -/
structure Fresh where
  /-- `uuid4().hex`, for the temporary file of each identity. -/
  areaToken : Text
  keyToken : Text
  now : ℚ

/-- `_install`. -/
def install (source target : Path) : Failing Errno Disk Unit := do
  FileTree.makeDirectories s.limits target.tail
  tryCatch (FileTree.replace s.limits source target) fun e =>
    if e = .missing then do
      FileTree.makeDirectories s.limits target.tail
      FileTree.replace s.limits source target
    else throw e

/-- `_write_identity`. -/
def writeIdentity (token : Text) (now : ℚ) (path : Path) (value : Text) : Failing StorageError Disk Unit := do
  match (← get).readText s.limits path with
  | .ok present =>
    if present ≠ value then throw (.unavailable "Local storage object identity does not match its address")
  | .error .undecodable => throw (.value .undecodable)
  | .error (.os .missing) =>
    let temporary := joinPath path.tail ('.' :: path.headD [] ++ '.' :: token)
    tryCatch (orUnavailable do
        FileTree.makeDirectories s.limits path.tail
        FileTree.create s.limits temporary ⟨utf8 value, now⟩
        s.install temporary path) fun e => do
      tryCatch (orUnavailable (FileTree.unlinkIfPresent s.limits temporary)) fun _ => pure ()
      throw e
  | .error (.os _) => throw backendUnavailable

/-- `_write_object_identities`. -/
def writeObjectIdentities (fresh : Fresh) (area key : Text) (path : Path) : Failing StorageError Disk Unit := do
  let areaFile ← Failing.lift (s.resolveAreaFile area)
  s.writeIdentity fresh.areaToken fresh.now areaFile area
  s.writeIdentity fresh.keyToken fresh.now (keyFileBeside path) key

/-- `_prepare_object`. -/
def prepareObject (fresh : Fresh) (area key : Text) : Failing StorageError Disk Path := do
  if area ∈ s.plainAreas then
    let path ← Failing.lift (s.resolvePlain area key)
    Failing.lift (s.checkPlainKeyConflicts (← get) area key path)
    return path
  let path ← Failing.lift (s.resolve area key)
  s.writeObjectIdentities fresh area key path
  return path

variable {s disk} {area area' key key' : Text} {path : Path}

/-! ## What is found -/

/-- What is found at a path. -/
theorem isRegularFile_cases (s : LocalStorage) (disk : Disk) (path : Path) :
    (s.isRegularFile disk path = .ok true ∧ ∃ data, disk.stat s.limits path = .ok (.file data)) ∨
      s.isRegularFile disk path = .ok false ∧ ∀ data, disk.stat s.limits path ≠ .ok (.file data) := by
  unfold isRegularFile
  cases hstat : disk.stat s.limits path with
  | ok node =>
    cases node with
    | file data => exact .inl ⟨rfl, data, rfl⟩
    | directory => exact .inr ⟨rfl, fun data => by rintro ⟨⟩⟩
  | error e =>
    have habsent : isAbsent e = true := decide_eq_true (FileTree.stat_error hstat)
    exact .inr ⟨if_pos habsent, fun data => by rintro ⟨⟩⟩

/-- The identity files have names. -/
theorem isName_identities : IsName objectAreaFile ∧ IsName objectKeyFile := by
  constructor
  · exact ⟨by decide, by decide, by decide, by decide⟩
  · exact ⟨by decide, by decide, by decide, by decide⟩

/-- The area's file of an area that is checked. -/
theorem resolveAreaFile_eq (harea : checkArea s.folding area = .ok ()) :
    s.resolveAreaFile area = .ok (s.areaFile area) := by
  rw [resolveAreaFile, resolveArea_eq harea]
  exact congrArg Except.ok (joinPath_name isName_identities.1 _)

/-- The key's file stands beside the payload. -/
theorem keyFileBeside_objectPath (area key : Text) :
    keyFileBeside (s.objectPath area key) = s.keyFile area key :=
  joinPath_name isName_identities.2 _

/-- The identity is that of the address. -/
theorem verifyObjectIdentity_ok (harea : checkArea s.folding area = .ok ()) :
    s.verifyObjectIdentity disk area key (s.objectPath area key) = .ok () ↔
      disk.readText s.limits (s.areaFile area) = .ok area ∧ disk.readText s.limits (s.keyFile area key)
        = .ok key := by
  rw [verifyObjectIdentity, resolveAreaFile_eq harea, keyFileBeside_objectPath]
  show (match disk.readText s.limits (s.areaFile area), disk.readText s.limits (s.keyFile area key) with
    | .ok storedArea, .ok storedKey => _
    | _, _ => _) = _ ↔ _
  split
  · rename_i storedArea storedKey hstoredArea hstoredKey
    rw [hstoredArea, hstoredKey, Except.ok.injEq, Except.ok.injEq]
    split
    · rename_i hne
      refine iff_of_false (by rintro ⟨⟩) ?_
      rintro ⟨rfl, rfl⟩
      exact hne.elim (· rfl) (· rfl)
    · rename_i heq
      obtain ⟨harea, hkey⟩ := not_or.mp heq
      exact iff_of_true rfl ⟨not_not.mp harea, not_not.mp hkey⟩
  · rename_i hnone
    exact iff_of_false (by rintro ⟨⟩) fun h => hnone _ _ h.1 h.2

/-- An identity that is not right is unavailable. -/
theorem verifyObjectIdentity_error {e : StorageError} (harea : checkArea s.folding area = .ok ())
    (h : s.verifyObjectIdentity disk area key path = .error e) : ∃ message, e = .unavailable message := by
  rw [verifyObjectIdentity, resolveAreaFile_eq harea] at h
  change (match disk.readText s.limits (s.areaFile area), disk.readText s.limits (keyFileBeside path) with
    | .ok storedArea, .ok storedKey => _
    | _, _ => _) = _ at h
  split at h
  · split at h
    · cases h
      exact ⟨_, rfl⟩
    · cases h
  · cases h
    exact ⟨_, rfl⟩

/-- **There is an object in the versioned layout**: a payload and its identity. -/
theorem currentObjectPath_some (harea : checkArea s.folding area = .ok ())
    (hkey : checkSegment key "key" = .ok ()) :
    s.currentObjectPath disk area key = .ok (some path) ↔
      path = s.objectPath area key ∧ (∃ data, disk.stat s.limits path = .ok (.file data)) ∧
        disk.readText s.limits (s.areaFile area) = .ok area ∧
        disk.readText s.limits (s.keyFile area key) = .ok key := by
  rw [currentObjectPath, resolve_eq harea hkey]
  show (s.isRegularFile disk (s.objectPath area key) >>= _) = _ ↔ _
  rcases isRegularFile_cases s disk (s.objectPath area key) with ⟨hregular, hfile⟩ | ⟨hregular, hfile⟩
  · rw [hregular]
    show (s.verifyObjectIdentity disk area key (s.objectPath area key) >>= fun _ => pure (some _)) = _ ↔ _
    constructor
    · intro h
      obtain ⟨_, hverify, h⟩ := Failing.ok_of_bind h
      cases h
      exact ⟨rfl, hfile, (verifyObjectIdentity_ok harea).mp hverify⟩
    · rintro ⟨rfl, -, hidentity⟩
      rw [(verifyObjectIdentity_ok harea).mpr hidentity]
      rfl
  · rw [hregular]
    refine iff_of_false (by rintro ⟨⟩) ?_
    rintro ⟨rfl, ⟨data, hdata⟩, -⟩
    exact hfile data hdata

/-- There is none when there is no payload. -/
theorem currentObjectPath_none (harea : checkArea s.folding area = .ok ())
    (hkey : checkSegment key "key" = .ok ()) :
    s.currentObjectPath disk area key = .ok none ↔
      ∀ data, disk.stat s.limits (s.objectPath area key) ≠ .ok (.file data) := by
  rw [currentObjectPath, resolve_eq harea hkey]
  show (s.isRegularFile disk (s.objectPath area key) >>= _) = _ ↔ _
  rcases isRegularFile_cases s disk (s.objectPath area key) with ⟨hregular, data, hdata⟩ | ⟨hregular, hfile⟩
  · rw [hregular]
    show (s.verifyObjectIdentity disk area key (s.objectPath area key) >>= fun _ => pure (some _)) = _ ↔ _
    refine iff_of_false (fun h => ?_) fun h => h data hdata
    obtain ⟨_, -, h⟩ := Failing.ok_of_bind h
    cases h
  · rw [hregular]
    exact iff_of_true rfl hfile

/-- A payload with another identity is refused. -/
theorem currentObjectPath_unavailable (harea : checkArea s.folding area = .ok ())
    (hkey : checkSegment key "key" = .ok ())
    (hpayload : ∃ data, disk.stat s.limits (s.objectPath area key) = .ok (.file data))
    (hidentity : ¬(disk.readText s.limits (s.areaFile area) = .ok area ∧
      disk.readText s.limits (s.keyFile area key) = .ok key)) :
    ∃ message, s.currentObjectPath disk area key = .error (.unavailable message) := by
  have hregular : s.isRegularFile disk (s.objectPath area key) = .ok true := by
    rcases isRegularFile_cases s disk (s.objectPath area key) with ⟨hregular, -⟩ | ⟨-, hfile⟩
    · exact hregular
    · obtain ⟨data, hdata⟩ := hpayload
      exact absurd hdata (hfile data)
  have hverify : ∃ message, s.verifyObjectIdentity disk area key (s.objectPath area key) =
      .error (.unavailable message) := by
    cases hverified : s.verifyObjectIdentity disk area key (s.objectPath area key) with
    | ok u => exact absurd ((verifyObjectIdentity_ok harea).mp hverified) hidentity
    | error e =>
      obtain ⟨message, rfl⟩ := verifyObjectIdentity_error harea hverified
      exact ⟨message, rfl⟩
  obtain ⟨message, hmessage⟩ := hverify
  refine ⟨message, ?_⟩
  rw [currentObjectPath, resolve_eq harea hkey]
  show (s.isRegularFile disk (s.objectPath area key) >>= _) = _
  rw [hregular]
  show (s.verifyObjectIdentity disk area key (s.objectPath area key) >>= _) = _
  rw [hmessage]
  rfl

/-- A key that is not accepted has none. -/
theorem currentObjectPath_value {e : ValueError} (harea : checkArea s.folding area = .ok ())
    (hkey : checkSegment key "key" = .error e) : s.currentObjectPath disk area key = .error (.value e) := by
  have hresolve : s.resolve area key = .error (.value e) := by
    rw [resolve, resolveStoragePath, checked_ok.mpr harea]
    show (checked (checkSegment key "key") >>= _) = _
    rw [hkey]
    rfl
  rw [currentObjectPath, hresolve]
  rfl

/-- An object of a plain area is in one of two places. -/
theorem existingObjectPath_plain (hplain : area ∈ s.plainAreas) (h : s.Accepts area key)
    (hexisting : s.existingObjectPath disk area key = .ok (some path)) :
    (∃ data, disk.stat s.limits (s.plainPath area key) = .ok (.file data)) ∨
      s.currentObjectPath disk area key = .ok (some path) := by
  rcases isRegularFile_cases s disk (s.plainPath area key) with ⟨-, hfile⟩ | ⟨hregular, -⟩
  · exact .inl hfile
  · right
    rw [existingObjectPath, if_pos hplain, resolvePlain_eq h.checkedArea h.checkedKey,
      h.notStaging hplain] at hexisting
    change (s.isRegularFile disk (s.plainPath area key) >>= _) = _ at hexisting
    rw [hregular] at hexisting
    change s.opaqueOrLegacyPath disk area key = _ at hexisting
    obtain ⟨current, hcurrent, hexisting⟩ := Failing.ok_of_bind hexisting
    cases current with
    | some found =>
      cases hexisting
      exact hcurrent
    | none =>
      change (if area ∈ s.plainAreas ∨ _ then _ else _) = _ at hexisting
      rw [if_pos (.inl hplain)] at hexisting
      cases hexisting

/-! ## Conflicts -/

/-- A file on the way is found. -/
theorem checkParents_error {conflict : StorageError} {segment : Text} {before after : List Text}
    {data : FileData} (hnames : ∀ name ∈ before ++ [segment], IsName name)
    (hfile : disk.stat s.limits ((before ++ [segment]).reverse ++ path) = .ok (.file data)) :
    ∃ e, s.checkParents disk conflict path (before ++ segment :: after) = .error e := by
  induction before generalizing path with
  | nil =>
    have hjoin := joinPath_name (hnames segment (List.mem_singleton_self segment)) path
    -- the file is there and is no directory
    have hexists : disk.exists? s.limits (joinPath path segment) = .ok true := by
      rw [hjoin, Disk.exists?]
      change disk.stat s.limits (segment :: path) = _ at hfile
      rw [hfile]
    have hdir : disk.isDir s.limits (joinPath path segment) = .ok false := by
      rw [hjoin, Disk.isDir]
      change disk.stat s.limits (segment :: path) = _ at hfile
      rw [hfile]
      rfl
    exact ⟨conflict, by rw [List.nil_append, checkParents, hexists, hdir]⟩
  | cons name before ih =>
    obtain ⟨hname, hrest⟩ := List.forall_mem_cons.mp hnames
    have hrest : ∃ e, s.checkParents disk conflict (joinPath path name) (before ++ segment :: after)
        = .error e := by
      refine ih hrest ?_
      rw [joinPath_name hname]
      simpa using hfile
    rw [List.cons_append, checkParents]
    split
    · exact hrest
    · exact hrest
    · exact ⟨_, rfl⟩
    · exact ⟨_, rfl⟩
    · exact ⟨_, rfl⟩

/-- A key above another is one of its ancestors. -/
theorem mem_properAncestors (h : IsBelow key key') : key' ∈ properAncestors key := by
  obtain ⟨⟨rest, hrest⟩, hne⟩ := isBelow_iff.mp h
  have hlonger : rest ≠ [] := by
    rintro rfl
    exact hne (components_injective ((List.append_nil _).symm.trans hrest))
  refine List.mem_map.mpr ⟨(components key').length,
    List.mem_range'.mpr ⟨(components key').length - 1, ?_, ?_⟩, ?_⟩
  · have hlength := congrArg List.length hrest
    have hfirst := List.length_pos_iff.mpr (components_ne_nil key')
    have hsecond := List.length_pos_iff.mpr hlonger
    rw [List.length_append] at hlength
    omega
  · have hfirst := List.length_pos_iff.mpr (components_ne_nil key')
    omega
  · rw [← hrest, List.take_left]
    exact List.intercalate_splitOn '/'

/-- The components of a key above another, and those that follow. -/
theorem components_below (h : IsBelow key key') :
    ∃ before segment after, components key' = before ++ [segment] ∧
      (components key).dropLast = before ++ segment :: after := by
  obtain ⟨⟨rest, hrest⟩, hne⟩ := isBelow_iff.mp h
  have hlonger : rest ≠ [] := by
    rintro rfl
    exact hne (components_injective ((List.append_nil _).symm.trans hrest))
  refine ⟨(components key').dropLast, (components key').getLast (components_ne_nil key'), rest.dropLast, ?_, ?_⟩
  · exact (List.dropLast_append_getLast _).symm
  · rw [← hrest, List.dropLast_append_of_ne_nil hlonger, ← List.singleton_append, ← List.append_assoc,
      List.dropLast_append_getLast]

/-- The object that an area has in the versioned layout is met by the walk. -/
theorem opaqueCandidate_current {start : Text} (harea : checkArea s.folding area = .ok ())
    (hkey : checkSegment key "key" = .ok ()) (hcurrent : s.currentObjectPath disk area key = .ok (some path))
    (hstart : start <+: key) :
    path ∈ disk.walk s.limits (s.areaDir area) ∧
      ∃ modified, s.opaqueCandidate disk area start (s.areaDir area) path = some (.ok (key, modified)) := by
  obtain ⟨rfl, ⟨data, hstat⟩, -, hkeyText⟩ := (currentObjectPath_some harea hkey).mp hcurrent
  have hinside : Inside (s.areaDir area) (s.objectPath area key) :=
    @inside_append [objectPayloadFile, (s.digest.hex key).drop 2, (s.digest.hex key).take 2] (s.areaDir area)
      (List.cons_ne_nil _ _)
  refine ⟨FileTree.mem_walk_of_stat hstat hinside.1 hinside.2, data.modified, ?_⟩
  have hlink : disk.isSymlink s.limits (s.objectPath area key) = .ok false := by
    rw [Disk.isSymlink, Disk.exists?, hstat]
    rfl
  have hplace : ¬(resolvePath (s.objectPath area key) ≠ s.objectPath area key
      ∨ ¬ s.areaDir area <:+ resolvePath (s.objectPath area key)
      ∨ (s.objectPath area key).head? ≠ some objectPayloadFile) := by
    rw [resolvePath_objectPath]
    rintro (hne | hne | hne)
    · exact hne rfl
    · exact hne hinside.1
    · exact hne rfl
  rw [opaqueCandidate, hlink]
  dsimp only
  rw [if_neg hplace, hstat]
  dsimp only
  rw [keyFileBeside_objectPath, hkeyText]
  dsimp only
  rw [hkey]
  dsimp only
  rw [resolve_eq harea hkey]
  exact if_pos ⟨rfl, hstart⟩

/-- **An object of the versioned layout is listed**, unless the listing fails. -/
theorem iterOpaqueObjects_ne_nil {start : Text} (harea : checkArea s.folding area = .ok ())
    (hkey : checkSegment key "key" = .ok ()) (hcurrent : s.currentObjectPath disk area key = .ok (some path))
    (hstart : start <+: key) : s.iterOpaqueObjects disk area start ≠ [] := by
  obtain ⟨hwalk, modified, hcandidate⟩ := opaqueCandidate_current harea hkey hcurrent hstart
  obtain ⟨rfl, ⟨data, hstat⟩, hareaText, -⟩ := (currentObjectPath_some harea hkey).mp hcurrent
  have hinside : Inside (s.areaDir area) (s.objectPath area key) :=
    @inside_append [objectPayloadFile, (s.digest.hex key).drop 2, (s.digest.hex key).take 2] (s.areaDir area)
      (List.cons_ne_nil _ _)
  have hareaFile : joinPath (s.areaDir area).tail objectAreaFile = s.areaFile area :=
      joinPath_name isName_identities.1 _
  rw [iterOpaqueObjects, resolveArea_eq harea]
  dsimp only
  rw [FileTree.stat_suffix hstat hinside.1 hinside.2]
  dsimp only
  rw [hareaFile, hareaText]
  dsimp only
  rw [if_neg (not_not.mpr rfl)]
  exact List.ne_nil_of_mem (List.mem_filterMap.mpr ⟨_, hwalk, hcandidate⟩)

/-- **A key above or below that of an object is refused.** -/
theorem checkPlainKeyConflicts_error (hplain : area ∈ s.plainAreas) (h : s.Accepts area key)
    (h' : s.Accepts area key') (hexisting : s.existingObjectPath disk area key' = .ok (some path))
    (hbelow : IsBelow key key' ∨ IsBelow key' key) :
    ∃ e, s.checkPlainKeyConflicts disk area key (s.plainPath area key) = .error e := by
  have hnames := (of_checkSegment h'.checkedKey).2
  rw [checkPlainKeyConflicts, resolveArea_flat h.checkedArea]
  show ∃ e, (s.checkParents disk (.keyConflict area key) (area :: s.base) (components key).dropLast >>= _)
    = .error e
  refine Failing.error_of_bind fun _ hparents => ?_
  cases hdir : disk.isDir s.limits (s.plainPath area key) with
  | error e => exact ⟨_, rfl⟩
  | ok directory =>
    cases directory with
    | true => exact ⟨_, rfl⟩
    | false =>
      rcases existingObjectPath_plain hplain h' hexisting with ⟨data, hfile⟩ | hcurrent
      · exfalso
        rcases hbelow with habove | hbelow
        · -- the object is a file on the way
          obtain ⟨before, segment, after, hkey', hkey⟩ := components_below habove
          rw [plainPath, hkey'] at hfile
          obtain ⟨e, he⟩ := @checkParents_error s disk (area :: s.base) (.keyConflict area key) segment before
            after data
            (hkey' ▸ hnames) hfile
          rw [← hkey, hparents] at he
          cases he
        · -- the object lies in a directory of the key's name
          obtain ⟨hsuffix, hne⟩ := @inside_plainPath_of_isBelow s area key key' hbelow
          rw [Disk.isDir, FileTree.stat_suffix hfile hsuffix hne] at hdir
          cases hdir
      · rcases hbelow with habove | hbelow
        · obtain ⟨e, he⟩ := @Failing.error_of_forM _ _ (fun ancestor => do
            if (← s.currentObjectPath disk area ancestor).isSome then throw (.keyConflict area key)) _ key'
            (mem_properAncestors habove) ⟨.keyConflict area key, by rw [hcurrent]; rfl⟩
          exact ⟨e, by dsimp only; rw [he]; rfl⟩
        · refine Failing.error_of_bind fun _ _ => ?_
          -- the walk meets the object, or fails before
          have hlisted := iterOpaqueObjects_ne_nil h'.checkedArea h'.checkedKey hcurrent hbelow
          obtain ⟨first, hfirst⟩ := Option.isSome_iff_exists.mp (List.isSome_head?.mpr hlisted)
          rw [hfirst]
          cases first with
          | error e => exact ⟨e, rfl⟩
          | ok object => exact ⟨_, rfl⟩

/-- An object exists exactly when it has a path. -/
theorem exists?_true : s.exists? disk area key = .ok true ↔ ∃ path, s.existingObjectPath disk area key
    = .ok (some path) := by
  unfold exists?
  cases h : s.existingObjectPath disk area key with
  | error e => exact iff_of_false (by rintro ⟨⟩) (by rintro ⟨_, ⟨⟩⟩)
  | ok found =>
    cases found with
    | none => exact iff_of_false (by rintro ⟨⟩) (by rintro ⟨_, ⟨⟩⟩)
    | some path => exact iff_of_true rfl ⟨path, rfl⟩

/-- A write into a plain area begins with checks that only read. -/
theorem on_prepareObject_plain (fresh : Fresh) (hplain : area ∈ s.plainAreas) (h : s.Accepts area key) :
    (s.prepareObject fresh area key).on disk =
      ((s.checkPlainKeyConflicts disk area key (s.plainPath area key)).map fun _ => s.plainPath area key,
      disk) := by
  rw [prepareObject, if_pos hplain, resolvePlain_eq h.checkedArea h.checkedKey, h.notStaging hplain]
  show ((Failing.lift (.ok (s.plainPath area key)) : Failing StorageError Disk Path) >>= _).on disk = _
  rw [Failing.on_bind_ok (Failing.on_lift _ disk), Failing.on_bind_ok Failing.on_get]
  cases hcheck : s.checkPlainKeyConflicts disk area key (s.plainPath area key) with
  | error e =>
    exact Failing.on_bind_error (Failing.on_lift _ disk) _
  | ok u => exact Failing.on_bind_ok (Failing.on_lift _ disk) _

/-! ## Addresses -/

/-- **Addresses are confined and apart.** An address in the flat layout is inside its area and outside what is
kept for other things, and in the versioned layout it is inside that layout and no identity file; two
addresses are two paths, and in the versioned layout neither is inside the other; and in a plain area nothing
is written above or below an object. -/
theorem addresses_apart {values : Set Text} (hfree : s.digest.CollisionFree values) (h : s.Accepts area key)
    (h' : s.Accepts area' key') (hvalues : area ∈ values ∧ key ∈ values ∧ area' ∈ values ∧ key' ∈ values) :
    ∃ flat payload flat' payload', s.resolveFlat area key = .ok flat ∧ s.resolve area key = .ok payload ∧
      s.resolveFlat area' key' = .ok flat' ∧ s.resolve area' key' = .ok payload' ∧
      (Inside (area :: s.base) flat ∧ ¬ objectStorageArea :: s.base <:+ flat
      ∧ ¬ uploadsDirectory :: s.base <:+ flat) ∧
      (Inside (objectStorageArea :: s.base) payload ∧ .ok payload ≠ s.resolveAreaFile area' ∧
        payload ≠ keyFileBeside payload') ∧
      ((area, key) ≠ (area', key') → flat ≠ flat' ∧ payload ≠ payload') ∧ ¬ Inside payload payload' ∧
      (area = area' → area ∈ s.plainAreas → IsBelow key key' ∨ IsBelow key' key →
        ∀ disk : Disk, s.exists? disk area' key' = .ok true → ∀ (fresh : Fresh) (α : Type)
          (write : Path → Failing StorageError Disk α),
          ∃ e, (s.prepareObject fresh area key >>= write).on disk = (.error e, disk)) := by
  obtain ⟨harea, hkey, harea', hkey'⟩ := hvalues
  refine ⟨s.plainPath area key, s.objectPath area key, s.plainPath area' key', s.objectPath area' key',
    resolveFlat_eq h,
    resolve_eq h.checkedArea h.checkedKey, resolveFlat_eq h', resolve_eq h'.checkedArea h'.checkedKey,
    ⟨inside_plainPath area key, ?_, ?_⟩, ⟨inside_objectPath area key, ?_, ?_⟩,
      fun hne => ⟨fun heq => ?_, fun heq => ?_⟩,
    not_inside_objectPath area key area' key', ?_⟩
  · exact not_suffix_plainPath (ne_of_checkArea h.checkedArea (by decide) (by decide))
  · exact not_suffix_plainPath (ne_of_checkArea h.checkedArea (by decide) (by decide))
  · rw [resolveAreaFile_eq h'.checkedArea]
    intro heq
    have hname := (List.cons.inj (Except.ok.inj heq)).1
    exact absurd hname (by decide)
  · rw [keyFileBeside_objectPath]
    intro heq
    exact absurd (List.cons.inj heq).1 (by decide)
  · obtain ⟨rfl, rfl⟩ := plainPath_injective heq
    exact hne rfl
  · -- the digests of area and key are the same, and so are these
    obtain ⟨hsameArea, hsameKey⟩ := objectPath_injective heq
    rw [hfree harea harea' hsameArea, hfree hkey hkey' hsameKey] at hne
    exact hne rfl
  · rintro rfl hplain hbelow disk hexists fresh α write
    obtain ⟨path, hexisting⟩ := exists?_true.mp hexists
    obtain ⟨e, he⟩ := checkPlainKeyConflicts_error hplain h h' hexisting hbelow
    refine ⟨e, Failing.on_bind_error ?_ write⟩
    rw [on_prepareObject_plain fresh hplain h, he]
    rfl

/-! ## A storage -/

/-- Names of at most 255 bytes, and paths of at most 4095. -/
def unixLimits : Limits Text where
  name n := (utf8 n).length ≤ 255 ∧ n ≠ [] ∧ n ≠ ".".toList ∧ n ≠ "..".toList ∧ '/' ∉ n
  path p := (p.map fun n => (utf8 n).length + 1).sum ≤ 4095
  parent n p h := by
    have hsum := of_decide_eq_true h
    rw [List.map_cons, List.sum_cons] at hsum
    exact decide_eq_true (by omega)

/-- SHA-256, as far as it is asked for. -/
def sampleDigest : PathDigest where
  hex value :=
    if value = "photos".toList then "84a6dae49cf0481203aa97872cc3301b73c406b8ac099ee36d2f849365cec06b".toList
    else if value = "a".toList then "ca978112ca1bbdcafac231b39a23dc4da786eff8147c4e72b9807785afee48bb".toList
    else if value = "a/b".toList then "c14cddc033f64b9dea80ea675cf280a015e672516090a5626781153dc68fea11".toList
    else List.replicate 64 '0'
  length value := by split_ifs <;> rfl
  digits value := by split_ifs <;> exact List.all_eq_true.mp (by decide)

/-- A storage below `/srv` with one plain area. -/
def sampleStorage : LocalStorage where
  folding := ⟨fun c => [c.toLower], fun _ _ => rfl⟩
  digest := sampleDigest
  limits := unixLimits
  names name h := by
    obtain ⟨-, hne, hdot, hdots, hslash⟩ := of_decide_eq_true h
    exact ⟨hne, hdot, hdots, hslash⟩
  maxOffset := 2 ^ 44
  base := ["srv".toList]
  base_resolved := rfl
  legacyLayout := false
  plainAreas := {"photos".toList}

/-- It holds the object `a`. -/
def sampleDisk : Disk :=
  (((∅ : Disk).insert ["srv".toList] .directory).insert ["photos".toList, "srv".toList] .directory).insert
    ["a".toList, "photos".toList, "srv".toList] (.file ⟨[1, 2], 0⟩)

/-- A key below the path of a plain object is refused, and nothing is changed. -/
theorem addresses_apart_sample :
    ∃ e, (sampleStorage.prepareObject ⟨[], [], 0⟩ "photos".toList "a/b".toList >>= fun _ => pure ()).on
      sampleDisk =
      (.error e, sampleDisk) := by
  have hfree : sampleStorage.digest.CollisionFree
      {value | value ∈ ["photos".toList, "a".toList, "a/b".toList]} := by
    intro value hvalue value' hvalue' hsame
    simp only [Set.mem_ofPred_eq, List.mem_cons, List.not_mem_nil, or_false] at hvalue hvalue'
    rcases hvalue with rfl | rfl | rfl <;> rcases hvalue' with rfl | rfl | rfl <;>
      first | rfl | exact absurd hsame (by decide)
  have h : sampleStorage.Accepts "photos".toList "a/b".toList := ⟨rfl, rfl, fun _ => by decide⟩
  have h' : sampleStorage.Accepts "photos".toList "a".toList := ⟨rfl, rfl, fun _ => by decide⟩
  obtain ⟨_, _, _, _, -, -, -, -, -, -, -, -, hrefused⟩ := addresses_apart hfree h h'
    ⟨by decide, by decide, by decide, by decide⟩
  exact hrefused rfl (Finset.mem_singleton_self _) (.inl (by decide)) sampleDisk rfl ⟨[], [], 0⟩ Unit fun _ =>
    pure ()

end LocalStorage

end Jasil.Objects
