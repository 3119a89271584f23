import Jasil.Storage.Keys
import Jasil.Trees.FileTree

/-! # Where local objects are
The local backend joins a base directory, an area and a key to a path, or a digest of each of them, and takes
only what resolves to itself below the base.

* **`joinPath`**, **`resolvePath`**: how paths are joined, and how dots in them are resolved; there are no links.
* **`resolve`**, **`resolveLegacy`**, **`resolvePlain`**: the path of an address, or why it is refused.
* **`resolveStoragePath_legacy`**, **`resolveStoragePath_opaque`**: a checked address is joined as it is
  written and resolves to itself.
* **`plainPath_injective`**, **`objectPath_injective`**: two addresses are two paths. -/

namespace Jasil.Objects

/-- A path, from its innermost name outwards. -/
abbrev Path := List Text

/-! ## Paths -/

/-- The names in a path that is written out. -/
def pathNames (s : Text) : List Text := (s.splitOn '/').filter fun name => name ≠ [] ∧ name ≠ ".".toList

/-- `path / s`. -/
def joinPath (p : Path) (s : Text) : Path :=
  if s.head? = some '/' then (pathNames s).reverse else (pathNames s).reverse ++ p

/-- `path.resolve()`, where no name is a link. -/
def resolvePath : Path → Path
  | [] => []
  | name :: p => if name = "..".toList then (resolvePath p).tail else name :: resolvePath p

/-- A name that a path is taken to hold as it is. -/
structure IsName (name : Text) : Prop where
  ne_nil : name ≠ []
  ne_dot : name ≠ ".".toList
  ne_dots : name ≠ "..".toList
  slash : '/' ∉ name

/-- A name is its only component. -/
theorem pathNames_of_isName {name : Text} (h : IsName name) : pathNames name = [name] := by
  have hsplit : name.splitOn '/' = [name] := List.splitOn_eq_singleton h.slash
  rw [pathNames, hsplit]
  exact List.filter_cons_of_pos (decide_eq_true ⟨h.ne_nil, h.ne_dot⟩)

/-- A name is joined to a path. -/
theorem joinPath_name {name : Text} (h : IsName name) (p : Path) : joinPath p name = name :: p := by
  have hhead : name.head? ≠ some '/' := fun hhead => h.slash (List.mem_of_head? hhead)
  rw [joinPath, if_neg hhead, pathNames_of_isName h]
  rfl

/-- Names without dots stay as they are. -/
theorem resolvePath_append {names p : Path} (hnames : ∀ name ∈ names, IsName name) (hp : resolvePath p = p) :
    resolvePath (names ++ p) = names ++ p := by
  induction names with
  | nil => exact hp
  | cons name names ih =>
    obtain ⟨hname, hrest⟩ := List.forall_mem_cons.mp hnames
    rw [List.cons_append, resolvePath, if_neg hname.ne_dots, ih hrest]

/-! ## Checked keys -/

/-- The names of a key have no slash in them. -/
theorem slash_not_mem_components (key : Text) : ∀ name ∈ components key, '/' ∉ name := by
  induction key with
  | nil => simp [components]
  | cons c key ih =>
    rw [components, List.splitOn_cons_eq_if_modifyHead]
    split
    · exact List.forall_mem_cons.mpr ⟨List.not_mem_nil, ih⟩
    · rename_i hc
      change ∀ name ∈ (components key).modifyHead (List.cons c), '/' ∉ name
      obtain ⟨name, names, hnames⟩ := List.exists_cons_of_ne_nil (components_ne_nil key)
      rw [hnames] at ih ⊢
      obtain ⟨hname, hrest⟩ := List.forall_mem_cons.mp ih
      refine List.forall_mem_cons.mpr ⟨fun hmem => ?_, hrest⟩
      rcases List.mem_cons.mp hmem with rfl | hmem
      · exact hc (beq_self_eq_true _)
      · exact hname hmem

/-- The checks of a key, together. -/
theorem checkSegment_ok {key : Text} {label : String} : checkSegment key label = .ok () ↔
    key ≠ [] ∧ ¬ (key.any fun c => c.toNat < 0x20 || c.toNat = 0x7f) = true ∧ (utf8 key).length ≤ maxKeyBytes ∧
      ¬(key.head? = some '/' ∨ key.head? = some '\\' ∨
        (((key.map fun c => if c = '\\' then '/' else c).splitOn '/').any (· = "..".toList)) = true) ∧
      ¬('\\' ∈ key ∨ (((key.map fun c => if c = '\\' then '/' else c).splitOn '/').any
        fun part => part = [] ∨ part = ".".toList) = true) := by
  unfold checkSegment
  by_cases hnil : key = []
  · rw [if_pos hnil]
    exact iff_of_false (by rintro ⟨⟩) fun h => h.1 hnil
  rw [if_neg hnil, and_iff_right hnil]
  by_cases hcontrol : (key.any fun c => c.toNat < 0x20 || c.toNat = 0x7f) = true
  · rw [if_pos hcontrol]
    exact iff_of_false (by rintro ⟨⟩) fun h => h.1 hcontrol
  rw [if_neg hcontrol, and_iff_right hcontrol]
  by_cases hlong : maxKeyBytes < (utf8 key).length
  · rw [checkKeyLength, if_pos hlong]
    exact iff_of_false (by rintro ⟨⟩) fun h => absurd h.1 (not_le.mpr hlong)
  rw [checkKeyLength, if_neg hlong, and_iff_right (not_lt.mp hlong)]
  by_cases hescapes : key.head? = some '/' ∨ key.head? = some '\\' ∨
      (((key.map fun c => if c = '\\' then '/' else c).splitOn '/').any (· = "..".toList)) = true
  · refine iff_of_false ?_ fun h => h.1 hescapes
    show (if _ then _ else _) ≠ _
    rw [if_pos hescapes]
    rintro ⟨⟩
  rw [and_iff_right hescapes]
  show (if _ then _ else _) = _ ↔ _
  rw [if_neg hescapes]
  by_cases hcanonical : '\\' ∈ key ∨ (((key.map fun c => if c = '\\' then '/' else c).splitOn '/').any
      fun part => part = [] ∨ part = ".".toList) = true
  · refine iff_of_false ?_ fun h => h hcanonical
    show (if _ then _ else _) ≠ _
    rw [if_pos hcanonical]
    rintro ⟨⟩
  · refine iff_of_true ?_ hcanonical
    exact if_neg hcanonical

/-- What a value is called makes no difference. -/
theorem checkSegment_label {key : Text} {label : String} (h : checkSegment key label = .ok ())
    (label' : String) :
    checkSegment key label' = .ok () :=
  checkSegment_ok.mpr (checkSegment_ok.mp h)

/-- **What the checks leave**: a key of names, none of which is taken for anything else. -/
theorem of_checkSegment {key : Text} {label : String} (h : checkSegment key label = .ok ()) :
    key.head? ≠ some '/' ∧ ∀ name ∈ components key, IsName name := by
  obtain ⟨-, -, -, hescapes, hcanonical⟩ := checkSegment_ok.mp h
  -- without backslashes the parts are the components
  obtain ⟨hbackslash, hparts⟩ := not_or.mp hcanonical
  obtain ⟨hslash, hescapes⟩ := not_or.mp hescapes
  obtain ⟨-, hdots⟩ := not_or.mp hescapes
  have hsame : (key.map fun c => if c = '\\' then '/' else c) = key := by
    refine (List.map_congr_left fun c hc => ?_).trans (List.map_id key)
    refine if_neg ?_
    rintro rfl
    exact hbackslash hc
  rw [hsame] at hparts hdots
  refine ⟨hslash, fun name hname => ?_⟩
  have hpart : ¬(name = [] ∨ name = ".".toList) := fun h =>
    hparts (List.any_eq_true.mpr ⟨name, hname, decide_eq_true h⟩)
  obtain ⟨hne, hdot⟩ := not_or.mp hpart
  exact ⟨hne, hdot, fun h => hdots (List.any_eq_true.mpr ⟨name, hname, decide_eq_true h⟩),
    slash_not_mem_components key name hname⟩

/-- A checked key can be listed from. -/
theorem checkListingPrefix_of_checkSegment {key : Text} {label : String} (h : checkSegment key label = .ok ()) :
    checkListingPrefix key = .ok () := by
  have hlast : key.getLast? ≠ some '/' := by
    intro hlast
    obtain ⟨start, rfl⟩ := List.getLast?_eq_some_iff.mp hlast
    have hsplit : components (start ++ ['/']) = components start ++ components [] :=
        List.splitOn_append_cons_self _ _
    have hname := (of_checkSegment h).2 [] (hsplit ▸ List.mem_append_right _ (List.mem_singleton_self []))
    exact hname.ne_nil rfl
  rw [checkListingPrefix, if_neg fun h => hlast h.1]
  exact checkSegment_label h "prefix"

/-- A checked key is joined name by name. -/
theorem joinPath_key {key : Text} (hslash : key.head? ≠ some '/') (hnames : ∀ name ∈ components key, IsName name)
    (p : Path) : joinPath p key = (components key).reverse ++ p := by
  rw [joinPath, if_neg hslash, pathNames]
  refine congrArg (·.reverse ++ p) (List.filter_eq_self.mpr fun name hname => ?_)
  exact decide_eq_true ⟨(hnames name hname).ne_nil, (hnames name hname).ne_dot⟩

/-- An area is one name. -/
theorem isName_of_checkArea {folding : CaseFolding} {area : Text} (h : checkArea folding area = .ok ()) :
    IsName area := by
  obtain ⟨_, hsegment, -⟩ := Failing.ok_of_bind h
  have hone : components area = [area] := List.splitOn_eq_singleton (slash_not_mem_of_checkArea h)
  exact (of_checkSegment hsegment).2 area (hone ▸ List.mem_singleton_self area)

/-! ## The layouts -/

/-- The digests that objects are stored under: hexadecimal digits of SHA-256. -/
structure PathDigest where
  hex : Text → Text
  length : ∀ value, (hex value).length = 64
  digits : ∀ value, ∀ c ∈ hex value, c.isAlphanum = true

/-- No two of the values have one digest. -/
def PathDigest.CollisionFree (d : PathDigest) (values : Set Text) : Prop := Set.InjOn d.hex values

/-- `LocalStorage`. -/
structure LocalStorage where
  folding : CaseFolding
  /-- `_path_digest`. -/
  digest : PathDigest
  limits : Limits Text
  /-- What a file can be called at all. -/
  names : ∀ name, limits.name name = true → IsName name
  /-- The furthest position in a file. -/
  maxOffset : ℤ
  /-- The base directory, resolved. -/
  base : Path
  base_resolved : resolvePath base = base
  legacyLayout : Bool
  plainAreas : Finset Text

namespace LocalStorage

variable (s : LocalStorage)

/-- `_OBJECTS_LAYOUT_VERSION`, and the other names of the versioned layout. -/
def layoutVersion : Text := "v1".toList

/-- `_OBJECT_AREAS_DIRECTORY`. -/
def objectAreasDirectory : Text := "areas".toList

/-- `_OBJECT_KEYS_DIRECTORY`. -/
def objectKeysDirectory : Text := "objects".toList

/-- `_OBJECT_PAYLOAD_FILE`. -/
def objectPayloadFile : Text := "object".toList

/-- `_OBJECT_AREA_FILE`. -/
def objectAreaFile : Text := "area".toList

/-- `_OBJECT_KEY_FILE`. -/
def objectKeyFile : Text := "key".toList

/-- `_UPLOADS_DIRECTORY`. -/
def uploadsDirectory : Text := ".jasil-upload-sessions".toList

/-- `path / digest[:2] / digest[2:]`. -/
def joinDigest (p : Path) (value : Text) : Path :=
  joinPath (joinPath p ((s.digest.hex value).take 2)) ((s.digest.hex value).drop 2)

/-- What `_resolve_storage_path` and `_resolve_plain` make of the path they ask for. -/
def confined (area : Text) (key : Option Text) (requested : Path) : Except StorageError Path :=
  let candidate := resolvePath requested
  if ¬ s.base <:+ candidate then .error (.value (.escapes "key" (area ++ '/' :: key.getD [])))
  else if candidate ≠ requested then .error (.value (.symbolicLink area (key.getD [])))
  else .ok candidate

/-- A check, as what a call raises. -/
def checked (check : Except ValueError Unit) : Except StorageError Unit := check.mapError .value

/-- `_resolve_storage_path`. -/
def resolveStoragePath (area : Text) (key : Option Text)
    (legacy objectFile : Bool) : Except StorageError Path := do
  checked (checkArea s.folding area)
  if let some key := key then checked (checkSegment key "key")
  if legacy then
    let requested := joinPath s.base area
    s.confined area key (key.elim requested (joinPath requested))
  else
    let requested := joinPath (joinPath (joinPath s.base objectStorageArea) layoutVersion) objectAreasDirectory
    let requested := joinPath (s.joinDigest requested area) objectKeysDirectory
    match key with
    | none => s.confined area none requested
    | some key =>
      let requested := s.joinDigest requested key
      s.confined area key (if objectFile then joinPath requested objectPayloadFile else requested)

/-- `_resolve`. -/
def resolve (area key : Text) : Except StorageError Path := s.resolveStoragePath area key false true

/-- `_resolve_area`. -/
def resolveArea (area : Text) (legacy : Bool) : Except StorageError Path :=
    s.resolveStoragePath area none legacy false

/-- `_resolve_legacy`. -/
def resolveLegacy (area key : Text) : Except StorageError Path := s.resolveStoragePath area key true false

/-- `_PLAIN_TEMP_PREFIX`. -/
def plainTempPrefix : Text := ".jasil-plain-write-".toList

/-- A digit of `UUID.hex`. -/
def isHexDigit (c : Char) : Bool := c.isDigit ∨ ('a' ≤ c ∧ c ≤ 'f')

/-- `_is_plain_temporary_name`. -/
def isPlainTemporaryName (name : Text) : Bool :=
  let token := (name.drop plainTempPrefix.length).take (name.length - plainTempPrefix.length - 4)
  plainTempPrefix <+: name ∧ ".tmp".toList <:+ name ∧ token.length = 32 ∧ token.all isHexDigit

/-- `_resolve_plain`. -/
def resolvePlain (area key : Text) : Except StorageError Path := do
  checked (checkArea s.folding area)
  checked (checkSegment key "key")
  if isPlainTemporaryName ((components key).getLastD []) then throw (.value .stagingName)
  s.confined area key (joinPath (joinPath s.base area) key)

/-! ## Where an address is -/

/-- Where an area is in the versioned layout. -/
def areaDir (area : Text) : Path :=
  [objectKeysDirectory, (s.digest.hex area).drop 2, (s.digest.hex area).take 2, objectAreasDirectory,
  layoutVersion,
    objectStorageArea] ++ s.base

/-- Where the object is, with its identity. -/
def objectDir (area key : Text) : Path :=
  [(s.digest.hex key).drop 2, (s.digest.hex key).take 2] ++ s.areaDir area

/-- `_object_path`. -/
def objectPath (area key : Text) : Path := objectPayloadFile :: s.objectDir area key

/-- The identity files. -/
def areaFile (area : Text) : Path := objectAreaFile :: (s.areaDir area).tail

/-- `_key_file`. -/
def keyFile (area key : Text) : Path := objectKeyFile :: s.objectDir area key

/-- Where an object is in the plain and in the legacy layout. -/
def plainPath (area key : Text) : Path := (components key).reverse ++ area :: s.base

variable {s} {area area' key key' : Text}

/-- A check passes as the one it wraps does. -/
theorem checked_ok {check : Except ValueError Unit} : checked check = .ok () ↔ check = .ok () := by
  cases check with
  | ok u => exact iff_of_true rfl rfl
  | error e => exact iff_of_false (by rintro ⟨⟩) (by rintro ⟨⟩)

/-- A path of names below the root is confined. -/
theorem confined_of_names {names : Path} (hnames : ∀ name ∈ names, IsName name) (key : Option Text) :
    s.confined area key (names ++ s.base) = .ok (names ++ s.base) := by
  have hresolved := resolvePath_append hnames s.base_resolved
  unfold confined
  rw [hresolved, if_neg (not_not.mpr (List.suffix_append names s.base)), if_neg (not_not.mpr rfl)]

/-- The names of an address in the flat layout. -/
theorem isName_plain (harea : checkArea s.folding area = .ok ()) (hkey : checkSegment key "key" = .ok ()) :
    ∀ name ∈ (components key).reverse ++ [area], IsName name := by
  intro name hname
  rcases List.mem_append.mp hname with hname | hname
  · exact (of_checkSegment hkey).2 name (List.mem_reverse.mp hname)
  · rw [List.mem_singleton.mp hname]
    exact isName_of_checkArea harea

/-- The parts of a plain path. -/
theorem plainPath_eq (area key : Text) :
    s.plainPath area key = ((components key).reverse ++ [area]) ++ s.base := by
  rw [plainPath, List.append_assoc]
  rfl

/-- What is asked for in the flat layout is where the names say. -/
theorem confined_plain (harea : checkArea s.folding area = .ok ()) (hkey : checkSegment key "key" = .ok ()) :
    s.confined area key (joinPath (joinPath s.base area) key) = .ok (s.plainPath area key) := by
  obtain ⟨hslash, hnames⟩ := of_checkSegment hkey
  rw [joinPath_name (isName_of_checkArea harea), joinPath_key hslash hnames]
  have hconfined : s.confined area key _ = _ := confined_of_names (isName_plain harea hkey) key
  rw [← plainPath_eq] at hconfined
  exact hconfined

/-- **The flat layout**: a checked address is where its names say. -/
theorem resolveLegacy_eq (harea : checkArea s.folding area = .ok ()) (hkey : checkSegment key "key" = .ok ()) :
    s.resolveLegacy area key = .ok (s.plainPath area key) := by
  rw [resolveLegacy, resolveStoragePath, checked_ok.mpr harea]
  show (checked (checkSegment key "key") >>= _) = _
  rw [checked_ok.mpr hkey]
  exact confined_plain harea hkey

/-- The directory of an area. -/
theorem resolveArea_flat (harea : checkArea s.folding area = .ok ()) :
    s.resolveArea area true = .ok (area :: s.base) := by
  rw [resolveArea, resolveStoragePath, checked_ok.mpr harea]
  show s.confined area none (joinPath s.base area) = _
  rw [joinPath_name (isName_of_checkArea harea)]
  refine @confined_of_names s area [area] (fun name hname => ?_) none
  rw [List.mem_singleton.mp hname]
  exact isName_of_checkArea harea

/-- A plain path is resolved unless its name is that of a temporary file. -/
theorem resolvePlain_eq (harea : checkArea s.folding area = .ok ()) (hkey : checkSegment key "key" = .ok ()) :
    s.resolvePlain area key = if isPlainTemporaryName ((components key).getLastD [])
      then .error (.value .stagingName)
      else .ok (s.plainPath area key) := by
  rw [resolvePlain, checked_ok.mpr harea]
  show (checked (checkSegment key "key") >>= _) = _
  rw [checked_ok.mpr hkey]
  show (if isPlainTemporaryName ((components key).getLastD []) = true then _ else _) = _
  split
  · rfl
  · exact confined_plain harea hkey

/-! ## The versioned layout -/

/-- Letters and digits are a name. -/
theorem isName_of_isAlphanum {name : Text} (hne : name ≠ [])
    (h : ∀ c ∈ name, c.isAlphanum = true) : IsName name where
  ne_nil := hne
  ne_dot hdot := absurd (h '.' (hdot ▸ by decide)) (by decide)
  ne_dots hdots := absurd (h '.' (hdots ▸ by decide)) (by decide)
  slash hslash := absurd (h '/' hslash) (by decide)

/-- So is the rest of a digest. -/
theorem isName_drop_hex (value : Text) : IsName ((s.digest.hex value).drop 2) := by
  refine isName_of_isAlphanum ?_ fun c hc => s.digest.digits value c (List.mem_of_mem_drop hc)
  rw [← List.length_pos_iff, List.length_drop, s.digest.length]
  decide

/-- So is the beginning of one. -/
theorem isName_take_hex (value : Text) : IsName ((s.digest.hex value).take 2) := by
  refine isName_of_isAlphanum ?_ fun c hc => s.digest.digits value c (List.mem_of_mem_take hc)
  rw [← List.length_pos_iff, List.length_take, s.digest.length]
  decide

/-- A digest makes two directories. -/
theorem joinDigest_eq (p : Path) (value : Text) :
    s.joinDigest p value = (s.digest.hex value).drop 2 :: (s.digest.hex value).take 2 :: p := by
  rw [joinDigest, joinPath_name (isName_take_hex value), joinPath_name (isName_drop_hex value)]

/-- The names that the layout itself is made of. -/
theorem isName_layout : ∀ name ∈ [objectKeysDirectory, objectAreasDirectory, layoutVersion, objectStorageArea,
    objectPayloadFile], IsName name := by
  intro name hname
  have hall : [objectKeysDirectory, objectAreasDirectory, layoutVersion, objectStorageArea,
      objectPayloadFile].all
      fun name => decide (name ≠ [] ∧ name ≠ ".".toList ∧ name ≠ "..".toList ∧ '/' ∉ name) := by decide
  obtain ⟨hne, hdot, hdots, hslash⟩ := of_decide_eq_true (List.all_eq_true.mp hall name hname)
  exact ⟨hne, hdot, hdots, hslash⟩

/-- The names of an area in the versioned layout. -/
theorem isName_areaDir (area : Text) : ∀ name ∈ [objectKeysDirectory, (s.digest.hex area).drop 2,
    (s.digest.hex area).take 2, objectAreasDirectory, layoutVersion, objectStorageArea], IsName name := by
  have hlayout := isName_layout
  simp only [List.forall_mem_cons] at hlayout ⊢
  obtain ⟨hkeys, hareas, hversion, hobjects, -, -⟩ := hlayout
  exact ⟨hkeys, isName_drop_hex area, isName_take_hex area, hareas, hversion, hobjects, by simp⟩

/-- **The versioned layout**: an area is where its digest says. -/
theorem resolveArea_eq (harea : checkArea s.folding area = .ok ()) :
    s.resolveArea area false = .ok (s.areaDir area) := by
  have hlayout := isName_layout
  simp only [List.forall_mem_cons] at hlayout
  obtain ⟨hkeys, hareas, hversion, hobjects, -, -⟩ := hlayout
  rw [resolveArea, resolveStoragePath, checked_ok.mpr harea]
  show s.confined area none (joinPath (s.joinDigest (joinPath (joinPath (joinPath s.base objectStorageArea)
    layoutVersion) objectAreasDirectory) area) objectKeysDirectory) = _
  rw [joinPath_name hobjects, joinPath_name hversion, joinPath_name hareas, joinDigest_eq, joinPath_name hkeys]
  exact confined_of_names (isName_areaDir area) none

/-- The names of an object in the versioned layout. -/
theorem isName_objectPath (area key : Text) : ∀ name ∈ [objectPayloadFile, (s.digest.hex key).drop 2,
    (s.digest.hex key).take 2, objectKeysDirectory, (s.digest.hex area).drop 2, (s.digest.hex area).take 2,
    objectAreasDirectory, layoutVersion, objectStorageArea], IsName name := by
  have hlayout := isName_layout
  have harea := isName_areaDir area (s := s)
  simp only [List.forall_mem_cons] at hlayout harea ⊢
  obtain ⟨-, -, -, -, hpayload, -⟩ := hlayout
  exact ⟨hpayload, isName_drop_hex key, isName_take_hex key, harea⟩

/-- The path of an object is resolved already. -/
theorem resolvePath_objectPath (area key : Text) : resolvePath (s.objectPath area key) = s.objectPath area key :=
  resolvePath_append (isName_objectPath area key) s.base_resolved

/-- **The versioned layout**: an object is where the digests say. -/
theorem resolve_eq (harea : checkArea s.folding area = .ok ()) (hkey : checkSegment key "key" = .ok ()) :
    s.resolve area key = .ok (s.objectPath area key) := by
  have hlayout := isName_layout
  simp only [List.forall_mem_cons] at hlayout
  obtain ⟨hkeys, hareas, hversion, hobjects, hpayload, -⟩ := hlayout
  rw [resolve, resolveStoragePath, checked_ok.mpr harea]
  show (checked (checkSegment key "key") >>= _) = _
  rw [checked_ok.mpr hkey]
  show s.confined area key (joinPath (s.joinDigest (joinPath (s.joinDigest (joinPath (joinPath (joinPath s.base
    objectStorageArea) layoutVersion) objectAreasDirectory) area) objectKeysDirectory) key) objectPayloadFile)
      = _
  rw [joinPath_name hobjects, joinPath_name hversion, joinPath_name hareas, joinDigest_eq, joinPath_name hkeys,
    joinDigest_eq, joinPath_name hpayload]
  exact confined_of_names (isName_objectPath area key) key

/-! ## Accepted addresses -/

variable (s) in
/-- The addresses that are accepted. -/
structure Accepts (area key : Text) : Prop where
  checkedArea : checkArea s.folding area = .ok ()
  checkedKey : checkSegment key "key" = .ok ()
  notStaging : area ∈ s.plainAreas → isPlainTemporaryName ((components key).getLastD []) = false

variable (s) in
/-- Where an object is that is not in the versioned layout. -/
def resolveFlat (area key : Text) : Except StorageError Path :=
  if area ∈ s.plainAreas then s.resolvePlain area key else s.resolveLegacy area key

/-- The plain path of an accepted key. -/
theorem resolveFlat_eq (h : s.Accepts area key) : s.resolveFlat area key = .ok (s.plainPath area key) := by
  unfold resolveFlat
  split
  · rename_i hplain
    rw [resolvePlain_eq h.checkedArea h.checkedKey, h.notStaging hplain]
    rfl
  · exact resolveLegacy_eq h.checkedArea h.checkedKey

/-- Strictly inside a directory. -/
def Inside (dir p : Path) : Prop := dir <:+ p ∧ dir ≠ p

instance (dir p : Path) : Decidable (Inside dir p) := inferInstanceAs (Decidable (_ ∧ _))

/-- A longer path is inside. -/
theorem inside_append {names dir : Path} (hnames : names ≠ []) : Inside dir (names ++ dir) :=
  ⟨List.suffix_append names dir, fun heq => hnames (List.self_eq_append_left.mp heq)⟩

/-- **In its area**: an object of the flat layout is below the directory of its area. -/
theorem inside_plainPath (area key : Text) : Inside (area :: s.base) (s.plainPath area key) :=
  inside_append (List.reverse_ne_nil_iff.mpr (components_ne_nil key))

/-- … and below none of those that are kept for other things. -/
theorem not_suffix_plainPath {reserved : Text} (h : area ≠ reserved) :
    ¬ reserved :: s.base <:+ s.plainPath area key := by
  intro hsuffix
  have hsame := List.suffix_of_suffix_length_le hsuffix (inside_plainPath area key).1 (le_of_eq rfl)
  exact h (List.cons.inj (hsame.eq_of_length rfl)).1.symm

/-- The parts of an object's path. -/
theorem objectPath_eq (area key : Text) : s.objectPath area key =
    [objectPayloadFile, (s.digest.hex key).drop 2, (s.digest.hex key).take 2, objectKeysDirectory,
      (s.digest.hex area).drop 2, (s.digest.hex area).take 2, objectAreasDirectory, layoutVersion]
      ++ objectStorageArea :: s.base :=
  rfl

/-- An object is inside its area. -/
theorem inside_objectPath (area key : Text) : Inside (objectStorageArea :: s.base) (s.objectPath area key) := by
  rw [objectPath_eq]
  exact inside_append (List.cons_ne_nil _ _)

/-! ## Two addresses -/

/-- **The flat layout**: two addresses are two paths. -/
theorem plainPath_injective (h : s.plainPath area key = s.plainPath area' key') : area = area' ∧ key = key' := by
  have hnames : area :: components key = area' :: components key' := by
    rw [plainPath_eq, plainPath_eq] at h
    have hreversed := congrArg List.reverse (List.append_cancel_right h)
    simpa using hreversed
  obtain ⟨harea, hkey⟩ := List.cons.inj hnames
  exact ⟨harea, components_injective hkey⟩

/-- **A key below another** is in a directory of the other's name. -/
theorem inside_plainPath_of_isBelow (h : IsBelow key' key) :
    Inside (s.plainPath area key) (s.plainPath area key') := by
  obtain ⟨hbegins, hne⟩ := isBelow_iff.mp h
  refine ⟨?_, fun heq => hne (plainPath_injective heq).2⟩
  obtain ⟨names, hnames⟩ := List.reverse_suffix.mpr hbegins
  rw [plainPath, plainPath, ← hnames, List.append_assoc]
  exact List.suffix_append names _

/-- A digest is known by its parts. -/
theorem hex_of_parts {value value' : Text} (htake : (s.digest.hex value).take 2 = (s.digest.hex value').take 2)
    (hdrop : (s.digest.hex value).drop 2 = (s.digest.hex value').drop 2) :
    s.digest.hex value = s.digest.hex value' := by
  rw [← List.take_append_drop 2 (s.digest.hex value), htake, hdrop, List.take_append_drop]

/-- **The versioned layout**: two addresses are two paths, unless their digests are the same. -/
theorem objectPath_injective (h : s.objectPath area key = s.objectPath area' key') :
    s.digest.hex area = s.digest.hex area' ∧ s.digest.hex key = s.digest.hex key' := by
  rw [objectPath_eq, objectPath_eq] at h
  have hnames := List.append_cancel_right h
  simp only [List.cons.injEq, true_and, and_true] at hnames
  obtain ⟨hdropKey, htakeKey, hdropArea, htakeArea⟩ := hnames
  exact ⟨hex_of_parts htakeArea hdropArea, hex_of_parts htakeKey hdropKey⟩

/-- An object stands nine levels below the root. -/
theorem length_objectPath (area key : Text) : (s.objectPath area key).length = s.base.length + 9 := by
  rw [objectPath_eq, List.length_append, List.length_cons]
  simp only [List.length_cons, List.length_nil]
  omega

/-- Objects of the versioned layout are equally deep. -/
theorem not_inside_objectPath (area key area' key' : Text) :
    ¬ Inside (s.objectPath area key) (s.objectPath area' key') := by
  rintro ⟨hsuffix, hne⟩
  refine hne (hsuffix.eq_of_length ?_)
  rw [length_objectPath, length_objectPath]

end LocalStorage

end Jasil.Objects
