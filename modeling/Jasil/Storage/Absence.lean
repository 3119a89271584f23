import Jasil.Storage.LocalStorage

/-! # Absent objects
An object that does not exist is absent for every call, whatever lies around its address, as long as its name
can be asked for and the area can be walked through.

* **`Absent`**: what every call says of an object that is absent, and what it leaves on disk.
* **`Walkable`**, **`Listable`**: a walk through a directory, and through an area in each layout, raises nothing.
* **`stored_of_listed`**: what is listed has a payload and an accepted key.
* **`absent_iff`**: what does not exist is absent exactly when its name is not too long for a plain area, and
  the area can be listed unless something is below the address. -/

namespace Jasil.Objects

open State (Bytes)

/-! ## Generators -/

/-- Everything is consumed when no step is an error. -/
theorem consume_ok {ε α : Type} {steps : List (Except ε α)} :
    (∃ as, consume steps = .ok as) ↔ ∀ e, .error e ∉ steps := by
  induction steps with
  | nil => exact iff_of_true ⟨[], rfl⟩ fun _ => List.not_mem_nil
  | cons step rest ih =>
    cases step with
    | error e => exact iff_of_false (by rintro ⟨_, ⟨⟩⟩) fun h => h e List.mem_cons_self
    | ok a =>
      have hrest : (∃ as, consume (.ok a :: rest) = .ok as) ↔ ∃ as, consume rest = .ok as := by
        rw [consume]
        cases consume rest with
        | error e => exact iff_of_false (by rintro ⟨_, ⟨⟩⟩) (by rintro ⟨_, ⟨⟩⟩)
        | ok as => exact iff_of_true ⟨_, rfl⟩ ⟨_, rfl⟩
      rw [hrest, ih]
      refine forall_congr' fun e => not_congr ?_
      rw [List.mem_cons, or_iff_right]
      rintro ⟨⟩

/-- What was consumed was yielded. -/
theorem mem_of_consume {ε α : Type} {steps : List (Except ε α)} {as : List α} (h : consume steps = .ok as)
    {a : α} (ha : a ∈ as) : .ok a ∈ steps := by
  induction steps generalizing as with
  | nil =>
    cases h
    cases ha
  | cons step rest ih =>
    cases step with
    | error e => cases h
    | ok first =>
      rw [consume] at h
      split at h
      · rename_i others hothers
        cases h
        rcases List.mem_cons.mp ha with rfl | ha
        · exact List.mem_cons_self
        · exact List.mem_cons_of_mem _ (ih hothers ha)
      · cases h

/-- An error is yielded whatever was seen. -/
theorem error_mem_unseen {seen : List Text} {steps : List (Except StorageError (Text × ℚ))} {e : StorageError} :
    .error e ∈ unseen seen steps ↔ .error e ∈ steps := by
  induction steps generalizing seen with
  | nil => rfl
  | cons step rest ih =>
    cases step with
    | error first => rw [unseen, List.mem_cons, List.mem_cons, ih]
    | ok object =>
      obtain ⟨key, modified⟩ := object
      rw [unseen, List.mem_cons]
      split
      · rw [ih, or_iff_right]
        rintro ⟨⟩
      · rw [List.mem_cons, ih]

/-- What is yielded as unseen was yielded. -/
theorem mem_of_mem_unseen {seen : List Text} {steps : List (Except StorageError (Text × ℚ))} {object : Text × ℚ}
    (h : .ok object ∈ unseen seen steps) : .ok object ∈ steps := by
  induction steps generalizing seen with
  | nil => cases h
  | cons step rest ih =>
    cases step with
    | error first =>
      rw [unseen] at h
      rcases List.mem_cons.mp h with ⟨⟨⟩⟩ | h
      exact List.mem_cons_of_mem _ (ih h)
    | ok first =>
      obtain ⟨key, modified⟩ := first
      rw [unseen] at h
      split at h
      · exact List.mem_cons_of_mem _ (ih h)
      · rcases List.mem_cons.mp h with heq | h
        · rw [heq]
          exact List.mem_cons_self
        · exact List.mem_cons_of_mem _ (ih h)

namespace LocalStorage

variable (s : LocalStorage) (disk : Disk) (area key : Text)

/-! ## What there has to be -/

/-- Nothing is stored below the address, under a key that is accepted. -/
def NoDescendants : Prop :=
  ∀ key', checkSegment key' "key" = .ok () → IsBelow key' key → ¬ s.Stored disk area key'

/-- **An absent object**: what each call says of it, and that nothing is changed. -/
structure Absent : Prop where
  get : s.get disk area key = .ok none
  openStream : ∀ offset length, 0 ≤ offset → (∀ n ∈ length, 0 ≤ n) →
    s.openStream disk area key offset length = .error (.notFound area key)
  stat : s.stat disk area key = .ok none
  serve : s.serve disk area key = .error (.notFound area key)
  delete : (s.delete area key).on disk = (.ok (), disk)
  deletePrefix : s.NoDescendants disk area key → (s.deletePrefix area key).on disk = (.ok 0, disk)

/-- A walk through a directory raises nothing, as far as it looks at what it meets. -/
structure Walkable (dir : Path) (skipped : Path → Bool) : Prop where
  notDirectory : disk.stat s.limits dir ≠ .error .notDirectory
  nameTooLong : disk.stat s.limits dir ≠ .error .nameTooLong
  inside : ∀ p ∈ disk.walk s.limits dir, skipped p = false → disk.stat s.limits p ≠ .error .nameTooLong

/-- Beside every payload below a directory the key can be read, or there is none. -/
def KeysReadable (dir : Path) : Prop :=
  ∀ p ∈ disk.walk s.limits dir, p.head? = some objectPayloadFile
    → (∃ data, disk.stat s.limits p = .ok (.file data)) →
    ∀ e, disk.readText s.limits (keyFileBeside p) = .error (.os e) → e = .missing

/-- Where a file of a legacy area has a payload in the versioned layout too, that has its identity. -/
def LegacyIdentified (start : Text) : Prop :=
  ∀ p ∈ disk.walk s.limits (area :: s.base), (∃ data, disk.stat s.limits p = .ok (.file data)) →
    start <+: relativeKey (area :: s.base) p → checkSegment (relativeKey (area :: s.base) p) "key" = .ok () →
    (∃ data, disk.stat s.limits (s.objectPath area (relativeKey (area :: s.base) p)) = .ok (.file data)) →
    disk.readText s.limits (s.areaFile area) = .ok area ∧
      disk.readText s.limits (s.keyFile area (relativeKey (area :: s.base) p))
        = .ok (relativeKey (area :: s.base) p)

/-- **A listing raises nothing.** -/
structure Listable (start : Text) : Prop where
  plain : area ∈ s.plainAreas → s.Walkable disk (area :: s.base) fun p => isPlainTemporaryName (p.headD [])
  notDirectory : disk.stat s.limits (s.areaDir area) ≠ .error .notDirectory
  nameTooLong : disk.stat s.limits (s.areaDir area) ≠ .error .nameTooLong
  /-- The directory of an area has its identity, or none. -/
  identity : disk.stat s.limits (s.areaDir area) = .ok .directory →
    disk.readText s.limits (s.areaFile area) = .error (.os .missing) ∨
      disk.readText s.limits (s.areaFile area) = .ok area ∧ s.Walkable disk (s.areaDir area) (fun _ => false) ∧
        s.KeysReadable disk (s.areaDir area)
  legacy : s.legacyLayout = true → area ∉ s.plainAreas →
    s.Walkable disk (area :: s.base) (fun _ => false) ∧ s.LegacyIdentified disk area start

/-- **Nothing is in the way** of an object that does not exist. -/
structure Clear : Prop where
  name : area ∈ s.plainAreas → disk.stat s.limits (s.plainPath area key) ≠ .error .nameTooLong
  listable : s.NoDescendants disk area key → s.Listable disk area key

variable {s disk area key} {start : Text} {dir p : Path} {e : StorageError} {modified : ℚ}

/-! ## What is met on a walk -/

/-- What is met resolves to itself, inside the directory. -/
theorem resolvePath_walked (hp : p ∈ disk.walk s.limits dir) : resolvePath p = p ∧ dir <:+ p := by
  obtain ⟨hsuffix, -, ⟨node, hfind⟩, -⟩ := FileTree.mem_walk.mp hp
  have hnames : ∀ name ∈ p, IsName name :=
      fun name hname => s.names name (FileTree.name_of_find hfind name hname)
  have hresolved := @resolvePath_append p [] hnames rfl
  rw [List.append_nil] at hresolved
  exact ⟨hresolved, hsuffix⟩

/-- What a walk finds has no other path. -/
theorem not_moved (hp : p ∈ disk.walk s.limits dir) : ¬(resolvePath p ≠ p ∨ ¬ dir <:+ resolvePath p) := by
  obtain ⟨hresolved, hsuffix⟩ := resolvePath_walked hp
  rw [hresolved]
  rintro (hne | hne)
  · exact hne rfl
  · exact hne hsuffix

/-- What has a status is no symbolic link. -/
theorem isSymlink_ok {node : Node FileData} (hstat : disk.stat s.limits p = .ok node) :
    disk.isSymlink s.limits p = .ok false := by
  rw [Disk.isSymlink, Disk.exists?, hstat]
  rfl

/-- A name that is too long has no status as a link either. -/
theorem isSymlink_error (hstat : disk.stat s.limits p = .error .nameTooLong) :
    disk.isSymlink s.limits p = .error .nameTooLong := by
  rw [Disk.isSymlink, Disk.exists?, hstat]
  rfl

/-- A walk meets nothing unless it is through a directory. -/
theorem stat_of_walk (hp : p ∈ disk.walk s.limits dir) : disk.stat s.limits dir = .ok .directory := by
  obtain ⟨hsuffix, hne, ⟨node, hfind⟩, hpath⟩ := FileTree.mem_walk.mp hp
  have hparent : dir <:+ p.tail := by
    cases p with
    | nil => exact absurd (List.suffix_nil.mp hsuffix) hne
    | cons n p => exact (List.suffix_cons_iff.mp hsuffix).resolve_left hne
  exact FileTree.stat_eq_ok.mpr ⟨FileTree.path_suffix hpath hparent, FileTree.find_suffix hfind hsuffix hne⟩

/-- **In a plain area** a walk makes an object of a file with a checked key. -/
theorem plainCandidate_eq (hp : p ∈ disk.walk s.limits dir) (hname : isPlainTemporaryName (p.headD []) = false) :
    s.plainCandidate disk start dir p = match disk.stat s.limits p with
      | .ok (.file data) =>
        match checkSegment (relativeKey dir p) "key" with
        | .error _ => none
        | .ok () => if start <+: relativeKey dir p then some (.ok (relativeKey dir p, data.modified)) else none
      | .ok .directory => none
      | .error _ => some (.error backendUnavailable) := by
  rw [plainCandidate, hname, if_neg Bool.false_ne_true]
  rcases FileTree.stat_of_mem_walk hp with ⟨node, hstat⟩ | hstat
  · rw [isSymlink_ok hstat]
    dsimp only
    rw [if_neg (not_moved hp), hstat]
    cases node with
    | file data => rfl
    | directory => rfl
  · rw [isSymlink_error hstat, hstat]

/-- **In a legacy area** it makes one of a file that is not in the versioned layout. -/
theorem legacyCandidate_eq (hp : p ∈ disk.walk s.limits dir) :
    s.legacyCandidate disk area start dir p = match disk.stat s.limits p with
      | .ok (.file data) =>
        if start <+: relativeKey dir p then
          match s.currentObjectPath disk area (relativeKey dir p) with
          | .ok (some _) => none
          | .ok none => some (.ok (relativeKey dir p, data.modified))
          | .error (.value _) => none
          | .error e => some (.error e)
        else none
      | .ok .directory => none
      | .error _ => some (.error backendUnavailable) := by
  rw [legacyCandidate]
  rcases FileTree.stat_of_mem_walk hp with ⟨node, hstat⟩ | hstat
  · rw [isSymlink_ok hstat]
    dsimp only
    rw [if_neg (not_moved hp), hstat]
    cases node with
    | file data => rfl
    | directory => rfl
  · rw [isSymlink_error hstat, hstat]

/-- **In the versioned layout** it makes one of a payload beside its key. -/
theorem opaqueCandidate_eq (hp : p ∈ disk.walk s.limits dir) :
    s.opaqueCandidate disk area start dir p = match disk.stat s.limits p with
      | .ok (.file data) =>
        if p.head? = some objectPayloadFile then
          match disk.readText s.limits (keyFileBeside p) with
          | .error (.os .missing) => none
          | .error (.os _) => some (.error backendUnavailable)
          | .error .undecodable => none
          | .ok key =>
            match checkSegment key "key" with
            | .error _ => none
            | .ok () =>
              match s.resolve area key with
              | .error e => some (.error e)
              | .ok path => if p = path ∧ start <+: key then some (.ok (key, data.modified)) else none
        else none
      | .ok .directory => none
      | .error _ => some (.error backendUnavailable) := by
  rw [opaqueCandidate]
  rcases FileTree.stat_of_mem_walk hp with ⟨node, hstat⟩ | hstat
  · rw [isSymlink_ok hstat]
    dsimp only
    by_cases hhead : p.head? = some objectPayloadFile
    · have hplace : ¬(resolvePath p ≠ p ∨ ¬ dir <:+ resolvePath p ∨ p.head? ≠ some objectPayloadFile) := by
        rw [← or_assoc]
        exact not_or.mpr ⟨not_moved hp, not_not.mpr hhead⟩
      rw [if_neg hplace, hstat]
      cases node with
      | file data =>
        dsimp only
        exact (if_pos hhead).symm
      | directory => rfl
    · rw [if_pos (.inr (.inr hhead)), hstat]
      cases node with
      | file data => exact (if_neg hhead).symm
      | directory => rfl
  · rw [isSymlink_error hstat, hstat]

/-! ## What is listed has a payload -/

/-- The components of names that are joined. -/
theorem components_intercalate {names : List Text} (hne : names ≠ []) (hslash : ∀ name ∈ names, '/' ∉ name) :
    components (['/'].intercalate names) = names :=
  List.splitOn_intercalate '/' hslash hne

/-- A path below an area is that of its key. -/
theorem plainPath_relativeKey (hp : p ∈ disk.walk s.limits (area :: s.base)) :
    s.plainPath area (relativeKey (area :: s.base) p) = p ∧
      (components (relativeKey (area :: s.base) p)).getLastD [] = p.headD [] := by
  obtain ⟨⟨names, rfl⟩, hne, ⟨node, hfind⟩, -⟩ := FileTree.mem_walk.mp hp
  have hsome : names ≠ [] := by
    rintro rfl
    exact hne rfl
  have htake : (names ++ area :: s.base).take ((names ++ area :: s.base).length - (area :: s.base).length)
      = names := by
    rw [List.length_append, Nat.add_sub_cancel, List.take_left]
  have hcomponents : components (relativeKey (area :: s.base) (names ++ area :: s.base)) = names.reverse := by
    rw [relativeKey, htake]
    refine components_intercalate (List.reverse_ne_nil_iff.mpr hsome) fun name hname => ?_
    exact (s.names name (FileTree.name_of_find hfind name
      (List.mem_append_left _ (List.mem_reverse.mp hname)))).slash
  rw [plainPath, hcomponents, List.reverse_reverse]
  refine ⟨rfl, ?_⟩
  obtain ⟨first, rest, rfl⟩ := List.exists_cons_of_ne_nil hsome
  simp

/-- A plain file that is listed is stored, under a key that is accepted. -/
theorem stored_of_plainCandidate {object : Text × ℚ} (hplain : area ∈ s.plainAreas)
    (hp : p ∈ disk.walk s.limits (area :: s.base))
    (h : s.plainCandidate disk start (area :: s.base) p = some (.ok object)) :
    checkSegment object.1 "key" = .ok () ∧ s.Stored disk area object.1 := by
  cases hname : isPlainTemporaryName (p.headD []) with
  | true =>
    rw [plainCandidate, hname] at h
    cases h
  | false =>
    rw [plainCandidate_eq hp hname] at h
    obtain ⟨hpath, hlast⟩ := plainPath_relativeKey hp
    split at h
    · rename_i data hstat
      split at h
      · cases h
      · rename_i hkey
        split at h
        · cases h
          refine ⟨hkey, .inr ⟨?_, data, hpath.symm ▸ hstat⟩⟩
          rw [FlatUsed, if_pos hplain, hlast, hname]
        · cases h
    · cases h
    · cases h

/-- So is one of the legacy layout. -/
theorem stored_of_legacyCandidate {object : Text × ℚ} (hplain : area ∉ s.plainAreas)
    (hlegacy : s.legacyLayout = true) (harea : checkArea s.folding area = .ok ())
    (hp : p ∈ disk.walk s.limits (area :: s.base))
    (h : s.legacyCandidate disk area start (area :: s.base) p = some (.ok object)) :
    checkSegment object.1 "key" = .ok () ∧ s.Stored disk area object.1 := by
  rw [legacyCandidate_eq hp] at h
  obtain ⟨hpath, -⟩ := plainPath_relativeKey hp
  split at h
  · rename_i data hstat
    split at h
    · split at h
      · cases h
      · rename_i hcurrent
        cases h
        refine ⟨?_, .inr ⟨by rwa [FlatUsed, if_neg hplain], data, hpath.symm ▸ hstat⟩⟩
        cases hkey : checkSegment (relativeKey (area :: s.base) p) "key" with
        | ok _ => rfl
        | error e =>
          rw [currentObjectPath_value harea hkey] at hcurrent
          cases hcurrent
      · cases h
      · cases h
    · cases h
  · cases h
  · cases h

/-- So is one of the opaque layout. -/
theorem stored_of_opaqueCandidate {object : Text × ℚ} (harea : checkArea s.folding area = .ok ())
    (hp : p ∈ disk.walk s.limits dir) (h : s.opaqueCandidate disk area start dir p = some (.ok object)) :
    checkSegment object.1 "key" = .ok () ∧ s.Stored disk area object.1 := by
  rw [opaqueCandidate_eq hp] at h
  split at h
  · rename_i data hstat
    split at h
    · split at h
      · cases h
      · cases h
      · cases h
      · rename_i key hkeyText
        split at h
        · cases h
        · rename_i hkey
          rw [resolve_eq harea hkey] at h
          dsimp only at h
          split at h
          · rename_i hfound
            cases h
            exact ⟨hkey, .inl ⟨data, hfound.1 ▸ hstat⟩⟩
          · cases h
    · cases h
  · cases h
  · cases h

/-- What is listed of the directory of an area. -/
theorem mem_flatObjects (harea : checkArea s.folding area = .ok ())
    {candidate : Path → Path → Option (Except StorageError (Text × ℚ))} {step : Except StorageError (Text × ℚ)} :
    step ∈ s.flatObjects disk area candidate ↔
      (∃ errno, disk.stat s.limits (area :: s.base) = .error errno ∧ errno ≠ .missing ∧
        step = .error backendUnavailable) ∨
      ∃ p ∈ disk.walk s.limits (area :: s.base), candidate (area :: s.base) p = some step := by
  have hnone (hstat : disk.stat s.limits (area :: s.base) ≠ .ok .directory) :
      ¬ ∃ p ∈ disk.walk s.limits (area :: s.base), candidate (area :: s.base) p = some step := by
    rintro ⟨p, hp, -⟩
    exact hstat (stat_of_walk hp)
  rw [flatObjects, resolveArea_flat harea]
  dsimp only
  cases hstat : disk.stat s.limits (area :: s.base) with
  | ok node =>
    cases node with
    | file data =>
      refine iff_of_false List.not_mem_nil ?_
      rintro (⟨_, ⟨⟩, -⟩ | h)
      exact hnone (by rw [hstat]; rintro ⟨⟩) h
    | directory =>
      rw [List.mem_filterMap, or_iff_right]
      rintro ⟨_, ⟨⟩, -⟩
  | error errno =>
    rw [or_iff_left (hnone (by rw [hstat]; rintro ⟨⟩))]
    -- an area that nothing was saved in yet has no directory
    by_cases hmissing : errno = .missing
    · subst hmissing
      refine iff_of_false List.not_mem_nil ?_
      rintro ⟨_, ⟨⟩, hne, -⟩
      exact hne rfl
    · have hstep : (∃ errno', Except.error errno = (.error errno' : Except Errno (Node FileData))
          ∧ errno' ≠ .missing ∧
          step = .error backendUnavailable) ↔ step = .error backendUnavailable := by
        constructor
        · rintro ⟨_, -, -, h⟩
          exact h
        · exact fun h => ⟨errno, rfl, hmissing, h⟩
      rw [hstep]
      cases errno with
      | missing => exact absurd rfl hmissing
      | _ => exact List.mem_singleton

/-- What is listed of the opaque layout is stored. -/
theorem stored_of_iterOpaqueObjects {object : Text × ℚ} (harea : checkArea s.folding area = .ok ())
    (h : .ok object ∈ s.iterOpaqueObjects disk area start) :
    checkSegment object.1 "key" = .ok () ∧ s.Stored disk area object.1 := by
  rw [iterOpaqueObjects, resolveArea_eq harea] at h
  dsimp only at h
  split at h
  · cases h
  · cases List.mem_singleton.mp h
  · cases h
  · split at h
    · cases h
    · cases List.mem_singleton.mp h
    · cases List.mem_singleton.mp h
    · split at h
      · cases List.mem_singleton.mp h
      · obtain ⟨p, hp, hcandidate⟩ := List.mem_filterMap.mp h
        exact stored_of_opaqueCandidate harea hp hcandidate

/-- **What is listed has a payload**, and a key that is accepted. -/
theorem stored_of_listed {object : Text × ℚ} (harea : checkArea s.folding area = .ok ())
    (h : .ok object ∈ s.objects disk area start) :
    checkSegment object.1 "key" = .ok () ∧ s.Stored disk area object.1 := by
  rcases List.mem_append.mp h with h | h
  · rcases List.mem_append.mp h with h | h
    · split at h
      · rename_i hplain
        rcases (mem_flatObjects harea).mp h with ⟨_, _, _, ⟨⟩⟩ | ⟨p, hp, hcandidate⟩
        exact stored_of_plainCandidate hplain hp hcandidate
      · cases h
    · exact stored_of_iterOpaqueObjects harea (mem_of_mem_unseen h)
  · split at h
    · rename_i hused
      rcases (mem_flatObjects harea).mp h with ⟨_, _, _, ⟨⟩⟩ | ⟨p, hp, hcandidate⟩
      exact stored_of_legacyCandidate hused.2 hused.1 harea hp hcandidate
    · cases h

/-! ## What a listing raises -/

/-- A plain file raises when its status does. -/
theorem plainCandidate_error (hp : p ∈ disk.walk s.limits dir) :
    (∃ e, s.plainCandidate disk start dir p = some (.error e)) ↔
      isPlainTemporaryName (p.headD []) = false ∧ disk.stat s.limits p = .error .nameTooLong := by
  cases hname : isPlainTemporaryName (p.headD []) with
  | true =>
    refine iff_of_false ?_ (by rintro ⟨⟨⟩, -⟩)
    rw [plainCandidate, hname]
    rintro ⟨_, ⟨⟩⟩
  | false =>
    rw [plainCandidate_eq hp hname, and_iff_right rfl]
    rcases FileTree.stat_of_mem_walk hp with ⟨node, hstat⟩ | hstat
    · rw [hstat]
      refine iff_of_false ?_ (by rintro ⟨⟩)
      rintro ⟨e, he⟩
      cases node with
      | file data =>
        dsimp only at he
        split at he
        · cases he
        · split at he
          · cases he
          · cases he
      | directory => cases he
    · rw [hstat]
      exact iff_of_true ⟨_, rfl⟩ rfl

/-- So does one of the opaque layout. -/
theorem opaqueCandidate_error (harea : checkArea s.folding area = .ok ()) (hp : p ∈ disk.walk s.limits dir) :
    (∃ e, s.opaqueCandidate disk area start dir p = some (.error e)) ↔
      disk.stat s.limits p = .error .nameTooLong ∨
        p.head? = some objectPayloadFile ∧ (∃ data, disk.stat s.limits p = .ok (.file data)) ∧
          ∃ errno, disk.readText s.limits (keyFileBeside p) = .error (.os errno) ∧ errno ≠ .missing := by
  rw [opaqueCandidate_eq hp]
  rcases FileTree.stat_of_mem_walk hp with ⟨node, hstat⟩ | hstat
  · rw [hstat, or_iff_right (by rintro ⟨⟩)]
    cases node with
    | directory =>
      refine iff_of_false ?_ ?_
      · rintro ⟨_, ⟨⟩⟩
      · rintro ⟨-, ⟨_, ⟨⟩⟩, -⟩
    | file data =>
      dsimp only
      split
      · rename_i hhead
        rw [and_iff_right hhead, and_iff_right ⟨data, rfl⟩]
        split
        · rename_i hread
          refine iff_of_false (by rintro ⟨_, ⟨⟩⟩) ?_
          rintro ⟨errno, herrno, hne⟩
          cases hread.symm.trans herrno
          exact hne rfl
        · rename_i errno hne hread
          exact iff_of_true ⟨_, rfl⟩ ⟨errno, hread, hne⟩
        · rename_i hread
          refine iff_of_false (by rintro ⟨_, ⟨⟩⟩) ?_
          rintro ⟨errno, herrno, -⟩
          cases hread.symm.trans herrno
        · rename_i key hread
          refine iff_of_false ?_ ?_
          · rintro ⟨e, he⟩
            split at he
            · cases he
            · rename_i hkey
              rw [resolve_eq harea hkey] at he
              dsimp only at he
              split at he
              · cases he
              · cases he
          · rintro ⟨errno, herrno, -⟩
            cases hread.symm.trans herrno
      · rename_i hhead
        exact iff_of_false (by rintro ⟨_, ⟨⟩⟩) fun h => hhead h.1
  · rw [hstat]
    exact iff_of_true ⟨_, rfl⟩ (.inl rfl)

/-- So does one of the legacy layout. -/
theorem legacyCandidate_error (harea : checkArea s.folding area = .ok ()) (hp : p ∈ disk.walk s.limits dir) :
    (∃ e, s.legacyCandidate disk area start dir p = some (.error e)) ↔
      disk.stat s.limits p = .error .nameTooLong ∨
        (∃ data, disk.stat s.limits p = .ok (.file data)) ∧ start <+: relativeKey dir p ∧
          checkSegment (relativeKey dir p) "key" = .ok () ∧
          (∃ data, disk.stat s.limits (s.objectPath area (relativeKey dir p)) = .ok (.file data)) ∧
          ¬(disk.readText s.limits (s.areaFile area) = .ok area ∧
            disk.readText s.limits (s.keyFile area (relativeKey dir p)) = .ok (relativeKey dir p)) := by
  rw [legacyCandidate_eq hp]
  rcases FileTree.stat_of_mem_walk hp with ⟨node, hstat⟩ | hstat
  · rw [hstat, or_iff_right (by rintro ⟨⟩)]
    cases node with
    | directory =>
      refine iff_of_false ?_ ?_
      · rintro ⟨_, ⟨⟩⟩
      · rintro ⟨⟨_, ⟨⟩⟩, -⟩
    | file data =>
      dsimp only
      rw [and_iff_right ⟨data, rfl⟩]
      split
      · rename_i hstart
        rw [and_iff_right hstart]
        cases hkey : checkSegment (relativeKey dir p) "key" with
        | error e =>
          rw [currentObjectPath_value harea hkey]
          refine iff_of_false ?_ ?_
          · rintro ⟨_, ⟨⟩⟩
          · rintro ⟨⟨⟩, -⟩
        | ok u =>
          rw [and_iff_right rfl]
          by_cases hpayload : ∃ data, disk.stat s.limits (s.objectPath area (relativeKey dir p))
            = .ok (.file data)
          · rw [and_iff_right hpayload]
            by_cases hidentity : disk.readText s.limits (s.areaFile area) = .ok area ∧
                disk.readText s.limits (s.keyFile area (relativeKey dir p)) = .ok (relativeKey dir p)
            · rw [(currentObjectPath_some harea hkey).mpr ⟨rfl, hpayload, hidentity⟩]
              refine iff_of_false ?_ fun h => h hidentity
              rintro ⟨_, ⟨⟩⟩
            · obtain ⟨message, hmessage⟩ := currentObjectPath_unavailable harea hkey hpayload hidentity
              rw [hmessage]
              exact iff_of_true ⟨_, rfl⟩ hidentity
          · rw [(currentObjectPath_none harea hkey).mpr fun data hdata => hpayload ⟨data, hdata⟩]
            refine iff_of_false ?_ fun h => hpayload h.1
            rintro ⟨_, ⟨⟩⟩
      · rename_i hstart
        refine iff_of_false ?_ fun h => hstart h.1
        rintro ⟨_, ⟨⟩⟩
  · rw [hstat]
    exact iff_of_true ⟨_, rfl⟩ (.inl rfl)

/-- A listing raises when one of its files does. -/
theorem flatObjects_error (harea : checkArea s.folding area = .ok ())
    {candidate : Path → Path → Option (Except StorageError (Text × ℚ))} :
    (∀ e, .error e ∉ s.flatObjects disk area candidate) ↔
      disk.stat s.limits (area :: s.base) ≠ .error .notDirectory ∧
        disk.stat s.limits (area :: s.base) ≠ .error .nameTooLong ∧
        ∀ p ∈ disk.walk s.limits (area :: s.base), ¬ ∃ e, candidate (area :: s.base) p = some (.error e) := by
  constructor
  · intro h
    refine ⟨fun hstat => ?_, fun hstat => ?_, ?_⟩
    · exact h _ ((mem_flatObjects harea).mpr (.inl ⟨_, hstat, by decide, rfl⟩))
    · exact h _ ((mem_flatObjects harea).mpr (.inl ⟨_, hstat, by decide, rfl⟩))
    · rintro p hp ⟨e, he⟩
      exact h e ((mem_flatObjects harea).mpr (.inr ⟨p, hp, he⟩))
  · rintro ⟨hdirectory, hlong, hinside⟩ e he
    rcases (mem_flatObjects harea).mp he with ⟨errno, hstat, hne, -⟩ | ⟨p, hp, hcandidate⟩
    · rcases FileTree.stat_error hstat with rfl | rfl | rfl
      · exact hne rfl
      · exact hdirectory hstat
      · exact hlong hstat
    · exact hinside p hp ⟨e, hcandidate⟩

/-- A plain area is walked through without an error. -/
theorem plain_listable (harea : checkArea s.folding area = .ok ()) :
    (∀ e, .error e ∉ s.flatObjects disk area (s.plainCandidate disk start)) ↔
      s.Walkable disk (area :: s.base) fun p => isPlainTemporaryName (p.headD []) := by
  rw [flatObjects_error harea]
  constructor
  · rintro ⟨hdirectory, hlong, hinside⟩
    exact ⟨hdirectory, hlong, fun p hp hname hstat =>
      hinside p hp ((plainCandidate_error hp).mpr ⟨hname, hstat⟩)⟩
  · rintro ⟨hdirectory, hlong, hinside⟩
    refine ⟨hdirectory, hlong, fun p hp herror => ?_⟩
    obtain ⟨hname, hstat⟩ := (plainCandidate_error hp).mp herror
    exact hinside p hp hname hstat

/-- A legacy area is. -/
theorem legacy_listable (harea : checkArea s.folding area = .ok ()) :
    (∀ e, .error e ∉ s.flatObjects disk area (s.legacyCandidate disk area start)) ↔
      s.Walkable disk (area :: s.base) (fun _ => false) ∧ s.LegacyIdentified disk area start := by
  rw [flatObjects_error harea]
  constructor
  · rintro ⟨hdirectory, hlong, hinside⟩
    refine ⟨⟨hdirectory, hlong, fun p hp _ hstat => ?_⟩, fun p hp hfile hstart hkey hpayload => ?_⟩
    · exact hinside p hp ((legacyCandidate_error harea hp).mpr (.inl hstat))
    · by_contra hidentity
      exact hinside p hp ((legacyCandidate_error harea hp).mpr (.inr ⟨hfile, hstart, hkey, hpayload, hidentity⟩))
  · rintro ⟨⟨hdirectory, hlong, hinside⟩, hidentity⟩
    refine ⟨hdirectory, hlong, fun p hp herror => ?_⟩
    rcases (legacyCandidate_error harea hp).mp herror with hstat | ⟨hfile, hstart, hkey, hpayload, hnot⟩
    · exact hinside p hp rfl hstat
    · exact hnot (hidentity p hp hfile hstart hkey hpayload)

/-- The versioned layout is, once the area is identified. -/
theorem opaque_walkable (harea : checkArea s.folding area = .ok ())
    (hstat : disk.stat s.limits (s.areaDir area) = .ok .directory) :
    (∀ e, .error e ∉ (disk.walk s.limits (s.areaDir area)).filterMap
        (s.opaqueCandidate disk area start (s.areaDir area))) ↔
      s.Walkable disk (s.areaDir area) (fun _ => false) ∧ s.KeysReadable disk (s.areaDir area) := by
  constructor
  · intro h
    have hnone (p : Path) (hp : p ∈ disk.walk s.limits (s.areaDir area)) :
        ¬ ∃ e, s.opaqueCandidate disk area start (s.areaDir area) p = some (.error e) := by
      rintro ⟨e, he⟩
      exact h e (List.mem_filterMap.mpr ⟨p, hp, he⟩)
    refine ⟨⟨by rw [hstat]; rintro ⟨⟩, by rw [hstat]; rintro ⟨⟩, fun p hp _ hlong => ?_⟩,
      fun p hp hhead hfile e he => ?_⟩
    · exact hnone p hp ((opaqueCandidate_error harea hp).mpr (.inl hlong))
    · by_contra hne
      exact hnone p hp ((opaqueCandidate_error harea hp).mpr (.inr ⟨hhead, hfile, e, he, hne⟩))
  · rintro ⟨⟨-, -, hinside⟩, hkeys⟩ e he
    obtain ⟨p, hp, hcandidate⟩ := List.mem_filterMap.mp he
    rcases (opaqueCandidate_error harea hp).mp ⟨e, hcandidate⟩ with hlong | ⟨hhead, hfile, errno, herrno, hne⟩
    · exact hinside p hp rfl hlong
    · exact hne (hkeys p hp hhead hfile errno herrno)

/-- The versioned layout is, where the area has its identity or none. -/
theorem opaque_listable (harea : checkArea s.folding area = .ok ()) :
    (∀ e, .error e ∉ s.iterOpaqueObjects disk area start) ↔
      disk.stat s.limits (s.areaDir area) ≠ .error .notDirectory ∧
      disk.stat s.limits (s.areaDir area) ≠ .error .nameTooLong ∧
      (disk.stat s.limits (s.areaDir area) = .ok .directory →
        disk.readText s.limits (s.areaFile area) = .error (.os .missing) ∨
          disk.readText s.limits (s.areaFile area) = .ok area
            ∧ s.Walkable disk (s.areaDir area) (fun _ => false) ∧
            s.KeysReadable disk (s.areaDir area)) := by
  have hareaFile : joinPath (s.areaDir area).tail objectAreaFile = s.areaFile area :=
      joinPath_name isName_identities.1 _
  rw [iterOpaqueObjects, resolveArea_eq harea]
  dsimp only
  rw [hareaFile]
  cases hstat : disk.stat s.limits (s.areaDir area) with
  | error errno =>
    rcases FileTree.stat_error hstat with rfl | rfl | rfl
    · exact iff_of_true (fun _ => List.not_mem_nil) ⟨by rintro ⟨⟩, by rintro ⟨⟩, by rintro ⟨⟩⟩
    · exact iff_of_false (fun h => h _ (List.mem_singleton_self _)) fun h => h.1 rfl
    · exact iff_of_false (fun h => h _ (List.mem_singleton_self _)) fun h => h.2.1 rfl
  | ok node =>
    cases node with
    | file data => exact iff_of_true (fun _ => List.not_mem_nil) ⟨by rintro ⟨⟩, by rintro ⟨⟩, by rintro ⟨⟩⟩
    | directory =>
      rw [and_iff_right (by rintro ⟨⟩), and_iff_right (by rintro ⟨⟩), forall_prop_of_true rfl]
      dsimp only
      cases hread : disk.readText s.limits (s.areaFile area) with
      | error failure =>
        -- an area that cannot be identified is refused, unless nothing says whose it is
        rw [or_iff_left (by rintro ⟨⟨⟩, -⟩)]
        cases failure with
        | undecodable => exact iff_of_false (fun h => h _ (List.mem_singleton_self _)) (by rintro ⟨⟩)
        | os errno =>
          cases errno with
          | missing => exact iff_of_true (fun _ => List.not_mem_nil) rfl
          | _ => exact iff_of_false (fun h => h _ (List.mem_singleton_self _)) (by rintro ⟨⟩)
      | ok identity =>
        dsimp only
        rw [or_iff_right (by rintro ⟨⟩)]
        by_cases hidentity : identity = area
        · subst hidentity
          rw [if_neg (not_not.mpr rfl), and_iff_right rfl]
          exact opaque_walkable harea hstat
        · rw [if_pos hidentity]
          exact iff_of_false (fun h => h _ (List.mem_singleton_self _)) fun h => hidentity (Except.ok.inj h.1)

/-- **A listing raises nothing** exactly when everything that it looks at can be looked at. -/
theorem listable_iff (harea : checkArea s.folding area = .ok ()) :
    (∀ e, .error e ∉ s.objects disk area start) ↔ s.Listable disk area start := by
  have hmem (e : StorageError) : .error e ∈ s.objects disk area start ↔
      (area ∈ s.plainAreas ∧ .error e ∈ s.flatObjects disk area (s.plainCandidate disk start)) ∨
        .error e ∈ s.iterOpaqueObjects disk area start ∨
        (s.legacyLayout = true ∧ area ∉ s.plainAreas) ∧
          .error e ∈ s.flatObjects disk area (s.legacyCandidate disk area start) := by
    unfold objects
    rw [List.mem_append, List.mem_append, error_mem_unseen, or_assoc]
    refine or_congr ?_ (or_congr_right ?_)
    · split
      · rename_i hplain
        rw [and_iff_right hplain]
      · rename_i hplain
        exact iff_of_false List.not_mem_nil fun h => hplain h.1
    · split
      · rename_i hused
        rw [and_iff_right hused]
      · rename_i hused
        exact iff_of_false List.not_mem_nil fun h => hused h.1
  constructor
  · intro h
    obtain ⟨hdirectory, hlong, hidentity⟩ :=
      (opaque_listable harea).mp fun e he => h e ((hmem e).mpr (.inr (.inl he)))
    refine ⟨fun hplain => ?_, hdirectory, hlong, hidentity, fun hlegacy hplain => ?_⟩
    · exact (plain_listable harea).mp fun e he => h e ((hmem e).mpr (.inl ⟨hplain, he⟩))
    · exact (legacy_listable harea).mp fun e he => h e ((hmem e).mpr (.inr (.inr ⟨⟨hlegacy, hplain⟩, he⟩)))
  · rintro ⟨hplain, hdirectory, hlong, hidentity, hlegacy⟩ e he
    rcases (hmem e).mp he with ⟨hin, he⟩ | he | ⟨⟨hused, hout⟩, he⟩
    · exact (plain_listable harea).mpr (hplain hin) e he
    · exact (opaque_listable harea).mpr ⟨hdirectory, hlong, hidentity⟩ e he
    · exact (legacy_listable harea).mpr (hlegacy hused hout) e he

/-! ## Calls for what does not exist -/

/-- There is nothing to read. -/
theorem reading_absent (h : s.Accepts area key) (hnot : ¬ s.Stored disk area key) :
    s.get disk area key = .ok none ∧
      (∀ offset length, 0 ≤ offset → (∀ n ∈ length, 0 ≤ n) →
        s.openStream disk area key offset length = .error (.notFound area key)) ∧
      s.stat disk area key = .ok none ∧ s.serve disk area key = .error (.notFound area key) := by
  have hexisting := (existingObjectPath_none h).mpr hnot
  have hopen (offset : ℤ) (length : Option ℤ) (hoffset : 0 ≤ offset) (hlength : ∀ n ∈ length, 0 ≤ n) :
      s.openStream disk area key offset length = .error (.notFound area key) := by
    have hrange : checked (validateStreamRange offset length) = .ok () := by
      have hshort : ¬ ∃ n ∈ length, n < 0 := fun ⟨n, hn, hneg⟩ => absurd (hlength n hn) (not_le.mpr hneg)
      rw [checked_ok, validateStreamRange, if_neg (not_lt.mpr hoffset)]
      exact if_neg hshort
    rw [openStream, hrange]
    show (s.existingObjectPath disk area key >>= _) = _
    rw [hexisting]
    rfl
  refine ⟨?_, hopen, ?_, ?_⟩
  · rw [get, hopen 0 none (le_refl 0) fun n hn => by cases hn]
  · rw [stat, hexisting]
    rfl
  · rw [serve, hexisting]
    rfl

/-- An object that is not stored has no path. -/
theorem current_absent (h : s.Accepts area key) (hnot : ¬ s.Stored disk area key) :
    s.currentObjectPath disk area key = .ok none :=
  (currentObjectPath_none h.checkedArea h.checkedKey).mpr fun data hdata => hnot (.inl ⟨data, hdata⟩)

/-- Where nothing is stored nothing is removed. -/
theorem on_removeOpaqueObject_absent (h : s.Accepts area key) (hnot : ¬ s.Stored disk area key)
    (bestEffort : Bool) :
    (s.removeOpaqueObject area key bestEffort).on disk = (.ok (), disk) := by
  have hlift : (Failing.lift (s.currentObjectPath disk area key) : Failing StorageError Disk _).on disk =
      (.ok none, disk) := by
    rw [Failing.on_lift, current_absent h hnot]
  rw [removeOpaqueObject, Failing.on_tryCatch, Failing.on_bind_ok Failing.on_get, Failing.on_bind_ok hlift]
  rfl

/-- The name of an object of a plain area is no file. -/
theorem plain_absent (hplain : area ∈ s.plainAreas) (h : s.Accepts area key) (hnot : ¬ s.Stored disk area key)
    (data : FileData) : disk.stat s.limits (s.plainPath area key) ≠ .ok (.file data) := by
  intro hstat
  refine hnot (.inr ⟨?_, data, hstat⟩)
  rw [FlatUsed, if_pos hplain]
  exact h.notStaging hplain

/-- A plain path is resolved without a look at the disk. -/
theorem on_resolvePlain (hplain : area ∈ s.plainAreas) (h : s.Accepts area key) :
    (Failing.lift (s.resolvePlain area key) : Failing StorageError Disk Path).on disk =
      (.ok (s.plainPath area key), disk) := by
  rw [Failing.on_lift, resolvePlain_eq h.checkedArea h.checkedKey, h.notStaging hplain]
  rfl

/-- **Deleting what does not exist** changes nothing. -/
theorem on_delete_absent (h : s.Accepts area key) (hnot : ¬ s.Stored disk area key)
    (hname : area ∈ s.plainAreas → disk.stat s.limits (s.plainPath area key) ≠ .error .nameTooLong) :
    (s.delete area key).on disk = (.ok (), disk) := by
  unfold delete
  by_cases hplain : area ∈ s.plainAreas
  · rw [if_pos hplain, Failing.on_bind_ok (on_resolvePlain hplain h), Failing.on_bind_ok Failing.on_get]
    cases hstat : disk.stat s.limits (s.plainPath area key) with
    | ok node =>
      cases node with
      | file data => exact absurd hstat (plain_absent hplain h hnot data)
      -- a directory of the key's name is no object
      | directory => exact on_removeOpaqueObject_absent h hnot false
    | error errno =>
      rcases FileTree.stat_error hstat with rfl | rfl | rfl
      · exact on_removeOpaqueObject_absent h hnot false
      · exact on_removeOpaqueObject_absent h hnot false
      · -- the name that `delete` does not foresee
        exact absurd hstat (hname hplain)
  · have hlift : (Failing.lift (s.currentObjectPath disk area key) : Failing StorageError Disk _).on disk =
        (.ok none, disk) := by
      rw [Failing.on_lift, current_absent h hnot]
    rw [if_neg hplain, Failing.on_bind_ok Failing.on_get, Failing.on_bind_ok hlift]
    show (if s.legacyLayout = true then _ else _ : Failing StorageError Disk Unit).on disk = _
    split
    · -- an object of the older layout is looked for as well
      rename_i hlegacy
      have hresolve : (Failing.lift (s.resolveLegacy area key) : Failing StorageError Disk Path).on disk =
          (.ok (s.plainPath area key), disk) := by
        rw [Failing.on_lift, resolveLegacy_eq h.checkedArea h.checkedKey]
      rw [Failing.on_bind_ok hresolve, Failing.on_bind_ok Failing.on_get]
      cases hstat : disk.stat s.limits (s.plainPath area key) with
      | ok node =>
        cases node with
        | file data =>
          refine absurd (.inr ⟨?_, data, hstat⟩) hnot
          rwa [FlatUsed, if_neg hplain]
        | directory => rfl
      | error errno =>
        have habsent : isAbsent errno = true := decide_eq_true (FileTree.stat_error hstat)
        dsimp only
        rw [if_pos habsent]
        rfl
    · rfl

/-- … unless its name is too long for a plain area, which other calls take for absence. -/
theorem on_delete_nameTooLong (hplain : area ∈ s.plainAreas) (h : s.Accepts area key)
    (hname : disk.stat s.limits (s.plainPath area key) = .error .nameTooLong) :
    (s.delete area key).on disk = (.error backendUnavailable, disk) := by
  rw [delete, if_pos hplain, Failing.on_bind_ok (on_resolvePlain hplain h), Failing.on_bind_ok Failing.on_get,
    hname]
  rfl

/-- An accepted address passes the checks of `delete_prefix`. -/
theorem on_deletePrefix (h : s.Accepts area key) :
    (s.deletePrefix area key).on disk = (s.deleteListed area key).on disk := by
  have harea : (Failing.lift (checked (checkArea s.folding area)) : Failing StorageError Disk Unit).on disk =
      (.ok (), disk) := by
    rw [Failing.on_lift, checked_ok.mpr h.checkedArea]
  have hkey : (Failing.lift (checked (checkSegment key "prefix")) : Failing StorageError Disk Unit).on disk =
      (.ok (), disk) := by
    rw [Failing.on_lift, checked_ok.mpr (checkSegment_label h.checkedKey "prefix")]
  rw [deletePrefix, Failing.on_bind_ok harea, Failing.on_bind_ok hkey]
  by_cases hplain : area ∈ s.plainAreas
  · rw [if_pos hplain]
    exact Failing.on_bind_ok (on_resolvePlain hplain h) _
  · rw [if_neg hplain]
    split
    · have hresolve : (Failing.lift (s.resolveLegacy area key) : Failing StorageError Disk Path).on disk =
          (.ok (s.plainPath area key), disk) := by
        rw [Failing.on_lift, resolveLegacy_eq h.checkedArea h.checkedKey]
      exact Failing.on_bind_ok hresolve _
    · rfl

/-- **Deleting from an address onwards** where there is nothing: it lists, and deletes nothing. -/
theorem on_deletePrefix_absent (h : s.Accepts area key) (hnot : ¬ s.Stored disk area key)
    (hbelow : s.NoDescendants disk area key) :
    (s.deletePrefix area key).on disk = match consume (s.objects disk area key) with
      | .error e => (.error e, disk)
      | .ok _ => (.ok 0, disk) := by
  have hlisted : s.iterObjects disk area key = .ok (s.objects disk area key) := by
    rw [iterObjects, checked_ok.mpr h.checkedArea]
    show (if key ≠ [] then _ else _) = _
    rw [if_pos (ne_nil_of_checkSegment h.checkedKey),
      checked_ok.mpr (checkListingPrefix_of_checkSegment h.checkedKey)]
    rfl
  have hsteps : (Failing.lift (s.iterObjects disk area key) : Failing StorageError Disk _).on disk =
      (.ok (s.objects disk area key), disk) := by
    rw [Failing.on_lift, hlisted]
  rw [on_deletePrefix h, deleteListed, Failing.on_bind_ok Failing.on_get, Failing.on_bind_ok hsteps,
    Failing.on_bind,
    Failing.on_lift]
  cases hconsumed : consume (s.objects disk area key) with
  | error e => rfl
  | ok listed =>
    have hkeys : ((listed.map Prod.fst).filter fun key' => decide (key' = key ∨ key ++ ['/'] <+: key'))
        = [] := by
      rw [List.filter_eq_nil_iff]
      intro key' hkey' hmatches
      obtain ⟨object, hobject, rfl⟩ := List.mem_map.mp hkey'
      obtain ⟨hkey, hstored⟩ := stored_of_listed h.checkedArea (mem_of_consume hconsumed hobject)
      rcases of_decide_eq_true hmatches with heq | hinside
      · exact hnot (heq ▸ hstored)
      · exact hbelow _ hkey hinside hstored
    dsimp only
    rw [hkeys]
    rfl

/-! ## Absence -/

/-- **What does not exist is absent** exactly when nothing is in the way: its name can be asked for in a plain
area, and the area can be listed unless something is below the address. -/
theorem absent_iff (h : s.Accepts area key) (hexists : s.exists? disk area key = .ok false) :
    s.Absent disk area key ↔ s.Clear disk area key := by
  have hnot := (exists?_false h).mp hexists
  constructor
  · intro habsent
    refine ⟨fun hplain hname => ?_, fun hbelow => ?_⟩
    · have hdeleted := habsent.delete
      rw [on_delete_nameTooLong hplain h hname] at hdeleted
      cases congrArg Prod.fst hdeleted
    · have hdeleted := habsent.deletePrefix hbelow
      rw [on_deletePrefix_absent h hnot hbelow] at hdeleted
      rw [← listable_iff h.checkedArea, ← consume_ok]
      cases hconsumed : consume (s.objects disk area key) with
      | error e =>
        rw [hconsumed] at hdeleted
        cases congrArg Prod.fst hdeleted
      | ok listed => exact ⟨listed, rfl⟩
  · rintro ⟨hname, hlistable⟩
    obtain ⟨hget, hopen, hstat, hserve⟩ := reading_absent h hnot
    refine ⟨hget, hopen, hstat, hserve, on_delete_absent h hnot hname, fun hbelow => ?_⟩
    obtain ⟨listed, hlisted⟩ := consume_ok.mpr ((listable_iff h.checkedArea).mpr (hlistable hbelow))
    rw [on_deletePrefix_absent h hnot hbelow, hlisted]

/-- A name of 256 characters. -/
def longKey : Text := List.replicate 256 'a'

set_option maxRecDepth 4000 in
/-- The long key is an accepted one. -/
theorem accepts_longKey : sampleStorage.Accepts "photos".toList longKey :=
  ⟨by decide, by rfl, fun _ => by rfl⟩

set_option maxRecDepth 4000 in
/-- It does not exist. -/
theorem exists?_longKey : sampleStorage.exists? sampleDisk "photos".toList longKey = .ok false := by rfl

set_option maxRecDepth 4000 in
/-- Its name is too long for a file. -/
theorem stat_longKey : sampleDisk.stat unixLimits (sampleStorage.plainPath "photos".toList longKey) =
    .error .nameTooLong := by rfl

/-- It is absent for every call exactly when nothing is in its way. -/
theorem absent_iff_longKey : sampleStorage.Absent sampleDisk "photos".toList longKey ↔
    sampleStorage.Clear sampleDisk "photos".toList longKey :=
  absent_iff accepts_longKey exists?_longKey

/-- **What does not exist may be no absent object**: in a plain area a name that no file can have cannot be
deleted. -/
theorem not_absent : ¬ ∀ (s : LocalStorage) (disk : Disk) (area key : Text), s.Accepts area key →
    s.exists? disk area key = .ok false → s.Absent disk area key := by
  intro h
  have hdeleted := (h _ _ _ _ accepts_longKey exists?_longKey).delete
  rw [on_delete_nameTooLong (Finset.mem_singleton_self _) accepts_longKey stat_longKey] at hdeleted
  cases congrArg Prod.fst hdeleted

end LocalStorage

end Jasil.Objects
