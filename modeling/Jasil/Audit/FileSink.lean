import Jasil.Audit.Sink
import Jasil.Transition.WriteOnce
import Mathlib.Logic.Function.Basic

/-! # The sink in a directory
A copy is written to a temporary file, which a hard link publishes under its name. Several calls do so at
once, one filesystem call at a time; each of these may fail, and a process may die before any of them. The
machine does not crash, so that what is written is there for all, and an `fsync` changes nothing.

* **`Directory`**: names, and the files they stand for.
* **`WritePhase`**: a `write_once` call, by what it does next; **`WritePhase.run`**, **`WritePhase.fail`**:
  what comes of that.
* **`FileSink.Inv`**: the file that a call writes has no name of an object yet, and nobody else writes it.
* **`fileSink_writesOnce`**: the directory is a map that is written once. -/

namespace Jasil.Audit

/-! ## The directory -/

/-- A directory: its names, and the files by the number they were created under. -/
structure Directory where
  names : String → Option ℕ
  contents : ℕ → List UInt8
  writable : ℕ → Bool
  created : ℕ

/-- The name of a temporary file, as `mkstemp` makes it. -/
def temporaryName (suffix : String) : String := ".tmp-" ++ suffix

namespace Directory

/-- A directory without files. -/
def empty : Directory := ⟨fun _ => none, fun _ => [], fun _ => false, 0⟩

/-- A new file, which is empty. -/
def create (d : Directory) (name : String) : Directory where
  names := Function.update d.names name (some d.created)
  contents := Function.update d.contents d.created []
  writable := Function.update d.writable d.created true
  created := d.created + 1

/-- Write at the end of a file. -/
def append (d : Directory) (file : ℕ) (data : List UInt8) : Directory :=
  { d with contents := Function.update d.contents file (d.contents file ++ data) }

/-- One more name for a file. -/
def link (d : Directory) (file : ℕ) (name : String) : Directory :=
  { d with names := Function.update d.names name (some file) }

/-- `unlink` of a name; a file that is open stays. -/
def unlink (d : Directory) (name : String) : Directory := { d with names := Function.update d.names name none }

/-- `path.chmod(0o400)`. -/
def chmod (d : Directory) (file : ℕ) : Directory := { d with writable := Function.update d.writable file false }

/-- `FileAuditSink.read`. -/
def read (d : Directory) (name : String) : Except SinkError (Option (List UInt8)) :=
  if ValidName name then .ok ((d.names name).map d.contents) else .error (.invalidName name)

/-- What can be read under a name. -/
def readable (d : Directory) (name : String) : Option (List UInt8) :=
  match d.read name with
  | .ok content => content
  | .error _ => none

end Directory

/-! ## Calls -/

/-- How a call ended. -/
inductive WriteOutcome
  | returned
  | invalidName
  /-- `AuditSinkConflictError`. -/
  | conflict
  | osError
  deriving DecidableEq

/-- A `write_once` call, by what it does next. -/
inductive WritePhase
  | start
  /-- It writes the rest of its content to its temporary file, and syncs it. -/
  | writing (temporary : String) (file : ℕ) (rest : List UInt8)
  /-- It links the file under its name. -/
  | synced (temporary : String) (file : ℕ)
  /-- There is a file of that name: it reads it. -/
  | found (temporary : String)
  /-- It takes the temporary name away, and raises its error if there is one. -/
  | cleaning (temporary : String) (error : Option WriteOutcome)
  /-- It syncs the directory. -/
  | linked
  /-- It looks whether the file is writable, and makes it read-only. -/
  | named
  | ended (outcome : WriteOutcome)
  | crashed

/-- What follows when the next filesystem call works. A write may be cut short, and `mkstemp` takes a name
that is free. -/
def WritePhase.run (entry : Entry String (List UInt8)) (d : Directory) (chunk : ℕ) (suffix : String) :
    WritePhase → Option (Directory × WritePhase)
  | .start =>
    if ¬ValidName entry.name then some (d, .ended .invalidName)
    else if (d.names (temporaryName suffix)).isSome then none
    else some (d.create (temporaryName suffix), .writing (temporaryName suffix) d.created entry.content)
  | .writing temporary file rest =>
    if rest = [] then some (d, .synced temporary file)
    else some (d.append file (rest.take chunk), .writing temporary file (rest.drop chunk))
  | .synced temporary file =>
    match d.names entry.name with
    | none => some (d.link file entry.name, .cleaning temporary none)
    | some _ => some (d, .found temporary)
  | .found temporary =>
    match d.names entry.name with
    | none => some (d, .cleaning temporary (some .osError))
    | some file =>
      if d.contents file ≠ entry.content then some (d, .cleaning temporary (some .conflict))
      else some (d, .cleaning temporary none)
  | .cleaning temporary error => some (d.unlink temporary, error.elim .linked .ended)
  | .linked => some (d, .named)
  | .named =>
    match d.names entry.name with
    | none => some (d, .ended .osError)
    | some file => some (if d.writable file then d.chmod file else d, .ended .returned)
  | .ended _ => none
  | .crashed => none

/-- What follows when it fails. -/
def WritePhase.fail (entry : Entry String (List UInt8)) : WritePhase → Option WritePhase
  | .start => if ValidName entry.name then some (.ended .osError) else none
  | .writing temporary _ _ | .synced temporary _ | .found temporary => some (.cleaning temporary (some .osError))
  -- the temporary file is left behind
  | .cleaning _ error => some (error.elim .linked .ended)
  | .linked | .named => some (.ended .osError)
  | .ended _ => none
  | .crashed => none

/-- What may happen to a call. -/
inductive WriteAction
  | run (chunk : ℕ) (suffix : String)
  | fail
  | crash

/-- The next step of a write under way, its failure, or the death of its process. -/
def WritePhase.act (entry : Entry String (List UInt8)) (d : Directory) (p : WritePhase) :
    WriteAction → Option (Directory × WritePhase)
  | .run chunk suffix => p.run entry d chunk suffix
  | .fail => (p.fail entry).map (d, ·)
  | .crash =>
    match p with
    | .ended _ | .crashed => none
    | _ => some (d, .crashed)

variable {ι : Type*} [DecidableEq ι]

/-- A sink in a directory, and the calls of several processes. -/
structure FileSink (ι : Type*) where
  directory : Directory
  calls : ι → WritePhase

namespace FileSink

/-- An empty directory, and every write before its first step. -/
def init : FileSink ι := ⟨.empty, fun _ => .start⟩

/-- A step of one of the writes. -/
def step (entry : ι → Entry String (List UInt8)) (s : FileSink ι) (a : ι × WriteAction) : Option (FileSink ι) :=
  ((s.calls a.1).act (entry a.1) s.directory a.2).map fun (directory, phase) =>
    ⟨directory, Function.update s.calls a.1 phase⟩

end FileSink

/-- The verdict of a call that is over. -/
def WritePhase.verdict : WritePhase → Option Verdict
  | .ended .returned => some .accepted
  | .ended .conflict => some .refused
  | _ => none

/-- What can be seen of the sink. -/
def FileSink.observe (s : FileSink ι) : OnceMap ι String (List UInt8) where
  stored := s.directory.readable
  began i := s.calls i ≠ .start
  verdict i := (s.calls i).verdict

/-! ## What a step changes -/

/-- A temporary name is none that a checkpoint has. -/
theorem not_validName_temporaryName (suffix : String) : ¬ValidName (temporaryName suffix) := by
  rintro ⟨hhead, -⟩
  have hdot : (temporaryName suffix).toList.head? = some '.' := by
    rw [temporaryName, String.toList_append]
    rfl
  rw [hdot] at hhead
  exact absurd hhead (by decide)

namespace Directory

variable {d d' : Directory} {own : Option ℕ} {name : String} {file : ℕ} {c : List UInt8}

/-- A reader finds a content exactly under a valid name of a file that has it. -/
theorem readable_eq_some : d.readable name = some c ↔ ValidName name ∧ ∃ file, d.names name = some file
    ∧ d.contents file = c := by
  unfold readable read
  by_cases hvalid : ValidName name
  · rw [if_pos hvalid]
    show (d.names name).map d.contents = some c ↔ _
    rw [Option.map_eq_some_iff]
    exact (and_iff_right hvalid).symm
  · rw [if_neg hvalid]
    refine iff_of_false ?_ fun h => hvalid h.1
    rintro ⟨⟩

/-- In an empty directory nothing is read. -/
theorem readable_empty (name : String) : empty.readable name = none := by
  unfold readable read
  by_cases hvalid : ValidName name
  · rw [if_pos hvalid]
    rfl
  · rw [if_neg hvalid]

/-- Every name of an object is that of a file. -/
def WellNamed (d : Directory) : Prop := ∀ name file, ValidName name → d.names name = some file → file < d.created

/-- A file that is no object yet. -/
def Unnamed (d : Directory) (file : ℕ) : Prop :=
  file < d.created ∧ ∀ name, ValidName name → d.names name ≠ some file

/-- **What a call leaves of the directory**: every object, and every file but its own. -/
structure Kept (d d' : Directory) (own : Option ℕ) : Prop where
  created : d.created ≤ d'.created
  contents : ∀ file < d.created, own ≠ some file → d'.contents file = d.contents file
  names : ∀ name file, ValidName name → d.names name = some file → d'.names name = some file
  named : ∀ name file, ValidName name → d'.names name = some file → d.names name = some file ∨ own = some file

/-- A step that does nothing keeps what is readable. -/
theorem kept_refl (d : Directory) (own : Option ℕ) : Kept d d own where
  created := le_rfl
  contents _ _ _ := rfl
  names _ _ _ h := h
  named _ _ _ h := .inl h

/-- A valid name is not that of a temporary file. -/
theorem ne_temporary {other : String} (hname : ¬ValidName name) (h : ValidName other) : other ≠ name := by
  rintro rfl
  exact hname h

/-- Creating a temporary file keeps what is readable. -/
theorem kept_create (hname : ¬ValidName name) : Kept d (d.create name) own where
  created := Nat.le_succ _
  contents _ hfile _ := Function.update_of_ne hfile.ne _ _
  names _ _ hother h := (Function.update_of_ne (ne_temporary hname hother) _ _).trans h
  named _ _ hother h := .inl ((Function.update_of_ne (ne_temporary hname hother) _ _).symm.trans h)

/-- Writing to a file of one's own keeps what is readable. -/
theorem kept_append (data : List UInt8) : Kept d (d.append file data) (some file) where
  created := le_rfl
  contents _ _ hother := Function.update_of_ne (fun h => hother (congrArg some h.symm)) _ _
  names _ _ _ h := h
  named _ _ _ h := .inl h

/-- A link to a name that was free keeps what is readable. -/
theorem kept_link (hname : d.names name = none) : Kept d (d.link file name) (some file) where
  created := le_rfl
  contents _ _ _ := rfl
  names other file' _ h := by
    refine (Function.update_of_ne ?_ _ _).trans h
    rintro rfl
    rw [hname] at h
    cases h
  named other file' _ h := by
    by_cases hother : other = name
    · have hself : (d.link file name).names other = some file := hother ▸ Function.update_self _ _ _
      exact .inr (hself.symm.trans h)
    · exact .inl ((Function.update_of_ne hother _ _).symm.trans h)

/-- Removing a temporary name keeps what is readable. -/
theorem kept_unlink (hname : ¬ValidName name) : Kept d (d.unlink name) own where
  created := le_rfl
  contents _ _ _ := rfl
  names _ _ hother h := (Function.update_of_ne (ne_temporary hname hother) _ _).trans h
  named _ _ hother h := .inl ((Function.update_of_ne (ne_temporary hname hother) _ _).symm.trans h)

/-- So does a change of mode. -/
theorem kept_chmod (file : ℕ) : Kept d (d.chmod file) own where
  created := le_rfl
  contents _ _ _ := rfl
  names _ _ _ h := h
  named _ _ _ h := .inl h

/-- **An object keeps its content.** -/
theorem Kept.readable (h : Kept d d' own) (hnamed : d.WellNamed) (hown : ∀ file ∈ own, d.Unnamed file)
    (hc : d.readable name = some c) : d'.readable name = some c := by
  obtain ⟨hvalid, file, hfile, rfl⟩ := readable_eq_some.mp hc
  refine readable_eq_some.mpr ⟨hvalid, file, h.names name file hvalid hfile, ?_⟩
  exact h.contents file (hnamed name file hvalid hfile) fun heq => (hown file heq).2 name hvalid hfile

/-- A file that nobody can read stays so when others act. -/
theorem Kept.unnamed (h : Kept d d' own) (hfile : d.Unnamed file) (hne : own ≠ some file) : d'.Unnamed file := by
  refine ⟨hfile.1.trans_le h.created, fun name hvalid hname => ?_⟩
  rcases h.named name file hvalid hname with hold | hown
  · exact hfile.2 name hvalid hold
  · exact hne hown

end Directory

/-! ## The invariant -/

namespace WritePhase

/-- The file that a call writes. -/
def file : WritePhase → Option ℕ
  | .writing _ file _ | .synced _ file => some file
  | _ => none

/-- **What a call relies on**: its own file is no object and nobody else's, and what it knows of the object
stays so. -/
def Fits (entry : Entry String (List UInt8)) (d : Directory) : WritePhase → Prop
  | .start => True
  | .writing temporary file rest => ¬ValidName temporary ∧ ValidName entry.name ∧ d.Unnamed file
      ∧ d.contents file ++ rest = entry.content
  | .synced temporary file => ¬ValidName temporary ∧ ValidName entry.name ∧ d.Unnamed file
      ∧ d.contents file = entry.content
  | .found temporary => ¬ValidName temporary ∧ ValidName entry.name
  | .cleaning temporary none => ¬ValidName temporary ∧ d.readable entry.name = some entry.content
  | .cleaning temporary (some error) => ¬ValidName temporary ∧ error ≠ .returned
      ∧ (error = .conflict → ∃ c, d.readable entry.name = some c ∧ c ≠ entry.content)
  | .linked => d.readable entry.name = some entry.content
  | .named => d.readable entry.name = some entry.content
  | .ended outcome => (outcome = .returned → d.readable entry.name = some entry.content)
      ∧ (outcome = .conflict → ∃ c, d.readable entry.name = some c ∧ c ≠ entry.content)
  | .crashed => True

variable {entry : Entry String (List UInt8)} {d d' : Directory} {own : Option ℕ} {p p' : WritePhase}

/-- **What one call relies on, the others leave.** -/
theorem Fits.kept (hp : p.Fits entry d) (h : d.Kept d' own) (hnamed : d.WellNamed)
    (hown : ∀ file ∈ own, d.Unnamed file) (hne : ∀ file ∈ p.file, own ≠ some file) : p.Fits entry d' := by
  cases p with
  | start => trivial
  | writing temporary file rest =>
    obtain ⟨htemporary, hvalid, hfile, hcontent⟩ := hp
    refine ⟨htemporary, hvalid, h.unnamed hfile (hne file rfl), ?_⟩
    rw [h.contents file hfile.1 (hne file rfl), hcontent]
  | synced temporary file =>
    obtain ⟨htemporary, hvalid, hfile, hcontent⟩ := hp
    refine ⟨htemporary, hvalid, h.unnamed hfile (hne file rfl), ?_⟩
    rw [h.contents file hfile.1 (hne file rfl), hcontent]
  | found temporary => exact hp
  | cleaning temporary error =>
    cases error with
    | none => exact ⟨hp.1, h.readable hnamed hown hp.2⟩
    | some error =>
      refine ⟨hp.1, hp.2.1, fun herror => ?_⟩
      obtain ⟨c, hc, hdiffers⟩ := hp.2.2 herror
      exact ⟨c, h.readable hnamed hown hc, hdiffers⟩
  | linked => exact h.readable hnamed hown hp
  | named => exact h.readable hnamed hown hp
  | ended outcome =>
    refine ⟨fun hreturned => h.readable hnamed hown (hp.1 hreturned), fun hconflict => ?_⟩
    obtain ⟨c, hc, hdiffers⟩ := hp.2 hconflict
    exact ⟨c, h.readable hnamed hown hc, hdiffers⟩
  | crashed => trivial

/-- The file of a write under way has no valid name. -/
theorem Fits.unnamed (hp : p.Fits entry d) : ∀ file ∈ p.file, d.Unnamed file := by
  cases p with
  | writing temporary file rest =>
    rintro _ ⟨⟩
    exact hp.2.2.1
  | synced temporary file =>
    rintro _ ⟨⟩
    exact hp.2.2.1
  | start | found | cleaning | linked | named | ended | crashed => rintro _ ⟨⟩

/-- What is cleaned up is no valid name. -/
theorem Fits.temporary {temporary : String} {error : Option WriteOutcome}
    (hp : (cleaning temporary error).Fits entry d) : ¬ValidName temporary := by
  cases error <;> exact hp.1

/-- What a call does after the `finally` clause. -/
theorem Fits.after {temporary : String} {error : Option WriteOutcome}
    (hp : (cleaning temporary error).Fits entry d) :
    (error.elim linked ended).Fits entry d := by
  cases error with
  | none => exact hp.2
  | some error => exact ⟨fun hreturned => absurd hreturned hp.2.1, hp.2.2⟩

/-- **What a step of a call does.** -/
structure Advance (entry : Entry String (List UInt8)) (d : Directory) (p : WritePhase) (d' : Directory)
    (p' : WritePhase) : Prop where
  kept : d.Kept d' p.file
  fits : p'.Fits entry d'
  /-- It goes on with its file, or with a new one. -/
  file : ∀ file ∈ p'.file, p.file = some file ∨ d.created ≤ file
  began : p' ≠ .start
  /-- What it publishes is its content. -/
  published : ∀ name file, ValidName name → d'.names name = some file →
    d.names name = some file ∨ entry = ⟨name, d'.contents file⟩ ∧ file < d'.created

/-- A step that changes no object. -/
theorem Advance.of_kept (hkept : d.Kept d' p.file) (hfits : p'.Fits entry d') (hbegan : p' ≠ .start)
    (hfile : ∀ file ∈ p'.file, p.file = some file ∨ d.created ≤ file)
    (hnames : ∀ name, ValidName name → d'.names name = d.names name) : Advance entry d p d' p' where
  kept := hkept
  fits := hfits
  file := hfile
  began := hbegan
  published name _ hvalid h := .inl ((hnames name hvalid).symm.trans h)

/-- **A step of a write** is one of its advances. -/
theorem advance_of_run {chunk : ℕ} {suffix : String} (hp : p.Fits entry d) (hnamed : d.WellNamed)
    (h : p.run entry d chunk suffix = some (d', p')) : Advance entry d p d' p' := by
  have hnofile (q : WritePhase) (hq : q.file = none) : ∀ file ∈ q.file, p.file = some file
      ∨ d.created ≤ file := by
    rw [hq]
    rintro _ ⟨⟩
  cases p with
  | start =>
    rw [run] at h
    split at h
    · obtain ⟨rfl, rfl⟩ := Prod.mk.inj (Option.some.inj h)
      exact .of_kept (d.kept_refl _) ⟨by rintro ⟨⟩, by rintro ⟨⟩⟩ (by rintro ⟨⟩) (hnofile _ rfl) fun _ _ => rfl
    · rename_i hvalid
      split at h
      · cases h
      · obtain ⟨rfl, rfl⟩ := Prod.mk.inj (Option.some.inj h)
        have htemporary := not_validName_temporaryName suffix
        -- `mkstemp` gives a file that has no other name
        refine .of_kept (Directory.kept_create htemporary) ⟨htemporary, not_not.mp hvalid,
          ⟨Nat.lt_succ_self _, ?_⟩, ?_⟩
          (by rintro ⟨⟩) ?_ fun name hname => Function.update_of_ne (Directory.ne_temporary htemporary hname) _ _
        · intro name hname hnew
          have hold := (Function.update_of_ne (Directory.ne_temporary htemporary hname) _ _).symm.trans hnew
          exact Nat.lt_irrefl _ (hnamed name _ hname hold)
        · show Function.update d.contents d.created [] d.created ++ entry.content = entry.content
          rw [Function.update_self]
          rfl
        · rintro _ ⟨⟩
          exact .inr le_rfl
  | writing temporary file rest =>
    obtain ⟨htemporary, hvalid, hfile, hcontent⟩ := hp
    rw [run] at h
    split at h
    · rename_i hrest
      obtain ⟨rfl, rfl⟩ := Prod.mk.inj (Option.some.inj h)
      rw [hrest, List.append_nil] at hcontent
      refine .of_kept (d.kept_refl _) ⟨htemporary, hvalid, hfile, hcontent⟩ (by rintro ⟨⟩) ?_ fun _ _ => rfl
      rintro _ ⟨⟩
      exact .inl rfl
    · obtain ⟨rfl, rfl⟩ := Prod.mk.inj (Option.some.inj h)
      -- one more piece: what is written and what is left make up the content
      refine .of_kept (Directory.kept_append _) ⟨htemporary, hvalid, hfile, ?_⟩ (by rintro ⟨⟩) ?_ fun _ _ => rfl
      · show Function.update d.contents file (d.contents file ++ rest.take chunk) file ++ rest.drop chunk = _
        rw [Function.update_self, List.append_assoc, List.take_append_drop, hcontent]
      · rintro _ ⟨⟩
        exact .inl rfl
  | synced temporary file =>
    obtain ⟨htemporary, hvalid, hfile, hcontent⟩ := hp
    rw [run] at h
    split at h
    · rename_i hfree
      obtain ⟨rfl, rfl⟩ := Prod.mk.inj (Option.some.inj h)
      -- the link publishes the whole content
      have hname : (d.link file entry.name).names entry.name = some file := Function.update_self _ _ _
      refine ⟨Directory.kept_link hfree,
        ⟨htemporary, Directory.readable_eq_some.mpr ⟨hvalid, file, hname, hcontent⟩⟩,
        hnofile _ rfl, by rintro ⟨⟩, fun name other _ hother => ?_⟩
      by_cases heq : name = entry.name
      · subst heq
        obtain rfl := Option.some.inj (hname.symm.trans hother)
        exact .inr ⟨congrArg (Entry.mk entry.name) hcontent.symm, hfile.1⟩
      · exact .inl ((Function.update_of_ne heq _ _).symm.trans hother)
    · obtain ⟨rfl, rfl⟩ := Prod.mk.inj (Option.some.inj h)
      exact .of_kept (d.kept_refl _) ⟨htemporary, hvalid⟩ (by rintro ⟨⟩) (hnofile _ rfl) fun _ _ => rfl
  | found temporary =>
    obtain ⟨htemporary, hvalid⟩ := hp
    rw [run] at h
    split at h
    · obtain ⟨rfl, rfl⟩ := Prod.mk.inj (Option.some.inj h)
      exact .of_kept (d.kept_refl _) ⟨htemporary, by rintro ⟨⟩, by rintro ⟨⟩⟩ (by rintro ⟨⟩) (hnofile _ rfl)
        fun _ _ => rfl
    · rename_i file hfile
      -- what is there is compared with what was to be written
      have hread : d.readable entry.name = some (d.contents file) :=
        Directory.readable_eq_some.mpr ⟨hvalid, file, hfile, rfl⟩
      split at h
      · rename_i hdiffers
        obtain ⟨rfl, rfl⟩ := Prod.mk.inj (Option.some.inj h)
        exact .of_kept (d.kept_refl _) ⟨htemporary, by rintro ⟨⟩, fun _ => ⟨_, hread, hdiffers⟩⟩ (by rintro ⟨⟩)
          (hnofile _ rfl) fun _ _ => rfl
      · rename_i hsame
        obtain ⟨rfl, rfl⟩ := Prod.mk.inj (Option.some.inj h)
        exact .of_kept (d.kept_refl _) ⟨htemporary, hread.trans (congrArg some (not_not.mp hsame))⟩
          (by rintro ⟨⟩)
          (hnofile _ rfl) fun _ _ => rfl
  | cleaning temporary error =>
    obtain ⟨rfl, rfl⟩ := Prod.mk.inj (Option.some.inj h)
    have htemporary := hp.temporary
    have hkept : d.Kept (d.unlink temporary) none := Directory.kept_unlink htemporary
    have hafter : (error.elim linked ended).file = none := by cases error <;> rfl
    refine .of_kept hkept (hp.after.kept hkept hnamed (by rintro _ ⟨⟩) (by rintro _ _ ⟨⟩))
      (by cases error <;> rintro ⟨⟩)
      (hnofile _ hafter) fun name hname => Function.update_of_ne (Directory.ne_temporary htemporary hname) _ _
  | linked =>
    obtain ⟨rfl, rfl⟩ := Prod.mk.inj (Option.some.inj h)
    exact .of_kept (d.kept_refl _) hp (by rintro ⟨⟩) (hnofile _ rfl) fun _ _ => rfl
  | named =>
    rw [run] at h
    split at h
    · obtain ⟨rfl, rfl⟩ := Prod.mk.inj (Option.some.inj h)
      exact .of_kept (d.kept_refl _) ⟨by rintro ⟨⟩, by rintro ⟨⟩⟩ (by rintro ⟨⟩) (hnofile _ rfl) fun _ _ => rfl
    · rename_i file _
      obtain ⟨rfl, rfl⟩ := Prod.mk.inj (Option.some.inj h)
      have hkept : d.Kept (if d.writable file then d.chmod file else d) none := by
        split
        · exact Directory.kept_chmod file
        · exact d.kept_refl none
      refine .of_kept hkept ⟨fun _ => hkept.readable hnamed (by rintro _ ⟨⟩) hp, by rintro ⟨⟩⟩ (by rintro ⟨⟩)
        (hnofile _ rfl) fun name _ => ?_
      split <;> rfl
  | ended outcome => cases h
  | crashed => cases h

/-- So is a failure. -/
theorem advance_of_fail (hp : p.Fits entry d) (h : p.fail entry = some p') : Advance entry d p d p' := by
  -- a failure leaves the directory as it is
  have hstays {q : WritePhase} (hq : q.Fits entry d) (hfile : q.file = none) (hbegan : q ≠ .start) :
      Advance entry d p d q := by
    refine .of_kept (d.kept_refl _) hq hbegan ?_ fun _ _ => rfl
    rw [hfile]
    rintro _ ⟨⟩
  have herror (temporary : String) (htemporary : ¬ValidName temporary) :
      (cleaning temporary (some .osError)).Fits entry d := ⟨htemporary, by rintro ⟨⟩, by rintro ⟨⟩⟩
  cases p with
  | start =>
    rw [fail] at h
    split at h
    · obtain rfl := Option.some.inj h
      exact hstays ⟨by rintro ⟨⟩, by rintro ⟨⟩⟩ rfl (by rintro ⟨⟩)
    · cases h
  | writing temporary file rest =>
    obtain rfl := Option.some.inj h
    exact hstays (herror temporary hp.1) rfl (by rintro ⟨⟩)
  | synced temporary file =>
    obtain rfl := Option.some.inj h
    exact hstays (herror temporary hp.1) rfl (by rintro ⟨⟩)
  | found temporary =>
    obtain rfl := Option.some.inj h
    exact hstays (herror temporary hp.1) rfl (by rintro ⟨⟩)
  | cleaning temporary error =>
    obtain rfl := Option.some.inj h
    exact hstays hp.after (by cases error <;> rfl) (by cases error <;> rintro ⟨⟩)
  | linked =>
    obtain rfl := Option.some.inj h
    exact hstays ⟨by rintro ⟨⟩, by rintro ⟨⟩⟩ rfl (by rintro ⟨⟩)
  | named =>
    obtain rfl := Option.some.inj h
    exact hstays ⟨by rintro ⟨⟩, by rintro ⟨⟩⟩ rfl (by rintro ⟨⟩)
  | ended outcome => cases h
  | crashed => cases h

/-- **One step of a call**, whichever way it goes. -/
theorem advance_of_act {a : WriteAction} (hp : p.Fits entry d) (hnamed : d.WellNamed)
    (h : p.act entry d a = some (d', p')) : Advance entry d p d' p' := by
  cases a with
  | run chunk suffix => exact advance_of_run hp hnamed h
  | fail =>
    obtain ⟨q, hq, hpair⟩ := Option.map_eq_some_iff.mp h
    obtain ⟨rfl, rfl⟩ := Prod.mk.inj hpair
    exact advance_of_fail hp hq
  | crash =>
    have hcrashed : d = d' ∧ crashed = p' := by
      cases p with
      | ended => cases h
      | crashed => cases h
      | start | writing | synced | found | cleaning | linked | named => exact Prod.mk.inj (Option.some.inj h)
    obtain ⟨rfl, rfl⟩ := hcrashed
    exact .of_kept (d.kept_refl _) trivial (by rintro ⟨⟩) (by rintro _ ⟨⟩) fun _ _ => rfl

end WritePhase

/-- A write that is accepted has returned. -/
theorem WritePhase.ended_of_accepted {p : WritePhase}
    (h : p.verdict = some .accepted) : p = .ended .returned := by
  unfold WritePhase.verdict at h
  split at h
  · rfl
  · cases h
  · cases h

/-- A write that is refused has ended with a conflict. -/
theorem WritePhase.ended_of_refused {p : WritePhase} (h : p.verdict = some .refused) : p = .ended .conflict := by
  unfold WritePhase.verdict at h
  split at h
  · cases h
  · rfl
  · cases h

namespace FileSink

variable {entry : ι → Entry String (List UInt8)} {s s' : FileSink ι}

/-- **The invariant**: every call fits the directory, no two write one file, and an object is what a call had to
store. -/
structure Inv (entry : ι → Entry String (List UInt8)) (s : FileSink ι) : Prop where
  fits : ∀ i, (s.calls i).Fits (entry i) s.directory
  apart : ∀ i j, i ≠ j → ∀ file ∈ (s.calls i).file, (s.calls j).file ≠ some file
  wellNamed : s.directory.WellNamed
  objects : ∀ name file, ValidName name → s.directory.names name = some file →
    ∃ i, s.calls i ≠ .start ∧ entry i = ⟨name, s.directory.contents file⟩

omit [DecidableEq ι] in
/-- In the beginning nothing is readable. -/
theorem inv_init : Inv entry (init : FileSink ι) where
  fits _ := trivial
  apart _ _ _ := by rintro _ ⟨⟩
  wellNamed := by rintro _ _ _ ⟨⟩
  objects := by rintro _ _ _ ⟨⟩

/-- The step of one call, seen by all. -/
theorem advance_of_step (h : Inv entry s) {a : ι × WriteAction} (hstep : s.step entry a = some s') :
    ∃ d p, s' = ⟨d, Function.update s.calls a.1 p⟩
      ∧ WritePhase.Advance (entry a.1) s.directory (s.calls a.1) d p := by
  obtain ⟨⟨d, p⟩, hact, rfl⟩ := Option.map_eq_some_iff.mp hstep
  exact ⟨d, p, rfl, WritePhase.advance_of_act (h.fits a.1) h.wellNamed hact⟩

/-- **Every step keeps the invariant.** -/
theorem inv_step (h : Inv entry s) {a : ι × WriteAction} (hstep : s.step entry a = some s') : Inv entry s' := by
  obtain ⟨d, p, rfl, hadvance⟩ := advance_of_step h hstep
  obtain ⟨i, action⟩ := a
  have hown := (h.fits i).unnamed
  have hcurrent (j : ι) : ∀ file ∈ (s.calls j).file, file < s.directory.created := fun file hfile =>
    ((h.fits j).unnamed file hfile).1
  -- a file that the call writes now is no other call's
  have hnew (j : ι) (hij : j ≠ i) : ∀ file ∈ p.file, (s.calls j).file ≠ some file := by
    intro file hfile hother
    rcases hadvance.file file hfile with hsame | hlater
    · exact h.apart j i hij file hother hsame
    · exact Nat.lt_irrefl _ ((hcurrent j file hother).trans_le hlater)
  refine ⟨fun j => ?_, fun j k hjk file hfile => ?_, fun name file hvalid hname => ?_,
    fun name file hvalid hname => ?_⟩
  · by_cases hij : j = i
    · subst hij
      show ((Function.update s.calls j p) j).Fits (entry j) d
      rw [Function.update_self]
      exact hadvance.fits
    · show ((Function.update s.calls i p) j).Fits (entry j) d
      rw [Function.update_of_ne hij]
      exact (h.fits j).kept hadvance.kept h.wellNamed hown fun file hfile hi => h.apart j i hij file hfile hi
  · change file ∈ ((Function.update s.calls i p) j).file at hfile
    show ((Function.update s.calls i p) k).file ≠ some file
    by_cases hj : j = i
    · rw [hj, Function.update_self] at hfile
      rw [Function.update_of_ne fun hk => hjk (hj.trans hk.symm)]
      exact hnew k (fun hk => hjk (hj.trans hk.symm)) file hfile
    · rw [Function.update_of_ne hj] at hfile
      by_cases hk : k = i
      · rw [hk, Function.update_self]
        exact fun hp => hnew j hj file hp hfile
      · rw [Function.update_of_ne hk]
        exact h.apart j k hjk file hfile
  · rcases hadvance.published name file hvalid hname with hold | ⟨-, hlt⟩
    · exact (h.wellNamed name file hvalid hold).trans_le hadvance.kept.created
    · exact hlt
  · rcases hadvance.published name file hvalid hname with hold | ⟨hentry, -⟩
    · obtain ⟨j, hj, hentry⟩ := h.objects name file hvalid hold
      refine ⟨j, update_ne hadvance.began hj, ?_⟩
      rw [hentry]
      have hcontents := hadvance.kept.contents file (h.wellNamed name file hvalid hold)
        fun hfile => (hown file hfile).2 name hvalid hold
      exact congrArg (Entry.mk name) hcontents.symm
    · refine ⟨i, ?_, hentry⟩
      show Function.update s.calls i p i ≠ .start
      rw [Function.update_self]
      exact hadvance.began

/-- **Every step is one of the write-once map**, or none. -/
theorem observe_step (h : Inv entry s) {a : ι × WriteAction} (hstep : s.step entry a = some s') :
    OnceMap.Step entry s.observe s'.observe := by
  have h' := inv_step h hstep
  obtain ⟨d, p, rfl, hadvance⟩ := advance_of_step h hstep
  obtain ⟨i, action⟩ := a
  refine ⟨fun j hj => update_ne hadvance.began hj,
    fun name c hc => hadvance.kept.readable h.wellNamed (h.fits i).unnamed hc, fun name c _ hc => ?_,
    fun j hj => .inr ?_, fun j hj => .inr ?_⟩
  · obtain ⟨hvalid, file, hfile, rfl⟩ := Directory.readable_eq_some.mp hc
    exact h'.objects name file hvalid hfile
  · have hfits := h'.fits j
    change (Function.update s.calls i p j).verdict = _ at hj
    change (Function.update s.calls i p j).Fits (entry j) d at hfits
    rw [WritePhase.ended_of_accepted hj] at hfits
    exact hfits.1 rfl
  · have hfits := h'.fits j
    change (Function.update s.calls i p j).verdict = _ at hj
    change (Function.update s.calls i p j).Fits (entry j) d at hfits
    rw [WritePhase.ended_of_refused hj] at hfits
    exact hfits.2 rfl

/-- **The sink in a directory is a map that is written once.** -/
theorem writesOnce (entry : ι → Entry String (List UInt8)) : WritesOnce (step entry) init observe entry :=
  writesOnce_of_steps (Inv entry) inv_init ⟨Directory.readable_empty, fun _ => rfl⟩ (fun h hstep =>
    inv_step h hstep)
    fun h hstep => observe_step h hstep

end FileSink

end Jasil.Audit
