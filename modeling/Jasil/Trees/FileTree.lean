import Jasil.FiniteMaps.Retained
import Jasil.Transition.Failing
import Mathlib.Data.List.Infix

/-! # File trees
Files and directories below a root. A path is the list of its names from the innermost one outwards, so that
the tail of a path is its parent and its suffixes are the directories around it. What is found at a path is
found from the outermost name inwards.

* **`Limits`**: the names that a file can have, and the paths that a call can be given.
* **`FileTree.stat`, `FileTree.readFile`, `FileTree.walk`**: what the calls that only read say.
* **`FileTree.makeDirectories`, `FileTree.create`, `FileTree.replace`, `FileTree.unlink`, `FileTree.prune`**:
  what the others do, each of them as a program that may fail.
* **`stat_suffix`**: what is found lies in directories.
* **`mem_walk`**: a walk meets exactly what can be found, as far as its paths can be given to a call. -/

namespace Jasil

variable {ν β : Type} [DecidableEq ν]

/-- Why a call on a path fails. -/
inductive Errno
  | missing
  /-- Something on the way to it is a file. -/
  | notDirectory
  | nameTooLong
  | present
  | isDirectory
  | notEmpty
  deriving DecidableEq

/-- What is at a path. -/
inductive Node (β : Type)
  | file (data : β)
  | directory

/-- The node is a directory. -/
def Node.isDirectory : Node β → Bool
  | file _ => false
  | directory => true

/-- What a file system can hold. -/
structure Limits (ν : Type) where
  name : ν → Bool
  path : List ν → Bool
  parent : ∀ n p, path (n :: p) = true → path p = true

/-- The files and directories at the paths below a root. -/
abbrev FileTree (ν β : Type) [DecidableEq ν] := FiniteMap (List ν) (Node β)

namespace FileTree

variable (limits : Limits ν) (t : FileTree ν β)

/-! ## Reading -/

/-- What lies in a directory under a name. -/
def entry (n : ν) (p : List ν) : Except Errno (Node β) :=
  if limits.name n = false then .error .nameTooLong
  else
    match t.lookup (n :: p) with
    | some node => .ok node
    | none => .error .missing

/-- What is at a path. -/
def find : List ν → Except Errno (Node β)
  | [] => .ok .directory
  | n :: p =>
    match find p with
    | .ok .directory => t.entry limits n p
    | .ok (.file _) => .error .notDirectory
    | .error e => .error e

/-- What a call is told that is given the path. -/
def stat (p : List ν) : Except Errno (Node β) := if limits.path p then t.find limits p else .error .nameTooLong

/-- What the file there holds. -/
def readFile (p : List ν) : Except Errno β :=
  match t.stat limits p with
  | .ok (.file data) => .ok data
  | .ok .directory => .error .isDirectory
  | .error e => .error e

/-- There is something at the path. -/
def Found (p : List ν) : Prop := ∃ node, t.find limits p = .ok node

instance (p : List ν) : Decidable (t.Found limits p) :=
  match h : t.find limits p with
  | .ok node => .isTrue ⟨node, h⟩
  | .error _ => .isFalse fun ⟨_, hnode⟩ => by cases h.symm.trans hnode

/-- What a walk through a directory meets, which leaves out the directories that cannot be opened. -/
def walk (dir : List ν) : List (List ν) :=
  t.keys.filter fun p => dir <:+ p ∧ dir ≠ p ∧ t.Found limits p ∧ limits.path p.tail

/-! ## Writing -/

/-- Something new is put into a directory. -/
def place (p : List ν) (node : Node β) : Except Errno (FileTree ν β) :=
  match t.stat limits p with
  | .ok _ => .error .present
  | .error .missing =>
    match t.stat limits p.tail with
    | .ok .directory => .ok (t.insert p node)
    | .ok (.file _) => .error .notDirectory
    | .error e => .error e
  | .error e => .error e

/-- A new file. -/
def create (p : List ν) (data : β) : Failing Errno (FileTree ν β) Unit :=
  Failing.attempt fun t => t.place limits p (.file data)

/-- A directory and those around it, made where they are missing. -/
def makeDirectories : List ν → Failing Errno (FileTree ν β) Unit
  | [] => pure ()
  | n :: p => do
    match (← get).stat limits (n :: p) with
    | .ok .directory => pure ()
    | .ok (.file _) => throw .present
    | .error .missing =>
      makeDirectories p
      Failing.attempt fun t => t.place limits (n :: p) .directory
    | .error e => throw e

/-- A file is moved over what the other path holds. -/
def replace (source target : List ν) : Failing Errno (FileTree ν β) Unit :=
  Failing.attempt fun t =>
    match t.stat limits source, t.stat limits target.tail, t.stat limits target with
    | .ok (.file data), .ok .directory, .ok (.file _) => .ok ((t.erase source).insert target (.file data))
    | .ok (.file data), .ok .directory, .error .missing => .ok ((t.erase source).insert target (.file data))
    | .ok (.file _), .ok .directory, .ok .directory => .error .isDirectory
    | .ok (.file _), .ok .directory, .error e => .error e
    | .ok (.file _), .ok (.file _), _ => .error .notDirectory
    | .ok (.file _), .error e, _ => .error e
    | .ok .directory, _, _ => .error .isDirectory
    | .error e, _, _ => .error e

/-- `unlink`: a file's name is removed. -/
def unlink (p : List ν) : Failing Errno (FileTree ν β) Unit :=
  Failing.attempt fun t =>
    match t.stat limits p with
    | .ok (.file _) => .ok (t.erase p)
    | .ok .directory => .error .isDirectory
    | .error e => .error e

/-- `unlink(missing_ok=True)`. -/
def unlinkIfPresent (p : List ν) : Failing Errno (FileTree ν β) Unit :=
  tryCatch (unlink limits p) fun e => if e = .missing then pure () else throw e

/-- A directory is removed that nothing lies in. -/
def rmdir (p : List ν) : Except Errno (FileTree ν β) :=
  match t.stat limits p with
  | .ok .directory => if ∃ q ∈ t.keys, q.tail = p ∧ q ≠ [] then .error .notEmpty else .ok (t.erase p)
  | .ok (.file _) => .error .notDirectory
  | .error e => .error e

/-- Directories below the base are removed from the path outwards until one cannot be. -/
def prune (base : List ν) : List ν → FileTree ν β → FileTree ν β
  | [], t => t
  | n :: p, t =>
    if n :: p = base ∨ ¬ base <:+ n :: p then t
    else
      match t.rmdir limits (n :: p) with
      | .ok t => prune base p t
      | .error _ => t

variable {limits t} {p q dir : List ν} {n : ν} {node : Node β} {data : β} {e : Errno}

/-! ## What is found -/

/-- What is found stands in a directory. -/
theorem find_parent (h : t.find limits (n :: p) = .ok node) : t.find limits p = .ok .directory := by
  rw [find] at h
  split at h
  · assumption
  · cases h
  · cases h

/-- **What is found lies in directories.** -/
theorem find_suffix (h : t.find limits p = .ok node) (hq : q <:+ p) (hne : q ≠ p) :
    t.find limits q = .ok .directory := by
  induction p generalizing node with
  | nil => exact absurd (List.suffix_nil.mp hq) hne
  | cons n p ih =>
    have hparent := find_parent h
    rcases List.suffix_cons_iff.mp hq with heq | hq
    · exact absurd heq hne
    · by_cases heq : q = p
      · rwa [heq]
      · exact ih hparent hq heq

/-- What is found has names that a file can have. -/
theorem name_of_find (h : t.find limits p = .ok node) : ∀ n ∈ p, limits.name n = true := by
  induction p generalizing node with
  | nil => exact fun n hn => absurd hn List.not_mem_nil
  | cons n p ih =>
    refine List.forall_mem_cons.mpr ⟨?_, ih (find_parent h)⟩
    rw [find, find_parent h] at h
    dsimp only [entry] at h
    split at h
    · cases h
    · rename_i hname
      exact Bool.not_eq_false _ ▸ hname

/-- What an entry can raise. -/
theorem entry_error (h : t.entry limits n p = .error e) : e = .missing ∨ e = .nameTooLong := by
  unfold entry at h
  split at h
  · cases h
    exact .inr rfl
  · split at h
    · cases h
    · cases h
      exact .inl rfl

/-- What a search can raise. -/
theorem find_error (h : t.find limits p = .error e) : e = .missing ∨ e = .notDirectory ∨ e = .nameTooLong := by
  induction p with
  | nil => cases h
  | cons n p ih =>
    rw [find] at h
    split at h
    · exact (entry_error h).imp_right .inr
    · cases h
      exact .inr (.inl rfl)
    · rename_i hfind
      cases h
      exact ih hfind

/-- Nothing is found for one of three reasons. -/
theorem stat_error (h : t.stat limits p = .error e) : e = .missing ∨ e = .notDirectory ∨ e = .nameTooLong := by
  unfold stat at h
  split at h
  · exact find_error h
  · cases h
    exact .inr (.inr rfl)

/-- A status is that of what is found, when the path is not too long. -/
theorem stat_eq_ok : t.stat limits p = .ok node ↔ limits.path p = true ∧ t.find limits p = .ok node := by
  unfold stat
  split
  · rename_i hpath
    exact (and_iff_right hpath).symm
  · rename_i hpath
    refine iff_of_false ?_ fun h => hpath h.1
    rintro ⟨⟩

omit [DecidableEq ν] in
/-- A path's parents are not too long. -/
theorem path_suffix (h : limits.path p = true) (hq : q <:+ p) : limits.path q = true := by
  induction p with
  | nil => rwa [List.suffix_nil.mp hq]
  | cons n p ih =>
    rcases List.suffix_cons_iff.mp hq with rfl | hq
    · exact h
    · exact ih (limits.parent n p h) hq

/-- **What is on the way to something is a directory.** -/
theorem stat_suffix (h : t.stat limits p = .ok node) (hq : q <:+ p) (hne : q ≠ p) :
    t.stat limits q = .ok .directory := by
  obtain ⟨hpath, hfind⟩ := stat_eq_ok.mp h
  exact stat_eq_ok.mpr ⟨path_suffix hpath hq, find_suffix hfind hq hne⟩

/-- What is found is there. -/
theorem mem_keys_of_find (h : t.find limits (n :: p) = .ok node) : n :: p ∈ t.keys := by
  rw [find, find_parent h] at h
  dsimp only [entry] at h
  split at h
  · cases h
  · split at h
    · rename_i hlookup
      exact AList.mem_keys.mp (FiniteMap.mem_iff_lookup.mpr ⟨_, hlookup⟩)
    · cases h

/-- **What a walk meets.** -/
theorem mem_walk : p ∈ t.walk limits dir ↔ dir <:+ p ∧ dir ≠ p ∧ t.Found limits p
    ∧ limits.path p.tail = true := by
  rw [walk, List.mem_filter, decide_eq_true_iff]
  refine and_iff_right_of_imp ?_
  rintro ⟨hsuffix, hne, ⟨node, hfind⟩, -⟩
  cases p with
  | nil => exact absurd (List.suffix_nil.mp hsuffix) hne
  | cons n p => exact mem_keys_of_find hfind

/-- What a call can be told of, and what lies in a directory, a walk through it meets. -/
theorem mem_walk_of_stat (h : t.stat limits p = .ok node) (hsuffix : dir <:+ p) (hne : dir ≠ p) :
    p ∈ t.walk limits dir := by
  obtain ⟨hpath, hfind⟩ := stat_eq_ok.mp h
  exact mem_walk.mpr ⟨hsuffix, hne, ⟨node, hfind⟩, path_suffix hpath (List.tail_suffix p)⟩

/-- What a walk meets can be told of unless its path is too long. -/
theorem stat_of_mem_walk (h : p ∈ t.walk limits dir) :
    (∃ node, t.stat limits p = .ok node) ∨ t.stat limits p = .error .nameTooLong := by
  obtain ⟨-, -, ⟨node, hfind⟩, -⟩ := mem_walk.mp h
  rw [stat]
  split
  · exact .inl ⟨node, hfind⟩
  · exact .inr rfl

end FileTree

end Jasil
