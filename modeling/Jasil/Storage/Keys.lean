import Jasil.Text.Base64
import Jasil.State.Provider
import Jasil.Transition.Failing

/-! # Storage addresses
An object is addressed by an area and a key, each of them the list of its characters. What one backend could not
hold, both refuse.

* **`checkArea`, `checkSegment`, `checkListingPrefix`**: the checks that both backends make.
* **`IsBelow`**: a key is a path prefix of another.
* **`isBelow_iff`**: as paths, one is a proper prefix of the other. -/

namespace Jasil.Objects

open State (Bytes)

/-- Text, as its code points. -/
abbrev Text := List Char

/-- What a `ValueError` is about. -/
inductive ValueError
  | empty (label : String)
  | controlCharacter (label : String) (value : Text)
  | tooLong (label : String)
  /-- … escapes base directory: … -/
  | escapes (label : String) (value : Text)
  /-- … must be a canonical slash-delimited path: … -/
  | notCanonical (label : String) (value : Text)
  | notSingleComponent (area : Text)
  | reserved (area : Text)
  /-- Storage key uses a reserved local staging name -/
  | stagingName
  /-- Storage path resolves through a symbolic link: …/… -/
  | symbolicLink (area key : Text)
  | negativeMaxBytes
  | negativeOffset
  | negativeLength
  /-- cannot fit 'int' into an offset-sized integer -/
  | offsetTooLarge
  /-- `UnicodeDecodeError`. -/
  | undecodable
  deriving DecidableEq

/-- What a call raises. -/
inductive StorageError
  | value (e : ValueError)
  /-- Storage object not found: …/… -/
  | notFound (area key : Text)
  /-- `StorageKeyConflictError`. -/
  | keyConflict (area key : Text)
  /-- `StorageSizeLimitError`. -/
  | sizeLimit (maxBytes : ℤ)
  /-- `StorageBackendUnavailableError`. -/
  | unavailable (message : String)
  deriving DecidableEq

/-! ## Checks -/

/-- `str.casefold`, which folds one character at a time. -/
structure CaseFolding where
  fold : Char → Text
  ascii : ∀ c, c.toNat < 128 → fold c = [c.toLower]

/-- `MAX_KEY_BYTES`. -/
def maxKeyBytes : ℕ := 1024

/-- `OBJECT_STORAGE_AREA`. -/
def objectStorageArea : Text := ".jasil-objects".toList

/-- `_RESERVED_AREA_PREFIX`. -/
def reservedAreaPrefix : Text := ".jasil-".toList

/-- `check_key_length`. -/
def checkKeyLength (value : Text) (label : String) : Except ValueError Unit :=
  if maxKeyBytes < (utf8 value).length then .error (.tooLong label) else .ok ()

/-- `check_segment`. -/
def checkSegment (value : Text) (label : String) : Except ValueError Unit := do
  if value = [] then throw (.empty label)
  if value.any fun c => c.toNat < 0x20 || c.toNat = 0x7f then throw (.controlCharacter label value)
  checkKeyLength value label
  let normalizedParts := (value.map fun c => if c = '\\' then '/' else c).splitOn '/'
  if value.head? = some '/' ∨ value.head? = some '\\' ∨ normalizedParts.any (· = "..".toList) then
    throw (.escapes label value)
  if '\\' ∈ value ∨ normalizedParts.any (fun part => part = [] ∨ part = ".".toList) then
    throw (.notCanonical label value)

/-- `check_area`. -/
def checkArea (folding : CaseFolding) (area : Text) : Except ValueError Unit := do
  checkSegment area "area"
  if '/' ∈ area then throw (.notSingleComponent area)
  if reservedAreaPrefix <+: area.flatMap folding.fold then throw (.reserved area)

/-- `check_listing_prefix`. -/
def checkListingPrefix (start : Text) : Except ValueError Unit :=
  checkSegment (if start.getLast? = some '/' ∧ start ≠ ['/'] then start.dropLast else start) "prefix"

/-- `validate_stream_range`. -/
def validateStreamRange (offset : ℤ) (length : Option ℤ) : Except ValueError Unit := do
  if offset < 0 then throw .negativeOffset
  if ∃ n ∈ length, n < 0 then throw .negativeLength

variable {folding : CaseFolding} {area key key' : Text}

/-- A segment that is checked is not empty. -/
theorem ne_nil_of_checkSegment {label : String} (h : checkSegment key label = .ok ()) : key ≠ [] := by
  rintro rfl
  cases h

/-- An area that is accepted is the name of one directory. -/
theorem slash_not_mem_of_checkArea (h : checkArea folding area = .ok ()) : '/' ∉ area := by
  obtain ⟨-, -, h⟩ := Failing.ok_of_bind h
  intro hslash
  rw [if_pos hslash] at h
  cases h

/-- It is none of the names that are kept for other things. -/
theorem ne_of_checkArea {reserved : Text} (h : checkArea folding area = .ok ())
    (hbegins : reservedAreaPrefix <+: reserved)
    (hplain : reserved.all (fun c => decide (c.toNat < 128 ∧ c.toLower = c)) = true) : area ≠ reserved := by
  have hslash := slash_not_mem_of_checkArea h
  obtain ⟨-, -, h⟩ := Failing.ok_of_bind h
  rintro rfl
  have hfold : area.flatMap folding.fold = area := by
    have hascii (c : Char) (hc : c ∈ area) : folding.fold c = [c] := by
      obtain ⟨hlt, hlower⟩ := of_decide_eq_true (List.all_eq_true.mp hplain c hc)
      rw [folding.ascii c hlt, hlower]
    rw [List.flatMap_congr hascii, List.flatMap_singleton']
  rw [if_neg hslash] at h
  dsimp only at h
  rw [hfold, if_pos hbegins] at h
  cases h

/-! ## Keys as paths -/

/-- `key/` begins the other key. -/
def IsBelow (key' key : Text) : Prop := key ++ ['/'] <+: key'

instance : Decidable (IsBelow key' key) := inferInstanceAs (Decidable (_ <+: _))

/-- The names on the way to the key. -/
def components (key : Text) : List Text := key.splitOn '/'

/-- A key has components. -/
theorem components_ne_nil (key : Text) : components key ≠ [] := List.splitOn_ne_nil _ _

/-- Different keys have different components. -/
theorem components_injective : Function.Injective components := by
  intro key key' h
  rw [← @List.intercalate_splitOn Char key _ _ '/', ← @List.intercalate_splitOn Char key' _ _ '/']
  exact congrArg _ h

/-- The names after a prefix of them are those of what follows the slash. -/
theorem intercalate_append {names rest : List Text} (hnames : names ≠ []) (hrest : rest ≠ []) :
    ['/'].intercalate (names ++ rest) = ['/'].intercalate names ++ '/' :: ['/'].intercalate rest := by
  induction names with
  | nil => exact absurd rfl hnames
  | cons name names ih =>
    rw [List.cons_append, List.intercalate_cons_of_ne_nil (List.append_ne_nil_of_right_ne_nil _ hrest)]
    by_cases hnil : names = []
    · subst hnil
      rw [List.nil_append, List.intercalate_singleton, List.append_assoc]
      rfl
    · rw [ih hnil, List.intercalate_cons_of_ne_nil hnil]
      simp only [List.append_assoc]

/-- **A key lies below another** exactly when its path is longer and begins with the other's. -/
theorem isBelow_iff : IsBelow key' key ↔ components key <+: components key' ∧ key ≠ key' := by
  constructor
  · rintro ⟨rest, rfl⟩
    have hsplit : components (key ++ ['/'] ++ rest) = components key ++ components rest := by
      rw [List.append_assoc]
      exact List.splitOn_append_cons_self _ _
    refine ⟨hsplit ▸ List.prefix_append _ _, fun heq => ?_⟩
    have hlength := congrArg List.length heq
    simp only [List.length_append, List.length_singleton] at hlength
    omega
  · rintro ⟨⟨rest, hrest⟩, hne⟩
    have hmore : rest ≠ [] := by
      rintro rfl
      exact hne (components_injective ((List.append_nil _).symm.trans hrest))
    have hkey' := @List.intercalate_splitOn Char key' _ _ '/'
    change ['/'].intercalate (components key') = key' at hkey'
    rw [← hrest, intercalate_append (components_ne_nil key) hmore] at hkey'
    have hkey : ['/'].intercalate (components key) = key := List.intercalate_splitOn '/'
    rw [hkey] at hkey'
    exact ⟨['/'].intercalate rest, by rw [← hkey', List.append_assoc]; rfl⟩

end Jasil.Objects
