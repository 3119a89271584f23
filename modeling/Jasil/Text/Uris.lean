import Mathlib.Data.List.Basic
import Mathlib.Data.List.Infix

/-! # Schemes of URIs
The string methods that tell which scheme a URI has, on the characters of any string. What Unicode says of the
characters beyond ASCII is a parameter.

* **`partition`**: what stands before the first `://`, and after it.
* **`lower_plain`**, **`strip_plain`**: lowering and stripping leave a plain word at the start of a text where it
  is. -/

namespace Jasil

/-- The Unicode tables, as far as the methods of `str` ask them of characters beyond ASCII. -/
structure UnicodeData where
  /-- The lower case of a character, which may depend on what stands before it and after it. -/
  lowerChar : List Char → Char → List Char → List Char
  isSpace : Char → Bool
  isPrintable : Char → Bool

/-- `str.isascii` of a character. -/
def isAscii (c : Char) : Bool := c.toNat < 128

/-- The white space within ASCII. -/
def asciiSpaces : List Char :=
  ['\t', '\n', Char.ofNat 0x0b, Char.ofNat 0x0c, '\r', Char.ofNat 0x1c, Char.ofNat 0x1d, Char.ofNat 0x1e,
    Char.ofNat 0x1f, ' ']

namespace UnicodeData

variable (u : UnicodeData)

/-- `str.isspace` of a character. -/
def space (c : Char) : Bool := if isAscii c then decide (c ∈ asciiSpaces) else u.isSpace c

/-- `str.isprintable` of a character. -/
def printable (c : Char) : Bool :=
  if isAscii c then decide (32 ≤ c.toNat ∧ c.toNat < 127) else u.isPrintable c

/-- `str.strip`. -/
def strip (s : List Char) : List Char :=
  ((s.dropWhile u.space).reverse.dropWhile u.space).reverse

/-- The lower case of what follows `before`. -/
def lowerFrom (before : List Char) : List Char → List Char
  | [] => []
  | c :: rest =>
    (if isAscii c then [c.toLower] else u.lowerChar before c rest) ++ lowerFrom (before ++ [c]) rest

/-- `str.lower`. -/
def lower (s : List Char) : List Char := u.lowerFrom [] s

end UnicodeData

/-- `s.partition("://")`: what stands before the first separator, and after it when there is one. -/
def partition : List Char → List Char × Option (List Char)
  | [] => ([], none)
  | c :: rest =>
    if "://".toList <+: c :: rest then ([], some (rest.drop 2))
    else (c :: (partition rest).1, (partition rest).2)

/-- A string is what stands before its first separator, the separator and the rest. -/
theorem partition_eq (s : List Char) :
    s = (partition s).1 ++ (match (partition s).2 with
      | none => []
      | some rest => "://".toList ++ rest) := by
  induction s with
  | nil => rfl
  | cons c rest ih =>
    rw [partition]
    by_cases hsep : "://".toList <+: c :: rest
    · rw [if_pos hsep]
      obtain ⟨after, hafter⟩ := hsep
      rw [← hafter]
      obtain ⟨rfl, rfl⟩ := List.cons.inj hafter
      rfl
    · rw [if_neg hsep, List.cons_append]
      exact congrArg (c :: ·) ih

/-- A string that has the scheme `w` is `w` alone, or `w` before a separator. -/
theorem eq_or_prefix_of_partition {s w : List Char} (h : (partition s).1 = w) :
    s = w ∨ w ++ "://".toList <+: s := by
  have heq := partition_eq s
  rw [h] at heq
  cases hrest : (partition s).2 with
  | none =>
    rw [hrest, List.append_nil] at heq
    exact .inl heq
  | some rest =>
    rw [hrest, ← List.append_assoc] at heq
    exact .inr ⟨rest, heq.symm⟩

/-- A word without a colon before a separator is what stands before the first one. -/
theorem partition_append {w : List Char} (hw : ':' ∉ w) (rest : List Char) :
    partition (w ++ "://".toList ++ rest) = (w, some rest) := by
  induction w with
  | nil => rfl
  | cons c w ih =>
    rw [List.mem_cons, not_or] at hw
    have hsep : ¬ "://".toList <+: c :: (w ++ "://".toList ++ rest) := by
      rintro ⟨after, hafter⟩
      exact hw.1 (List.cons.inj hafter).1
    rw [List.cons_append, List.cons_append, partition, if_neg hsep, ih hw.2]

/-! ## Plain words -/

/-- Characters that `lower` and `strip` leave alone. -/
def Plain (w : List Char) : Prop := ∀ c ∈ w, isAscii c = true ∧ c.toLower = c ∧ c ∉ asciiSpaces

instance : DecidablePred Plain := fun w => List.decidableBAll _ w

section Plain

variable {u : UnicodeData} {w s : List Char}

/-- A plain word has no blank. -/
theorem space_of_plain (hw : Plain w) {c : Char} (hc : c ∈ w) : u.space c = false := by
  obtain ⟨hascii, -, hspace⟩ := hw c hc
  rw [UnicodeData.space, if_pos hascii]
  exact decide_eq_false hspace

/-- A plain word in lower case is itself. -/
theorem lowerFrom_plain (hw : Plain w) (before rest : List Char) :
    ∃ rest', u.lowerFrom before (w ++ rest) = w ++ rest' := by
  induction w generalizing before with
  | nil => exact ⟨_, rfl⟩
  | cons c w ih =>
    obtain ⟨hascii, hlower, -⟩ := hw c List.mem_cons_self
    obtain ⟨rest', hrest⟩ := ih (fun c hc => hw c (List.mem_cons_of_mem _ hc)) (before ++ [c])
    refine ⟨rest', ?_⟩
    rw [List.cons_append, UnicodeData.lowerFrom, hrest, if_pos hascii, hlower]
    rfl

/-- **Lowering** keeps a plain word at the start. -/
theorem lower_plain (hw : Plain w) (h : w <+: s) : w <+: u.lower s := by
  obtain ⟨rest, rfl⟩ := h
  obtain ⟨rest', hrest⟩ := lowerFrom_plain (u := u) hw [] rest
  exact ⟨rest', hrest.symm⟩

/-- Within ASCII each character is lowered on its own. -/
theorem lower_ascii (hs : ∀ c ∈ s, isAscii c = true) : u.lower s = s.map Char.toLower := by
  have hfrom (before : List Char) : u.lowerFrom before s = s.map Char.toLower := by
    induction s generalizing before with
    | nil => rfl
    | cons c s ih =>
      rw [UnicodeData.lowerFrom, ih (fun c hc => hs c (List.mem_cons_of_mem _ hc)),
        if_pos (hs c List.mem_cons_self)]
      rfl
  exact hfrom []

/-- Nothing is dropped of a plain word. -/
theorem dropWhile_plain (hw : Plain w) : w.dropWhile u.space = w := by
  cases w with
  | nil => rfl
  | cons c w =>
    rw [List.dropWhile_cons, space_of_plain hw List.mem_cons_self]
    rfl

/-- A plain word is its own lower case, stripped. -/
theorem lower_strip_self (hw : Plain w) : u.lower (u.strip w) = w := by
  have hrev : Plain w.reverse := fun c hc => hw c (List.mem_reverse.mp hc)
  have hstrip : u.strip w = w := by
    rw [UnicodeData.strip, dropWhile_plain hw, dropWhile_plain hrev, List.reverse_reverse]
  rw [hstrip, lower_ascii fun c hc => (hw c hc).1]
  exact (List.map_congr_left fun c hc => (hw c hc).2.1).trans (List.map_id w)

/-- **Stripping** keeps a plain word at the start. -/
theorem strip_plain (hw : Plain w) (hne : w ≠ []) (h : w <+: s) : w <+: u.strip s := by
  obtain ⟨rest, rfl⟩ := h
  have hfront : (w ++ rest).dropWhile u.space = w ++ rest := by
    cases w with
    | nil => exact absurd rfl hne
    | cons c w =>
      rw [List.cons_append, List.dropWhile_cons, space_of_plain hw List.mem_cons_self]
      rfl
  rw [UnicodeData.strip, hfront, List.reverse_append]
  -- what is dropped at the end is at most the rest
  have hend : w.reverse <:+ (rest.reverse ++ w.reverse).dropWhile u.space := by
    rw [List.dropWhile_append]
    split
    · rw [dropWhile_plain fun c hc => hw c (List.mem_reverse.mp hc)]
    · exact List.suffix_append _ _
  simpa using List.reverse_prefix.mpr hend

/-- A plain word stands at the start of the lowered text too. -/
theorem lower_strip_plain (hw : Plain w) (hne : w ≠ []) (h : w <+: s) :
    w <+: u.lower (u.strip s) :=
  lower_plain hw (strip_plain hw hne h)

end Plain

end Jasil
