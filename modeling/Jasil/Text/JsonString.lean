import Mathlib.Data.Bool.AllAny
import Mathlib.Data.Char
import Mathlib.Tactic.IntervalCases
import Mathlib.Tactic.NormNum

/-! # JSON strings in ASCII
How a JSON writer that keeps to ASCII quotes a text, and how a reader takes the quotes off again:

* **`escapeChar`**, **`quote`**: printable ASCII as it is, the rest as escapes; a character beyond the
  first 65536 as a surrogate pair.
* **`readString`**: the text between two quotation marks, and what follows it. A lone surrogate is no
  `Char`: a string with one is not read.
* **`readString_quote`**: what was quoted is read back, whatever follows it. -/

namespace Jasil

namespace JsonString

/-! ## Four hexadecimal digits -/

/-- The value of a hexadecimal digit, in either case. -/
def hexValue (c : Char) : Option ℕ :=
  if '0' ≤ c ∧ c ≤ '9' then some (c.toNat - 48)
  else if 'a' ≤ c ∧ c ≤ 'f' then some (c.toNat - 87)
  else if 'A' ≤ c ∧ c ≤ 'F' then some (c.toNat - 55)
  else none

/-- `n`, below 65536, in four digits. -/
def hex4 (n : ℕ) : List Char :=
  [(n / 4096).digitChar, (n / 256 % 16).digitChar, (n / 16 % 16).digitChar, (n % 16).digitChar]

/-- Read a number of four digits off the front. -/
def readHex4 : List Char → Option (ℕ × List Char)
  | a :: b :: c :: d :: rest => do
    let a ← hexValue a
    let b ← hexValue b
    let c ← hexValue c
    let d ← hexValue d
    some (a * 4096 + b * 256 + c * 16 + d, rest)
  | _ => none

/-- A digit has its value. -/
theorem hexValue_digitChar {n : ℕ} (h : n < 16) : hexValue n.digitChar = some n := by
  interval_cases n <;> decide

/-- Four digits are read back. -/
theorem readHex4_hex4 {n : ℕ} (h : n < 65536) (rest : List Char) :
    readHex4 (hex4 n ++ rest) = some (n, rest) := by
  have h₁ : n / 4096 < 16 := by omega
  have h₂ : n / 256 % 16 < 16 := by omega
  have h₃ : n / 16 % 16 < 16 := by omega
  have h₄ : n % 16 < 16 := by omega
  have hsum : n / 4096 * 4096 + n / 256 % 16 * 256 + n / 16 % 16 * 16 + n % 16 = n := by omega
  simp only [hex4, List.cons_append, List.nil_append, readHex4, hexValue_digitChar h₁,
    hexValue_digitChar h₂, hexValue_digitChar h₃, hexValue_digitChar h₄, Option.bind_eq_bind,
    Option.bind_some, hsum]

/-! ## One character -/

/-- `\uXXXX`. -/
def unicodeEscape (n : ℕ) : List Char := '\\' :: 'u' :: hex4 n

/-- What stands for `c` between the quotation marks. -/
def escapeChar (c : Char) : List Char :=
  if c = '"' then ['\\', '"']
  else if c = '\\' then ['\\', '\\']
  else if c = '\n' then ['\\', 'n']
  else if c = '\r' then ['\\', 'r']
  else if c = '\t' then ['\\', 't']
  else if c.toNat = 12 then ['\\', 'f']
  else if c.toNat = 8 then ['\\', 'b']
  else if ' ' ≤ c ∧ c ≤ '~' then [c]
  else if c.toNat < 0x10000 then unicodeEscape c.toNat
  else
    let v := c.toNat - 0x10000
    unicodeEscape (0xD800 + v / 1024) ++ unicodeEscape (0xDC00 + v % 1024)

/-- The character with this code. -/
def ofCode (n : ℕ) (rest : List Char) : Option (Char × List Char) :=
  if n.isValidChar then some (Char.ofNat n, rest) else none

/-- Read what follows `\u`. -/
def readUnicode (cs : List Char) : Option (Char × List Char) := do
  let (high, rest) ← readHex4 cs
  if 0xD800 ≤ high ∧ high ≤ 0xDBFF then
    match rest with
    | '\\' :: 'u' :: rest =>
      let (low, rest) ← readHex4 rest
      if 0xDC00 ≤ low ∧ low ≤ 0xDFFF then
        ofCode (0x10000 + (high - 0xD800) * 1024 + (low - 0xDC00)) rest
      else none
    | _ => none
  else ofCode high rest

/-- Read what follows a backslash. -/
def readEscape : List Char → Option (Char × List Char)
  | '"' :: cs => some ('"', cs)
  | '\\' :: cs => some ('\\', cs)
  | '/' :: cs => some ('/', cs)
  | 'b' :: cs => some (Char.ofNat 8, cs)
  | 'f' :: cs => some (Char.ofNat 12, cs)
  | 'n' :: cs => some ('\n', cs)
  | 'r' :: cs => some ('\r', cs)
  | 't' :: cs => some ('\t', cs)
  | 'u' :: cs => readUnicode cs
  | _ => none

/-- Read one character of a string; a control character has to be escaped. -/
def readChar : List Char → Option (Char × List Char)
  | [] => none
  | c :: cs =>
    if c = '\\' then readEscape cs
    else if c = '"' ∨ c < ' ' then none
    else some (c, cs)

/-- A character's number is its code. -/
theorem ofCode_toNat (c : Char) (rest : List Char) : ofCode c.toNat rest = some (c, rest) := by
  have hc : c.toNat.isValidChar := c.valid
  rw [ofCode, if_pos hc, Char.ofNat_toNat]

/-- The code of a character is no surrogate. -/
theorem toNat_not_surrogate (c : Char) : c.toNat < 0xD800 ∨ 0xDFFF < c.toNat := by
  rcases c.valid with h | ⟨h, -⟩
  · exact .inl h
  · exact .inr h

/-- A character's number is below the end of Unicode. -/
theorem toNat_lt (c : Char) : c.toNat < 0x110000 := by
  rcases c.valid with h | ⟨-, h⟩
  · exact lt_trans (show c.toNat < 0xD800 from h) (by norm_num)
  · exact h

/-- An escape is read back. -/
theorem readUnicode_hex4 {c : Char} (h : c.toNat < 0x10000) (rest : List Char) :
    readUnicode (hex4 c.toNat ++ rest) = some (c, rest) := by
  have hs := toNat_not_surrogate c
  have hn : ¬(0xD800 ≤ c.toNat ∧ c.toNat ≤ 0xDBFF) := by omega
  rw [readUnicode, readHex4_hex4 h]
  simp only [Option.bind_eq_bind, Option.bind_some, if_neg hn, ofCode_toNat]

/-- A pair of surrogates is read back as its character. -/
theorem readUnicode_surrogates {high low : ℕ} (hh : 0xD800 ≤ high ∧ high ≤ 0xDBFF)
    (hl : 0xDC00 ≤ low ∧ low ≤ 0xDFFF) (rest : List Char) :
    readUnicode (hex4 high ++ (unicodeEscape low ++ rest))
      = ofCode (0x10000 + (high - 0xD800) * 1024 + (low - 0xDC00)) rest := by
  have hh' : high < 65536 := lt_of_le_of_lt hh.2 (by norm_num)
  have hl' : low < 65536 := lt_of_le_of_lt hl.2 (by norm_num)
  rw [readUnicode, readHex4_hex4 hh']
  simp only [Option.bind_eq_bind, Option.bind_some, if_pos hh, unicodeEscape, List.cons_append,
    readHex4_hex4 hl', if_pos hl]

/-- A surrogate pair is read as the one character it stands for. -/
theorem readUnicode_pair {c : Char} (h : 0x10000 ≤ c.toNat) (rest : List Char) :
    readUnicode (hex4 (0xD800 + (c.toNat - 0x10000) / 1024)
      ++ (unicodeEscape (0xDC00 + (c.toNat - 0x10000) % 1024) ++ rest)) = some (c, rest) := by
  have hlt := toNat_lt c
  have hsum : 0x10000 + (0xD800 + (c.toNat - 0x10000) / 1024 - 0xD800) * 1024
      + (0xDC00 + (c.toNat - 0x10000) % 1024 - 0xDC00) = c.toNat := by omega
  rw [readUnicode_surrogates (by omega) (by omega), hsum, ofCode_toNat]

/-- **An escaped character is read back**, whatever follows it. -/
theorem readChar_escapeChar (c : Char) (rest : List Char) :
    readChar (escapeChar c ++ rest) = some (c, rest) := by
  unfold escapeChar
  split_ifs with hquote hback hnl hcr htab hff hbs hprint hlow
  · subst hquote; rfl
  · subst hback; rfl
  · subst hnl; rfl
  · subst hcr; rfl
  · subst htab; rfl
  · have hc : c = Char.ofNat 12 := by rw [← hff, Char.ofNat_toNat]
    subst hc; rfl
  · have hc : c = Char.ofNat 8 := by rw [← hbs, Char.ofNat_toNat]
    subst hc; rfl
  · have hnot : ¬(c = '"' ∨ c < ' ') := not_or.mpr ⟨hquote, not_lt.mpr hprint.1⟩
    rw [List.singleton_append, readChar, if_neg hback, if_neg hnot]
  · exact readUnicode_hex4 hlow rest
  · rw [List.append_assoc]
    exact readUnicode_pair (not_lt.mp hlow) rest

/-- A printable character with no meaning in a string stands for itself. -/
theorem escapeChar_plain {c : Char} (hq : c ≠ '"') (hb : c ≠ '\\') (h : ' ' ≤ c ∧ c ≤ '~') :
    escapeChar c = [c] := by
  have hcontrol {d : Char} (hd : d < ' ') : c ≠ d := by
    rintro rfl
    exact absurd hd (not_lt.mpr h.1)
  have hn : c ≠ '\n' := hcontrol (by decide)
  have hr : c ≠ '\r' := hcontrol (by decide)
  have ht : c ≠ '\t' := hcontrol (by decide)
  have hlow : 32 ≤ c.toNat := h.1
  rw [escapeChar, if_neg hq, if_neg hb, if_neg hn, if_neg hr, if_neg ht, if_neg (by omega),
    if_neg (by omega), if_pos h]

/-- A digit is ASCII. -/
theorem toNat_digitChar_lt {n : ℕ} (h : n < 16) : n.digitChar.toNat < 128 := by
  interval_cases n <;> decide

/-- So is an escape. -/
theorem ascii_unicodeEscape {n : ℕ} (h : n < 65536) : ∀ d ∈ unicodeEscape n, d.toNat < 128 := by
  have h₁ : (n / 4096).digitChar.toNat < 128 := toNat_digitChar_lt (by omega)
  have h₂ : (n / 256 % 16).digitChar.toNat < 128 := toNat_digitChar_lt (by omega)
  have h₃ : (n / 16 % 16).digitChar.toNat < 128 := toNat_digitChar_lt (by omega)
  have h₄ : (n % 16).digitChar.toNat < 128 := toNat_digitChar_lt (by omega)
  have hb : '\\'.toNat < 128 := by decide
  have hu : 'u'.toNat < 128 := by decide
  simp only [unicodeEscape, hex4, List.forall_mem_cons]
  exact ⟨hb, hu, h₁, h₂, h₃, h₄, by simp⟩

/-- An escape is ASCII. -/
theorem ascii_escapeChar (c : Char) : ∀ d ∈ escapeChar c, d.toNat < 128 := by
  have hlt := toNat_lt c
  unfold escapeChar
  split_ifs with hquote hback hnl hcr htab hff hbs hprint hlow
  iterate 7 exact List.all_iff_forall_prop.mp (by decide)
  · intro d hd
    rw [List.mem_singleton.mp hd]
    have htilde : c.toNat ≤ 126 := hprint.2
    omega
  · exact ascii_unicodeEscape hlow
  · intro d hd
    rcases List.mem_append.mp hd with hd | hd
    · exact ascii_unicodeEscape (by omega) d hd
    · exact ascii_unicodeEscape (by omega) d hd

/-- An escape is at most six characters, unless it is a surrogate pair. -/
theorem length_escapeChar_le {c : Char} (h : c.toNat < 0x10000) : (escapeChar c).length ≤ 6 := by
  unfold escapeChar
  split_ifs
  iterate 7 decide
  · simp
  · simp [unicodeEscape, hex4]

/-- No escape starts with a quotation mark. -/
theorem escapeChar_ne_quote (c : Char) (rest cs : List Char) :
    escapeChar c ++ rest ≠ '"' :: cs := by
  intro h
  have hr := readChar_escapeChar c rest
  rw [h] at hr
  exact absurd hr (by simp [readChar])

/-! ## A string -/

/-- What stands between the quotation marks. -/
def escape (s : List Char) : List Char := s.flatMap escapeChar

/-- `s` in quotation marks. -/
def quote (s : List Char) : List Char := '"' :: (escape s ++ ['"'])

/-- Read up to the closing quotation mark, at most `fuel` characters. -/
def readBody : ℕ → List Char → Option (List Char × List Char)
  | 0, _ => none
  | _ + 1, '"' :: cs => some ([], cs)
  | fuel + 1, cs => do
    let (c, cs) ← readChar cs
    let (s, cs) ← readBody fuel cs
    some (c :: s, cs)

/-- Read a string off the front. -/
def readString : List Char → Option (List Char × List Char)
  | '"' :: cs => readBody (cs.length + 1) cs
  | _ => none

/-- An escaped character has a sign. -/
theorem one_le_length_escapeChar (c : Char) : 1 ≤ (escapeChar c).length := by
  rcases hc : escapeChar c with _ | ⟨d, ds⟩
  · have hr := readChar_escapeChar c []
    rw [hc] at hr
    exact absurd hr (by simp [readChar])
  · simp

/-- Escaping makes a text no shorter. -/
theorem length_le_length_escape (s : List Char) : s.length ≤ (escape s).length := by
  induction s with
  | nil => simp
  | cons c s ih =>
    have hc := one_le_length_escapeChar c
    simp only [escape, List.flatMap_cons, List.length_append, List.length_cons] at ih ⊢
    omega

/-- A quoted text is ASCII. -/
theorem ascii_quote (s : List Char) : ∀ d ∈ quote s, d.toNat < 128 := by
  have hq : '"'.toNat < 128 := by decide
  intro d hd
  simp only [quote, List.mem_cons, List.mem_append, List.not_mem_nil, or_false] at hd
  rcases hd with rfl | hd | rfl
  · exact hq
  · obtain ⟨c, -, hd⟩ := List.mem_flatMap.mp hd
    exact ascii_escapeChar c d hd
  · exact hq

/-- An escape has at most six signs. -/
theorem length_escape_le {s : List Char} (h : ∀ c ∈ s, c.toNat < 0x10000) :
    (escape s).length ≤ 6 * s.length := by
  induction s with
  | nil => simp [escape]
  | cons c s ih =>
    obtain ⟨hc, hs⟩ := List.forall_mem_cons.mp h
    have hfirst := length_escapeChar_le hc
    have hrest := ih hs
    simp only [escape, List.flatMap_cons, List.length_append, List.length_cons] at hrest ⊢
    omega

/-- A text of printable characters with no meaning in a string is only put in quotation marks. -/
theorem escape_plain {s : List Char} (h : ∀ c ∈ s, c ≠ '"' ∧ c ≠ '\\' ∧ ' ' ≤ c ∧ c ≤ '~') :
    escape s = s := by
  induction s with
  | nil => rfl
  | cons c s ih =>
    obtain ⟨⟨hq, hb, hp⟩, hs⟩ := List.forall_mem_cons.mp h
    have hrest := ih hs
    rw [escape] at hrest ⊢
    rw [List.flatMap_cons, escapeChar_plain hq hb hp, hrest, List.singleton_append]

/-- What was escaped is read back. -/
theorem readBody_escape {fuel : ℕ} (s : List Char) (h : s.length < fuel) (rest : List Char) :
    readBody fuel (escape s ++ '"' :: rest) = some (s, rest) := by
  induction s generalizing fuel with
  | nil =>
    obtain ⟨fuel, rfl⟩ := Nat.exists_eq_add_one_of_ne_zero (Nat.ne_of_gt h)
    rfl
  | cons c s ih =>
    obtain ⟨fuel, rfl⟩ := Nat.exists_eq_add_one_of_ne_zero (Nat.ne_zero_of_lt h)
    have hs : s.length < fuel := by simpa using h
    have hcons : escape (c :: s) ++ '"' :: rest
        = escapeChar c ++ (escape s ++ '"' :: rest) := by
      simp [escape, List.flatMap_cons, List.append_assoc]
    rw [hcons, readBody.eq_3 _ _ (fun cs heq => escapeChar_ne_quote c _ cs heq),
      readChar_escapeChar]
    simp only [Option.bind_eq_bind, Option.bind_some, ih hs]

/-- **What was quoted is read back**, whatever follows it. -/
theorem readString_quote (s rest : List Char) : readString (quote s ++ rest) = some (s, rest) := by
  have hlen := length_le_length_escape s
  have happ : quote s ++ rest = '"' :: (escape s ++ '"' :: rest) := by
    simp [quote, List.append_assoc]
  rw [happ, readString, readBody_escape]
  simp only [List.length_append, List.length_cons]
  omega

end JsonString

end Jasil
