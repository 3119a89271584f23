import Jasil.Text.Utf8Prefixes

/-! # Texts with surrogates
A Python `str` is a list of code points, and a surrogate is a code point though it is no character: a decoder
can let one in, and strict UTF-8 has no bytes for it.

* **`chars`**: the characters of a text without surrogates, which is a text that UTF-8 has bytes for.
* **`decodeBytes`**: how the JSON reader decodes bytes, with the encoding read off their first four
  (`detectEncoding`) and surrogates let through.
* **`decode_utf8`**: the bytes of a text are decoded as the text. -/

namespace Jasil

/-- A code point: a character or a surrogate. -/
inductive CodePoint
  | char (c : Char)
  | surrogate (n : Fin 2048)
  deriving DecidableEq

/-- A Python `str`. -/
abbrev Str := List CodePoint

namespace CodePoint

/-- The code point with this number, up to U+10FFFF. -/
def ofCode (n : ℕ) : Option CodePoint :=
  if n.isValidChar then some (.char (Char.ofNat n))
  else if h : 0xD800 ≤ n ∧ n - 0xD800 < 2048 then some (.surrogate ⟨n - 0xD800, h.2⟩)
  else none

/-- The code point of a surrogate pair. -/
def ofPair (high low : ℕ) : Option CodePoint := ofCode (0x10000 + (high - 0xD800) * 1024 + (low - 0xDC00))

end CodePoint

/-- The first half of a surrogate pair. -/
def IsHighSurrogate (n : ℕ) : Prop := 0xD800 ≤ n ∧ n ≤ 0xDBFF

/-- The second half. -/
def IsLowSurrogate (n : ℕ) : Prop := 0xDC00 ≤ n ∧ n ≤ 0xDFFF

instance decidableIsHighSurrogate (n : ℕ) : Decidable (IsHighSurrogate n) := inferInstanceAs (Decidable (_ ∧ _))

instance decidableIsLowSurrogate (n : ℕ) : Decidable (IsLowSurrogate n) := inferInstanceAs (Decidable (_ ∧ _))

namespace Str

/-! ## Characters -/

/-- A text without surrogates. -/
def ofChars (cs : List Char) : Str := cs.map .char

/-- The characters of a text, if there is no surrogate in it. -/
def chars : Str → Option (List Char)
  | [] => some []
  | .char c :: s => (chars s).map (c :: ·)
  | .surrogate _ :: _ => none

/-- The characters before the first surrogate. -/
def leading : Str → List Char
  | .char c :: s => c :: leading s
  | _ => []

/-- The surrogates of a text. -/
def surrogates : Str → List (Fin 2048)
  | [] => []
  | .char _ :: s => surrogates s
  | .surrogate n :: s => n :: surrogates s

/-- The empty text. -/
@[simp] theorem ofChars_nil : ofChars [] = [] := rfl

/-- A text with a first character. -/
@[simp] theorem ofChars_cons (c : Char) (cs : List Char) : ofChars (c :: cs) = .char c :: ofChars cs := rfl

/-- Two texts, one after the other. -/
@[simp] theorem ofChars_append (cs cs' : List Char) : ofChars (cs ++ cs') = ofChars cs ++ ofChars cs' :=
  List.map_append

/-- There are as many code points as characters. -/
@[simp] theorem length_ofChars (cs : List Char) : (ofChars cs).length = cs.length := List.length_map _

/-- Different texts have different code points. -/
theorem ofChars_injective : Function.Injective ofChars :=
    List.map_injective_iff.mpr fun _ _ => CodePoint.char.inj

/-- The surrogates of two texts. -/
@[simp] theorem surrogates_append (s t : Str) : surrogates (s ++ t) = surrogates s ++ surrogates t := by
  induction s with
  | nil => rfl
  | cons p s ih =>
    cases p with
    | char c => exact ih
    | surrogate n => exact congrArg (n :: ·) ih

/-- Characters are no surrogates. -/
@[simp] theorem surrogates_ofChars (cs : List Char) : surrogates (ofChars cs) = [] := by
  induction cs with
  | nil => rfl
  | cons c cs ih => exact ih

/-- A text has characters only, exactly when it has no surrogate. -/
theorem chars_isSome_iff (s : Str) : (chars s).isSome ↔ surrogates s = [] := by
  induction s with
  | nil => simp [chars, surrogates]
  | cons p s ih => cases p <;> simp [chars, surrogates, ih]

/-- A text of characters only. -/
theorem eq_ofChars {s : Str} {cs : List Char} (h : chars s = some cs) : s = ofChars cs := by
  induction s generalizing cs with
  | nil =>
    obtain rfl := Option.some.inj h
    rfl
  | cons p s ih =>
    cases p with
    | char c =>
      obtain ⟨tail, htail, rfl⟩ := Option.map_eq_some_iff.mp h
      rw [ofChars_cons, ← ih htail]
    | surrogate n => cases h

/-- The characters that a text leads with. -/
theorem leading_ofChars_append (cs : List Char) (s : Str) :
    leading (ofChars cs ++ s) = cs ++ leading s := by
  induction cs with
  | nil => rfl
  | cons c cs ih => exact congrArg (c :: ·) ih

/-- What follows the leading characters. -/
theorem drop_leading (s : Str) : ofChars (leading s) ++ s.drop (leading s).length = s := by
  induction s with
  | nil => rfl
  | cons p s ih =>
    cases p with
    | char c => exact congrArg (CodePoint.char c :: ·) ih
    | surrogate n => rfl

end Str

/-! ## Encodings -/

open CodePoint

/-- `str.encode()`: strict UTF-8. -/
def encodeUtf8 (s : Str) : Option (List UInt8) := (Str.chars s).map utf8

/-- Decode code point by code point, at most `fuel` of them. -/
def decodeAll (read : List UInt8 → Option (CodePoint × List UInt8)) : ℕ → List UInt8 → Option Str
  | _, [] => some []
  | 0, _ :: _ => none
  | fuel + 1, b :: bytes => do
    let (p, rest) ← read (b :: bytes)
    let s ← decodeAll read fuel rest
    some (p :: s)

/-- A surrogate in the three bytes it would have in UTF-8. -/
def readSurrogate : List UInt8 → Option (CodePoint × List UInt8)
  | a :: b :: c :: rest =>
    if a = 0xED ∧ 0xA0 ≤ b ∧ b ≤ 0xBF ∧ 0x80 ≤ c ∧ c ≤ 0xBF then
      (ofCode (0xD000 + (b.toNat - 0x80) * 64 + (c.toNat - 0x80))).map (·, rest)
    else none
  | _ => none

/-- A code point in UTF-8. -/
def readUtf8 (bytes : List UInt8) : Option (CodePoint × List UInt8) :=
  match bytes.toByteArray.utf8DecodeChar? 0 with
  | some c => some (.char c, bytes.drop c.utf8Size)
  | none => readSurrogate bytes

/-- The number that two bytes are. -/
def unit16 (big : Bool) (a b : UInt8) : ℕ :=
  if big then a.toNat * 256 + b.toNat else b.toNat * 256 + a.toNat

/-- A code point in UTF-16. A surrogate outside a pair is read as it is. -/
def readUtf16 (big : Bool) : List UInt8 → Option (CodePoint × List UInt8)
  | a :: b :: c :: d :: rest =>
    if IsHighSurrogate (unit16 big a b) ∧ IsLowSurrogate (unit16 big c d) then
      (ofPair (unit16 big a b) (unit16 big c d)).map (·, rest)
    else (ofCode (unit16 big a b)).map (·, c :: d :: rest)
  | a :: b :: rest => (ofCode (unit16 big a b)).map (·, rest)
  | _ => none

/-- A code point in UTF-32. -/
def readUtf32 (big : Bool) : List UInt8 → Option (CodePoint × List UInt8)
  | a :: b :: c :: d :: rest =>
    let code := if big then unit16 big a b * 65536 + unit16 big c d
      else unit16 big c d * 65536 + unit16 big a b
    (ofCode code).map (·, rest)
  | _ => none

/-- What `json.detect_encoding` finds. -/
inductive Encoding
  | utf8
  /-- With a byte order mark. -/
  | utf8Sig
  | utf16 (big : Bool)
  /-- With a byte order mark. -/
  | utf16Bom (big : Bool)
  | utf32 (big : Bool)
  /-- With a byte order mark. -/
  | utf32Bom (big : Bool)

/-- `json.detect_encoding`: the byte order mark, or else where the first four bytes are zero. -/
def detectEncoding (bytes : List UInt8) : Encoding :=
  if [0x00, 0x00, 0xFE, 0xFF] <+: bytes then .utf32Bom true
  else if [0xFF, 0xFE, 0x00, 0x00] <+: bytes then .utf32Bom false
  else if [0xFE, 0xFF] <+: bytes then .utf16Bom true
  else if [0xFF, 0xFE] <+: bytes then .utf16Bom false
  else if [0xEF, 0xBB, 0xBF] <+: bytes then .utf8Sig
  else
    match bytes with
    | a :: b :: c :: d :: _ =>
      if a = 0 then if b ≠ 0 then .utf16 true else .utf32 true
      else if b = 0 then if c ≠ 0 ∨ d ≠ 0 then .utf16 false else .utf32 false
      else .utf8
    | [a, b] => if a = 0 then .utf16 true else if b = 0 then .utf16 false else .utf8
    | _ => .utf8

/-- `bytes.decode(detect_encoding(bytes), "surrogatepass")`. -/
def decodeBytes (bytes : List UInt8) : Option Str :=
  match detectEncoding bytes with
  | .utf8 => decodeAll readUtf8 bytes.length bytes
  | .utf8Sig => decodeAll readUtf8 bytes.length (bytes.drop 3)
  | .utf16 big => decodeAll (readUtf16 big) bytes.length bytes
  | .utf16Bom big => decodeAll (readUtf16 big) bytes.length (bytes.drop 2)
  | .utf32 big => decodeAll (readUtf32 big) bytes.length bytes
  | .utf32Bom big => decodeAll (readUtf32 big) bytes.length (bytes.drop 4)

/-- A character is read from its bytes. -/
theorem readUtf8_utf8 (c : Char) (rest : List UInt8) :
    readUtf8 (String.utf8EncodeChar c ++ rest) = some (.char c, rest) := by
  have hread : (String.utf8EncodeChar c ++ rest).toByteArray.utf8DecodeChar? 0 = some c := by
    rw [List.toByteArray_append]
    exact ByteArray.utf8DecodeChar?_utf8EncodeChar_append
  rw [readUtf8, hread]
  dsimp only
  rw [← String.length_utf8EncodeChar, List.drop_left]

/-- Each code point takes a byte at least, so there is fuel for as many as there are bytes. -/
theorem decodeAll_utf8 (cs : List Char) {fuel : ℕ} (h : (utf8 cs).length ≤ fuel) :
    decodeAll readUtf8 fuel (utf8 cs) = some (Str.ofChars cs) := by
  induction cs generalizing fuel with
  | nil =>
    cases fuel <;> rfl
  | cons c cs ih =>
    have hread := readUtf8_utf8 c (utf8 cs)
    have hsplit : utf8 (c :: cs) = String.utf8EncodeChar c ++ utf8 cs := List.flatMap_cons
    have hpos : 0 < (String.utf8EncodeChar c).length := by
      rw [String.length_utf8EncodeChar]
      exact c.utf8Size_pos
    rw [hsplit, List.length_append] at h
    obtain ⟨fuel, rfl⟩ : ∃ n, fuel = n + 1 := ⟨fuel - 1, by omega⟩
    obtain ⟨b, bytes, hbytes⟩ := List.exists_cons_of_length_pos (l := utf8 (c :: cs)) (by
      rw [hsplit, List.length_append]
      omega)
    rw [hbytes, decodeAll, ← hbytes, hsplit, hread]
    simp only [Option.bind_eq_bind, Option.bind_some, @ih fuel (by omega), Str.ofChars_cons]

/-- Two bytes of ASCII, other than zero, show the encoding to be UTF-8. -/
theorem detectEncoding_ascii {a b : UInt8} (ha : a < 128) (ha' : a ≠ 0) (hb : b ≠ 0) (bytes : List UInt8) :
    detectEncoding (a :: b :: bytes) = .utf8 := by
  have hmark (c : UInt8) (mark : List UInt8) (hc : c = 0 ∨ 128 ≤ c) : ¬(c :: mark <+: a :: b :: bytes) := by
    intro h
    obtain rfl := (List.cons_prefix_cons.mp h).1
    rcases hc with rfl | hc
    · exact ha' rfl
    · exact UInt8.not_lt.mpr hc ha
  unfold detectEncoding
  rw [if_neg (hmark _ _ (.inl rfl)), if_neg (hmark _ _ (.inr (by decide))),
    if_neg (hmark _ _ (.inr (by decide))), if_neg (hmark _ _ (.inr (by decide))),
    if_neg (hmark _ _ (.inr (by decide)))]
  rcases bytes with _ | ⟨c, _ | ⟨d, bytes⟩⟩
  · exact (if_neg ha').trans (if_neg hb)
  · rfl
  · exact (if_neg ha').trans (if_neg hb)

/-- **The bytes of a text are decoded as the text**, when it starts with two characters of ASCII. -/
theorem decode_utf8 {a b : Char} {cs : List Char} (ha : a.toNat < 128) (ha' : a.toNat ≠ 0) (hb : b.toNat < 128)
    (hb' : b.toNat ≠ 0) : decodeBytes (utf8 (a :: b :: cs)) = some (Str.ofChars (a :: b :: cs)) := by
  have hbyte {c : Char} (hc : c.toNat < 128) : String.utf8EncodeChar c = [UInt8.ofNat c.toNat] := by
    rcases utf8EncodeChar_cases c with h | h
    · exact h.2
    · exact absurd hc (by omega)
  have hzero {c : Char} (hc : c.toNat < 128) (hc' : c.toNat ≠ 0) : UInt8.ofNat c.toNat ≠ 0 := by
    intro h
    have hnat := congrArg UInt8.toNat h
    rw [UInt8.toNat_ofNat', UInt8.toNat_zero] at hnat
    omega
  have hsmall : UInt8.ofNat a.toNat < 128 := by
    rw [UInt8.lt_iff_toNat_lt, UInt8.toNat_ofNat']
    exact lt_of_le_of_lt (Nat.mod_le _ _) ha
  have hdetect : detectEncoding (utf8 (a :: b :: cs)) = .utf8 := by
    rw [utf8, List.flatMap_cons, List.flatMap_cons, hbyte ha, hbyte hb]
    exact detectEncoding_ascii hsmall (hzero ha ha') (hzero hb hb') _
  rw [decodeBytes, hdetect]
  exact decodeAll_utf8 _ le_rfl

end Jasil
