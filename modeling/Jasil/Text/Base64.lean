import Mathlib.Data.List.DropRight
import Mathlib.Tactic.IntervalCases

/-! # UTF-8 and URL-safe Base64
A text as bytes, and bytes as letters, digits, `-` and `_`, three bytes to four of them and `=` for what is
missing at the end. The reader takes `+` for `-` and `/` for `_` too, and nothing after the padding.

* **`ofUtf8_utf8`**: a text is read back from its bytes.
* **`decode_encode`**: what was encoded is decoded.
* **`pad_strip_encode`**: the padding may be left out and added again. -/

namespace Jasil

/-! ## Texts as bytes -/

/-- `text.encode()`. -/
def utf8 (cs : List Char) : List UInt8 := cs.flatMap String.utf8EncodeChar

/-- `bytes.decode()`. -/
def ofUtf8 (bytes : List UInt8) : Option (List Char) :=
  bytes.toByteArray.utf8Decode?.map Array.toList

/-- UTF-8 is decoded to what was encoded. -/
theorem ofUtf8_utf8 (cs : List Char) : ofUtf8 (utf8 cs) = some cs := by
  have h := List.utf8Decode?_utf8Encode (l := cs)
  rw [List.utf8Encode] at h
  rw [ofUtf8, utf8, h, Option.map_some, List.toList_toArray]

/-- ASCII takes one byte a character. -/
theorem length_utf8 {cs : List Char} (h : ∀ c ∈ cs, c.toNat < 128) : (utf8 cs).length = cs.length := by
  induction cs with
  | nil => rfl
  | cons c cs ih =>
    obtain ⟨hc, hcs⟩ := List.forall_mem_cons.mp h
    have hsize : c.utf8Size = 1 := by
      rw [Char.utf8Size_eq_one_iff, UInt32.le_iff_toNat_le]
      exact Nat.le_of_lt_succ hc
    rw [utf8, List.flatMap_cons, List.length_append, String.length_utf8EncodeChar, hsize,
      List.length_cons, ← ih hcs, utf8, Nat.add_comm]

/-! ## Bytes as signs -/

namespace Base64

/-- The sign for a number below 64. -/
def sign (n : ℕ) : Char :=
  if n < 26 then Char.ofNat (65 + n)
  else if n < 52 then Char.ofNat (71 + n)
  else if n < 62 then Char.ofNat (n - 4)
  else if n = 62 then '-' else '_'

/-- The number a sign stands for. -/
def value (c : Char) : Option ℕ :=
  if 'A' ≤ c ∧ c ≤ 'Z' then some (c.toNat - 65)
  else if 'a' ≤ c ∧ c ≤ 'z' then some (c.toNat - 71)
  else if '0' ≤ c ∧ c ≤ '9' then some (c.toNat + 4)
  else if c = '-' ∨ c = '+' then some 62
  else if c = '_' ∨ c = '/' then some 63
  else none

/-- `base64.urlsafe_b64encode`. -/
def encode : List UInt8 → List Char
  | a :: b :: c :: rest =>
    sign (a.toNat / 4) :: sign (a.toNat % 4 * 16 + b.toNat / 16)
      :: sign (b.toNat % 16 * 4 + c.toNat / 64) :: sign (c.toNat % 64) :: encode rest
  | [a, b] =>
    [sign (a.toNat / 4), sign (a.toNat % 4 * 16 + b.toNat / 16), sign (b.toNat % 16 * 4), '=']
  | [a] => [sign (a.toNat / 4), sign (a.toNat % 4 * 16), '=', '=']
  | [] => []

/-- The three bytes of four signs. -/
def decodeGroup (a b c d : Char) : Option (List UInt8) := do
  let a ← value a
  let b ← value b
  let c ← value c
  let d ← value d
  some [.ofNat (a * 4 + b / 16), .ofNat (b % 16 * 16 + c / 4), .ofNat (c % 4 * 64 + d)]

/-- `base64.b64decode(text, altchars=b"-_", validate=True)`. Only the last group may be padded; the
bits that the padding cuts off are not looked at. -/
def decode : List Char → Option (List UInt8)
  | [] => some []
  | [a, b, '=', '='] => (decodeGroup a b 'A' 'A').map (·.take 1)
  | [a, b, c, '='] => (decodeGroup a b c 'A').map (·.take 2)
  | a :: b :: c :: d :: rest => do
    let group ← decodeGroup a b c d
    let bytes ← decode rest
    some (group ++ bytes)
  | _ => none

/-- `base64.b64decode(text, validate=True)`: the signs are the standard ones. -/
def decodeStandard (cs : List Char) : Option (List UInt8) :=
  if '-' ∈ cs ∨ '_' ∈ cs then none else decode cs

/-- `text.rstrip("=")`. -/
def strip (cs : List Char) : List Char := cs.rdropWhile (· = '=')

/-- `text + "=" * (-len(text) % 4)`. -/
def pad (cs : List Char) : List Char := cs ++ List.replicate ((4 - cs.length % 4) % 4) '='

/-! ## Signs and their values -/

/-- A sign has its value. -/
theorem value_sign {n : ℕ} (h : n < 64) : value (sign n) = some n := by
  interval_cases n <;> decide

/-- Padding is no sign. -/
theorem sign_ne_pad {n : ℕ} (h : n < 64) : sign n ≠ '=' := by
  intro hs
  have hv := value_sign h
  have hpad : value '=' = none := by decide
  rw [hs, hpad] at hv
  exact nomatch hv

section Group

variable (a b c : UInt8)

/-- The upper six bits of a byte. -/
theorem toNat_div_lt : a.toNat / 4 < 64 := by have := a.toNat_lt; omega

/-- Its two lower bits. -/
theorem toNat_mod_lt : a.toNat % 4 * 16 < 64 := by omega

/-- These with the upper four bits of the next byte. -/
theorem toNat_mod_add_lt : a.toNat % 4 * 16 + b.toNat / 16 < 64 := by have := b.toNat_lt; omega

/-- The four lower bits of a byte. -/
theorem toNat_mod_lt' : b.toNat % 16 * 4 < 64 := by omega

/-- These with the upper two bits of the next byte. -/
theorem toNat_mod_add_lt' : b.toNat % 16 * 4 + c.toNat / 64 < 64 := by have := c.toNat_lt; omega

/-- Four signs are decoded to three bytes. -/
theorem decodeGroup_signs :
    decodeGroup (sign (a.toNat / 4)) (sign (a.toNat % 4 * 16 + b.toNat / 16))
      (sign (b.toNat % 16 * 4 + c.toNat / 64)) (sign (c.toNat % 64)) = some [a, b, c] := by
  have ha : a.toNat / 4 * 4 + (a.toNat % 4 * 16 + b.toNat / 16) / 16 = a.toNat := by
    have := b.toNat_lt; omega
  have hb : (a.toNat % 4 * 16 + b.toNat / 16) % 16 * 16
      + (b.toNat % 16 * 4 + c.toNat / 64) / 4 = b.toNat := by
    have := b.toNat_lt; have := c.toNat_lt; omega
  have hc : (b.toNat % 16 * 4 + c.toNat / 64) % 4 * 64 + c.toNat % 64 = c.toNat := by
    have := c.toNat_lt; omega
  have hlt : c.toNat % 64 < 64 := Nat.mod_lt _ (by decide)
  simp only [decodeGroup, value_sign (toNat_div_lt a), value_sign (toNat_mod_add_lt a b),
    value_sign (toNat_mod_add_lt' b c), value_sign hlt, Option.bind_eq_bind, Option.bind_some,
    ha, hb, hc, UInt8.ofNat_toNat]

end Group

/-- `A` is the sign for `0`. -/
theorem sign_zero : sign 0 = 'A' := by decide

/-- **What was encoded is decoded.** -/
theorem decode_encode (bytes : List UInt8) : decode (encode bytes) = some bytes := by
  induction bytes using encode.induct with
  | case1 a b c rest ih =>
    have hc := sign_ne_pad (toNat_mod_add_lt' b c)
    have hd := sign_ne_pad (n := c.toNat % 64) (Nat.mod_lt _ (by decide))
    rw [encode, decode.eq_4 _ _ _ _ _ (fun h _ => absurd h hc) (fun h _ => absurd h hd),
      decodeGroup_signs, ih]
    rfl
  | case2 a b =>
    have hc := sign_ne_pad (toNat_mod_lt' b)
    have hg := decodeGroup_signs a b 0
    rw [encode, decode.eq_3 _ _ _ (fun h => absurd h hc)]
    simp only [UInt8.toNat_zero, Nat.zero_div, Nat.zero_mod, Nat.add_zero, sign_zero] at hg
    rw [hg]
    rfl
  | case3 a =>
    have hg := decodeGroup_signs a 0 0
    rw [encode, decode]
    simp only [UInt8.toNat_zero, Nat.zero_div, Nat.zero_mod, Nat.zero_mul, Nat.add_zero,
      sign_zero] at hg
    rw [hg]
    rfl
  | case4 => rfl

/-! ## The padding -/

/-- What was encoded is signs and then the padding that fills the last group. -/
theorem encode_eq_pad (bytes : List UInt8) : ∃ signs, encode bytes = pad signs ∧ '=' ∉ signs := by
  induction bytes using encode.induct with
  | case1 a b c rest ih =>
    obtain ⟨signs, hpad, hnot⟩ := ih
    refine ⟨sign (a.toNat / 4) :: sign (a.toNat % 4 * 16 + b.toNat / 16)
      :: sign (b.toNat % 16 * 4 + c.toNat / 64) :: sign (c.toNat % 64) :: signs, ?_, ?_⟩
    · have hlen : (signs.length + 1 + 1 + 1 + 1) % 4 = signs.length % 4 := by omega
      simp only [encode, hpad, pad, List.length_cons, hlen, List.cons_append]
    · have hd := sign_ne_pad (n := c.toNat % 64) (Nat.mod_lt _ (by decide))
      simp only [List.mem_cons, not_or]
      exact ⟨(sign_ne_pad (toNat_div_lt a)).symm, (sign_ne_pad (toNat_mod_add_lt a b)).symm,
        (sign_ne_pad (toNat_mod_add_lt' b c)).symm, hd.symm, hnot⟩
  | case2 a b =>
    refine ⟨[sign (a.toNat / 4), sign (a.toNat % 4 * 16 + b.toNat / 16),
      sign (b.toNat % 16 * 4)], rfl, ?_⟩
    simp only [List.mem_cons, List.not_mem_nil, not_or, or_false]
    exact ⟨(sign_ne_pad (toNat_div_lt a)).symm, (sign_ne_pad (toNat_mod_add_lt a b)).symm,
      (sign_ne_pad (toNat_mod_lt' b)).symm⟩
  | case3 a =>
    refine ⟨[sign (a.toNat / 4), sign (a.toNat % 4 * 16)], rfl, ?_⟩
    simp only [List.mem_cons, List.not_mem_nil, not_or, or_false]
    exact ⟨(sign_ne_pad (toNat_div_lt a)).symm, (sign_ne_pad (toNat_mod_lt a)).symm⟩
  | case4 => exact ⟨[], rfl, by simp⟩

/-- One sign of padding is stripped. -/
theorem strip_concat (cs : List Char) : strip (cs ++ ['=']) = strip cs :=
  List.rdropWhile_concat_pos (fun c => decide (c = '=')) _ _ (by decide)

/-- Stripping takes exactly the padding off. -/
theorem strip_pad {signs : List Char} (h : '=' ∉ signs) : strip (pad signs) = signs := by
  have htail (n : ℕ) : strip (signs ++ List.replicate n '=') = signs := by
    induction n with
    | zero =>
      rw [List.replicate_zero, List.append_nil, strip, List.rdropWhile_eq_self_iff]
      intro hne hlast
      have hmem := List.getLast_mem hne
      rw [of_decide_eq_true hlast] at hmem
      exact h hmem
    | succ n ih =>
      rw [List.replicate_succ', ← List.append_assoc, strip_concat, ih]
  exact htail _

/-- **The padding may be left out and added again.** -/
theorem pad_strip_encode (bytes : List UInt8) : pad (strip (encode bytes)) = encode bytes := by
  obtain ⟨signs, hpad, hnot⟩ := encode_eq_pad bytes
  rw [hpad, strip_pad hnot]

end Base64

end Jasil
