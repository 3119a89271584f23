import Jasil.Text.Base64

/-! # Prefixes of encoded texts
UTF-8 says where a character ends, so that one text begins with another exactly when its bytes begin with the
other's; and a byte below 128 stands for the character itself and for nothing else.

* **`utf8_prefix_iff`**: a prefix as text is a prefix as bytes.
* **`utf8EncodeChar_cases`**: one byte below 128, or bytes from 128 on. -/

namespace Jasil

/-- Different texts have different bytes. -/
theorem utf8_injective : Function.Injective utf8 := by
  intro cs cs' h
  rw [← Option.some.injEq, ← ofUtf8_utf8 cs, h, ofUtf8_utf8]

/-- The bytes of two texts, one after the other. -/
theorem utf8_append (cs cs' : List Char) : utf8 (cs ++ cs') = utf8 cs ++ utf8 cs' := List.flatMap_append

/-- **A text begins with another exactly when its bytes do.** -/
theorem utf8_prefix_iff {cs cs' : List Char} : utf8 cs <+: utf8 cs' ↔ cs <+: cs' := by
  constructor
  · rintro ⟨rest, hrest⟩
    refine List.isPrefix_of_utf8Encode_append_eq_utf8Encode rest.toByteArray ?_
    show (utf8 cs).toByteArray ++ rest.toByteArray = (utf8 cs').toByteArray
    rw [← hrest, List.toByteArray_append]
  · rintro ⟨rest, rfl⟩
    rw [utf8_append]
    exact List.prefix_append _ _

/-- A character is one byte below 128, or bytes from 128 on. -/
theorem utf8EncodeChar_cases (c : Char) :
    (c.toNat < 128 ∧ String.utf8EncodeChar c = [UInt8.ofNat c.toNat])
      ∨ (128 ≤ c.toNat ∧ ∀ b ∈ String.utf8EncodeChar c, 128 ≤ b.toNat) := by
  unfold String.utf8EncodeChar
  show (c.toNat < 128 ∧ (if c.toNat ≤ 0x7f then _ else _) = _) ∨ (_ ∧ ∀ b ∈ (if c.toNat ≤ 0x7f then _ else _), _)
  by_cases h : c.toNat ≤ 0x7f
  · left
    rw [if_pos h]
    exact ⟨Nat.lt_succ_of_le h, rfl⟩
  · right
    rw [if_neg h]
    refine ⟨Nat.lt_of_not_le h, ?_⟩
    -- two, three or four bytes, each of them with its high bit set
    split
    · simp only [List.mem_cons, List.not_mem_nil, or_false, forall_eq_or_imp, forall_eq, UInt8.toNat_ofNat']
      omega
    · split
      · simp only [List.mem_cons, List.not_mem_nil, or_false, forall_eq_or_imp, forall_eq, UInt8.toNat_ofNat']
        omega
      · simp only [List.mem_cons, List.not_mem_nil, or_false, forall_eq_or_imp, forall_eq, UInt8.toNat_ofNat']
        omega

end Jasil
