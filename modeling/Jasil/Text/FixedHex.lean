import Mathlib.Data.Char
import Mathlib.Data.List.Lex
import Mathlib.Tactic.Ring

/-! # Numbers in a fixed number of hexadecimal digits
Texts of one length come in the order of the numbers that they spell, whatever signs are put between the digits.

* **`fixedHex`**: the digits of a number, the most significant one first.
* **`fixedHex_lt`**: a smaller number comes first as text.
* **`append_lt_append`**: blocks of one length compare one after the other. -/

namespace Jasil

/-- So many hexadecimal digits of a number. -/
def fixedHex : ℕ → ℕ → List Char
  | 0, _ => []
  | width + 1, n => Nat.digitChar (n / 16 ^ width % 16) :: fixedHex width n

/-- There are as many digits as the width says. -/
@[simp] theorem length_fixedHex (width n : ℕ) : (fixedHex width n).length = width := by
  induction width with
  | zero => rfl
  | succ width ih => rw [fixedHex, List.length_cons, ih]

/-- Higher digits do not show. -/
theorem fixedHex_mod (width n : ℕ) : fixedHex width (n % 16 ^ width) = fixedHex width n := by
  have hlower (k : ℕ) (hk : k ≤ width) : fixedHex k (n % 16 ^ width) = fixedHex k n := by
    induction k with
    | zero => rfl
    | succ k ih =>
      rw [fixedHex, fixedHex, ih (by omega)]
      have hdigit : n % 16 ^ width / 16 ^ k % 16 = n / 16 ^ k % 16 := by
        obtain ⟨more, rfl⟩ := Nat.exists_eq_add_of_lt hk
        have hpow : 16 ^ (k + more + 1) = 16 ^ k * (16 * 16 ^ more) := by ring
        rw [hpow, Nat.mod_mul_right_div_self, Nat.mod_mod_of_dvd _ (Nat.dvd_mul_right 16 _)]
      rw [hdigit]
  exact hlower width le_rfl

/-- Digits are in the order of their values. -/
theorem digitChar_lt {a b : ℕ} (h : a < b) (hb : b < 16) : Nat.digitChar a < Nat.digitChar b := by
  have hall : ∀ b < 16, ∀ a < b, Nat.digitChar a < Nat.digitChar b := by decide
  exact hall b hb a h

/-- **A smaller number comes first as text.** -/
theorem fixedHex_lt {width n m : ℕ} (h : n < m) (hm : m < 16 ^ width) : fixedHex width n < fixedHex width m := by
  induction width generalizing n m with
  | zero => omega
  | succ width ih =>
    have hpos : 0 < 16 ^ width := Nat.pow_pos (by decide)
    have hlead {k : ℕ} (hk : k < 16 ^ (width + 1)) : k / 16 ^ width < 16 := by
      rw [Nat.div_lt_iff_lt_mul hpos]
      rwa [Nat.pow_succ'] at hk
    rw [fixedHex, fixedHex, Nat.mod_eq_of_lt (hlead (h.trans hm)), Nat.mod_eq_of_lt (hlead hm),
      List.cons_lt_cons_iff]
    rcases (Nat.div_le_div_right h.le : n / 16 ^ width ≤ m / 16 ^ width).lt_or_eq with hlt | heq
    · exact .inl (digitChar_lt hlt (hlead hm))
    · -- the leading digits are the same, so that the rest decides
      refine .inr ⟨congrArg Nat.digitChar heq, ?_⟩
      rw [← fixedHex_mod width n, ← fixedHex_mod width m]
      refine ih ?_ (Nat.mod_lt _ hpos)
      have hn := Nat.div_add_mod n (16 ^ width)
      have hm := Nat.div_add_mod m (16 ^ width)
      rw [heq] at hn
      omega

/-- **Blocks of one length** compare one after the other. -/
theorem append_lt_append {l l' r r' : List Char} (hlength : l.length = l'.length) :
    l ++ r < l' ++ r' ↔ l < l' ∨ l = l' ∧ r < r' := by
  induction l generalizing l' with
  | nil =>
    obtain rfl := List.eq_nil_of_length_eq_zero hlength.symm
    simp
  | cons c l ih =>
    cases l' with
    | nil => cases hlength
    | cons c' l' =>
      rw [List.cons_append, List.cons_append, List.cons_lt_cons_iff, List.cons_lt_cons_iff,
        ih (Nat.succ.inj hlength), List.cons.injEq]
      tauto

end Jasil
