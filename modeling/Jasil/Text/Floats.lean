import Jasil.Text.Doubles

/-! # Floats and the limits of numbers
A Python `float` is a finite double, a negative zero, an infinity or no number at all, and an `int` of more than
4300 digits is not written or read as text.

* **`PyFloat`**: a float, whose finite values are doubles by their type.
* **`ofText_text`**: what is written for a float is read as the float. -/

namespace Jasil

open NumberText

/-! ## Floats -/

/-- No finite double is this large. -/
def doubleLimit : ℚ := 2 ^ 1024

/-- The limit is positive. -/
theorem doubleLimit_pos : 0 < doubleLimit := pow_pos (by norm_num) 1024

/-- A finite float. -/
def IsFinite (q : ℚ) : Prop := IsDouble q ∧ |q| < doubleLimit

/-- A Python `float`. -/
inductive PyFloat
  | finite (q : ℚ) (h : IsFinite q)
  | negativeZero
  | infinity (negative : Bool)
  | nan

/-- The value of digits is not negative. -/
theorem NumberText.value_nonneg (t : NumberText) : 0 ≤ t.value := by
  unfold NumberText.value
  positivity

/-- A sign leaves the absolute value. -/
theorem abs_signed (negative : Bool) {q : ℚ} (h : 0 ≤ q) : |signed negative q| = q := by
  cases negative with
  | true => exact (abs_neg q).trans (abs_of_nonneg h)
  | false => exact abs_of_nonneg h

/-- Below the limit a double is finite, with either sign. -/
theorem isFinite_signed (negative : Bool) {q : ℚ} (h : 0 ≤ q) (hlt : roundDouble q < doubleLimit) :
    IsFinite (signed negative (roundDouble q)) := by
  have habs := abs_signed negative (roundDouble_nonneg h)
  refine ⟨?_, habs.trans_lt hlt⟩
  rw [IsDouble, habs, roundDouble_roundDouble h]

namespace PyFloat

/-- `float(text)`. A number out of range is an infinity. -/
def ofText (t : NumberText) : PyFloat :=
  if h : roundDouble t.value < doubleLimit then
    if t.negative ∧ roundDouble t.value = 0 then .negativeZero
    else .finite (signed t.negative (roundDouble t.value)) (isFinite_signed _ t.value_nonneg h)
  else .infinity t.negative

/-- `float.__repr__`, for a float that JSON has a number for. -/
def text : PyFloat → Option NumberText
  | .finite q _ => some (floatText q)
  | .negativeZero => some ⟨true, ['0'], ['0'], none⟩
  | .infinity _ => none
  | .nan => none

/-- A negative text of zero is the negative zero. -/
theorem ofText_of_zero {t : NumberText} (h : t.negative = true) (hzero : roundDouble t.value = 0) :
    ofText t = .negativeZero := by
  unfold ofText
  rw [dif_pos (hzero ▸ doubleLimit_pos), if_pos ⟨h, hzero⟩]

/-- Zero is written without a sign. -/
theorem negative_floatText_zero : (floatText 0).negative = false := by
  have hdecimal (m : ℕ) (s : ℤ) : (decimalText (decide ((0 : ℚ) < 0)) m s).negative = false := by
    unfold decimalText
    dsimp only
    split_ifs <;> exact decide_eq_false (lt_irrefl 0)
  unfold floatText
  rw [abs_zero, shortest_zero]
  exact hdecimal _ _

/-- **What is written for a float is read as the float**, and never as an integer. -/
theorem ofText_text {f : PyFloat} {t : NumberText} (h : f.text = some t) :
    t.Valid ∧ ¬(t.fraction = [] ∧ t.exponent = none) ∧ ofText t = f := by
  cases f with
  | finite q hq =>
    obtain rfl := Option.some.inj h
    refine ⟨valid_floatText q, ?_⟩
    have hnumber := number_floatText hq.1
    unfold number at hnumber
    split at hnumber
    · cases hnumber
    · rename_i hfloat
      refine ⟨hfloat, ?_⟩
      have hvalue := Number.float.inj hnumber
      have hround := roundDouble_nonneg (floatText q).value_nonneg
      have habs : |q| = roundDouble (floatText q).value := by
        rw [← abs_signed (floatText q).negative hround, hvalue]
      have hzero : ¬((floatText q).negative = true ∧ roundDouble (floatText q).value = 0) := by
        rintro ⟨hnegative, hz⟩
        rw [← habs] at hz
        rw [abs_eq_zero.mp hz, negative_floatText_zero] at hnegative
        cases hnegative
      unfold ofText
      rw [dif_pos (habs ▸ hq.2), if_neg hzero]
      simp only [hvalue]
  | negativeZero =>
    obtain rfl := Option.some.inj h
    have hdigits : ∀ c ∈ ['0'], c.isDigit := List.all_eq_true.mp (by decide)
    have hvalue : value ⟨true, ['0'], ['0'], none⟩ = 0 := by
      have hnat : natOf (['0'] ++ ['0']) = 0 := by decide
      rw [value, hnat, Nat.cast_zero, zero_mul]
    exact ⟨⟨by simp, hdigits, .inl rfl, hdigits, by rintro _ ⟨⟩⟩, by simp,
      ofText_of_zero rfl (by rw [hvalue, roundDouble_zero])⟩
  | infinity negative => cases h
  | nan => cases h

end PyFloat

/-! ## What reading leaves -/

/-- The whole part and what follows it make up the text. -/
theorem readWhole_spec (cs : List Char) : (readWhole cs).1.length + (readWhole cs).2.length = cs.length
    ∧ ∀ c ∈ (readWhole cs).1, c.isDigit := by
  unfold readWhole
  split
  · refine ⟨by simp [Nat.add_comm], ?_⟩
    intro c hc
    rw [List.mem_singleton.mp hc]
    decide
  · refine ⟨?_, fun c hc => (List.all_eq_true.mp List.all_takeWhile) c hc⟩
    rw [← List.length_append, List.takeWhile_append_dropWhile]

/-- What follows a fraction is no longer. -/
theorem length_readFraction_le (cs : List Char) : (readFraction cs).2.length ≤ cs.length := by
  unfold readFraction
  split
  · split
    · exact le_rfl
    · exact ((List.dropWhile_sublist _).length_le).trans (Nat.le_succ _)
  · exact le_rfl

/-- What follows a sign is no longer. -/
theorem length_readSign_le (cs : List Char) : (readSign cs).2.length ≤ cs.length := by
  unfold readSign
  split
  · exact Nat.le_succ _
  · exact Nat.le_succ _
  · exact le_rfl

/-- What follows an exponent is no longer. -/
theorem length_readExponent_le (cs : List Char) : (readExponent cs).2.length ≤ cs.length := by
  cases cs with
  | nil => exact le_rfl
  | cons c cs =>
    rw [readExponent]
    split
    · exact (((List.dropWhile_sublist _).length_le).trans (length_readSign_le cs)).trans (Nat.le_succ _)
    · exact le_rfl

/-- What is read as a number has digits, and what follows it is shorter. -/
theorem readUnsignedText_spec {negative : Bool} {cs rest : List Char} {t : NumberText}
    (h : readUnsignedText negative cs = some (t, rest)) :
    t.whole ≠ [] ∧ (∀ c ∈ t.whole, c.isDigit) ∧ rest.length < cs.length := by
  obtain ⟨hlength, hdigits⟩ := readWhole_spec cs
  have hfraction := length_readFraction_le (readWhole cs).2
  have hexponent := length_readExponent_le (readFraction (readWhole cs).2).2
  unfold readUnsignedText at h
  dsimp only at h
  by_cases hwhole : (readWhole cs).1 = []
  · rw [if_pos hwhole] at h
    cases h
  · rw [if_neg hwhole] at h
    obtain ⟨rfl, rfl⟩ := Prod.mk.inj (Option.some.inj h)
    have hpos := List.length_pos_of_ne_nil hwhole
    exact ⟨hwhole, hdigits, by omega⟩

/-- A number that was read has digits before its point, and they are gone from the text. -/
theorem readNumberText_spec {cs rest : List Char} {t : NumberText} (h : readNumberText cs = some (t, rest)) :
    t.whole ≠ [] ∧ (∀ c ∈ t.whole, c.isDigit) ∧ rest.length < cs.length := by
  unfold readNumberText at h
  split at h
  · obtain ⟨hwhole, hdigits, hlength⟩ := readUnsignedText_spec h
    exact ⟨hwhole, hdigits, hlength.trans (Nat.lt_succ_self _)⟩
  · exact readUnsignedText_spec h

/-! ## The limit on digits -/

/-- `sys.get_int_max_str_digits()`, as it is by default. -/
def maxStrDigits : ℕ := 4300

/-- An integer that may be written and read as text. -/
def IsShort (i : ℤ) : Prop := (Nat.toDigits 10 i.natAbs).length ≤ maxStrDigits

instance decidableIsShort (i : ℤ) : Decidable (IsShort i) := inferInstanceAs (Decidable (_ ≤ _))

/-- The first digit counts most. -/
theorem natOf_cons (c : Char) (cs : List Char) :
    natOf (c :: cs) = 10 ^ cs.length * (c.toNat - '0'.toNat) + natOf cs := by
  rw [natOf, Nat.ofDigitChars_cons, Nat.ofDigitChars_eq_ofDigitChars_zero, natOf, Nat.mul_zero, Nat.zero_add]

/-- Digits are below the next power of ten. -/
theorem natOf_lt {ds : List Char} (h : ∀ c ∈ ds, c.isDigit) : natOf ds < 10 ^ ds.length := by
  induction ds with
  | nil => decide
  | cons c ds ih =>
    obtain ⟨hc, hds⟩ := List.forall_mem_cons.mp h
    have hdigit : c.toNat - '0'.toNat ≤ 9 := by
      have hle := (Char.isDigit_iff_toNat.mp hc).2
      have hzero : '0'.toNat = 48 := rfl
      have hnine : '9'.toNat = 57 := rfl
      omega
    have hmul := Nat.mul_le_mul_left (10 ^ ds.length) hdigit
    rw [natOf_cons, List.length_cons, Nat.pow_succ]
    have htail := ih hds
    omega

/-- A number read from few digits is short. -/
theorem isShort_of_digits {ds : List Char} (h : ∀ c ∈ ds, c.isDigit) (hne : ds ≠ [])
    (hlen : ds.length ≤ maxStrDigits) {i : ℤ} (hi : i.natAbs = natOf ds) : IsShort i := by
  have hpos : 0 < ds.length := List.length_pos_of_ne_nil hne
  rw [IsShort, hi]
  exact ((Nat.length_toDigits_le_iff (by decide) hpos).mpr (natOf_lt h)).trans hlen

end Jasil
