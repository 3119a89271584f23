import Mathlib.Algebra.Order.Field.Power
import Mathlib.Data.Int.Log
import Mathlib.Data.Rat.Floor
import Mathlib.Tactic.FieldSimp
import Mathlib.Tactic.IntervalCases
import Mathlib.Tactic.Linarith
import Mathlib.Tactic.NormNum
import Mathlib.Tactic.Positivity
import Jasil.Core.Timestamps

/-! # Numbers in a JSON text
How an integer and a binary floating-point number are written, and how a number is read.

* **`NumberText`**: the parts of a number, with the characters they are written as and the number they
  stand for.
* **`floatText`**: the shortest decimal that is read as the given double.
* **`readNumber_chars`**: what is written is read, when no digit, point or exponent follows.
* **`number_floatText`**: what is written for a double stands for it. -/

namespace Jasil

/-! ## Doubles -/

/-- The exponent of the last binary digit of a double near `q`. -/
def ulpExponent (q : ℚ) : ℤ := max (Int.log 2 q) (-1022) - 52

/-- The double nearest to `q`, for a `q` that is not negative. -/
def roundDouble (q : ℚ) : ℚ := roundHalfEven (q / 2 ^ ulpExponent q) * 2 ^ ulpExponent q

/-- `q` is a finite double. -/
def IsDouble (q : ℚ) : Prop := roundDouble |q| = |q|

instance (q : ℚ) : Decidable (IsDouble q) := inferInstanceAs (Decidable (_ = _))

/-! ## The parts of a number -/

/-- What a number is read as. -/
inductive Number
  | int (i : ℤ)
  | float (q : ℚ)
  deriving DecidableEq

/-- A number as it is written: the digits before and after the point, and the exponent with its sign. -/
structure NumberText where
  negative : Bool
  whole : List Char
  fraction : List Char
  exponent : Option (Bool × List Char)

namespace NumberText

/-- The number some digits stand for. -/
def natOf (digits : List Char) : ℕ := Nat.ofDigitChars 10 digits 0

/-- A value with its sign. -/
def signed (negative : Bool) (q : ℚ) : ℚ := if negative then -q else q

/-- The signs of an exponent. -/
def exponentChars : Option (Bool × List Char) → List Char
  | none => []
  | some (negative, digits) => 'e' :: (if negative then '-' else '+') :: digits

/-- Its value. -/
def exponentValue : Option (Bool × List Char) → ℤ
  | none => 0
  | some (negative, digits) => if negative then -(natOf digits : ℤ) else natOf digits

/-- The signs of a number. -/
def chars (t : NumberText) : List Char :=
  (if t.negative then ['-'] else []) ++ (t.whole
    ++ ((if t.fraction = [] then [] else '.' :: t.fraction) ++ exponentChars t.exponent))

/-- The absolute value. -/
def value (t : NumberText) : ℚ :=
  natOf (t.whole ++ t.fraction) * 10 ^ (exponentValue t.exponent - t.fraction.length)

/-- A number with a point or an exponent is a double. -/
def number (t : NumberText) : Number :=
  if t.fraction = [] ∧ t.exponent = none then
    .int (if t.negative then -(natOf t.whole : ℤ) else natOf t.whole)
  else .float (signed t.negative (roundDouble t.value))

end NumberText

/-! ## Writing -/

open NumberText

/-- An integer. -/
def intText (i : ℤ) : NumberText := ⟨decide (i < 0), Nat.toDigits 10 i.natAbs, [], none⟩

/-- The decimals next to `q` with its last digit at `10 ^ s`, the nearer one first. -/
def neighbours (q : ℚ) (s : ℤ) : List ℕ :=
  let x := q / 10 ^ s
  let low := ⌊x⌋.toNat
  if x - ⌊x⌋ ≤ 1 / 2 then [low, low + 1] else [low + 1, low]

/-- A shortest decimal `m * 10 ^ s` that is read as `q`: its digits are tried one after the other. -/
def shortest (q : ℚ) : Option (ℕ × ℤ) :=
  (List.range (Int.log 10 q + (-ulpExponent q).toNat + 1).toNat).findSome? fun j : ℕ =>
    let s := Int.log 10 q - j
    ((neighbours q s).find? fun m : ℕ => roundDouble (m * 10 ^ s) = q).map (·, s)

/-- Take the trailing zeros of `m` into the exponent. -/
def stripZeros : ℕ → ℕ → ℤ → ℕ × ℤ
  | 0, m, s => (m, s)
  | fuel + 1, m, s => if m % 10 = 0 then stripZeros fuel (m / 10) (s + 1) else (m, s)

/-- The exponent of a number in scientific notation, in two digits at least. -/
def exponentText (e : ℤ) : Bool × List Char :=
  (decide (e < 0), List.replicate (2 - (Nat.toDigits 10 e.natAbs).length) '0' ++ Nat.toDigits 10 e.natAbs)

/-- `m * 10 ^ s`, in scientific notation when the point would be far from the digits. -/
def decimalText (negative : Bool) (m : ℕ) (s : ℤ) : NumberText :=
  let digits := Nat.toDigits 10 m
  let point := digits.length + s
  if point ≤ -4 ∨ 16 < point then
    ⟨negative, digits.take 1, digits.drop 1, some (exponentText (point - 1))⟩
  else if point ≤ 0 then ⟨negative, ['0'], List.replicate (-point).toNat '0' ++ digits, none⟩
  else if point < digits.length then
    ⟨negative, digits.take point.toNat, digits.drop point.toNat, none⟩
  else ⟨negative, digits ++ List.replicate (point - digits.length).toNat '0', ['0'], none⟩

/-- `float.__repr__`. -/
def floatText (q : ℚ) : NumberText :=
  match shortest |q| with
  | some (m, s) =>
    let (m, s) := stripZeros m m s
    decimalText (decide (q < 0)) m s
  | none => ⟨false, ['0'], ['0'], none⟩

/-! ## Reading -/

/-- The digits before the point: no further digit follows a leading zero. -/
def readWhole : List Char → List Char × List Char
  | '0' :: cs => (['0'], cs)
  | cs => (cs.takeWhile Char.isDigit, cs.dropWhile Char.isDigit)

/-- The digits after a point, if there are any. -/
def readFraction : List Char → List Char × List Char
  | '.' :: cs =>
    if cs.takeWhile Char.isDigit = [] then ([], '.' :: cs)
    else (cs.takeWhile Char.isDigit, cs.dropWhile Char.isDigit)
  | cs => ([], cs)

/-- The sign of an exponent. -/
def readSign : List Char → Bool × List Char
  | '-' :: cs => (true, cs)
  | '+' :: cs => (false, cs)
  | cs => (false, cs)

/-- The exponent, if there is one. -/
def readExponent : List Char → Option (Bool × List Char) × List Char
  | [] => (none, [])
  | c :: cs =>
    if (c = 'e' ∨ c = 'E') ∧ (readSign cs).2.takeWhile Char.isDigit ≠ [] then
      (some ((readSign cs).1, (readSign cs).2.takeWhile Char.isDigit),
        (readSign cs).2.dropWhile Char.isDigit)
    else (none, c :: cs)

/-- Read the parts of a number that follow its sign. -/
def readUnsignedText (negative : Bool) (cs : List Char) : Option (NumberText × List Char) :=
  let (whole, cs) := readWhole cs
  let (fraction, cs) := readFraction cs
  let (exponent, cs) := readExponent cs
  if whole = [] then none else some (⟨negative, whole, fraction, exponent⟩, cs)

/-- Read the parts of a number off the front. -/
def readNumberText : List Char → Option (NumberText × List Char)
  | '-' :: cs => readUnsignedText true cs
  | cs => readUnsignedText false cs

/-- Read what follows the sign of a number. -/
def readUnsigned (negative : Bool) (cs : List Char) : Option (Number × List Char) :=
  let (whole, cs) := readWhole cs
  let (fraction, cs) := readFraction cs
  let (exponent, cs) := readExponent cs
  if whole = [] then none else some ((NumberText.mk negative whole fraction exponent).number, cs)

/-- Read a number off the front. -/
def readNumber : List Char → Option (Number × List Char)
  | '-' :: cs => readUnsigned true cs
  | cs => readUnsigned false cs

/-! ## What is written is read -/

/-- A number that is written the way numbers are read. -/
structure NumberText.Valid (t : NumberText) : Prop where
  whole_ne : t.whole ≠ []
  whole : ∀ c ∈ t.whole, c.isDigit
  /-- Only the number zero starts with a zero. -/
  leading : t.whole = ['0'] ∨ t.whole.head? ≠ some '0'
  fraction : ∀ c ∈ t.fraction, c.isDigit
  exponent : ∀ e ∈ t.exponent, e.2 ≠ [] ∧ ∀ c ∈ e.2, c.isDigit

/-- What may follow a number: nothing that would be read as a part of it. -/
def EndsNumber (cs : List Char) : Prop :=
  ∀ c ∈ cs.head?, c.isDigit = false ∧ c ≠ '.' ∧ c ≠ 'e' ∧ c ≠ 'E'

/-- No digit follows. -/
def EndsDigits (cs : List Char) : Prop := ∀ c ∈ cs.head?, c.isDigit = false

/-- The digits are those up to the first other sign. -/
theorem takeWhile_digits {ds cs : List Char} (hds : ∀ c ∈ ds, c.isDigit) (hcs : EndsDigits cs) :
    (ds ++ cs).takeWhile Char.isDigit = ds ∧ (ds ++ cs).dropWhile Char.isDigit = cs := by
  rw [List.takeWhile_append_of_pos hds, List.dropWhile_append_of_pos hds]
  cases cs with
  | nil => simp
  | cons c cs =>
    have hc : ¬c.isDigit := by simp [hcs c rfl]
    rw [List.takeWhile_cons_of_neg hc, List.dropWhile_cons_of_neg hc, List.append_nil]
    exact ⟨rfl, rfl⟩

/-- A whole part is read back. -/
theorem readWhole_append {ds cs : List Char} (hds : ∀ c ∈ ds, c.isDigit)
    (hlead : ds = ['0'] ∨ ds.head? ≠ some '0') (hne : ds ≠ []) (hcs : EndsDigits cs) :
    readWhole (ds ++ cs) = (ds, cs) := by
  obtain ⟨htake, hdrop⟩ := takeWhile_digits hds hcs
  cases ds with
  | nil => exact absurd rfl hne
  | cons d ds =>
    by_cases hd : d = '0'
    · subst hd
      rcases hlead with hzero | hhead
      · rw [(List.cons.inj hzero).2]
        rfl
      · exact absurd rfl hhead
    · rw [List.cons_append] at htake hdrop ⊢
      rw [readWhole.eq_2 _ fun cs h => hd (List.cons.inj h).1, htake, hdrop]

/-- A fraction is read back. -/
theorem readFraction_append {ds cs : List Char} (hds : ∀ c ∈ ds, c.isDigit)
    (hcs : EndsDigits cs) (hdot : cs.head? ≠ some '.') :
    readFraction ((if ds = [] then [] else '.' :: ds) ++ cs) = (ds, cs) := by
  by_cases hnil : ds = []
  · subst hnil
    rw [if_pos rfl, List.nil_append]
    cases cs with
    | nil => rfl
    | cons c cs => rw [readFraction.eq_2 _ fun cs' h => hdot (by rw [h]; rfl)]
  · obtain ⟨htake, hdrop⟩ := takeWhile_digits hds hcs
    rw [if_neg hnil, List.cons_append, readFraction, htake, hdrop, if_neg hnil]

/-- A sign is read back. -/
theorem readSign_cons (negative : Bool) (cs : List Char) :
    readSign ((if negative then '-' else '+') :: cs) = (negative, cs) := by
  cases negative <;> rfl

/-- An exponent is read back. -/
theorem readExponent_append {e : Option (Bool × List Char)} {cs : List Char}
    (he : ∀ x ∈ e, x.2 ≠ [] ∧ ∀ c ∈ x.2, c.isDigit) (hcs : EndsNumber cs) :
    readExponent (exponentChars e ++ cs) = (e, cs) := by
  cases e with
  | none =>
    rw [exponentChars, List.nil_append]
    cases cs with
    | nil => rfl
    | cons c cs =>
      obtain ⟨-, -, he, hE⟩ := hcs c rfl
      rw [readExponent, if_neg fun h => h.1.elim he hE]
  | some x =>
    obtain ⟨negative, ds⟩ := x
    obtain ⟨hne, hds⟩ := he _ rfl
    obtain ⟨htake, hdrop⟩ := takeWhile_digits hds fun c hc => (hcs c hc).1
    rw [exponentChars, List.cons_append, List.cons_append, readExponent, readSign_cons,
      htake, hdrop, if_pos ⟨.inl rfl, hne⟩]

/-- **What is written is read**, when nothing follows that belongs to a number. -/
theorem readNumberText_chars {t : NumberText} (h : t.Valid) {cs : List Char} (hcs : EndsNumber cs) :
    readNumberText (t.chars ++ cs) = some (t, cs) := by
  have hexp := readExponent_append h.exponent hcs
  have hends : EndsDigits (exponentChars t.exponent ++ cs)
      ∧ (exponentChars t.exponent ++ cs).head? ≠ some '.' := by
    cases ht : t.exponent with
    | none => exact ⟨fun c hc => (hcs c hc).1, fun hdot => (hcs _ hdot).2.1 rfl⟩
    | some x =>
      refine ⟨?_, by simp [exponentChars]⟩
      rintro c ⟨⟩
      decide
  have hfrac := readFraction_append h.fraction hends.1 hends.2
  have hends' : EndsDigits ((if t.fraction = [] then [] else '.' :: t.fraction)
      ++ (exponentChars t.exponent ++ cs)) := by
    split
    · exact hends.1
    · rintro c ⟨⟩
      decide
  have hwhole := readWhole_append h.whole h.leading h.whole_ne hends'
  have hunsigned : readUnsignedText t.negative (t.whole
      ++ ((if t.fraction = [] then [] else '.' :: t.fraction) ++ (exponentChars t.exponent ++ cs)))
      = some (t, cs) := by
    simp only [readUnsignedText, hwhole, hfrac, hexp, if_neg h.whole_ne]
  rw [chars]
  simp only [List.append_assoc]
  cases hneg : t.negative with
  | true =>
    rw [hneg] at hunsigned
    exact hunsigned
  | false =>
    rw [hneg] at hunsigned
    obtain ⟨d, ds, hd⟩ := List.exists_cons_of_ne_nil h.whole_ne
    -- without a sign the text begins with a digit
    have hdigit : d ≠ '-' := by
      rintro rfl
      exact absurd (h.whole '-' (hd ▸ List.mem_cons_self)) (by decide)
    rw [hd] at hunsigned ⊢
    simp only [List.cons_append] at hunsigned ⊢
    rw [if_neg (by decide), List.nil_append, readNumberText.eq_2 _ fun cs h => hdigit (List.cons.inj h).1]
    exact hunsigned

/-- A number is read as its text is. -/
theorem readUnsigned_eq (negative : Bool) (cs : List Char) :
    readUnsigned negative cs = (readUnsignedText negative cs).map fun r => (r.1.number, r.2) := by
  unfold readUnsigned readUnsignedText
  dsimp only
  by_cases hwhole : (readWhole cs).1 = []
  · rw [if_pos hwhole, if_pos hwhole]
    rfl
  · rw [if_neg hwhole, if_neg hwhole]
    rfl

/-- The number read is that of its parts. -/
theorem readNumber_eq (cs : List Char) : readNumber cs = (readNumberText cs).map fun r => (r.1.number, r.2) := by
  unfold readNumber readNumberText
  split
  · exact readUnsigned_eq _ _
  · exact readUnsigned_eq _ _

/-- **A valid text is read back.** -/
theorem readNumber_chars {t : NumberText} (h : t.Valid) {cs : List Char} (hcs : EndsNumber cs) :
    readNumber (t.chars ++ cs) = some (t.number, cs) := by
  rw [readNumber_eq, readNumberText_chars h hcs]
  rfl

/-! ## Integers -/

/-- The digits of a number are digits. -/
theorem digits_toDigits (n : ℕ) : ∀ c ∈ Nat.toDigits 10 n, c.isDigit :=
  fun _ => Nat.isDigit_of_mem_toDigits (by decide) (by decide)

/-- Only zero starts with a zero. -/
theorem head?_toDigits {n : ℕ} (h : 0 < n) : (Nat.toDigits 10 n).head? ≠ some '0' := by
  induction n using Nat.strong_induction_on with
  | _ n ih =>
    by_cases hlt : n < 10
    · rw [Nat.toDigits_of_lt_base hlt]
      interval_cases n <;> decide
    · have hdiv := ih (n / 10) (by omega) (by omega)
      obtain ⟨d, ds, hd⟩ := List.exists_cons_of_ne_nil (Nat.toDigits_ne_nil (n := n / 10) (b := 10))
      rw [hd] at hdiv
      rw [Nat.toDigits_of_base_le (by decide) (by omega), hd]
      exact hdiv

/-- They have no leading zero. -/
theorem leading_toDigits (n : ℕ) :
    Nat.toDigits 10 n = ['0'] ∨ (Nat.toDigits 10 n).head? ≠ some '0' := by
  rcases Nat.eq_zero_or_pos n with rfl | h
  · exact .inl (by decide)
  · exact .inr (head?_toDigits h)

/-- The text of an integer is valid. -/
theorem valid_intText (i : ℤ) : (intText i).Valid where
  whole_ne := Nat.toDigits_ne_nil
  whole := digits_toDigits _
  leading := leading_toDigits _
  fraction := nofun
  exponent := nofun

/-- It is that integer's. -/
theorem number_intText (i : ℤ) : (intText i).number = .int i := by
  have hnat : natOf (Nat.toDigits 10 i.natAbs) = i.natAbs := Nat.ofDigitChars_ten_toDigits
  simp only [intText, number, hnat, and_self, if_true, decide_eq_true_eq]
  split_ifs with hneg <;> congr 1 <;> omega

/-! ## Doubles -/

/-- A number written with its digits at some place. -/
theorem natOf_append (ds es : List Char) : natOf (ds ++ es) = natOf ds * 10 ^ es.length + natOf es := by
  rw [natOf, natOf, natOf, Nat.ofDigitChars_append, Nat.ofDigitChars_eq_ofDigitChars_zero, Nat.mul_comm]

/-- Zeros have the value zero. -/
theorem natOf_replicate (n : ℕ) : natOf (List.replicate n '0') = 0 := by
  rw [natOf, Nat.ofDigitChars_replicate_zero, Nat.mul_zero]

/-- They are digits. -/
theorem digits_replicate (n : ℕ) : ∀ c ∈ List.replicate n '0', c.isDigit := by
  intro c hc
  rw [List.eq_of_mem_replicate hc]
  decide

/-- The text of an exponent has its value. -/
theorem exponentValue_exponentText (e : ℤ) : exponentValue (some (exponentText e)) = e := by
  have hnat : natOf (List.replicate (2 - (Nat.toDigits 10 e.natAbs).length) '0'
      ++ Nat.toDigits 10 e.natAbs) = e.natAbs := by
    rw [natOf_append, natOf_replicate, Nat.zero_mul, Nat.zero_add]
    exact Nat.ofDigitChars_ten_toDigits
  simp only [exponentText, exponentValue, hnat, decide_eq_true_eq]
  split_ifs with hneg <;> omega

/-- A decimal text is valid. -/
theorem valid_decimalText (negative : Bool) {m : ℕ} {s : ℤ} (hm : 0 < m ∨ s = 0) :
    (decimalText negative m s).Valid := by
  have hzero : ∀ c ∈ ['0'], c.isDigit := List.all_eq_true.mp (by decide)
  have hpos : 0 < m → (Nat.toDigits 10 m).head? ≠ some '0' := head?_toDigits
  have hdigits := digits_toDigits m
  have hlead := leading_toDigits m
  have hne : Nat.toDigits 10 m ≠ [] := Nat.toDigits_ne_nil
  unfold decimalText
  dsimp only
  generalize Nat.toDigits 10 m = digits at *
  obtain ⟨d, ds, rfl⟩ := List.exists_cons_of_ne_nil hne
  have hhead (n : ℕ) (hn : 0 < n) :
      (d :: ds).take n = ['0'] ∨ ((d :: ds).take n).head? ≠ some '0' := by
    obtain ⟨n, rfl⟩ := Nat.exists_eq_add_one_of_ne_zero (Nat.ne_of_gt hn)
    rcases hlead with h | h
    · left
      rw [(List.cons.inj h).1, (List.cons.inj h).2]
      simp
    · exact .inr h
  split_ifs with hfar hsmall hinside
  · refine ⟨by simp, fun c hc => hdigits c (List.mem_of_mem_take hc), hhead 1 (by decide),
      fun c hc => hdigits c (List.mem_of_mem_drop hc), ?_⟩
    rintro e ⟨⟩
    refine ⟨by simp [exponentText, Nat.toDigits_ne_nil], ?_⟩
    exact List.forall_mem_append.mpr ⟨digits_replicate _, digits_toDigits _⟩
  · exact ⟨by simp, hzero, .inl rfl,
      List.forall_mem_append.mpr ⟨digits_replicate _, hdigits⟩, nofun⟩
  · have hpoint : 0 < ((d :: ds).length + s).toNat := by omega
    refine ⟨?_, fun c hc => hdigits c (List.mem_of_mem_take hc), hhead _ hpoint,
      fun c hc => hdigits c (List.mem_of_mem_drop hc), nofun⟩
    exact mt List.take_eq_nil_iff.mp (by simpa using Nat.ne_of_gt hpoint)
  · refine ⟨by simp, List.forall_mem_append.mpr ⟨hdigits, digits_replicate _⟩, ?_, hzero, nofun⟩
    rcases hm with hm | rfl
    · exact .inr (hpos hm)
    · simpa using hlead

/-- It has the value of its digits. -/
theorem value_decimalText (negative : Bool) (m : ℕ) (s : ℤ) :
    (decimalText negative m s).value = m * 10 ^ s := by
  have hm : natOf (Nat.toDigits 10 m) = m := Nat.ofDigitChars_ten_toDigits
  have hlen : 0 < (Nat.toDigits 10 m).length := Nat.length_toDigits_pos
  unfold decimalText
  dsimp only
  generalize Nat.toDigits 10 m = digits at *
  split_ifs with hfar hsmall hinside
  · -- scientific notation
    have hexp : (digits.length : ℤ) + s - 1 - ((digits.drop 1).length : ℕ) = s := by
      rw [List.length_drop]
      omega
    rw [value, List.take_append_drop, hm, exponentValue_exponentText, hexp]
  · -- the point before the digits
    have hexp : (0 : ℤ) - ((List.replicate (-(digits.length + s)).toNat '0' ++ digits).length : ℕ)
        = s := by
      rw [List.length_append, List.length_replicate]
      omega
    have hzero : natOf ['0'] = 0 := by decide
    rw [value, natOf_append, natOf_append, hzero, natOf_replicate, Nat.zero_mul, Nat.zero_mul,
      Nat.zero_add, Nat.zero_add, hm, exponentValue, hexp]
  · -- the point among the digits
    have hexp : (0 : ℤ) - ((digits.drop (digits.length + s).toNat).length : ℕ) = s := by
      rw [List.length_drop]
      omega
    rw [value, List.take_append_drop, hm, exponentValue, hexp]
  · -- the point after the digits
    obtain ⟨k, rfl⟩ : ∃ k : ℕ, s = k := ⟨s.toNat, by omega⟩
    have hzeros : ((digits.length : ℤ) + k - digits.length).toNat = k := by omega
    have hzero : natOf ['0'] = 0 := by decide
    rw [value, hzeros, natOf_append, natOf_append, natOf_replicate, hzero, hm, exponentValue]
    simp only [List.length_replicate, List.length_singleton]
    push_cast
    rw [zpow_natCast]
    norm_num
    ring

/-- What is written for `m * 10 ^ s` is a double, never an integer. -/
theorem number_decimalText (negative : Bool) (m : ℕ) (s : ℤ) :
    (decimalText negative m s).number = .float (signed negative (roundDouble (m * 10 ^ s))) := by
  have hfloat : ¬((decimalText negative m s).fraction = []
      ∧ (decimalText negative m s).exponent = none) := by
    unfold decimalText
    dsimp only
    split_ifs with hfar hsmall hinside
    · exact fun h => nomatch h.2
    · exact fun h => Nat.toDigits_ne_nil (List.append_eq_nil_iff.mp h.1).2
    · intro h
      have := List.drop_eq_nil_iff.mp h.1
      omega
    · exact fun h => nomatch h.1
  have hneg : (decimalText negative m s).negative = negative := by
    unfold decimalText
    dsimp only
    split_ifs <;> rfl
  rw [number, if_neg hfloat, value_decimalText, hneg]

/-- Stripping zeros leaves the value. -/
theorem stripZeros_spec (fuel : ℕ) {m : ℕ} {s : ℤ} (hm : 0 < m) :
    0 < (stripZeros fuel m s).1
      ∧ ((stripZeros fuel m s).1 : ℚ) * 10 ^ (stripZeros fuel m s).2 = m * 10 ^ s := by
  induction fuel generalizing m s with
  | zero => exact ⟨hm, rfl⟩
  | succ fuel ih =>
    rw [stripZeros]
    split_ifs with h
    · obtain ⟨hpos, heq⟩ := ih (m := m / 10) (s := s + 1) (by omega)
      have hdiv : ((m / 10 : ℕ) : ℚ) * 10 = m := by
        have : m / 10 * 10 = m := by omega
        exact_mod_cast this
      refine ⟨hpos, ?_⟩
      calc _ = ((m / 10 : ℕ) : ℚ) * 10 ^ (s + 1) := heq
        _ = ((m / 10 : ℕ) : ℚ) * 10 * 10 ^ s := by rw [zpow_add_one₀ (by norm_num)]; ring
        _ = m * 10 ^ s := by rw [hdiv]
    · exact ⟨hm, rfl⟩

/-- The unit in the last place of a number below `2 ^ 53` is no more than 1. -/
theorem ulpExponent_nonpos {q : ℚ} (h : q < 2 ^ 53) : ulpExponent q ≤ 0 := by
  have hlog : Int.log 2 q ≤ 52 := by
    rcases le_or_gt q 0 with hq | hq
    · rw [Int.log_of_right_le_zero _ hq]
      decide
    · have hlt : Int.log 2 q < 53 := (Int.lt_zpow_iff_log_lt (by decide) hq).mp (by exact_mod_cast h)
      omega
  unfold ulpExponent
  omega

/-- A natural number of up to 53 binary digits is rounded to itself. -/
theorem roundDouble_natCast {n : ℕ} (h : n ≤ 2 ^ 53) : roundDouble n = n := by
  rcases Nat.lt_or_eq_of_le h with hlt | rfl
  · have he := @ulpExponent_nonpos (n : ℚ) (by exact_mod_cast hlt)
    obtain ⟨k, hk⟩ := Int.exists_eq_neg_ofNat he
    have hscaled : (n : ℚ) / 2 ^ ulpExponent n = ((n * 2 ^ k : ℕ) : ℤ) := by
      rw [hk, zpow_neg, zpow_natCast, div_inv_eq_mul]
      push_cast
      rfl
    rw [roundDouble, hscaled, roundHalfEven_intCast, ← hscaled]
    exact div_mul_cancel₀ _ (zpow_ne_zero _ (by norm_num))
  · have hlog : Int.log 2 (((2 ^ 53 : ℕ) : ℚ)) = 53 := by
      have h := Int.log_zpow (R := ℚ) (b := 2) (by decide) 53
      rw [← h]
      norm_num
    have he : ulpExponent ((2 ^ 53 : ℕ) : ℚ) = 1 := by
      rw [ulpExponent, hlog]
      decide
    have hscaled : ((2 ^ 53 : ℕ) : ℚ) / 2 ^ (1 : ℤ) = ((2 ^ 52 : ℤ) : ℚ) := by norm_num
    rw [roundDouble, he, hscaled, roundHalfEven_intCast]
    norm_num

/-- The double nearest to `q`. Numbers too large for a double are rounded on, where it would be infinite. -/
def nearestDouble (q : ℚ) : ℚ := NumberText.signed (decide (q < 0)) (roundDouble |q|)

/-- **Integers of up to 53 binary digits are doubles.** -/
theorem nearestDouble_intCast {i : ℤ} (h : i.natAbs ≤ 2 ^ 53) : nearestDouble i = i := by
  have habs : |(i : ℚ)| = (i.natAbs : ℕ) := by
    rw [Nat.cast_natAbs, Int.cast_abs]
  rw [nearestDouble, habs, roundDouble_natCast h, ← habs, NumberText.signed]
  by_cases hneg : (i : ℚ) < 0
  · rw [if_pos (decide_eq_true hneg), abs_of_neg hneg, neg_neg]
  · rw [if_neg (by simpa using hneg), abs_of_nonneg (not_lt.mp hneg)]
/-- A number is rounded to one of its neighbours. -/
theorem roundHalfEven_bounds (q : ℚ) : ⌊q⌋ ≤ roundHalfEven q ∧ roundHalfEven q ≤ ⌊q⌋ + 1 := by
  simp only [roundHalfEven]
  split_ifs <;> omega

/-- Rounding a natural number gives one, of the same order of magnitude. -/
theorem exists_roundDouble_natCast (n : ℕ) :
    ∃ m : ℕ, roundDouble n = m ∧ m ≤ 2 * n ∧ (0 < n → 0 < m) := by
  rcases Nat.lt_or_ge (2 ^ 53) n with hlt | hle
  · have hn : (0 : ℚ) < n := by exact_mod_cast Nat.lt_of_le_of_lt (Nat.zero_le _) hlt
    have hlog : 53 ≤ Int.log 2 (n : ℚ) :=
      (Int.zpow_le_iff_le_log (by decide) hn).mp (by exact_mod_cast hlt.le)
    -- beyond the mantissa, a unit is a power of two that is no more than the number
    obtain ⟨k, hk⟩ : ∃ k : ℕ, ulpExponent n = k := ⟨(Int.log 2 (n : ℚ) - 52).toNat, by
      unfold ulpExponent
      omega⟩
    have hunit : (2 : ℚ) ^ k ≤ n := by
      have hlogk : (k : ℤ) ≤ Int.log 2 (n : ℚ) := by
        unfold ulpExponent at hk
        omega
      have h := (Int.zpow_le_iff_le_log (by decide) hn).mpr hlogk
      exact_mod_cast h
    have hpos : (0 : ℚ) < 2 ^ k := by positivity
    obtain ⟨hlow, hhigh⟩ := roundHalfEven_bounds (n / 2 ^ k)
    have hone : 1 ≤ ⌊(n : ℚ) / 2 ^ k⌋ := by
      rw [Int.le_floor, Int.cast_one, one_le_div hpos]
      exact hunit
    obtain ⟨r, hr⟩ : ∃ r : ℕ, roundHalfEven ((n : ℚ) / 2 ^ k) = r :=
      Int.eq_ofNat_of_zero_le (by omega)
    have hvalue : roundDouble n = ((r * 2 ^ k : ℕ) : ℚ) := by
      rw [roundDouble, hk, zpow_natCast, hr]
      push_cast
      rfl
    refine ⟨r * 2 ^ k, hvalue, ?_, fun _ => Nat.mul_pos (by omega) (Nat.two_pow_pos k)⟩
    have hle : (r : ℚ) ≤ n / 2 ^ k + 1 := by
      have hfloor := Int.floor_le ((n : ℚ) / 2 ^ k)
      have hcast : (r : ℚ) ≤ (⌊(n : ℚ) / 2 ^ k⌋ : ℚ) + 1 := by exact_mod_cast hr ▸ hhigh
      linarith
    have hmul : (r : ℚ) * 2 ^ k ≤ 2 * n := by
      calc (r : ℚ) * 2 ^ k ≤ (n / 2 ^ k + 1) * 2 ^ k := mul_le_mul_of_nonneg_right hle hpos.le
        _ = n + 2 ^ k := by rw [add_mul, div_mul_cancel₀ _ hpos.ne', one_mul]
        _ ≤ 2 * n := by linarith
    exact_mod_cast hmul
  · exact ⟨n, roundDouble_natCast hle, by omega, id⟩

/-- **The double nearest to an integer is an integer** with its sign and its order of magnitude. -/
theorem exists_nearestDouble_intCast (i : ℤ) : ∃ i' : ℤ, nearestDouble i = i' ∧
    i'.natAbs ≤ 2 * i.natAbs ∧ (0 < i ↔ 0 < i') := by
  obtain ⟨m, hm, hle, hpos⟩ := exists_roundDouble_natCast i.natAbs
  have habs : |(i : ℚ)| = (i.natAbs : ℕ) := by
    rw [Nat.cast_natAbs, Int.cast_abs]
  rw [nearestDouble, habs, hm, signed]
  by_cases hneg : (i : ℚ) < 0
  · have hi : i < 0 := by exact_mod_cast hneg
    rw [if_pos (decide_eq_true hneg)]
    exact ⟨-m, by push_cast; rfl, by omega, by omega⟩
  · have hi : 0 ≤ i := by exact_mod_cast not_lt.mp hneg
    rw [if_neg (by simpa using hneg)]
    exact ⟨m, rfl, by omega, by omega⟩

/-- Zero is a double. -/
theorem roundDouble_zero : roundDouble 0 = 0 := by
  have hzero : roundHalfEven 0 = 0 := by simpa using roundHalfEven_intCast 0
  rw [roundDouble, zero_div, hzero, Int.cast_zero, zero_mul]

/-- A double is a whole number of units in its last place. -/
theorem exists_ulp {q : ℚ} (h : roundDouble q = q) : ∃ n : ℤ, q = n * 2 ^ ulpExponent q :=
  ⟨_, h.symm⟩

/-- **The digits of a double are found.** -/
theorem shortest_isSome {q : ℚ} (hq : 0 < q) (h : roundDouble q = q) :
    (shortest q).isSome := by
  obtain ⟨n, hn⟩ := exists_ulp h
  -- With this many digits the decimal is exact.
  generalize hk : (-ulpExponent q).toNat = k
  have hten : (0 : ℚ) < 10 ^ (-k : ℤ) := by positivity
  obtain ⟨N, hN⟩ : ∃ N : ℕ, q / 10 ^ (-k : ℤ) = N := by
    obtain ⟨i, hi⟩ : ∃ i : ℕ, ulpExponent q = i - k := ⟨(ulpExponent q + k).toNat, by omega⟩
    have hpos : 0 ≤ n := by
      have hu : (0 : ℚ) < 2 ^ ulpExponent q := by positivity
      rw [hn] at hq
      exact_mod_cast le_of_lt (pos_of_mul_pos_left hq (le_of_lt hu))
    refine ⟨n.toNat * 2 ^ i * 5 ^ k, ?_⟩
    have hnat : ((n.toNat : ℕ) : ℚ) = n := by exact_mod_cast Int.toNat_of_nonneg hpos
    have hfive : (10 : ℚ) ^ k = 2 ^ k * 5 ^ k := by rw [← mul_pow]; norm_num
    push_cast
    rw [hn, hnat, hi, zpow_sub₀ (by norm_num), zpow_neg, zpow_natCast, zpow_natCast, zpow_natCast,
      div_inv_eq_mul, hfive]
    field_simp
  have hback : (N : ℚ) * 10 ^ (-k : ℤ) = q := by rw [← hN, div_mul_cancel₀ _ (ne_of_gt hten)]
  have hlog : -(k : ℤ) ≤ Int.log 10 q := by
    have hone : 1 ≤ N := by
      rcases Nat.eq_zero_or_pos N with rfl | h
      · rw [← hback, Nat.cast_zero, zero_mul] at hq
        exact absurd hq (lt_irrefl _)
      · exact h
    have hle : ((10 : ℕ) : ℚ) ^ (-k : ℤ) ≤ q := by
      rw [← hback]
      exact le_mul_of_one_le_left (le_of_lt hten) (by exact_mod_cast hone)
    exact (Int.zpow_le_iff_le_log (by decide) hq).mp hle
  obtain ⟨j, hj⟩ : ∃ j : ℕ, Int.log 10 q - j = -k := ⟨(Int.log 10 q + k).toNat, by omega⟩
  rw [shortest, List.findSome?_isSome_iff]
  refine ⟨j, ?_, ?_⟩
  · rw [List.mem_range]
    omega
  · rw [hj, Option.isSome_map, List.find?_isSome]
    refine ⟨N, ?_, ?_⟩
    · rw [neighbours, hN]
      simp
    · rw [hback]
      exact decide_eq_true h

/-- The shortest digits are rounded to the number. -/
theorem shortest_spec {q : ℚ} {m : ℕ} {s : ℤ} (h : shortest q = some (m, s)) :
    roundDouble (m * 10 ^ s) = q := by
  obtain ⟨j, -, hj⟩ := List.exists_of_findSome?_eq_some h
  obtain ⟨m', hm', heq⟩ := Option.map_eq_some_iff.mp hj
  obtain ⟨rfl, rfl⟩ := Prod.mk.inj heq
  have hfound := List.find?_some hm'
  exact of_decide_eq_true hfound

/-- Those of zero are zero. -/
theorem shortest_zero : shortest 0 = some (0, 0) := by
  have hrange : (Int.log 10 (0 : ℚ) + (-ulpExponent 0).toNat + 1).toNat = 52 + 1 := by
    simp [ulpExponent]
  rw [shortest, hrange, List.range_succ_eq_map, List.findSome?_cons]
  simp [neighbours, roundDouble_zero]

/-- Those of another number are not. -/
theorem shortest_pos {q : ℚ} {m : ℕ} {s : ℤ} (h : shortest q = some (m, s)) (hq : q ≠ 0) :
    0 < m := by
  rcases Nat.eq_zero_or_pos m with rfl | hm
  · have hz := shortest_spec h
    rw [Nat.cast_zero, zero_mul, roundDouble_zero] at hz
    exact absurd hz.symm hq
  · exact hm

/-- What a double is written as, is written the way numbers are read. -/
theorem valid_floatText (q : ℚ) : (floatText q).Valid := by
  have hzero : ∀ c ∈ ['0'], c.isDigit := List.all_eq_true.mp (by decide)
  unfold floatText
  by_cases hq : |q| = 0
  · rw [hq, shortest_zero]
    exact valid_decimalText _ (.inr rfl)
  · cases hs : shortest |q| with
    | none => exact ⟨by simp, hzero, .inl rfl, hzero, nofun⟩
    | some ms => exact valid_decimalText _ (.inl (stripZeros_spec _ (shortest_pos hs hq)).1)

/-- **What is written for a double stands for it.** -/
theorem number_floatText {q : ℚ} (h : IsDouble q) : (floatText q).number = .float q := by
  obtain ⟨⟨m, s⟩, hms⟩ : ∃ ms, shortest |q| = some ms := by
    by_cases hq : |q| = 0
    · exact ⟨_, hq ▸ shortest_zero⟩
    · exact Option.isSome_iff_exists.mp
        (shortest_isSome (lt_of_le_of_ne (abs_nonneg q) (Ne.symm hq)) h)
  have hvalue : ((stripZeros m m s).1 : ℚ) * 10 ^ (stripZeros m m s).2 = m * 10 ^ s := by
    rcases Nat.eq_zero_or_pos m with rfl | hm
    · rfl
    · exact (stripZeros_spec m hm).2
  have hsign : signed (decide (q < 0)) |q| = q := by
    by_cases hneg : q < 0
    · rw [signed, if_pos (decide_eq_true hneg), abs_of_neg hneg, neg_neg]
    · rw [signed, if_neg (by simpa using hneg), abs_of_nonneg (not_lt.mp hneg)]
  unfold floatText
  rw [hms]
  dsimp only
  rw [number_decimalText, hvalue, shortest_spec hms, hsign]

end Jasil
