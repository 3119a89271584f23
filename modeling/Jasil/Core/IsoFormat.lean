import Mathlib.Tactic.Linarith
import Jasil.Core.Timestamps

/-! # Timestamps as text
What `isoformat` writes, `fromisoformat` reads back to the same instant: no digit of a timestamp is lost
on its way through a text, for every timestamp a `datetime` can hold.

* **`daysFromCivil`**: the inverse of `civilFromDays`, with `daysFromCivil_civilFromDays`.
* **`fromisoformat`**: the date and the time of day with every field written out, and an offset.
* **`fromisoformat_isoformat`**, **`isoformatMicroseconds_inj`**. -/

namespace Jasil

/-! ## The calendar -/

/-- `datetime.min`, in UTC. -/
def datetimeMin : Instant := -62135596800000000

/-- `datetime.max`, in UTC. -/
def datetimeMax : Instant := 253402300799999999

/-- The instants a `datetime` can hold. -/
def Representable (t : Instant) : Prop := datetimeMin ≤ t ∧ t ≤ datetimeMax

instance (t : Instant) : Decidable (Representable t) := inferInstanceAs (Decidable (_ ∧ _))

/-- The day number of a date. -/
def daysFromCivil (year month day : ℤ) : ℤ :=
  let marchYear := if month ≤ 2 then year - 1 else year
  let marchMonth := if month ≤ 2 then month + 9 else month - 3
  let yearOfEra := marchYear % 400
  let dayOfYear := (153 * marchMonth + 2) / 5 + day - 1
  marchYear / 400 * 146097 + (yearOfEra * 365 + yearOfEra / 4 - yearOfEra / 100 + dayOfYear) - 719468

/-- The year of an era that its day `d` falls in. -/
def yearOfEra (d : ℤ) : ℤ := (d - d / 1460 + d / 36524 - d / 146096) / 365

/-- The day of an era that its year `y` starts with. -/
def startOfYear (y : ℤ) : ℤ := 365 * y + y / 4 - y / 100

/-- Later days are in no earlier year. -/
theorem yearOfEra_mono {a b : ℤ} (h : a ≤ b) : yearOfEra a ≤ yearOfEra b := by
  have hleap : a - a / 1460 ≤ b - b / 1460 := by omega
  have hcentury : a / 36524 ≤ b / 36524 := by omega
  -- An era is four centuries, so what is added for a century is not taken away for the era.
  have hera (d : ℤ) : d / 146096 = d / 36524 / 4 := by omega
  have hcenturies : a / 36524 - a / 36524 / 4 ≤ b / 36524 - b / 36524 / 4 := by omega
  rw [yearOfEra, yearOfEra, hera, hera]
  exact Int.ediv_le_ediv (by decide) (by linarith)

/-- The first day of a year is counted to it, the day before is not. -/
theorem yearOfEra_startOfYear (y : Fin 400) :
    y ≤ yearOfEra (startOfYear y) ∧ (0 < y → yearOfEra (startOfYear y - 1) < y) := by
  revert y
  decide +kernel

/-- An era has 400 years. -/
theorem yearOfEra_bounds {d : ℤ} (h0 : 0 ≤ d) (h1 : d < 146097) :
    0 ≤ yearOfEra d ∧ yearOfEra d < 400 := by
  rw [yearOfEra]
  omega

/-- A day of an era is one of the 366 days of the year it is counted to. -/
theorem dayOfYear_bounds {d : ℤ} (h0 : 0 ≤ d) (h1 : d < 146097) :
    0 ≤ d - startOfYear (yearOfEra d) ∧ d - startOfYear (yearOfEra d) ≤ 365 := by
  obtain ⟨hy0, hy1⟩ := yearOfEra_bounds h0 h1
  obtain ⟨y, hy⟩ : ∃ y : ℕ, yearOfEra d = y := ⟨_, (Int.toNat_of_nonneg hy0).symm⟩
  rw [hy] at hy1 ⊢
  constructor
  · -- Before the first day of `y`, the count gives an earlier year.
    by_contra hneg
    have hle : d ≤ startOfYear y - 1 := by omega
    have hpos : 0 < y := by
      rcases Nat.eq_zero_or_pos y with rfl | h
      · simp only [startOfYear] at hle
        omega
      · exact h
    have hmono := yearOfEra_mono hle
    have hlt := (yearOfEra_startOfYear ⟨y, by omega⟩).2 (by simpa [Fin.lt_def] using hpos)
    simp only at hlt
    omega
  · -- From the first day of the next year on, a later one; the last year of an era ends with it.
    by_contra hneg
    by_cases hlast : y + 1 < 400
    · have hle : startOfYear (y + 1) ≤ d := by
        simp only [startOfYear] at hneg ⊢
        omega
      have hmono := yearOfEra_mono hle
      have hge := (yearOfEra_startOfYear ⟨y + 1, hlast⟩).1
      push_cast at hge
      omega
    · have hy399 : y = 399 := by omega
      subst hy399
      simp only [startOfYear] at hneg
      omega

/-- The parts `civilFromDays` computes a date from. -/
theorem civilFromDays_eq (days : ℤ) :
    ∃ era y doy mp : ℤ, 0 ≤ y ∧ y < 400 ∧ 0 ≤ doy ∧ doy ≤ 365 ∧ mp = (5 * doy + 2) / 153 ∧
      days = era * 146097 + (startOfYear y + doy) - 719468 ∧
      civilFromDays days = (y + era * 400 + (if (if mp < 10 then mp + 3 else mp - 9) ≤ 2 then 1 else 0),
        if mp < 10 then mp + 3 else mp - 9, doy - (153 * mp + 2) / 5 + 1) := by
  have h0 : 0 ≤ (days + 719468) % 146097 := Int.emod_nonneg _ (by decide)
  have h1 : (days + 719468) % 146097 < 146097 := Int.emod_lt_of_pos _ (by decide)
  obtain ⟨hy0, hy1⟩ := yearOfEra_bounds h0 h1
  obtain ⟨hd0, hd1⟩ := dayOfYear_bounds h0 h1
  refine ⟨(days + 719468) / 146097, yearOfEra ((days + 719468) % 146097), _, _, hy0, hy1, hd0, hd1,
    rfl, ?_, rfl⟩
  omega

/-- **A day number is recovered from its date.** -/
theorem daysFromCivil_civilFromDays (days : ℤ) :
    daysFromCivil (civilFromDays days).1 (civilFromDays days).2.1 (civilFromDays days).2.2
      = days := by
  obtain ⟨era, y, doy, mp, hy0, hy1, hd0, hd1, rfl, hdays, heq⟩ := civilFromDays_eq days
  have hera : (y + era * 400) / 400 = era := by omega
  have hyear : (y + era * 400) % 400 = y := by omega
  rw [heq, daysFromCivil]
  dsimp only
  rw [startOfYear] at hdays
  split_ifs <;>
    first
    | omega
    | simp only [add_zero, add_sub_cancel_right, sub_add_cancel, hera, hyear]
      omega

/-- The date of a day that a `datetime` can hold. -/
theorem civilFromDays_bounds (days : ℤ) (h0 : -719162 ≤ days) (h1 : days ≤ 2932896) :
    (1 ≤ (civilFromDays days).1 ∧ (civilFromDays days).1 ≤ 9999)
      ∧ (1 ≤ (civilFromDays days).2.1 ∧ (civilFromDays days).2.1 ≤ 12)
      ∧ 1 ≤ (civilFromDays days).2.2 ∧ (civilFromDays days).2.2 ≤ 31 := by
  obtain ⟨era, y, doy, mp, hy0, hy1, hd0, hd1, rfl, hdays, heq⟩ := civilFromDays_eq days
  rw [heq]
  dsimp only
  rw [startOfYear] at hdays
  refine ⟨?_, ?_, ?_⟩
  · split_ifs <;> omega
  · split_ifs <;> omega
  · omega

/-! ## Numbers of a fixed width -/

/-- Read a number of `width` digits off the front. -/
def readDigits (width : ℕ) (cs : List Char) : Option (ℤ × List Char) :=
  let digits := cs.take width
  if digits.length = width ∧ digits.all Char.isDigit then
    some ((Nat.ofDigitChars 10 digits 0 : ℕ), cs.drop width)
  else none

/-- The digits of a padded number. -/
theorem toList_zeroPadded (width : ℕ) (n : ℤ) :
    (zeroPadded width n).toList
      = List.replicate (width - (Nat.toDigits 10 n.toNat).length) '0' ++ Nat.toDigits 10 n.toNat := by
  simp only [zeroPadded, Nat.toString_eq_repr, String.toList_append, String.toList_ofList,
    Nat.toList_repr, ← String.length_toList]

/-- A number that fits is padded to the width. -/
theorem length_zeroPadded {width : ℕ} {n : ℤ} (hw : 0 < width) (h0 : 0 ≤ n)
    (h : n < 10 ^ width) : (zeroPadded width n).toList.length = width := by
  have hnat : n.toNat < 10 ^ width := (Int.toNat_lt h0).mpr (by exact_mod_cast h)
  have hlen : (Nat.toDigits 10 n.toNat).length ≤ width :=
    (Nat.length_toDigits_le_iff (by decide) hw).mpr hnat
  rw [toList_zeroPadded, List.length_append, List.length_replicate]
  omega

/-- **A padded number is read back**, whatever follows it. -/
theorem readDigits_zeroPadded {width : ℕ} {n : ℤ} (hw : 0 < width) (h0 : 0 ≤ n)
    (h : n < 10 ^ width) (rest : List Char) :
    readDigits width ((zeroPadded width n).toList ++ rest) = some (n, rest) := by
  have hlen := length_zeroPadded hw h0 h
  have htake : ((zeroPadded width n).toList ++ rest).take width = (zeroPadded width n).toList :=
    List.take_left' hlen
  have hdrop : ((zeroPadded width n).toList ++ rest).drop width = rest := List.drop_left' hlen
  have hdigits : (zeroPadded width n).toList.all Char.isDigit = true := by
    rw [toList_zeroPadded, List.all_append, Bool.and_eq_true, List.all_eq_true, List.all_eq_true]
    refine ⟨fun c hc => ?_, fun c hc => Nat.isDigit_of_mem_toDigits (by decide) (by decide) hc⟩
    rw [List.eq_of_mem_replicate hc]
    decide
  have hvalue : Nat.ofDigitChars 10 (zeroPadded width n).toList 0 = n.toNat := by
    rw [toList_zeroPadded, Nat.ofDigitChars_append, Nat.ofDigitChars_replicate_zero, Nat.mul_zero,
      Nat.ofDigitChars_ten_toDigits]
  rw [readDigits]
  simp only [htake, hdrop, hlen, hdigits, hvalue, and_self, if_true, Int.toNat_of_nonneg h0]

/-- Read one sign off the front. -/
def expect (c : Char) : List Char → Option (List Char)
  | d :: cs => if d = c then some cs else none
  | [] => none

/-- A sign that is there is found. -/
@[simp] theorem expect_cons (c : Char) (cs : List Char) : expect c (c :: cs) = some cs := by
  simp [expect]

/-! ## Timestamps -/

/-- A timestamp up to its seconds. -/
def isoSeconds (t : Instant) : String :=
  let (year, month, day) := civilFromDays (t / 86400000000)
  let inDay := t % 86400000000
  zeroPadded 4 year ++ "-" ++ zeroPadded 2 month ++ "-" ++ zeroPadded 2 day ++ "T"
    ++ zeroPadded 2 (inDay / 3600000000) ++ ":" ++ zeroPadded 2 (inDay / 60000000 % 60) ++ ":"
    ++ zeroPadded 2 (inDay / 1000000 % 60)

/-- `as_utc(moment).isoformat(timespec="microseconds")`. -/
def isoformatMicroseconds (t : Instant) : String :=
  isoSeconds t ++ "." ++ zeroPadded 6 (t % 1000000) ++ "+00:00"

/-- Read a date and a time of day up to its seconds; any sign may stand between the two. -/
def readSeconds (cs : List Char) : Option (Instant × List Char) := do
  let (year, cs) ← readDigits 4 cs
  let cs ← expect '-' cs
  let (month, cs) ← readDigits 2 cs
  let cs ← expect '-' cs
  let (day, cs) ← readDigits 2 cs
  let cs ← cs.tail?
  let (hour, cs) ← readDigits 2 cs
  let cs ← expect ':' cs
  let (minute, cs) ← readDigits 2 cs
  let cs ← expect ':' cs
  let (second, cs) ← readDigits 2 cs
  let days := daysFromCivil year month day
  if 1 ≤ year ∧ civilFromDays days = (year, month, day) ∧ hour < 24 ∧ minute < 60 ∧ second < 60 then
    some (days * 86400000000 + hour * 3600000000 + minute * 60000000 + second * 1000000, cs)
  else none

/-- Read an offset from UTC, in minutes. -/
def readOffset : List Char → Option ℤ
  | sign :: cs => do
    let (hours, cs) ← readDigits 2 cs
    let cs ← expect ':' cs
    let (minutes, cs) ← readDigits 2 cs
    if cs ≠ [] ∨ 24 ≤ hours ∨ 60 ≤ minutes then none
    else if sign = '+' then some (hours * 60 + minutes)
    else if sign = '-' then some (-(hours * 60 + minutes))
    else none
  | [] => none

/-- Read the microseconds, which may be missing. -/
def readMicros : List Char → Option (ℤ × List Char)
  | '.' :: cs => readDigits 6 cs
  | cs => some (0, cs)

/-- `datetime.fromisoformat`, for a timestamp with an offset and every field written out; the
microseconds may be missing. -/
def fromisoformat (text : String) : Option Instant := do
  let (seconds, cs) ← readSeconds text.toList
  let (micros, cs) ← readMicros cs
  let offset ← readOffset cs
  some (seconds + micros - offset * 60000000)

/-- The parts of a timestamp. -/
theorem isoformat_eq (t : Instant) :
    isoformat t = isoSeconds t ++ (if t % 86400000000 % 1000000 = 0 then ""
      else "." ++ zeroPadded 6 (t % 86400000000 % 1000000)) ++ "+00:00" := rfl

/-- A date with its time is read back, whatever follows. -/
theorem readSeconds_isoSeconds {t : ℤ} (h : Representable t) (rest : List Char) :
    readSeconds ((isoSeconds t).toList ++ rest) = some (t - t % 1000000, rest) := by
  have hmin : (-62135596800000000 : ℤ) ≤ t := h.1
  have hmax : (253402300799999999 : ℤ) ≥ t := h.2
  obtain ⟨⟨hy0, hy1⟩, ⟨hm0, hm1⟩, hd0, hd1⟩ :=
    civilFromDays_bounds (t / 86400000000) (by omega) (by omega)
  have hdays := daysFromCivil_civilFromDays (t / 86400000000)
  unfold isoSeconds
  generalize hc : civilFromDays (t / 86400000000) = date at *
  obtain ⟨year, month, day⟩ := date
  dsimp only at hy0 hy1 hm0 hm1 hd0 hd1 hdays ⊢
  have hvalid : 1 ≤ year ∧ civilFromDays (daysFromCivil year month day) = (year, month, day)
      ∧ t % 86400000000 / 3600000000 < 24 ∧ t % 86400000000 / 60000000 % 60 < 60
      ∧ t % 86400000000 / 1000000 % 60 < 60 := by
    rw [hdays, hc]
    exact ⟨hy0, rfl, by omega, by omega, by omega⟩
  have hsum : t / 86400000000 * 86400000000 + t % 86400000000 / 3600000000 * 3600000000
      + t % 86400000000 / 60000000 % 60 * 60000000 + t % 86400000000 / 1000000 % 60 * 1000000
      = t - t % 1000000 := by omega
  -- One field after the other.
  have hfield {n : ℤ} (h0 : 0 ≤ n) (h1 : n < 100) (cs : List Char) :
      readDigits 2 ((zeroPadded 2 n).toList ++ cs) = some (n, cs) :=
    readDigits_zeroPadded (by decide) h0 (by omega) cs
  have hdash : "-".toList = ['-'] := rfl
  have hsep : "T".toList = ['T'] := rfl
  have hcolon : ":".toList = [':'] := rfl
  simp only [String.toList_append, List.append_assoc, hdash, hsep, hcolon, List.cons_append,
    List.nil_append]
  rw [readSeconds, readDigits_zeroPadded (by decide) (by omega) (by omega)]
  simp only [Option.bind_eq_bind, Option.bind_some, expect_cons]
  rw [hfield (by omega) (by omega)]
  simp only [Option.bind_some, expect_cons]
  rw [hfield (by omega) (by omega)]
  simp only [Option.bind_some, List.tail?_cons]
  rw [hfield (by omega) (by omega)]
  simp only [Option.bind_some, expect_cons]
  rw [hfield (by omega) (by omega)]
  simp only [Option.bind_some, expect_cons]
  rw [hfield (by omega) (by omega)]
  simp only [Option.bind_some]
  rw [if_pos hvalid, hdays, hsum]

/-- The offset of UTC is read. -/
theorem readOffset_utc : readOffset "+00:00".toList = some 0 := by decide

/-- Without a point there are no microseconds. -/
theorem readMicros_utc : readMicros "+00:00".toList = some (0, "+00:00".toList) := by rfl

/-- Six digits of microseconds are read back. -/
theorem readMicros_zeroPadded {n : ℤ} (h0 : 0 ≤ n) (h1 : n < 1000000) (rest : List Char) :
    readMicros (("." ++ zeroPadded 6 n).toList ++ rest) = some (n, rest) := by
  have hdot : ".".toList = ['.'] := rfl
  rw [String.toList_append, List.append_assoc, hdot, List.singleton_append, readMicros,
    readDigits_zeroPadded (by decide) h0 (by omega)]

/-- A timestamp whose microseconds are read back is read back. -/
theorem fromisoformat_of_readMicros {t : ℤ} (h : Representable t) {fraction : String}
    (hf : readMicros (fraction.toList ++ "+00:00".toList) = some (t % 1000000, "+00:00".toList)) :
    fromisoformat (isoSeconds t ++ fraction ++ "+00:00") = some t := by
  have hsum : t - t % 1000000 + t % 1000000 - 0 * 60000000 = t := by omega
  rw [fromisoformat, String.toList_append, String.toList_append, List.append_assoc,
    readSeconds_isoSeconds h]
  simp only [Option.bind_eq_bind, Option.bind_some, hf, readOffset_utc, hsum]

/-- **What `isoformat` writes is read back**, for every instant a `datetime` can hold. -/
theorem fromisoformat_isoformat {t : ℤ} (h : Representable t) :
    fromisoformat (isoformat t) = some t := by
  have hmod : t % 86400000000 % 1000000 = t % 1000000 := by omega
  rw [isoformat_eq, hmod]
  apply fromisoformat_of_readMicros h
  by_cases hmicros : t % 1000000 = 0
  · rw [if_pos hmicros, hmicros]
    exact readMicros_utc
  · rw [if_neg hmicros]
    exact readMicros_zeroPadded (by omega) (by omega) _

/-- A timestamp with microseconds is read back. -/
theorem fromisoformat_isoformatMicroseconds {t : ℤ} (h : Representable t) :
    fromisoformat (isoformatMicroseconds t) = some t := by
  have hassoc : isoformatMicroseconds t
      = isoSeconds t ++ ("." ++ zeroPadded 6 (t % 1000000)) ++ "+00:00" := by
    simp only [isoformatMicroseconds, String.append_assoc]
  rw [hassoc]
  exact fromisoformat_of_readMicros h (readMicros_zeroPadded (by omega) (by omega) _)

/-- Instants are told apart by their text. -/
theorem isoformatMicroseconds_inj {t u : ℤ} (ht : Representable t) (hu : Representable u)
    (h : isoformatMicroseconds t = isoformatMicroseconds u) : t = u := by
  have hread := fromisoformat_isoformatMicroseconds ht
  rw [h, fromisoformat_isoformatMicroseconds hu] at hread
  exact (Option.some.inj hread).symm

end Jasil
