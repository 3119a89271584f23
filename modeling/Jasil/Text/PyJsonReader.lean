import Jasil.Text.PyJson

/-! # What the json module reads
* **`readString_quote`**, **`parseValue_print`**: what was written is read as the value in which the last of
  equal keys is left, whatever follows it.
* **`parseValue_fuel`**: each step of the reader leaves a shorter text, so that it reads on until it is done.
* **`meets_loads`**: the integers of a value that was read are short, and its keys are distinct. -/

namespace Jasil.PyJson

open NumberText
open JsonString (unicodeEscape hex4)

/-! ## Strings are read back -/

/-- A character's number is its code. -/
theorem ofCode_char (c : Char) : CodePoint.ofCode c.toNat = some (.char c) := by
  have hc : c.toNat.isValidChar := c.valid
  rw [CodePoint.ofCode, if_pos hc, Char.ofNat_toNat]

/-- Four digits are read back. -/
theorem readHex4_hex4 {n : ℕ} (h : n < 65536) (rest : Str) :
    readHex4 (.ofChars (hex4 n) ++ rest) = some (n, rest) := by
  rw [readHex4, Str.leading_ofChars_append, JsonString.readHex4_hex4 h]
  rfl

/-- An escape is read back. -/
theorem readUnicode_hex4 {c : Char} (h : c.toNat < 0xD800) (rest : Str) :
    readUnicode (.ofChars (hex4 c.toNat) ++ rest) = some (.char c, rest) := by
  have hhigh : ¬IsHighSurrogate c.toNat := fun hle => absurd hle.1 (by omega)
  rw [readUnicode, readHex4_hex4 (by omega)]
  simp only [Option.bind_eq_bind, Option.bind_some, ofCode_char, Option.map_some]
  split
  · split
    · rw [if_neg fun hpair => hhigh hpair.1]
    · rfl
  · rfl

/-- **A code point is read back**, whatever follows it. -/
theorem readPoint_escapePoint (p : CodePoint) (rest : Str) :
    readPoint (escapePoint p ++ rest) = some (p, rest) := by
  cases p with
  | surrogate n => rfl
  | char c =>
    rw [escapePoint]
    unfold escapeChar
    split_ifs with hquote hback hnl hcr htab hff hbs hcontrol
    · subst hquote; rfl
    · subst hback; rfl
    · subst hnl; rfl
    · subst hcr; rfl
    · subst htab; rfl
    · have hc : c = Char.ofNat 12 := by rw [← hff, Char.ofNat_toNat]
      subst hc; rfl
    · have hc : c = Char.ofNat 8 := by rw [← hbs, Char.ofNat_toNat]
      subst hc; rfl
    · have hlt : c.toNat < 32 := hcontrol
      exact readUnicode_hex4 (by omega) rest
    · have hback' : CodePoint.char c ≠ .char '\\' := fun h => hback (CodePoint.char.inj h)
      have hplain : ¬(CodePoint.char c = .char '"' ∨ isControl (.char c) = true) := by
        rintro (h | h)
        · exact hquote (CodePoint.char.inj h)
        · exact hcontrol (of_decide_eq_true h)
      rw [Str.ofChars_cons, Str.ofChars_nil, List.singleton_append, readPoint, if_neg hback', if_neg hplain]

/-- What was escaped is read back. -/
theorem readBody_escape {fuel : ℕ} (s : Str) (h : s.length < fuel) (rest : Str) :
    readBody fuel (s.flatMap escapePoint ++ .char '"' :: rest) = some (s, rest) := by
  induction s generalizing fuel with
  | nil =>
    obtain ⟨fuel, rfl⟩ := Nat.exists_eq_add_one_of_ne_zero (Nat.ne_of_gt h)
    rfl
  | cons p s ih =>
    obtain ⟨fuel, rfl⟩ := Nat.exists_eq_add_one_of_ne_zero (Nat.ne_zero_of_lt h)
    have hs : s.length < fuel := by simpa using h
    have hread := readPoint_escapePoint p (s.flatMap escapePoint ++ .char '"' :: rest)
    -- an escape does not start with the quotation mark that would end the string
    have hopen : (escapePoint p ++ (s.flatMap escapePoint ++ .char '"' :: rest)).head? ≠ some (.char '"') := by
      intro hhead
      obtain ⟨tail, htail⟩ := List.head?_eq_some_iff.mp hhead
      rw [htail] at hread
      cases hread
    rw [List.flatMap_cons, List.append_assoc, readBody, if_neg hopen, hread]
    simp only [Option.bind_eq_bind, Option.bind_some, ih hs]

/-- Escaping makes a text no shorter. -/
theorem length_le_length_escape (s : Str) : s.length ≤ (s.flatMap escapePoint).length := by
  induction s with
  | nil => exact Nat.zero_le _
  | cons p s ih =>
    have hpos : 0 < (escapePoint p).length := by
      rw [List.length_pos_iff]
      intro hnil
      have hread := readPoint_escapePoint p []
      rw [hnil] at hread
      cases hread
    rw [List.flatMap_cons, List.length_append, List.length_cons]
    omega

/-- **What was quoted is read back**, whatever follows it. -/
theorem readString_quote (s rest : Str) : readString (quote s ++ rest) = some (s, rest) := by
  have hlength := length_le_length_escape s
  have happ : quote s ++ rest = .char '"' :: (s.flatMap escapePoint ++ .char '"' :: rest) := by
    rw [quote, List.cons_append, List.append_assoc]
    rfl
  rw [happ, readString, readBody_escape]
  rw [List.length_append, List.length_cons]
  omega

/-! ## Values are read back -/

/-- What follows does not belong to a number. -/
def EndsNumberAt (s : Str) : Prop := EndsNumber s.leading

/-- The text of a number is read as its value. -/
theorem readNumber_chars {t : NumberText} (h : t.Valid) {rest : Str} (hrest : EndsNumberAt rest) :
    readNumber (.ofChars t.chars ++ rest) = (numberValue t).map (·, rest) := by
  have hdrop : (Str.ofChars t.chars ++ rest).drop (t.chars ++ rest.leading).length
      = rest.drop rest.leading.length := by
    rw [List.length_append, ← Str.length_ofChars, List.drop_length_add_append]
  rw [readNumber, Str.leading_ofChars_append, readNumberText_chars h hrest]
  simp only [Option.bind_eq_bind, Option.bind_some, hdrop, Str.drop_leading]
  cases numberValue t <;> rfl

/-- The text of a short integer is read as the integer. -/
theorem numberValue_intText {i : ℤ} (h : IsShort i) : numberValue (intText i) = some (.int i) := by
  have hnat : natOf (Nat.toDigits 10 i.natAbs) = i.natAbs := Nat.ofDigitChars_ten_toDigits
  unfold numberValue
  rw [if_pos ⟨rfl, rfl⟩, if_pos (show (intText i).whole.length ≤ maxStrDigits from h)]
  simp only [intText, hnat, decide_eq_true_eq]
  split_ifs with hneg <;> congr 2 <;> omega

/-- The text of a float is read as the float. -/
theorem numberValue_float {f : PyFloat} {t : NumberText} (h : f.text = some t) :
    numberValue t = some (.float f) := by
  obtain ⟨-, hfloat, hread⟩ := PyFloat.ofText_text h
  rw [numberValue, if_neg hfloat, hread]

/-- The text starts with a code point that is no white space. -/
def Starts (s : Str) : Prop := ∃ p rest, s = p :: rest ∧ isSpace p = false

/-- No blank is skipped. -/
theorem skipSpace_starts {s : Str} (h : Starts s) : skipSpace s = s := by
  obtain ⟨p, rest, rfl, hp⟩ := h
  rw [skipSpace, List.dropWhile_cons_of_neg (by simpa using hp)]

/-- What is appended starts as before. -/
theorem starts_append {s : Str} (h : Starts s) (rest : Str) : Starts (s ++ rest) := by
  obtain ⟨p, tail, rfl, hp⟩ := h
  exact ⟨p, tail ++ rest, rfl, hp⟩

/-- A word that is there is read. -/
theorem readWord_append (word : List Char) (rest : Str) : readWord word (.ofChars word ++ rest) = some rest := by
  rw [readWord, if_pos (List.prefix_append _ rest), ← Str.length_ofChars, List.drop_left]

/-- A number starts with a digit, or with a minus sign before one. -/
theorem head_chars {t : NumberText} (h : t.Valid) : ∃ c rest, t.chars = c :: rest
    ∧ (c.isDigit ∨ (c = '-' ∧ ∃ d ds, rest = d :: ds ∧ d.isDigit)) := by
  obtain ⟨d, ds, hd⟩ := List.exists_cons_of_ne_nil h.whole_ne
  have hdigit := h.whole d (hd ▸ List.mem_cons_self)
  rw [NumberText.chars, hd]
  cases t.negative with
  | true => exact ⟨_, _, rfl, .inr ⟨rfl, _, _, rfl, hdigit⟩⟩
  | false => exact ⟨_, _, rfl, .inl hdigit⟩

/-- What a number starts with starts nothing else. -/
theorem number_sign {c : Char} {rest : List Char}
    (h : c.isDigit ∨ (c = '-' ∧ ∃ d ds, rest = d :: ds ∧ d.isDigit))
    {x : Char} (hx : x.isDigit = false) (hx' : x ≠ '-') : CodePoint.char c ≠ .char x := by
  intro heq
  obtain rfl := CodePoint.char.inj heq
  rcases h with hdigit | ⟨hminus, -⟩
  · rw [hx] at hdigit
    cases hdigit
  · exact hx' hminus

/-- A number starts with no blank. -/
theorem isSpace_number {c : Char} {rest : List Char}
    (h : c.isDigit ∨ (c = '-' ∧ ∃ d ds, rest = d :: ds ∧ d.isDigit)) : isSpace (.char c) = false := by
  refine decide_eq_false ?_
  simp only [not_or]
  exact ⟨number_sign h rfl (by decide), number_sign h rfl (by decide), number_sign h rfl (by decide),
    number_sign h rfl (by decide)⟩

/-- A number is read as a value once its first character shows it to be one. -/
theorem parseValue_number {t : NumberText} (h : t.Valid) {rest : Str} (hrest : EndsNumberAt rest) (n : ℕ) :
    parseValue (n + 1) (.ofChars t.chars ++ rest) = (numberValue t).map (·, rest) := by
  have hread := readNumber_chars h hrest
  obtain ⟨c, tail, hc, hsign⟩ := head_chars h
  have hinfinity : ¬(CodePoint.char c = .char '-' ∧ (Str.ofChars tail ++ rest).head? = some (.char 'I')) := by
    rintro ⟨hminus, hhead⟩
    rcases hsign with hdigit | ⟨-, d, ds, rfl, hdigit⟩
    · rw [CodePoint.char.inj hminus] at hdigit
      cases hdigit
    · obtain rfl := CodePoint.char.inj (Option.some.inj hhead)
      cases hdigit
  rw [hc, Str.ofChars_cons, List.cons_append] at hread ⊢
  rw [parseValue, if_neg (number_sign hsign rfl (by decide)), if_neg (number_sign hsign rfl (by decide)),
    if_neg (number_sign hsign rfl (by decide)), if_neg (number_sign hsign rfl (by decide)),
    if_neg (number_sign hsign rfl (by decide)), if_neg (number_sign hsign rfl (by decide)),
    if_neg (number_sign hsign rfl (by decide)), if_neg (number_sign hsign rfl (by decide)), if_neg hinfinity,
      hread]

/-- No value starts with white space or with a closing bracket. -/
theorem head_print (sep : Separators) {v : Value} (h : Meets printable v) :
    ∃ p rest, print sep v = p :: rest ∧ isSpace p = false ∧ p ≠ .char ']' ∧ p ≠ .char '}' := by
  have hnumber {t : NumberText} (ht : t.Valid) : ∃ p rest, Str.ofChars t.chars = p :: rest ∧ isSpace p = false
      ∧ p ≠ .char ']' ∧ p ≠ .char '}' := by
    obtain ⟨c, rest, hc, hsign⟩ := head_chars ht
    exact ⟨.char c, Str.ofChars rest, by rw [hc, Str.ofChars_cons], isSpace_number hsign,
      number_sign hsign rfl (by decide), number_sign hsign rfl (by decide)⟩
  cases v with
  | null => exact ⟨_, _, by rw [print]; rfl, rfl, by decide, by decide⟩
  | bool b => cases b <;> exact ⟨_, _, by rw [print]; rfl, rfl, by decide, by decide⟩
  | int i =>
    rw [print]
    exact hnumber (valid_intText i)
  | float f =>
    obtain ⟨t, ht⟩ := Option.isSome_iff_exists.mp h
    rw [print, printFloat_of_text ht]
    exact hnumber (PyFloat.ofText_text ht).1
  | str s => exact ⟨_, _, by rw [print, quote], rfl, by decide, by decide⟩
  | arr xs =>
    cases xs with
    | nil => exact ⟨_, _, by rw [print]; rfl, rfl, by decide, by decide⟩
    | cons x xs => exact ⟨_, _, by rw [print], rfl, by decide, by decide⟩
  | obj kvs =>
    rcases kvs with _ | ⟨⟨k, v⟩, kvs⟩
    · exact ⟨_, _, by rw [print]; rfl, rfl, by decide, by decide⟩
    · exact ⟨_, _, by rw [print], rfl, by decide, by decide⟩

/-- A printed value starts with one of the signs. -/
theorem starts_print (sep : Separators) {v : Value} (h : Meets printable v) : Starts (print sep v) := by
  obtain ⟨p, rest, hprint, hp, -⟩ := head_print sep h
  exact ⟨p, rest, hprint, hp⟩

/-- So does a quoted text. -/
theorem starts_quote (s : Str) : Starts (quote s) := ⟨_, _, rfl, rfl⟩

/-- The first item, and the others. -/
theorem printItems_cons (v : Value) (vs : List Value) :
    printItems compact (v :: vs) = .char ',' :: (print compact v ++ printItems compact vs) := by
  rw [printItems]
  rfl

/-- The first field, and the others. -/
theorem printFields_cons (k : Str) (v : Value) (kvs : List (Str × Value)) : printFields compact ((k, v) :: kvs)
    = .char ',' :: (quote k ++ .char ':' :: (print compact v ++ printFields compact kvs)) := by
  rw [printFields]
  rfl

/-- An object with its first field. -/
theorem print_obj_cons (k : Str) (v : Value) (kvs : List (Str × Value)) : print compact (.obj ((k, v) :: kvs))
    = .char '{' :: (quote k ++ .char ':' :: (print compact v ++ printFields compact kvs)) := by
  rw [print]
  rfl

/-- Printed items start with one of the signs. -/
theorem starts_printItems (vs : List Value) : Starts (printItems compact vs) := by
  cases vs with
  | nil => exact ⟨_, _, by rw [printItems], rfl⟩
  | cons v vs => exact ⟨_, _, printItems_cons v vs, rfl⟩

/-- So do printed fields. -/
theorem starts_printFields (kvs : List (Str × Value)) : Starts (printFields compact kvs) := by
  rcases kvs with _ | ⟨⟨k, v⟩, kvs⟩
  · exact ⟨_, _, by rw [printFields], rfl⟩
  · exact ⟨_, _, printFields_cons k v kvs, rfl⟩

/-- What follows an item does not belong to a number. -/
theorem endsNumber_printItems (vs : List Value) (rest : Str) : EndsNumberAt (printItems compact vs ++ rest) := by
  cases vs with
  | nil =>
    rw [printItems]
    rintro c ⟨⟩
    decide
  | cons v vs =>
    rw [printItems_cons]
    rintro c ⟨⟩
    decide

/-- No number goes on in printed fields. -/
theorem endsNumber_printFields (kvs : List (Str × Value)) (rest : Str) :
    EndsNumberAt (printFields compact kvs ++ rest) := by
  rcases kvs with _ | ⟨⟨k, v⟩, kvs⟩
  · rw [printFields]
    rintro c ⟨⟩
    decide
  · rw [printFields_cons]
    rintro c ⟨⟩
    decide

mutual

/-- **A printed value is read back**, when nothing that could be a part of a number follows it. -/
theorem parseValue_print : ∀ (v : Value) (n : ℕ) (rest : Str), Meets printable v → EndsNumberAt rest →
    (print compact v).length ≤ n → parseValue n (print compact v ++ rest) = some (lastWins v, rest)
  | v, 0, rest, hv, _, hn => by
    -- no value is printed as the empty text, so that the fuel is not used up
    obtain ⟨p, tail, h, -⟩ := head_print compact hv
    rw [h] at hn
    exact absurd hn (by simp)
  | .null, n + 1, rest, _, _, _ => by
    rw [print, lastWins, show Str.ofChars ['n', 'u', 'l', 'l'] ++ rest
      = .char 'n' :: (.ofChars ['u', 'l', 'l'] ++ rest) from rfl, parseValue, readWord_append]
    rfl
  | .bool true, n + 1, rest, _, _, _ => by
    rw [print, lastWins, show strBool true ++ rest = .char 't' :: (.ofChars ['r', 'u', 'e'] ++ rest) from rfl,
      parseValue, readWord_append]
    rfl
  | .bool false, n + 1, rest, _, _, _ => by
    rw [print, lastWins,
      show strBool false ++ rest = .char 'f' :: (.ofChars ['a', 'l', 's', 'e'] ++ rest) from rfl, parseValue,
      readWord_append]
    rfl
  | .int i, n + 1, rest, hv, hrest, _ => by
    rw [print, lastWins, parseValue_number (valid_intText i) hrest, numberValue_intText hv]
    rfl
  | .float f, n + 1, rest, hv, hrest, _ => by
    obtain ⟨t, ht⟩ := Option.isSome_iff_exists.mp hv
    rw [print, lastWins, printFloat_of_text ht, parseValue_number (PyFloat.ofText_text ht).1 hrest,
      numberValue_float ht]
    rfl
  | .str s, n + 1, rest, _, _, _ => by
    have hread := readString_quote s rest
    rw [print, lastWins]
    rw [quote, List.cons_append] at hread ⊢
    rw [parseValue, if_pos rfl, hread]
    rfl
  | .arr [], n + 1, rest, _, _, _ => by
    rw [print, lastWins]
    rfl
  | .arr (x :: xs), n + 1, rest, hv, hrest, hn => by
    rw [Meets, ItemsMeet] at hv
    rw [print, List.length_cons, List.length_append] at hn
    have hx := parseValue_print x n (printItems compact xs ++ rest) hv.1 (endsNumber_printItems xs rest)
        (by omega)
    have hxs := parseItems_print xs n rest hv.2 hrest (by omega)
    have hstart := skipSpace_starts (starts_append (starts_print compact hv.1) (printItems compact xs ++ rest))
    have hitems := skipSpace_starts (starts_append (starts_printItems xs) rest)
    -- the reader looks for an empty array first
    have hopen : (print compact x ++ (printItems compact xs ++ rest)).head? ≠ some (.char ']') := by
      obtain ⟨p, tail, hprint, -, hp, -⟩ := head_print compact hv.1
      rw [hprint]
      exact fun h => hp (Option.some.inj h)
    rw [print, lastWins, lastWinsItems, List.cons_append, List.append_assoc, parseValue, if_neg (by decide),
      if_pos rfl, hstart, if_neg hopen, hx]
    simp only [Option.bind_eq_bind, Option.bind_some, hitems, hxs]
  | .obj [], n + 1, rest, _, _, _ => by
    rw [print, lastWins]
    rfl
  | .obj ((k, v) :: kvs), n + 1, rest, hv, hrest, hn => by
    rw [Meets, FieldsMeet] at hv
    rw [print_obj_cons, List.length_cons, List.length_append, List.length_cons, List.length_append] at hn
    have hfield := parseField_print k v n (printFields compact kvs ++ rest) hv.1.1.2
      (endsNumber_printFields kvs rest) (by omega)
    have hkvs := parseFields_print kvs n rest hv.1.2 hrest (by omega)
    have hstart := skipSpace_starts (starts_append (starts_quote k)
      (.char ':' :: (print compact v ++ (printFields compact kvs ++ rest))))
    have hfields := skipSpace_starts (starts_append (starts_printFields kvs) rest)
    -- and for an empty object
    have hopen : (quote k ++ .char ':' :: (print compact v ++ (printFields compact kvs ++ rest))).head?
        ≠ some (.char '}') := fun h => absurd (Option.some.inj h) (by decide)
    rw [print_obj_cons, lastWins, lastWinsFields, List.cons_append, List.append_assoc, List.cons_append,
      List.append_assoc, parseValue, if_neg (by decide), if_neg (by decide), if_pos rfl, hstart, if_neg hopen,
        hfield]
    simp only [Option.bind_eq_bind, Option.bind_some, hfields, hkvs]

/-- Items that were printed are read back. -/
theorem parseItems_print : ∀ (vs : List Value) (n : ℕ) (rest : Str), ItemsMeet printable vs →
    EndsNumberAt rest → (printItems compact vs).length ≤ n →
    parseItems n (printItems compact vs ++ rest) = some (lastWinsItems vs, rest)
  | vs, 0, _, _, _, hn => by
    obtain ⟨p, tail, h, -⟩ := starts_printItems vs
    rw [h] at hn
    exact absurd hn (by simp)
  | [], n + 1, rest, _, _, _ => by
    rw [printItems, lastWinsItems]
    rfl
  | x :: xs, n + 1, rest, hv, hrest, hn => by
    rw [ItemsMeet] at hv
    rw [printItems_cons, List.length_cons, List.length_append] at hn
    have hx := parseValue_print x n (printItems compact xs ++ rest) hv.1 (endsNumber_printItems xs rest)
        (by omega)
    have hxs := parseItems_print xs n rest hv.2 hrest (by omega)
    have hstart := skipSpace_starts (starts_append (starts_print compact hv.1) (printItems compact xs ++ rest))
    have hitems := skipSpace_starts (starts_append (starts_printItems xs) rest)
    rw [printItems_cons, lastWinsItems, List.cons_append, List.append_assoc, parseItems, hstart, hx]
    simp only [Option.bind_eq_bind, Option.bind_some, hitems, hxs]

/-- So is a field. -/
theorem parseField_print : ∀ (k : Str) (v : Value) (n : ℕ) (rest : Str), Meets printable v → EndsNumberAt rest →
    (quote k).length + ((print compact v).length + 1) ≤ n →
    parseField n (quote k ++ .char ':' :: (print compact v ++ rest)) = some ((k, lastWins v), rest)
  | k, v, 0, rest, _, _, hn => absurd hn (by omega)
  | k, v, n + 1, rest, hv, hrest, hn => by
    have hvalue := parseValue_print v n rest hv hrest (by omega)
    have hcolon : skipSpace (.char ':' :: (print compact v ++ rest)) = .ofChars [':']
        ++ (print compact v ++ rest) :=
      skipSpace_starts ⟨_, _, rfl, rfl⟩
    have hstart := skipSpace_starts (starts_append (starts_print compact hv) rest)
    rw [parseField, readString_quote]
    simp only [Option.bind_eq_bind, Option.bind_some, hcolon, readWord_append, hstart, hvalue]

/-- So are fields. -/
theorem parseFields_print : ∀ (kvs : List (Str × Value)) (n : ℕ) (rest : Str), FieldsMeet printable kvs →
    EndsNumberAt rest → (printFields compact kvs).length ≤ n →
    parseFields n (printFields compact kvs ++ rest) = some (lastWinsFields kvs, rest)
  | kvs, 0, _, _, _, hn => by
    obtain ⟨p, tail, h, -⟩ := starts_printFields kvs
    rw [h] at hn
    exact absurd hn (by simp)
  | [], n + 1, rest, _, _, _ => by
    rw [printFields, lastWinsFields]
    rfl
  | (k, v) :: kvs, n + 1, rest, hv, hrest, hn => by
    rw [FieldsMeet] at hv
    rw [printFields_cons, List.length_cons, List.length_append, List.length_cons, List.length_append] at hn
    have hfield := parseField_print k v n (printFields compact kvs ++ rest) hv.1.2
      (endsNumber_printFields kvs rest) (by omega)
    have hkvs := parseFields_print kvs n rest hv.2 hrest (by omega)
    have hstart := skipSpace_starts (starts_append (starts_quote k)
      (.char ':' :: (print compact v ++ (printFields compact kvs ++ rest))))
    have hfields := skipSpace_starts (starts_append (starts_printFields kvs) rest)
    rw [printFields_cons, lastWinsFields, List.cons_append, List.append_assoc, List.cons_append,
      List.append_assoc, parseFields, hstart, hfield]
    simp only [Option.bind_eq_bind, Option.bind_some, hfields, hkvs]

end

/-- **What was written is read as JSON makes it.** -/
theorem loadsText_print {v : Value} (h : Meets printable v) :
    loadsText (print compact v) = .ok (lastWins v) := by
  have hread := parseValue_print v ((print compact v).length + 1) [] h (by rintro c ⟨⟩) (Nat.le_succ _)
  rw [List.append_nil] at hread
  rw [loadsText, skipSpace_starts (starts_print compact h), hread]
  rfl

/-! ## What reading leaves -/

/-- What follows blanks is no longer. -/
theorem length_skipSpace_le (s : Str) : (skipSpace s).length ≤ s.length := (List.dropWhile_sublist _).length_le

/-- What follows a word is no longer. -/
theorem length_readWord_le {word : List Char} {s rest : Str} (h : readWord word s = some rest) :
    rest.length ≤ s.length := by
  unfold readWord at h
  split at h
  · obtain rfl := Option.some.inj h
    rw [List.length_drop]
    exact Nat.sub_le _ _
  · cases h

/-- What follows four digits is shorter. -/
theorem length_readHex4_lt {s rest : Str} {n : ℕ}
    (h : readHex4 s = some (n, rest)) : rest.length < s.length := by
  obtain ⟨r, hread, heq⟩ := Option.map_eq_some_iff.mp h
  obtain ⟨-, rfl⟩ := Prod.mk.inj heq
  have hpos : 0 < s.length := by
    rw [List.length_pos_iff]
    rintro rfl
    cases hread
  rw [List.length_drop]
  omega

/-- What follows an escape is shorter. -/
theorem length_readUnicode_lt {s rest : Str} {p : CodePoint} (h : readUnicode s = some (p, rest)) :
    rest.length < s.length := by
  have hmap {o : Option CodePoint} {t : Str} (h : o.map (·, t) = some (p, rest)) : rest = t := by
    obtain ⟨q, -, heq⟩ := Option.map_eq_some_iff.mp h
    exact (Prod.mk.inj heq).2.symm
  unfold readUnicode at h
  obtain ⟨⟨n, tail⟩, hread, h⟩ := Option.bind_eq_some_iff.mp h
  have hlt := length_readHex4_lt hread
  dsimp only at h
  split at h
  · rename_i t
    split at h
    · rename_i low t' hlow
      split at h
      · rw [hmap h]
        have hlt' := length_readHex4_lt hlow
        simp only [List.length_cons] at hlt
        omega
      · rw [hmap h]
        exact hlt
    · rw [hmap h]
      exact hlt
  · rw [hmap h]
    exact hlt

/-- What follows a code point is shorter. -/
theorem length_readPoint_lt {s rest : Str} {p : CodePoint} (h : readPoint s = some (p, rest)) :
    rest.length < s.length := by
  cases s with
  | nil => cases h
  | cons q s =>
    rw [List.length_cons, Nat.lt_succ_iff]
    rw [readPoint] at h
    split at h
    · unfold readEscape at h
      split at h
      iterate 8
        obtain ⟨-, rfl⟩ := Prod.mk.inj (Option.some.inj h)
        exact Nat.le_succ _
      · exact (length_readUnicode_lt h).le.trans (Nat.le_succ _)
      · cases h
    · split at h
      · cases h
      · obtain ⟨-, rfl⟩ := Prod.mk.inj (Option.some.inj h)
        exact le_rfl

/-- What follows a text is shorter. -/
theorem length_readBody_lt {fuel : ℕ} {s t rest : Str} (h : readBody fuel s = some (t, rest)) :
    rest.length < s.length := by
  induction fuel generalizing s t with
  | zero => cases h
  | succ fuel ih =>
    rw [readBody] at h
    split at h
    · rename_i hhead
      obtain ⟨tail, rfl⟩ := List.head?_eq_some_iff.mp hhead
      obtain ⟨-, rfl⟩ := Prod.mk.inj (Option.some.inj h)
      exact Nat.lt_succ_self _
    · obtain ⟨⟨p, tail⟩, hread, h⟩ := Option.bind_eq_some_iff.mp h
      obtain ⟨⟨body, tail'⟩, hbody, h⟩ := Option.bind_eq_some_iff.mp h
      obtain ⟨-, rfl⟩ := Prod.mk.inj (Option.some.inj h)
      exact (ih hbody).trans (length_readPoint_lt hread)

/-- What follows a quoted text is shorter. -/
theorem length_readString_lt {s t rest : Str} (h : readString s = some (t, rest)) : rest.length < s.length := by
  unfold readString at h
  split at h
  · exact (length_readBody_lt h).trans (Nat.lt_succ_self _)
  · cases h

/-- A number that is read meets the checks, and what follows it is shorter. -/
theorem readNumber_spec {s rest : Str} {v : Value} (h : readNumber s = some (v, rest)) :
    rest.length < s.length ∧ Meets parsed v := by
  obtain ⟨⟨t, chars⟩, hread, h⟩ := Option.bind_eq_some_iff.mp h
  obtain ⟨w, hvalue, h⟩ := Option.bind_eq_some_iff.mp h
  obtain ⟨rfl, rfl⟩ := Prod.mk.inj (Option.some.inj h)
  obtain ⟨hwhole, hdigits, hlt⟩ := readNumberText_spec hread
  constructor
  · have hsplit := congrArg List.length (Str.drop_leading s)
    simp only [List.length_append, Str.length_ofChars] at hsplit ⊢
    omega
  · unfold numberValue at hvalue
    split at hvalue
    · split at hvalue
      · rename_i hlength
        obtain rfl := Option.some.inj hvalue
        rw [Meets]
        refine isShort_of_digits hdigits hwhole hlength ?_
        split
        · rw [Int.natAbs_neg, Int.natAbs_natCast]
        · exact Int.natAbs_natCast _
      · cases hvalue
    · obtain rfl := Option.some.inj hvalue
      rw [Meets]
      trivial

/-- What each step of the reader leaves is shorter, and what it read has short integers and distinct keys. -/
structure Reads (n : ℕ) : Prop where
  value : ∀ {s v rest}, parseValue n s = some (v, rest) → rest.length < s.length ∧ Meets parsed v
  items : ∀ {s vs rest}, parseItems n s = some (vs, rest) → rest.length < s.length ∧ ItemsMeet parsed vs
  field : ∀ {s kv rest}, parseField n s = some (kv, rest) → rest.length < s.length ∧ Meets parsed kv.2
  fields : ∀ {s kvs rest}, parseFields n s = some (kvs, rest) → rest.length < s.length ∧ FieldsMeet parsed kvs

/-- A word is read as its value. -/
theorem word_spec {word : List Char} {s rest : Str} {v w : Value}
    (h : (readWord word s).map (w, ·) = some (v, rest)) : rest.length ≤ s.length ∧ v = w := by
  obtain ⟨t, hread, heq⟩ := Option.map_eq_some_iff.mp h
  obtain ⟨rfl, rfl⟩ := Prod.mk.inj heq
  exact ⟨length_readWord_le hread, rfl⟩

/-- What follows a sign and blanks is no longer. -/
theorem length_tail_skipSpace_le (s : Str) : (skipSpace s).tail.length ≤ s.length := by
  rw [List.length_tail]
  exact (Nat.sub_le _ _).trans (length_skipSpace_le s)

namespace Reads

variable {n : ℕ} {s rest : Str}

/-- So it is for a value with one more step of fuel. -/
theorem value_succ (h : Reads n) {v : Value} (hread : parseValue (n + 1) s = some (v, rest)) :
    rest.length < s.length ∧ Meets parsed v := by
  cases s with
  | nil => cases hread
  | cons p s =>
    rw [List.length_cons, Nat.lt_succ_iff]
    have hskip := length_skipSpace_le s
    have hword {word : List Char} {w : Value} (hw : (readWord word s).map (w, ·) = some (v, rest))
        (hmeets : Meets parsed w) : rest.length ≤ s.length ∧ Meets parsed v := by
      obtain ⟨hlength, rfl⟩ := word_spec hw
      exact ⟨hlength, hmeets⟩
    rw [parseValue] at hread
    split at hread
    · obtain ⟨⟨t, tail⟩, hstring, heq⟩ := Option.map_eq_some_iff.mp hread
      obtain ⟨rfl, rfl⟩ := Prod.mk.inj heq
      exact ⟨Nat.lt_succ_iff.mp (length_readString_lt hstring), trivial⟩
    split at hread
    · -- a list
      split at hread
      · obtain ⟨rfl, rfl⟩ := Prod.mk.inj (Option.some.inj hread)
        exact ⟨length_tail_skipSpace_le s, trivial⟩
      · obtain ⟨⟨x, tail⟩, hx, hread⟩ := Option.bind_eq_some_iff.mp hread
        obtain ⟨⟨xs, tail'⟩, hxs, hread⟩ := Option.bind_eq_some_iff.mp hread
        obtain ⟨rfl, rfl⟩ := Prod.mk.inj (Option.some.inj hread)
        obtain ⟨hlength, hmeets⟩ := h.value hx
        obtain ⟨hlength', hmeets'⟩ := h.items hxs
        have hskip' := length_skipSpace_le tail
        exact ⟨by omega, hmeets, hmeets'⟩
    split at hread
    · -- an object
      split at hread
      · obtain ⟨rfl, rfl⟩ := Prod.mk.inj (Option.some.inj hread)
        exact ⟨length_tail_skipSpace_le s, trivial, List.nodup_nil⟩
      · obtain ⟨⟨kv, tail⟩, hkv, hread⟩ := Option.bind_eq_some_iff.mp hread
        obtain ⟨⟨kvs, tail'⟩, hkvs, hread⟩ := Option.bind_eq_some_iff.mp hread
        obtain ⟨rfl, rfl⟩ := Prod.mk.inj (Option.some.inj hread)
        obtain ⟨hlength, hmeets⟩ := h.field hkv
        obtain ⟨hlength', hmeets'⟩ := h.fields hkvs
        have hskip' := length_skipSpace_le tail
        refine ⟨by omega, fieldsMeet_iff.mpr fun e he => ?_, nodup_dictOf _⟩
        rcases List.mem_cons.mp (mem_of_mem_dictOf he) with rfl | he
        · exact ⟨trivial, hmeets⟩
        · exact fieldsMeet_iff.mp hmeets' e he
    split at hread
    · exact hword hread trivial
    split at hread
    · exact hword hread trivial
    split at hread
    · exact hword hread trivial
    split at hread
    · exact hword hread trivial
    split at hread
    · exact hword hread trivial
    split at hread
    · exact hword hread trivial
    · obtain ⟨hlength, hmeets⟩ := readNumber_spec hread
      exact ⟨Nat.lt_succ_iff.mp hlength, hmeets⟩

/-- For items. -/
theorem items_succ (h : Reads n) {vs : List Value} (hread : parseItems (n + 1) s = some (vs, rest)) :
    rest.length < s.length ∧ ItemsMeet parsed vs := by
  unfold parseItems at hread
  split at hread
  · obtain ⟨rfl, rfl⟩ := Prod.mk.inj (Option.some.inj hread)
    exact ⟨Nat.lt_succ_self _, trivial⟩
  · rename_i s
    obtain ⟨⟨x, tail⟩, hx, hread⟩ := Option.bind_eq_some_iff.mp hread
    obtain ⟨⟨xs, tail'⟩, hxs, hread⟩ := Option.bind_eq_some_iff.mp hread
    obtain ⟨rfl, rfl⟩ := Prod.mk.inj (Option.some.inj hread)
    obtain ⟨hlength, hmeets⟩ := h.value hx
    obtain ⟨hlength', hmeets'⟩ := h.items hxs
    have hskip := length_skipSpace_le s
    have hskip' := length_skipSpace_le tail
    rw [List.length_cons]
    exact ⟨by omega, hmeets, hmeets'⟩
  · cases hread

/-- For a field. -/
theorem field_succ (h : Reads n) {kv : Str × Value} (hread : parseField (n + 1) s = some (kv, rest)) :
    rest.length < s.length ∧ Meets parsed kv.2 := by
  rw [parseField] at hread
  obtain ⟨⟨k, tail⟩, hk, hread⟩ := Option.bind_eq_some_iff.mp hread
  obtain ⟨tail', hcolon, hread⟩ := Option.bind_eq_some_iff.mp hread
  obtain ⟨⟨v, tail''⟩, hv, hread⟩ := Option.bind_eq_some_iff.mp hread
  obtain ⟨rfl, rfl⟩ := Prod.mk.inj (Option.some.inj hread)
  obtain ⟨hlength, hmeets⟩ := h.value hv
  have hstring := length_readString_lt hk
  have hword := length_readWord_le hcolon
  have hskip := length_skipSpace_le tail
  have hskip' := length_skipSpace_le tail'
  exact ⟨by omega, hmeets⟩

/-- For fields. -/
theorem fields_succ (h : Reads n) {kvs : List (Str × Value)} (hread : parseFields (n + 1) s = some (kvs, rest)) :
    rest.length < s.length ∧ FieldsMeet parsed kvs := by
  unfold parseFields at hread
  split at hread
  · obtain ⟨rfl, rfl⟩ := Prod.mk.inj (Option.some.inj hread)
    exact ⟨Nat.lt_succ_self _, trivial⟩
  · rename_i s
    obtain ⟨⟨kv, tail⟩, hkv, hread⟩ := Option.bind_eq_some_iff.mp hread
    obtain ⟨⟨kvs, tail'⟩, hkvs, hread⟩ := Option.bind_eq_some_iff.mp hread
    obtain ⟨rfl, rfl⟩ := Prod.mk.inj (Option.some.inj hread)
    obtain ⟨hlength, hmeets⟩ := h.field hkv
    obtain ⟨hlength', hmeets'⟩ := h.fields hkvs
    have hskip := length_skipSpace_le s
    have hskip' := length_skipSpace_le tail
    rw [List.length_cons]
    exact ⟨by omega, ⟨trivial, hmeets⟩, hmeets'⟩
  · cases hread

end Reads

/-- **Every step of the reader leaves a shorter text.** -/
theorem reads (n : ℕ) : Reads n := by
  induction n with
  | zero => exact ⟨by rintro _ _ _ ⟨⟩, by rintro _ _ _ ⟨⟩, by rintro _ _ _ ⟨⟩, by rintro _ _ _ ⟨⟩⟩
  | succ n ih => exact ⟨ih.value_succ, ih.items_succ, ih.field_succ, ih.fields_succ⟩

/-- Fuel beyond the length of the text changes nothing. -/
structure Steady (n : ℕ) : Prop where
  value : ∀ s : Str, s.length < n → parseValue (n + 1) s = parseValue n s
  items : ∀ s : Str, s.length < n → parseItems (n + 1) s = parseItems n s
  field : ∀ s : Str, s.length < n → parseField (n + 1) s = parseField n s
  fields : ∀ s : Str, s.length < n → parseFields (n + 1) s = parseFields n s

namespace Steady

variable {n : ℕ} {s : Str}

/-- One value and the further items. -/
theorem bind_items {α : Type} (h : Steady n) (hs : s.length < n)
    (f : Value × Str → List Value × Str → Option α) :
    (parseValue (n + 1) s).bind (fun x => (parseItems (n + 1) (skipSpace x.2)).bind (f x))
      = (parseValue n s).bind fun x => (parseItems n (skipSpace x.2)).bind (f x) := by
  rw [h.value s hs]
  refine Option.bind_congr fun x hx => ?_
  have hlength := ((reads n).value hx).1
  have hskip := length_skipSpace_le x.2
  rw [h.items _ (by omega)]

/-- One field and the further ones. -/
theorem bind_fields {α : Type} (h : Steady n) (hs : s.length < n)
    (f : (Str × Value) × Str → List (Str × Value) × Str → Option α) :
    (parseField (n + 1) s).bind (fun x => (parseFields (n + 1) (skipSpace x.2)).bind (f x))
      = (parseField n s).bind fun x => (parseFields n (skipSpace x.2)).bind (f x) := by
  rw [h.field s hs]
  refine Option.bind_congr fun x hx => ?_
  have hlength := ((reads n).field hx).1
  have hskip := length_skipSpace_le x.2
  rw [h.fields _ (by omega)]

/-- One more step of fuel reads the same value. -/
theorem value_succ (h : Steady n) (hs : s.length < n + 1) : parseValue (n + 2) s = parseValue (n + 1) s := by
  cases s with
  | nil => rfl
  | cons p s =>
    have hskip : (skipSpace s).length < n :=
      (length_skipSpace_le s).trans_lt (Nat.lt_of_succ_lt_succ hs)
    have harr := h.bind_items hskip fun x xs => some (Value.arr (x.1 :: xs.1), xs.2)
    have hobj := h.bind_fields hskip fun kv kvs => some (Value.obj (dictOf (kv.1 :: kvs.1)), kvs.2)
    rw [parseValue.eq_3 (n + 1), parseValue.eq_3 n]
    -- only the steps inside a list and inside an object have the fuel in them
    simp only [Option.bind_eq_bind]
    rw [harr, hobj]

/-- The same items. -/
theorem items_succ (h : Steady n) (hs : s.length < n + 1) : parseItems (n + 2) s = parseItems (n + 1) s := by
  unfold parseItems
  split
  · rfl
  · rename_i s
    exact h.bind_items ((length_skipSpace_le s).trans_lt (Nat.lt_of_succ_lt_succ hs))
      fun x xs => some (x.1 :: xs.1, xs.2)
  · rfl

/-- The same field. -/
theorem field_succ (h : Steady n) (hs : s.length < n + 1) : parseField (n + 2) s = parseField (n + 1) s := by
  rw [parseField, parseField]
  refine Option.bind_congr fun x hx => Option.bind_congr fun tail hcolon => ?_
  have hstring := length_readString_lt hx
  have hword := length_readWord_le hcolon
  have hskip := length_skipSpace_le x.2
  have hskip' := length_skipSpace_le tail
  rw [h.value _ (by omega)]

/-- The same fields. -/
theorem fields_succ (h : Steady n) (hs : s.length < n + 1) : parseFields (n + 2) s = parseFields (n + 1) s := by
  unfold parseFields
  split
  · rfl
  · rename_i s
    exact h.bind_fields ((length_skipSpace_le s).trans_lt (Nat.lt_of_succ_lt_succ hs))
      fun kv kvs => some (kv.1 :: kvs.1, kvs.2)
  · rfl

end Steady

/-- **Fuel beyond the length of the text changes nothing.** -/
theorem steady (n : ℕ) : Steady n := by
  induction n with
  | zero =>
    exact ⟨fun s hs => absurd hs (Nat.not_lt_zero _), fun s hs => absurd hs (Nat.not_lt_zero _),
      fun s hs => absurd hs (Nat.not_lt_zero _), fun s hs => absurd hs (Nat.not_lt_zero _)⟩
  | succ n ih =>
      exact ⟨fun _ => ih.value_succ, fun _ => ih.items_succ, fun _ => ih.field_succ, fun _ => ih.fields_succ⟩

/-- **The reader reads on until it is done**: no fuel beyond the length of the text makes a difference. -/
theorem parseValue_fuel {n : ℕ} {s : Str} (h : s.length < n) : parseValue n s = parseValue (s.length + 1) s := by
  obtain ⟨k, rfl⟩ : ∃ k, n = s.length + 1 + k := ⟨n - (s.length + 1), by omega⟩
  induction k with
  | zero => rfl
  | succ k ih =>
    have hlt : s.length < s.length + 1 + k := by omega
    exact ((steady _).value s hlt).trans (ih hlt)

/-- What is loaded meets the checks. -/
theorem meets_loadsText {s : Str} {v : Value} (h : loadsText s = .ok v) : Meets parsed v := by
  unfold loadsText at h
  split at h
  · rename_i w rest hread
    split at h
    · obtain rfl := Except.ok.inj h
      exact ((reads _).value hread).2
    · cases h
  · cases h

/-- **A value that was read** has short integers and distinct keys. -/
theorem meets_loads {raw : Raw} {v : Value} (h : loads raw = .ok v) : Meets parsed v := by
  cases raw with
  | text s => exact meets_loadsText h
  | bytes b =>
    rw [loads] at h
    cases hdecoded : decodeBytes b with
    | none =>
      rw [hdecoded] at h
      cases h
    | some s =>
      rw [hdecoded] at h
      exact meets_loadsText h

/-- Whatever is no JSON raises a `ValueError`. -/
theorem loads_error {raw : Raw} {raised : Raised} (h : loads raw = .error raised) : raised = .valueError := by
  have htext {s : Str} (h : loadsText s = .error raised) : raised = .valueError := by
    unfold loadsText at h
    split at h
    · split at h
      · cases h
      · exact (Except.error.inj h).symm
    · exact (Except.error.inj h).symm
  cases raw with
  | text s => exact htext h
  | bytes b =>
    rw [loads] at h
    cases hdecoded : decodeBytes b with
    | none =>
      rw [hdecoded] at h
      exact (Except.error.inj h).symm
    | some s =>
      rw [hdecoded] at h
      exact htext h

end Jasil.PyJson
