import Mathlib.Data.String.Basic
import Jasil.Relational.Sorting
import Jasil.Text.JsonString
import Jasil.Text.Numbers

/-! # JSON values
A JSON text without white space, in ASCII, and how it is read back.

* **`Json.print`**: the text of a value as it stands; **`dumps`** sorts the keys of every object.
* **`loads`**: reads any JSON text.
* **`loads_print`**: what was printed is read back, so a text stands for one value only. -/

namespace Jasil

open JsonString

/-- A JSON value. A finite float is the rational number it denotes; there is no negative zero. -/
inductive Json
  | null
  | bool (b : Bool)
  | int (i : ℤ)
  | float (q : ℚ)
  | str (s : String)
  | arr (xs : List Json)
  | obj (kvs : List (String × Json))

/-- A `dict` with string keys, in insertion order. -/
abbrev JsonObject := List (String × Json)

namespace Json

/-! ## Printing -/

mutual

/-- The text of a value. -/
def print : Json → List Char
  | .null => ['n', 'u', 'l', 'l']
  | .bool true => ['t', 'r', 'u', 'e']
  | .bool false => ['f', 'a', 'l', 's', 'e']
  | .int i => (intText i).chars
  | .float q => (floatText q).chars
  | .str s => quote s.toList
  | .arr [] => ['[', ']']
  | .arr (x :: xs) => '[' :: (print x ++ printItems xs)
  | .obj [] => ['{', '}']
  | .obj ((k, v) :: kvs) => '{' :: (quote k.toList ++ ':' :: (print v ++ printFields kvs))

/-- The further items of a list. -/
def printItems : List Json → List Char
  | [] => [']']
  | x :: xs => ',' :: (print x ++ printItems xs)

/-- The further fields of an object. -/
def printFields : List (String × Json) → List Char
  | [] => ['}']
  | (k, v) :: kvs => ',' :: (quote k.toList ++ ':' :: (print v ++ printFields kvs))

end

mutual

/-- The same value with the keys of every object in order. -/
def sortKeys : Json → Json
  | .arr xs => .arr (sortItems xs)
  | .obj kvs => .obj (sortBy Prod.fst (sortFields kvs))
  | v => v

/-- The items of a list, with their keys sorted. -/
def sortItems : List Json → List Json
  | [] => []
  | x :: xs => sortKeys x :: sortItems xs

/-- The fields of an object, with the keys of their values sorted. -/
def sortFields : List (String × Json) → List (String × Json)
  | [] => []
  | (k, v) :: kvs => (k, sortKeys v) :: sortFields kvs

end

/-- `json.dumps(value, sort_keys=True, separators=(",", ":"))`. -/
def dumps (v : Json) : List Char := (sortKeys v).print

/-! ## Reading -/

/-- White space between the tokens of a JSON text. -/
def skipSpace (cs : List Char) : List Char :=
  cs.dropWhile fun c => c = ' ' ∨ c = '\n' ∨ c = '\r' ∨ c = '\t'

/-- Read a fixed word off the front. -/
def readWord (word cs : List Char) : Option (List Char) :=
  if word <+: cs then some (cs.drop word.length) else none

/-- A `dict` of these pairs: a key given again keeps its place and takes the later value. -/
def dictOf (kvs : List (String × Json)) : List (String × Json) :=
  kvs.foldl (fun dict kv =>
    if dict.any (·.1 = kv.1) then dict.map fun old => if old.1 = kv.1 then kv else old
    else dict ++ [kv]) []

mutual

/-- Read a value off the front. -/
def parseValue : ℕ → List Char → Option (Json × List Char)
  | 0, _ => none
  | _ + 1, [] => none
  | fuel + 1, c :: cs =>
    if c = '"' then (readString (c :: cs)).map fun (s, cs) => (.str (String.ofList s), cs)
    else if c = '[' then
      if skipSpace cs |>.head? |>.any (· = ']') then some (.arr [], (skipSpace cs).tail)
      else do
        let (x, cs) ← parseValue fuel (skipSpace cs)
        let (xs, cs) ← parseItems fuel (skipSpace cs)
        some (.arr (x :: xs), cs)
    else if c = '{' then
      if skipSpace cs |>.head? |>.any (· = '}') then some (.obj [], (skipSpace cs).tail)
      else do
        let (kv, cs) ← parseField fuel (skipSpace cs)
        let (kvs, cs) ← parseFields fuel (skipSpace cs)
        some (.obj (dictOf (kv :: kvs)), cs)
    else if c = 'n' then (readWord ['u', 'l', 'l'] cs).map (.null, ·)
    else if c = 't' then (readWord ['r', 'u', 'e'] cs).map (.bool true, ·)
    else if c = 'f' then (readWord ['a', 'l', 's', 'e'] cs).map (.bool false, ·)
    else (readNumber (c :: cs)).map fun (n, cs) =>
      match n with
      | .int i => (.int i, cs)
      | .float q => (.float q, cs)

/-- Read the further items of a list. -/
def parseItems : ℕ → List Char → Option (List Json × List Char)
  | 0, _ => none
  | fuel + 1, cs =>
    match cs with
    | ']' :: cs => some ([], cs)
    | ',' :: cs => do
      let (x, cs) ← parseValue fuel (skipSpace cs)
      let (xs, cs) ← parseItems fuel (skipSpace cs)
      some (x :: xs, cs)
    | _ => none

/-- Read one field of an object. -/
def parseField : ℕ → List Char → Option ((String × Json) × List Char)
  | 0, _ => none
  | fuel + 1, cs => do
    let (k, cs) ← readString cs
    let cs ← readWord [':'] (skipSpace cs)
    let (v, cs) ← parseValue fuel (skipSpace cs)
    some ((String.ofList k, v), cs)

/-- Read the further fields of an object. -/
def parseFields : ℕ → List Char → Option (List (String × Json) × List Char)
  | 0, _ => none
  | fuel + 1, cs =>
    match cs with
    | '}' :: cs => some ([], cs)
    | ',' :: cs => do
      let (kv, cs) ← parseField fuel (skipSpace cs)
      let (kvs, cs) ← parseFields fuel (skipSpace cs)
      some (kv :: kvs, cs)
    | _ => none

end

/-- `json.loads`. The constants `NaN` and `Infinity`, which are no JSON, are not read. -/
def loads (cs : List Char) : Option Json := do
  let (v, cs) ← parseValue (2 * cs.length + 1) (skipSpace cs)
  if skipSpace cs = [] then some v else none

/-! ## What was printed is read back -/

mutual

/-- A value Python holds: floats are doubles, and the keys of an object are distinct. -/
def WellFormed : Json → Prop
  | .float q => IsDouble q
  | .arr xs => ItemsWellFormed xs
  | .obj kvs => FieldsWellFormed kvs ∧ (kvs.map Prod.fst).Nodup
  | _ => True

/-- Every item is well formed. -/
def ItemsWellFormed : List Json → Prop
  | [] => True
  | x :: xs => WellFormed x ∧ ItemsWellFormed xs

/-- Every field's value is well formed. -/
def FieldsWellFormed : List (String × Json) → Prop
  | [] => True
  | (_, v) :: kvs => WellFormed v ∧ FieldsWellFormed kvs

end

/-- The text starts with a character that is no white space. -/
def Starts (cs : List Char) : Prop :=
  ∃ c rest, cs = c :: rest ∧ ¬(c = ' ' ∨ c = '\n' ∨ c = '\r' ∨ c = '\t')

/-- No blank is skipped where something starts. -/
theorem skipSpace_of_starts {cs : List Char} (h : Starts cs) (rest : List Char) :
    skipSpace (cs ++ rest) = cs ++ rest := by
  obtain ⟨c, tail, rfl, hc⟩ := h
  rw [skipSpace, List.cons_append, List.dropWhile_cons_of_neg (by simpa using hc)]

/-- A number starts with a digit or a minus sign. -/
theorem head_chars {t : NumberText} (h : t.Valid) :
    ∃ c rest, t.chars = c :: rest ∧ (c.isDigit ∨ c = '-') := by
  obtain ⟨d, ds, hd⟩ := List.exists_cons_of_ne_nil h.whole_ne
  have hdigit := h.whole d (hd ▸ List.mem_cons_self)
  rw [NumberText.chars, hd]
  cases t.negative with
  | true => exact ⟨_, _, rfl, .inr rfl⟩
  | false => exact ⟨_, _, rfl, .inl hdigit⟩

/-- A digit or a minus sign starts neither white space nor any value but a number. -/
theorem number_sign {c : Char} (h : c.isDigit ∨ c = '-') :
    ¬(c = ' ' ∨ c = '\n' ∨ c = '\r' ∨ c = '\t') ∧ c ≠ '"' ∧ c ≠ '[' ∧ c ≠ '{' ∧ c ≠ 'n' ∧ c ≠ 't'
      ∧ c ≠ 'f' ∧ c ≠ ']' ∧ c ≠ '}' := by
  rcases h with h | rfl
  · have hne {d : Char} (hd : d.isDigit = false) : c ≠ d := by
      rintro rfl
      exact absurd (hd.symm.trans h) (by decide)
    simp only [not_or]
    exact ⟨⟨hne (by decide), hne (by decide), hne (by decide), hne (by decide)⟩, hne (by decide),
      hne (by decide), hne (by decide), hne (by decide), hne (by decide), hne (by decide),
      hne (by decide), hne (by decide)⟩
  · decide

/-- No value starts with white space or with a closing bracket. -/
theorem head_print (v : Json) :
    ∃ c rest, v.print = c :: rest ∧ ¬(c = ' ' ∨ c = '\n' ∨ c = '\r' ∨ c = '\t') ∧ c ≠ ']'
      ∧ c ≠ '}' := by
  cases v with
  | null => exact ⟨_, _, by rw [print], by decide, by decide, by decide⟩
  | bool b => cases b <;> exact ⟨_, _, by rw [print], by decide, by decide, by decide⟩
  | int i =>
    obtain ⟨c, rest, hc, hsign⟩ := head_chars (valid_intText i)
    have h := number_sign hsign
    exact ⟨c, rest, by rw [print, hc], h.1, h.2.2.2.2.2.2.2.1, h.2.2.2.2.2.2.2.2⟩
  | float q =>
    obtain ⟨c, rest, hc, hsign⟩ := head_chars (valid_floatText q)
    have h := number_sign hsign
    exact ⟨c, rest, by rw [print, hc], h.1, h.2.2.2.2.2.2.2.1, h.2.2.2.2.2.2.2.2⟩
  | str s => exact ⟨_, _, by rw [print, quote], by decide, by decide, by decide⟩
  | arr xs => cases xs <;> exact ⟨_, _, by rw [print], by decide, by decide, by decide⟩
  | obj kvs =>
    rcases kvs with _ | ⟨⟨k, v⟩, kvs⟩ <;>
      exact ⟨_, _, by rw [print], by decide, by decide, by decide⟩

/-- A printed value starts with one of the signs. -/
theorem starts_print (v : Json) : Starts v.print := by
  obtain ⟨c, rest, h, hc, -⟩ := head_print v
  exact ⟨c, rest, h, hc⟩

/-- So does a printed text. -/
theorem starts_quote (s : List Char) : Starts (quote s) := ⟨_, _, rfl, by decide⟩

/-- So do printed items. -/
theorem starts_printItems (xs : List Json) : Starts (printItems xs) := by
  cases xs <;> exact ⟨_, _, by rw [printItems], by decide⟩

/-- So do printed fields. -/
theorem starts_printFields (kvs : List (String × Json)) : Starts (printFields kvs) := by
  rcases kvs with _ | ⟨⟨k, v⟩, kvs⟩ <;> exact ⟨_, _, by rw [printFields], by decide⟩

/-- What follows an item does not belong to a number. -/
theorem endsNumber_printItems (xs : List Json) (rest : List Char) :
    EndsNumber (printItems xs ++ rest) := by
  cases xs <;> · rw [printItems]; rintro c ⟨⟩; decide

/-- No number goes on in printed fields. -/
theorem endsNumber_printFields (kvs : List (String × Json)) (rest : List Char) :
    EndsNumber (printFields kvs ++ rest) := by
  rcases kvs with _ | ⟨⟨k, v⟩, kvs⟩ <;> · rw [printFields]; rintro c ⟨⟩; decide

/-- Pairs with distinct keys are a `dict` as they stand. -/
theorem dictOf_of_nodup {kvs : List (String × Json)} (h : (kvs.map Prod.fst).Nodup) :
    dictOf kvs = kvs := by
  -- the pairs read so far are the dict itself
  have hfold (kvs dict : List (String × Json)) (h : ((dict ++ kvs).map Prod.fst).Nodup) :
      kvs.foldl (fun dict kv =>
        if dict.any (·.1 = kv.1) then dict.map fun old => if old.1 = kv.1 then kv else old
        else dict ++ [kv]) dict = dict ++ kvs := by
    induction kvs generalizing dict with
    | nil => exact (List.append_nil dict).symm
    | cons kv kvs ih =>
      have hnew : ¬dict.any (·.1 = kv.1) := by
        intro hany
        obtain ⟨old, hold, heq⟩ := List.any_eq_true.mp hany
        rw [List.map_append, List.nodup_append] at h
        exact h.2.2 _ (List.mem_map_of_mem hold) _ (List.mem_map_of_mem List.mem_cons_self)
          (by simpa using heq)
      rw [List.foldl_cons, if_neg hnew, ih _ (by simpa using h), List.append_assoc]
      rfl
  exact hfold kvs [] h

/-- A word that is there is read. -/
theorem readWord_append (word rest : List Char) : readWord word (word ++ rest) = some rest := by
  rw [readWord, if_pos (List.prefix_append word rest), List.drop_left]

/-- A number is read as a value once its first character shows it to be one. -/
theorem parseValue_number {t : NumberText} (h : t.Valid) {rest : List Char}
    (hrest : EndsNumber rest) (n : ℕ) :
    parseValue (n + 1) (t.chars ++ rest)
      = some (match t.number with | .int i => .int i | .float q => .float q, rest) := by
  obtain ⟨c, tail, hc, hsign⟩ := head_chars h
  obtain ⟨-, hquote, harr, hobj, hn, ht, hf, -⟩ := number_sign hsign
  have hread := readNumber_chars h hrest
  rw [hc, List.cons_append] at hread ⊢
  rw [parseValue, if_neg hquote, if_neg harr, if_neg hobj, if_neg hn, if_neg ht, if_neg hf, hread]
  cases t.number <;> rfl

/-- What a list or an object opens with is no closing bracket. -/
theorem not_closes_print (v : Json) (rest : List Char) :
    ¬((v.print ++ rest).head?.any (· = ']')) := by
  obtain ⟨c, tail, h, -, hc, -⟩ := head_print v
  rw [h]
  simpa using hc

/-- A text does not close an object. -/
theorem not_closes_quote (s rest : List Char) : ¬((quote s ++ rest).head?.any (· = '}')) := by
  rw [quote]
  simp

/-- What is appended starts as before. -/
theorem starts_append {cs : List Char} (h : Starts cs) (rest : List Char) :
    Starts (cs ++ rest) := by
  obtain ⟨c, tail, rfl, hc⟩ := h
  exact ⟨c, tail ++ rest, rfl, hc⟩

/-- No blank is skipped. -/
theorem skipSpace_starts {cs : List Char} (h : Starts cs) : skipSpace cs = cs := by
  simpa using skipSpace_of_starts h []

mutual

/-- **A printed value is read back**, when nothing that could be a part of a number follows it. -/
theorem parseValue_print : ∀ (v : Json) (n : ℕ) (rest : List Char), WellFormed v → EndsNumber rest →
    v.print.length ≤ n → parseValue n (v.print ++ rest) = some (v, rest)
  | v, 0, rest, _, _, hn => by
    obtain ⟨c, tail, h, -⟩ := head_print v
    rw [h] at hn
    exact absurd hn (by simp)
  | .null, n + 1, rest, _, _, _ => by
    rw [print, show ['n', 'u', 'l', 'l'] ++ rest = 'n' :: (['u', 'l', 'l'] ++ rest) from rfl,
      parseValue, readWord_append]
    rfl
  | .bool true, n + 1, rest, _, _, _ => by
    rw [print, show ['t', 'r', 'u', 'e'] ++ rest = 't' :: (['r', 'u', 'e'] ++ rest) from rfl,
      parseValue, readWord_append]
    rfl
  | .bool false, n + 1, rest, _, _, _ => by
    rw [print,
      show ['f', 'a', 'l', 's', 'e'] ++ rest = 'f' :: (['a', 'l', 's', 'e'] ++ rest) from rfl,
      parseValue, readWord_append]
    rfl
  | .int i, n + 1, rest, _, hrest, _ => by
    rw [print, parseValue_number (valid_intText i) hrest, number_intText]
  | .float q, n + 1, rest, hwf, hrest, _ => by
    rw [WellFormed] at hwf
    rw [print, parseValue_number (valid_floatText q) hrest, number_floatText hwf]
  | .str s, n + 1, rest, _, _, _ => by
    have hread := readString_quote s.toList rest
    rw [print]
    rw [quote, List.cons_append] at hread ⊢
    rw [parseValue, if_pos rfl, hread]
    simp
  | .arr [], n + 1, rest, _, _, _ => by
    rw [print]
    rfl
  | .arr (x :: xs), n + 1, rest, hwf, hrest, hn => by
    rw [WellFormed, ItemsWellFormed] at hwf
    rw [print, List.length_cons, List.length_append] at hn
    have hx := parseValue_print x n (printItems xs ++ rest) hwf.1
      (endsNumber_printItems xs rest) (by omega)
    have hxs := parseItems_print xs n rest hwf.2 hrest (by omega)
    have hstart := starts_append (starts_print x) (printItems xs ++ rest)
    have hitems := starts_append (starts_printItems xs) rest
    rw [print, List.cons_append, List.append_assoc, parseValue, if_neg (by decide), if_pos rfl,
      skipSpace_starts hstart, if_neg (not_closes_print x _), hx]
    simp only [Option.bind_eq_bind, Option.bind_some, skipSpace_starts hitems, hxs]
  | .obj [], n + 1, rest, _, _, _ => by
    rw [print]
    rfl
  | .obj ((k, v) :: kvs), n + 1, rest, hwf, hrest, hn => by
    rw [WellFormed, FieldsWellFormed] at hwf
    rw [print, List.length_cons, List.length_append, List.length_cons, List.length_append] at hn
    have hv := parseField_print k v n (printFields kvs ++ rest) hwf.1.1
      (endsNumber_printFields kvs rest) (by omega)
    have hkvs := parseFields_print kvs n rest hwf.1.2 hrest (by omega)
    have hstart := starts_append (starts_quote k.toList)
      (':' :: (v.print ++ (printFields kvs ++ rest)))
    have hfields := starts_append (starts_printFields kvs) rest
    rw [print, List.cons_append, List.append_assoc, List.cons_append, List.append_assoc, parseValue,
      if_neg (by decide), if_neg (by decide), if_pos rfl, skipSpace_starts hstart,
      if_neg (not_closes_quote k.toList _), hv]
    simp only [Option.bind_eq_bind, Option.bind_some, skipSpace_starts hfields, hkvs,
      dictOf_of_nodup hwf.2]

/-- Items that were printed are read back. -/
theorem parseItems_print : ∀ (xs : List Json) (n : ℕ) (rest : List Char), ItemsWellFormed xs →
    EndsNumber rest → (printItems xs).length ≤ n →
    parseItems n (printItems xs ++ rest) = some (xs, rest)
  | [], 0, _, _, _, hn | _ :: _, 0, _, _, _, hn => by
    rw [printItems] at hn
    exact absurd hn (by simp)
  | [], n + 1, rest, _, _, _ => by
    rw [printItems]
    rfl
  | x :: xs, n + 1, rest, hwf, hrest, hn => by
    rw [ItemsWellFormed] at hwf
    rw [printItems, List.length_cons, List.length_append] at hn
    have hx := parseValue_print x n (printItems xs ++ rest) hwf.1
      (endsNumber_printItems xs rest) (by omega)
    have hxs := parseItems_print xs n rest hwf.2 hrest (by omega)
    have hstart := starts_append (starts_print x) (printItems xs ++ rest)
    have hitems := starts_append (starts_printItems xs) rest
    rw [printItems, List.cons_append, List.append_assoc, parseItems, skipSpace_starts hstart, hx]
    simp only [Option.bind_eq_bind, Option.bind_some, skipSpace_starts hitems, hxs]

/-- So is a field. -/
theorem parseField_print : ∀ (k : String) (v : Json) (n : ℕ) (rest : List Char), WellFormed v →
    EndsNumber rest → (quote k.toList).length + (v.print.length + 1) ≤ n →
    parseField n (quote k.toList ++ ':' :: (v.print ++ rest)) = some ((k, v), rest)
  | k, v, 0, rest, _, _, hn => absurd hn (by omega)
  | k, v, n + 1, rest, hwf, hrest, hn => by
    have hv := parseValue_print v n rest hwf hrest (by omega)
    have hcolon : skipSpace (':' :: (v.print ++ rest)) = ':' :: (v.print ++ rest) :=
      skipSpace_starts ⟨_, _, rfl, by decide⟩
    have hstart := starts_append (starts_print v) rest
    rw [parseField, readString_quote]
    simp only [Option.bind_eq_bind, Option.bind_some, hcolon]
    rw [show ':' :: (v.print ++ rest) = [':'] ++ (v.print ++ rest) from rfl, readWord_append]
    simp only [Option.bind_some, skipSpace_starts hstart, hv, String.ofList_toList]

/-- So are fields. -/
theorem parseFields_print : ∀ (kvs : List (String × Json)) (n : ℕ) (rest : List Char),
    FieldsWellFormed kvs → EndsNumber rest → (printFields kvs).length ≤ n →
    parseFields n (printFields kvs ++ rest) = some (kvs, rest)
  | [], 0, _, _, _, hn | (_, _) :: _, 0, _, _, _, hn => by
    rw [printFields] at hn
    exact absurd hn (by simp)
  | [], n + 1, rest, _, _, _ => by
    rw [printFields]
    rfl
  | (k, v) :: kvs, n + 1, rest, hwf, hrest, hn => by
    rw [FieldsWellFormed] at hwf
    rw [printFields, List.length_cons, List.length_append, List.length_cons,
      List.length_append] at hn
    have hv := parseField_print k v n (printFields kvs ++ rest) hwf.1
      (endsNumber_printFields kvs rest) (by omega)
    have hkvs := parseFields_print kvs n rest hwf.2 hrest (by omega)
    have hstart := starts_append (starts_quote k.toList)
      (':' :: (v.print ++ (printFields kvs ++ rest)))
    have hfields := starts_append (starts_printFields kvs) rest
    rw [printFields, List.cons_append, List.append_assoc, List.cons_append, List.append_assoc,
      parseFields, skipSpace_starts hstart, hv]
    simp only [Option.bind_eq_bind, Option.bind_some, skipSpace_starts hfields, hkvs]

end

/-- What was printed is read back. -/
theorem loads_print {v : Json} (h : WellFormed v) : loads v.print = some v := by
  have hread := parseValue_print v (2 * v.print.length + 1) [] h nofun (by omega)
  rw [List.append_nil] at hread
  rw [loads, skipSpace_starts (starts_print v), hread]
  rfl

/-- **A text stands for one value**, also where a further text follows. -/
theorem print_append_inj {v w : Json} (hv : WellFormed v) (hw : WellFormed w)
    {rest rest' : List Char} (hrest : EndsNumber rest) (hrest' : EndsNumber rest')
    (h : v.print ++ rest = w.print ++ rest') :
    v = w ∧ rest = rest' := by
  have hread := parseValue_print v (v.print.length + w.print.length) rest hv hrest (by omega)
  have hread' := parseValue_print w (v.print.length + w.print.length) rest' hw hrest' (by omega)
  rw [h, hread'] at hread
  simpa using hread.symm

end Json

end Jasil
