import Jasil.Text.CodePoints
import Jasil.Text.Floats
import Jasil.Text.JsonString
import Jasil.Transition.Failing

/-! # The json module
How Python writes an object as JSON, without ASCII escapes and without `NaN`, and how it reads a text.

* **`toJson`**: the JSON value of an object, or what the writer raises; **`print`**: its text.
* **`parseValue`**, **`loads`**: the reader, which also takes `NaN`, infinities and lone surrogates, keeps the
  last of equal keys, and raises `ValueError` for everything it does not take.
* **`normalise`**: what JSON makes of an object.
* **`toJson_toObj`**: a value that was read is written as it is or refused with a `ValueError`.
* **`surrogates_print`**: the surrogates of a text are those of the strings in it. -/

namespace Jasil.PyJson

open NumberText
open JsonString (unicodeEscape hex4)

/-! ## Values -/

/-- What a call raises. -/
inductive Raised
  | typeError
  | valueError
  deriving DecidableEq

/-- What `json.loads` makes of a text. -/
inductive Value
  | null
  | bool (b : Bool)
  | int (i : ℤ)
  | float (f : PyFloat)
  | str (s : Str)
  | arr (xs : List Value)
  | obj (kvs : List (Str × Value))

/-- A key of a `dict`. -/
inductive Key
  | none
  | bool (b : Bool)
  | int (i : ℤ)
  | float (f : PyFloat)
  | str (s : Str)
  /-- Of a type that JSON has no key for. -/
  | other

/-- A Python object. -/
inductive Obj
  | none
  | bool (b : Bool)
  | int (i : ℤ)
  | float (f : PyFloat)
  | str (s : Str)
  | list (xs : List Obj)
  | tuple (xs : List Obj)
  | dict (kvs : List (Key × Obj))
  /-- Of a type that JSON has no value for. -/
  | other (type : String)

/-! ## Writing -/

/-- `str(i)`. -/
def strInt (i : ℤ) : Except Raised Str :=
  if IsShort i then .ok (.ofChars (intText i).chars) else .error .valueError

/-- The text of a float, where JSON has one. -/
def strFloat (f : PyFloat) : Except Raised Str :=
  match f.text with
  | some t => .ok (.ofChars t.chars)
  | none => .error .valueError

/-- A key that is a truth value. -/
def strBool (b : Bool) : Str := .ofChars (if b then ['t', 'r', 'u', 'e'] else ['f', 'a', 'l', 's', 'e'])

/-- The text of a key. -/
def keyText : Key → Except Raised Str
  | .none => .ok (.ofChars ['n', 'u', 'l', 'l'])
  | .bool b => .ok (strBool b)
  | .int i => strInt i
  | .float f => strFloat f
  | .str s => .ok s
  | .other => .error .typeError

mutual

/-- The JSON value of an object: tuples are lists, and keys are strings. -/
def toJson : Obj → Except Raised Value
  | .none => .ok .null
  | .bool b => .ok (.bool b)
  | .int i => (strInt i).map fun _ => .int i
  | .float f => (strFloat f).map fun _ => .float f
  | .str s => .ok (.str s)
  | .list xs => (toJsonItems xs).map .arr
  | .tuple xs => (toJsonItems xs).map .arr
  | .dict kvs => (toJsonFields kvs).map .obj
  | .other _ => .error .typeError

/-- The items of a list, as JSON. -/
def toJsonItems : List Obj → Except Raised (List Value)
  | [] => .ok []
  | x :: xs => do
    let v ← toJson x
    let vs ← toJsonItems xs
    .ok (v :: vs)

/-- The fields of a dictionary, as JSON. -/
def toJsonFields : List (Key × Obj) → Except Raised (List (Str × Value))
  | [] => .ok []
  | (k, x) :: kvs => do
    let key ← keyText k
    let v ← toJson x
    let fields ← toJsonFields kvs
    .ok ((key, v) :: fields)

end

mutual

/-- A value that was read, as an object. -/
def Value.toObj : Value → Obj
  | .null => .none
  | .bool b => .bool b
  | .int i => .int i
  | .float f => .float f
  | .str s => .str s
  | .arr xs => .list (itemsToObj xs)
  | .obj kvs => .dict (fieldsToObj kvs)

/-- Items, as Python objects. -/
def itemsToObj : List Value → List Obj
  | [] => []
  | v :: vs => v.toObj :: itemsToObj vs

/-- Fields, as Python objects. -/
def fieldsToObj : List (Str × Value) → List (Key × Obj)
  | [] => []
  | (k, v) :: kvs => (.str k, v.toObj) :: fieldsToObj kvs

end

/-- `separators=(item, key)`. -/
structure Separators where
  item : List Char
  key : List Char

/-- The separators of `json.dumps` by default. -/
def spaced : Separators := ⟨[',', ' '], [':', ' ']⟩

/-- `separators=(",", ":")`. -/
def compact : Separators := ⟨[','], [':']⟩

/-- What stands for a character between the quotation marks. -/
def escapeChar (c : Char) : List Char :=
  if c = '"' then ['\\', '"']
  else if c = '\\' then ['\\', '\\']
  else if c = '\n' then ['\\', 'n']
  else if c = '\r' then ['\\', 'r']
  else if c = '\t' then ['\\', 't']
  else if c.toNat = 12 then ['\\', 'f']
  else if c.toNat = 8 then ['\\', 'b']
  else if c < ' ' then unicodeEscape c.toNat
  else [c]

/-- A surrogate stands for itself. -/
def escapePoint : CodePoint → Str
  | .char c => .ofChars (escapeChar c)
  | .surrogate n => [.surrogate n]

/-- A quoted text. -/
def quote (s : Str) : Str := .char '"' :: (s.flatMap escapePoint ++ [.char '"'])

/-- A float as `repr` writes it. -/
def printFloat (f : PyFloat) : Str :=
  match f with
  | .nan => .ofChars ['N', 'a', 'N']
  | .infinity negative =>
    .ofChars ((if negative then ['-'] else []) ++ ['I', 'n', 'f', 'i', 'n', 'i', 't', 'y'])
  | f => (f.text.map fun t => Str.ofChars t.chars).getD []

section Print

variable (sep : Separators)

mutual

/-- The text of a value. -/
def print : Value → Str
  | .null => .ofChars ['n', 'u', 'l', 'l']
  | .bool b => strBool b
  | .int i => .ofChars (intText i).chars
  | .float f => printFloat f
  | .str s => quote s
  | .arr [] => .ofChars ['[', ']']
  | .arr (x :: xs) => .char '[' :: (print x ++ printItems xs)
  | .obj [] => .ofChars ['{', '}']
  | .obj ((k, v) :: kvs) =>
    .char '{' :: (quote k ++ (Str.ofChars sep.key ++ (print v ++ printFields kvs)))

/-- The further items of a list. -/
def printItems : List Value → Str
  | [] => [.char ']']
  | x :: xs => Str.ofChars sep.item ++ (print x ++ printItems xs)

/-- The further fields of an object. -/
def printFields : List (Str × Value) → Str
  | [] => [.char '}']
  | (k, v) :: kvs =>
    Str.ofChars sep.item ++ (quote k ++ (Str.ofChars sep.key ++ (print v ++ printFields kvs)))

end

end Print

/-- `json.dumps(obj, separators=sep, allow_nan=False, ensure_ascii=False)`. -/
def dumps (sep : Separators) (o : Obj) : Except Raised Str := (toJson o).map (print sep)

/-- `text.encode()`: a surrogate is a `UnicodeEncodeError`, which is a `ValueError`. -/
def encodeText (s : Str) : Except Raised (List UInt8) :=
  match encodeUtf8 s with
  | some bytes => .ok bytes
  | none => .error .valueError

/-! ## Reading -/

/-- Four hexadecimal digits. -/
def readHex4 (s : Str) : Option (ℕ × Str) := (JsonString.readHex4 s.leading).map fun r => (r.1, s.drop 4)

/-- Read what follows `\u`. A high surrogate makes one code point with a low one that follows it. -/
def readUnicode (s : Str) : Option (CodePoint × Str) := do
  let (n, s) ← readHex4 s
  match s with
  | .char '\\' :: .char 'u' :: t =>
    match readHex4 t with
    | some (low, t) =>
      if IsHighSurrogate n ∧ IsLowSurrogate low then (CodePoint.ofPair n low).map (·, t)
      else (CodePoint.ofCode n).map (·, s)
    | none => (CodePoint.ofCode n).map (·, s)
  | _ => (CodePoint.ofCode n).map (·, s)

/-- Read what follows a backslash. -/
def readEscape : Str → Option (CodePoint × Str)
  | .char '"' :: s => some (.char '"', s)
  | .char '\\' :: s => some (.char '\\', s)
  | .char '/' :: s => some (.char '/', s)
  | .char 'b' :: s => some (.char (Char.ofNat 8), s)
  | .char 'f' :: s => some (.char (Char.ofNat 12), s)
  | .char 'n' :: s => some (.char '\n', s)
  | .char 'r' :: s => some (.char '\r', s)
  | .char 't' :: s => some (.char '\t', s)
  | .char 'u' :: s => readUnicode s
  | _ => none

/-- A control character, which stands in no text. -/
def isControl : CodePoint → Bool
  | .char c => c < ' '
  | .surrogate _ => false

/-- Read one code point of a string; a control character has to be escaped. -/
def readPoint : Str → Option (CodePoint × Str)
  | [] => none
  | p :: s =>
    if p = .char '\\' then readEscape s
    else if p = .char '"' ∨ isControl p then none
    else some (p, s)

/-- Read up to the closing quotation mark, at most `fuel` code points. -/
def readBody : ℕ → Str → Option (Str × Str)
  | 0, _ => none
  | fuel + 1, s =>
    if s.head? = some (.char '"') then some ([], s.tail)
    else do
      let (p, s) ← readPoint s
      let (t, s) ← readBody fuel s
      some (p :: t, s)

/-- Read a string off the front. -/
def readString : Str → Option (Str × Str)
  | .char '"' :: s => readBody (s.length + 1) s
  | _ => none

/-- White space between the tokens of a JSON text. -/
def isSpace (p : CodePoint) : Bool := p = .char ' ' ∨ p = .char '\n' ∨ p = .char '\r' ∨ p = .char '\t'

/-- Blanks are skipped. -/
def skipSpace (s : Str) : Str := s.dropWhile isSpace

/-- Read a fixed word off the front. -/
def readWord (word : List Char) (s : Str) : Option Str :=
  if Str.ofChars word <+: s then some (s.drop word.length) else none

/-- The number of a text: an integer of too many digits is not read. -/
def numberValue (t : NumberText) : Option Value :=
  if t.fraction = [] ∧ t.exponent = none then
    if t.whole.length ≤ maxStrDigits then
      some (.int (if t.negative then -(natOf t.whole : ℤ) else natOf t.whole))
    else none
  else some (.float (.ofText t))

/-- A number at the start of a text. -/
def readNumber (s : Str) : Option (Value × Str) := do
  let (t, rest) ← readNumberText s.leading
  let v ← numberValue t
  some (v, Str.ofChars rest ++ s.drop s.leading.length)

/-- A `dict` of these pairs: a key given again keeps its place and takes the later value. -/
def dictOf {α β : Type*} [DecidableEq α] (kvs : List (α × β)) : List (α × β) :=
  kvs.foldl (fun dict kv =>
    if dict.any (·.1 = kv.1) then dict.map fun old => if old.1 = kv.1 then kv else old
    else dict ++ [kv]) []

mutual

/-- Read a value off the front. -/
def parseValue : ℕ → Str → Option (Value × Str)
  | 0, _ => none
  | _ + 1, [] => none
  | fuel + 1, p :: s =>
    if p = .char '"' then (readString (p :: s)).map fun r => (.str r.1, r.2)
    else if p = .char '[' then
      if (skipSpace s).head? = some (.char ']') then some (.arr [], (skipSpace s).tail)
      else do
        let (x, s) ← parseValue fuel (skipSpace s)
        let (xs, s) ← parseItems fuel (skipSpace s)
        some (.arr (x :: xs), s)
    else if p = .char '{' then
      if (skipSpace s).head? = some (.char '}') then some (.obj [], (skipSpace s).tail)
      else do
        let (kv, s) ← parseField fuel (skipSpace s)
        let (kvs, s) ← parseFields fuel (skipSpace s)
        some (.obj (dictOf (kv :: kvs)), s)
    else if p = .char 'n' then (readWord ['u', 'l', 'l'] s).map (.null, ·)
    else if p = .char 't' then (readWord ['r', 'u', 'e'] s).map (.bool true, ·)
    else if p = .char 'f' then (readWord ['a', 'l', 's', 'e'] s).map (.bool false, ·)
    else if p = .char 'N' then (readWord ['a', 'N'] s).map (.float .nan, ·)
    else if p = .char 'I' then
      (readWord ['n', 'f', 'i', 'n', 'i', 't', 'y'] s).map (.float (.infinity false), ·)
    else if p = .char '-' ∧ s.head? = some (.char 'I') then
      (readWord ['I', 'n', 'f', 'i', 'n', 'i', 't', 'y'] s).map (.float (.infinity true), ·)
    else readNumber (p :: s)

/-- Read the further items of a list. -/
def parseItems : ℕ → Str → Option (List Value × Str)
  | 0, _ => none
  | fuel + 1, s =>
    match s with
    | .char ']' :: s => some ([], s)
    | .char ',' :: s => do
      let (x, s) ← parseValue fuel (skipSpace s)
      let (xs, s) ← parseItems fuel (skipSpace s)
      some (x :: xs, s)
    | _ => none

/-- Read one field of an object. -/
def parseField : ℕ → Str → Option ((Str × Value) × Str)
  | 0, _ => none
  | fuel + 1, s => do
    let (k, s) ← readString s
    let s ← readWord [':'] (skipSpace s)
    let (v, s) ← parseValue fuel (skipSpace s)
    some ((k, v), s)

/-- Read the further fields of an object. -/
def parseFields : ℕ → Str → Option (List (Str × Value) × Str)
  | 0, _ => none
  | fuel + 1, s =>
    match s with
    | .char '}' :: s => some ([], s)
    | .char ',' :: s => do
      let (kv, s) ← parseField fuel (skipSpace s)
      let (kvs, s) ← parseFields fuel (skipSpace s)
      some (kv :: kvs, s)
    | _ => none

end

/-- `json.loads(text)`. Whatever is no JSON is a `JSONDecodeError`, which is a `ValueError`. -/
def loadsText (s : Str) : Except Raised Value :=
  match parseValue (s.length + 1) (skipSpace s) with
  | some (v, rest) => if skipSpace rest = [] then .ok v else .error .valueError
  | none => .error .valueError

/-- What comes from a channel. -/
inductive Raw
  | text (s : Str)
  | bytes (b : List UInt8)

/-- `len(raw)`. -/
def Raw.length : Raw → ℕ
  | .text s => s.length
  | .bytes b => b.length

/-- `json.loads(raw)`. Bytes that cannot be decoded are a `UnicodeDecodeError`, which is a `ValueError`. -/
def loads : Raw → Except Raised Value
  | .text s => loadsText s
  | .bytes b =>
    match decodeBytes b with
    | some s => loadsText s
    | none => .error .valueError

/-! ## What values have in common -/

/-- Conditions on the parts of a value. -/
structure Checks where
  int : ℤ → Prop
  float : PyFloat → Prop
  str : Str → Prop
  /-- On the keys of an object. -/
  keys : List Str → Prop

mutual

/-- Every part of the value meets the conditions. -/
def Meets (c : Checks) : Value → Prop
  | .null => True
  | .bool _ => True
  | .int i => c.int i
  | .float f => c.float f
  | .str s => c.str s
  | .arr xs => ItemsMeet c xs
  | .obj kvs => FieldsMeet c kvs ∧ c.keys (kvs.map Prod.fst)

/-- Every item meets the checks. -/
def ItemsMeet (c : Checks) : List Value → Prop
  | [] => True
  | v :: vs => Meets c v ∧ ItemsMeet c vs

/-- Every field meets the checks. -/
def FieldsMeet (c : Checks) : List (Str × Value) → Prop
  | [] => True
  | (k, v) :: kvs => (c.str k ∧ Meets c v) ∧ FieldsMeet c kvs

end

/-- There is a text for every number. -/
def printable : Checks where
  int := IsShort
  float f := f.text.isSome
  str _ := True
  keys _ := True

/-- UTF-8 has bytes for every string. -/
def strict : Checks where
  int _ := True
  float _ := True
  str s := s.surrogates = []
  keys _ := True

/-- The integers are short, and the keys of an object are distinct. -/
def parsed : Checks where
  int := IsShort
  float _ := True
  str _ := True
  keys := List.Nodup

/-- Fields meet the checks when each of them does. -/
theorem fieldsMeet_iff {c : Checks} {kvs : List (Str × Value)} :
    FieldsMeet c kvs ↔ ∀ kv ∈ kvs, c.str kv.1 ∧ Meets c kv.2 := by
  induction kvs with
  | nil => simp [FieldsMeet]
  | cons kv kvs ih => rw [FieldsMeet, ih, List.forall_mem_cons]

/-! ## The last of equal keys -/

section DictOf

variable {α β : Type*} [DecidableEq α]

/-- One more pair is put into a `dict`. -/
theorem dictOf_concat (kvs : List (α × β)) (kv : α × β) :
    dictOf (kvs ++ [kv]) = if (dictOf kvs).any (·.1 = kv.1) then
      (dictOf kvs).map fun old => if old.1 = kv.1 then kv else old
    else dictOf kvs ++ [kv] := by
  rw [dictOf, List.foldl_append]
  rfl

/-- A dictionary has each key once. -/
theorem nodup_dictOf (kvs : List (α × β)) : ((dictOf kvs).map Prod.fst).Nodup := by
  induction kvs using List.reverseRecOn with
  | nil => exact List.nodup_nil
  | append_singleton kvs kv ih =>
    rw [dictOf_concat]
    split
    · -- the keys stay as they are
      have hkeys : ((dictOf kvs).map fun old => if old.1 = kv.1 then kv else old).map Prod.fst
          = (dictOf kvs).map Prod.fst := by
        rw [List.map_map]
        refine List.map_congr_left fun old _ => ?_
        by_cases h : old.1 = kv.1
        · simp [h]
        · simp [h]
      rwa [hkeys]
    · rename_i hnew
      rw [List.map_append, List.map_singleton]
      refine ih.append (List.nodup_singleton _) ?_
      simpa [List.any_eq_true] using hnew

/-- Its entries were there. -/
theorem mem_of_mem_dictOf {kvs : List (α × β)} {kv : α × β} (h : kv ∈ dictOf kvs) : kv ∈ kvs := by
  induction kvs using List.reverseRecOn with
  | nil => exact h
  | append_singleton kvs last ih =>
    rw [dictOf_concat] at h
    rw [List.mem_append, List.mem_singleton]
    split at h
    · obtain ⟨old, hold, rfl⟩ := List.mem_map.mp h
      by_cases heq : old.1 = last.1
      · exact .inr (if_pos heq)
      · exact .inl (ih (by rwa [if_neg heq]))
    · exact (List.mem_append.mp h).imp ih List.mem_singleton.mp

/-- Pairs with distinct keys are a `dict` as they stand. -/
theorem dictOf_of_nodup {kvs : List (α × β)} (h : (kvs.map Prod.fst).Nodup) : dictOf kvs = kvs := by
  induction kvs using List.reverseRecOn with
  | nil => rfl
  | append_singleton kvs kv ih =>
    rw [List.map_append, List.map_singleton, List.nodup_append] at h
    rw [dictOf_concat, ih h.1, if_neg]
    rw [List.any_eq_true]
    rintro ⟨old, hold, heq⟩
    exact h.2.2 _ (List.mem_map_of_mem hold) _ (List.mem_singleton_self _) (by simpa using heq)

end DictOf

mutual

/-- The value in which of equal keys only the last is left. -/
def lastWins : Value → Value
  | .null => .null
  | .bool b => .bool b
  | .int i => .int i
  | .float f => .float f
  | .str s => .str s
  | .arr xs => .arr (lastWinsItems xs)
  | .obj kvs => .obj (dictOf (lastWinsFields kvs))

/-- Of each object within, the last value of a name. -/
def lastWinsItems : List Value → List Value
  | [] => []
  | v :: vs => lastWins v :: lastWinsItems vs

/-- So for the values of fields. -/
def lastWinsFields : List (Str × Value) → List (Str × Value)
  | [] => []
  | (k, v) :: kvs => (k, lastWins v) :: lastWinsFields kvs

end

/-- What JSON makes of an object: tuples become lists and keys strings, and of equal keys the last is left. -/
def normalise (o : Obj) : Except Raised Value := (toJson o).map lastWins

mutual

/-- A value with the last of each name meets what it met. -/
theorem meets_lastWins {c : Checks} (hkeys : ∀ keys, c.keys keys) :
    ∀ v : Value, Meets c v → Meets c (lastWins v)
  | .null, h | .bool _, h | .int _, h | .float _, h | .str _, h => by
    rw [lastWins]
    exact h
  | .arr xs, h => by
    rw [Meets] at h
    rw [lastWins, Meets]
    exact itemsMeet_lastWins hkeys xs h
  | .obj kvs, h => by
    rw [Meets] at h
    rw [lastWins, Meets, fieldsMeet_iff]
    have hfields := fieldsMeet_iff.mp (fieldsMeet_lastWins hkeys kvs h.1)
    exact ⟨fun kv hkv => hfields kv (mem_of_mem_dictOf hkv), hkeys _⟩

/-- So do items. -/
theorem itemsMeet_lastWins {c : Checks} (hkeys : ∀ keys, c.keys keys) :
    ∀ vs : List Value, ItemsMeet c vs → ItemsMeet c (lastWinsItems vs)
  | [], h => by
    rw [lastWinsItems]
    exact h
  | v :: vs, h => by
    rw [ItemsMeet] at h
    rw [lastWinsItems, ItemsMeet]
    exact ⟨meets_lastWins hkeys v h.1, itemsMeet_lastWins hkeys vs h.2⟩

/-- So do fields. -/
theorem fieldsMeet_lastWins {c : Checks} (hkeys : ∀ keys, c.keys keys) :
    ∀ kvs : List (Str × Value), FieldsMeet c kvs → FieldsMeet c (lastWinsFields kvs)
  | [], h => by
    rw [lastWinsFields]
    exact h
  | (k, v) :: kvs, h => by
    rw [FieldsMeet] at h
    rw [lastWinsFields, FieldsMeet]
    exact ⟨⟨h.1.1, meets_lastWins hkeys v h.1.2⟩, fieldsMeet_lastWins hkeys kvs h.2⟩

end

mutual

/-- A value without equal keys keeps them all. -/
theorem lastWins_of_parsed : ∀ v : Value, Meets parsed v → lastWins v = v
  | .null, _ | .bool _, _ | .int _, _ | .float _, _ | .str _, _ => by rw [lastWins]
  | .arr xs, h => by
    rw [Meets] at h
    rw [lastWins, lastWinsItems_of_parsed xs h]
  | .obj kvs, h => by
    rw [Meets] at h
    rw [lastWins, lastWinsFields_of_parsed kvs h.1, dictOf_of_nodup h.2]

/-- Items that were parsed have each name once. -/
theorem lastWinsItems_of_parsed : ∀ vs : List Value, ItemsMeet parsed vs → lastWinsItems vs = vs
  | [], _ => by rw [lastWinsItems]
  | v :: vs, h => by
    rw [ItemsMeet] at h
    rw [lastWinsItems, lastWins_of_parsed v h.1, lastWinsItems_of_parsed vs h.2]

/-- So have fields. -/
theorem lastWinsFields_of_parsed :
    ∀ kvs : List (Str × Value), FieldsMeet parsed kvs → lastWinsFields kvs = kvs
  | [], _ => by rw [lastWinsFields]
  | (k, v) :: kvs, h => by
    rw [FieldsMeet] at h
    rw [lastWinsFields, lastWins_of_parsed v h.1.2, lastWinsFields_of_parsed kvs h.2]

end

/-! ## Objects and their values -/

/-- An integer is written when it is short. -/
theorem strInt_eq (i : ℤ) :
    (IsShort i ∧ strInt i = .ok (.ofChars (intText i).chars))
    ∨ (¬IsShort i ∧ strInt i = .error .valueError) := by
  by_cases h : IsShort i
  · exact .inl ⟨h, if_pos h⟩
  · exact .inr ⟨h, if_neg h⟩

/-- A float is written when it has a text. -/
theorem strFloat_eq (f : PyFloat) :
    (f.text.isSome ∧ strFloat f = .ok (printFloat f)) ∨ (¬f.text.isSome ∧ strFloat f = .error .valueError) := by
  cases f with
  | finite q h => exact .inl ⟨rfl, rfl⟩
  | negativeZero => exact .inl ⟨rfl, rfl⟩
  | infinity negative => exact .inr ⟨by simp [PyFloat.text], rfl⟩
  | nan => exact .inr ⟨by simp [PyFloat.text], rfl⟩

mutual

/-- The value of an object can be printed. -/
theorem printable_toJson : ∀ (o : Obj) (v : Value), toJson o = .ok v → Meets printable v
  | .none, v, h => by
    rw [toJson] at h
    obtain rfl := Except.ok.inj h
    trivial
  | .bool _, v, h => by
    rw [toJson] at h
    obtain rfl := Except.ok.inj h
    trivial
  | .int i, v, h => by
    rw [toJson] at h
    rcases strInt_eq i with ⟨hshort, hstr⟩ | ⟨-, hstr⟩
    · rw [hstr] at h
      obtain rfl := Except.ok.inj h
      exact hshort
    · rw [hstr] at h
      cases h
  | .float f, v, h => by
    rw [toJson] at h
    rcases strFloat_eq f with ⟨htext, hstr⟩ | ⟨-, hstr⟩
    · rw [hstr] at h
      obtain rfl := Except.ok.inj h
      exact htext
    · rw [hstr] at h
      cases h
  | .str _, v, h => by
    rw [toJson] at h
    obtain rfl := Except.ok.inj h
    trivial
  | .list xs, v, h | .tuple xs, v, h => by
    rw [toJson] at h
    cases hitems : toJsonItems xs with
    | error raised =>
      rw [hitems] at h
      cases h
    | ok vs =>
      rw [hitems] at h
      obtain rfl := Except.ok.inj h
      rw [Meets]
      exact printable_toJsonItems xs vs hitems
  | .dict kvs, v, h => by
    rw [toJson] at h
    cases hfields : toJsonFields kvs with
    | error raised =>
      rw [hfields] at h
      cases h
    | ok fields =>
      rw [hfields] at h
      obtain rfl := Except.ok.inj h
      rw [Meets]
      exact ⟨printable_toJsonFields kvs fields hfields, trivial⟩
  | .other _, v, h => by
    rw [toJson] at h
    cases h

/-- Items that became JSON can be printed. -/
theorem printable_toJsonItems : ∀ (xs : List Obj) (vs : List Value), toJsonItems xs = .ok vs →
    ItemsMeet printable vs
  | [], vs, h => by
    rw [toJsonItems] at h
    obtain rfl := Except.ok.inj h
    trivial
  | x :: xs, vs, h => by
    rw [toJsonItems] at h
    obtain ⟨v, hv, h⟩ := Failing.ok_of_bind h
    obtain ⟨tail, htail, h⟩ := Failing.ok_of_bind h
    obtain rfl := Except.ok.inj h
    rw [ItemsMeet]
    exact ⟨printable_toJson x v hv, printable_toJsonItems xs tail htail⟩

/-- So can fields. -/
theorem printable_toJsonFields : ∀ (kvs : List (Key × Obj)) (fields : List (Str × Value)),
    toJsonFields kvs = .ok fields → FieldsMeet printable fields
  | [], fields, h => by
    rw [toJsonFields] at h
    obtain rfl := Except.ok.inj h
    trivial
  | (k, x) :: kvs, fields, h => by
    rw [toJsonFields] at h
    obtain ⟨key, -, h⟩ := Failing.ok_of_bind h
    obtain ⟨v, hv, h⟩ := Failing.ok_of_bind h
    obtain ⟨tail, htail, h⟩ := Failing.ok_of_bind h
    obtain rfl := Except.ok.inj h
    rw [FieldsMeet]
    exact ⟨⟨trivial, printable_toJson x v hv⟩, printable_toJsonFields kvs tail htail⟩

end

mutual

/-- **A value that was read** is written as it is or refused with a `ValueError`. -/
theorem toJson_toObj : ∀ v : Value, (Meets printable v ∧ toJson v.toObj = .ok v)
    ∨ (¬Meets printable v ∧ toJson v.toObj = .error .valueError)
  | .null => by
    rw [Value.toObj, toJson]
    exact .inl ⟨trivial, rfl⟩
  | .bool b => by
    rw [Value.toObj, toJson]
    exact .inl ⟨trivial, rfl⟩
  | .int i => by
    rw [Value.toObj, toJson, Meets]
    refine (strInt_eq i).imp (fun h => ⟨h.1, ?_⟩) fun h => ⟨h.1, ?_⟩
    · rw [h.2]
      rfl
    · rw [h.2]
      rfl
  | .float f => by
    rw [Value.toObj, toJson, Meets]
    refine (strFloat_eq f).imp (fun h => ⟨h.1, ?_⟩) fun h => ⟨h.1, ?_⟩
    · rw [h.2]
      rfl
    · rw [h.2]
      rfl
  | .str s => by
    rw [Value.toObj, toJson]
    exact .inl ⟨trivial, rfl⟩
  | .arr xs => by
    rw [Value.toObj, toJson, Meets]
    refine (toJson_itemsToObj xs).imp (fun h => ⟨h.1, ?_⟩) fun h => ⟨h.1, ?_⟩
    · rw [h.2]
      rfl
    · rw [h.2]
      rfl
  | .obj kvs => by
    rw [Value.toObj, toJson, Meets]
    refine (toJson_fieldsToObj kvs).imp (fun h => ⟨⟨h.1, trivial⟩, ?_⟩) fun h => ⟨fun hm => h.1 hm.1, ?_⟩
    · rw [h.2]
      rfl
    · rw [h.2]
      rfl

/-- Items are as Python objects what they were. -/
theorem toJson_itemsToObj : ∀ vs : List Value, (ItemsMeet printable vs ∧ toJsonItems (itemsToObj vs) = .ok vs)
    ∨ (¬ItemsMeet printable vs ∧ toJsonItems (itemsToObj vs) = .error .valueError)
  | [] => by
    rw [itemsToObj, toJsonItems]
    exact .inl ⟨trivial, rfl⟩
  | v :: vs => by
    rw [itemsToObj, toJsonItems, ItemsMeet]
    rcases toJson_toObj v with ⟨hv, hvalue⟩ | ⟨hv, hvalue⟩
    · rcases toJson_itemsToObj vs with ⟨hvs, htail⟩ | ⟨hvs, htail⟩
      · refine .inl ⟨⟨hv, hvs⟩, ?_⟩
        rw [hvalue, htail]
        rfl
      · refine .inr ⟨fun h => hvs h.2, ?_⟩
        rw [hvalue, htail]
        rfl
    · refine .inr ⟨fun h => hv h.1, ?_⟩
      rw [hvalue]
      rfl

/-- So are fields. -/
theorem toJson_fieldsToObj : ∀ kvs : List (Str × Value),
    (FieldsMeet printable kvs ∧ toJsonFields (fieldsToObj kvs) = .ok kvs)
      ∨ (¬FieldsMeet printable kvs ∧ toJsonFields (fieldsToObj kvs) = .error .valueError)
  | [] => by
    rw [fieldsToObj, toJsonFields]
    exact .inl ⟨trivial, rfl⟩
  | (k, v) :: kvs => by
    rw [fieldsToObj, toJsonFields, FieldsMeet]
    rcases toJson_toObj v with ⟨hv, hvalue⟩ | ⟨hv, hvalue⟩
    · rcases toJson_fieldsToObj kvs with ⟨hkvs, htail⟩ | ⟨hkvs, htail⟩
      · refine .inl ⟨⟨⟨trivial, hv⟩, hkvs⟩, ?_⟩
        rw [hvalue, htail]
        rfl
      · refine .inr ⟨fun h => hkvs h.2, ?_⟩
        rw [hvalue, htail]
        rfl
    · refine .inr ⟨fun h => hv h.1.2, ?_⟩
      rw [hvalue]
      rfl

end

/-- A float is written as its text. -/
theorem printFloat_of_text {f : PyFloat} {t : NumberText} (h : f.text = some t) :
    printFloat f = .ofChars t.chars := by
  cases f with
  | finite q hq => exact congrArg (fun t => Str.ofChars t.chars) (Option.some.inj h)
  | negativeZero => exact congrArg (fun t => Str.ofChars t.chars) (Option.some.inj h)
  | infinity negative => cases h
  | nan => cases h

/-! ## Surrogates in a text -/

/-- An escape has the surrogates of its code point. -/
theorem surrogates_escapePoint (p : CodePoint) : (escapePoint p).surrogates = Str.surrogates [p] := by
  cases p with
  | char c => exact Str.surrogates_ofChars _
  | surrogate n => rfl

/-- A quoted text has those of the text. -/
theorem surrogates_quote (s : Str) : (quote s).surrogates = s.surrogates := by
  have hbody : Str.surrogates (s.flatMap escapePoint) = s.surrogates := by
    induction s with
    | nil => rfl
    | cons p s ih =>
      rw [List.flatMap_cons, Str.surrogates_append, surrogates_escapePoint, ih, ← Str.surrogates_append]
      rfl
  rw [quote, Str.surrogates, Str.surrogates_append, hbody]
  exact List.append_nil _

/-- A float has none. -/
theorem surrogates_printFloat (f : PyFloat) : (printFloat f).surrogates = [] := by
  cases f <;> exact Str.surrogates_ofChars _

section

variable {sep : Separators}

mutual

/-- **The surrogates of a text are those of the strings in it**, whatever the separators. -/
theorem surrogates_print : ∀ v : Value, (print sep v).surrogates = [] ↔ Meets strict v
  | .null => by
    rw [print, Str.surrogates_ofChars, Meets]
    exact iff_of_true rfl trivial
  | .bool b => by
    rw [print, strBool, Str.surrogates_ofChars, Meets]
    exact iff_of_true rfl trivial
  | .int i => by
    rw [print, Str.surrogates_ofChars, Meets]
    exact iff_of_true rfl trivial
  | .float f => by
    rw [print, surrogates_printFloat, Meets]
    exact iff_of_true rfl trivial
  | .str s => by
    rw [print, surrogates_quote, Meets]
    rfl
  | .arr [] => by
    rw [print, Str.surrogates_ofChars, Meets, ItemsMeet]
    exact iff_of_true rfl trivial
  | .arr (x :: xs) => by
    rw [print, Str.surrogates, Str.surrogates_append, List.append_eq_nil_iff, surrogates_print x,
      surrogates_printItems xs, Meets, ItemsMeet]
  | .obj [] => by
    rw [print, Str.surrogates_ofChars, Meets, FieldsMeet]
    exact iff_of_true rfl ⟨trivial, trivial⟩
  | .obj ((k, v) :: kvs) => by
    rw [print, Str.surrogates, Meets, FieldsMeet]
    simp only [Str.surrogates_append, Str.surrogates_ofChars, List.nil_append, List.append_eq_nil_iff,
      surrogates_quote, surrogates_print v, surrogates_printFields kvs]
    show _ ↔ ((Str.surrogates k = [] ∧ _) ∧ _) ∧ True
    rw [and_true, and_assoc]

/-- Printed items have none exactly when the items have none. -/
theorem surrogates_printItems : ∀ vs : List Value, (printItems sep vs).surrogates = [] ↔ ItemsMeet strict vs
  | [] => by
    rw [printItems, ItemsMeet]
    exact iff_of_true rfl trivial
  | v :: vs => by
    rw [printItems, ItemsMeet, Str.surrogates_append, Str.surrogates_ofChars, List.nil_append,
      Str.surrogates_append, List.append_eq_nil_iff, surrogates_print v, surrogates_printItems vs]

/-- So it is for fields. -/
theorem surrogates_printFields : ∀ kvs : List (Str × Value),
    (printFields sep kvs).surrogates = [] ↔ FieldsMeet strict kvs
  | [] => by
    rw [printFields, FieldsMeet]
    exact iff_of_true rfl trivial
  | (k, v) :: kvs => by
    rw [printFields, FieldsMeet]
    simp only [Str.surrogates_append, Str.surrogates_ofChars, List.nil_append, List.append_eq_nil_iff,
      surrogates_quote, surrogates_print v, surrogates_printFields kvs]
    show _ ↔ (Str.surrogates k = [] ∧ _) ∧ _
    rw [and_assoc]

end

end

/-- A text has bytes exactly when there is no surrogate in it. -/
theorem encodeText_eq (s : Str) :
    (s.surrogates = [] ∧ ∃ cs, s = .ofChars cs ∧ encodeText s = .ok (utf8 cs))
      ∨ (s.surrogates ≠ [] ∧ encodeText s = .error .valueError) := by
  cases hchars : s.chars with
  | some cs =>
    refine .inl ⟨(Str.chars_isSome_iff s).mp (by rw [hchars]; rfl), cs, Str.eq_ofChars hchars, ?_⟩
    rw [encodeText, encodeUtf8, hchars]
    rfl
  | none =>
    refine .inr ⟨fun hnil => ?_, ?_⟩
    · have hsome := (Str.chars_isSome_iff s).mpr hnil
      rw [hchars] at hsome
      cases hsome
    · rw [encodeText, encodeUtf8, hchars]
      rfl

end Jasil.PyJson
