import Jasil.Text.PyJsonReader

/-! # The realtime envelope
A hint travels as compact JSON, with the key of its audience beside it. What arrives on the channel may come from
anyone.

* **`encode`**: the envelope of a hint, or why there is none; **`decode`**: the key and the hint of an
  envelope, or `none` for what is no envelope of version 1 or 2.
* **`decode_encode`**: what was encoded is decoded as JSON makes it.
* **`decode_total`**: nothing that arrives makes the decoder raise.
* **`encode_decoded`**: what the decoder takes from an envelope of version 2, the encoder takes again. -/

namespace Jasil.Realtime

open PyJson

/-- A `dict` that was read from JSON. -/
abbrev Fields := List (Str × Value)

/-- `ENVELOPE_VERSION`. -/
def envelopeVersion : ℤ := 2

/-- `LEGACY_ENVELOPE_VERSION`. -/
def legacyEnvelopeVersion : ℤ := 1

/-- `MAX_KEY_LENGTH`. -/
def maxKeyLength : ℕ := 256

/-- `DEFAULT_MAX_ENVELOPE_BYTES`. -/
def defaultMaxEnvelopeBytes : ℤ := 4096

/-- `v`. -/
def vField : Str := .ofChars ['v']

/-- `key`. -/
def keyField : Str := .ofChars ['k', 'e', 'y']

/-- `hint`. -/
def hintField : Str := .ofChars ['h', 'i', 'n', 't']

/-- `user_id`. -/
def userIdField : Str := .ofChars ['u', 's', 'e', 'r', '_', 'i', 'd']

/-- `type(obj).__name__`. -/
def typeName : Obj → String
  | .none => "NoneType"
  | .bool _ => "bool"
  | .int _ => "int"
  | .float _ => "float"
  | .str _ => "str"
  | .list _ => "list"
  | .tuple _ => "tuple"
  | .dict _ => "dict"
  | .other type => type

/-- `_key_problem`. -/
def keyProblem : Obj → Option String
  | .str key =>
    if key = [] then some "key must not be empty"
    else if maxKeyLength < key.length then
      some ("key is " ++ toString key.length ++ " characters, over the " ++ toString maxKeyLength
        ++ "-character cap")
    else if encodeUtf8 key = none then some "key contains an unpaired Unicode surrogate"
    else none
  | key => some ("key must be a str, not " ++ typeName key)

/-- What the `ValueError` of `encode` is about. -/
inductive Refusal
  | key (problem : String)
  /-- hint must be a dict, not … -/
  | hintType (type : String)
  /-- hint is not JSON-serialisable: … -/
  | notSerialisable (error : Raised)
  /-- realtime hint envelope is … bytes, over the …-byte cap -/
  | tooLarge (size : ℕ) (maxBytes : ℤ)

/-- The envelope of version 2, before it is serialised. -/
def envelope (key hint : Obj) : Obj :=
  .dict [(.str vField, .int envelopeVersion), (.str keyField, key), (.str hintField, hint)]

/-- The bytes of an envelope. -/
def serialised (key hint : Obj) : Except Raised (List UInt8) := dumps compact (envelope key hint) >>= encodeText

/-- `encode`. -/
def encode (key hint : Obj) (maxBytes : ℤ) : Except Refusal (List UInt8) :=
  match keyProblem key with
  | some problem => .error (.key problem)
  | none =>
    match hint with
    | .dict _ =>
      match serialised key hint with
      | .error raised => .error (.notSerialisable raised)
      | .ok encoded =>
        if maxBytes < encoded.length then .error (.tooLarge encoded.length maxBytes) else .ok encoded
    | hint => .error (.hintType (typeName hint))

/-- `envelope.get(name)`. -/
def field (name : Str) (fields : Fields) : Option Value := (fields.find? (·.1 = name)).map Prod.snd

/-- The key of an envelope, where it has a valid one of a version that is known. -/
def decodedKey (fields : Fields) : Except Raised (Option Str) :=
  match field vField fields with
  | some (.int version) =>
    if version = envelopeVersion then
      match field keyField fields with
      | some (.str key) => .ok (if keyProblem (.str key) = none then some key else none)
      | _ => .ok none
    else if version = legacyEnvelopeVersion then
      match field userIdField fields with
      | some (.int userId) => (strInt userId).map some
      | _ => .ok none
    else .ok none
  | _ => .ok none

/-- `_encodes`. -/
def encodes (hint : Fields) : Except Raised Bool :=
  match dumps spaced (Value.obj hint).toObj >>= encodeText with
  | .ok _ => .ok true
  | .error .valueError => .ok false
  | .error .typeError => .error .typeError

/-- The key and the hint of an envelope, where it has both. -/
def decodedPair (key : Option Str) (hint : Option Value) : Except Raised (Option (Str × Fields)) :=
  match key, hint with
  | some key, some (.obj hint) => (encodes hint).map fun sendable => if sendable then some (key, hint) else none
  | _, _ => .ok none

/-- `decode`. -/
def decode (raw : Raw) (maxBytes : ℤ) : Except Raised (Option (Str × Fields)) :=
  if maxBytes < raw.length then .ok none
  else
    match loads raw with
    | .ok (.obj fields) => do
      let key ← decodedKey fields
      decodedPair key (field hintField fields)
    | .ok _ => .ok none
    -- a `TypeError` and a `ValueError` are caught alike
    | .error _ => .ok none

/-- The payload is an envelope of version 2. -/
def IsCurrent (raw : Raw) : Prop :=
  ∃ fields, loads raw = .ok (.obj fields) ∧ field vField fields = some (.int envelopeVersion)

/-! ## The decoder does not raise -/

/-- **A hint is taken exactly when it has bytes**: its numbers have a text and its strings are strict. -/
theorem encodes_eq (hint : Fields) :
    ((Meets printable (.obj hint) ∧ Meets strict (.obj hint)) ∧ encodes hint = .ok true)
      ∨ (¬(Meets printable (.obj hint) ∧ Meets strict (.obj hint)) ∧ encodes hint = .ok false) := by
  unfold encodes dumps
  rcases toJson_toObj (.obj hint) with ⟨hprintable, hjson⟩ | ⟨hprintable, hjson⟩
  · rw [hjson]
    rcases encodeText_eq (print spaced (.obj hint)) with ⟨hnone, cs, -, htext⟩ | ⟨hsome, htext⟩
    · refine .inl ⟨⟨hprintable, (surrogates_print _).mp hnone⟩, ?_⟩
      show (match encodeText _ with | .ok _ => _ | .error .valueError => _ | .error .typeError => _) = _
      rw [htext]
    · refine .inr ⟨fun h => hsome ((surrogates_print _).mpr h.2), ?_⟩
      show (match encodeText _ with | .ok _ => _ | .error .valueError => _ | .error .typeError => _) = _
      rw [htext]
  · rw [hjson]
    exact .inr ⟨fun h => hprintable h.1, rfl⟩

/-- A field of an object that meets a check meets it. -/
theorem meets_field {c : Checks} {fields : Fields} {name : Str} {v : Value} (h : Meets c (.obj fields))
    (hv : field name fields = some v) : Meets c v := by
  obtain ⟨kv, hfind, rfl⟩ := Option.map_eq_some_iff.mp hv
  rw [Meets] at h
  exact (fieldsMeet_iff.mp h.1 kv (List.mem_of_find?_eq_some hfind)).2

/-- A user id that was read is short enough for `str`. -/
theorem decodedKey_ok {fields : Fields} (h : Meets parsed (.obj fields)) :
    ∃ key, decodedKey fields = .ok key := by
  unfold decodedKey
  split
  · split
    · split
      · exact ⟨_, rfl⟩
      · exact ⟨_, rfl⟩
    · split
      · split
        · rename_i userId huser
          have hshort : IsShort userId := meets_field h huser
          rw [strInt, if_pos hshort]
          exact ⟨_, rfl⟩
        · exact ⟨_, rfl⟩
      · exact ⟨_, rfl⟩
  · exact ⟨_, rfl⟩

/-- A pair is always decoded to something. -/
theorem decodedPair_ok (key : Option Str) (hint : Option Value) :
    ∃ decoded, decodedPair key hint = .ok decoded := by
  unfold decodedPair
  split
  · rename_i key hint
    rcases encodes_eq hint with ⟨-, hencodes⟩ | ⟨-, hencodes⟩
    · rw [hencodes]
      exact ⟨_, rfl⟩
    · rw [hencodes]
      exact ⟨_, rfl⟩
  · exact ⟨_, rfl⟩

/-- **Nothing that arrives makes the decoder raise.** -/
theorem decode_total (raw : Raw) (maxBytes : ℤ) : ∃ decoded, decode raw maxBytes = .ok decoded := by
  unfold decode
  split
  · exact ⟨_, rfl⟩
  · split
    · rename_i fields hloads
      obtain ⟨key, hkey⟩ := decodedKey_ok (meets_loads hloads)
      rw [hkey]
      exact decodedPair_ok key _
    · exact ⟨_, rfl⟩
    · exact ⟨_, rfl⟩

/-! ## What was encoded is decoded -/

/-- The envelope of version 2, as JSON. -/
def envelopeValue (key : Str) (hint : Fields) : Value :=
  .obj [(vField, .int envelopeVersion), (keyField, .str key), (hintField, .obj hint)]

/-- The envelope of a key and a hint, as JSON. -/
theorem toJson_envelope (key : Str) (kvs : List (Key × Obj)) :
    toJson (envelope (.str key) (.dict kvs)) = (toJsonFields kvs).map (envelopeValue key) := by
  have hversion : toJson (.int envelopeVersion) = .ok (.int envelopeVersion) := by
    rw [toJson]
    rfl
  have hkey : toJson (.str key) = .ok (.str key) := by rw [toJson]
  rw [envelope, toJson, toJsonFields, toJsonFields, toJsonFields, toJsonFields, hversion, hkey, toJson]
  cases toJsonFields kvs <;> rfl

/-- A key that is accepted is a string that UTF-8 has bytes for. -/
theorem of_keyProblem {key : Obj} (h : keyProblem key = none) : ∃ k, key = .str k ∧ k.surrogates = [] := by
  cases key with
  | str k =>
    refine ⟨k, rfl, ?_⟩
    rw [keyProblem] at h
    split at h
    · cases h
    · split at h
      · cases h
      · split at h
        · cases h
        · rename_i hbytes
          refine (Str.chars_isSome_iff k).mp (Option.isSome_iff_ne_none.mpr fun hnone => hbytes ?_)
          exact (congrArg (Option.map utf8) hnone)
  | none => cases h
  | bool b => cases h
  | int i => cases h
  | float f => cases h
  | list xs => cases h
  | tuple xs => cases h
  | dict kvs => cases h
  | other type => cases h

/-- A payload is made exactly when the hint is JSON and is printed. -/
theorem serialised_ok_iff {k : Str} {kvs : List (Key × Obj)} {bytes : List UInt8} :
    serialised (.str k) (.dict kvs) = .ok bytes ↔ ∃ fields cs, toJsonFields kvs = .ok fields
      ∧ print compact (envelopeValue k fields) = .ofChars cs ∧ bytes = utf8 cs := by
  rw [serialised, dumps, toJson_envelope]
  cases toJsonFields kvs with
  | error raised =>
    refine iff_of_false ?_ ?_
    · rintro ⟨⟩
    · rintro ⟨_, _, ⟨⟩, -⟩
  | ok fields =>
    show encodeText (print compact (envelopeValue k fields)) = .ok bytes ↔ _
    rcases encodeText_eq (print compact (envelopeValue k fields)) with ⟨-, cs, hchars, htext⟩ | ⟨hsome, htext⟩
    · rw [htext]
      constructor
      · intro h
        exact ⟨fields, cs, rfl, hchars, (Except.ok.inj h).symm⟩
      · rintro ⟨_, cs', ⟨⟩, hchars', rfl⟩
        rw [Str.ofChars_injective (hchars.symm.trans hchars')]
    · rw [htext]
      refine iff_of_false ?_ ?_
      · rintro ⟨⟩
      · rintro ⟨_, cs, ⟨⟩, hchars, -⟩
        rw [hchars, Str.surrogates_ofChars] at hsome
        exact hsome rfl

/-- **When there is an envelope**: the key is valid, the hint is a `dict` with a JSON value, and the text has
bytes, as many as may be. -/
theorem encode_ok_iff {key hint : Obj} {maxBytes : ℤ} {bytes : List UInt8} :
    encode key hint maxBytes = .ok bytes ↔ ∃ k kvs fields cs, key = .str k ∧ keyProblem (.str k) = none
      ∧ hint = .dict kvs ∧ toJsonFields kvs = .ok fields ∧ print compact (envelopeValue k fields) = .ofChars cs
      ∧ bytes = utf8 cs ∧ (bytes.length : ℤ) ≤ maxBytes := by
  constructor
  · intro h
    unfold encode at h
    split at h
    · cases h
    · rename_i hkey
      obtain ⟨k, rfl, -⟩ := of_keyProblem hkey
      split at h
      · split at h
        · cases h
        · rename_i kvs _ encoded hserialised
          obtain ⟨fields, cs, hfields, hchars, rfl⟩ := serialised_ok_iff.mp hserialised
          split at h
          · cases h
          · rename_i hsize
            obtain rfl := Except.ok.inj h
            exact ⟨k, kvs, fields, cs, rfl, hkey, rfl, hfields, hchars, rfl, not_lt.mp hsize⟩
      · cases h
  · rintro ⟨k, kvs, fields, cs, rfl, hkey, rfl, hfields, hchars, rfl, hsize⟩
    have hserialised := serialised_ok_iff.mpr ⟨fields, cs, hfields, hchars, rfl⟩
    unfold encode
    rw [hkey]
    dsimp only
    rw [hserialised]
    exact if_neg (not_lt.mpr hsize)

/-- The members of an envelope. -/
theorem meets_envelopeValue {c : Checks} {k : Str} {hint : Fields} (hkeys : ∀ keys, c.keys keys) :
    Meets c (envelopeValue k hint) ↔ (c.str vField ∧ c.int envelopeVersion) ∧ (c.str keyField ∧ c.str k)
      ∧ c.str hintField ∧ Meets c (.obj hint) := by
  rw [envelopeValue, Meets, FieldsMeet, FieldsMeet, FieldsMeet, FieldsMeet, Meets, Meets]
  constructor
  · rintro ⟨⟨hv, hk, hh, -⟩, -⟩
    exact ⟨hv, hk, hh⟩
  · rintro ⟨hv, hk, hh⟩
    exact ⟨⟨hv, hk, hh, trivial⟩, hkeys _⟩

/-- Of fields with one name in a hint the last one wins. -/
theorem lastWins_envelopeValue (k : Str) (hint : Fields) :
    lastWins (envelopeValue k hint) = envelopeValue k (dictOf (lastWinsFields hint)) := by
  have hdistinct (v w x : Value) : dictOf [(vField, v), (keyField, w), (hintField, x)]
      = [(vField, v), (keyField, w), (hintField, x)] := by
    refine dictOf_of_nodup ?_
    show [vField, keyField, hintField].Nodup
    decide
  rw [envelopeValue, lastWins, lastWinsFields, lastWinsFields, lastWinsFields, lastWinsFields, hdistinct,
    lastWins,
    lastWins, lastWins]
  rfl

/-- An envelope is loaded as it was written. -/
theorem loads_envelope {k : Str} {hint : Fields} {cs : List Char} (h : Meets printable (.obj hint))
    (hchars : print compact (envelopeValue k hint) = .ofChars cs) :
    loads (.bytes (utf8 cs)) = .ok (envelopeValue k (dictOf (lastWinsFields hint))) := by
  have hversion : IsShort envelopeVersion := by decide
  have hprintable : Meets printable (envelopeValue k hint) :=
    (meets_envelopeValue fun _ => trivial).mpr ⟨⟨trivial, hversion⟩, ⟨trivial, trivial⟩, trivial, h⟩
  -- the text starts with a brace and a quotation mark, which shows its bytes to be UTF-8
  obtain ⟨rest, hrest⟩ : ∃ rest, cs = '{' :: '"' :: rest := by
    rw [envelopeValue, print_obj_cons, quote, List.cons_append] at hchars
    rcases cs with _ | ⟨a, _ | ⟨b, rest⟩⟩
    · cases hchars
    · cases hchars
    · obtain ⟨ha, htail⟩ := List.cons.inj hchars
      obtain ⟨hb, -⟩ := List.cons.inj htail
      exact ⟨rest, by rw [CodePoint.char.inj ha, CodePoint.char.inj hb]⟩
  have hdecoded : decodeBytes (utf8 cs) = some (.ofChars cs) := by
    rw [hrest]
    exact decode_utf8 (by decide) (by decide) (by decide) (by decide)
  rw [loads, hdecoded]
  show loadsText (.ofChars cs) = _
  rw [← hchars, loadsText_print hprintable, lastWins_envelopeValue]

/-- **What was encoded is decoded** as JSON makes it, where the cap of the reader leaves room for it. -/
theorem decode_encode {key hint : Obj} {maxBytes : ℤ} {bytes : List UInt8}
    (h : encode key hint maxBytes = .ok bytes) : ∃ k fields, key = .str k ∧ normalise hint = .ok (.obj fields)
      ∧ ∀ cap : ℤ, decode (.bytes bytes) cap = .ok (if cap < bytes.length then none else some (k, fields)) := by
  obtain ⟨k, kvs, fields, cs, rfl, hkey, rfl, hfields, hchars, rfl, -⟩ := encode_ok_iff.mp h
  have hjson : toJson (.dict kvs) = .ok (.obj fields) := by
    rw [toJson, hfields]
    rfl
  have hprintable := printable_toJson _ _ hjson
  have hstrict : Meets strict (.obj fields) := by
    have hnone := (congrArg Str.surrogates hchars).trans (Str.surrogates_ofChars cs)
    exact ((meets_envelopeValue fun _ => trivial).mp ((surrogates_print _).mp hnone)).2.2.2
  have hlast : lastWins (.obj fields) = .obj (dictOf (lastWinsFields fields)) := by rw [lastWins]
  -- a hint that was written without lone surrogates is read without them
  have hencodes : encodes (dictOf (lastWinsFields fields)) = .ok true := by
    rcases encodes_eq (dictOf (lastWinsFields fields)) with ⟨-, h⟩ | ⟨hnot, -⟩
    · exact h
    · rw [← hlast] at hnot
      exact absurd ⟨meets_lastWins (fun _ => trivial) _ hprintable,
        meets_lastWins (fun _ => trivial) _ hstrict⟩ hnot
  refine ⟨k, dictOf (lastWinsFields fields), rfl, ?_, fun cap => ?_⟩
  · rw [normalise, hjson, ← hlast]
    rfl
  · unfold decode
    show (if cap < ((utf8 cs).length : ℤ) then _ else _) = _
    by_cases hcap : cap < ((utf8 cs).length : ℤ)
    · rw [if_pos hcap, if_pos hcap]
    · have hdecoded : decodedKey [(vField, .int envelopeVersion), (keyField, .str k),
          (hintField, .obj (dictOf (lastWinsFields fields)))] = .ok (some k) := by
        show Except.ok (if keyProblem (.str k) = none then some k else none) = _
        rw [if_pos hkey]
      rw [if_neg hcap, if_neg hcap, loads_envelope hprintable hchars]
      show (decodedKey _ >>= fun key => decodedPair key (some (.obj (dictOf (lastWinsFields fields))))) = _
      rw [hdecoded]
      show (encodes _).map _ = _
      rw [hencodes]
      rfl

/-! ## What was decoded can be encoded -/

/-- **What the decoder takes** from an envelope of version 2: a valid key and a hint that has bytes, as it was
read. -/
theorem of_decode {raw : Raw} {maxBytes : ℤ} {key : Str} {hint : Fields} (hcurrent : IsCurrent raw)
    (h : decode raw maxBytes = .ok (some (key, hint))) :
    keyProblem (.str key) = none ∧ Meets printable (.obj hint)
      ∧ Meets strict (.obj hint) ∧ Meets parsed (.obj hint) := by
  obtain ⟨fields, hloads, hversion⟩ := hcurrent
  have hkey : decodedKey fields = .ok (match field keyField fields with
      | some (.str key) => if keyProblem (.str key) = none then some key else none
      | _ => none) := by
    unfold decodedKey
    rw [hversion]
    show (match field keyField fields with
      | some (.str key) => Except.ok (if keyProblem (.str key) = none then some key else none)
      | _ => Except.ok none) = _
    split <;> rfl
  unfold decode at h
  split at h
  · cases h
  rw [hloads] at h
  change (decodedKey fields >>= fun key => decodedPair key (field hintField fields)) = _ at h
  rw [hkey] at h
  change decodedPair _ (field hintField fields) = _ at h
  unfold decodedPair at h
  split at h
  · rename_i key' hint' hvalid hhint
    -- the decoder tries whether the hint has bytes
    rcases encodes_eq hint' with ⟨⟨hprintable, hstrict⟩, hencodes⟩ | ⟨-, hencodes⟩
    · rw [hencodes] at h
      obtain ⟨rfl, rfl⟩ := Prod.mk.inj (Option.some.inj (Except.ok.inj h))
      refine ⟨?_, hprintable, hstrict, meets_field (meets_loads hloads) hhint⟩
      split at hvalid
      · split at hvalid
        · rename_i hnone
          obtain rfl := Option.some.inj hvalid
          exact hnone
        · cases hvalid
      · cases hvalid
    · rw [hencodes] at h
      cases h
  · cases h

/-- **What the decoder takes from an envelope of version 2, the encoder takes again**, as it is. -/
theorem encode_decoded {raw : Raw} {maxBytes : ℤ} {key : Str} {hint : Fields} (hcurrent : IsCurrent raw)
    (h : decode raw maxBytes = .ok (some (key, hint))) : ∃ enough : ℤ, ∀ cap, enough ≤ cap →
      ∃ bytes, encode (.str key) (Value.obj hint).toObj cap = .ok bytes
        ∧ decode (.bytes bytes) cap = .ok (some (key, hint)) := by
  obtain ⟨hkey, hprintable, hstrict, hparsed⟩ := of_decode hcurrent h
  obtain ⟨k, hk, hsurrogates⟩ := of_keyProblem hkey
  obtain rfl := Obj.str.inj hk
  have hfields : toJsonFields (fieldsToObj hint) = .ok hint := by
    rw [Meets] at hprintable
    rcases toJson_fieldsToObj hint with ⟨-, h⟩ | ⟨hnot, -⟩
    · exact h
    · exact absurd hprintable.1 hnot
  have hnone : (print compact (envelopeValue key hint)).surrogates = [] :=
    (surrogates_print _).mpr ((meets_envelopeValue fun _ => trivial).mpr
      ⟨⟨rfl, trivial⟩, ⟨rfl, hsurrogates⟩, rfl, hstrict⟩)
  obtain ⟨cs, hchars⟩ := Option.isSome_iff_exists.mp ((Str.chars_isSome_iff _).mpr hnone)
  refine ⟨(utf8 cs).length, fun cap hcap => ?_⟩
  have hencode : encode (.str key) (Value.obj hint).toObj cap = .ok (utf8 cs) := by
    rw [Value.toObj]
    exact encode_ok_iff.mpr ⟨key, _, hint, cs, rfl, hkey, rfl, hfields, Str.eq_ofChars hchars, rfl, hcap⟩
  obtain ⟨k, fields, hk, hnormal, hdecode⟩ := decode_encode hencode
  obtain rfl := Obj.str.inj hk
  have hsame : fields = hint := by
    rw [normalise, Value.toObj, toJson, hfields] at hnormal
    change Except.ok (lastWins (.obj hint)) = _ at hnormal
    rw [lastWins_of_parsed _ hparsed] at hnormal
    exact (Value.obj.inj (Except.ok.inj hnormal)).symm
  refine ⟨_, hencode, ?_⟩
  rw [hdecode, if_neg (not_lt.mpr hcap), hsame]

/-- **The round trip of an envelope**: what was encoded is decoded as JSON makes it; the decoder never raises;
and what it takes from an envelope of version 2 survives being encoded and decoded again. -/
theorem envelope_round_trip :
    (∀ (key hint : Obj) (maxBytes : ℤ) (bytes : List UInt8), encode key hint maxBytes = .ok bytes →
      ∃ k fields, key = .str k ∧ normalise hint = .ok (.obj fields)
        ∧ decode (.bytes bytes) maxBytes = .ok (some (k, fields)))
    ∧ (∀ (raw : Raw) (maxBytes : ℤ), ∃ decoded, decode raw maxBytes = .ok decoded)
    ∧ ∀ (raw : Raw) (maxBytes : ℤ) (key : Str) (hint : Fields), IsCurrent raw →
      decode raw maxBytes = .ok (some (key, hint)) → ∃ enough : ℤ, ∀ cap, enough ≤ cap →
        ∃ bytes, encode (.str key) (Value.obj hint).toObj cap = .ok bytes
          ∧ decode (.bytes bytes) cap = .ok (some (key, hint)) := by
  refine ⟨fun key hint maxBytes bytes h => ?_, decode_total, fun raw maxBytes key hint => encode_decoded⟩
  obtain ⟨k, fields, hkey, hnormal, hdecode⟩ := decode_encode h
  obtain ⟨-, -, -, -, -, -, -, -, -, -, hsize⟩ := encode_ok_iff.mp h
  exact ⟨k, fields, hkey, hnormal, by rw [hdecode, if_neg (not_lt.mpr hsize)]⟩

/-- A hint with a tuple, and with two keys that become one string. -/
def collidingHint : Obj :=
  .dict [(.str (.ofChars ['a']), .tuple [.int 1, .none]), (.int 1, .bool true),
    (.str (.ofChars ['1']), .bool false)]

/-- Its envelope. -/
def collidingBytes : List UInt8 :=
  utf8 "\x7b\"v\":2,\"key\":\"k\",\"hint\":\x7b\"a\":[1,null],\"1\":true,\"1\":false\x7d\x7d".toList

/-- Two keys of a hint become one field, and the last one wins. -/
theorem envelope_round_trip_colliding : ∃ k fields, Obj.str (.ofChars ['k']) = .str k
    ∧ normalise collidingHint = .ok (.obj fields) ∧ decode (.bytes collidingBytes) 4096
      = .ok (some (k, fields)) :=
  envelope_round_trip.1 (.str (.ofChars ['k'])) collidingHint 4096 collidingBytes (by rfl)

end Jasil.Realtime
