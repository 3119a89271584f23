import Jasil.Jobs.Outbox
import Jasil.Text.JsonKeys

/-! # Payloads that are the same
A payload is stored in a JSON column and read back; `_check_same_event` compares it, with Python's `==`, with
a payload that has been through `json.dumps` and `json.loads`.

* **`Json.eq_symm`, `Json.eq_trans`**: Python's equality is an equivalence of JSON values.
* **`Json.same`**: equality of JSON values, for which 1 and 1.0 are one number or two; it is Python's where no
  Boolean meets a number (`Json.same_eq`).
* **`JsonColumn`**: what a database reads back. A text column reads what was written, `jsonb` another number
  for a large float. -/

namespace Jasil

namespace Json

/-! ## Python's equality -/

variable {v w : Json} {kvs kvs' : JsonObject}

/-- `None` equals itself only. -/
theorem eq_null_iff : eq .null w = true ↔ w = .null := by
  cases w <;> simp [eq, number]

/-- A string equals itself only. -/
theorem eq_str_iff {s : String} : eq (.str s) w = true ↔ w = .str s := by
  cases w with
  | str s' => simp only [eq, beq_iff_eq, str.injEq, eq_comm (a := s)]
  | _ => simp [eq, number]

/-- A number equals what is the same number, a Boolean included. -/
theorem eq_iff_of_number {q : ℚ} (h : v.number = some q) : eq v w = true ↔ w.number = some q := by
  cases v with
  | null | str _ | arr _ | obj _ => simp [number] at h
  | bool _ | int _ | float _ =>
    obtain rfl := Option.some.inj h
    cases w with
    | null | str _ | arr _ | obj _ => simp [eq, number]
    | bool _ | int _ | float _ =>
      simp only [eq, number, beq_iff_eq, Option.some.injEq]
      exact eq_comm

/-- A list equals a list of equal items. -/
theorem eq_arr_iff {xs : List Json} : eq (.arr xs) w = true ↔ ∃ ys, w = .arr ys ∧ eqItems xs ys = true := by
  cases w <;> simp [eq, number]

/-- An object equals an object of as many fields, each with its equal. -/
theorem eq_obj_iff : eq (.obj kvs) w = true
    ↔ ∃ kvs', w = .obj kvs' ∧ kvs.length = kvs'.length ∧ eqFields kvs kvs' = true := by
  cases w <;> simp [eq, number]

/-- Every field of an equal object is found. -/
theorem eqFields_iff : eqFields kvs kvs' = true
    ↔ ∀ p ∈ kvs, ∃ w, Jobs.dictGet kvs' p.1 = some w ∧ eq p.2 w = true := by
  induction kvs with
  | nil => exact iff_of_true (by rw [eqFields]) (by rintro _ ⟨⟩)
  | cons kv kvs ih =>
    rw [eqFields, Bool.and_eq_true, ih, List.forall_mem_cons]
    refine and_congr_left fun _ => ?_
    cases Jobs.dictGet kvs' kv.1 with
    | none => exact iff_of_false Bool.false_ne_true (by rintro ⟨_, ⟨⟩, -⟩)
    | some w =>
      constructor
      · exact fun h => ⟨w, rfl, h⟩
      · rintro ⟨_, ⟨⟩, h⟩
        exact h

mutual

/-- **Python's equality is transitive.** -/
theorem eq_trans : ∀ u v w : Json, eq u v = true → eq v w = true → eq u w = true
  | .null, v, w, h, h' => by
    rw [eq_null_iff] at h
    exact h ▸ h'
  | .str s, v, w, h, h' => by
    rw [eq_str_iff] at h
    exact h ▸ h'
  | .bool b, v, w, h, h' => (eq_iff_of_number rfl).mpr ((eq_iff_of_number ((eq_iff_of_number rfl).mp h)).mp h')
  | .int i, v, w, h, h' => (eq_iff_of_number rfl).mpr ((eq_iff_of_number ((eq_iff_of_number rfl).mp h)).mp h')
  | .float q, v, w, h, h' => (eq_iff_of_number rfl).mpr ((eq_iff_of_number ((eq_iff_of_number rfl).mp h)).mp h')
  | .arr xs, v, w, h, h' => by
    obtain ⟨ys, rfl, hys⟩ := eq_arr_iff.mp h
    obtain ⟨zs, rfl, hzs⟩ := eq_arr_iff.mp h'
    exact eq_arr_iff.mpr ⟨zs, rfl, eqItems_trans xs ys zs hys hzs⟩
  | .obj kvs, v, w, h, h' => by
    obtain ⟨kvs', rfl, hlength, hfields⟩ := eq_obj_iff.mp h
    obtain ⟨kvs'', rfl, hlength', hfields'⟩ := eq_obj_iff.mp h'
    exact eq_obj_iff.mpr ⟨kvs'', rfl, hlength.trans hlength', eqFields_trans kvs kvs' kvs'' hfields hfields'⟩

/-- The same item by item. -/
theorem eqItems_trans : ∀ xs ys zs : List Json, eqItems xs ys = true → eqItems ys zs = true
    → eqItems xs zs = true
  | [], [], zs, _, h' => h'
  | x :: xs, y :: ys, z :: zs, h, h' => by
    rw [eqItems, Bool.and_eq_true] at h h' ⊢
    exact ⟨eq_trans x y z h.1 h'.1, eqItems_trans xs ys zs h.2 h'.2⟩
  | [], _ :: _, _, h, _ => by simp [eqItems] at h
  | _ :: _, [], _, h, _ => by simp [eqItems] at h
  | _ :: _, _ :: _, [], _, h' => by simp [eqItems] at h'

/-- The same field by field. -/
theorem eqFields_trans : ∀ kvs kvs' kvs'' : JsonObject,
    eqFields kvs kvs' = true → eqFields kvs' kvs'' = true → eqFields kvs kvs'' = true
  | [], _, _, _, _ => by rw [eqFields]
  | (k, v) :: kvs, kvs', kvs'', h, h' => by
    have hrest := eqFields_trans kvs kvs' kvs''
    rw [eqFields, Bool.and_eq_true] at h ⊢
    refine ⟨?_, hrest h.2 h'⟩
    cases hfound : Jobs.dictGet kvs' k with
    | none =>
      rw [hfound] at h
      exact absurd h.1 Bool.false_ne_true
    | some v' =>
      rw [hfound] at h
      obtain ⟨w, hw, heq⟩ := eqFields_iff.mp h' (k, v') (Jobs.mem_of_dictGet hfound)
      rw [hw]
      exact eq_trans v v' w h.1 heq

end

mutual

/-- **Python's equality is symmetric**, for objects whose keys are distinct. -/
theorem eq_symm : ∀ v w : Json, WellFormed v → WellFormed w → eq v w = true → eq w v = true
  | .null, w, _, _, h => by
    rw [eq_null_iff] at h
    exact h ▸ eq_null_iff.mpr rfl
  | .str s, w, _, _, h => by
    rw [eq_str_iff] at h
    exact h ▸ eq_str_iff.mpr rfl
  | .bool b, w, _, _, h => (eq_iff_of_number ((eq_iff_of_number rfl).mp h)).mpr rfl
  | .int i, w, _, _, h => (eq_iff_of_number ((eq_iff_of_number rfl).mp h)).mpr rfl
  | .float q, w, _, _, h => (eq_iff_of_number ((eq_iff_of_number rfl).mp h)).mpr rfl
  | .arr xs, w, hv, hw, h => by
    obtain ⟨ys, rfl, hys⟩ := eq_arr_iff.mp h
    rw [WellFormed] at hv hw
    exact eq_arr_iff.mpr ⟨xs, rfl, eqItems_symm xs ys hv hw hys⟩
  | .obj kvs, w, hv, hw, h => by
    obtain ⟨kvs', rfl, hlength, hfields⟩ := eq_obj_iff.mp h
    rw [WellFormed] at hv hw
    refine eq_obj_iff.mpr ⟨kvs, rfl, hlength.symm, eqFields_iff.mpr ?_⟩
    -- the keys of the one are those of the other, since there are as many
    have hkeys : (kvs.map Prod.fst).Perm (kvs'.map Prod.fst) := by
      refine (hv.2.subperm fun k hk => ?_).perm_of_length_le (by simpa using hlength.ge)
      obtain ⟨p, hp, rfl⟩ := List.mem_map.mp hk
      obtain ⟨w, hw, -⟩ := eqFields_iff.mp hfields p hp
      exact List.mem_map.mpr ⟨(p.1, w), Jobs.mem_of_dictGet hw, rfl⟩
    rintro ⟨k, w⟩ hmem
    obtain ⟨⟨_, v⟩, hp, rfl⟩ := List.mem_map.mp (hkeys.mem_iff.mpr (List.mem_map_of_mem hmem))
    obtain ⟨w', hw', heq⟩ := eqFields_iff.mp hfields _ hp
    obtain rfl := Option.some.inj ((Jobs.dictGet_of_mem hw.2 hmem).symm.trans hw')
    exact ⟨v, Jobs.dictGet_of_mem hv.2 hp, eqFields_symm kvs hv.1 _ hp w (mem_fieldsWellFormed hw.1 hmem) heq⟩

/-- The same item by item. -/
theorem eqItems_symm : ∀ xs ys : List Json, ItemsWellFormed xs → ItemsWellFormed ys →
    eqItems xs ys = true → eqItems ys xs = true
  | [], [], _, _, h => h
  | x :: xs, y :: ys, hx, hy, h => by
    rw [ItemsWellFormed] at hx hy
    rw [eqItems, Bool.and_eq_true] at h ⊢
    exact ⟨eq_symm x y hx.1 hy.1 h.1, eqItems_symm xs ys hx.2 hy.2 h.2⟩
  | [], _ :: _, _, _, h => by simp [eqItems] at h
  | _ :: _, [], _, _, h => by simp [eqItems] at h

/-- The same field by field. -/
theorem eqFields_symm : ∀ kvs : List (String × Json), FieldsWellFormed kvs → ∀ p ∈ kvs, ∀ w : Json,
    WellFormed w →
    eq p.2 w = true → eq w p.2 = true
  | [], _, _, hp, _, _, _ => nomatch hp
  | (k, v) :: kvs, hwf, p, hp, w, hw, h => by
    rw [FieldsWellFormed] at hwf
    rcases List.mem_cons.mp hp with rfl | hp
    · exact eq_symm v w hwf.1 hw h
    · exact eqFields_symm kvs hwf.2 p hp w hw h

end

/-! ## Equality as JSON -/

mutual

/-- Equality as JSON; `strict` when an integer and a float are never the same number. -/
def same (strict : Bool) : Json → Json → Bool
  | .null, .null => true
  | .bool b, .bool b' => b == b'
  | .int i, .int i' => i == i'
  | .float q, .float q' => q == q'
  | .int i, .float q => !strict && (i : ℚ) == q
  | .float q, .int i => !strict && q == i
  | .str s, .str s' => s == s'
  | .arr xs, .arr ys => sameItems strict xs ys
  | .obj kvs, .obj kvs' => kvs.length == kvs'.length && sameFields strict kvs kvs'
  | _, _ => false

/-- Lists are the same item by item. -/
def sameItems (strict : Bool) : List Json → List Json → Bool
  | [], [] => true
  | x :: xs, y :: ys => same strict x y && sameItems strict xs ys
  | _, _ => false

/-- Every field of the first object is the same in the second. -/
def sameFields (strict : Bool) : List (String × Json) → JsonObject → Bool
  | [], _ => true
  | (k, v) :: kvs, kvs' =>
    (match Jobs.dictGet kvs' k with
      | some w => same strict v w
      | none => false) && sameFields strict kvs kvs'

end

mutual

/-- At no place of both values a Boolean faces a number, nor, if that is to matter, an integer a float. -/
def kindred (strict : Bool) : Json → Json → Bool
  | .bool _, .bool _ => true
  | .bool _, .int _ | .bool _, .float _ | .int _, .bool _ | .float _, .bool _ => false
  | .int _, .float _ | .float _, .int _ => !strict
  | .arr xs, .arr ys => kindredItems strict xs ys
  | .obj kvs, .obj kvs' => kindredFields strict kvs kvs'
  | _, _ => true

/-- Lists are of one kind item by item. -/
def kindredItems (strict : Bool) : List Json → List Json → Bool
  | x :: xs, y :: ys => kindred strict x y && kindredItems strict xs ys
  | _, _ => true

/-- The fields that both objects have. -/
def kindredFields (strict : Bool) : List (String × Json) → JsonObject → Bool
  | [], _ => true
  | (k, v) :: kvs, kvs' =>
    (match Jobs.dictGet kvs' k with
      | some w => kindred strict v w
      | none => true) && kindredFields strict kvs kvs'

end

mutual

/-- **Equal as JSON**: equal, and of the same kinds. -/
theorem same_eq (strict : Bool) : ∀ v w : Json, same strict v w = (eq v w && kindred strict v w)
  | .null, w => by cases w <;> simp [same, eq, kindred, number]
  | .bool b, .bool b' => by cases b <;> cases b' <;> simp [same, eq, kindred, number]
  | .bool _, .null | .bool _, .int _ | .bool _, .float _ | .bool _, .str _ | .bool _, .arr _ | .bool _,
    .obj _ => by
    simp [same, eq, kindred, number]
  | .int _, w => by cases w <;> simp [same, eq, kindred, number, Bool.and_comm]
  | .float _, w => by cases w <;> simp [same, eq, kindred, number, Bool.and_comm]
  | .str _, w => by cases w <;> simp [same, eq, kindred, number]
  | .arr xs, .arr ys => by
    rw [same, eq, kindred, sameItems_eq]
  | .arr _, .null | .arr _, .bool _ | .arr _, .int _ | .arr _, .float _ | .arr _, .str _ | .arr _, .obj _ => by
    simp [same, eq, number]
  | .obj kvs, .obj kvs' => by
    rw [same, eq, kindred, sameFields_eq, Bool.and_assoc]
  | .obj _, .null | .obj _, .bool _ | .obj _, .int _ | .obj _, .float _ | .obj _, .str _ | .obj _, .arr _ => by
    simp [same, eq, number]

/-- The same item by item. -/
theorem sameItems_eq (strict : Bool) :
    ∀ xs ys : List Json, sameItems strict xs ys = (eqItems xs ys && kindredItems strict xs ys)
  | [], ys => by cases ys <;> simp [sameItems, eqItems, kindredItems]
  | _ :: _, [] => by simp [sameItems, eqItems]
  | x :: xs, y :: ys => by
    rw [sameItems, eqItems, kindredItems, same_eq, sameItems_eq]
    ac_rfl

/-- The same field by field. -/
theorem sameFields_eq (strict : Bool) :
    ∀ (kvs : List (String × Json)) (kvs' : JsonObject),
      sameFields strict kvs kvs' = (eqFields kvs kvs' && kindredFields strict kvs kvs')
  | [], _ => by simp [sameFields, eqFields, kindredFields]
  | (k, v) :: kvs, kvs' => by
    rw [sameFields, eqFields, kindredFields, sameFields_eq]
    cases Jobs.dictGet kvs' k with
    | none => simp
    | some w =>
      dsimp only
      rw [same_eq]
      ac_rfl

end

/-! ## Numbers as decimals -/

/-- What `jsonb` reads back of a float: one that is written without a point, as those from `10 ^ 16` on are,
is an integer then. -/
def jsonbFloat (q : ℚ) : Json :=
  if |q| < 10 ^ 16 then .float q
  else (shortest |q|).elim (.float q) fun (m, s) =>
    .int (if q < 0 then -(m * 10 ^ s.toNat) else m * 10 ^ s.toNat)

mutual

/-- What `jsonb` reads back of a value. -/
def jsonb : Json → Json
  | .float q => jsonbFloat q
  | .arr xs => .arr (jsonbItems xs)
  | .obj kvs => .obj (jsonbFields kvs)
  | v => v

/-- The items of a list, as JSONB keeps them. -/
def jsonbItems : List Json → List Json
  | [] => []
  | x :: xs => jsonb x :: jsonbItems xs

/-- The fields of an object, as JSONB keeps them. -/
def jsonbFields : List (String × Json) → JsonObject
  | [] => []
  | (k, v) :: kvs => (k, jsonb v) :: jsonbFields kvs

end

/-- The keys are read back as they are. -/
theorem map_fst_jsonbFields (kvs : List (String × Json)) :
    (jsonbFields kvs).map Prod.fst = kvs.map Prod.fst := by
  induction kvs with
  | nil => rw [jsonbFields]
  | cons kv kvs ih => rw [jsonbFields, List.map_cons, List.map_cons, ih]

/-- A number that is read back is a number. -/
theorem wellFormed_jsonbFloat {q : ℚ} (h : IsDouble q) : WellFormed (jsonbFloat q) := by
  unfold jsonbFloat
  split
  · rw [WellFormed]
    exact h
  · cases shortest |q| with
    | none =>
      rw [Option.elim_none, WellFormed]
      exact h
    | some ms => simp [WellFormed]

mutual

/-- What is read back is JSON. -/
theorem wellFormed_jsonb : ∀ v : Json, WellFormed v → WellFormed (jsonb v)
  | .float q, h => by
    rw [WellFormed] at h
    rw [jsonb]
    exact wellFormed_jsonbFloat h
  | .arr xs, h => by
    rw [WellFormed] at h
    rw [jsonb, WellFormed]
    exact wellFormed_jsonbItems xs h
  | .obj kvs, h => by
    rw [WellFormed] at h
    rw [jsonb, WellFormed, map_fst_jsonbFields]
    exact ⟨wellFormed_jsonbFields kvs h.1, h.2⟩
  | .null, _ | .bool _, _ | .int _, _ | .str _, _ => by simp [jsonb, WellFormed]

/-- The same for the items of a list. -/
theorem wellFormed_jsonbItems : ∀ xs : List Json, ItemsWellFormed xs → ItemsWellFormed (jsonbItems xs)
  | [], h => by rwa [jsonbItems]
  | x :: xs, h => by
    rw [ItemsWellFormed] at h
    rw [jsonbItems, ItemsWellFormed]
    exact ⟨wellFormed_jsonb x h.1, wellFormed_jsonbItems xs h.2⟩

/-- The same for the fields of an object. -/
theorem wellFormed_jsonbFields : ∀ kvs : List (String × Json),
    FieldsWellFormed kvs → FieldsWellFormed (jsonbFields kvs)
  | [], h => by rwa [jsonbFields]
  | (k, v) :: kvs, h => by
    rw [FieldsWellFormed] at h
    rw [jsonbFields, FieldsWellFormed]
    exact ⟨wellFormed_jsonb v h.1, wellFormed_jsonbFields kvs h.2⟩

end

end Json

namespace Jobs

/-! ## Columns -/

/-- `json.loads(json.dumps(payload))`. -/
def jsonRoundTrip (payload : JsonObject) : JsonObject :=
  match Json.loads (Json.obj payload).print with
  | some (.obj kvs) => kvs
  | _ => []

/-- A payload of JSON comes back as it is. -/
theorem jsonRoundTrip_eq {payload : JsonObject} (h : (Json.obj payload).WellFormed) :
    jsonRoundTrip payload = payload := by
  rw [jsonRoundTrip, Json.loads_print h]

/-- **A JSON column of a database**: what is read back of a payload that was written. It is JSON again. -/
structure JsonColumn where
  readBack : JsonObject → JsonObject
  wellFormed : ∀ payload, (Json.obj payload).WellFormed → (Json.obj (readBack payload)).WellFormed

/-- A row of the outbox, as it is read back. -/
def JsonColumn.row (column : JsonColumn) (row : EventOutbox) : EventOutbox :=
  { row with payload := column.readBack row.payload }

/-- The column of SQLite, which keeps the text. -/
def textColumn : JsonColumn where
  readBack := jsonRoundTrip
  wellFormed _ h := (jsonRoundTrip_eq h).symm ▸ h

/-- The column of PostgreSQL, whose numbers are decimals. -/
def jsonbColumn : JsonColumn where
  readBack := Json.jsonbFields
  wellFormed payload h := by
    rw [Json.WellFormed] at h ⊢
    exact ⟨Json.wellFormed_jsonbFields payload h.1, (Json.map_fst_jsonbFields payload).symm ▸ h.2⟩

-- The double that is written as 1e23 is not the integer that is read back.
example : Json.eq (.obj (jsonbColumn.readBack [("x", .float 99999999999999991611392)]))
    (.obj [("x", .float 99999999999999991611392)]) = false := by decide +kernel

end Jobs

end Jasil
