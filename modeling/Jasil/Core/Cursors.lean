import Mathlib.Data.Bool.AllAny
import Jasil.Core.IsoFormat
import Jasil.Text.Base64
import Jasil.Text.Json

/-! # Pagination cursors
A cursor is the sort key of the last row of a page, a timestamp and an id, as a JSON array in URL-safe
Base64.

* **`encodeCursor`**, **`decodeCursor`**, the latter defensive, since a cursor comes back from a request.
* **`decodeCursor_encodeCursor`**: a cursor keeps the timestamp to the microsecond, and the id. -/

namespace Jasil

open JsonString

/-! ## Encoding and decoding -/

/-- `_MAX_CURSOR_LENGTH`. -/
def maxCursorLength : ℕ := 512

/-- `json.dumps([moment, identifier], separators=(",", ":"))`. -/
def cursorPayload (moment identifier : String) : List Char :=
  (Json.arr [.str moment, .str identifier]).print

/-- `encode_cursor`. -/
def encodeCursor (moment : Instant) (identifier : String) : String :=
  String.ofList (Base64.strip (Base64.encode (utf8 (cursorPayload (isoformat moment) identifier))))

/-- A list of two strings; any other value is none this module produced. -/
def stringPair : Json → Option (String × String)
  | .arr [.str moment, .str identifier] => some (moment, identifier)
  | _ => none

/-- `decode_cursor`: `name` is what the cursor pages through. -/
def decodeCursor (cursor name : String) : Except String (Instant × String) :=
  let decoded := do
    if cursor = "" ∨ maxCursorLength < cursor.length then none
    let bytes ← Base64.decode (Base64.pad cursor.toList)
    let text ← ofUtf8 bytes
    let (moment, identifier) ← Json.loads text >>= stringPair
    let moment ← fromisoformat moment
    if identifier = "" then none
    some (moment, identifier)
  match decoded with
  | some key => .ok key
  | none => .error ("invalid " ++ name ++ " cursor")

/-! ## What a cursor keeps -/

/-- The ids of the tables that are paged through: text of at most 36 characters, none of them beyond the
first 65536. A minted id is the text of a UUID. -/
structure Identifier (id : String) : Prop where
  ne_empty : id ≠ ""
  length_le : id.length ≤ 36
  basic : ∀ c ∈ id.toList, c.toNat < 0x10000

instance (id : String) : Decidable (Identifier id) :=
  have : Decidable (∀ c ∈ id.toList, c.toNat < 0x10000) := List.decidableBAll _ _
  decidable_of_iff (id ≠ "" ∧ id.length ≤ 36 ∧ ∀ c ∈ id.toList, c.toNat < 0x10000)
    ⟨fun h => ⟨h.1, h.2.1, h.2.2⟩, fun h => ⟨h.1, h.2, h.3⟩⟩

/-- The signs of a timestamp. -/
def TimestampSign (c : Char) : Prop :=
  c.isDigit = true ∨ c = '-' ∨ c = 'T' ∨ c = ':' ∨ c = '.' ∨ c = '+'

instance (c : Char) : Decidable (TimestampSign c) := inferInstanceAs (Decidable (_ ∨ _))

/-- A sign of a timestamp is printed as it is. -/
theorem TimestampSign.plain {c : Char} (h : TimestampSign c) :
    c ≠ '"' ∧ c ≠ '\\' ∧ ' ' ≤ c ∧ c ≤ '~' := by
  rcases h with h | rfl | rfl | rfl | rfl | rfl
  · have hlow : 48 ≤ c.toNat ∧ c.toNat ≤ 57 := by
      simpa [Char.isDigit, UInt32.le_iff_toNat_le] using h
    refine ⟨?_, ?_, show 32 ≤ c.toNat by omega, show c.toNat ≤ 126 by omega⟩
    · rintro rfl
      exact absurd hlow.1 (by decide)
    · rintro rfl
      exact absurd hlow.2 (by decide)
  all_goals decide

/-- A number consists of signs of a timestamp. -/
theorem TimestampSign.of_mem_zeroPadded {width : ℕ} {n : ℤ} {c : Char}
    (h : c ∈ (zeroPadded width n).toList) : TimestampSign c := by
  rw [toList_zeroPadded] at h
  rcases List.mem_append.mp h with h | h
  · rw [List.eq_of_mem_replicate h]
    exact .inl (by decide)
  · exact .inl (Nat.isDigit_of_mem_toDigits (by decide) (by decide) h)

/-- So do two texts that do. -/
theorem signs_append {s t : String} (hs : ∀ c ∈ s.toList, TimestampSign c)
    (ht : ∀ c ∈ t.toList, TimestampSign c) : ∀ c ∈ (s ++ t).toList, TimestampSign c := by
  rw [String.toList_append]
  exact List.forall_mem_append.mpr ⟨hs, ht⟩

/-- So does a date with its time. -/
theorem signs_isoSeconds (t : Instant) : ∀ c ∈ (isoSeconds t).toList, TimestampSign c := by
  have hdash : ∀ c ∈ "-".toList, TimestampSign c := List.all_iff_forall_prop.mp (by decide)
  have hsep : ∀ c ∈ "T".toList, TimestampSign c := List.all_iff_forall_prop.mp (by decide)
  have hcolon : ∀ c ∈ ":".toList, TimestampSign c := List.all_iff_forall_prop.mp (by decide)
  have hnum (width : ℕ) (n : ℤ) : ∀ c ∈ (zeroPadded width n).toList, TimestampSign c :=
    fun _ => .of_mem_zeroPadded
  unfold isoSeconds
  exact signs_append (signs_append (signs_append (signs_append (signs_append (signs_append
    (signs_append (signs_append (signs_append (signs_append (hnum 4 _) hdash) (hnum 2 _)) hdash)
      (hnum 2 _)) hsep) (hnum 2 _)) hcolon) (hnum 2 _)) hcolon) (hnum 2 _)

/-- So does a timestamp. -/
theorem signs_isoformat (t : Instant) : ∀ c ∈ (isoformat t).toList, TimestampSign c := by
  have hzone : ∀ c ∈ "+00:00".toList, TimestampSign c := List.all_iff_forall_prop.mp (by decide)
  have hdot : ∀ c ∈ ".".toList, TimestampSign c := List.all_iff_forall_prop.mp (by decide)
  rw [isoformat_eq]
  refine signs_append (signs_append (signs_isoSeconds t) ?_) hzone
  split
  · exact fun _ hc => nomatch hc
  · exact signs_append hdot fun _ => .of_mem_zeroPadded

/-- The timestamp of a `datetime` is at most 32 characters. -/
theorem length_isoformat_le {t : ℤ} (h : Representable t) : (isoformat t).toList.length ≤ 32 := by
  have hseconds : (isoSeconds t).toList.length = 19 := by
    have hmin : (-62135596800000000 : ℤ) ≤ t := h.1
    have hmax : (253402300799999999 : ℤ) ≥ t := h.2
    obtain ⟨⟨hy0, hy1⟩, ⟨hm0, hm1⟩, hd0, hd1⟩ :=
      civilFromDays_bounds (t / 86400000000) (by omega) (by omega)
    have htwo {n : ℤ} (h0 : 0 ≤ n) (h1 : n < 100) : (zeroPadded 2 n).toList.length = 2 :=
      length_zeroPadded (by decide) h0 (by omega)
    have hfour : (zeroPadded 4 (civilFromDays (t / 86400000000)).1).toList.length = 4 :=
      length_zeroPadded (by decide) (by omega) (by omega)
    have hdash : "-".toList.length = 1 := rfl
    have hsep : "T".toList.length = 1 := rfl
    have hcolon : ":".toList.length = 1 := rfl
    unfold isoSeconds
    generalize civilFromDays (t / 86400000000) = date at *
    obtain ⟨year, month, day⟩ := date
    dsimp only at hy0 hy1 hm0 hm1 hd0 hd1 hfour
    simp only [String.toList_append, List.length_append, hdash, hsep, hcolon]
    rw [hfour, htwo (by omega) (by omega), htwo (by omega) (by omega), htwo (by omega) (by omega),
      htwo (by omega) (by omega), htwo (by omega) (by omega)]
  have hzone : "+00:00".toList.length = 6 := rfl
  have hdot : ".".toList.length = 1 := rfl
  rw [isoformat_eq]
  split
  · simp only [String.toList_append, List.length_append, hseconds, hzone]
    decide
  · have hsix : (zeroPadded 6 (t % 86400000000 % 1000000)).toList.length = 6 :=
      length_zeroPadded (by decide) (by omega) (by omega)
    simp only [String.toList_append, List.length_append, hseconds, hzone, hdot, hsix]
    decide

/-- Base64 makes four signs of three bytes. -/
theorem length_encode_le (bytes : List UInt8) :
    (Base64.encode bytes).length ≤ (bytes.length + 2) / 3 * 4 := by
  induction bytes using Base64.encode.induct with
  | case1 a b c rest ih =>
    rw [Base64.encode]
    simp only [List.length_cons]
    omega
  | case2 a b => simp [Base64.encode]
  | case3 a => simp [Base64.encode]
  | case4 => simp [Base64.encode]

/-- The parts of a cursor's payload. -/
theorem cursorPayload_eq (moment identifier : String) :
    cursorPayload moment identifier
      = '[' :: (quote moment.toList ++ ',' :: (quote identifier.toList ++ [']'])) := by
  rw [cursorPayload]
  simp only [Json.print, Json.printItems]

/-- A payload is ASCII. -/
theorem ascii_cursorPayload (moment identifier : String) :
    ∀ c ∈ cursorPayload moment identifier, c.toNat < 128 := by
  have hb : ∀ c ∈ ['[', ',', ']'], c.toNat < 128 := List.all_iff_forall_prop.mp (by decide)
  intro c hc
  rw [cursorPayload_eq] at hc
  simp only [List.mem_cons, List.mem_append, List.not_mem_nil, or_false] at hc
  rcases hc with rfl | hc | rfl | hc | rfl
  · exact hb _ (by simp)
  · exact ascii_quote _ c hc
  · exact hb _ (by simp)
  · exact ascii_quote _ c hc
  · exact hb _ (by simp)

/-- A cursor is within the length a cursor may have. -/
theorem length_encodeCursor_le {t : ℤ} {id : String} (ht : Representable t) (hid : Identifier id) :
    (encodeCursor t id).length ≤ maxCursorLength := by
  have hiso := length_isoformat_le ht
  have hesc : (escape id.toList).length ≤ 6 * 36 :=
    le_trans (length_escape_le hid.basic) (Nat.mul_le_mul_left 6 hid.length_le)
  have hlen : (cursorPayload (isoformat t) id).length ≤ 255 := by
    simp only [cursorPayload_eq, quote, escape_plain fun c hc => (signs_isoformat t c hc).plain,
      List.length_cons, List.length_append, List.length_nil]
    omega
  have hencode := length_encode_le (utf8 (cursorPayload (isoformat t) id))
  rw [length_utf8 (ascii_cursorPayload _ _)] at hencode
  have hstrip := (List.rdropWhile_prefix (p := fun c => decide (c = '='))
    (l := Base64.encode (utf8 (cursorPayload (isoformat t) id)))).length_le
  rw [encodeCursor, String.length_ofList, maxCursorLength]
  rw [Base64.strip]
  omega

/-- A payload is read back. -/
theorem loads_cursorPayload (moment identifier : String) :
    (Json.loads (cursorPayload moment identifier)).bind stringPair = some (moment, identifier) := by
  rw [cursorPayload, Json.loads_print (by simp [Json.WellFormed, Json.ItemsWellFormed])]
  rfl

/-- **A cursor keeps the sort key**: the timestamp to the microsecond, and the id. -/
theorem decodeCursor_encodeCursor {t : ℤ} {id : String} (ht : Representable t)
    (hid : Identifier id) (name : String) :
    decodeCursor (encodeCursor t id) name = .ok (t, id) := by
  have hlen := length_encodeCursor_le ht hid
  have hbytes : Base64.decode (Base64.pad (encodeCursor t id).toList)
      = some (utf8 (cursorPayload (isoformat t) id)) := by
    rw [encodeCursor, String.toList_ofList, Base64.pad_strip_encode, Base64.decode_encode]
  have hne : encodeCursor t id ≠ "" := by
    intro hempty
    rw [hempty] at hbytes
    have hnil : utf8 (cursorPayload (isoformat t) id) = [] := Option.some.inj hbytes.symm
    have hzero := length_utf8 (ascii_cursorPayload (isoformat t) id)
    rw [hnil] at hzero
    exact nomatch hzero
  have hguard : ¬(encodeCursor t id = "" ∨ maxCursorLength < (encodeCursor t id).length) :=
    not_or.mpr ⟨hne, not_lt.mpr hlen⟩
  simp only [decodeCursor, if_neg hguard, hbytes, ofUtf8_utf8, loads_cursorPayload,
    fromisoformat_isoformat ht, if_neg hid.ne_empty, Option.bind_eq_bind, Option.bind_some]

end Jasil
