import Mathlib.Data.Prod.Lex
import Jasil.Core.Cursors
import Jasil.Paging.Keyset

/-! # Listings in pages
Every listing of the library is ordered by a timestamp and then by an id, newest first, and is read one
page at a time: `readPage` is what they share, over the rows that match. How a database compares two ids
is its collation, which `collate` maps into some linear order. -/

namespace Jasil

open Keyset

variable {ρ κ : Type*} [LinearOrder κ] (collate : String ↪ κ) (moment : ρ → Instant) (identifier : ρ → String)

/-- What a listing is ordered by. -/
def listingKey (r : ρ) : Instant ×ₗ κ := toLex (moment r, collate (identifier r))

/-- One page of the rows that match; `name` is what is paged through. -/
def readPage (name : String) (limit : ℕ) (rows : List ρ) (cursor : Option String) :
    Except String (Page ρ String) := do
  let rows ← match cursor with
    | none => .ok rows
    | some cursor =>
      (decodeCursor cursor name).map fun (at_, id) =>
        rows.filter fun r =>
          moment r < at_ ∨ moment r = at_ ∧ collate (identifier r) < collate id
  let found := (newestFirst (listingKey collate moment identifier) rows).take (limit + 1)
  let entries := found.take limit
  .ok ⟨entries, if limit < found.length then
    entries.getLast?.map fun r => encodeCursor (moment r) (identifier r) else none⟩

variable {collate moment identifier}

/-- The comparison of a query is the one it is ordered by. -/
theorem listingKey_lt_iff {r s : ρ} :
    listingKey collate moment identifier r < listingKey collate moment identifier s
      ↔ moment r < moment s
        ∨ moment r = moment s ∧ collate (identifier r) < collate (identifier s) := by
  rw [listingKey, listingKey, Prod.Lex.toLex_lt_toLex]

/-- Without a cursor a listing begins with its first page. -/
theorem readPage_none (name : String) (limit : ℕ) (rows : List ρ) :
    readPage collate moment identifier name limit rows none
      = .ok (pageOf (listingKey collate moment identifier)
          (fun r => encodeCursor (moment r) (identifier r)) limit rows none) := by
  have hall : rows.filter (After (listingKey collate moment identifier) none ·) = rows :=
    List.filter_eq_self.mpr fun r _ => decide_eq_true fun _ h => nomatch h
  rw [pageOf, rest, hall]
  rfl

/-- The cursor of a row asks for the rows that come after it. -/
theorem readPage_encodeCursor (name : String) (limit : ℕ) (rows : List ρ) {r : ρ}
    (hmoment : Representable (moment r)) (hid : Identifier (identifier r)) :
    readPage collate moment identifier name limit rows
        (some (encodeCursor (moment r) (identifier r)))
      = .ok (pageOf (listingKey collate moment identifier)
          (fun r => encodeCursor (moment r) (identifier r)) limit rows
          (some (listingKey collate moment identifier r))) := by
  have hfilter : (rows.filter fun s => decide (moment s < moment r
        ∨ moment s = moment r ∧ collate (identifier s) < collate (identifier r)))
      = rows.filter (After (listingKey collate moment identifier)
          (some (listingKey collate moment identifier r)) ·) := by
    apply List.filter_congr
    intro s _
    rw [decide_eq_decide, After, ← listingKey_lt_iff]
    simp
  rw [pageOf, rest, ← hfilter, readPage]
  simp only [decodeCursor_encodeCursor hmoment hid, Except.map]
  rfl

/-- **A listing of the library is a keyset listing**, over rows whose keys are distinct and stay. -/
theorem listing_readPage (name : String) {limit : ℕ} (hlimit : 0 < limit) {rows : ℕ → List ρ}
    (hvalid : ∀ k, ∀ r ∈ rows k, Representable (moment r) ∧ Identifier (identifier r))
    (hdistinct : ∀ k, ((rows k).map fun r => (moment r, identifier r)).Nodup)
    (hkept : ∀ k, ∀ r ∈ rows k, ∃ r' ∈ rows (k + 1),
      moment r' = moment r ∧ identifier r' = identifier r) :
    Listing (listingKey collate moment identifier)
      (fun r => encodeCursor (moment r) (identifier r)) limit
      (fun k cursor => readPage collate moment identifier name limit (rows k) cursor) rows where
  limit_pos := hlimit
  first := readPage_none name limit (rows 0)
  next j k r hr := readPage_encodeCursor name limit (rows k) (hvalid j r hr).1 (hvalid j r hr).2
  distinct k := by
    have hinj : Function.Injective fun p : Instant × String => toLex (p.1, collate p.2) := by
      rintro ⟨t, i⟩ ⟨u, j⟩ h
      obtain ⟨ht, hi⟩ := Prod.mk.inj (toLex.injective h)
      exact Prod.ext ht (collate.injective hi)
    have hmap := (hdistinct k).map hinj
    rwa [List.map_map] at hmap
  kept k r hr := by
    obtain ⟨r', hr', hm, hi⟩ := hkept k r hr
    exact ⟨r', hr', by rw [listingKey, listingKey, hm, hi]⟩

end Jasil
