import Jasil.Storage.Keys

/-! # Sources that are read chunk by chunk
A source is read in chunks, and one byte past its limit at most.

* **`readChunks`**: the loop of `save_stream`.
* **`readChunks_spec`**: the source is read whole, or exceeds its limit. -/

namespace Jasil.Objects

open State (Bytes)

/-- `if max_bytes is not None and total > max_bytes`. -/
def limitSize (maxBytes : Option ℤ) (total : ℤ) : Except StorageError Unit :=
  match maxBytes.filter (· < total) with
  | some limit => .error (.sizeLimit limit)
  | none => .ok ()

/-- The loop of `save_stream`: a source is read chunk by chunk, and one byte past its limit at most. -/
def readChunks (size : ℕ) (maxBytes : Option ℤ) (total : ℤ) (source : Bytes) :
    Except StorageError (List Bytes) :=
  let readSize := (maxBytes.elim (size : ℤ) fun limit => min size (limit - total + 1)).toNat
  let chunk := source.take readSize
  if _h : chunk = [] then .ok []
  else
    match limitSize maxBytes (total + chunk.length) with
    | .error e => .error e
    | .ok () => (readChunks size maxBytes (total + chunk.length) (source.drop readSize)).map (chunk :: ·)
termination_by source.length
decreasing_by
  rw [List.length_drop]
  have hpos : 0 < (source.take readSize).length := List.length_pos_iff.mpr _h
  rw [List.length_take] at hpos
  omega

/-- A size within the limit passes. -/
theorem limitSize_of_le {maxBytes : Option ℤ} {total : ℤ} (h : ∀ limit ∈ maxBytes, total ≤ limit) :
    limitSize maxBytes total = .ok () := by
  have hnone : maxBytes.filter (· < total) = none := by
    rw [Option.filter_eq_none_iff]
    intro limit hlimit
    simpa using h limit hlimit
  rw [limitSize, hnone]

/-- What passes is within the limit. -/
theorem le_of_limitSize {maxBytes : Option ℤ} {total : ℤ} (h : limitSize maxBytes total = .ok ()) :
    ∀ limit ∈ maxBytes, total ≤ limit := by
  rintro limit rfl
  by_contra hlt
  rw [limitSize, Option.filter_some, if_pos (by simpa using hlt)] at h
  cases h

/-- A limit that is exceeded once is exceeded by more. -/
theorem limitSize_error_mono {maxBytes : Option ℤ} {total total' : ℤ} {e : StorageError} (hle : total ≤ total')
    (h : limitSize maxBytes total = .error e) : limitSize maxBytes total' = .error e := by
  cases maxBytes with
  | none => cases h
  | some limit =>
    rw [limitSize, Option.filter_some] at h ⊢
    by_cases hlt : limit < total
    · rw [if_pos (by simpa using hlt)] at h
      rwa [if_pos (by simpa using hlt.trans_le hle)]
    · rw [if_neg (by simpa using hlt)] at h
      cases h

/-- **A source is read whole, or exceeds its limit.** -/
theorem readChunks_spec {size : ℕ} (hsize : 0 < size) {maxBytes : Option ℤ} (total : ℤ) (source : Bytes)
    (hlimit : ∀ limit ∈ maxBytes, total ≤ limit) :
    (readChunks size maxBytes total source).map List.flatten
      = (limitSize maxBytes (total + source.length)).map fun _ => source := by
  induction hn : source.length using Nat.strong_induction_on generalizing total source with
  | _ n ih =>
    subst hn
    unfold readChunks
    set readSize := (maxBytes.elim (size : ℤ) fun limit => min size (limit - total + 1)).toNat with hread
    -- one byte beyond the limit is asked for, so that a read never asks for none
    have hpos : 0 < readSize := by
      rw [hread]
      cases maxBytes with
      | none => simpa using hsize
      | some limit =>
        have hle := hlimit limit rfl
        simp only [Option.elim_some]
        omega
    dsimp only
    split
    next hempty =>
      have hnil : source = [] := (List.take_eq_nil_iff.mp hempty).resolve_left hpos.ne'
      subst hnil
      rw [limitSize_of_le (by simpa using hlimit)]
      rfl
    next hchunk =>
      have hlength : ((source.take readSize).length : ℤ) ≤ source.length := by
        exact_mod_cast List.length_take_le' _ _
      cases hfits : limitSize maxBytes (total + (source.take readSize).length) with
      | error e =>
        rw [limitSize_error_mono (by omega) hfits]
        rfl
      | ok _ =>
        have hrest := ih (source.drop readSize).length ?_ (total + (source.take readSize).length)
          (source.drop readSize) (le_of_limitSize hfits) rfl
        · have htotal : total + ((source.take readSize).length : ℤ) + ((source.drop readSize).length : ℤ)
              = total + source.length := by
            rw [List.length_take, List.length_drop]
            omega
          rw [htotal] at hrest
          have hcons (result : Except StorageError (List Bytes)) :
              (result.map (source.take readSize :: ·)).map List.flatten
                = (result.map List.flatten).map (source.take readSize ++ ·) := by
            cases result with
            | error e => rfl
            | ok chunks => rfl
          dsimp only
          rw [hcons, hrest]
          cases limitSize maxBytes (total + source.length) with
          | error e => rfl
          | ok _ => exact congrArg Except.ok (List.take_append_drop _ _)
        · rw [List.length_drop]
          have hnonempty := List.length_pos_iff.mpr hchunk
          rw [List.length_take] at hnonempty
          omega

end Jasil.Objects
