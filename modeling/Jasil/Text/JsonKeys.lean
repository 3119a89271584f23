import Jasil.Text.Json

/-! # The order of an object's keys
Two JSON values that differ in the order of their keys only are one value to a program that looks keys up.

* **`Json.Same`**: equality of values, whatever the order of the keys.
* **`sortKeys_eq_iff`**: `dumps` sorts the keys, so it is the same for two values exactly when they are the
  same (`dumps_eq_iff`). -/

namespace Jasil.Json

mutual

/-- The two values are equal but for the order of keys: every key of the one is a key of the other, with the
same value under it, and there are as many of them. -/
def Same : Json → Json → Prop
  | .null, .null => True
  | .bool b, .bool b' => b = b'
  | .int i, .int i' => i = i'
  | .float q, .float q' => q = q'
  | .str s, .str s' => s = s'
  | .arr xs, .arr ys => ItemsSame xs ys
  | .obj kvs, .obj kvs' => kvs.length = kvs'.length ∧ FieldsSame kvs kvs'
  | _, _ => False

/-- Items are the same one by one. -/
def ItemsSame : List Json → List Json → Prop
  | [], [] => True
  | x :: xs, y :: ys => Same x y ∧ ItemsSame xs ys
  | _, _ => False

/-- Every field is found in the other object. -/
def FieldsSame : List (String × Json) → List (String × Json) → Prop
  | [], _ => True
  | (k, v) :: kvs, other => (∃ w, (k, w) ∈ other ∧ Same v w) ∧ FieldsSame kvs other

end

/-! ## Sorting the keys -/

/-- A field with sorted keys was one before. -/
theorem mem_sortFields {kvs : List (String × Json)} {k : String} {w : Json} :
    (k, w) ∈ sortFields kvs ↔ ∃ v, (k, v) ∈ kvs ∧ sortKeys v = w := by
  induction kvs with
  | nil => simp [sortFields]
  | cons kv kvs ih =>
    obtain ⟨k', v'⟩ := kv
    rw [sortFields, List.mem_cons, ih]
    constructor
    · rintro (h | ⟨v, hv, hw⟩)
      · obtain ⟨rfl, rfl⟩ := Prod.mk.inj h
        exact ⟨v', List.mem_cons_self, rfl⟩
      · exact ⟨v, List.mem_cons_of_mem _ hv, hw⟩
    · rintro ⟨v, hv, rfl⟩
      rcases List.mem_cons.mp hv with h | h
      · obtain ⟨rfl, rfl⟩ := Prod.mk.inj h
        exact .inl rfl
      · exact .inr ⟨v, h, rfl⟩

/-- Sorting the keys of values leaves the names of the fields. -/
@[simp] theorem map_fst_sortFields (kvs : List (String × Json)) :
    (sortFields kvs).map Prod.fst = kvs.map Prod.fst := by
  induction kvs with
  | nil => rw [sortFields]
  | cons kv kvs ih => rw [sortFields, List.map_cons, List.map_cons, ih]

/-- And how many there are. -/
theorem length_sortFields (kvs : List (String × Json)) : (sortFields kvs).length = kvs.length := by
  rw [← List.length_map (f := Prod.fst), map_fst_sortFields, List.length_map]

/-- The value of a well-formed field is well formed. -/
theorem mem_fieldsWellFormed {kvs : List (String × Json)} (h : FieldsWellFormed kvs) {k : String}
    {v : Json} (hv : (k, v) ∈ kvs) : WellFormed v := by
  induction kvs with
  | nil => exact absurd hv List.not_mem_nil
  | cons kv kvs ih =>
    rw [FieldsWellFormed] at h
    rcases List.mem_cons.mp hv with rfl | hv
    · exact h.1
    · exact ih h.2 hv

mutual

/-- **Values that are the same are equal once their keys are sorted.** -/
theorem sortKeys_of_same : ∀ v w : Json, WellFormed v → WellFormed w → Same v w →
    sortKeys v = sortKeys w
  | .null, w, _, _, h => by cases w <;> simp_all [Same]
  | .bool _, w, _, _, h => by cases w <;> simp_all [Same]
  | .int _, w, _, _, h => by cases w <;> simp_all [Same]
  | .float _, w, _, _, h => by cases w <;> simp_all [Same]
  | .str _, w, _, _, h => by cases w <;> simp_all [Same]
  | .arr xs, .arr ys, hv, hw, h => by
    rw [WellFormed] at hv hw
    rw [Same] at h
    rw [sortKeys, sortKeys, sortItems_of_same xs ys hv hw h]
  | .obj kvs, .obj kvs', hv, hw, h => by
    rw [WellFormed] at hv hw
    rw [Same] at h
    have hkeys : ((sortFields kvs).map Prod.fst).Nodup := by
      rw [map_fst_sortFields]
      exact hv.2
    have hlen : (sortFields kvs').length ≤ (sortFields kvs).length := by
      rw [length_sortFields, length_sortFields]
      exact h.1.ge
    have hperm := ((List.Nodup.of_map _ hkeys).subperm
      (sortFields_of_same kvs kvs' hv.1 hw.1 h.2)).perm_of_length_le hlen
    rw [sortKeys, sortKeys, (sortBy_eq_iff_perm hkeys).mpr hperm]
  | .arr _, .null, _, _, h | .arr _, .bool _, _, _, h | .arr _, .int _, _, _, h
  | .arr _, .float _, _, _, h | .arr _, .str _, _, _, h | .arr _, .obj _, _, _, h
  | .obj _, .null, _, _, h | .obj _, .bool _, _, _, h | .obj _, .int _, _, _, h
  | .obj _, .float _, _, _, h | .obj _, .str _, _, _, h | .obj _, .arr _, _, _, h => by
    simp [Same] at h

/-- So are items. -/
theorem sortItems_of_same : ∀ xs ys : List Json, ItemsWellFormed xs → ItemsWellFormed ys →
    ItemsSame xs ys → sortItems xs = sortItems ys
  | [], [], _, _, _ => rfl
  | x :: xs, y :: ys, hx, hy, h => by
    rw [ItemsWellFormed] at hx hy
    rw [ItemsSame] at h
    rw [sortItems, sortItems, sortKeys_of_same x y hx.1 hy.1 h.1,
      sortItems_of_same xs ys hx.2 hy.2 h.2]
  | [], _ :: _, _, _, h | _ :: _, [], _, _, h => by
    simp [ItemsSame] at h

/-- So are fields, up to their order. -/
theorem sortFields_of_same : ∀ kvs other : List (String × Json), FieldsWellFormed kvs →
    FieldsWellFormed other → FieldsSame kvs other → sortFields kvs ⊆ sortFields other
  | [], _, _, _, _ => by
    rw [sortFields]
    exact List.nil_subset _
  | (k, v) :: kvs, other, hv, hw, h => by
    rw [FieldsWellFormed] at hv
    rw [FieldsSame] at h
    obtain ⟨⟨w, hmem, hsame⟩, hrest⟩ := h
    have hvalue := sortKeys_of_same v w hv.1 (mem_fieldsWellFormed hw hmem) hsame
    rw [sortFields, List.cons_subset]
    exact ⟨mem_sortFields.mpr ⟨w, hmem, hvalue.symm⟩, sortFields_of_same kvs other hv.2 hw hrest⟩

end

mutual

/-- **Values that are equal once their keys are sorted are the same.** -/
theorem same_of_sortKeys : ∀ v w : Json, WellFormed v → WellFormed w → sortKeys v = sortKeys w →
    Same v w
  | .null, w, _, _, h => by cases w <;> simp_all [Same, sortKeys]
  | .bool _, w, _, _, h => by cases w <;> simp_all [Same, sortKeys]
  | .int _, w, _, _, h => by cases w <;> simp_all [Same, sortKeys]
  | .float _, w, _, _, h => by cases w <;> simp_all [Same, sortKeys]
  | .str _, w, _, _, h => by cases w <;> simp_all [Same, sortKeys]
  | .arr xs, .arr ys, hv, hw, h => by
    rw [WellFormed] at hv hw
    rw [sortKeys, sortKeys] at h
    rw [Same]
    exact itemsSame_of_sortItems xs ys hv hw (Json.arr.inj h)
  | .obj kvs, .obj kvs', hv, hw, h => by
    rw [WellFormed] at hv hw
    rw [sortKeys, sortKeys] at h
    have hkeys : ((sortFields kvs).map Prod.fst).Nodup := by
      rw [map_fst_sortFields]
      exact hv.2
    have hperm := (sortBy_eq_iff_perm hkeys).mp (Json.obj.inj h)
    rw [Same]
    refine ⟨?_, fieldsSame_of_sortFields kvs kvs' hv.1 hw.1 hperm.subset⟩
    rw [← length_sortFields kvs, hperm.length_eq, length_sortFields]
  | .arr _, .null, _, _, h | .arr _, .bool _, _, _, h | .arr _, .int _, _, _, h
  | .arr _, .float _, _, _, h | .arr _, .str _, _, _, h | .arr _, .obj _, _, _, h
  | .obj _, .null, _, _, h | .obj _, .bool _, _, _, h | .obj _, .int _, _, _, h
  | .obj _, .float _, _, _, h | .obj _, .str _, _, _, h | .obj _, .arr _, _, _, h => by
    simp [sortKeys] at h

/-- So are items. -/
theorem itemsSame_of_sortItems : ∀ xs ys : List Json, ItemsWellFormed xs → ItemsWellFormed ys →
    sortItems xs = sortItems ys → ItemsSame xs ys
  | [], [], _, _, _ => by
    rw [ItemsSame]
    trivial
  | x :: xs, y :: ys, hx, hy, h => by
    rw [ItemsWellFormed] at hx hy
    rw [sortItems, sortItems] at h
    obtain ⟨hhead, htail⟩ := List.cons.inj h
    rw [ItemsSame]
    exact ⟨same_of_sortKeys x y hx.1 hy.1 hhead, itemsSame_of_sortItems xs ys hx.2 hy.2 htail⟩
  | [], _ :: _, _, _, h | _ :: _, [], _, _, h => by
    rw [sortItems, sortItems] at h
    exact nomatch h

/-- So are fields. -/
theorem fieldsSame_of_sortFields : ∀ kvs other : List (String × Json), FieldsWellFormed kvs →
    FieldsWellFormed other → sortFields kvs ⊆ sortFields other → FieldsSame kvs other
  | [], _, _, _, _ => by
    rw [FieldsSame]
    trivial
  | (k, v) :: kvs, other, hv, hw, h => by
    rw [FieldsWellFormed] at hv
    rw [sortFields, List.cons_subset] at h
    obtain ⟨w, hmem, hvalue⟩ := mem_sortFields.mp h.1
    rw [FieldsSame]
    exact ⟨⟨w, hmem, same_of_sortKeys v w hv.1 (mem_fieldsWellFormed hw hmem) hvalue.symm⟩,
      fieldsSame_of_sortFields kvs other hv.2 hw h.2⟩

end

/-- **Two values are the same** exactly when they are equal with their keys in order. -/
theorem sortKeys_eq_iff {v w : Json} (hv : WellFormed v) (hw : WellFormed w) :
    sortKeys v = sortKeys w ↔ Same v w :=
  ⟨same_of_sortKeys v w hv hw, sortKeys_of_same v w hv hw⟩

/-- Fields are well formed when their values are. -/
theorem fieldsWellFormed_iff {kvs : List (String × Json)} :
    FieldsWellFormed kvs ↔ ∀ kv ∈ kvs, WellFormed kv.2 := by
  induction kvs with
  | nil => simp [FieldsWellFormed]
  | cons kv kvs ih => rw [FieldsWellFormed, ih, List.forall_mem_cons]

mutual

/-- Sorting keys leaves a value well formed. -/
theorem wellFormed_sortKeys : ∀ v : Json, WellFormed v → WellFormed (sortKeys v)
  | .null, h | .bool _, h | .int _, h | .float _, h | .str _, h => by
    rw [sortKeys]
    · exact h
    all_goals nofun
  | .arr xs, h => by
    rw [WellFormed] at h
    rw [sortKeys, WellFormed]
    exact itemsWellFormed_sortItems xs h
  | .obj kvs, h => by
    rw [WellFormed] at h
    have hfields := fieldsWellFormed_sortFields kvs h.1
    rw [sortKeys, WellFormed, fieldsWellFormed_iff]
    refine ⟨fun kv hkv => fieldsWellFormed_iff.mp hfields kv (mem_sortBy.mp hkv), ?_⟩
    rw [((sortBy_perm Prod.fst (sortFields kvs)).map Prod.fst).nodup_iff, map_fst_sortFields]
    exact h.2

/-- So it does for items. -/
theorem itemsWellFormed_sortItems : ∀ xs : List Json, ItemsWellFormed xs →
    ItemsWellFormed (sortItems xs)
  | [], h => by
    rw [sortItems]
    exact h
  | x :: xs, h => by
    rw [ItemsWellFormed] at h
    rw [sortItems, ItemsWellFormed]
    exact ⟨wellFormed_sortKeys x h.1, itemsWellFormed_sortItems xs h.2⟩

/-- So it does for fields. -/
theorem fieldsWellFormed_sortFields : ∀ kvs : List (String × Json), FieldsWellFormed kvs →
    FieldsWellFormed (sortFields kvs)
  | [], h => by
    rw [sortFields]
    exact h
  | (k, v) :: kvs, h => by
    rw [FieldsWellFormed] at h
    rw [sortFields, FieldsWellFormed]
    exact ⟨wellFormed_sortKeys v h.1, fieldsWellFormed_sortFields kvs h.2⟩

end

/-- **The text of a value is the same for the same values only**, also where a further text follows. -/
theorem dumps_append_inj {v w : Json} (hv : WellFormed v) (hw : WellFormed w) {rest rest' : List Char}
    (hrest : EndsNumber rest) (hrest' : EndsNumber rest') (h : dumps v ++ rest = dumps w ++ rest') :
    Same v w ∧ rest = rest' := by
  obtain ⟨hvalue, hrests⟩ := print_append_inj (wellFormed_sortKeys v hv) (wellFormed_sortKeys w hw)
    hrest hrest' h
  exact ⟨(sortKeys_eq_iff hv hw).mp hvalue, hrests⟩

/-- What `dumps` writes is read back, with the keys in order. -/
theorem loads_dumps {v : Json} (h : WellFormed v) : loads (dumps v) = some (sortKeys v) :=
  loads_print (wellFormed_sortKeys v h)

/-- **Well-formed values have one text exactly when they are the same.** -/
theorem dumps_eq_iff {v w : Json} (hv : WellFormed v) (hw : WellFormed w) :
    dumps v = dumps w ↔ Same v w := by
  constructor
  · intro h
    have hends : EndsNumber [] := nofun
    exact (dumps_append_inj hv hw hends hends (by rw [h])).1
  · intro h
    rw [dumps, dumps, (sortKeys_eq_iff hv hw).mpr h]

end Jasil.Json
