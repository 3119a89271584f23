import Mathlib.Data.List.Nodup
import Mathlib.Data.List.Sort
import Mathlib.Data.List.SplitBy
import Mathlib.Data.Prod.Lex

/-! # Sorting by a key
**`sortBy`** sorts a list by a key, stably. Where the keys are distinct, the result depends on the members
of the list only (`sortBy_eq_iff_perm`).

A list that comes in the order of one key can be sorted by a second one group by group, **`sortGroups`**,
which sorts it by both (`sortGroups_eq`). -/

namespace Jasil

variable {α κ : Type*} [LinearOrder κ] {key : α → κ} {l l' : List α}

/-- `sorted(l, key=key)`. -/
def sortBy (key : α → κ) (l : List α) : List α := l.insertionSort fun a b => key a ≤ key b

instance total_key : Std.Total fun a b : α => key a ≤ key b := ⟨fun _ _ => le_total _ _⟩

instance isTrans_key : IsTrans α fun a b => key a ≤ key b := ⟨fun _ _ _ => le_trans⟩

/-- Sorting keeps every element. -/
theorem sortBy_perm (key : α → κ) (l : List α) : (sortBy key l).Perm l := List.perm_insertionSort _ l

/-- A sorted list is in the order of the keys. -/
theorem pairwise_sortBy (key : α → κ) (l : List α) :
    (sortBy key l).Pairwise fun a b => key a ≤ key b := List.pairwise_insertionSort _ l

/-- Sorting adds and removes no element. -/
@[simp] theorem mem_sortBy {a : α} : a ∈ sortBy key l ↔ a ∈ l := (sortBy_perm key l).mem_iff

/-- Two lists of the same members in the order of distinct keys are the same list. -/
theorem eq_of_perm_of_sorted (h : l.Pairwise fun a b => key a ≤ key b)
    (h' : l'.Pairwise fun a b => key a ≤ key b) (hkeys : (l.map key).Nodup) (hperm : l.Perm l') :
    l = l' := by
  refine List.Perm.eq_of_pairwise (fun a b ha hb hle hge => ?_) h h' hperm
  exact List.inj_on_of_nodup_map hkeys ha (hperm.mem_iff.mpr hb) (le_antisymm hle hge)

/-- **The result of sorting by distinct keys depends on the members only.** -/
theorem sortBy_eq_iff_perm (hkeys : (l.map key).Nodup) : sortBy key l = sortBy key l' ↔ l.Perm l' := by
  constructor
  · intro h
    exact (sortBy_perm key l).symm.trans (h ▸ sortBy_perm key l')
  · intro h
    refine eq_of_perm_of_sorted (pairwise_sortBy key l) (pairwise_sortBy key l') ?_
      ((sortBy_perm key l).trans (h.trans (sortBy_perm key l').symm))
    exact ((sortBy_perm key l).map key).nodup_iff.mpr hkeys

/-- A list that is in order already stays as it is. -/
theorem sortBy_of_sorted (h : l.Pairwise fun a b => key a ≤ key b) : sortBy key l = l :=
  List.Pairwise.insertionSort_eq h

/-- In a sorted list, what lies before `t` comes first. -/
theorem filter_split (h : l.Pairwise fun a b => key a ≤ key b) (t : κ) (p : α → Bool) :
    l.filter p = l.filter (fun a => p a ∧ key a < t) ++ l.filter fun a => p a ∧ t ≤ key a := by
  induction l with
  | nil => rfl
  | cons a l ih =>
    obtain ⟨hle, h⟩ := List.pairwise_cons.mp h
    by_cases ha : key a < t
    · by_cases hp : p a <;> simp [hp, ha, ih h, not_le.mpr ha]
    · -- then nothing in the list lies before `t`
      have hnil : l.filter (fun a => p a ∧ key a < t) = [] := by
        refine List.filter_eq_nil_iff.mpr fun b hb => ?_
        simpa using fun _ => (not_lt.mp ha).trans (hle b hb)
      have hrest := ih h
      rw [hnil, List.nil_append] at hrest
      have hge := not_lt.mp ha
      by_cases hp : p a
      · rw [List.filter_cons_of_pos hp, hrest, List.filter_cons_of_neg (by simp [ha]), hnil,
          List.nil_append, List.filter_cons_of_pos (by simp [hp, hge])]
      · rw [List.filter_cons_of_neg hp, hrest, List.filter_cons_of_neg (by simp [hp]), hnil,
          List.nil_append, List.filter_cons_of_neg (by simp [hp])]

/-! ## Group by group -/

section Groups

variable {β : Type*} [LinearOrder β] {f : α → β} {gs : List (List α)}

/-- Sort each group of `itertools.groupby(l, key=f)` by `key`. -/
def sortGroups (f : α → β) (key : α → κ) (l : List α) : List α :=
  (l.splitBy fun a b => f a = f b).flatMap (sortBy key)

/-- Sorting within groups keeps every element. -/
theorem sortGroups_perm (f : α → β) (key : α → κ) (l : List α) : (sortGroups f key l).Perm l := by
  have hgroups (gs : List (List α)) : (gs.flatMap (sortBy key)).Perm gs.flatten := by
    induction gs with
    | nil => exact .nil
    | cons g gs ih =>
      rw [List.flatMap_cons, List.flatten_cons]
      exact (sortBy_perm key g).append ih
  have h := hgroups (l.splitBy fun a b => f a = f b)
  rwa [List.flatten_splitBy] at h

/-- All members of a group agree. -/
theorem eq_of_mem_group {g : List α} (h : g ∈ l.splitBy fun a b => f a = f b) {a b : α} (ha : a ∈ g)
    (hb : b ∈ g) : f a = f b := by
  have hchain : g.IsChain fun a b => f a = f b := by simpa using List.isChain_of_mem_splitBy h
  have : IsTrans α fun a b => f a = f b := ⟨fun _ _ _ => Eq.trans⟩
  have hpairwise : g.Pairwise fun a b => f a = f b := List.isChain_iff_pairwise.mp hchain
  have : Std.Symm fun a b => f a = f b := ⟨fun _ _ => Eq.symm⟩
  have hall : ∀ ⦃x⦄, x ∈ g → ∀ ⦃y⦄, y ∈ g → f x = f y :=
    List.Pairwise.forall_of_forall (fun x _ => Eq.refl (f x)) hpairwise
  exact hall ha hb

/-- Where the groups come in order and next to each other they differ, every member of a later group is
greater than every member of an earlier one. -/
theorem pairwise_groups (hne : ∀ g ∈ gs, g ≠ []) (hgroup : ∀ g ∈ gs, ∀ a ∈ g, ∀ b ∈ g, f a = f b)
    (hnext : gs.IsChain fun g g' => ∃ ha hb, f (g.getLast ha) ≠ f (g'.head hb))
    (hsorted : gs.flatten.Pairwise fun a b => f a ≤ f b) :
    gs.Pairwise fun g g' => ∀ a ∈ g, ∀ b ∈ g', f a < f b := by
  induction gs with
  | nil => exact .nil
  | cons g gs ih =>
    rw [List.flatten_cons, List.pairwise_append] at hsorted
    obtain ⟨-, hrest, hcross⟩ := hsorted
    have hlater := ih (fun g hg => hne g (List.mem_cons_of_mem _ hg))
      (fun g hg => hgroup g (List.mem_cons_of_mem _ hg)) hnext.of_cons hrest
    refine List.pairwise_cons.mpr ⟨fun g' hg' a ha b hb => ?_, hlater⟩
    cases gs with
    | nil => exact absurd hg' List.not_mem_nil
    | cons next gs =>
      obtain ⟨⟨hlast, hhead, hdiff⟩, -⟩ := List.isChain_cons_cons.mp hnext
      -- the next group is greater, and the groups after it are greater still
      have hlt : ∀ c ∈ next, f a < f c := by
        intro c hc
        refine lt_of_le_of_ne (hcross a ha c (List.mem_flatten.mpr ⟨next, List.mem_cons_self, hc⟩)) ?_
        rw [hgroup g List.mem_cons_self a ha _ (List.getLast_mem hlast),
          hgroup next (List.mem_cons_of_mem _ List.mem_cons_self) c hc _ (List.head_mem hhead)]
        exact hdiff
      rcases List.mem_cons.mp hg' with rfl | hg'
      · exact hlt b hb
      · exact (hlt _ (List.head_mem hhead)).trans
          ((List.pairwise_cons.mp hlater).1 g' hg' _ (List.head_mem hhead) b hb)

/-- **A list in the order of `f` is sorted by `f` and `key`** when each of its groups is sorted by `key`. -/
theorem sortGroups_eq (h : l.Pairwise fun a b => f a ≤ f b)
    (hkeys : (l.map fun a => toLex (f a, key a)).Nodup) :
    sortGroups f key l = sortBy (fun a => toLex (f a, key a)) l := by
  have hperm := (sortGroups_perm f key l).trans (sortBy_perm (fun a => toLex (f a, key a)) l).symm
  refine eq_of_perm_of_sorted ?_ (pairwise_sortBy _ l) ?_ hperm
  · refine List.pairwise_flatMap.mpr ⟨fun g hg => ?_, ?_⟩
    · refine (pairwise_sortBy key g).imp_of_mem fun {a b} ha hb hle => Prod.Lex.toLex_le_toLex.mpr (.inr ?_)
      exact ⟨eq_of_mem_group hg (mem_sortBy.mp ha) (mem_sortBy.mp hb), hle⟩
    · have hlt := pairwise_groups (f := f)
        (fun _ hg => List.ne_nil_of_mem_splitBy hg)
        (fun _ hg _ ha _ hb => eq_of_mem_group hg ha hb)
        ((List.isChain_getLast_head_splitBy (fun a b => decide (f a = f b)) l).imp
          fun _ _ ⟨ha, hb, hdiff⟩ => ⟨ha, hb, of_decide_eq_false hdiff⟩)
        (by rwa [List.flatten_splitBy])
      refine hlt.imp fun {g g'} hlt a ha b hb => Prod.Lex.toLex_le_toLex.mpr (.inl ?_)
      exact hlt a (mem_sortBy.mp ha) b (mem_sortBy.mp hb)
  · exact ((sortGroups_perm f key l).map _).nodup_iff.mpr hkeys

end Groups

end Jasil
