import Mathlib.Data.List.Chain
import Mathlib.Data.List.Nodup
import Mathlib.Order.Lattice

/-! # Adjacent intervals
A list of intervals, each from its start on and before its stop, each of which starts where the one before it
stops.

* **`Adjacent.concat`**: one more interval.
* **`Adjacent.pairwise`**: they come one after the other, so the last one stops last.
* **`Adjacent.exists_mem`**: between the first start and the last stop every point lies in one of them. -/

namespace Jasil

variable {α τ : Type*} [LinearOrder τ] {start stop : α → τ} {l : List α}

/-- A list that is a chain for two relations is one for both at once. -/
theorem isChain_and {R S : α → α → Prop} (hr : l.IsChain R) (hs : l.IsChain S) :
    l.IsChain fun a b => R a b ∧ S a b := by
  induction l with
  | nil => exact .nil
  | cons a l ih =>
    rw [List.isChain_cons] at hr hs ⊢
    exact ⟨fun b hb => ⟨hr.1 b hb, hs.1 b hb⟩, ih hr.2 hs.2⟩

/-- Each interval starts where the one before it stops, and none is empty. -/
structure Adjacent (start stop : α → τ) (l : List α) : Prop where
  next : l.IsChain fun a b => stop a = start b
  nonempty : ∀ a ∈ l, start a < stop a

namespace Adjacent

/-- No interval. -/
theorem nil : Adjacent start stop [] := ⟨.nil, nofun⟩

/-- **One more interval**, which starts where the last one stops. -/
theorem concat (h : Adjacent start stop l) {b : α} (hnext : ∀ a ∈ l.getLast?, stop a = start b)
    (hb : start b < stop b) : Adjacent start stop (l ++ [b]) where
  next := by
    refine List.isChain_append.mpr ⟨h.next, .singleton b, fun a ha c hc => ?_⟩
    obtain rfl : b = c := Option.some.inj hc
    exact hnext a ha
  nonempty := by
    refine List.forall_mem_append.mpr ⟨h.nonempty, ?_⟩
    simpa using hb

/-- The rest is adjacent. -/
theorem of_cons {a : α} (h : Adjacent start stop (a :: l)) : Adjacent start stop l :=
  ⟨h.next.of_cons, fun b hb => h.nonempty b (List.mem_cons_of_mem _ hb)⟩

/-- **A later interval starts where an earlier one stops, or after it.** -/
theorem pairwise (h : Adjacent start stop l) : l.Pairwise fun a b => stop a ≤ start b := by
  induction l with
  | nil => exact .nil
  | cons a l ih =>
    have hrest := ih h.of_cons
    refine List.pairwise_cons.mpr ⟨fun b hb => ?_, hrest⟩
    cases l with
    | nil => exact absurd hb List.not_mem_nil
    | cons c l =>
      have hac : stop a = start c := (List.isChain_cons_cons.mp h.next).1
      rcases List.mem_cons.mp hb with rfl | hb
      · exact hac.le
      · have hc := h.nonempty c (List.mem_cons_of_mem _ List.mem_cons_self)
        exact hac.le.trans (hc.le.trans ((List.pairwise_cons.mp hrest).1 b hb))

/-- The starts are in order. -/
theorem pairwise_start (h : Adjacent start stop l) : l.Pairwise fun a b => start a < start b :=
  h.pairwise.imp_of_mem fun ha _ hle => (h.nonempty _ ha).trans_le hle

/-- The intervals differ in their starts. -/
theorem start_inj (h : Adjacent start stop l) {a b : α} (ha : a ∈ l) (hb : b ∈ l)
    (heq : start a = start b) : a = b := by
  have hnodup : (l.map start).Nodup := List.pairwise_map.mpr (h.pairwise_start.imp fun hlt => hlt.ne)
  exact List.inj_on_of_nodup_map hnodup ha hb heq

/-- Of two intervals the one that starts first stops before the other starts. -/
theorem stop_le_start (h : Adjacent start stop l) {a b : α} (ha : a ∈ l) (hb : b ∈ l)
    (hlt : start a < start b) : stop a ≤ start b := by
  induction l with
  | nil => exact absurd ha List.not_mem_nil
  | cons c l ih =>
    obtain ⟨hle, -⟩ := List.pairwise_cons.mp h.pairwise
    rcases List.mem_cons.mp ha with rfl | ha'
    · rcases List.mem_cons.mp hb with rfl | hb'
      · exact absurd hlt (lt_irrefl _)
      · exact hle b hb'
    · rcases List.mem_cons.mp hb with rfl | hb'
      · have hba := (h.nonempty b List.mem_cons_self).trans_le (hle a ha')
        exact absurd hlt hba.asymm
      · exact ih h.of_cons ha' hb'

/-- The last interval stops last. -/
theorem stop_le_last (h : Adjacent start stop l) {a last : α} (ha : a ∈ l)
    (hlast : last ∈ l.getLast?) : stop a ≤ stop last := by
  obtain ⟨front, rfl⟩ := List.getLast?_eq_some_iff.mp hlast
  rcases List.mem_append.mp ha with ha' | ha'
  · have hle := (List.pairwise_append.mp h.pairwise).2.2 a ha' last List.mem_cons_self
    exact hle.trans (h.nonempty last (List.mem_of_getLast? hlast)).le
  · rw [List.mem_singleton.mp ha']

/-- **Between the first start and the last stop every point lies in an interval.** -/
theorem exists_mem (h : Adjacent start stop l) {t : τ} (hfirst : ∀ first ∈ l.head?, start first ≤ t)
    {last : α} (hlast : last ∈ l.getLast?) (ht : t < stop last) : ∃ a ∈ l, start a ≤ t ∧ t < stop a := by
  induction l with
  | nil => exact nomatch hlast
  | cons a l ih =>
    by_cases hat : t < stop a
    · exact ⟨a, List.mem_cons_self, hfirst a rfl, hat⟩
    · cases l with
      | nil =>
        obtain rfl : a = last := Option.some.inj hlast
        exact absurd ht hat
      | cons b l =>
        have hab : stop a = start b := (List.isChain_cons_cons.mp h.next).1
        have hb : ∀ first ∈ (b :: l).head?, start first ≤ t := by
          rintro first ⟨⟩
          exact hab ▸ not_lt.mp hat
        obtain ⟨c, hc, hct⟩ := ih h.of_cons hb (by rwa [List.getLast?_cons_cons] at hlast)
        exact ⟨c, List.mem_cons_of_mem _ hc, hct⟩

end Adjacent

end Jasil
