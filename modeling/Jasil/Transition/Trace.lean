import Mathlib.Data.List.Induction
import Mathlib.Data.List.Nodup

/-! # What each event of a trace finds before it
A trace records events in the order they happened. `EachAfter P` says of every event that `P` held
of the events before it. A state machine that only ever appends to its trace shows it one event at a
time (`eachAfter_concat`); what it means for the trace as a whole (that an event happens once, that
two events exclude each other) follows by induction here. -/

namespace Jasil

variable {α β : Type*} {P : List α → α → Prop} {trace : List α}

/-- Every event of the trace satisfies `P` with the events before it. -/
def EachAfter (P : List α → α → Prop) (trace : List α) : Prop :=
  ∀ past e rest, trace = past ++ e :: rest → P past e

/-- Nothing has happened. -/
theorem eachAfter_nil : EachAfter P [] := by
  intro past e rest h
  exact absurd h.symm (List.append_ne_nil_of_right_ne_nil _ (List.cons_ne_nil _ _))

/-- An event of a longer trace is the last one, or one of the trace before. -/
theorem concat_eq_append_cons {e x : α} {past rest : List α} (h : trace ++ [e] = past ++ x :: rest) :
    (trace = past ∧ e = x ∧ rest = []) ∨
      ∃ before, rest = before ++ [e] ∧ trace = past ++ x :: before := by
  rcases List.eq_nil_or_concat rest with rfl | ⟨before, last, rfl⟩
  · obtain ⟨htrace, hlast⟩ := List.append_inj' h rfl
    exact Or.inl ⟨htrace, List.singleton_inj.mp hlast, rfl⟩
  · rw [List.concat_eq_append, ← List.cons_append, ← List.append_assoc] at h
    obtain ⟨htrace, hlast⟩ := List.append_inj' h rfl
    rw [List.concat_eq_append, List.singleton_inj.mp hlast]
    exact Or.inr ⟨before, rfl, htrace⟩

/-- **One more event** has to satisfy `P` with the trace so far. -/
theorem eachAfter_concat {e : α} :
    EachAfter P (trace ++ [e]) ↔ EachAfter P trace ∧ P trace e := by
  constructor
  · intro h
    refine ⟨?_, h trace e [] rfl⟩
    intro past e' rest ht
    refine h past e' (rest ++ [e]) ?_
    rw [ht, List.append_assoc, List.cons_append]
  · rintro ⟨h, he⟩ past e' rest ht
    rcases concat_eq_append_cons ht with ⟨rfl, rfl, -⟩ | ⟨before, -, ht⟩
    · exact he
    · exact h past e' before ht

/-- The last one of two events that exclude each other has happened before neither. -/
theorem EachAfter.not_both {x y : α} (h : EachAfter P trace) (hx : ∀ past, P past x → y ∉ past)
    (hy : ∀ past, P past y → x ∉ past) (hne : x ≠ y) (hm : x ∈ trace) : y ∉ trace := by
  induction trace using List.reverseRecOn with
  | nil => exact absurd hm List.not_mem_nil
  | append_singleton trace e ih =>
    obtain ⟨h, he⟩ := eachAfter_concat.mp h
    rw [List.mem_append, List.mem_singleton] at hm ⊢
    rintro (hm' | rfl)
    · rcases hm with hm | rfl
      · exact ih h hm hm'
      · exact hx _ he hm'
    · rcases hm with hm | rfl
      · exact hy _ he hm
      · exact hne rfl

/-- **An event that never happens again happens at most once.** -/
theorem EachAfter.count_le_one [DecidableEq α] {x : α} (h : EachAfter P trace)
    (hx : ∀ past, P past x → x ∉ past) : trace.count x ≤ 1 := by
  induction trace using List.reverseRecOn with
  | nil => exact Nat.zero_le 1
  | append_singleton trace e ih =>
    obtain ⟨h, he⟩ := eachAfter_concat.mp h
    rw [List.count_append]
    by_cases hex : e = x
    · rw [hex] at he
      rw [List.count_eq_zero_of_not_mem (hx _ he), Nat.zero_add]
      exact List.count_le_length
    · rw [List.count_eq_zero_of_not_mem (fun hm => hex (List.mem_singleton.mp hm).symm)]
      exact ih h

/-- **What events bring that no event before them brought is never brought twice.** -/
theorem EachAfter.nodup_flatMap {f : α → List β} (h : EachAfter P trace)
    (hf : ∀ past e, P past e → (f e).Nodup ∧ ∀ b ∈ f e, b ∉ past.flatMap f) :
    (trace.flatMap f).Nodup := by
  induction trace using List.reverseRecOn with
  | nil => exact List.nodup_nil
  | append_singleton trace e ih =>
    obtain ⟨h, he⟩ := eachAfter_concat.mp h
    obtain ⟨hnodup, hnew⟩ := hf _ _ he
    rw [List.flatMap_append, List.flatMap_singleton]
    exact (ih h).append hnodup fun b hb hb' => hnew b hb' hb

end Jasil
