import Mathlib.Data.List.Induction
import Mathlib.Data.List.Range
import Mathlib.Tactic.Linarith

/-! # Tickets from a counter that also counts down
A counter hands out tickets: taking one counts up, and the new count is the ticket. Whoever holds the ticket
that equals the count may give it back, which counts down, so a number is handed out again.

* **`Numbered`**: of the tickets that are out, oldest first, the first is 1, the second 2, and so on.
* **`Numbered.newest`**: the ticket that equals the count is the newest one. -/

namespace Jasil

variable {α : Type*} {ticket : α → ℤ} {l : List α} {a : α}

/-- **The tickets that are out** are the numbers from 1 on, in the order in which they were taken. -/
def Numbered (ticket : α → ℤ) (l : List α) : Prop :=
    l.map ticket = (List.range l.length).map fun i : ℕ => (i : ℤ) + 1

/-- No ticket was given. -/
@[simp] theorem numbered_nil : Numbered ticket [] := rfl

/-- **One more ticket.** -/
@[simp] theorem numbered_concat : Numbered ticket (l ++ [a]) ↔ Numbered ticket l ∧ ticket a = l.length + 1 := by
  simp only [Numbered, List.map_append, List.map_singleton, List.length_append, List.length_singleton,
    List.range_succ]
  constructor
  · intro h
    obtain ⟨hl, ha⟩ := List.append_inj' h rfl
    exact ⟨hl, List.singleton_inj.mp ha⟩
  · rintro ⟨hl, ha⟩
    rw [hl, ha]

/-- A list that is mapped is numbered through the map. -/
theorem numbered_map {β : Type*} {ticket : β → ℤ} (g : α → β) :
    Numbered ticket (l.map g) ↔ Numbered (ticket ∘ g) l := by
  simp [Numbered]

namespace Numbered

/-- A ticket is at most the length of the list. -/
theorem le_length (h : Numbered ticket l) (ha : a ∈ l) : ticket a ≤ l.length := by
  induction l using List.reverseRecOn with
  | nil => exact absurd ha List.not_mem_nil
  | append_singleton l b ih =>
    obtain ⟨hl, hb⟩ := numbered_concat.mp h
    rw [List.length_append, List.length_singleton, Nat.cast_add, Nat.cast_one]
    rcases List.mem_append.mp ha with ha | ha
    · linarith [ih hl ha]
    · rw [List.mem_singleton.mp ha, hb]

/-- **The ticket that equals the count** is the one that was taken last. -/
theorem newest (h : Numbered ticket l) (ha : a ∈ l) (hcount : ticket a = l.length) : l.getLast? = some a := by
  induction l using List.reverseRecOn with
  | nil => exact absurd ha List.not_mem_nil
  | append_singleton l b _ =>
    obtain ⟨hl, -⟩ := numbered_concat.mp h
    rcases List.mem_append.mp ha with ha | ha
    · have hle := hl.le_length ha
      rw [hcount, List.length_append, List.length_singleton] at hle
      omega
    · rw [List.mem_singleton.mp ha, List.getLast?_concat]

/-- The newest ticket is the length of the list. -/
theorem ticket_newest (h : Numbered ticket l) (hlast : l.getLast? = some a) : ticket a = l.length := by
  obtain ⟨front, rfl⟩ := List.getLast?_eq_some_iff.mp hlast
  rw [(numbered_concat.mp h).2, List.length_append, List.length_singleton, Nat.cast_add, Nat.cast_one]

end Numbered

end Jasil
