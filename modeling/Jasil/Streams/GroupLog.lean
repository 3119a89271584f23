import Mathlib.Data.List.Basic
import Mathlib.Data.Nat.Init

/-! # A log that a group reads
Entries are appended under growing numbers and dropped from the front. Readers of one group share a cursor: a
read hands out the next entries after it and moves it past them, and an entry stays pending until it is
acknowledged.

* **`GroupLog`**: the log, with its group if there is one.
* **`GroupLog.waiting`**: the entries that no reader was given.
* **`waiting_append`**, **`waiting_trim`**, **`waiting_createGroup`**, **`waiting_read`**: what each operation
  does to these. -/

namespace Jasil

variable {α : Type*}

/-- An entry of a log. -/
structure LogEntry (α : Type*) where
  id : ℕ
  value : α

/-- A group of readers. -/
structure ReadGroup where
  /-- The entries up to this one were handed out. -/
  cursor : ℕ
  /-- What was handed out and not acknowledged. -/
  pending : List ℕ

/-- The group after a reader was given these entries. -/
def ReadGroup.handOut (g : ReadGroup) (entries : List (LogEntry α)) : ReadGroup where
  cursor := (entries.getLast?.map LogEntry.id).getD g.cursor
  pending := g.pending ++ entries.map LogEntry.id

/-- **A log**, oldest entry first. -/
structure GroupLog (α : Type*) where
  entries : List (LogEntry α)
  /-- The highest number that was given out. -/
  lastId : ℕ
  group : Option ReadGroup
  increasing : entries.Pairwise fun e e' => e.id < e'.id
  pos : ∀ e ∈ entries, 0 < e.id
  le_lastId : ∀ e ∈ entries, e.id ≤ lastId
  cursor_le : ∀ g ∈ group, g.cursor ≤ lastId

/-- How far a group has read; without a group nothing was read. -/
def groupCursor (group : Option ReadGroup) : ℕ := group.elim 0 ReadGroup.cursor

namespace GroupLog

variable (log : GroupLog α)

/-- Nothing was appended, and there is no group. -/
def empty : GroupLog α where
  entries := []
  lastId := 0
  group := none
  increasing := .nil
  pos := by simp
  le_lastId := by simp
  cursor_le := by simp

/-- **The entries that no reader was given.** -/
def waiting : List (LogEntry α) := log.entries.filter fun e => groupCursor log.group < e.id

/-- The group is not ahead of the log. -/
theorem groupCursor_le : groupCursor log.group ≤ log.lastId := by
  rw [groupCursor]
  cases hg : log.group with
  | none => exact Nat.zero_le _
  | some g => exact log.cursor_le g hg

/-! ## Operations -/

/-- Append a value under a number that is higher than all before. -/
def append (id : ℕ) (value : α) (h : log.lastId < id) : GroupLog α where
  entries := log.entries ++ [⟨id, value⟩]
  lastId := id
  group := log.group
  increasing := by
    refine List.pairwise_append.mpr ⟨log.increasing, List.pairwise_singleton .., fun e he e' he' => ?_⟩
    rw [List.mem_singleton.mp he']
    exact Nat.lt_of_le_of_lt (log.le_lastId e he) h
  pos := by
    intro e he
    rcases List.mem_append.mp he with he | he
    · exact log.pos e he
    · rw [List.mem_singleton.mp he]
      exact Nat.zero_lt_of_lt h
  le_lastId := by
    intro e he
    rcases List.mem_append.mp he with he | he
    · have hle := log.le_lastId e he
      omega
    · exact Nat.le_of_eq (congrArg LogEntry.id (List.mem_singleton.mp he))
  cursor_le := by
    intro g hg
    have hle := log.cursor_le g hg
    omega

/-- Drop the oldest entries. -/
def trim (n : ℕ) : GroupLog α where
  entries := log.entries.drop n
  lastId := log.lastId
  group := log.group
  increasing := log.increasing.sublist (List.drop_sublist ..)
  pos := fun e he => log.pos e (List.mem_of_mem_drop he)
  le_lastId := fun e he => log.le_lastId e (List.mem_of_mem_drop he)
  cursor_le := log.cursor_le

/-- Have a group that starts before the first entry, if there is none. -/
def createGroup : GroupLog α where
  entries := log.entries
  lastId := log.lastId
  group := some (log.group.getD ⟨0, []⟩)
  increasing := log.increasing
  pos := log.pos
  le_lastId := log.le_lastId
  cursor_le := by
    intro g hg
    rw [← Option.some.inj hg]
    cases hgroup : log.group with
    | none => exact Nat.zero_le _
    | some g => exact log.cursor_le g hgroup

/-- Hand out the next `n` entries, or as many as there are; `none` without a group. -/
def read (n : ℕ) : Option (List (LogEntry α) × GroupLog α) :=
  log.group.attach.map fun g => (log.waiting.take n,
    { log with
      group := some (g.1.handOut (log.waiting.take n))
      cursor_le := by
        intro g' hg'
        rw [← Option.some.inj hg', ReadGroup.handOut]
        cases hlast : (log.waiting.take n).getLast? with
        | none => exact log.cursor_le g.1 g.2
        | some e =>
          have hmem : e ∈ log.waiting := List.mem_of_mem_take (List.mem_of_getLast? hlast)
          exact log.le_lastId e (List.mem_filter.mp hmem).1 })

/-- Acknowledge an entry. -/
def ack (id : ℕ) : GroupLog α where
  entries := log.entries
  lastId := log.lastId
  group := log.group.map fun g => { g with pending := g.pending.erase id }
  increasing := log.increasing
  pos := log.pos
  le_lastId := log.le_lastId
  cursor_le := by
    intro g' hg'
    obtain ⟨g, hg, rfl⟩ := Option.map_eq_some_iff.mp hg'
    exact log.cursor_le g hg

/-! ## What waits -/

/-- Nothing waits in an empty log. -/
@[simp] theorem waiting_empty : (empty : GroupLog α).waiting = [] := rfl

/-- An entry that is appended waits. -/
theorem waiting_append (id : ℕ) (value : α) (h : log.lastId < id) :
    (log.append id value h).waiting = log.waiting ++ [⟨id, value⟩] := by
  have hlt : groupCursor log.group < id := Nat.lt_of_le_of_lt log.groupCursor_le h
  rw [waiting, waiting, append, List.filter_append, List.filter_cons_of_pos (by simpa using hlt),
    List.filter_nil]

/-- Of what waits, a front is dropped. -/
theorem waiting_trim (n : ℕ) :
    log.waiting = (log.entries.take n).filter (fun e => groupCursor log.group < e.id)
      ++ (log.trim n).waiting := by
  rw [waiting, waiting, trim, ← List.filter_append, List.take_append_drop]

/-- **A new group is given every entry**, as nobody was given any. -/
@[simp] theorem waiting_createGroup : log.createGroup.waiting = log.waiting := by
  have hcursor : groupCursor (some (log.group.getD ⟨0, []⟩)) = groupCursor log.group := by
    cases log.group <;> rfl
  rw [waiting, waiting, createGroup, hcursor]

/-- An acknowledgement leaves what waits. -/
@[simp] theorem waiting_ack (id : ℕ) : (log.ack id).waiting = log.waiting := by
  have hcursor : groupCursor (log.group.map fun g => { g with pending := g.pending.erase id })
      = groupCursor log.group := by
    cases log.group <;> rfl
  rw [waiting, waiting, ack, hcursor]

/-- What waits is in the order of the ids. -/
theorem pairwise_waiting : log.waiting.Pairwise fun e e' => e.id < e'.id := log.increasing.filter _

/-- The entries after the last of the first `n` are those after these `n`. -/
theorem filter_handOut (g : ReadGroup) {l : List (LogEntry α)}
    (hincreasing : l.Pairwise fun e e' => e.id < e'.id) (hafter : ∀ e ∈ l, g.cursor < e.id) (n : ℕ) :
    l.filter (fun e => (g.handOut (l.take n)).cursor < e.id) = l.drop n := by
  induction l generalizing g n with
  | nil => simp
  | cons e l ih =>
    obtain ⟨hhead, htail⟩ := List.pairwise_cons.mp hincreasing
    cases n with
    | zero =>
      refine List.filter_eq_self.mpr fun e' he' => ?_
      simpa [ReadGroup.handOut] using hafter e' he'
    | succ n =>
      -- the group that was given `e` goes on with the rest
      have hcursor : (g.handOut ((e :: l).take (n + 1))).cursor
          = (ReadGroup.handOut ⟨e.id, []⟩ (l.take n)).cursor := by
        rw [List.take_succ_cons, ReadGroup.handOut, ReadGroup.handOut, List.getLast?_cons]
        cases (l.take n).getLast? <;> rfl
      have hpast : ¬ (ReadGroup.handOut ⟨e.id, []⟩ (l.take n)).cursor < e.id := by
        rw [ReadGroup.handOut]
        cases hlast : (l.take n).getLast? with
        | none => exact Nat.lt_irrefl _
        | some e' => exact Nat.lt_asymm (hhead e' (List.mem_of_mem_take (List.mem_of_getLast? hlast)))
      rw [hcursor, List.filter_cons_of_neg (by simpa using hpast), List.drop_succ_cons]
      exact ih ⟨e.id, []⟩ htail hhead n

/-- What comes after the later of two ids comes after it. -/
theorem filter_after {c c' : ℕ} (h : c ≤ c') (l : List (LogEntry α)) :
    (l.filter fun e => c < e.id).filter (fun e => c' < e.id) = l.filter fun e => c' < e.id := by
  rw [List.filter_filter]
  refine List.filter_congr fun e _ => ?_
  rw [← Bool.decide_and]
  exact decide_eq_decide.mpr ⟨And.left, fun hlt => ⟨hlt, Nat.lt_of_le_of_lt h hlt⟩⟩

/-- **A read hands out the first that wait**, and nobody is given them again. -/
theorem waiting_read {n : ℕ} {given : List (LogEntry α)} {log' : GroupLog α}
    (h : log.read n = some (given, log')) :
    given = log.waiting.take n ∧ log'.waiting = log.waiting.drop n := by
  obtain ⟨⟨g, hgroup⟩, -, heq⟩ := Option.map_eq_some_iff.mp h
  obtain ⟨rfl, rfl⟩ := Prod.mk.inj heq
  clear h heq
  refine ⟨rfl, ?_⟩
  have hcursor : groupCursor log.group = g.cursor := congrArg groupCursor hgroup
  have hafter : ∀ e ∈ log.waiting, g.cursor < e.id := by
    intro e he
    rw [← hcursor]
    exact of_decide_eq_true (List.mem_filter.mp he).2
  -- what is after the new cursor was after the old one
  have hle : g.cursor ≤ (g.handOut (log.waiting.take n)).cursor := by
    rw [ReadGroup.handOut]
    cases hlast : (log.waiting.take n).getLast? with
    | none => exact Nat.le_refl _
    | some e => exact Nat.le_of_lt (hafter e (List.mem_of_mem_take (List.mem_of_getLast? hlast)))
  calc
    _ = log.entries.filter fun e => (g.handOut (log.waiting.take n)).cursor < e.id := rfl
    _ = log.waiting.filter fun e => (g.handOut (log.waiting.take n)).cursor < e.id :=
      (filter_after (hcursor ▸ hle) log.entries).symm
    _ = log.waiting.drop n := filter_handOut g log.pairwise_waiting hafter n

end GroupLog

end Jasil
