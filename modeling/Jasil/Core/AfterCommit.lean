import Mathlib.Data.List.Perm.Subperm
import Jasil.Transition.Reachability
import Jasil.Transition.Trace

/-! # Callbacks after a session's outermost commit
A callback registered with `run_after_commit` is kept with the transaction that was current, and settled
when that transaction ends. SQLAlchemy fires `after_commit` for the release of a savepoint too, just
before the `after_transaction_end` of the same transaction; a rollback or a close fires only the latter.

* **`Session`**: the transactions that are open, what `Session.info` holds, and the callbacks that a
  commit has still to run. A callback may use the session itself, so any operation may come between two
  of them.
* **`due`**: what a root commit has to run, read off the history alone.
* **`after_commit_callbacks`**: it runs exactly these. -/

namespace Jasil

/-- A `SessionTransaction`, by the order in which they were begun. -/
abbrev Transaction := ℕ

/-- A registration of a callback, by the order in which they were made. -/
abbrev Callback := ℕ

/-- What an onlooker sees of a session. -/
inductive SessionEvent
  /-- With the savepoints that are open, innermost first. -/
  | registered (callback : Callback) (savepoints : List Transaction)
  | released (savepoint : Transaction)
  | rolledBack (savepoint : Transaction)
  /-- The root transaction is committed. -/
  | committed
  /-- The root transaction is rolled back or closed. -/
  | discarded
  /-- A callback was called; it may have raised. -/
  | ran (callback : Callback) (raised : Bool)
  deriving DecidableEq

/-- A session with its `after_commit` bookkeeping, and what an onlooker has seen of it. -/
structure Session where
  root : Option Transaction
  /-- The open savepoints, innermost first. -/
  savepoints : List Transaction
  /-- How many transactions were begun. -/
  begun : ℕ
  /-- The listeners are attached. -/
  listening : Bool
  /-- `info[_PENDING]`. -/
  pending : List (Transaction × Callback)
  /-- `info[_COMMITTED]`. -/
  committed : Bool
  /-- How many callbacks were registered. -/
  registered : ℕ
  /-- What the loops of `_on_transaction_end` under way have still to call, the innermost first. -/
  toRun : List Callback
  history : List SessionEvent

namespace Session

/-- A new session. -/
def init : Session := ⟨none, [], 0, false, [], false, 0, [], []⟩

/-- What happens is recorded. -/
def record (s : Session) (e : SessionEvent) : Session := { s with history := s.history ++ [e] }

/-- `db.begin()`, unless a transaction is active. -/
def autobegin (s : Session) : Session :=
  match s.root with
  | some _ => s
  | none => { s with root := some s.begun, begun := s.begun + 1 }

/-- `db.get_nested_transaction() or db.get_transaction()`. -/
def current (s : Session) : Option Transaction := s.savepoints.head?.or s.root

/-- `run_after_commit`. -/
def runAfterCommit (s : Session) : Session :=
  let s := { s with listening := true }
  let s := s.autobegin
  { s.record (.registered s.registered s.savepoints) with
    pending := s.pending ++ (s.current.map fun transaction => (transaction, s.registered)).toList
    registered := s.registered + 1 }

/-- `_on_commit`. -/
def onCommit (s : Session) : Session := if s.listening then { s with committed := true } else s

/-- `_on_transaction_end`, for a transaction with this parent. -/
def onTransactionEnd (s : Session) (transaction : Transaction) (parent : Option Transaction) :
    Session :=
  if s.listening then
    let committed := s.committed
    let s := { s with committed := false }
    if s.pending.isEmpty then s
    else
      match parent with
      | some parent =>
        if committed then
          { s with
            pending := s.pending.map fun p => (if p.1 = transaction then parent else p.1, p.2) }
        else { s with pending := s.pending.filter fun p => p.1 ≠ transaction }
      | none =>
        let ready := if committed then s.pending.map Prod.snd else []
        { s with pending := [], toRun := ready ++ s.toRun }
  else s

/-- The operations on a session. One that would end several transactions ends them one by one, the
innermost first. -/
inductive Op
  | begin
  | beginNested
  | register
  /-- The innermost savepoint is released. -/
  | release
  /-- The innermost savepoint is rolled back. -/
  | rollbackNested
  | commit
  /-- The root transaction is rolled back or closed. -/
  | rollback
  /-- The next callback is called. -/
  | call (raised : Bool)

/-- What an operation of the host, or the run of a callback, does to the session. -/
def step (s : Session) : Op → Option Session
  | .begin =>
    match s.root with
    | some _ => none
    | none => some s.autobegin
  | .beginNested =>
    let s := s.autobegin
    some { s with savepoints := s.begun :: s.savepoints, begun := s.begun + 1 }
  | .register => some s.runAfterCommit
  | .release =>
    match s.savepoints with
    | [] => none
    | savepoint :: rest =>
      let s := { s.record (.released savepoint) with savepoints := rest }
      some (s.onCommit.onTransactionEnd savepoint s.current)
  | .rollbackNested =>
    match s.savepoints with
    | [] => none
    | savepoint :: rest =>
      let s := { s.record (.rolledBack savepoint) with savepoints := rest }
      some (s.onTransactionEnd savepoint s.current)
  | .commit =>
    match s.root, s.savepoints with
    | some root, [] =>
      let s := { s.record .committed with root := none }
      some (s.onCommit.onTransactionEnd root none)
    | _, _ => none
  | .rollback =>
    match s.root, s.savepoints with
    | some root, [] =>
      let s := { s.record .discarded with root := none }
      some (s.onTransactionEnd root none)
    | _, _ => none
  | .call raised =>
    match s.toRun with
    | [] => none
    | callback :: rest => some { s.record (.ran callback raised) with toRun := rest }

end Session

/-! ## What a commit has to run -/

/-- The root transaction ended. -/
def SessionEvent.isEnd : SessionEvent → Bool
  | .committed | .discarded => true
  | _ => false

/-- What happened since the last end of a root transaction. -/
def sinceEnd (history : List SessionEvent) : List SessionEvent :=
  history.foldl (fun since e => if e.isEnd then [] else since ++ [e]) []

/-- **What a root commit has to run**, by the history before it: the callbacks registered since the root
transaction before it ended, whose enclosing savepoints were all released; in that order. -/
def due (history : List SessionEvent) : List Callback :=
  (sinceEnd history).filterMap fun
    | .registered callback savepoints =>
      if ∀ sp ∈ savepoints, .released sp ∈ history then some callback else none
    | _ => none

/-- The callbacks that were called. -/
def runs (history : List SessionEvent) : List Callback :=
  history.filterMap fun
    | .ran callback _ => some callback
    | _ => none

/-- The runs of two histories. -/
@[simp] theorem runs_append (l l' : List SessionEvent) : runs (l ++ l') = runs l ++ runs l' :=
  List.filterMap_append

/-- What happened since the last end grows by what happens, or starts anew. -/
theorem sinceEnd_concat (history : List SessionEvent) (e : SessionEvent) :
    sinceEnd (history ++ [e]) = if e.isEnd then [] else sinceEnd history ++ [e] := by
  rw [sinceEnd, List.foldl_append]
  rfl

/-- **An event since the last end** has no end after it. -/
theorem mem_sinceEnd {history : List SessionEvent} {e : SessionEvent} (h : e ∈ sinceEnd history) :
    ∃ before after, history = before ++ e :: after ∧ ∀ e' ∈ after, e'.isEnd = false := by
  induction history using List.reverseRecOn with
  | nil => exact absurd h List.not_mem_nil
  | append_singleton history last ih =>
    rw [sinceEnd_concat] at h
    split at h
    · exact absurd h List.not_mem_nil
    · rename_i hlast
      rcases List.mem_append.mp h with h | h
      · obtain ⟨before, after, rfl, hafter⟩ := ih h
        refine ⟨before, after ++ [last], by rw [List.append_assoc, List.cons_append], ?_⟩
        intro e' he'
        rcases List.mem_append.mp he' with he' | he'
        · exact hafter e' he'
        · rw [List.mem_singleton.mp he']
          exact Bool.eq_false_iff.mpr hlast
      · obtain rfl := List.mem_singleton.mp h
        exact ⟨history, [], rfl, fun _ he' => absurd he' List.not_mem_nil⟩

/-- The registrations among some events, with the savepoints each was made under. -/
def registrations (events : List SessionEvent) : List (Callback × List Transaction) :=
  events.filterMap fun
    | .registered callback savepoints => some (callback, savepoints)
    | _ => none

/-- The registrations of two histories. -/
@[simp] theorem registrations_append (l l' : List SessionEvent) :
    registrations (l ++ l') = registrations l ++ registrations l' := List.filterMap_append

/-- A registration is read off the event that made it. -/
theorem mem_registrations {events : List SessionEvent} {p : Callback × List Transaction} :
    p ∈ registrations events ↔ .registered p.1 p.2 ∈ events := by
  rw [registrations, List.mem_filterMap]
  constructor
  · rintro ⟨e, he, hp⟩
    cases e with
    | registered callback savepoints =>
      obtain rfl := Option.some.inj hp
      exact he
    | _ => exact nomatch hp
  · exact fun he => ⟨_, he, rfl⟩

/-- `due` in terms of the registrations. -/
theorem due_eq (history : List SessionEvent) :
    due history = (registrations (sinceEnd history)).filterMap fun p =>
      if ∀ sp ∈ p.2, .released sp ∈ history then some p.1 else none := by
  rw [due, registrations, List.filterMap_filterMap]
  refine List.filterMap_congr fun e _ => ?_
  cases e <;> rfl

/-- A callback is due exactly when it was registered since the last end and the savepoints around it were
released. -/
theorem mem_due {history : List SessionEvent} {callback : Callback} :
    callback ∈ due history ↔ ∃ savepoints,
      .registered callback savepoints ∈ sinceEnd history ∧
        ∀ sp ∈ savepoints, .released sp ∈ history := by
  rw [due_eq, List.mem_filterMap]
  constructor
  · rintro ⟨⟨c, savepoints⟩, hp, hc⟩
    split at hc
    · rename_i hreleased
      obtain rfl := Option.some.inj hc
      exact ⟨savepoints, mem_registrations.mp hp, hreleased⟩
    · exact nomatch hc
  · rintro ⟨savepoints, hr, hreleased⟩
    refine ⟨(callback, savepoints), mem_registrations.mpr hr, ?_⟩
    rw [if_pos hreleased]

namespace Session

/-! ## What the end of a transaction does -/

variable {s s' : Session}

/-- The commit of a savepoint hands its callbacks to the transaction around it. -/
theorem onCommit_onTransactionEnd_nested (hc : s.committed = false)
    (hl : s.listening = false → s.pending = []) (transaction parent : Transaction) :
    s.onCommit.onTransactionEnd transaction (some parent) =
      { s with
        pending := s.pending.map fun p => (if p.1 = transaction then parent else p.1, p.2) } := by
  obtain ⟨root, savepoints, begun, listening, pending, committed, registered, toRun, history⟩ := s
  obtain rfl : committed = false := hc
  cases listening with
  | false =>
    obtain rfl : pending = [] := hl rfl
    rfl
  | true => cases pending <;> rfl

/-- The rollback of a savepoint drops its callbacks. -/
theorem onTransactionEnd_nested (hc : s.committed = false)
    (hl : s.listening = false → s.pending = []) (transaction parent : Transaction) :
    s.onTransactionEnd transaction (some parent) =
      { s with pending := s.pending.filter fun p => p.1 ≠ transaction } := by
  obtain ⟨root, savepoints, begun, listening, pending, committed, registered, toRun, history⟩ := s
  obtain rfl : committed = false := hc
  cases listening with
  | false =>
    obtain rfl : pending = [] := hl rfl
    rfl
  | true => cases pending <;> rfl

/-- The commit of the outermost transaction makes the callbacks that wait the ones to run. -/
theorem onCommit_onTransactionEnd_root (hc : s.committed = false)
    (hl : s.listening = false → s.pending = []) (transaction : Transaction) :
    s.onCommit.onTransactionEnd transaction none =
      { s with pending := [], toRun := s.pending.map Prod.snd ++ s.toRun } := by
  obtain ⟨root, savepoints, begun, listening, pending, committed, registered, toRun, history⟩ := s
  obtain rfl : committed = false := hc
  cases listening with
  | false =>
    obtain rfl : pending = [] := hl rfl
    rfl
  | true => cases pending <;> rfl

/-- Its rollback drops them. -/
theorem onTransactionEnd_root (hc : s.committed = false)
    (hl : s.listening = false → s.pending = []) (transaction : Transaction) :
    s.onTransactionEnd transaction none = { s with pending := [] } := by
  obtain ⟨root, savepoints, begun, listening, pending, committed, registered, toRun, history⟩ := s
  obtain rfl : committed = false := hc
  cases listening with
  | false =>
    obtain rfl : pending = [] := hl rfl
    rfl
  | true => cases pending <;> rfl

/-! ## What is pending -/

/-- The transaction that a registration is kept with: the innermost of its own that is still open. -/
def owner (s : Session) (savepoints : List Transaction) : Option Transaction :=
  (savepoints.filter (· ∈ s.savepoints)).head?.or s.root

/-- What is pending of a registration: nothing once one of its savepoints was rolled back. -/
def owned (s : Session) (p : Callback × List Transaction) : Option (Transaction × Callback) :=
  if ∃ sp ∈ p.2, .rolledBack sp ∈ s.history then none
  else (s.owner p.2).map fun transaction => (transaction, p.1)

/-- **What holds between two operations**: the savepoints that are open are apart from those that ended, and
the callbacks that wait are the ones that the history registered under them. -/
structure Inv (s : Session) : Prop where
  nodup : s.savepoints.Nodup
  savepoints : ∀ sp ∈ s.savepoints,
    sp < s.begun ∧ .released sp ∉ s.history ∧ .rolledBack sp ∉ s.history
  released : ∀ sp, .released sp ∈ s.history → sp < s.begun ∧ .rolledBack sp ∉ s.history
  rolledBack : ∀ sp, .rolledBack sp ∈ s.history → sp < s.begun
  root : ∀ r, s.root = some r → r < s.begun ∧ r ∉ s.savepoints
  idle : s.root = none → s.savepoints = [] ∧ registrations (sinceEnd s.history) = []
  /-- What is still open of a registration's savepoints is the outer part of the stack. -/
  nested : ∀ p ∈ registrations (sinceEnd s.history),
    p.2.filter (· ∈ s.savepoints) <:+ s.savepoints ∧
      ∀ sp ∈ p.2, sp ∈ s.savepoints ∨ .released sp ∈ s.history ∨ .rolledBack sp ∈ s.history
  pending : s.pending = (registrations (sinceEnd s.history)).filterMap s.owned
  committed : s.committed = false
  listening : s.listening = false → s.pending = []
  serials : ∀ p ∈ registrations s.history, p.1 < s.registered
  distinct : ((registrations s.history).map Prod.fst).Nodup

/-- It holds of a new session. -/
theorem inv_init : init.Inv where
  nodup := List.nodup_nil
  savepoints _ h := absurd h List.not_mem_nil
  released _ h := absurd h List.not_mem_nil
  rolledBack _ h := absurd h List.not_mem_nil
  root _ h := nomatch h
  idle _ := ⟨rfl, rfl⟩
  nested _ h := absurd h List.not_mem_nil
  pending := rfl
  committed := rfl
  listening _ := rfl
  serials _ h := absurd h List.not_mem_nil
  distinct := List.nodup_nil

/-- A savepoint of a registration has an id already. -/
theorem Inv.lt_begun (h : s.Inv) {p : Callback × List Transaction}
    (hp : p ∈ registrations (sinceEnd s.history)) {sp : Transaction} (hsp : sp ∈ p.2) :
    sp < s.begun := by
  rcases (h.nested p hp).2 sp hsp with ho | hr | hr
  · exact (h.savepoints sp ho).1
  · exact (h.released sp hr).1
  · exact h.rolledBack sp hr

/-- It is kept when a transaction begins. -/
theorem Inv.autobegin (h : s.Inv) : s.autobegin.Inv := by
  rw [Session.autobegin]
  split
  · exact h
  · rename_i hroot
    obtain ⟨hnone, hregs⟩ := h.idle hroot
    have hpending : s.pending = [] := by
      rw [h.pending, hregs]
      rfl
    refine ⟨h.nodup, ?_, ?_, ?_, ?_, nofun, h.nested, ?_, h.committed, h.listening, h.serials,
      h.distinct⟩
    · exact fun sp hsp => absurd (hnone ▸ hsp) List.not_mem_nil
    · exact fun sp hsp => ⟨Nat.lt_succ_of_lt (h.released sp hsp).1, (h.released sp hsp).2⟩
    · exact fun sp hsp => Nat.lt_succ_of_lt (h.rolledBack sp hsp)
    · rintro r ⟨⟩
      exact ⟨Nat.lt_succ_self _, fun hm => absurd (hnone ▸ hm) List.not_mem_nil⟩
    · show s.pending = (registrations (sinceEnd s.history)).filterMap _
      rw [hpending, hregs]
      rfl

/-- There is a transaction once one has begun. -/
theorem isSome_root_autobegin (s : Session) : s.autobegin.root.isSome = true := by
  rw [Session.autobegin]
  split
  · rename_i hroot
    rw [hroot]
    rfl
  · rfl

/-- It is kept when a savepoint begins. -/
theorem Inv.beginNested (h : s.Inv) (hroot : s.root.isSome = true) :
    Inv { s with savepoints := s.begun :: s.savepoints, begun := s.begun + 1 } := by
  -- no registration knows the new savepoint yet
  have hfresh : s.begun ∉ s.savepoints := fun hm => Nat.lt_irrefl _ (h.savepoints _ hm).1
  have hfilter : ∀ p ∈ registrations (sinceEnd s.history),
      p.2.filter (· ∈ s.begun :: s.savepoints) = p.2.filter (· ∈ s.savepoints) := by
    intro p hp
    refine List.filter_congr fun sp hsp => ?_
    have hne : sp ≠ s.begun := Nat.ne_of_lt (h.lt_begun hp hsp)
    simp [hne]
  refine ⟨List.nodup_cons.mpr ⟨hfresh, h.nodup⟩, ?_, ?_, ?_, ?_, ?_, ?_, ?_, h.committed,
    h.listening, h.serials, h.distinct⟩
  · intro sp hsp
    rcases List.mem_cons.mp hsp with rfl | hsp
    · refine ⟨Nat.lt_succ_self _, fun hr => ?_, fun hr => ?_⟩
      · exact Nat.lt_irrefl _ (h.released _ hr).1
      · exact Nat.lt_irrefl _ (h.rolledBack _ hr)
    · obtain ⟨hlt, hr⟩ := h.savepoints sp hsp
      exact ⟨Nat.lt_succ_of_lt hlt, hr⟩
  · exact fun sp hsp => ⟨Nat.lt_succ_of_lt (h.released sp hsp).1, (h.released sp hsp).2⟩
  · exact fun sp hsp => Nat.lt_succ_of_lt (h.rolledBack sp hsp)
  · intro r hr
    obtain ⟨hlt, hm⟩ := h.root r hr
    refine ⟨Nat.lt_succ_of_lt hlt, fun hm' => ?_⟩
    rcases List.mem_cons.mp hm' with rfl | hm'
    · exact Nat.lt_irrefl _ hlt
    · exact hm hm'
  · intro hnone
    exact nomatch (Option.isSome_iff_ne_none.mp hroot) hnone
  · intro p hp
    obtain ⟨hsuffix, hends⟩ := h.nested p hp
    refine ⟨?_, fun sp hsp => (hends sp hsp).imp_left (List.mem_cons_of_mem _)⟩
    rw [hfilter p hp]
    exact hsuffix.trans (List.suffix_cons _ _)
  · rw [h.pending]
    refine List.filterMap_congr fun p hp => ?_
    rw [owned, owned, owner, owner, hfilter p hp]

/-- What happens adds no other event. -/
theorem mem_concat_iff_of_ne {history : List SessionEvent} {e e' : SessionEvent} (h : e ≠ e') :
    e ∈ history ++ [e'] ↔ e ∈ history := by
  rw [List.mem_append, List.mem_singleton, or_iff_left h]

/-- It is kept when a callback is registered. -/
theorem Inv.register (h : s.Inv) (hroot : s.root.isSome = true) (hl : s.listening = true) :
    Inv { s.record (.registered s.registered s.savepoints) with
      pending := s.pending ++ (s.current.map fun transaction => (transaction, s.registered)).toList
      registered := s.registered + 1 } := by
  have hreleased : ∀ sp, .released sp ∈ s.history ++ [.registered s.registered s.savepoints] ↔
      .released sp ∈ s.history := fun sp => mem_concat_iff_of_ne nofun
  have hrolled : ∀ sp, .rolledBack sp ∈ s.history ++ [.registered s.registered s.savepoints] ↔
      .rolledBack sp ∈ s.history := fun sp => mem_concat_iff_of_ne nofun
  have hself : s.savepoints.filter (· ∈ s.savepoints) = s.savepoints :=
    List.filter_eq_self.mpr fun sp hsp => decide_eq_true hsp
  have hregs : registrations (sinceEnd (s.history ++ [.registered s.registered s.savepoints])) =
      registrations (sinceEnd s.history) ++ [(s.registered, s.savepoints)] := by
    rw [sinceEnd_concat]
    exact registrations_append _ _
  refine ⟨h.nodup, ?_, ?_, ?_, h.root, ?_, ?_, ?_, h.committed, ?_, ?_, ?_⟩
  · intro sp hsp
    obtain ⟨hlt, hr, hb⟩ := h.savepoints sp hsp
    exact ⟨hlt, fun hm => hr ((hreleased sp).mp hm), fun hm => hb ((hrolled sp).mp hm)⟩
  · intro sp hsp
    obtain ⟨hlt, hb⟩ := h.released sp ((hreleased sp).mp hsp)
    exact ⟨hlt, fun hm => hb ((hrolled sp).mp hm)⟩
  · exact fun sp hsp => h.rolledBack sp ((hrolled sp).mp hsp)
  · exact fun hnone => nomatch (Option.isSome_iff_ne_none.mp hroot) hnone
  · intro p hp
    replace hp : p ∈ registrations (sinceEnd (s.history ++ [_])) := hp
    rw [hregs] at hp
    rcases List.mem_append.mp hp with hp | hp
    · obtain ⟨hsuffix, hends⟩ := h.nested p hp
      refine ⟨hsuffix, fun sp hsp => (hends sp hsp).imp_right (Or.imp ?_ ?_)⟩
      · exact (hreleased sp).mpr
      · exact (hrolled sp).mpr
    · obtain rfl := List.mem_singleton.mp hp
      exact ⟨(congrArg (· <:+ s.savepoints) hself).mpr (List.suffix_refl _), fun sp hsp => Or.inl hsp⟩
  · have hold : ∀ p, owned { s.record (.registered s.registered s.savepoints) with
        pending := s.pending ++
          (s.current.map fun transaction => (transaction, s.registered)).toList
        registered := s.registered + 1 } p = s.owned p := by
      intro p
      rw [owned, owned]
      exact if_congr (exists_congr fun sp => and_congr_right fun _ => hrolled sp) rfl rfl
    show _ = (registrations (sinceEnd (s.history ++ [_]))).filterMap _
    rw [hregs, List.filterMap_append, funext hold, ← h.pending]
    -- none of the open savepoints has been rolled back, so the new callback is owned
    have hopen : ¬ ∃ sp ∈ s.savepoints, .rolledBack sp ∈ s.history := by
      rintro ⟨sp, hsp, hr⟩
      exact (h.savepoints sp hsp).2.2 hr
    rw [List.filterMap_cons, List.filterMap_nil, owned, if_neg hopen, owner, hself, current]
    cases s.savepoints.head?.or s.root <;> rfl
  · exact fun hf => nomatch hl.symm.trans hf
  · intro p hp
    replace hp : p ∈ registrations (s.history ++ [_]) := hp
    rw [registrations_append] at hp
    rcases List.mem_append.mp hp with hp | hp
    · exact Nat.lt_succ_of_lt (h.serials p hp)
    · obtain rfl := List.mem_singleton.mp hp
      exact Nat.lt_succ_self _
  · show ((registrations (s.history ++ [_])).map Prod.fst).Nodup
    rw [registrations_append, List.map_append]
    refine h.distinct.append (List.nodup_singleton _) fun c hc hc' => ?_
    obtain rfl := List.mem_singleton.mp hc'
    obtain ⟨p, hp, he⟩ := List.mem_map.mp hc
    exact Nat.lt_irrefl _ (he ▸ h.serials p hp)

/-- The savepoint that ends is the innermost one open of a registration, or none of its own. -/
theorem Inv.innermost (h : s.Inv) {savepoint : Transaction} {rest : List Transaction}
    (hs : s.savepoints = savepoint :: rest) {p : Callback × List Transaction}
    (hp : p ∈ registrations (sinceEnd s.history)) :
    (p.2.filter (· ∈ s.savepoints) = savepoint :: rest ∧ p.2.filter (· ∈ rest) = rest) ∨
      (savepoint ∉ p.2 ∧ p.2.filter (· ∈ rest) = p.2.filter (· ∈ s.savepoints) ∧
        p.2.filter (· ∈ rest) <:+ rest) := by
  obtain ⟨hout, hnodup⟩ := List.nodup_cons.mp (hs ▸ h.nodup)
  have hrest : p.2.filter (· ∈ rest) =
      (p.2.filter (· ∈ s.savepoints)).filter (· ≠ savepoint) := by
    rw [List.filter_filter]
    refine List.filter_congr fun sp _ => ?_
    by_cases he : sp = savepoint
    · simp [he, hout]
    · simp [he, hs]
  obtain ⟨hsuffix, -⟩ := h.nested p hp
  -- made inside the savepoint that ends, or outside of it
  rcases List.suffix_cons_iff.mp (hs ▸ hsuffix) with he | hsuffix
  · rw [← hs] at he
    refine Or.inl ⟨he.trans hs, ?_⟩
    rw [hrest, he, hs, List.filter_cons_of_neg (by simp)]
    refine List.filter_eq_self.mpr fun sp hsp => decide_eq_true ?_
    rintro rfl
    exact hout hsp
  · rw [← hs] at hsuffix
    have hself : (p.2.filter (· ∈ s.savepoints)).filter (· ≠ savepoint) =
        p.2.filter (· ∈ s.savepoints) := by
      refine List.filter_eq_self.mpr fun sp hsp => decide_eq_true ?_
      rintro rfl
      exact hout (hsuffix.subset hsp)
    rw [hrest, hself]
    refine Or.inr ⟨fun hm => ?_, rfl, hsuffix⟩
    have hopen : savepoint ∈ p.2.filter (· ∈ s.savepoints) :=
      List.mem_filter.mpr ⟨hm, decide_eq_true (hs ▸ List.mem_cons_self)⟩
    exact hout (hsuffix.subset hopen)

/-- What ends a savepoint registers nothing and ends no root transaction. -/
theorem registrations_savepoint (history : List SessionEvent) {e : SessionEvent}
    (he : ∃ sp, e = .released sp ∨ e = .rolledBack sp) :
    registrations (history ++ [e]) = registrations history ∧
      registrations (sinceEnd (history ++ [e])) = registrations (sinceEnd history) := by
  rw [sinceEnd_concat, registrations_append]
  obtain ⟨sp, rfl | rfl⟩ := he
  · exact ⟨List.append_nil _, (registrations_append _ _).trans (List.append_nil _)⟩
  · exact ⟨List.append_nil _, (registrations_append _ _).trans (List.append_nil _)⟩

/-- The innermost savepoint has ended, one way or the other; what is pending is another matter. -/
theorem Inv.endSavepoint (h : s.Inv) {savepoint : Transaction} {rest : List Transaction}
    (hs : s.savepoints = savepoint :: rest) {e : SessionEvent}
    (he : e = .released savepoint ∨ e = .rolledBack savepoint)
    {pending : List (Transaction × Callback)} (hl : s.listening = false → pending = [])
    (hp : pending = (registrations (sinceEnd s.history)).filterMap
      (owned { s.record e with savepoints := rest })) :
    Inv { s.record e with savepoints := rest, pending := pending } := by
  obtain ⟨hregs, hsince⟩ := registrations_savepoint s.history ⟨savepoint, he⟩
  have hold := h.savepoints savepoint (hs ▸ List.mem_cons_self)
  obtain ⟨hout, hnodup⟩ := List.nodup_cons.mp (hs ▸ h.nodup)
  have hreleased : ∀ sp, .released sp ∈ s.history ++ [e] → .released sp ∈ s.history ∨
      (sp = savepoint ∧ e = .released savepoint) := by
    intro sp hm
    rcases List.mem_append.mp hm with hm | hm
    · exact Or.inl hm
    · obtain rfl := List.mem_singleton.mp hm
      rcases he with he | he
      · obtain rfl := SessionEvent.released.inj he
        exact Or.inr ⟨rfl, rfl⟩
      · exact nomatch he
  have hrolled : ∀ sp, .rolledBack sp ∈ s.history ++ [e] → .rolledBack sp ∈ s.history ∨
      (sp = savepoint ∧ e = .rolledBack savepoint) := by
    intro sp hm
    rcases List.mem_append.mp hm with hm | hm
    · exact Or.inl hm
    · obtain rfl := List.mem_singleton.mp hm
      rcases he with he | he
      · exact nomatch he
      · obtain rfl := SessionEvent.rolledBack.inj he
        exact Or.inr ⟨rfl, rfl⟩
  refine ⟨hnodup, ?_, ?_, ?_, ?_, ?_, ?_, ?_, h.committed, hl, ?_, ?_⟩
  · intro sp hsp
    obtain ⟨hlt, hr, hb⟩ := h.savepoints sp (hs ▸ List.mem_cons_of_mem _ hsp)
    -- those below it are others
    have hne : sp ≠ savepoint := by
      rintro rfl
      exact hout hsp
    refine ⟨hlt, fun hm => ?_, fun hm => ?_⟩
    · rcases hreleased sp hm with hm | ⟨heq, -⟩
      · exact hr hm
      · exact hne heq
    · rcases hrolled sp hm with hm | ⟨heq, -⟩
      · exact hb hm
      · exact hne heq
  · intro sp hm
    rcases hreleased sp hm with hm | ⟨rfl, he'⟩
    · obtain ⟨hlt, hb⟩ := h.released sp hm
      refine ⟨hlt, fun hm' => ?_⟩
      rcases hrolled sp hm' with hm' | ⟨rfl, -⟩
      · exact hb hm'
      · exact hold.2.1 hm
    · refine ⟨hold.1, fun hm' => ?_⟩
      rcases hrolled sp hm' with hm' | ⟨-, he''⟩
      · exact hold.2.2 hm'
      · exact nomatch he'.symm.trans he''
  · intro sp hm
    rcases hrolled sp hm with hm | ⟨rfl, -⟩
    · exact h.rolledBack sp hm
    · exact hold.1
  · intro r hr
    obtain ⟨hlt, hm⟩ := h.root r hr
    exact ⟨hlt, fun hm' => hm (hs ▸ List.mem_cons_of_mem _ hm')⟩
  · intro hnone
    exact nomatch hs.symm.trans (h.idle hnone).1
  · intro p hp
    replace hp : p ∈ registrations (sinceEnd (s.history ++ [e])) := hp
    rw [hsince] at hp
    refine ⟨?_, fun sp hsp => ?_⟩
    · -- a registration inside it was inside all that is below
      rcases h.innermost hs hp with ⟨-, heq⟩ | ⟨-, -, hsuffix⟩
      · exact (congrArg (· <:+ rest) heq).mpr (List.suffix_refl _)
      · exact hsuffix
    · rcases (h.nested p hp).2 sp hsp with ho | hr | hr
      · rcases List.mem_cons.mp (hs ▸ ho) with rfl | ho
        · refine Or.inr ?_
          rcases he with rfl | rfl
          · exact Or.inl (List.mem_append_right _ (List.mem_singleton.mpr rfl))
          · exact Or.inr (List.mem_append_right _ (List.mem_singleton.mpr rfl))
        · exact Or.inl ho
      · exact Or.inr (Or.inl (List.mem_append_left _ hr))
      · exact Or.inr (Or.inr (List.mem_append_left _ hr))
  · show pending = (registrations (sinceEnd (s.history ++ [e]))).filterMap _
    rw [hsince]
    exact hp
  · intro p hp
    replace hp : p ∈ registrations (s.history ++ [e]) := hp
    rw [hregs] at hp
    exact h.serials p hp
  · show ((registrations (s.history ++ [e])).map Prod.fst).Nodup
    rw [hregs]
    exact h.distinct

/-- The end of a savepoint leaves what was registered. -/
theorem owned_endSavepoint (s : Session) (rest : List Transaction) (e : SessionEvent)
    (p : Callback × List Transaction) :
    owned { s.record e with savepoints := rest } p =
      if ∃ sp ∈ p.2, .rolledBack sp ∈ s.history ++ [e] then none
      else ((p.2.filter (· ∈ rest)).head?.or s.root).map fun transaction => (transaction, p.1) :=
  rfl

/-- A savepoint has a parent. -/
theorem Inv.exists_parent (h : s.Inv) {savepoint : Transaction} {rest : List Transaction}
    (hs : s.savepoints = savepoint :: rest) : ∃ parent, rest.head?.or s.root = some parent := by
  refine Option.isSome_iff_exists.mp ?_
  rw [Option.isSome_or, Bool.or_eq_true_iff]
  refine Or.inr (Option.isSome_iff_ne_none.mpr fun hnone => ?_)
  exact nomatch hs.symm.trans (h.idle hnone).1

/-- A transaction that is open further out is not the innermost savepoint. -/
theorem Inv.owner_ne (h : s.Inv) {savepoint : Transaction} {rest : List Transaction}
    (hs : s.savepoints = savepoint :: rest) {opened : List Transaction} (ho : opened <:+ rest)
    {transaction : Transaction} (ht : opened.head?.or s.root = some transaction) :
    transaction ≠ savepoint := by
  rintro rfl
  obtain ⟨hout, -⟩ := List.nodup_cons.mp (hs ▸ h.nodup)
  rcases Option.or_eq_some_iff.mp ht with ht | ⟨-, ht⟩
  · exact hout (ho.subset (List.mem_of_head? ht))
  · exact (h.root _ ht).2 (hs ▸ List.mem_cons_self)

/-- **A released savepoint hands what is kept with it to its parent.** -/
theorem Inv.release (h : s.Inv) {savepoint parent : Transaction} {rest : List Transaction}
    (hs : s.savepoints = savepoint :: rest) (hparent : rest.head?.or s.root = some parent) :
    Inv { s.record (.released savepoint) with
      savepoints := rest
      pending := s.pending.map fun p => (if p.1 = savepoint then parent else p.1, p.2) } := by
  refine h.endSavepoint hs (Or.inl rfl) (fun hl => by rw [h.listening hl]; rfl) ?_
  rw [h.pending, List.map_filterMap]
  refine List.filterMap_congr fun p hp => ?_
  have hrolled : (∃ sp ∈ p.2, .rolledBack sp ∈ s.history ++ [.released savepoint]) ↔
      ∃ sp ∈ p.2, .rolledBack sp ∈ s.history :=
    exists_congr fun sp => and_congr_right fun _ => mem_concat_iff_of_ne nofun
  rw [owned_endSavepoint, owned]
  by_cases hb : ∃ sp ∈ p.2, .rolledBack sp ∈ s.history
  · rw [if_pos hb, if_pos (hrolled.mpr hb)]
    rfl
  · rw [if_neg hb, if_neg (fun hb' => hb (hrolled.mp hb')), Option.map_map, owner]
    rcases h.innermost hs hp with ⟨hfilter, hrest⟩ | ⟨-, heq, hsuffix⟩
    · rw [hfilter, hrest, hparent]
      simp
    · rw [← heq]
      cases ho : (p.2.filter (· ∈ rest)).head?.or s.root with
      | none => rfl
      | some transaction =>
        have hne := h.owner_ne hs hsuffix ho
        simp [hne]

/-- **A savepoint that is rolled back takes with it what is kept with it**, and nothing else. -/
theorem Inv.rollbackNested (h : s.Inv) {savepoint : Transaction} {rest : List Transaction}
    (hs : s.savepoints = savepoint :: rest) :
    Inv { s.record (.rolledBack savepoint) with
      savepoints := rest
      pending := s.pending.filter fun p => p.1 ≠ savepoint } := by
  refine h.endSavepoint hs (Or.inr rfl) (fun hl => by rw [h.listening hl]; rfl) ?_
  rw [h.pending, List.filter_filterMap]
  refine List.filterMap_congr fun p hp => ?_
  rw [owned_endSavepoint, owned]
  by_cases hb : ∃ sp ∈ p.2, .rolledBack sp ∈ s.history
  · obtain ⟨sp, hsp, hr⟩ := hb
    rw [if_pos ⟨sp, hsp, hr⟩, if_pos ⟨sp, hsp, List.mem_append_left _ hr⟩]
    rfl
  · rw [if_neg hb, owner]
    rcases h.innermost hs hp with ⟨hfilter, -⟩ | ⟨hout, heq, hsuffix⟩
    · have hmem : savepoint ∈ p.2 :=
        List.mem_of_mem_filter (hfilter ▸ List.mem_cons_self)
      rw [if_pos ⟨savepoint, hmem, List.mem_append_right _ (List.mem_singleton.mpr rfl)⟩, hfilter]
      simp
    · have hb' : ¬ ∃ sp ∈ p.2, .rolledBack sp ∈ s.history ++ [.rolledBack savepoint] := by
        rintro ⟨sp, hsp, hr⟩
        rcases List.mem_append.mp hr with hr | hr
        · exact hb ⟨sp, hsp, hr⟩
        · obtain rfl := SessionEvent.rolledBack.inj (List.mem_singleton.mp hr)
          exact hout hsp
      rw [if_neg hb', ← heq]
      cases ho : (p.2.filter (· ∈ rest)).head?.or s.root with
      | none => rfl
      | some transaction =>
        have hne := h.owner_ne hs hsuffix ho
        simp [hne]

/-- **With the root transaction nothing stays pending.** -/
theorem Inv.endRoot (h : s.Inv) (hs : s.savepoints = []) {e : SessionEvent}
    (he : e = .committed ∨ e = .discarded) (toRun : List Callback) :
    Inv { s.record e with root := none, pending := [], toRun := toRun } := by
  have hend : e.isEnd = true := by
    rcases he with rfl | rfl <;> rfl
  -- the transaction's history is over, the registrations of all time remain
  have hsince : sinceEnd (s.history ++ [e]) = [] := by rw [sinceEnd_concat, if_pos hend]
  have hregs : registrations (s.history ++ [e]) = registrations s.history := by
    rw [registrations_append]
    rcases he with rfl | rfl <;> exact List.append_nil _
  have hreleased : ∀ sp, .released sp ∈ s.history ++ [e] ↔ .released sp ∈ s.history := by
    intro sp
    rcases he with rfl | rfl <;> exact mem_concat_iff_of_ne nofun
  have hrolled : ∀ sp, .rolledBack sp ∈ s.history ++ [e] ↔ .rolledBack sp ∈ s.history := by
    intro sp
    rcases he with rfl | rfl <;> exact mem_concat_iff_of_ne nofun
  refine ⟨h.nodup, ?_, ?_, ?_, nofun, ?_, ?_, ?_, h.committed, fun _ => rfl, ?_, ?_⟩
  · exact fun sp hsp => absurd (hs ▸ hsp) List.not_mem_nil
  · intro sp hsp
    obtain ⟨hlt, hb⟩ := h.released sp ((hreleased sp).mp hsp)
    exact ⟨hlt, fun hm => hb ((hrolled sp).mp hm)⟩
  · exact fun sp hsp => h.rolledBack sp ((hrolled sp).mp hsp)
  · intro _
    refine ⟨hs, ?_⟩
    show registrations (sinceEnd (s.history ++ [e])) = []
    rw [hsince]
    rfl
  · intro p hp
    replace hp : p ∈ registrations (sinceEnd (s.history ++ [e])) := hp
    rw [hsince] at hp
    exact absurd hp List.not_mem_nil
  · show [] = (registrations (sinceEnd (s.history ++ [e]))).filterMap _
    rw [hsince]
    rfl
  · intro p hp
    replace hp : p ∈ registrations (s.history ++ [e]) := hp
    rw [hregs] at hp
    exact h.serials p hp
  · show ((registrations (s.history ++ [e])).map Prod.fst).Nodup
    rw [hregs]
    exact h.distinct

/-- **At a root commit, what is pending is what is due.** -/
theorem Inv.pending_due (h : s.Inv) (hs : s.savepoints = []) (hroot : s.root.isSome = true) :
    s.pending.map Prod.snd = due s.history := by
  obtain ⟨root, hr⟩ := Option.isSome_iff_exists.mp hroot
  rw [h.pending, due_eq, List.map_filterMap]
  refine List.filterMap_congr fun p hp => ?_
  -- with no savepoint open, each was either released or rolled back
  have hends : ∀ sp ∈ p.2, .released sp ∈ s.history ∨ .rolledBack sp ∈ s.history := by
    intro sp hsp
    refine ((h.nested p hp).2 sp hsp).resolve_left fun ho => ?_
    exact absurd (hs ▸ ho) List.not_mem_nil
  have hnone : p.2.filter (· ∈ s.savepoints) = [] := by
    rw [hs]
    exact List.filter_eq_nil_iff.mpr fun _ _ => by simp
  rw [owned, owner, hnone, hr]
  by_cases hb : ∃ sp ∈ p.2, .rolledBack sp ∈ s.history
  · rw [if_pos hb, if_neg]
    · rfl
    · obtain ⟨sp, hsp, hrb⟩ := hb
      exact fun hall => (h.released sp (hall sp hsp)).2 hrb
  · rw [if_neg hb, if_pos]
    · rfl
    · exact fun sp hsp => (hends sp hsp).resolve_right fun hrb => hb ⟨sp, hsp, hrb⟩

/-- It is kept when a callback runs. -/
theorem Inv.call (h : s.Inv) (callback : Callback) (raised : Bool) (toRun : List Callback) :
    Inv { s.record (.ran callback raised) with toRun := toRun } := by
  have hreleased : ∀ sp, .released sp ∈ s.history ++ [.ran callback raised] ↔
      .released sp ∈ s.history := fun sp => mem_concat_iff_of_ne nofun
  have hrolled : ∀ sp, .rolledBack sp ∈ s.history ++ [.ran callback raised] ↔
      .rolledBack sp ∈ s.history := fun sp => mem_concat_iff_of_ne nofun
  have hregs : registrations (s.history ++ [.ran callback raised]) = registrations s.history :=
    (registrations_append _ _).trans (List.append_nil _)
  have hsince : registrations (sinceEnd (s.history ++ [.ran callback raised])) =
      registrations (sinceEnd s.history) := by
    rw [sinceEnd_concat]
    exact (registrations_append _ _).trans (List.append_nil _)
  refine ⟨h.nodup, ?_, ?_, ?_, h.root, ?_, ?_, ?_, h.committed, h.listening, ?_, ?_⟩
  · intro sp hsp
    obtain ⟨hlt, hr, hb⟩ := h.savepoints sp hsp
    exact ⟨hlt, fun hm => hr ((hreleased sp).mp hm), fun hm => hb ((hrolled sp).mp hm)⟩
  · intro sp hsp
    obtain ⟨hlt, hb⟩ := h.released sp ((hreleased sp).mp hsp)
    exact ⟨hlt, fun hm => hb ((hrolled sp).mp hm)⟩
  · exact fun sp hsp => h.rolledBack sp ((hrolled sp).mp hsp)
  · intro hroot
    obtain ⟨hs, hr⟩ := h.idle hroot
    exact ⟨hs, hsince.trans hr⟩
  · intro p hp
    obtain ⟨hsuffix, hends⟩ := h.nested p (hsince ▸ hp)
    refine ⟨hsuffix, fun sp hsp => (hends sp hsp).imp_right (Or.imp ?_ ?_)⟩
    · exact (hreleased sp).mpr
    · exact (hrolled sp).mpr
  · -- a run is no registration and ends no savepoint
    show s.pending = (registrations (sinceEnd (s.history ++ [_]))).filterMap _
    rw [hsince, h.pending]
    refine List.filterMap_congr fun p _ => ?_
    rw [owned, owned]
    exact (if_congr (exists_congr fun sp => and_congr_right fun _ => hrolled sp) rfl rfl).symm
  · exact fun p hp => h.serials p (hregs ▸ hp)
  · show ((registrations (s.history ++ [_])).map Prod.fst).Nodup
    rw [hregs]
    exact h.distinct

end Session

/-! ## What was called -/

/-- **What the loops have called and have still to call.** -/
structure Called (history : List SessionEvent) (toRun : List Callback) : Prop where
  /-- What a commit had to run was called after it, in that order, or is still to be. -/
  complete : ∀ past rest, history = past ++ .committed :: rest →
    (due past).Sublist (runs rest ++ toRun)
  /-- What was called, or is still to be, some commit had to run. -/
  source : ∀ c ∈ runs history ++ toRun, ∃ past rest, history = past ++ .committed :: rest ∧
    c ∈ due past ∧ c ∈ runs rest ++ toRun

/-- Nothing is owed in the beginning. -/
theorem called_init : Called [] [] where
  complete _ _ h := absurd h.symm (List.append_ne_nil_of_right_ne_nil _ (List.cons_ne_nil _ _))
  source _ hc := absurd hc List.not_mem_nil

variable {history : List SessionEvent} {toRun : List Callback}

/-- An event that is neither a commit nor a run owes nothing. -/
theorem Called.quiet (h : Called history toRun) {e : SessionEvent} (he : e ≠ .committed)
    (hr : runs [e] = []) : Called (history ++ [e]) toRun := by
  constructor
  · intro past rest hs
    rcases concat_eq_append_cons hs with ⟨-, heq, -⟩ | ⟨before, rfl, hold⟩
    · exact absurd heq he
    · rw [runs_append, hr, List.append_nil]
      exact h.complete past before hold
  · intro c hc
    rw [runs_append, hr, List.append_nil] at hc
    obtain ⟨past, rest, hs, hdue, hrest⟩ := h.source c hc
    refine ⟨past, rest ++ [e], by rw [hs, List.append_assoc, List.cons_append], hdue, ?_⟩
    rw [runs_append, hr, List.append_nil]
    exact hrest

/-- The loop of a commit comes before those it interrupts. -/
theorem Called.commit (h : Called history toRun) :
    Called (history ++ [.committed]) (due history ++ toRun) := by
  have hr : runs [.committed] = [] := rfl
  constructor
  · intro past rest hs
    rcases concat_eq_append_cons hs with ⟨rfl, -, rfl⟩ | ⟨before, rfl, hold⟩
    · exact List.sublist_append_left _ _
    · rw [runs_append, hr, List.append_nil]
      exact (h.complete past before hold).trans
        (List.Sublist.append_left (List.sublist_append_right _ _) _)
  · intro c hc
    rw [runs_append, hr, List.append_nil, List.mem_append, List.mem_append] at hc
    have hold : c ∈ runs history ++ toRun → ∃ past rest,
        history ++ [.committed] = past ++ .committed :: rest ∧ c ∈ due past ∧
          c ∈ runs rest ++ (due history ++ toRun) := by
      intro hc
      obtain ⟨past, rest, hs, hdue, hrest⟩ := h.source c hc
      refine ⟨past, rest ++ [.committed], by rw [hs, List.append_assoc, List.cons_append], hdue, ?_⟩
      rw [runs_append, hr, List.append_nil]
      rcases List.mem_append.mp hrest with hm | hm
      · exact List.mem_append_left _ hm
      · exact List.mem_append_right _ (List.mem_append_right _ hm)
    rcases hc with hc | hc | hc
    · exact hold (List.mem_append_left _ hc)
    · exact ⟨history, [], rfl, hc, List.mem_append_right _ (List.mem_append_left _ hc)⟩
    · exact hold (List.mem_append_right _ hc)

/-- A call is the next one of a loop, whether it raises or not. -/
theorem Called.call {callback : Callback} (h : Called history (callback :: toRun)) (raised : Bool) :
    Called (history ++ [.ran callback raised]) toRun := by
  have hr : runs [.ran callback raised] = [callback] := rfl
  constructor
  · intro past rest hs
    rcases concat_eq_append_cons hs with ⟨-, heq, -⟩ | ⟨before, rfl, hold⟩
    · exact nomatch heq
    · rw [runs_append, hr, List.append_assoc, List.singleton_append]
      exact h.complete past before hold
  · intro c hc
    rw [runs_append, hr, List.append_assoc, List.singleton_append] at hc
    obtain ⟨past, rest, hs, hdue, hrest⟩ := h.source c hc
    refine ⟨past, rest ++ [.ran callback raised],
      by rw [hs, List.append_assoc, List.cons_append], hdue, ?_⟩
    rw [runs_append, hr, List.append_assoc, List.singleton_append]
    exact hrest

namespace Session

variable {s s' : Session}

/-- Every callback is in one place: called, still to be called, or pending. -/
def places (s : Session) : List Callback := runs s.history ++ s.toRun ++ s.pending.map Prod.snd

/-- **Whatever is to run has been committed.** -/
structure Settled (s : Session) : Prop where
  inv : s.Inv
  called : Called s.history s.toRun
  once : s.places.Nodup
  registered : ∀ c ∈ s.places, c < s.registered

/-- Nothing is to run in the beginning. -/
theorem settled_init : init.Settled :=
  ⟨inv_init, called_init, List.nodup_nil, fun _ hc => absurd hc List.not_mem_nil⟩

/-- Places that are among the old ones. -/
theorem Settled.of_places (h : s.Settled) (hinv : s'.Inv) (hcalled : Called s'.history s'.toRun)
    (hsub : s'.places.Subperm s.places) (hle : s.registered ≤ s'.registered) : s'.Settled := by
  obtain ⟨l, hperm, hl⟩ := hsub
  refine ⟨hinv, hcalled, hperm.nodup_iff.mp (h.once.sublist hl), fun c hc => ?_⟩
  exact Nat.lt_of_lt_of_le (h.registered c (hl.subset (hperm.mem_iff.mpr hc))) hle

/-- The begin of a transaction changes nothing else. -/
theorem autobegin_eq (s : Session) : s.autobegin.history = s.history ∧
    s.autobegin.toRun = s.toRun ∧ s.autobegin.pending = s.pending ∧
      s.autobegin.registered = s.registered ∧ s.autobegin.listening = s.listening := by
  rw [autobegin]
  split <;> exact ⟨rfl, rfl, rfl, rfl, rfl⟩

/-- A begin keeps what is settled. -/
theorem Settled.autobegin (h : s.Settled) : s.autobegin.Settled := by
  obtain ⟨hh, ht, hp, hr, -⟩ := s.autobegin_eq
  refine h.of_places h.inv.autobegin (hh ▸ ht ▸ h.called) ?_ (Nat.le_of_eq hr.symm)
  rw [places, places, hh, ht, hp]

/-- So does a registration. -/
theorem Settled.register (h : s.Settled) : s.runAfterCommit.Settled := by
  have hset : Settled ({ s with listening := true } : Session).autobegin :=
    Settled.autobegin ⟨⟨h.inv.nodup, h.inv.savepoints, h.inv.released, h.inv.rolledBack, h.inv.root, h.inv.idle,
      h.inv.nested, h.inv.pending, h.inv.committed, nofun, h.inv.serials, h.inv.distinct⟩,
      h.called, h.once, h.registered⟩
  have hl : ({ s with listening := true } : Session).autobegin.listening = true :=
    ({ s with listening := true } : Session).autobegin_eq.2.2.2.2
  have hroot := isSome_root_autobegin { s with listening := true }
  rw [runAfterCommit]
  generalize ({ s with listening := true } : Session).autobegin = t at hset hl hroot
  have hplaces : places { t.record (.registered t.registered t.savepoints) with
      pending := t.pending ++
        (t.current.map fun transaction => (transaction, t.registered)).toList
      registered := t.registered + 1 } = t.places ++ [t.registered] := by
    have hcurrent : t.current.isSome = true := by
      rw [current, Option.isSome_or, hroot, Bool.or_true]
    obtain ⟨transaction, ht⟩ := Option.isSome_iff_exists.mp hcurrent
    show runs (t.history ++ [_]) ++ t.toRun ++ (t.pending ++ _).map Prod.snd = _
    have hr : runs [.registered t.registered t.savepoints] = [] := rfl
    rw [runs_append, hr, List.append_nil, ht, List.map_append, ← List.append_assoc]
    rfl
  refine ⟨hset.inv.register hroot hl, hset.called.quiet nofun rfl, ?_, ?_⟩
  · rw [hplaces]
    refine hset.once.append (List.nodup_singleton _) fun c hc hc' => ?_
    obtain rfl := List.mem_singleton.mp hc'
    exact Nat.lt_irrefl _ (hset.registered _ hc)
  · intro c hc
    rw [hplaces] at hc
    rcases List.mem_append.mp hc with hc | hc
    · exact Nat.lt_succ_of_lt (hset.registered c hc)
    · obtain rfl := List.mem_singleton.mp hc
      exact Nat.lt_succ_self _

/-- **Every operation keeps it.** -/
theorem step_settled (h : s.Settled) {op : Op} (hs : s.step op = some s') : s'.Settled := by
  have hc := h.inv.committed
  have hl := h.inv.listening
  cases op with
  | begin =>
    rw [step] at hs
    cases hroot : s.root with
    | some root =>
      rw [hroot] at hs
      exact nomatch hs
    | none =>
      rw [hroot] at hs
      exact Option.some.inj hs ▸ h.autobegin
  | beginNested =>
    obtain rfl := Option.some.inj hs
    have ha := h.autobegin
    exact ⟨ha.inv.beginNested s.isSome_root_autobegin, ha.called, ha.once, ha.registered⟩
  | register => exact Option.some.inj hs ▸ h.register
  | release =>
    rw [step] at hs
    cases hstack : s.savepoints with
    | nil =>
      rw [hstack] at hs
      exact nomatch hs
    | cons savepoint rest =>
      rw [hstack] at hs
      obtain rfl := Option.some.inj hs
      obtain ⟨parent, hparent⟩ := h.inv.exists_parent hstack
      have hparent' : ({ s.record (.released savepoint) with savepoints := rest } : Session).current =
          some parent := hparent
      rw [hparent']
      rw [onCommit_onTransactionEnd_nested
        (s := { s.record (.released savepoint) with savepoints := rest }) hc hl]
      -- what was pending in the savepoint is pending in its parent
      refine h.of_places (h.inv.release hstack hparent) (h.called.quiet nofun rfl) ?_ (Nat.le_refl _)
      refine List.Perm.subperm (List.Perm.of_eq ?_)
      show runs (s.history ++ [_]) ++ s.toRun ++ (s.pending.map _).map Prod.snd = _
      rw [runs_append, List.map_map]
      exact congrArg (· ++ s.toRun ++ s.pending.map Prod.snd) (List.append_nil _)
  | rollbackNested =>
    rw [step] at hs
    cases hstack : s.savepoints with
    | nil =>
      rw [hstack] at hs
      exact nomatch hs
    | cons savepoint rest =>
      rw [hstack] at hs
      obtain rfl := Option.some.inj hs
      obtain ⟨parent, hparent⟩ := h.inv.exists_parent hstack
      have hparent' : ({ s.record (.rolledBack savepoint) with savepoints := rest } : Session).current =
          some parent := hparent
      rw [hparent']
      rw [onTransactionEnd_nested
        (s := { s.record (.rolledBack savepoint) with savepoints := rest }) hc hl]
      -- what was pending in the savepoint is dropped
      refine h.of_places (h.inv.rollbackNested hstack) (h.called.quiet nofun rfl) ?_ (Nat.le_refl _)
      refine List.Sublist.subperm ?_
      have hr : runs (s.history ++ [.rolledBack savepoint]) = runs s.history :=
        (runs_append _ _).trans (List.append_nil _)
      show (runs (s.history ++ [_]) ++ s.toRun ++ (s.pending.filter _).map Prod.snd).Sublist _
      rw [hr]
      exact (List.Sublist.refl _).append (List.filter_sublist.map _)
  | commit =>
    rw [step] at hs
    cases hroot : s.root with
    | none =>
      rw [hroot] at hs
      exact nomatch hs
    | some root =>
      cases hstack : s.savepoints with
      | cons savepoint rest =>
        rw [hroot, hstack] at hs
        exact nomatch hs
      | nil =>
        rw [hroot, hstack] at hs
        obtain rfl := Option.some.inj hs
        rw [onCommit_onTransactionEnd_root (s := { s.record .committed with root := none }) hc hl]
        -- with no savepoint open, what is pending is what is due
        have hdue : s.pending.map Prod.snd = due s.history :=
          h.inv.pending_due hstack (hroot ▸ rfl)
        refine h.of_places (h.inv.endRoot hstack (Or.inl rfl) _) ?_ ?_ (Nat.le_refl _)
        · show Called (s.history ++ [.committed]) (s.pending.map Prod.snd ++ s.toRun)
          rw [hdue]
          exact h.called.commit
        · refine List.Perm.subperm ?_
          show List.Perm (runs (s.history ++ [_]) ++ (s.pending.map Prod.snd ++ s.toRun) ++ []) _
          have hr : runs (s.history ++ [.committed]) = runs s.history :=
            (runs_append _ _).trans (List.append_nil _)
          rw [hr, List.append_nil, places, List.append_assoc]
          exact List.Perm.append_left _ List.perm_append_comm
  | rollback =>
    rw [step] at hs
    cases hroot : s.root with
    | none =>
      rw [hroot] at hs
      exact nomatch hs
    | some root =>
      cases hstack : s.savepoints with
      | cons savepoint rest =>
        rw [hroot, hstack] at hs
        exact nomatch hs
      | nil =>
        rw [hroot, hstack] at hs
        obtain rfl := Option.some.inj hs
        rw [onTransactionEnd_root (s := { s.record .discarded with root := none }) hc hl]
        refine h.of_places (h.inv.endRoot hstack (Or.inr rfl) _) (h.called.quiet nofun rfl) ?_ (Nat.le_refl _)
        refine List.Sublist.subperm ?_
        show (runs (s.history ++ [_]) ++ s.toRun ++ []).Sublist _
        have hr : runs (s.history ++ [.discarded]) = runs s.history :=
          (runs_append _ _).trans (List.append_nil _)
        rw [hr]
        exact (List.Sublist.refl _).append (List.nil_sublist _)
  | call raised =>
    rw [step] at hs
    cases hrun : s.toRun with
    | nil =>
      rw [hrun] at hs
      exact nomatch hs
    | cons callback rest =>
      rw [hrun] at hs
      obtain rfl := Option.some.inj hs
      have hcalled := h.called
      rw [hrun] at hcalled
      -- the first of those to run moves to those that ran
      refine h.of_places (h.inv.call callback raised rest) (hcalled.call raised) ?_ (Nat.le_refl _)
      refine List.Perm.subperm (List.Perm.of_eq ?_)
      show runs (s.history ++ [_]) ++ rest ++ s.pending.map Prod.snd = _
      rw [places, hrun, runs_append, List.append_assoc (runs s.history)]
      rfl

/-- It holds in every session. -/
theorem settled_of_reaches (h : Reaches step (fun _ _ => True) init s) : s.Settled :=
  h.invariant Settled settled_init fun _ hset _ hs => step_settled hset hs

/-- A callback is registered once. -/
theorem Inv.registered_split (h : s.Inv) {before after : List SessionEvent} {c : Callback}
    {savepoints : List Transaction}
    (hs : s.history = before ++ .registered c savepoints :: after) (savepoints' : List Transaction) :
    .registered c savepoints' ∉ before ∧ .registered c savepoints' ∉ after := by
  have hregs : registrations s.history =
      registrations before ++ (c, savepoints) :: registrations after := by
    rw [hs, ← List.singleton_append, registrations_append, registrations_append]
    rfl
  have hdistinct := h.distinct
  rw [hregs, List.map_append, List.map_cons, List.nodup_middle, List.nodup_cons,
    List.mem_append, not_or] at hdistinct
  obtain ⟨⟨hbefore, hafter⟩, -⟩ := hdistinct
  refine ⟨fun hm => hbefore ?_, fun hm => hafter ?_⟩
  · exact List.mem_map.mpr ⟨(c, savepoints'), mem_registrations.mpr hm, rfl⟩
  · exact List.mem_map.mpr ⟨(c, savepoints'), mem_registrations.mpr hm, rfl⟩

/-- A callback is registered once. -/
theorem Inv.registered_unique (h : s.Inv) {c : Callback} {savepoints savepoints' : List Transaction}
    (hr : .registered c savepoints ∈ s.history) (hr' : .registered c savepoints' ∈ s.history) :
    savepoints' = savepoints := by
  obtain ⟨before, after, hs⟩ := List.mem_iff_append.mp hr
  obtain ⟨hbefore, hafter⟩ := h.registered_split hs savepoints'
  rw [hs] at hr'
  rcases List.mem_append.mp hr' with hm | hm
  · exact absurd hm hbefore
  · rcases List.mem_cons.mp hm with he | hm
    · exact (SessionEvent.registered.inj he).2
    · exact absurd hm hafter

end Session

/-- The first end of a root transaction is the same however a history is read. -/
theorem first_end_unique {l l' r r' : List SessionEvent} {e e' : SessionEvent}
    (h : l ++ e :: r = l' ++ e' :: r') (hl : ∀ x ∈ l, x.isEnd = false)
    (hl' : ∀ x ∈ l', x.isEnd = false) (he : e.isEnd = true) (he' : e'.isEnd = true) : e = e' := by
  have hfind : ∀ {l r : List SessionEvent} {e : SessionEvent}, (∀ x ∈ l, x.isEnd = false) →
      e.isEnd = true → (l ++ e :: r).find? SessionEvent.isEnd = some e := by
    intro l r e hl he
    have hnone : l.find? SessionEvent.isEnd = none :=
      List.find?_eq_none.mpr fun x hx => Bool.eq_false_iff.mp (hl x hx)
    rw [List.find?_append, hnone, Option.none_or, List.find?_cons_of_pos he]
  have hboth := hfind (r := r) hl he
  rw [h, hfind hl' he'] at hboth
  exact (Option.some.inj hboth).symm

open Session in
/-- **Callbacks follow their savepoint.** In every run of a session: no callback is called twice; what a
root commit has to run is called after it, in the order of registration, or is still to be called,
whichever of them raise; nothing else is called; and a callback registered under a savepoint that was
rolled back, or in a root transaction that was rolled back or closed, is never called. -/
theorem after_commit_callbacks {s : Session} (h : Reaches step (fun _ _ => True) init s) :
    (runs s.history).Nodup ∧
      (∀ past rest, s.history = past ++ .committed :: rest →
        (due past).Sublist (runs rest ++ s.toRun)) ∧
      (∀ c ∈ runs s.history, ∃ past rest, s.history = past ++ .committed :: rest ∧
        c ∈ due past ∧ c ∈ runs rest) ∧
      (∀ c savepoints, .registered c savepoints ∈ s.history → ∀ sp ∈ savepoints,
        .rolledBack sp ∈ s.history → c ∉ runs s.history) ∧
      (∀ before c savepoints since rest,
        s.history = before ++ .registered c savepoints :: (since ++ .discarded :: rest) →
          (∀ e ∈ since, e.isEnd = false) → c ∉ runs s.history) := by
  obtain ⟨hinv, hcalled, honce, -⟩ := settled_of_reaches h
  rw [places, List.append_assoc] at honce
  obtain ⟨hruns, -, hdisjoint⟩ := List.nodup_append'.mp honce
  have hsource : ∀ c ∈ runs s.history, ∃ past rest, s.history = past ++ .committed :: rest ∧
      c ∈ due past ∧ c ∈ runs rest := by
    intro c hc
    obtain ⟨past, rest, hs, hdue, hrest⟩ := hcalled.source c (List.mem_append_left _ hc)
    refine ⟨past, rest, hs, hdue, (List.mem_append.mp hrest).resolve_right fun hr => ?_⟩
    exact hdisjoint hc (List.mem_append_left _ hr)
  refine ⟨hruns, hcalled.complete, hsource, ?_, ?_⟩
  · intro c savepoints hr sp hsp hrolled hc
    obtain ⟨past, rest, hs, hdue, -⟩ := hsource c hc
    obtain ⟨savepoints', hr', hreleased⟩ := mem_due.mp hdue
    obtain ⟨before, after, hpast, -⟩ := mem_sinceEnd hr'
    have hold : ∀ e ∈ past, e ∈ s.history := fun e he => hs ▸ List.mem_append_left _ he
    have hsame := hinv.registered_unique hr
      (hold _ (hpast ▸ List.mem_append_right _ List.mem_cons_self))
    have hsp' := hold _ (hreleased sp (hsame ▸ hsp))
    exact (hinv.released sp hsp').2 hrolled
  · intro before c savepoints since rest hs hsince hc
    obtain ⟨past, rest', hs', hdue, -⟩ := hsource c hc
    obtain ⟨savepoints', hr', -⟩ := mem_due.mp hdue
    obtain ⟨before', after, rfl, hafter⟩ := mem_sinceEnd hr'
    rw [List.append_assoc, List.cons_append] at hs'
    have hsame : savepoints' = savepoints := by
      refine hinv.registered_unique (c := c) ?_ ?_
      · exact hs ▸ List.mem_append_right _ List.mem_cons_self
      · exact hs' ▸ List.mem_append_right _ List.mem_cons_self
    subst hsame
    -- the registration is one event, and the first end after it is one event too
    obtain ⟨hbefore, hrest⟩ := hinv.registered_split hs savepoints'
    obtain ⟨hbefore', hrest'⟩ := hinv.registered_split hs' savepoints'
    have hsplit := (List.append_cons_inj_of_notMem hbefore hrest).mp (hs.symm.trans hs')
    exact nomatch first_end_unique hsplit.2.2 hsince hafter rfl rfl

/-- Three callbacks: one in a savepoint that is released, one in one that is rolled back, one outside; then
the commit, and its loop, in which the first one raises. -/
def sampleOps : List Session.Op :=
  [.beginNested, .register, .release, .beginNested, .register, .rollbackNested, .register, .commit,
    .call true, .call false]

/-- The session after that. -/
def sampleSession : Session := runTo Session.step (fun _ _ => True) Session.init sampleOps

/-- The first and the third callback are called, the second never is. -/
theorem after_commit_callbacks_sample :
    runs sampleSession.history = [0, 2] ∧ 1 ∉ runs sampleSession.history := by
  have hr : Reaches Session.step (fun _ _ => True) Session.init sampleSession :=
    reaches_runTo (by decide)
  obtain ⟨-, -, -, hrolled, -⟩ := after_commit_callbacks hr
  exact ⟨by decide, hrolled 1 [2] (by decide) 2 (by decide) (by decide)⟩

end Jasil
