import Mathlib.Data.List.Perm.Basic
import Mathlib.Data.List.Range
import Jasil.Events.RedisBus

/-! # What becomes of what was appended
Whatever consumers there are, and whatever gets lost: the entries are given to consumers in the order in which
they were appended, each at most once.

* **`Flow`**: what a step does to the entries.
* **`Accounted`**: each entry was given to one consumer, waits or was dropped before; **`Accounted.flow`**:
  every step keeps that.
* **`entries_in_order`**: so it is after any run. -/

namespace Jasil.Events

open Jobs (Event)

variable {Fields : Type}

/-- The serial numbers of entries. -/
def serials (entries : List (StreamEntry Fields)) : List ℕ := entries.map fun e => e.value.serial

/-- No entry has a number. -/
@[simp] theorem serials_nil : serials ([] : List (StreamEntry Fields)) = [] := rfl

/-- The numbers of two lists of entries. -/
@[simp] theorem serials_append (l l' : List (StreamEntry Fields)) :
    serials (l ++ l') = serials l ++ serials l' :=
  List.map_append

/-- The number of one entry. -/
@[simp] theorem serials_singleton (e : StreamEntry Fields) : serials [e] = [e.value.serial] := rfl

open Streaming (claimsOf)

/-- What is claimed of a list of entries are these. -/
@[simp] theorem serial_claimsOf (s : Streaming Fields) (c : ℕ) (k : Consumer Fields)
    (given : List (StreamEntry Fields)) : (claimsOf s c k given).map Claim.serial = serials given := by
  simp [claimsOf, serials]

/-- **What a step does to the entries.** -/
inductive Flow (s s' : Streaming Fields) : Prop
  | still (claims : s'.claims = s.claims) (waiting : s'.waiting = s.waiting) (dropped : s'.dropped = s.dropped)
      (appended : s'.appended = s.appended)
  /-- An entry is appended, and entries that wait are dropped. -/
  | added (entry : StreamEntry Fields) (unread : List (StreamEntry Fields)) (claims : s'.claims = s.claims)
      (serial : entry.value.serial = s.appended) (waiting : s.waiting ++ [entry] = unread ++ s'.waiting)
      (dropped : s'.dropped = s.dropped ++ serials unread) (appended : s'.appended = s.appended + 1)
  /-- A consumer is given the first entries that wait. -/
  | given (c : ℕ) (k : Consumer Fields) (entries : List (StreamEntry Fields)) (consumer : s.consumers c = some k)
      (claims : s'.claims = s.claims ++ claimsOf s c k entries) (waiting : s.waiting = entries ++ s'.waiting)
      (dropped : s'.dropped = s.dropped) (appended : s'.appended = s.appended)
  /-- Everything is lost. -/
  | flushed (claims : s'.claims = s.claims) (waiting : s'.waiting = [])
      (dropped : s'.dropped = s.dropped ++ serials s.waiting) (appended : s'.appended = s.appended)

/-- Who is about to append does not matter. -/
theorem Flow.publishers {s s' : Streaming Fields} (h : Flow s s') (publishers : ℕ → Option Fields) :
    Flow s { s' with publishers := publishers } := by
  cases h with
  | still claims waiting dropped appended => exact .still claims waiting dropped appended
  | added entry unread claims serial waiting dropped appended =>
    exact .added entry unread claims serial waiting dropped appended
  | given c k entries consumer claims waiting dropped appended =>
    exact .given c k entries consumer claims waiting dropped appended
  | flushed claims waiting dropped appended => exact .flushed claims waiting dropped appended

namespace Streaming

variable {s s' : Streaming Fields} {fields : Fields} {id trim c : ℕ} {k : Consumer Fields} {reply : Reply}

/-- A consumer's move leaves what waits. -/
@[simp] theorem waiting_set (s : Streaming Fields) (c : ℕ) (k : Option (Consumer Fields)) :
    (s.set c k).waiting = s.waiting := rfl

/-- Nothing waits where there is no stream. -/
theorem waiting_getD (server : Option (GroupLog (Appended Fields))) :
    (server.getD .empty).waiting = server.elim [] GroupLog.waiting := by
  cases server <;> rfl

/-- An append changes the stream and the counts only. -/
theorem xadd_eq (h : s.xadd fields id trim = some s') :
    ∃ server appended dropped, s' = { s with server := server, appended := appended, dropped := dropped } := by
  rw [xadd] at h
  dsimp only at h
  split at h
  · obtain ⟨-, hsome⟩ := Option.ite_none_right_eq_some.mp h
    obtain rfl := Option.some.inj hsome
    exact ⟨_, _, _, rfl⟩
  · cases h

/-- **What `XADD` does.** -/
theorem xadd_flow (h : s.xadd fields id trim = some s') : Flow s s' := by
  rw [xadd] at h
  dsimp only at h
  split at h
  · rename_i hlt
    split at h
    · obtain rfl := Option.some.inj h
      refine .added ⟨id, s.appended, fields⟩ _ rfl rfl ?_ rfl rfl
      rw [waiting, ← waiting_getD, ← GroupLog.waiting_append _ _ _ hlt]
      exact GroupLog.waiting_trim _ trim
    · cases h
  · cases h

/-- Making sure of the group leaves what waits. -/
theorem ensureGroup_eq (s : Streaming Fields) (reply : Reply) :
    ∃ server, s.ensureGroup reply = { s with server := server } ∧ server.elim [] GroupLog.waiting
      = s.waiting := by
  rw [ensureGroup]
  split
  · exact ⟨s.server, rfl, rfl⟩
  · exact ⟨_, rfl, (GroupLog.waiting_createGroup _).trans (waiting_getD _)⟩

/-- What a read hands out. -/
theorem waiting_of_read {given : List (StreamEntry Fields)} {log : GroupLog (Appended Fields)}
    (h : (s.server.bind fun log => log.read readBatch) = some (given, log)) :
    s.waiting = given ++ log.waiting := by
  obtain ⟨log₀, hserver, hread⟩ := Option.bind_eq_some_iff.mp h
  obtain ⟨hgiven, hrest⟩ := log₀.waiting_read hread
  rw [waiting, hserver, hgiven, hrest, Option.elim_some, List.take_append_drop]

/-- **What a read does**, whatever comes of it. -/
theorem readStep_flow (hk : s.consumers c = some k) : Flow s (s.readStep c k reply) := by
  unfold readStep
  split
  · exact .still rfl rfl rfl rfl
  · exact .still rfl rfl rfl rfl
  · rename_i given log hread
    exact .given c k given hk rfl (waiting_of_read hread) rfl rfl
  · exact .still rfl rfl rfl rfl
  · rename_i given log hread
    exact .given c k given hk rfl (waiting_of_read hread) rfl rfl

section Step

variable {serialize : Event → Option Fields} {deserialize : Fields → Option Event} {recording : Bool}
  {identity : ℕ → String} {a : BusStep Fields} {t : Turn}

/-- A step of a consumer's loop lets entries flow from the stream to the claims. -/
theorem takeStep_flow : Flow s (s.takeStep deserialize recording c k) := by
  rw [takeStep]
  split
  · exact .still rfl rfl rfl rfl
  · split
    · exact .still rfl rfl rfl rfl
    · exact .still rfl rfl rfl rfl

/-- So does a turn of one. -/
theorem turn_flow (hk : s.consumers c = some k) (h : s.turn deserialize recording identity c k t = some s') :
    Flow s s' := by
  unfold turn at h
  split at h
  -- the stream is not asked
  case h_1 | h_5 | h_8 =>
    obtain rfl := Option.some.inj h
    exact .still rfl rfl rfl rfl
  case h_2 reply _ =>
    obtain ⟨server, heq, hwaiting⟩ := s.ensureGroup_eq reply
    obtain ⟨-, hsome⟩ := Option.ite_none_right_eq_some.mp h
    obtain rfl := Option.some.inj hsome
    rw [heq]
    exact .still rfl hwaiting rfl rfl
  case h_3 =>
    obtain ⟨-, heq⟩ := Option.ite_none_left_eq_some.mp h
    obtain rfl := Option.some.inj heq
    exact readStep_flow hk
  case h_4 =>
    obtain rfl := Option.some.inj h
    exact takeStep_flow
  case h_6 =>
    obtain ⟨handler, -, rfl⟩ := Option.map_eq_some_iff.mp h
    exact .still rfl rfl rfl rfl
  case h_7 =>
    obtain ⟨-, hsome⟩ := Option.ite_none_right_eq_some.mp h
    obtain rfl := Option.some.inj hsome
    exact .still rfl rfl rfl rfl
  -- the acknowledgement takes the entry from the pending list, not from the waiting ones
  case h_9 executed entry _ =>
    obtain rfl := Option.some.inj h
    refine .still rfl ?_ rfl rfl
    rw [waiting, waiting]
    dsimp only
    split
    · cases s.server with
      | none => rfl
      | some log => exact log.waiting_ack entry.id
    · rfl
  case h_10 => cases h

/-- **Every step does.** -/
theorem step_flow (h : s.step serialize deserialize recording identity a = some s') : Flow s s' := by
  cases a with
  | subscribe b eventType handler =>
    obtain rfl := Option.some.inj h
    exact .still rfl rfl rfl rfl
  | start b reply =>
    -- making the group leaves what waits as it is
    obtain ⟨server, heq, hwaiting⟩ := s.ensureGroup_eq reply
    rw [step] at h
    dsimp only at h
    split at h
    · obtain rfl := Option.some.inj h
      exact .still rfl rfl rfl rfl
    · split at h
      · obtain rfl := Option.some.inj h
        rw [heq]
        exact .still rfl hwaiting rfl rfl
      · obtain rfl := Option.some.inj h
        rw [heq]
        exact .still rfl hwaiting rfl rfl
  | stop b =>
    rw [step] at h
    dsimp only at h
    split at h
    · obtain rfl := Option.some.inj h
      exact .still rfl rfl rfl rfl
    · obtain rfl := Option.some.inj h
      exact .still rfl rfl rfl rfl
  | publish p event recorded now =>
    rw [step] at h
    split at h
    · obtain rfl := Option.some.inj h
      exact .still rfl rfl rfl rfl
    · cases h
  | add p id trim again =>
    rw [step] at h
    split at h
    · obtain ⟨s₁, hadd, rfl⟩ := Option.map_eq_some_iff.mp h
      exact (xadd_flow hadd).publishers _
    · cases h
  | giveUp p =>
    obtain rfl := Option.some.inj h
    exact .still rfl rfl rfl rfl
  | foreign fields id trim => exact xadd_flow h
  | flush =>
    obtain rfl := Option.some.inj h
    exact .flushed rfl rfl rfl rfl
  | turn c t =>
    obtain ⟨k, hk, hturn⟩ := Option.bind_eq_some_iff.mp h
    exact turn_flow hk hturn
  | die c =>
    obtain rfl := Option.some.inj h
    exact .still rfl rfl rfl rfl
  | queue event now =>
    obtain rfl := Option.some.inj h
    exact .still rfl rfl rfl rfl
  | prune cutoff size page =>
    rw [step] at h
    split at h
    · obtain rfl := Option.some.inj h
      exact .still rfl rfl rfl rfl
    · cases h

end Step

end Streaming

/-! ## The account -/

/-- **Where the entries are.** -/
structure Accounted (s : Streaming Fields) : Prop where
  /-- What was given to consumers comes before what waits, both in the order in which it was appended. -/
  increasing : (s.claims.map Claim.serial ++ serials s.waiting).Pairwise (· < ·)
  /-- Each entry was given to a consumer, waits, or was dropped. -/
  account : (s.claims.map Claim.serial ++ serials s.waiting ++ s.dropped).Perm (List.range s.appended)

/-- In the beginning nothing was appended. -/
theorem accounted_init : Accounted (Streaming.init : Streaming Fields) where
  increasing := .nil
  account := .nil

section Account

variable {s s' : Streaming Fields}

/-- What is claimed or waits was appended. -/
theorem Accounted.lt (h : Accounted s) {n : ℕ} (hn : n ∈ s.claims.map Claim.serial ++ serials s.waiting) :
    n < s.appended := by
  have hmem := h.account.subset (List.mem_append_left s.dropped hn)
  exact List.mem_range.mp hmem

/-- **Every step keeps the account.** -/
theorem Accounted.flow (h : Accounted s) (hflow : Flow s s') : Accounted s' := by
  cases hflow with
  | still claims waiting dropped appended =>
    constructor
    · rw [claims, waiting]
      exact h.increasing
    · rw [claims, waiting, dropped, appended]
      exact h.account
  | added entry unread claims serial waiting dropped appended =>
    have hserials : serials s.waiting ++ [s.appended] = serials unread ++ serials s'.waiting := by
      rw [← serials_append, ← waiting, serials_append, serials_singleton, serial]
    -- the new entry has the highest number of all
    have hnew : (s.claims.map Claim.serial ++ (serials s.waiting ++ [s.appended])).Pairwise (· < ·) := by
      rw [← List.append_assoc]
      refine List.pairwise_append.mpr ⟨h.increasing, List.pairwise_singleton .., fun n hn m hm => ?_⟩
      rw [List.mem_singleton.mp hm]
      exact h.lt hn
    constructor
    · rw [claims]
      rw [hserials] at hnew
      exact hnew.sublist ((List.sublist_append_right _ _).append_left _)
    · rw [claims, dropped, appended, List.range_succ]
      calc
        (s.claims.map Claim.serial ++ serials s'.waiting ++ (s.dropped ++ serials unread)).Perm
            (s.claims.map Claim.serial ++ (serials unread ++ serials s'.waiting) ++ s.dropped) := by
          simp only [List.append_assoc]
          refine List.Perm.append_left _ ?_
          rw [← List.append_assoc, ← List.append_assoc]
          exact List.perm_append_comm.trans (.of_eq (List.append_assoc ..).symm)
        _ = s.claims.map Claim.serial ++ (serials s.waiting ++ [s.appended]) ++ s.dropped := by rw [hserials]
        List.Perm _ (s.claims.map Claim.serial ++ serials s.waiting ++ s.dropped ++ [s.appended]) := by
          simp only [List.append_assoc]
          exact List.Perm.append_left _ (List.Perm.append_left _ List.perm_append_comm)
        List.Perm _ (List.range s.appended ++ [s.appended]) := h.account.append_right _
  | given c k entries consumer claims waiting dropped appended =>
    have hlist : s'.claims.map Claim.serial ++ serials s'.waiting
        = s.claims.map Claim.serial ++ serials s.waiting := by
      rw [claims, waiting, List.map_append, serial_claimsOf, serials_append, List.append_assoc]
    constructor
    · rw [hlist]
      exact h.increasing
    · rw [hlist, dropped, appended]
      exact h.account
  | flushed claims waiting dropped appended =>
    constructor
    · rw [claims, waiting, serials_nil, List.append_nil]
      exact (List.pairwise_append.mp h.increasing).1
    · rw [claims, waiting, dropped, appended, serials_nil, List.append_nil]
      refine List.Perm.trans ?_ h.account
      rw [List.append_assoc]
      exact List.Perm.append_left _ List.perm_append_comm

end Account

/-! ## Runs -/

/-- Any step may be taken. -/
abbrev Streaming.Any (_ : Streaming Fields) (_ : BusStep Fields) : Prop := True

section Runs

variable {serialize : Event → Option Fields} {deserialize : Fields → Option Event} {recording : Bool}
  {identity : ℕ → String} {s : Streaming Fields}

/-- It holds in every run. -/
theorem accounted_reaches
    (h : Reaches (Streaming.step serialize deserialize recording identity) Streaming.Any Streaming.init s) :
    Accounted s :=
  h.invariant Accounted accounted_init fun _ hinv _ hstep => hinv.flow (Streaming.step_flow hstep)

/-- **In any run, entries are given to consumers in the order in which they were appended**, each at most
once; what nobody was given waits behind them, or was trimmed or lost by the server before. -/
theorem entries_in_order
    (h : Reaches (Streaming.step serialize deserialize recording identity) Streaming.Any Streaming.init s) :
    (s.claims.map Claim.serial ++ serials s.waiting).Pairwise (· < ·)
      ∧ (s.claims.map Claim.serial ++ serials s.waiting ++ s.dropped).Perm (List.range s.appended) := by
  have hacc := accounted_reaches h
  exact ⟨hacc.increasing, hacc.account⟩

end Runs

/-- An event of the example. -/
def orderCreated (id : String) : Event where
  eventId := id
  eventType := "order.created"
  source := "shop"
  timestamp := "2024-01-01T00:00:00+00:00"
  payload := []

/-- A step of the example, where the fields of an entry are the id of its event. -/
def sampleStep : Streaming String → BusStep String → Option (Streaming String) :=
  Streaming.step (fun event => some event.eventId) (fun id => some (orderCreated id)) true fun _ => "host"

/-- Two processes consume. An event is appended twice, as the answer to the first `XADD` was lost; the server
loses one of a second event; and the second process never hears what it was given. -/
def sampleSteps : List (BusStep String) :=
  [.subscribe 0 "order.created" ⟨0, "mail"⟩, .subscribe 0 "order.created" ⟨1, "audit"⟩, .start 0 .answered,
    .start 1 .answered, .publish 0 (orderCreated "a") true 0, .add 0 1 0 true, .turn 0 .check, .turn 1 .check,
    .turn 0 (.read .answered), .add 0 2 0 false, .turn 1 (.read (.lost false)), .turn 0 .take,
      .turn 0 (.mark true 1),
    .turn 0 (.call (some "boom")), .turn 0 (.call none), .turn 0 .finish, .turn 0 (.record true 5 2),
    .turn 0 (.ack true), .foreign "b" 3 0, .flush, .foreign "c" 4 0]

/-- The example. -/
def sampleRun : Streaming String := runTo sampleStep Streaming.Any Streaming.init sampleSteps

/-- The sample is a run. -/
theorem reaches_sampleRun : Reaches sampleStep Streaming.Any Streaming.init sampleRun :=
  reaches_runTo (by decide +kernel)

/-- The first two entries were given to consumers, the third was lost, and the fourth waits. -/
theorem entries_in_order_sampleRun :
    sampleRun.claims.map Claim.serial = [0, 1] ∧ serials sampleRun.waiting = [3] ∧ 2 ∈ sampleRun.dropped := by
  have hgiven : sampleRun.claims.map Claim.serial = [0, 1] := by decide +kernel
  have hwaiting : serials sampleRun.waiting = [3] := by decide +kernel
  have happended : sampleRun.appended = 4 := by decide +kernel
  have hperm := (entries_in_order reaches_sampleRun).2
  rw [hgiven, hwaiting, happended] at hperm
  refine ⟨hgiven, hwaiting, ?_⟩
  simpa using hperm.symm.subset (show 2 ∈ List.range 4 by decide)

end Jasil.Events
