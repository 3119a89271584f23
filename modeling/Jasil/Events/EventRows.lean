import Jasil.Events.HandlerCalls

/-! # What the event log says
The rows are written by whoever can reach the table, so a row may be behind what happened; but what it says
did happen.

* **`LogFlow`**: what a step does to the table; **`step_consumers`**: and to the consumers.
* **`RowTrue`**: what the status of a row says; **`rows_true`**: it is so.
* **`rows_kept`**: what a row says about its event never changes, and a row of the durable route does not
  change at all. -/

namespace Jasil.Events

open Jobs (Event)

variable {Fields : Type}

/-- The row is found for the event. -/
structure EventLog.Of (row : EventLog) (event : Event) : Prop where
  id : row.id = event.eventId
  eventType : row.eventType = event.eventType

/-! ## What a step does to the table -/

/-- **What a step does to the event log**, other than pruning. -/
inductive LogFlow (s s' : Streaming Fields) : Prop
  | still (log : s'.log = s.log)
  | added (event : Event) (status : LogStatus) (now : Instant) (first : status = .published ∨ status = .queued)
      (log : s'.log = s.log.insert (recorded event status now))
  | processing (c : ℕ) (k : Consumer Fields) (entry : StreamEntry Fields) (event : Event) (live : Bool)
      (name : Option String) (worker : String) (now : Instant) (consumer : s.consumers c = some k)
      (stage : k.stage = .marking entry event live name) (log : s'.log = markProcessing s.log event worker now)
  | completed (c : ℕ) (k : Consumer Fields) (entry : StreamEntry Fields) (event : Event) (name : Option String)
      (elapsedMs : ℤ) (now : Instant) (consumer : s.consumers c = some k)
      (stage : k.stage = .recording entry event name none)
      (log : s'.log = markCompleted s.log event name elapsedMs now)
  | failed (c : ℕ) (k : Consumer Fields) (entry : StreamEntry Fields) (event : Event) (name : Option String)
      (failure : String) (elapsedMs : ℤ) (now : Instant) (consumer : s.consumers c = some k)
      (stage : k.stage = .recording entry event name (some failure))
      (log : s'.log = markFailed s.log event name failure elapsedMs now)

/-- The consumer is where it was, or new. -/
def Stays (s : Streaming Fields) (c : ℕ) (k' : Consumer Fields) : Prop :=
  (∃ k, s.consumers c = some k ∧ k'.batch = k.batch ∧ k'.stage = k.stage) ∨ k'.batch = [] ∧ k'.stage = .checking

/-- No consumer takes its turn. -/
structure Aside (s s' : Streaming Fields) : Prop where
  calls : s'.calls = s.calls
  taken : s'.taken = s.taken
  dispatches : s'.dispatches = s.dispatches
  consumers : ∀ c k', s'.consumers c = some k' → Stays s c k'

namespace Streaming

variable {s s' : Streaming Fields} {c : ℕ} {k : Consumer Fields}

/-- A read leaves the event log. -/
theorem log_readStep (s : Streaming Fields) (c : ℕ) (k : Consumer Fields) (reply : Reply) :
    (s.readStep c k reply).log = s.log := by
  unfold readStep
  split <;> rfl

section Step

variable {serialize : Event → Option Fields} {deserialize : Fields → Option Event} {recording : Bool}
  {identity : ℕ → String} {a : BusStep Fields} {t : Turn}

/-- Taking an entry writes no row. -/
theorem log_takeStep : (s.takeStep deserialize recording c k).log = s.log := by
  rw [takeStep]
  split
  · rfl
  · split <;> rfl

/-- A turn of a consumer writes the rows of what it does. -/
theorem turn_log (hk : s.consumers c = some k) (h : s.turn deserialize recording identity c k t = some s') :
    LogFlow s s' := by
  unfold turn at h
  split at h
  case h_1 | h_9 =>
    obtain rfl := Option.some.inj h
    exact .still rfl
  case h_2 reply _ =>
    obtain ⟨server, heq, -⟩ := s.ensureGroup_eq reply
    obtain ⟨-, hsome⟩ := Option.ite_none_right_eq_some.mp h
    obtain rfl := Option.some.inj hsome
    rw [heq]
    exact .still rfl
  case h_3 reply _ =>
    obtain ⟨-, hsome⟩ := Option.ite_none_left_eq_some.mp h
    obtain rfl := Option.some.inj hsome
    exact .still (s.log_readStep c k reply)
  case h_4 =>
    obtain rfl := Option.some.inj h
    exact .still log_takeStep
  case h_5 recorded now entry event live name hstage =>
    obtain rfl := Option.some.inj h
    cases recorded with
    | true => exact .processing c k entry event live name _ now hk hstage rfl
    | false => exact .still rfl
  case h_6 =>
    obtain ⟨handler, -, rfl⟩ := Option.map_eq_some_iff.mp h
    exact .still rfl
  case h_7 =>
    obtain ⟨-, hsome⟩ := Option.ite_none_right_eq_some.mp h
    obtain rfl := Option.some.inj hsome
    exact .still rfl
  case h_8 recorded elapsedMs now entry event name failure hstage =>
    obtain rfl := Option.some.inj h
    cases recorded with
    | true =>
      cases failure with
      | none => exact .completed c k entry event name elapsedMs now hk hstage rfl
      | some failure => exact .failed c k entry event name failure elapsedMs now hk hstage rfl
    | false => exact .still rfl
  case h_10 => cases h

/-- Only pruning deletes rows. -/
theorem step_log (h : s.step serialize deserialize recording identity a = some s') :
    LogFlow s s' ∨ ∃ cutoff size page, a = .prune cutoff size page
      ∧ s.log.IsPage (fun row => row.createdAt < cutoff) size page
      ∧ s' = { s with log := deleteEventsBatch s.log page } := by
  cases a with
  | subscribe b eventType handler =>
    obtain rfl := Option.some.inj h
    exact .inl (.still rfl)
  | start b reply =>
    obtain ⟨server, heq, -⟩ := s.ensureGroup_eq reply
    rw [step] at h
    dsimp only at h
    split at h
    · obtain rfl := Option.some.inj h
      exact .inl (.still rfl)
    · split at h
      · obtain rfl := Option.some.inj h
        rw [heq]
        exact .inl (.still rfl)
      · obtain rfl := Option.some.inj h
        rw [heq]
        exact .inl (.still rfl)
  | stop b =>
    rw [step] at h
    dsimp only at h
    split at h
    · obtain rfl := Option.some.inj h
      exact .inl (.still rfl)
    · obtain rfl := Option.some.inj h
      exact .inl (.still rfl)
  | publish p event recorded now =>
    rw [step] at h
    split at h
    · obtain rfl := Option.some.inj h
      -- a row is added by whoever records, if it is recorded at all
      by_cases hrecorded : (recording && recorded) = true
      · exact .inl (.added event .published now (.inl rfl) (if_pos hrecorded))
      · exact .inl (.still (if_neg hrecorded))
    · cases h
  | add p id trim again =>
    rw [step] at h
    split at h
    · obtain ⟨s₁, hadd, rfl⟩ := Option.map_eq_some_iff.mp h
      obtain ⟨server, appended, dropped, rfl⟩ := xadd_eq hadd
      exact .inl (.still rfl)
    · cases h
  | giveUp p =>
    obtain rfl := Option.some.inj h
    exact .inl (.still rfl)
  | foreign fields id trim =>
    obtain ⟨server, appended, dropped, rfl⟩ := xadd_eq h
    exact .inl (.still rfl)
  | flush =>
    obtain rfl := Option.some.inj h
    exact .inl (.still rfl)
  | turn c t =>
    obtain ⟨k, hk, hturn⟩ := Option.bind_eq_some_iff.mp h
    exact .inl (turn_log hk hturn)
  | die c =>
    obtain rfl := Option.some.inj h
    exact .inl (.still rfl)
  | queue event now =>
    obtain rfl := Option.some.inj h
    by_cases hrecording : recording = true
    · exact .inl (.added event .queued now (.inr rfl) (if_pos hrecording))
    · exact .inl (.still (if_neg hrecording))
  | prune cutoff size page =>
    rw [step] at h
    split at h
    · rename_i hpage
      obtain rfl := Option.some.inj h
      exact .inr ⟨cutoff, size, page, rfl, hpage, rfl⟩
    · cases h

/-- **A consumer takes its turn, or none does**: then the consumers stay where they are, but that one may be
new. -/
theorem step_consumers (h : s.step serialize deserialize recording identity a = some s') :
    (∃ c k t, s.consumers c = some k ∧ s.turn deserialize recording identity c k t = some s') ∨ Aside s s' := by
  have hquiet {s' : Streaming Fields} (hcalls : s'.calls = s.calls) (htaken : s'.taken = s.taken)
      (hdispatches : s'.dispatches = s.dispatches) (hconsumers : s'.consumers = s.consumers) : Aside s s' := by
    refine ⟨hcalls, htaken, hdispatches, fun c k hk => .inl ⟨k, ?_, rfl, rfl⟩⟩
    rwa [hconsumers] at hk
  have hset {s' : Streaming Fields} {c : ℕ} {k' : Option (Consumer Fields)} (hcalls : s'.calls = s.calls)
      (htaken : s'.taken = s.taken) (hdispatches : s'.dispatches = s.dispatches)
      (hconsumers : s'.consumers = Function.update s.consumers c k')
      (hk' : ∀ k₁ ∈ k', Stays s c k₁) : Aside s s' := by
    refine ⟨hcalls, htaken, hdispatches, fun c₀ k₀ hk₀ => ?_⟩
    rw [hconsumers] at hk₀
    rcases consumers_set hk₀ with ⟨rfl, hk₁⟩ | ⟨-, hk₁⟩
    · exact hk' k₀ hk₁
    · exact .inl ⟨k₀, hk₁, rfl, rfl⟩
  cases a with
  | turn c t =>
    obtain ⟨k, hk, hturn⟩ := Option.bind_eq_some_iff.mp h
    exact .inl ⟨c, k, t, hk, hturn⟩
  | start b reply =>
    right
    obtain ⟨server, heq, -⟩ := s.ensureGroup_eq reply
    rw [step] at h
    dsimp only at h
    split at h
    · obtain rfl := Option.some.inj h
      exact hquiet rfl rfl rfl rfl
    · split at h
      · obtain rfl := Option.some.inj h
        rw [heq]
        -- a consumer that starts is new and has taken nothing up
        refine hset rfl rfl rfl rfl fun k₁ hk₁ => ?_
        rw [← Option.some.inj hk₁]
        exact .inr ⟨rfl, rfl⟩
      · obtain rfl := Option.some.inj h
        rw [heq]
        exact hquiet rfl rfl rfl rfl
  | stop b =>
    right
    rw [step] at h
    dsimp only at h
    split at h
    · obtain rfl := Option.some.inj h
      exact hquiet rfl rfl rfl rfl
    · obtain rfl := Option.some.inj h
      refine hset rfl rfl rfl rfl fun k₁ hk₁ => ?_
      obtain ⟨k, hk, rfl⟩ := Option.map_eq_some_iff.mp hk₁
      exact .inl ⟨k, hk, rfl, rfl⟩
  | publish | prune =>
    right
    rw [step] at h
    split at h
    · obtain rfl := Option.some.inj h
      exact hquiet rfl rfl rfl rfl
    · cases h
  | add p id trim again =>
    right
    rw [step] at h
    split at h
    · obtain ⟨s₁, hadd, rfl⟩ := Option.map_eq_some_iff.mp h
      obtain ⟨server, appended, dropped, rfl⟩ := xadd_eq hadd
      exact hquiet rfl rfl rfl rfl
    · cases h
  | foreign fields id trim =>
    obtain ⟨server, appended, dropped, rfl⟩ := xadd_eq h
    exact .inr (hquiet rfl rfl rfl rfl)
  | die c =>
    obtain rfl := Option.some.inj h
    exact .inr (hset rfl rfl rfl rfl (by rintro k ⟨⟩))
  | subscribe | giveUp | flush | queue =>
    obtain rfl := Option.some.inj h
    exact .inr (hquiet rfl rfl rfl rfl)

end Step

end Streaming

/-! ## What a row says -/

section Says

variable (s : Streaming Fields)

/-- **What the status of a row says.** -/
def RowTrue (row : EventLog) : Prop :=
  match row.status with
  | .published | .queued => True
  | .processing => ∃ event ∈ s.taken, row.Of event
  | .completed => ∃ d ∈ s.dispatches, ∃ event ∈ d.event, row.Of event ∧ d.failure = none
  | .failed => ∃ d ∈ s.dispatches, ∃ event ∈ d.event, row.Of event ∧
      ∃ failure ∈ d.failure, row.errorMessage = fitLength (some failure) maxStoredErrorLength
  | .deadLetter => False

/-- What a consumer is about to write is so. -/
def StageTrue : Stage Fields → Prop
  | .marking _ event .. | .calling _ event .. => event ∈ s.taken
  | .recording _ event _ failure => ∃ d ∈ s.dispatches, d.event = some event ∧ d.failure = failure
  | _ => True

/-- **Every consumer's stage says what has happened**: its entry was taken, and what it gathered was raised.
-/
def StagesTrue : Prop := ∀ c k, s.consumers c = some k → StageTrue s k.stage

end Says

section Onward

variable {serialize : Event → Option Fields} {deserialize : Fields → Option Event} {recording : Bool}
  {identity : ℕ → String} {s s' : Streaming Fields} {a : BusStep Fields} {t : Turn} {c : ℕ} {k : Consumer Fields}
  {row : EventLog}

/-- What happened stays so, and what the consumers are about to write is so. -/
structure Onward (s s' : Streaming Fields) : Prop where
  taken : s.taken ⊆ s'.taken
  dispatches : s.dispatches ⊆ s'.dispatches
  stages : StagesTrue s'

/-- What a stage says stays true. -/
theorem StageTrue.mono {stage : Stage Fields} (h : StageTrue s stage) (htaken : s.taken ⊆ s'.taken)
    (hdispatches : s.dispatches ⊆ s'.dispatches) : StageTrue s' stage := by
  cases stage with
  | marking | calling => exact htaken h
  | recording entry event name failure =>
    obtain ⟨d, hd, heq⟩ := h
    exact ⟨d, hdispatches hd, heq⟩
  | checking | polling | dispatching | acking => trivial

/-- What a row says stays true. -/
theorem RowTrue.mono (h : RowTrue s row) (htaken : s.taken ⊆ s'.taken)
    (hdispatches : s.dispatches ⊆ s'.dispatches) :
    RowTrue s' row := by
  rw [RowTrue] at h ⊢
  cases hstatus : row.status with
  | published | queued => trivial
  | processing =>
    rw [hstatus] at h
    obtain ⟨event, hevent, hof⟩ := h
    exact ⟨event, htaken hevent, hof⟩
  | completed | failed =>
    rw [hstatus] at h
    obtain ⟨d, hd, hrest⟩ := h
    exact ⟨d, hdispatches hd, hrest⟩
  | deadLetter =>
    rw [hstatus] at h
    exact h

/-- A step of a consumer. -/
theorem StagesTrue.goes (h : StagesTrue s) (c : ℕ) (k' : Option (Consumer Fields))
    (hk' : ∀ k₁ ∈ k', StageTrue s' k₁.stage) (htaken : s.taken ⊆ s'.taken)
    (hdispatches : s.dispatches ⊆ s'.dispatches) (hconsumers : s'.consumers = Function.update s.consumers c k') :
    Onward s s' where
  taken := htaken
  dispatches := hdispatches
  stages := by
    intro c₀ k₀ hk₀
    rw [hconsumers] at hk₀
    rcases consumers_set hk₀ with ⟨-, hk₁⟩ | ⟨-, hk₁⟩
    · exact hk' k₀ hk₁
    · exact (h c₀ k₀ hk₁).mono htaken hdispatches

/-- After a read the stages are still true, and nothing is forgotten. -/
theorem StagesTrue.read (h : StagesTrue s) (reply : Reply) : Onward s (s.readStep c k reply) := by
  have hset {s' : Streaming Fields} {k' : Consumer Fields} (hk' : StageTrue s' k'.stage)
      (htaken : s'.taken = s.taken)
      (hdispatches : s'.dispatches = s.dispatches)
      (hconsumers : s'.consumers = Function.update s.consumers c (some k')) : Onward s s' := by
    refine h.goes c (some k') (fun k₁ hk₁ => ?_) ?_ ?_ hconsumers
    · rwa [← Option.some.inj hk₁]
    · rw [htaken]
      exact List.Subset.refl _
    · rw [hdispatches]
      exact List.Subset.refl _
  unfold Streaming.readStep
  split
  · refine hset ?_ rfl rfl rfl
    trivial
  · refine hset ?_ rfl rfl rfl
    trivial
  · refine hset ?_ rfl rfl rfl
    trivial
  · refine hset ?_ rfl rfl rfl
    dsimp only
    split <;> trivial
  · refine hset ?_ rfl rfl rfl
    dsimp only
    split <;> trivial

/-- So they are after an entry was taken. -/
theorem StagesTrue.take (h : StagesTrue s) : Onward s (s.takeStep deserialize recording c k) := by
  rw [Streaming.takeStep]
  split
  · refine h.goes c _ (fun k₁ hk₁ => ?_) (List.Subset.refl _) (List.Subset.refl _) rfl
    rw [← Option.some.inj hk₁]
    trivial
  · split
    · refine h.goes c _ (fun k₁ hk₁ => ?_) (List.Subset.refl _) (List.subset_append_left ..) rfl
      rw [← Option.some.inj hk₁]
      trivial
    · refine h.goes c _ (fun k₁ hk₁ => ?_) (List.subset_append_left ..) (List.Subset.refl _) rfl
      rw [← Option.some.inj hk₁]
      cases recording with
      | true => exact List.mem_append_right _ (List.mem_singleton_self _)
      | false => exact List.mem_append_right _ (List.mem_singleton_self _)

/-- So they are after a turn of a consumer. -/
theorem StagesTrue.turn (h : StagesTrue s) (hk : s.consumers c = some k)
    (hturn : s.turn deserialize recording identity c k t = some s') : Onward s s' := by
  have hstage := h c k hk
  unfold Streaming.turn at hturn
  split at hturn
  case h_1 =>
    obtain rfl := Option.some.inj hturn
    refine h.goes c _ (fun k₁ hk₁ => ?_) (List.Subset.refl _) (List.Subset.refl _) rfl
    obtain ⟨-, hsome⟩ := Option.ite_none_left_eq_some.mp hk₁
    rw [← Option.some.inj hsome]
    trivial
  case h_2 reply _ =>
    obtain ⟨server, heq, -⟩ := s.ensureGroup_eq reply
    obtain ⟨-, hsome⟩ := Option.ite_none_right_eq_some.mp hturn
    obtain rfl := Option.some.inj hsome
    rw [heq]
    refine h.goes c _ (fun k₁ hk₁ => ?_) (List.Subset.refl _) (List.Subset.refl _) rfl
    rw [← Option.some.inj hk₁]
    dsimp only
    split <;> trivial
  case h_3 reply _ =>
    obtain ⟨-, hsome⟩ := Option.ite_none_left_eq_some.mp hturn
    obtain rfl := Option.some.inj hsome
    exact h.read reply
  case h_4 =>
    obtain rfl := Option.some.inj hturn
    exact h.take
  case h_5 recorded now entry event live name heq =>
    obtain rfl := Option.some.inj hturn
    rw [heq] at hstage
    refine h.goes c _ (fun k₁ hk₁ => ?_) (List.Subset.refl _) (List.Subset.refl _) rfl
    rw [← Option.some.inj hk₁]
    exact hstage
  case h_6 error entry event live name next errors heq =>
    obtain ⟨handler, -, rfl⟩ := Option.map_eq_some_iff.mp hturn
    rw [heq] at hstage
    refine h.goes c _ (fun k₁ hk₁ => ?_) (List.Subset.refl _) (List.Subset.refl _) rfl
    rw [← Option.some.inj hk₁]
    exact hstage
  case h_7 =>
    obtain ⟨-, hsome⟩ := Option.ite_none_right_eq_some.mp hturn
    obtain rfl := Option.some.inj hsome
    refine h.goes c _ (fun k₁ hk₁ => ?_) (List.Subset.refl _) (List.subset_append_left ..) rfl
    rw [← Option.some.inj hk₁]
    cases recording with
    | true => exact ⟨_, List.mem_append_right _ (List.mem_singleton_self _), rfl, rfl⟩
    | false => trivial
  case h_8 | h_9 =>
    obtain rfl := Option.some.inj hturn
    refine h.goes c _ (fun k₁ hk₁ => ?_) (List.Subset.refl _) (List.Subset.refl _) rfl
    rw [← Option.some.inj hk₁]
    trivial
  case h_10 => cases hturn

/-- **So they are after every step.** -/
theorem StagesTrue.step (h : StagesTrue s)
    (hstep : s.step serialize deserialize recording identity a = some s') :
    Onward s s' := by
  rcases Streaming.step_consumers hstep with ⟨c, k, t, hk, hturn⟩ | haside
  · exact h.turn hk hturn
  · have htaken : s.taken ⊆ s'.taken := by
      rw [haside.taken]
      exact List.Subset.refl _
    have hdispatches : s.dispatches ⊆ s'.dispatches := by
      rw [haside.dispatches]
      exact List.Subset.refl _
    refine ⟨htaken, hdispatches, fun c k hk => ?_⟩
    rcases haside.consumers c k hk with ⟨k₀, hk₀, -, hstage⟩ | ⟨-, hstage⟩
    · rw [hstage]
      exact (h c k₀ hk₀).mono htaken hdispatches
    · rw [hstage]
      trivial

/-! ## What the rows say -/

/-- The row that a transition finds is one of its event. -/
theorem BusRow.of {event : Event} (h : BusRow event row) (m : Marking) : (m.apply row).Of event := ⟨h.1, h.2.1⟩

/-- The rows stay true where the stages are. -/
theorem RowTrue.flow (h : ∀ row ∈ s.log.rows, RowTrue s row) (hstages : StagesTrue s) (honward : Onward s s')
    (hflow : LogFlow s s') : ∀ row ∈ s'.log.rows, RowTrue s' row := by
  have hold : ∀ row ∈ s.log.rows, RowTrue s' row :=
    fun row hrow => (h row hrow).mono honward.taken honward.dispatches
  intro row hrow
  cases hflow with
  | still log =>
    rw [log] at hrow
    exact hold row hrow
  | added event status now first log =>
    rw [log] at hrow
    rcases mem_insert_recorded hrow with hrow | rfl
    · exact hold row hrow
    · rcases first with rfl | rfl <;> trivial
  | processing c k entry event live name worker now consumer stage log =>
    rw [log] at hrow
    rcases mem_mark hrow with hrow | ⟨row₀, -, hbus, rfl⟩
    · exact hold row hrow
    · have htaken := hstages c k consumer
      rw [stage] at htaken
      exact ⟨event, honward.taken htaken, hbus.of _⟩
  | completed c k entry event name elapsedMs now consumer stage log =>
    rw [log] at hrow
    rcases mem_mark hrow with hrow | ⟨row₀, -, hbus, rfl⟩
    · exact hold row hrow
    · have hdone := hstages c k consumer
      rw [stage] at hdone
      obtain ⟨d, hd, hevent, hfailure⟩ := hdone
      exact ⟨d, honward.dispatches hd, event, hevent, hbus.of _, hfailure⟩
  | failed c k entry event name failure elapsedMs now consumer stage log =>
    rw [log] at hrow
    rcases mem_mark hrow with hrow | ⟨row₀, -, hbus, rfl⟩
    · exact hold row hrow
    · have hdone := hstages c k consumer
      rw [stage] at hdone
      obtain ⟨d, hd, hevent, hfailure⟩ := hdone
      exact ⟨d, honward.dispatches hd, event, hevent, hbus.of _, failure, hfailure, rfl⟩

/-- What the rows say is so: who is `processing` was taken up, and who is `completed` or `failed` was
dispatched with that outcome, for an event of this id and type. -/
theorem rows_true
    (h : Reaches (Streaming.step serialize deserialize recording identity) Streaming.Any Streaming.init s) :
    ∀ row ∈ s.log.rows, RowTrue s row := by
  have hinv : StagesTrue s ∧ ∀ row ∈ s.log.rows, RowTrue s row := by
    refine h.invariant (fun s => StagesTrue s ∧ ∀ row ∈ s.log.rows, RowTrue s row) ⟨?_,
      ?_⟩ fun _ hinv _ hstep => ?_
    · rintro c k ⟨⟩
    · rintro row ⟨⟩
    · obtain ⟨hstages, hrows⟩ := hinv
      have honward := hstages.step hstep
      refine ⟨honward.stages, ?_⟩
      rcases Streaming.step_log hstep with hflow | ⟨cutoff, size, page, -, -, rfl⟩
      · exact RowTrue.flow hrows hstages honward hflow
      · intro row hrow
        exact hrows row (Table.mem_delete.mp hrow).1
  exact hinv.2

/-! ## What stays -/

/-- The row says the same about its event, and where it is of the durable route it is the same. -/
structure RowKept (row row' : EventLog) : Prop where
  event : row.SameEvent row'
  queued : row.status = .queued ∨ row'.status = .queued → row' = row

/-- One event throughout two changes. -/
theorem EventLog.SameEvent.trans {row row' row'' : EventLog} (h : row.SameEvent row')
    (h' : row'.SameEvent row'') :
    row.SameEvent row'' where
  id := h'.id.trans h.id
  eventType := h'.eventType.trans h.eventType
  eventSource := h'.eventSource.trans h.eventSource
  eventPayload := h'.eventPayload.trans h.eventPayload
  eventMetadata := h'.eventMetadata.trans h.eventMetadata
  retryCount := h'.retryCount.trans h.retryCount
  createdAt := h'.createdAt.trans h.createdAt

/-- A row that does not change is kept. -/
theorem RowKept.refl (row : EventLog) : RowKept row row := ⟨.refl row, fun _ => rfl⟩

/-- A row that is kept twice is kept. -/
theorem RowKept.trans {row row' row'' : EventLog} (h : RowKept row row') (h' : RowKept row' row'') :
    RowKept row row'' where
  event := h.event.trans h'.event
  queued := by
    rintro (hqueued | hqueued)
    · obtain rfl := h.queued (.inl hqueued)
      exact h'.queued (.inl hqueued)
    · obtain rfl := h'.queued (.inr hqueued)
      exact h.queued (.inr hqueued)

/-- An insert deletes no row. -/
theorem mem_insert_of_mem {log : LogTable} {r : EventLog} (hrow : row ∈ log.rows) :
    row ∈ (log.insert r).rows := by
  cases hget : log.get r.id with
  | none =>
    rw [Table.rows_insert_of_new hget]
    exact List.mem_append_left _ hrow
  | some row₀ => rwa [Table.insert_of_taken hget]

/-- A marking keeps every row, unless it sets one back to queued. -/
theorem exists_kept_mark {log : LogTable} {event : Event} {m : Marking} (hm : m.status ≠ .queued)
    (hrow : row ∈ log.rows) : ∃ row' ∈ (mark log event m).rows, RowKept row row' := by
  refine ⟨_, Table.mem_update.mpr ⟨row, hrow, rfl⟩, ?_⟩
  by_cases hbus : BusRow event row
  · rw [if_pos hbus]
    refine ⟨sameEvent_apply m row, ?_⟩
    rintro (hqueued | hqueued)
    · exact absurd hqueued hbus.2.2
    · rw [status_apply] at hqueued
      exact absurd hqueued hm
  · rw [if_neg hbus]
    exact .refl row

/-- Every row is kept by what a step writes. -/
theorem LogFlow.kept (h : LogFlow s s') (hrow : row ∈ s.log.rows) : ∃ row' ∈ s'.log.rows, RowKept row row' := by
  cases h with
  | still log =>
    rw [log]
    exact ⟨row, hrow, .refl row⟩
  | added event status now first log =>
    rw [log]
    exact ⟨row, mem_insert_of_mem hrow, .refl row⟩
  | processing c k entry event live name worker now consumer stage log =>
    rw [log]
    exact exists_kept_mark (by rintro ⟨⟩) hrow
  | completed c k entry event name elapsedMs now consumer stage log =>
    rw [log]
    exact exists_kept_mark (by rintro ⟨⟩) hrow
  | failed c k entry event name failure elapsedMs now consumer stage log =>
    rw [log]
    exact exists_kept_mark (by rintro ⟨⟩) hrow

/-- What was recorded from `created` on is not pruned. -/
def Spares (created : Instant) (_ : Streaming Fields) : BusStep Fields → Prop
  | .prune cutoff .. => cutoff ≤ created
  | _ => True

/-- **While it is not old enough to be pruned, a row stays**, with what it says about its event, whoever uses
its id again; and a row of the durable route stays as it is. -/
theorem rows_kept (h : Reaches (Streaming.step serialize deserialize recording identity)
    (Spares row.createdAt) s s')
    (hrow : row ∈ s.log.rows) :
    ∃ row' ∈ s'.log.rows, row.SameEvent row' ∧ (row.status = .queued ∨ row'.status = .queued → row' = row) := by
  have hkept : ∃ row' ∈ s'.log.rows, RowKept row row' := by
    refine h.invariant (fun s' => ∃ row' ∈ s'.log.rows, RowKept row row') ⟨row, hrow, .refl row⟩
      fun _ hinv hspares hstep => ?_
    obtain ⟨row', hrow', hkept⟩ := hinv
    rcases Streaming.step_log hstep with hflow | ⟨cutoff, size, page, rfl, hpage, rfl⟩
    · obtain ⟨row'', hrow'', hkept'⟩ := hflow.kept hrow'
      exact ⟨row'', hrow'', hkept.trans hkept'⟩
    · refine ⟨row', (Table.mem_deletePage ?_).mpr ⟨hrow', fun hmem => ?_⟩, hkept⟩
      · exact Table.nodup _
      · have hold := hpage.match_of_deleted hrow' hmem
        rw [hkept.event.createdAt] at hold
        exact absurd hspares (not_le_of_gt hold)
  obtain ⟨row', hrow', hkept⟩ := hkept
  exact ⟨row', hrow', hkept.event, hkept.queued⟩

end Onward

instance (created : Instant) (s : Streaming Fields) : DecidablePred (Spares created s)
  | .prune cutoff .. => inferInstanceAs (Decidable (cutoff ≤ created))
  | .subscribe .. | .start .. | .stop _ | .publish .. | .add .. | .giveUp _ | .foreign .. | .flush | .turn ..
    | .die _
  | .queue .. => .isTrue trivial

/-- An event was staged for the durable route. -/
def queuedRun : Streaming String := runTo sampleStep Streaming.Any Streaming.init [.queue (orderCreated "a") 5]

/-- Its id is used again, for an event of the same type that goes over the bus. -/
def reusedRun : Streaming String :=
  runTo sampleStep (Spares 5) queuedRun
    [.subscribe 0 "order.created" ⟨0, "mail"⟩, .start 0 .answered, .publish 0 (orderCreated "a") true 6,
      .add 0 1 0 false, .turn 0 .check, .turn 0 (.read .answered), .turn 0 .take, .turn 0 (.mark true 7),
      .turn 0 (.call none), .turn 0 .finish, .turn 0 (.record true 1 8), .prune 5 10 []]

/-- The row of the first is as it was. -/
theorem rows_kept_reusedRun : ∃ row ∈ queuedRun.log.rows, row.status = .queued ∧ row ∈ reusedRun.log.rows := by
  have hqueued : ∃ row ∈ queuedRun.log.rows, row.status = .queued ∧ row.createdAt = 5 := by decide +kernel
  have hr : Reaches sampleStep (Spares 5) queuedRun reusedRun := reaches_runTo (by decide +kernel)
  obtain ⟨row, hrow, hstatus, hcreated⟩ := hqueued
  rw [← hcreated] at hr
  obtain ⟨row', hrow', -, hsame⟩ := rows_kept hr hrow
  rw [hsame (.inl hstatus)] at hrow'
  exact ⟨row, hrow, hstatus, hrow'⟩

end Jasil.Events
