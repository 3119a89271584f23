import Jasil.Events.EventRows

/-! # What the handlers raised
Whatever one handler raises, the others are called; the outcome of an entry says whether one of them raised,
and so does the row of its event.

* **`raised`**: what the handlers of an entry raised.
* **`Gathered`**: what the consumers gathered of it, and what their dispatches say.
* **`row_outcomes`**: so it is after any run. -/

namespace Jasil.Events

open Jobs (Event)

variable {Fields : Type}

/-- What the handlers that were called for an entry raised, in order. -/
def raised (calls : List HandlerCall) (serial : ℕ) : List String :=
  (calls.filter fun call => call.serial = serial).filterMap HandlerCall.error

/-- The entry whose handlers a consumer calls, and what they raised so far. -/
def Stage.gathered : Stage Fields → Option (StreamEntry Fields × List String)
  | .marking entry .. => some (entry, [])
  | .calling entry _ _ _ _ errors => some (entry, errors)
  | .checking | .polling | .dispatching | .recording .. | .acking _ => none

section Lists

variable {calls : List HandlerCall} {call : HandlerCall} {n : ℕ}

/-- One more call of a dispatch adds its error. -/
theorem raised_concat :
    raised (calls ++ [call]) n = raised calls n ++ if call.serial = n then call.error.toList else [] := by
  rw [raised, raised, List.filter_append, List.filterMap_append]
  by_cases h : call.serial = n
  · cases he : call.error <;> simp [h, he]
  · simp [h]

/-- A call of another dispatch adds none. -/
theorem raised_concat_of_ne (h : call.serial ≠ n) : raised (calls ++ [call]) n = raised calls n := by
  simp [raised_concat, h]

/-- Without a call there is no error. -/
theorem raised_of_called_eq_nil (h : called calls n = []) : raised calls n = [] := by
  rw [called, List.map_eq_nil_iff] at h
  rw [raised, h, List.filterMap_nil]

/-- There is no error exactly when no call raised. -/
theorem raised_eq_nil_iff : raised calls n = [] ↔ ∀ call ∈ calls, call.serial = n → call.error = none := by
  simp [raised, List.filterMap_eq_nil_iff]

/-- There is no failure text exactly when there is no error. -/
theorem failureText_eq_none_iff {eventType : String} {handlers : List Handler} {errors : List String} :
    failureText eventType handlers errors = none ↔ errors = [] := by
  rcases errors with - | ⟨error, - | ⟨error', errors⟩⟩
  · simp [failureText]
  · simp [failureText]
  · simp [failureText]

/-- What has gathered errors has its entry. -/
theorem Stage.entry_of_gathered {stage : Stage Fields} {p : StreamEntry Fields × List String}
    (h : p ∈ stage.gathered) : stage.entry = some p.1 := by
  cases stage with
  | marking | calling =>
    obtain rfl := Option.some.inj h
    rfl
  | checking | polling | dispatching | recording | acking => cases h

end Lists

/-! ## The invariant -/

/-- Nobody is done with the entry. -/
def Undone (s : Streaming Fields) (serial : ℕ) : Prop := ∀ d ∈ s.dispatches, d.serial ≠ serial

/-- What a consumer gathered. -/
structure GatherOk (s : Streaming Fields) (k : Consumer Fields) : Prop where
  batch : ∀ e ∈ k.batch, Undone s e.value.serial
  stage : ∀ p ∈ k.stage.gathered, raised s.calls p.1.value.serial = p.2 ∧ Undone s p.1.value.serial

/-- **What the consumers gathered of what was raised, and what their dispatches say.** -/
structure Gathered (s : Streaming Fields) : Prop where
  consumers : ∀ c k, s.consumers c = some k → GatherOk s k
  dispatches : ∀ d ∈ s.dispatches, ∀ event ∈ d.event, d.failure = none ↔ raised s.calls d.serial = []

/-- In the beginning nothing is gathered. -/
theorem gathered_init : Gathered (Streaming.init : Streaming Fields) where
  consumers := by rintro c k ⟨⟩
  dispatches := by rintro d ⟨⟩

section Steps

variable {serialize : Event → Option Fields} {deserialize : Fields → Option Event} {recording : Bool}
  {identity : ℕ → String} {s s' : Streaming Fields} {a : BusStep Fields} {t : Turn} {c : ℕ}
  {k k' : Consumer Fields} {entry : StreamEntry Fields}

/-- Entries in the hands of different consumers are different. -/
theorem Handled.same_consumer (h : Handled deserialize s) (hacc : Accounted s) {c₀ : ℕ} {k₀ : Consumer Fields}
    {e e₀ : StreamEntry Fields} (hk : s.consumers c = some k) (hk₀ : s.consumers c₀ = some k₀) (he : e ∈ k.hand)
    (he₀ : e₀ ∈ k₀.hand) (heq : e₀.value.serial = e.value.serial) : c₀ = c := by
  obtain ⟨claim, hclaim, hof⟩ := (h.consumers c k hk).claimed e he
  obtain ⟨claim₀, hclaim₀, hof₀⟩ := (h.consumers c₀ k₀ hk₀).claimed e₀ he₀
  have hsame := hacc.claim_eq hclaim₀ hclaim (hof₀.serial.trans (heq.trans hof.serial.symm))
  rw [← hof₀.consumer, hsame, hof.consumer]

/-- An entry that is being dispatched is in hand. -/
theorem Consumer.mem_hand_of_gathered {p : StreamEntry Fields × List String} (h : p ∈ k.stage.gathered) :
    p.1 ∈ k.hand := by
  rw [Consumer.hand, Stage.entry_of_gathered h]
  exact List.mem_cons_self

/-- What was gathered stays so when the consumer goes on. -/
theorem GatherOk.goes (h : GatherOk s k) (hbatch : k'.batch ⊆ k.batch)
    (hstage : k'.stage.gathered = none ∨ k'.stage.gathered = k.stage.gathered) : GatherOk s k' where
  batch := fun e he => h.batch e (hbatch he)
  stage := by
    intro p hp
    rcases hstage with heq | heq
    · rw [heq] at hp
      cases hp
    · rw [heq] at hp
      exact h.stage p hp

/-- A step in which no handler is called and no entry dispatched. -/
theorem Gathered.quiet (h : Gathered s) (hcalls : s'.calls = s.calls)
    (hdispatches : s'.dispatches = s.dispatches)
    (hconsumers : ∀ c k, s'.consumers c = some k → GatherOk s k) : Gathered s' where
  consumers := by
    intro c k hk
    obtain ⟨hbatch, hstage⟩ := hconsumers c k hk
    constructor
    · intro e he
      rw [Undone, hdispatches]
      exact hbatch e he
    · intro p hp
      rw [Undone, hcalls, hdispatches]
      exact hstage p hp
  dispatches := by
    rw [hcalls, hdispatches]
    exact h.dispatches

/-- Such a step of one consumer. -/
theorem Gathered.goes (h : Gathered s) (c : ℕ) (k' : Option (Consumer Fields)) (hk' : ∀ k₁ ∈ k', GatherOk s k₁)
    (hcalls : s'.calls = s.calls) (hdispatches : s'.dispatches = s.dispatches)
    (hconsumers : s'.consumers = Function.update s.consumers c k') : Gathered s' := by
  refine h.quiet hcalls hdispatches fun c₀ k₀ hk₀ => ?_
  rw [hconsumers] at hk₀
  rcases consumers_set hk₀ with ⟨-, hk₁⟩ | ⟨-, hk₁⟩
  · exact hk' k₀ hk₁
  · exact h.consumers c₀ k₀ hk₁

/-- **A handler is called.** -/
theorem Gathered.called (h : Gathered s) (hh : Handled deserialize s) (hacc : Accounted s)
    (hk : s.consumers c = some k) (k' : Consumer Fields) {errors : List String}
    (hgathered : k.stage.gathered = some (entry, errors)) {call : HandlerCall}
    (hserial : call.serial = entry.value.serial) (hbatch : k'.batch = k.batch)
    (hgathered' : k'.stage.gathered = some (entry, errors ++ call.error.toList))
    (hcalls : s'.calls = s.calls ++ [call]) (hdispatches : s'.dispatches = s.dispatches)
    (hconsumers : s'.consumers = Function.update s.consumers c (some k')) : Gathered s' := by
  obtain ⟨hraised, hundone⟩ := (h.consumers c k hk).stage _ hgathered
  have hentry : entry ∈ k.hand := Consumer.mem_hand_of_gathered hgathered
  constructor
  · intro c₀ k₀ hk₀
    rw [hconsumers] at hk₀
    rcases consumers_set hk₀ with ⟨-, hk₁⟩ | ⟨hc, hk₁⟩
    · obtain rfl := Option.some.inj hk₁
      constructor
      · intro e he
        rw [hbatch] at he
        rw [Undone, hdispatches]
        exact (h.consumers c k hk).batch e he
      · intro p hp
        rw [hgathered'] at hp
        obtain rfl := Option.some.inj hp
        rw [Undone, hdispatches, hcalls, raised_concat, if_pos hserial, hraised]
        exact ⟨rfl, hundone⟩
    · constructor
      · intro e he
        rw [Undone, hdispatches]
        exact (h.consumers c₀ k₀ hk₁).batch e he
      · intro p hp
        have hne : call.serial ≠ p.1.value.serial := fun heq =>
          hc (hh.same_consumer hacc hk hk₁ hentry (Consumer.mem_hand_of_gathered hp) (heq.symm.trans hserial))
        rw [Undone, hdispatches, hcalls, raised_concat_of_ne hne]
        exact (h.consumers c₀ k₀ hk₁).stage p hp
  · intro d hd
    rw [hdispatches] at hd
    have hne : call.serial ≠ d.serial := fun heq => hundone d hd (heq.symm.trans hserial)
    rw [hcalls, raised_concat_of_ne hne]
    exact h.dispatches d hd

/-- **An entry is dispatched.** -/
theorem Gathered.dispatched (h : Gathered s) (hh : Handled deserialize s) (hacc : Accounted s)
    (hk : s.consumers c = some k) (k' : Consumer Fields) (hentry : entry ∈ k.hand) (hbatch : k'.batch ⊆ k.batch)
    (hrest : ∀ e ∈ k'.batch, e.value.serial ≠ entry.value.serial) (hgathered : k'.stage.gathered = none)
    {d : Dispatch} (hserial : d.serial = entry.value.serial)
    (hd : ∀ event ∈ d.event, d.failure = none ↔ raised s.calls entry.value.serial = [])
    (hcalls : s'.calls = s.calls) (hdispatches : s'.dispatches = s.dispatches ++ [d])
    (hconsumers : s'.consumers = Function.update s.consumers c (some k')) : Gathered s' := by
  -- only the entry itself stops being undone
  have hundone {n : ℕ} (hundone : Undone s n) (hne : n ≠ entry.value.serial) : Undone s' n := by
    intro d' hd'
    rw [hdispatches] at hd'
    rcases List.mem_append.mp hd' with hd' | hd'
    · exact hundone d' hd'
    · rw [List.mem_singleton.mp hd', hserial]
      exact hne.symm
  constructor
  · intro c₀ k₀ hk₀
    rw [hconsumers] at hk₀
    rcases consumers_set hk₀ with ⟨-, hk₁⟩ | ⟨hc, hk₁⟩
    · obtain rfl := Option.some.inj hk₁
      constructor
      · exact fun e he => hundone ((h.consumers c k hk).batch e (hbatch he)) (hrest e he)
      · intro p hp
        rw [hgathered] at hp
        cases hp
    · -- another consumer has other entries in its hand
      have hother : ∀ e ∈ k₀.hand, e.value.serial ≠ entry.value.serial := fun e he heq =>
        hc (hh.same_consumer hacc hk hk₁ hentry he heq)
      constructor
      · exact fun e he => hundone ((h.consumers c₀ k₀ hk₁).batch e he) (hother e (List.mem_append_right _ he))
      · intro p hp
        obtain ⟨hraised, hun⟩ := (h.consumers c₀ k₀ hk₁).stage p hp
        rw [hcalls]
        exact ⟨hraised, hundone hun (hother p.1 (Consumer.mem_hand_of_gathered hp))⟩
  · intro d' hd'
    rw [hdispatches] at hd'
    rw [hcalls]
    rcases List.mem_append.mp hd' with hd' | hd'
    · exact h.dispatches d' hd'
    · rw [List.mem_singleton.mp hd', hserial]
      exact hd

/-- It is kept by a read. -/
theorem Gathered.read (h : Gathered s) (hh : Handled deserialize s) (hacc : Accounted s)
    (hk : s.consumers c = some k) (reply : Reply) : Gathered (s.readStep c k reply) := by
  have hok := h.consumers c k hk
  have hset {s' : Streaming Fields} {k' : Consumer Fields} (hk' : GatherOk s k') (hcalls : s'.calls = s.calls)
      (hdispatches : s'.dispatches = s.dispatches)
      (hconsumers : s'.consumers = Function.update s.consumers c (some k')) : Gathered s' := by
    refine h.goes c (some k') (fun k₁ hk₁ => ?_) hcalls hdispatches hconsumers
    rwa [← Option.some.inj hk₁]
  have hidle (retried : Bool) : (if retried then Stage.polling else Stage.checking : Stage Fields).gathered
      = none := by
    cases retried <;> rfl
  unfold Streaming.readStep
  split
  · refine hset ?_ rfl rfl rfl
    exact hok.goes (List.Subset.refl _) (.inl rfl)
  · refine hset ?_ rfl rfl rfl
    exact hok.goes (List.Subset.refl _) (.inl rfl)
  · rename_i given log hread
    refine hset ?_ rfl rfl rfl
    constructor
    · -- what waits was dispatched by nobody
      intro e he
      have hwaiting : e ∈ s.waiting := by
        rw [Streaming.waiting_of_read hread]
        exact List.mem_append_left _ he
      exact (hh.untouched hacc hwaiting).2
    · rintro p ⟨⟩
  · rename_i retried _
    refine hset ?_ rfl rfl rfl
    exact hok.goes (List.Subset.refl _) (.inl (hidle retried))
  · rename_i retried _ _ _
    refine hset ?_ rfl rfl rfl
    exact hok.goes (List.Subset.refl _) (.inl (hidle retried))

/-- It is kept when a consumer takes an entry. -/
theorem Gathered.take (h : Gathered s) (hh : Handled deserialize s) (hacc : Accounted s)
    (hk : s.consumers c = some k) : Gathered (s.takeStep deserialize recording c k) := by
  have hok := h.consumers c k hk
  rw [Streaming.takeStep]
  split
  · refine h.goes c _ (fun k₁ hk₁ => ?_) rfl rfl rfl
    rw [← Option.some.inj hk₁]
    exact hok.goes (List.Subset.refl _) (.inl rfl)
  · rename_i entry batch hbatch
    have hsub : batch ⊆ k.batch := by
      rw [hbatch]
      exact List.subset_cons_self ..
    have hentry : entry ∈ k.batch := by
      rw [hbatch]
      exact List.mem_cons_self
    split
    · refine h.dispatched hh hacc hk { k with batch, stage := .acking entry } (List.mem_append_right _ hentry)
        hsub ?_ rfl rfl ?_ rfl rfl rfl
      · have hnodup : (serials k.batch).Nodup :=
          (hh.consumers c k hk).nodup.sublist ((List.sublist_append_right ..).map _)
        rw [hbatch] at hnodup
        intro e he heq
        have hmem : e.value.serial ∈ serials batch := List.mem_map_of_mem he
        rw [heq] at hmem
        exact (List.nodup_cons.mp hnodup).1 hmem
      · rintro event ⟨⟩
    · refine h.goes c _ (fun k₁ hk₁ => ?_) rfl rfl rfl
      rw [← Option.some.inj hk₁]
      -- nothing was raised for an entry that still waits in the batch
      have hfresh : raised s.calls entry.value.serial = [] ∧ Undone s entry.value.serial :=
        ⟨raised_of_called_eq_nil ((hh.consumers c k hk).untouched entry hentry), hok.batch entry hentry⟩
      refine ⟨fun e he => hok.batch e (hsub he), fun p hp => ?_⟩
      cases recording with
      | true | false =>
        obtain rfl := Option.some.inj hp
        exact hfresh

/-- It is kept by a turn of a consumer. -/
theorem Gathered.turn (h : Gathered s) (hh : Handled deserialize s) (hacc : Accounted s)
    (hk : s.consumers c = some k)
    (hturn : s.turn deserialize recording identity c k t = some s') : Gathered s' := by
  have hok := h.consumers c k hk
  unfold Streaming.turn at hturn
  split at hturn
  -- the consumer stops
  case h_1 =>
    obtain rfl := Option.some.inj hturn
    refine h.goes c _ (fun k₁ hk₁ => ?_) rfl rfl rfl
    obtain ⟨-, hsome⟩ := Option.ite_none_left_eq_some.mp hk₁
    rw [← Option.some.inj hsome]
    exact hok.goes (List.Subset.refl _) (.inl rfl)
  -- the group is made again
  case h_2 reply _ =>
    obtain ⟨server, heq, -⟩ := s.ensureGroup_eq reply
    obtain ⟨-, hsome⟩ := Option.ite_none_right_eq_some.mp hturn
    obtain rfl := Option.some.inj hsome
    rw [heq]
    refine h.goes c _ (fun k₁ hk₁ => ?_) rfl rfl rfl
    rw [← Option.some.inj hk₁]
    refine hok.goes (List.Subset.refl _) (.inl ?_)
    dsimp only
    split <;> rfl
  case h_3 reply _ =>
    obtain ⟨-, hsome⟩ := Option.ite_none_left_eq_some.mp hturn
    obtain rfl := Option.some.inj hsome
    exact h.read hh hacc hk reply
  case h_4 =>
    obtain rfl := Option.some.inj hturn
    exact h.take hh hacc hk
  -- the outcome row is begun, and no handler was called yet
  case h_5 recorded now entry event live name hstage =>
    obtain rfl := Option.some.inj hturn
    refine h.goes c _ (fun k₁ hk₁ => ?_) rfl rfl rfl
    rw [← Option.some.inj hk₁]
    refine hok.goes (List.Subset.refl _) (.inr ?_)
    rw [hstage]
    rfl
  -- a handler is called
  case h_6 error entry event live name next errors hstage =>
    obtain ⟨handler, -, rfl⟩ := Option.map_eq_some_iff.mp hturn
    exact h.called hh hacc hk
      { k with stage := .calling entry event live name (next + 1) (errors ++ error.toList) }
      (by rw [hstage]; rfl) rfl rfl rfl rfl rfl rfl
  -- the last handler was called: the errors gathered are those raised for the entry
  case h_7 entry event live name next errors hstage =>
    obtain ⟨-, hsome⟩ := Option.ite_none_right_eq_some.mp hturn
    obtain rfl := Option.some.inj hsome
    have hgathered : k.stage.gathered = some (entry, errors) := by
      rw [hstage]
      rfl
    obtain ⟨hraised, -⟩ := hok.stage _ hgathered
    have hnodup := (hh.consumers c k hk).nodup
    rw [Consumer.hand, Stage.entry_of_gathered hgathered] at hnodup
    refine h.dispatched hh hacc hk
      { k with stage := if recording then .recording entry event name _ else .acking entry }
      (Consumer.mem_hand_of_gathered hgathered) (List.Subset.refl _) (fun e he heq => ?_) ?_ rfl
      (fun event' _ => ?_)
      rfl rfl rfl
    · have hmem : e.value.serial ∈ serials k.batch := List.mem_map_of_mem he
      rw [heq] at hmem
      exact (List.nodup_cons.mp hnodup).1 hmem
    · cases recording <;> rfl
    · rw [hraised]
      exact failureText_eq_none_iff
  -- the row is written, or the entry acknowledged
  case h_8 | h_9 =>
    obtain rfl := Option.some.inj hturn
    refine h.goes c _ (fun k₁ hk₁ => ?_) rfl rfl rfl
    rw [← Option.some.inj hk₁]
    exact hok.goes (List.Subset.refl _) (.inl rfl)
  case h_10 => cases hturn

/-- **Every step keeps it.** -/
theorem Gathered.step (h : Gathered s) (hh : Handled deserialize s) (hacc : Accounted s)
    (hstep : s.step serialize deserialize recording identity a = some s') : Gathered s' := by
  rcases Streaming.step_consumers hstep with ⟨c, k, t, hk, hturn⟩ | haside
  · exact h.turn hh hacc hk hturn
  · refine h.quiet haside.calls haside.dispatches fun c k hk => ?_
    rcases haside.consumers c k hk with ⟨k₀, hk₀, hbatch, hstage⟩ | ⟨hbatch, hstage⟩
    · refine (h.consumers c k₀ hk₀).goes ?_ (.inr (by rw [hstage]))
      rw [hbatch]
      exact List.Subset.refl _
    · constructor
      · rw [hbatch]
        rintro e ⟨⟩
      · rw [hstage]
        rintro p ⟨⟩

/-! ## Runs -/

/-- It holds in every run. -/
theorem gathered_reaches
    (h : Reaches (Streaming.step serialize deserialize recording identity) Streaming.Any Streaming.init s) :
    Gathered s :=
  h.invariant Gathered gathered_init fun hr hinv _ hstep =>
    hinv.step (handled_reaches hr) (accounted_reaches hr) hstep

/-- **In any run, a row says what happened**: where it is `processing`, its event was taken up; where it is
`completed`, there is an entry of its event that was dispatched and for which no handler raised; where it is
`failed`, one for which some handler raised, and the error is that of the entry. -/
theorem row_outcomes
    (h : Reaches (Streaming.step serialize deserialize recording identity) Streaming.Any Streaming.init s) :
    ∀ row ∈ s.log.rows, row.status ≠ .deadLetter
      ∧ (row.status = .processing → ∃ event ∈ s.taken, row.Of event)
      ∧ (row.status = .completed → ∃ d ∈ s.dispatches, ∃ event ∈ d.event, row.Of event
        ∧ ∀ call ∈ s.calls, call.serial = d.serial → call.error = none)
      ∧ (row.status = .failed → ∃ d ∈ s.dispatches, ∃ event ∈ d.event, row.Of event
        ∧ (∃ failure ∈ d.failure, row.errorMessage = fitLength (some failure) maxStoredErrorLength)
        ∧ ∃ call ∈ s.calls, call.serial = d.serial ∧ call.error ≠ none) := by
  have hgathered := gathered_reaches h
  intro row hrow
  have htrue := rows_true h row hrow
  rw [RowTrue] at htrue
  refine ⟨fun hstatus => ?_, fun hstatus => ?_, fun hstatus => ?_, fun hstatus => ?_⟩
  · rwa [hstatus] at htrue
  · rwa [hstatus] at htrue
  · rw [hstatus] at htrue
    obtain ⟨d, hd, event, hevent, hof, hnone⟩ := htrue
    exact ⟨d, hd, event, hevent, hof, raised_eq_nil_iff.mp ((hgathered.dispatches d hd event hevent).mp hnone)⟩
  · rw [hstatus] at htrue
    obtain ⟨d, hd, event, hevent, hof, failure, hfailure, herror⟩ := htrue
    refine ⟨d, hd, event, hevent, hof, ⟨failure, hfailure, herror⟩, ?_⟩
    by_contra hnobody
    -- if nobody had raised, there would be no failure
    have hnil : raised s.calls d.serial = [] := by
      refine raised_eq_nil_iff.mpr fun call hcall hserial => ?_
      by_contra hraised
      exact hnobody ⟨call, hcall, hserial, hraised⟩
    rw [(hgathered.dispatches d hd event hevent).mpr hnil] at hfailure
    cases hfailure

end Steps

/-- One of the two handlers of the example raised, and the row says so. -/
theorem row_outcomes_sampleRun : ∃ row ∈ sampleRun.log.rows, row.status = .failed
    ∧ ∃ call ∈ sampleRun.calls, call.error ≠ none := by
  have hfailed : ∃ row ∈ sampleRun.log.rows, row.status = .failed := by decide +kernel
  obtain ⟨row, hrow, hstatus⟩ := hfailed
  obtain ⟨d, -, event, -, -, -, call, hcall, -, herror⟩ :=
    (row_outcomes reaches_sampleRun row hrow).2.2.2 hstatus
  exact ⟨row, hrow, hstatus, call, hcall, herror⟩

end Jasil.Events
