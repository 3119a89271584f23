import Jasil.Events.ClaimOrder

/-! # Which handlers are called for an entry
Each entry is handled by the one consumer that was given it: its handlers are called one after the other,
whatever the others raise, and none of them twice.

* **`Handled`**: how far the handlers of each entry were called, and where each consumer stands.
* **`handlers_called`**: so it is after any run. -/

namespace Jasil.Events

open Jobs (Event)

variable {Fields : Type}

/-- The handlers that were called for an entry, in order. -/
def called (calls : List HandlerCall) (serial : ℕ) : List Handler :=
  (calls.filter fun call => call.serial = serial).map HandlerCall.handler

/-- The handlers of the event of a claim, among subscriptions; none when there is no event in it. -/
def Claim.handlersAmong (deserialize : Fields → Option Event) (claim : Claim Fields)
    (subscriptions : List (String × Handler)) : List Handler :=
  (deserialize claim.fields).elim [] fun event => handlersOf subscriptions event.eventType

/-- The entry that a consumer is at. -/
def Stage.entry : Stage Fields → Option (StreamEntry Fields)
  | .checking | .polling | .dispatching => none
  | .marking entry .. | .calling entry .. | .recording entry .. | .acking entry => some entry

/-- The entries in the hands of a consumer. -/
def Consumer.hand (k : Consumer Fields) : List (StreamEntry Fields) := k.stage.entry.toList ++ k.batch

section Lists

variable {calls : List HandlerCall} {call : HandlerCall} {subscriptions subscriptions' : List (String × Handler)}
  {eventType : String} {n : ℕ}

/-- One more call of a dispatch is the last of its calls. -/
theorem called_concat :
    called (calls ++ [call]) n = called calls n ++ if call.serial = n then [call.handler] else [] := by
  rw [called, called, List.filter_append, List.map_append]
  by_cases h : call.serial = n
  · simp [h]
  · simp [h]

/-- A call of another dispatch is none of its calls. -/
theorem called_concat_of_ne (h : call.serial ≠ n) : called (calls ++ [call]) n = called calls n := by
  simp [called_concat, h]

/-- A dispatch without calls called nothing. -/
theorem called_eq_nil (h : ∀ call ∈ calls, call.serial ≠ n) : called calls n = [] := by
  rw [called, List.map_eq_nil_iff, List.filter_eq_nil_iff]
  intro call hcall
  simpa using h call hcall

/-- Who subscribes later comes later. -/
theorem handlersOf_prefix (h : subscriptions <+: subscriptions') (eventType : String) :
    handlersOf subscriptions eventType <+: handlersOf subscriptions' eventType := (h.filter _).map _

/-- A handler that is subscribed later comes last. -/
theorem Claim.handlersAmong_prefix (deserialize : Fields → Option Event) (claim : Claim Fields)
    (h : subscriptions <+: subscriptions') :
    claim.handlersAmong deserialize subscriptions <+: claim.handlersAmong deserialize subscriptions' := by
  rw [handlersAmong, handlersAmong]
  cases deserialize claim.fields with
  | none => exact List.prefix_refl _
  | some event => exact handlersOf_prefix h event.eventType

end Lists

/-! ## The invariant -/

section Invariant

variable (deserialize : Fields → Option Event) (s : Streaming Fields)

/-- How far the handlers of an entry that was given to a consumer were called. -/
structure ClaimOk (claim : Claim Fields) : Prop where
  done : called s.calls claim.serial <+: claim.handlersAmong deserialize (s.buses claim.bus).subscriptions
  subscriptions : claim.subscriptions <+: (s.buses claim.bus).subscriptions
  complete : ∀ d ∈ s.dispatches, d.serial = claim.serial →
    claim.handlersAmong deserialize claim.subscriptions <+: called s.calls claim.serial

/-- The consumer was given the entry. -/
structure Claim.Of (claim : Claim Fields) (c bus : ℕ) (entry : StreamEntry Fields) : Prop where
  serial : claim.serial = entry.value.serial
  fields : claim.fields = entry.value.fields
  consumer : claim.consumer = c
  bus : claim.bus = bus

/-- A consumer that goes through the handlers of `event` for its entry. -/
structure Working (c : ℕ) (k : Consumer Fields) (entry : StreamEntry Fields) (event : Event) (live : Bool)
    (next : ℕ) : Prop where
  holds : deserialize entry.value.fields = some event
  done : called s.calls entry.value.serial = (s.handlersFor k event live).take next
  next_le : next ≤ (s.handlersFor k event live).length
  /-- Where nobody had subscribed when it began, nobody had when it was given the entry. -/
  live : live = false →
    ∃ claim ∈ s.claims, claim.Of c k.bus entry ∧ claim.handlersAmong deserialize claim.subscriptions = []

/-- Where a consumer stands. -/
def StageOk (c : ℕ) (k : Consumer Fields) : Prop :=
  match k.stage with
  | .marking entry event live _ => Working deserialize s c k entry event live 0
  | .calling entry event live _ next _ => Working deserialize s c k entry event live next
  | _ => True

/-- A consumer, with the entries in its hands. -/
structure HandOk (c : ℕ) (k : Consumer Fields) : Prop where
  lt : c < s.threads
  claimed : ∀ e ∈ k.hand, ∃ claim ∈ s.claims, claim.Of c k.bus e
  nodup : (serials k.hand).Nodup
  untouched : ∀ e ∈ k.batch, called s.calls e.value.serial = []
  stage : StageOk deserialize s c k

/-- **How far the handlers of each entry were called.** -/
structure Handled : Prop where
  claims : ∀ claim ∈ s.claims, ClaimOk deserialize s claim
  calls : ∀ call ∈ s.calls, ∃ claim ∈ s.claims, claim.serial = call.serial ∧ claim.consumer = call.consumer
  dispatches : ∀ d ∈ s.dispatches, ∃ claim ∈ s.claims, claim.serial = d.serial
  consumers : ∀ c k, s.consumers c = some k → HandOk deserialize s c k

/-- In the beginning nothing was called. -/
theorem handled_init : Handled deserialize (Streaming.init : Streaming Fields) where
  claims := by rintro claim ⟨⟩
  calls := by rintro call ⟨⟩
  dispatches := by rintro d ⟨⟩
  consumers := by rintro c k ⟨⟩

end Invariant

section Steps

variable {deserialize : Fields → Option Event} {s s' : Streaming Fields} {c : ℕ} {k k' : Consumer Fields}
  {claim : Claim Fields} {entry : StreamEntry Fields} {event : Event} {live : Bool} {next : ℕ}

/-- The handlers that a consumer has gone through stay the first of its list. -/
theorem take_handlersFor (h : (s.buses k.bus).subscriptions <+: (s'.buses k.bus).subscriptions)
    (hle : next ≤ (s.handlersFor k event live).length) :
    (s'.handlersFor k event live).take next = (s.handlersFor k event live).take next
      ∧ next ≤ (s'.handlersFor k event live).length := by
  have hprefix : s.handlersFor k event live <+: s'.handlersFor k event live := by
    rw [Streaming.handlersFor, Streaming.handlersFor]
    split
    · exact handlersOf_prefix h event.eventType
    · exact List.prefix_refl _
  obtain ⟨rest, hrest⟩ := hprefix
  rw [← hrest, List.take_append_of_le_length hle, List.length_append]
  exact ⟨rfl, by omega⟩

/-- A consumer that is told to stop stays where it is. -/
theorem StageOk.stop (h : StageOk deserialize s c k) : StageOk deserialize s c { k with stopped := true } := by
  rw [StageOk] at h ⊢
  dsimp only
  split
  case h_1 entry event live name hstage =>
    rw [hstage] at h
    exact ⟨h.holds, h.done, h.next_le, h.live⟩
  case h_2 entry event live name next errors hstage =>
    rw [hstage] at h
    exact ⟨h.holds, h.done, h.next_le, h.live⟩
  case h_3 => trivial

/-- A claim that is not concerned. -/
theorem ClaimOk.mono (h : ClaimOk deserialize s claim)
    (hcalled : called s'.calls claim.serial = called s.calls claim.serial)
    (hsubscriptions : (s.buses claim.bus).subscriptions <+: (s'.buses claim.bus).subscriptions)
    (hdispatches : ∀ d ∈ s'.dispatches, d.serial = claim.serial → d ∈ s.dispatches) :
    ClaimOk deserialize s' claim where
  done := by
    rw [hcalled]
    exact h.done.trans (claim.handlersAmong_prefix deserialize hsubscriptions)
  subscriptions := h.subscriptions.trans hsubscriptions
  complete := by
    intro d hd hserial
    rw [hcalled]
    exact h.complete d (hdispatches d hd hserial) hserial

/-- A consumer that is not concerned. -/
theorem HandOk.mono (h : HandOk deserialize s c k) (hthreads : s.threads ≤ s'.threads)
    (hclaims : s.claims ⊆ s'.claims)
    (hcalled : ∀ e ∈ k.hand, called s'.calls e.value.serial = called s.calls e.value.serial)
    (hsubscriptions : (s.buses k.bus).subscriptions <+: (s'.buses k.bus).subscriptions) :
    HandOk deserialize s' c k where
  lt := h.lt.trans_le hthreads
  claimed := by
    intro e he
    obtain ⟨claim, hclaim, hof⟩ := h.claimed e he
    exact ⟨claim, hclaims hclaim, hof⟩
  nodup := h.nodup
  untouched := by
    intro e he
    rw [hcalled e (List.mem_append_right _ he)]
    exact h.untouched e he
  stage := by
    -- handlers that were subscribed since come behind those already called
    have hworking {entry : StreamEntry Fields} {event : Event} {live : Bool} {next : ℕ}
        (hentry : entry ∈ k.hand) (hw : Working deserialize s c k entry event live next) :
        Working deserialize s' c k entry event live next := by
      obtain ⟨htake, hle⟩ := take_handlersFor hsubscriptions hw.next_le
      refine ⟨hw.holds, ?_, hle, fun hlive => ?_⟩
      · rw [hcalled entry hentry, htake]
        exact hw.done
      · obtain ⟨claim, hclaim, hof⟩ := hw.live hlive
        exact ⟨claim, hclaims hclaim, hof⟩
    have hstage := h.stage
    have hhand : ∀ entry ∈ k.stage.entry, entry ∈ k.hand := by
      intro entry hentry
      rw [Consumer.hand, Option.mem_def.mp hentry]
      exact List.mem_cons_self
    rw [StageOk] at hstage ⊢
    cases hk : k.stage with
    | checking | polling | dispatching | recording | acking => trivial
    | marking entry event live name =>
      rw [hk] at hstage hhand
      exact hworking (hhand entry rfl) hstage
    | calling entry event live name next errors =>
      rw [hk] at hstage hhand
      exact hworking (hhand entry rfl) hstage

/-- The consumer goes on with what it has in its hands. -/
theorem HandOk.goes (h : HandOk deserialize s c k) (hbus : k'.bus = k.bus) (hhand : k'.hand.Sublist k.hand)
    (hbatch : k'.batch ⊆ k.batch) (hstage : StageOk deserialize s c k') : HandOk deserialize s c k' where
  lt := h.lt
  claimed := by
    intro e he
    obtain ⟨claim, hclaim, hof⟩ := h.claimed e (hhand.subset he)
    exact ⟨claim, hclaim, hof.serial, hof.fields, hof.consumer, hof.bus.trans hbus.symm⟩
  nodup := h.nodup.sublist (hhand.map _)
  untouched := fun e he => h.untouched e (hbatch he)
  stage := hstage

/-- A thread that holds nothing owes no call. -/
theorem HandOk.of_empty {b : ℕ} (h : c < s.threads) : HandOk deserialize s c { bus := b } where
  lt := h
  claimed := by rintro e ⟨⟩
  nodup := .nil
  untouched := by rintro e ⟨⟩
  stage := trivial

/-- A step that concerns no entry. -/
theorem Handled.quiet (h : Handled deserialize s) (hclaims : s'.claims = s.claims) (hcalls : s'.calls = s.calls)
    (hdispatches : s'.dispatches = s.dispatches) (hthreads : s.threads ≤ s'.threads)
    (hbuses : ∀ b, (s.buses b).subscriptions <+: (s'.buses b).subscriptions)
    (hconsumers : ∀ c k, s'.consumers c = some k → HandOk deserialize s c k ∨ HandOk deserialize s' c k) :
    Handled deserialize s' where
  claims := by
    intro claim hclaim
    rw [hclaims] at hclaim
    refine (h.claims claim hclaim).mono (by rw [hcalls]) (hbuses claim.bus) fun d hd _ => ?_
    rwa [hdispatches] at hd
  calls := by
    rw [hcalls, hclaims]
    exact h.calls
  dispatches := by
    rw [hdispatches, hclaims]
    exact h.dispatches
  consumers := by
    intro c k hk
    rcases hconsumers c k hk with hhand | hhand
    · exact hhand.mono hthreads (fun claim hclaim => hclaims ▸ hclaim) (fun e _ => by rw [hcalls]) (hbuses k.bus)
    · exact hhand

/-- A change of one consumer is no change of another. -/
theorem consumers_set {k' : Option (Consumer Fields)} {c₀ : ℕ} {k₀ : Consumer Fields}
    (h : Function.update s.consumers c k' c₀ = some k₀) :
    (c₀ = c ∧ k' = some k₀) ∨ c₀ ≠ c ∧ s.consumers c₀ = some k₀ := by
  by_cases hc : c₀ = c
  · subst hc
    rw [Function.update_self] at h
    exact .inl ⟨rfl, h⟩
  · rw [Function.update_of_ne hc] at h
    exact .inr ⟨hc, h⟩

/-- A step of one consumer that calls no handler. -/
theorem Handled.goes (h : Handled deserialize s) (c : ℕ) (k' : Option (Consumer Fields))
    (hk' : ∀ k₁ ∈ k', HandOk deserialize s c k₁) (hclaims : s'.claims = s.claims) (hcalls : s'.calls = s.calls)
    (hdispatches : s'.dispatches = s.dispatches) (hthreads : s'.threads = s.threads)
    (hbuses : s'.buses = s.buses)
    (hconsumers : s'.consumers = Function.update s.consumers c k') : Handled deserialize s' := by
  refine h.quiet hclaims hcalls hdispatches hthreads.ge (fun b => by rw [hbuses]) fun c₀ k₀ hk₀ => .inl ?_
  rw [hconsumers] at hk₀
  rcases consumers_set hk₀ with ⟨rfl, hk₁⟩ | ⟨-, hk₁⟩
  · exact hk' k₀ hk₁
  · exact h.consumers c₀ k₀ hk₁

/-- Entries are given to one consumer only. -/
theorem Accounted.claim_eq (h : Accounted s) {claim' : Claim Fields} (hclaim : claim ∈ s.claims)
    (hclaim' : claim' ∈ s.claims) (heq : claim.serial = claim'.serial) : claim = claim' := by
  have hnodup : (s.claims.map Claim.serial).Nodup :=
    (List.pairwise_append.mp h.increasing).1.imp fun hlt => hlt.ne
  exact List.inj_on_of_nodup_map hnodup hclaim hclaim' heq

/-- What waits was given to nobody. -/
theorem Accounted.ne_waiting (h : Accounted s) {e : StreamEntry Fields} (hclaim : claim ∈ s.claims)
    (he : e ∈ s.waiting) : claim.serial ≠ e.value.serial := by
  have hlt := (List.pairwise_append.mp h.increasing).2.2 _ (List.mem_map_of_mem hclaim) _
    (List.mem_map_of_mem (f := fun e : StreamEntry Fields => e.value.serial) he)
  exact hlt.ne

/-- What waits was handled by nobody. -/
theorem Handled.untouched (h : Handled deserialize s) (hacc : Accounted s) {e : StreamEntry Fields}
    (he : e ∈ s.waiting) :
    called s.calls e.value.serial = [] ∧ ∀ d ∈ s.dispatches, d.serial ≠ e.value.serial := by
  constructor
  · refine called_eq_nil fun call hcall heq => ?_
    obtain ⟨claim, hclaim, hserial, -⟩ := h.calls call hcall
    exact hacc.ne_waiting hclaim he (hserial.trans heq)
  · intro d hd heq
    obtain ⟨claim, hclaim, hserial⟩ := h.dispatches d hd
    exact hacc.ne_waiting hclaim he (hserial.trans heq)

/-- **A consumer is given entries**, which it may never hear of. -/
theorem Handled.given (h : Handled deserialize s) (hacc : Accounted s) (hk : s.consumers c = some k)
    (k' : Consumer Fields) {given : List (StreamEntry Fields)} (hgiven : ∀ e ∈ given, e ∈ s.waiting)
    (hnodup : (serials given).Nodup)
    (hk' : k'.bus = k.bus ∧ k'.stage.entry = none ∧ StageOk deserialize s' c k'
      ∧ (k'.batch = given ∨ k'.batch = k.batch))
    (hclaims : s'.claims = s.claims ++ s.claimsOf c k given) (hcalls : s'.calls = s.calls)
    (hdispatches : s'.dispatches = s.dispatches) (hthreads : s'.threads = s.threads)
    (hbuses : s'.buses = s.buses)
    (hconsumers : s'.consumers = Function.update s.consumers c (some k')) : Handled deserialize s' := by
  obtain ⟨hbus, hentry, hstage, hbatch⟩ := hk'
  have hold : s.claims ⊆ s'.claims := by
    rw [hclaims]
    exact List.subset_append_left ..
  have hhand : k'.hand = k'.batch := by rw [Consumer.hand, hentry, Option.toList_none, List.nil_append]
  constructor
  · intro claim hclaim
    rw [hclaims] at hclaim
    rcases List.mem_append.mp hclaim with hclaim | hclaim
    · refine (h.claims claim hclaim).mono (by rw [hcalls]) (by rw [hbuses]) fun d hd _ => ?_
      rwa [hdispatches] at hd
    · -- a new claim, of an entry that nobody has handled
      obtain ⟨e, he, rfl⟩ := List.mem_map.mp hclaim
      obtain ⟨hnone, hfresh⟩ := h.untouched hacc (hgiven e he)
      constructor
      · rw [hcalls]
        dsimp only
        rw [hnone]
        exact List.nil_prefix
      · rw [hbuses]
      · intro d hd hserial
        rw [hdispatches] at hd
        exact absurd hserial (hfresh d hd)
  · intro call hcall
    rw [hcalls] at hcall
    obtain ⟨claim, hclaim, hserial⟩ := h.calls call hcall
    exact ⟨claim, hold hclaim, hserial⟩
  · intro d hd
    rw [hdispatches] at hd
    obtain ⟨claim, hclaim, hserial⟩ := h.dispatches d hd
    exact ⟨claim, hold hclaim, hserial⟩
  · intro c₀ k₀ hk₀
    have hmono {c₀ : ℕ} {k₀ : Consumer Fields} (hhand : HandOk deserialize s c₀ k₀) :
        HandOk deserialize s' c₀ k₀ :=
      hhand.mono hthreads.ge hold (fun e _ => by rw [hcalls]) (by rw [hbuses])
    rw [hconsumers] at hk₀
    rcases consumers_set hk₀ with ⟨rfl, hk₁⟩ | ⟨-, hk₁⟩
    · obtain rfl := Option.some.inj hk₁
      have hok := h.consumers c₀ k hk
      -- the batch is what was given, or stays when the answer was lost
      rcases hbatch with hbatch | hbatch
      · refine ⟨hthreads ▸ hok.lt, fun e he => ?_, ?_, fun e he => ?_, hstage⟩
        · rw [hhand, hbatch] at he
          refine ⟨⟨e.value.serial, e.value.fields, c₀, k.bus, (s.buses k.bus).subscriptions⟩, ?_, rfl, rfl, rfl,
            hbus.symm⟩
          rw [hclaims]
          exact List.mem_append_right _ (List.mem_map_of_mem he)
        · rw [hhand, hbatch]
          exact hnodup
        · rw [hbatch] at he
          rw [hcalls]
          exact (h.untouched hacc (hgiven e he)).1
      · refine ⟨hthreads ▸ hok.lt, fun e he => ?_, ?_, fun e he => ?_, hstage⟩
        · rw [hhand, hbatch] at he
          obtain ⟨claim, hclaim, hof⟩ := hok.claimed e (List.mem_append_right _ he)
          exact ⟨claim, hold hclaim, hof.serial, hof.fields, hof.consumer, hof.bus.trans hbus.symm⟩
        · rw [hhand, hbatch]
          exact hok.nodup.sublist ((List.sublist_append_right _ _).map _)
        · rw [hbatch] at he
          rw [hcalls]
          exact hok.untouched e he
    · exact hmono (h.consumers c₀ k₀ hk₁)

/-- **An entry was dispatched**: all handlers that its consumer was to call were called. -/
theorem Handled.dispatched (h : Handled deserialize s) (hacc : Accounted s) (hk : s.consumers c = some k)
    (k' : Consumer Fields) (hentry : entry ∈ k.hand) (hhand : k'.hand.Sublist k.hand)
    (hbatch : k'.batch ⊆ k.batch) (hbus : k'.bus = k.bus) (hstage : StageOk deserialize s c k')
    (hcomplete : ∀ claim ∈ s.claims, claim.Of c k.bus entry →
      claim.handlersAmong deserialize claim.subscriptions <+: called s.calls claim.serial)
    {d : Dispatch} (hd : d.serial = entry.value.serial) (hclaims : s'.claims = s.claims)
    (hcalls : s'.calls = s.calls)
    (hdispatches : s'.dispatches = s.dispatches ++ [d]) (hthreads : s'.threads = s.threads)
    (hbuses : s'.buses = s.buses)
    (hconsumers : s'.consumers = Function.update s.consumers c (some k')) : Handled deserialize s' := by
  obtain ⟨claim, hclaim, hof⟩ := (h.consumers c k hk).claimed entry hentry
  constructor
  · intro claim' hclaim'
    rw [hclaims] at hclaim'
    have hok := h.claims claim' hclaim'
    refine ⟨by rw [hcalls, hbuses]; exact hok.done, by rw [hbuses]; exact hok.subscriptions,
      fun d' hd' hserial => ?_⟩
    rw [hdispatches] at hd'
    rw [hcalls]
    rcases List.mem_append.mp hd' with hd' | hd'
    · exact hok.complete d' hd' hserial
    · -- the new dispatch is of this entry's claim
      rw [List.mem_singleton.mp hd', hd, ← hof.serial] at hserial
      obtain rfl := hacc.claim_eq hclaim hclaim' hserial
      exact hcomplete claim hclaim hof
  · rw [hcalls, hclaims]
    exact h.calls
  · intro d' hd'
    rw [hdispatches] at hd'
    rw [hclaims]
    rcases List.mem_append.mp hd' with hd' | hd'
    · exact h.dispatches d' hd'
    · rw [List.mem_singleton.mp hd', hd]
      exact ⟨claim, hclaim, hof.serial⟩
  · intro c₀ k₀ hk₀
    have hmono {c₀ : ℕ} {k₀ : Consumer Fields} (hhand : HandOk deserialize s c₀ k₀) :
        HandOk deserialize s' c₀ k₀ :=
      hhand.mono hthreads.ge (fun claim hclaim => hclaims ▸ hclaim) (fun e _ => by rw [hcalls]) (by rw [hbuses])
    rw [hconsumers] at hk₀
    rcases consumers_set hk₀ with ⟨rfl, hk₁⟩ | ⟨-, hk₁⟩
    · obtain rfl := Option.some.inj hk₁
      exact hmono ((h.consumers c₀ k hk).goes hbus hhand hbatch hstage)
    · exact hmono (h.consumers c₀ k₀ hk₁)

/-- **A handler is called**, the next of the list. -/
theorem Handled.called (h : Handled deserialize s) (hacc : Accounted s) (hk : s.consumers c = some k)
    {name error : Option String} {errors errors' : List String}
    (hstage : k.stage = .calling entry event live name next errors)
    {handler : Handler} (hhandler : (s.handlersFor k event live)[next]? = some handler)
    (hk' : k' = { k with stage := .calling entry event live name (next + 1) errors' })
    (hclaims : s'.claims = s.claims) (hcalls : s'.calls = s.calls ++ [⟨entry.value.serial, c, handler, error⟩])
    (hdispatches : s'.dispatches = s.dispatches) (hthreads : s'.threads = s.threads)
    (hbuses : s'.buses = s.buses)
    (hconsumers : s'.consumers = Function.update s.consumers c (some k')) : Handled deserialize s' := by
  have hok := h.consumers c k hk
  have hhand : k.hand = entry :: k.batch := by
    rw [Consumer.hand, hstage]
    rfl
  obtain ⟨claim, hclaim, hof⟩ := hok.claimed entry (by rw [hhand]; exact List.mem_cons_self)
  have hworking : Working deserialize s c k entry event live next := by
    have hstageOk := hok.stage
    rwa [StageOk, hstage] at hstageOk
  obtain ⟨hlt, hget⟩ := List.getElem?_eq_some_iff.mp hhandler
  -- there is a handler to call, so the consumer runs
  have hlive : live = true := by
    by_contra hdead
    rw [Streaming.handlersFor, if_neg hdead] at hlt
    exact absurd hlt (Nat.not_lt_zero _)
  -- the calls for the entry are one handler further down the list
  have hcalled : Events.called s'.calls entry.value.serial = (s.handlersFor k event live).take (next + 1) := by
    rw [hcalls, called_concat, if_pos rfl, hworking.done, ← hget]
    exact List.take_concat_get' _ _ hlt
  have hother : ∀ n, n ≠ entry.value.serial → Events.called s'.calls n = Events.called s.calls n := by
    intro n hn
    rw [hcalls]
    exact called_concat_of_ne hn.symm
  constructor
  · intro claim' hclaim'
    rw [hclaims] at hclaim'
    have hok' := h.claims claim' hclaim'
    by_cases hserial : claim'.serial = entry.value.serial
    · -- the claim is that of this entry
      obtain rfl := hacc.claim_eq hclaim hclaim' (hof.serial.trans hserial.symm)
      have hprefix : Events.called s.calls claim.serial <+: Events.called s'.calls claim.serial := by
        rw [hserial, hcalled, hworking.done]
        exact (List.take_prefix_take_left (Nat.le_succ next))
      refine ⟨?_, by rw [hbuses]; exact hok'.subscriptions, fun d hd hd' => ?_⟩
      · rw [hserial, hcalled, hbuses, Claim.handlersAmong, hof.fields, hworking.holds, hof.bus,
          Streaming.handlersFor,
          if_pos hlive]
        exact List.take_prefix ..
      · rw [hdispatches] at hd
        exact (hok'.complete d hd hd').trans hprefix
    · exact hok'.mono (hother _ hserial) (by rw [hbuses]) fun d hd _ => hdispatches ▸ hd
  · intro call hcall
    rw [hcalls] at hcall
    rw [hclaims]
    rcases List.mem_append.mp hcall with hcall | hcall
    · exact h.calls call hcall
    · rw [List.mem_singleton.mp hcall]
      exact ⟨claim, hclaim, hof.serial, hof.consumer⟩
  · rw [hdispatches, hclaims]
    exact h.dispatches
  · intro c₀ k₀ hk₀
    rw [hconsumers] at hk₀
    rcases consumers_set hk₀ with ⟨rfl, hk₁⟩ | ⟨hne, hk₁⟩
    · obtain rfl := Option.some.inj hk₁
      have hhand' : k'.hand = k.hand := by
        rw [hk', Consumer.hand, Consumer.hand, hstage]
        rfl
      have hbus : k'.bus = k.bus := by rw [hk']
      have hbatch : k'.batch = k.batch := by rw [hk']
      refine ⟨hthreads ▸ hok.lt, fun e he => ?_, hhand' ▸ hok.nodup, fun e he => ?_, ?_⟩
      · obtain ⟨claim', hclaim', hof'⟩ := hok.claimed e (hhand' ▸ he)
        exact ⟨claim', hclaims ▸ hclaim', hof'.serial, hof'.fields, hof'.consumer, hof'.bus.trans hbus.symm⟩
      · -- the entries behind this one have other numbers
        rw [hbatch] at he
        have hnodup := hok.nodup
        rw [hhand, serials, List.map_cons, List.nodup_cons] at hnodup
        rw [hother _ fun heq => hnodup.1 (heq ▸ List.mem_map_of_mem he)]
        exact hok.untouched e he
      · rw [StageOk, hk']
        have hfor : s'.handlersFor { k with stage := .calling entry event live name (next + 1) errors' } event
            live
            = s.handlersFor k event live := by
          rw [Streaming.handlersFor, Streaming.handlersFor, hbuses]
        refine ⟨hworking.holds, ?_, ?_, fun hdead => ?_⟩
        · rw [hcalled, hfor]
        · rw [hfor]
          exact hlt
        · rw [hlive] at hdead
          cases hdead
    · -- another consumer has other entries
      refine (h.consumers c₀ k₀ hk₁).mono hthreads.ge (fun claim hclaim => hclaims ▸ hclaim) (fun e he => ?_)
        (by rw [hbuses])
      refine hother _ fun heq => hne ?_
      obtain ⟨claim', hclaim', hof'⟩ := (h.consumers c₀ k₀ hk₁).claimed e he
      obtain rfl := hacc.claim_eq hclaim hclaim' (hof.serial.trans (heq.symm.trans hof'.serial.symm))
      exact hof'.consumer.symm.trans hof.consumer

/-! ## Steps -/

section Turns

variable {serialize : Event → Option Fields} {recording : Bool} {identity : ℕ → String} {t : Turn}

/-- It is kept by making sure of the group. -/
theorem Handled.ensureGroup (h : Handled deserialize s) (reply : Reply) :
    Handled deserialize (s.ensureGroup reply) := by
  obtain ⟨server, heq, -⟩ := s.ensureGroup_eq reply
  rw [heq]
  exact h.quiet rfl rfl rfl le_rfl (fun b => List.prefix_refl _) fun c k hk => .inl (h.consumers c k hk)

/-- It is kept by an append. -/
theorem Handled.xadd (h : Handled deserialize s) {fields : Fields} {id trim : ℕ}
    (hadd : s.xadd fields id trim = some s') : Handled deserialize s' := by
  obtain ⟨server, appended, dropped, rfl⟩ := Streaming.xadd_eq hadd
  exact h.quiet rfl rfl rfl le_rfl (fun b => List.prefix_refl _) fun c k hk => .inl (h.consumers c k hk)

/-- It is kept by a read. -/
theorem Handled.read (h : Handled deserialize s) (hacc : Accounted s) (hk : s.consumers c = some k)
    (hstage : k.stage.entry = none) (reply : Reply) : Handled deserialize (s.readStep c k reply) := by
  have hok := h.consumers c k hk
  have hhand : k.hand = k.batch := by rw [Consumer.hand, hstage, Option.toList_none, List.nil_append]
  have hidle (stage : Stage Fields) (missing : Bool) (hidle : stage = .checking ∨ stage = .polling) :
      HandOk deserialize s c { k with stage, groupMissing := missing } := by
    refine hok.goes rfl ?_ (List.Subset.refl _) ?_
    · rw [hhand]
      rcases hidle with rfl | rfl <;> exact List.Sublist.refl _
    · rcases hidle with rfl | rfl <;> trivial
  have hset {k' : Consumer Fields} (hk' : HandOk deserialize s c k') :
      Handled deserialize (s.set c (some k')) := by
    refine h.goes c (some k') (fun k₁ hk₁ => ?_) rfl rfl rfl rfl rfl rfl
    rwa [← Option.some.inj hk₁]
  have hwaiting {given : List (StreamEntry Fields)} {log : GroupLog (Appended Fields)}
      (hread : (s.server.bind fun log => log.read readBatch) = some (given, log)) :
      (∀ e ∈ given, e ∈ s.waiting) ∧ (serials given).Nodup := by
    -- XREADGROUP gives the first of those that wait, each once
    have heq := Streaming.waiting_of_read hread
    refine ⟨fun e he => heq ▸ List.mem_append_left _ he, ?_⟩
    have hsorted := (List.pairwise_append.mp hacc.increasing).2.1
    rw [heq, serials_append] at hsorted
    exact (List.pairwise_append.mp hsorted).1.imp fun hlt => hlt.ne
  unfold Streaming.readStep
  split
  · exact hset (hidle .checking k.groupMissing (.inl rfl))
  · exact hset (hidle .checking true (.inl rfl))
  · rename_i given log hread
    obtain ⟨hmem, hnodup⟩ := hwaiting hread
    exact h.given hacc hk { k with batch := given, stage := .dispatching } hmem hnodup ⟨rfl, rfl, trivial,
      .inl rfl⟩
      rfl rfl rfl rfl rfl rfl
  · refine hset (hidle _ k.groupMissing ?_)
    split
    · exact .inr rfl
    · exact .inl rfl
  · rename_i retried given log hread
    obtain ⟨hmem, hnodup⟩ := hwaiting hread
    cases retried with
    | true =>
      exact h.given hacc hk { k with stage := .polling } hmem hnodup ⟨rfl, rfl, trivial, .inr rfl⟩ rfl rfl rfl
        rfl rfl rfl
    | false =>
      exact h.given hacc hk { k with stage := .checking } hmem hnodup ⟨rfl, rfl, trivial, .inr rfl⟩ rfl rfl
        rfl rfl rfl rfl

/-- It is kept when a consumer takes an entry. -/
theorem Handled.take (h : Handled deserialize s) (hacc : Accounted s) (hk : s.consumers c = some k)
    (hstage : k.stage.entry = none) : Handled deserialize (s.takeStep deserialize recording c k) := by
  have hok := h.consumers c k hk
  have hhand : k.hand = k.batch := by rw [Consumer.hand, hstage, Option.toList_none, List.nil_append]
  rw [Streaming.takeStep]
  split
  · refine h.goes c _ (fun k₁ hk₁ => ?_) rfl rfl rfl rfl rfl rfl
    rw [← Option.some.inj hk₁]
    exact hok.goes rfl (by rw [hhand]; exact List.Sublist.refl _) (List.Subset.refl _) trivial
  · rename_i entry batch hbatch
    have hsub : batch ⊆ k.batch := by
      rw [hbatch]
      exact List.subset_cons_self ..
    have hentry : entry ∈ k.hand := by
      rw [hhand, hbatch]
      exact List.mem_cons_self
    split
    · rename_i hnone
      refine h.dispatched hacc hk { k with batch, stage := .acking entry } hentry ?_ hsub rfl trivial
        (fun claim _ hof => ?_) rfl rfl rfl rfl rfl rfl rfl
      · rw [hhand, hbatch]
        exact List.Sublist.refl _
      · rw [Claim.handlersAmong, hof.fields, hnone]
        exact List.nil_prefix
    · rename_i event hevent
      have hworking (bus : ℕ) (hbus : bus = k.bus) :
          Working deserialize s c k entry event
            (decide (handlersOf (s.buses bus).subscriptions event.eventType ≠ [])) 0 := by
        subst hbus
        refine ⟨hevent, ?_, Nat.zero_le _, fun hdead => ?_⟩
        · rw [List.take_zero]
          exact hok.untouched entry (by rw [hbatch]; exact List.mem_cons_self)
        · -- who had subscribed then has subscribed now
          obtain ⟨claim, hclaim, hof⟩ := hok.claimed entry hentry
          have hnil : handlersOf (s.buses k.bus).subscriptions event.eventType = [] := by simpa using hdead
          refine ⟨claim, hclaim, hof, ?_⟩
          have hprefix := claim.handlersAmong_prefix deserialize (h.claims claim hclaim).subscriptions
          rw [hof.bus] at hprefix
          rw [Claim.handlersAmong, Claim.handlersAmong, hof.fields, hevent, Option.elim_some, Option.elim_some,
            hnil] at hprefix
          rw [Claim.handlersAmong, hof.fields, hevent, Option.elim_some]
          exact List.prefix_nil.mp hprefix
      refine h.goes c _ (fun k₁ hk₁ => ?_) rfl rfl rfl rfl rfl rfl
      rw [← Option.some.inj hk₁]
      have hw := hworking k.bus rfl
      cases recording with
      | true =>
        refine hok.goes rfl (by rw [hhand, hbatch]; exact List.Sublist.refl _) hsub ?_
        exact ⟨hw.holds, hw.done, hw.next_le, hw.live⟩
      | false =>
        refine hok.goes rfl (by rw [hhand, hbatch]; exact List.Sublist.refl _) hsub ?_
        exact ⟨hw.holds, hw.done, hw.next_le, hw.live⟩

/-- It is kept by a turn of a consumer. -/
theorem Handled.turn (h : Handled deserialize s) (hacc : Accounted s) (hk : s.consumers c = some k)
    (hturn : s.turn deserialize recording identity c k t = some s') : Handled deserialize s' := by
  have hok := h.consumers c k hk
  unfold Streaming.turn at hturn
  split at hturn
  case h_1 hstage =>
    obtain rfl := Option.some.inj hturn
    refine h.goes c _ (fun k₁ hk₁ => ?_) rfl rfl rfl rfl rfl rfl
    -- a consumer that was stopped ends; any other polls
    obtain ⟨-, hsome⟩ := Option.ite_none_left_eq_some.mp hk₁
    rw [← Option.some.inj hsome]
    refine hok.goes rfl ?_ (List.Subset.refl _) trivial
    rw [Consumer.hand, Consumer.hand, hstage]
    exact List.Sublist.refl _
  case h_2 reply hstage =>
    obtain ⟨-, hsome⟩ := Option.ite_none_right_eq_some.mp hturn
    obtain rfl := Option.some.inj hsome
    have hquiet : ∀ stage : Stage Fields, stage = .polling ∨ stage = .checking →
        Handled deserialize ((s.ensureGroup reply).set c (some { k with groupMissing := false, stage })) := by
      intro stage hstage'
      have hgroup := h.ensureGroup reply
      obtain ⟨server, heq, -⟩ := s.ensureGroup_eq reply
      have hk' : (s.ensureGroup reply).consumers c = some k := by rw [heq]; exact hk
      refine hgroup.goes c _ (fun k₁ hk₁ => ?_) rfl rfl rfl rfl rfl rfl
      rw [← Option.some.inj hk₁]
      refine (hgroup.consumers c k hk').goes rfl ?_ (List.Subset.refl _) ?_
      · rw [Consumer.hand, Consumer.hand, hstage]
        rcases hstage' with rfl | rfl <;> exact List.Sublist.refl _
      · rcases hstage' with rfl | rfl <;> trivial
    refine hquiet _ ?_
    split
    · exact .inl rfl
    · exact .inr rfl
  case h_3 reply hstage =>
    obtain ⟨-, hsome⟩ := Option.ite_none_left_eq_some.mp hturn
    obtain rfl := Option.some.inj hsome
    exact h.read hacc hk (by rw [hstage]; rfl) reply
  case h_4 hstage =>
    obtain rfl := Option.some.inj hturn
    exact h.take hacc hk (by rw [hstage]; rfl)
  case h_5 recorded now entry event live name hstage =>
    obtain rfl := Option.some.inj hturn
    have hworking : Working deserialize s c k entry event live 0 := by
      have hstageOk := hok.stage
      rwa [StageOk, hstage] at hstageOk
    refine h.goes c _ (fun k₁ hk₁ => ?_) rfl rfl rfl rfl rfl rfl
    rw [← Option.some.inj hk₁]
    refine hok.goes rfl ?_ (List.Subset.refl _) ⟨hworking.holds, hworking.done, hworking.next_le, hworking.live⟩
    rw [Consumer.hand, Consumer.hand, hstage]
    exact List.Sublist.refl _
  case h_6 error entry event live name next errors hstage =>
    -- the next handler is called
    obtain ⟨handler, hhandler, rfl⟩ := Option.map_eq_some_iff.mp hturn
    exact h.called hacc hk hstage hhandler rfl rfl rfl rfl rfl rfl rfl
  case h_7 entry event live name next errors hstage =>
    -- all handlers were called, and the entry is dispatched
    obtain ⟨hle, hsome⟩ := Option.ite_none_right_eq_some.mp hturn
    obtain rfl := Option.some.inj hsome
    have hworking : Working deserialize s c k entry event live next := by
      have hstageOk := hok.stage
      rwa [StageOk, hstage] at hstageOk
    have hentry : entry ∈ k.hand := by
      rw [Consumer.hand, hstage]
      exact List.mem_cons_self
    have hcomplete : ∀ claim ∈ s.claims, claim.Of c k.bus entry →
        claim.handlersAmong deserialize claim.subscriptions <+: Events.called s.calls claim.serial := by
      intro claim hclaim hof
      cases live with
      | true =>
        -- all handlers of the bus were called, those that had subscribed before among them
        have hprefix := claim.handlersAmong_prefix deserialize (h.claims claim hclaim).subscriptions
        have hall : Events.called s.calls claim.serial
            = claim.handlersAmong deserialize (s.buses claim.bus).subscriptions := by
          rw [hof.serial, hworking.done, List.take_of_length_le hle, Streaming.handlersFor, if_pos rfl,
            Claim.handlersAmong, hof.fields, hworking.holds, hof.bus, Option.elim_some]
        rwa [hall]
      | false =>
        -- nobody had subscribed to the type when the entry was taken
        obtain ⟨claim', hclaim', hof', hnil⟩ := hworking.live rfl
        obtain rfl := hacc.claim_eq hclaim hclaim' (hof.serial.trans hof'.serial.symm)
        rw [hnil]
        exact List.nil_prefix
    have hdispatched (stage : Stage Fields) (hentry' : stage.entry = some entry)
        (hstageOk : StageOk deserialize s c { k with stage }) (failure : Option String) :
        Handled deserialize { s.set c (some { k with stage }) with
          dispatches := s.dispatches ++ [⟨entry.value.serial, some event, failure⟩] } := by
      refine h.dispatched hacc hk { k with stage } hentry ?_ (List.Subset.refl _) rfl hstageOk hcomplete rfl
        rfl rfl rfl rfl rfl rfl
      rw [Consumer.hand, Consumer.hand, hstage, hentry']
      exact List.Sublist.refl _
    cases recording with
    | true => exact hdispatched (.recording entry event name _) rfl trivial _
    | false => exact hdispatched (.acking entry) rfl trivial _
  case h_8 recorded elapsedMs now entry event name failure hstage =>
    obtain rfl := Option.some.inj hturn
    refine h.goes c _ (fun k₁ hk₁ => ?_) rfl rfl rfl rfl rfl rfl
    rw [← Option.some.inj hk₁]
    refine hok.goes rfl ?_ (List.Subset.refl _) trivial
    rw [Consumer.hand, Consumer.hand, hstage]
    exact List.Sublist.refl _
  case h_9 executed entry hstage =>
    obtain rfl := Option.some.inj hturn
    refine h.goes c _ (fun k₁ hk₁ => ?_) rfl rfl rfl rfl rfl rfl
    rw [← Option.some.inj hk₁]
    refine hok.goes rfl ?_ (List.Subset.refl _) trivial
    rw [Consumer.hand, Consumer.hand, hstage]
    exact List.sublist_append_right ..
  case h_10 => cases hturn

/-- **Every step keeps it.** -/
theorem Handled.step {a : BusStep Fields} (h : Handled deserialize s) (hacc : Accounted s)
    (hstep : s.step serialize deserialize recording identity a = some s') : Handled deserialize s' := by
  have hsame : ∀ c k, s.consumers c = some k → HandOk deserialize s c k ∨ HandOk deserialize s' c k :=
    fun c k hk => .inl (h.consumers c k hk)
  cases a with
  | subscribe b eventType handler =>
    obtain rfl := Option.some.inj hstep
    refine h.quiet rfl rfl rfl le_rfl (fun b' => ?_) hsame
    by_cases hb : b' = b
    · subst hb
      dsimp only
      rw [Function.update_self]
      -- a new handler comes after those that the bus has
      exact List.prefix_append ..
    · dsimp only
      rw [Function.update_of_ne hb]
  | start b reply =>
    rw [Streaming.step] at hstep
    dsimp only at hstep
    split at hstep
    · obtain rfl := Option.some.inj hstep
      exact h
    · split at hstep
      · obtain rfl := Option.some.inj hstep
        obtain ⟨server, heq, -⟩ := s.ensureGroup_eq reply
        have hgroup := h.ensureGroup reply
        rw [heq] at hgroup ⊢
        refine hgroup.quiet rfl rfl rfl (Nat.le_succ _) (fun b' => ?_) fun c k hk => ?_
        · by_cases hb : b' = b
          · subst hb
            dsimp only
            rw [Function.update_self]
          · dsimp only
            rw [Function.update_of_ne hb]
        · rcases consumers_set hk with ⟨rfl, hk₁⟩ | ⟨-, hk₁⟩
          · -- a new consumer has nothing in hand
            rw [← Option.some.inj hk₁]
            exact .inr (.of_empty (Nat.lt_succ_self _))
          · exact .inl (hgroup.consumers c k hk₁)
      · obtain rfl := Option.some.inj hstep
        exact h.ensureGroup reply
  | stop b =>
    rw [Streaming.step] at hstep
    dsimp only at hstep
    split at hstep
    · obtain rfl := Option.some.inj hstep
      exact h
    · rename_i c _
      obtain rfl := Option.some.inj hstep
      refine h.quiet rfl rfl rfl le_rfl (fun b' => ?_) fun c' k hk => .inl ?_
      · by_cases hb : b' = b
        · subst hb
          dsimp only
          rw [Function.update_self]
        · dsimp only
          rw [Function.update_of_ne hb]
      · rcases consumers_set hk with ⟨rfl, hk₁⟩ | ⟨-, hk₁⟩
        · obtain ⟨k₀, hk₀, rfl⟩ := Option.map_eq_some_iff.mp hk₁
          have hok := h.consumers c' k₀ hk₀
          exact ⟨hok.lt, hok.claimed, hok.nodup, hok.untouched, hok.stage.stop⟩
        · exact h.consumers c' k hk₁
  | publish p event recorded now =>
    rw [Streaming.step] at hstep
    split at hstep
    · obtain rfl := Option.some.inj hstep
      exact h.quiet rfl rfl rfl le_rfl (fun _ => List.prefix_refl _) hsame
    · cases hstep
  | add p id trim again =>
    rw [Streaming.step] at hstep
    split at hstep
    · obtain ⟨s₁, hadd, rfl⟩ := Option.map_eq_some_iff.mp hstep
      have h₁ := h.xadd hadd
      exact h₁.quiet rfl rfl rfl le_rfl (fun _ => List.prefix_refl _) fun c k hk => .inl (h₁.consumers c k hk)
    · cases hstep
  | giveUp p =>
    obtain rfl := Option.some.inj hstep
    exact h.quiet rfl rfl rfl le_rfl (fun _ => List.prefix_refl _) hsame
  | foreign fields id trim => exact h.xadd hstep
  | flush =>
    obtain rfl := Option.some.inj hstep
    exact h.quiet rfl rfl rfl le_rfl (fun _ => List.prefix_refl _) hsame
  | turn c t =>
    obtain ⟨k, hk, hturn⟩ := Option.bind_eq_some_iff.mp hstep
    exact h.turn hacc hk hturn
  | die c =>
    obtain rfl := Option.some.inj hstep
    exact h.goes c none (by rintro k ⟨⟩) rfl rfl rfl rfl rfl rfl
  | queue event now =>
    obtain rfl := Option.some.inj hstep
    exact h.quiet rfl rfl rfl le_rfl (fun _ => List.prefix_refl _) hsame
  | prune cutoff size page =>
    rw [Streaming.step] at hstep
    split at hstep
    · obtain rfl := Option.some.inj hstep
      exact h.quiet rfl rfl rfl le_rfl (fun _ => List.prefix_refl _) hsame
    · cases hstep

end Turns

end Steps

/-! ## Runs -/

section Runs

variable {serialize : Event → Option Fields} {deserialize : Fields → Option Event} {recording : Bool}
  {identity : ℕ → String} {s : Streaming Fields}

/-- It holds in every run. -/
theorem handled_reaches
    (h : Reaches (Streaming.step serialize deserialize recording identity) Streaming.Any Streaming.init s) :
    Handled deserialize s :=
  h.invariant (Handled deserialize) (handled_init deserialize) fun hr hinv _ hstep =>
    hinv.step (accounted_reaches hr) hstep

/-- **In any run, an entry is handled at most once.** What is called for it is a front of the handlers of its
event, in the order in which they subscribed, by the one consumer that was given it, and for an entry that was
dispatched all that had subscribed when it was read. -/
theorem handlers_called
    (h : Reaches (Streaming.step serialize deserialize recording identity) Streaming.Any Streaming.init s) :
    (∀ call ∈ s.calls, ∃ claim ∈ s.claims, claim.serial = call.serial ∧ claim.consumer = call.consumer) ∧
    ∀ claim ∈ s.claims,
      called s.calls claim.serial <+: claim.handlersAmong deserialize (s.buses claim.bus).subscriptions
      ∧ (∀ call ∈ s.calls, call.serial = claim.serial → call.consumer = claim.consumer)
      ∧ ∀ d ∈ s.dispatches, d.serial = claim.serial →
          claim.handlersAmong deserialize claim.subscriptions <+: called s.calls claim.serial := by
  have hacc := accounted_reaches h
  have hinv := handled_reaches h
  refine ⟨hinv.calls, fun claim hclaim => ⟨(hinv.claims claim hclaim).done, fun call hcall hserial => ?_,
    (hinv.claims claim hclaim).complete⟩⟩
  obtain ⟨claim', hclaim', hserial', hconsumer⟩ := hinv.calls call hcall
  rw [hacc.claim_eq hclaim hclaim' (hserial.symm.trans hserial'.symm)]
  exact hconsumer.symm

end Runs

/-- Both handlers were called for the entry that was dispatched, and none for the one that nobody heard of. -/
theorem handlers_called_sampleRun :
    called sampleRun.calls 0 = [⟨0, "mail"⟩, ⟨1, "audit"⟩] ∧ called sampleRun.calls 1 = [] := by
  obtain ⟨-, hclaims⟩ := handlers_called reaches_sampleRun
  have hfirst : ∃ claim ∈ sampleRun.claims, claim.serial = 0
      ∧ claim.handlersAmong (fun id => some (orderCreated id)) (sampleRun.buses claim.bus).subscriptions
        = [⟨0, "mail"⟩, ⟨1, "audit"⟩]
      ∧ claim.handlersAmong (fun id => some (orderCreated id)) claim.subscriptions
        = [⟨0, "mail"⟩, ⟨1, "audit"⟩] := by
    decide +kernel
  have hsecond : ∃ claim ∈ sampleRun.claims, claim.serial = 1
      ∧ claim.handlersAmong (fun id => some (orderCreated id)) (sampleRun.buses claim.bus).subscriptions
        = [] := by
    decide +kernel
  have hdispatched : ∃ d ∈ sampleRun.dispatches, d.serial = 0 := by decide +kernel
  obtain ⟨claim, hclaim, hzero, hnow, hthen⟩ := hfirst
  obtain ⟨d, hd, hdserial⟩ := hdispatched
  obtain ⟨hfront, -, hall⟩ := hclaims claim hclaim
  have hall := hall d hd (hdserial.trans hzero.symm)
  rw [hzero, hnow] at hfront
  rw [hzero, hthen] at hall
  obtain ⟨claim', hclaim', hone, hnobody⟩ := hsecond
  obtain ⟨hfront', -⟩ := hclaims claim' hclaim'
  rw [hone, hnobody] at hfront'
  exact ⟨hfront.eq_of_length_le hall.length_le, List.prefix_nil.mp hfront'⟩

end Jasil.Events
