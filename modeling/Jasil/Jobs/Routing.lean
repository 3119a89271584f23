import Jasil.Relational.Sorting
import Jasil.Jobs.Runner

/-! # Which worker takes which job
A subscriber is registered with a queue, and a job is staged in its subscriber's queue. Jobs staged before
queues had names stand in the default queue, whoever their subscriber is: each claim sorts them out by
subscriber, and a worker moves them once to where they belong.

* **`JobHandlerRegistry`**: the durable subscribers, each with its queue.
* **`effectiveQueue`**: the queue whose workers take a job.
* **`queue_partition`**: a worker takes the jobs whose effective queue it has selected, and the move changes
  no job's effective queue. -/

namespace Jasil.Jobs

/-! ## The registry -/

/-- `MAX_EVENT_TYPE_LENGTH`. -/
def maxEventTypeLength : ℕ := 100

/-- `MAX_SUBSCRIBER_ID_LENGTH`. -/
def maxSubscriberIdLength : ℕ := 200

/-- `d[key] = value`: a key that is there keeps its place. -/
def dictSet {α β : Type*} [DecidableEq α] (d : List (α × β)) (key : α) (value : β) : List (α × β) :=
  if key ∈ d.map Prod.fst then d.map fun e => if e.1 = key then (key, value) else e
  else d ++ [(key, value)]

/-- `d.get(key)`. -/
def dictGet {α β : Type*} [DecidableEq α] (d : List (α × β)) (key : α) : Option β :=
  (d.find? (·.1 = key)).map Prod.snd

/-- The durable subscribers of a process. -/
structure JobHandlerRegistry where
  /-- The subscribers that have a handler. -/
  handlers : List SubscriberId
  /-- The subscribers of each event type, in registration order. -/
  byEventType : List (String × List SubscriberId)
  queues : List (SubscriberId × String)
  /-- A handler and a queue are registered together. -/
  sameKeys : queues.map Prod.fst = handlers
  nodup : handlers.Nodup

section Dict

variable {α β : Type*} [DecidableEq α] {d : List (α × β)} {key : α} {value : β}

/-- A key that is set is there, in its place. -/
theorem map_fst_dictSet :
    (dictSet d key value).map Prod.fst =
      if key ∈ d.map Prod.fst then d.map Prod.fst else d.map Prod.fst ++ [key] := by
  unfold dictSet
  by_cases h : key ∈ d.map Prod.fst
  · rw [if_pos h, if_pos h, List.map_map]
    refine List.map_congr_left fun e _ => ?_
    by_cases he : e.1 = key
    · simp [he]
    · simp [he]
  · rw [if_neg h, if_neg h, List.map_append, List.map_singleton]

/-- An entry is found under its key. -/
theorem dictGet_of_mem (hd : (d.map Prod.fst).Nodup) (h : (key, value) ∈ d) :
    dictGet d key = some value := by
  unfold dictGet
  cases hfind : d.find? (·.1 = key) with
  | none => exact absurd (List.find?_eq_none.mp hfind _ h) (by simp)
  | some e =>
    have hkey : e.1 = key := by simpa using List.find?_some hfind
    rw [List.inj_on_of_nodup_map hd (List.mem_of_find?_eq_some hfind) h hkey, Option.map_some]

/-- What is found under a key is an entry. -/
theorem mem_of_dictGet (h : dictGet d key = some value) : (key, value) ∈ d := by
  obtain ⟨e, hfind, rfl⟩ := Option.map_eq_some_iff.mp h
  have hkey : e.1 = key := by simpa using List.find?_some hfind
  rw [← hkey]
  exact List.mem_of_find?_eq_some hfind

end Dict

namespace JobHandlerRegistry

/-- No subscriber yet. -/
def empty : JobHandlerRegistry := ⟨[], [], [], rfl, List.nodup_nil⟩

/-- `register`: register or replace a subscriber. -/
def register (registry : JobHandlerRegistry) (eventType : String) (subscriberId : SubscriberId)
    (queue : String := defaultQueue) : Except String JobHandlerRegistry := do
  checkLength eventType "event_type" maxEventTypeLength
  checkLength subscriberId "subscriber_id" maxSubscriberIdLength
  let _ ← validateQueueName queue
  -- a subscriber moves to the event type it was registered under last
  let others := registry.byEventType.map fun (other, subscribers) =>
    (other, if other ≠ eventType then subscribers.erase subscriberId else subscribers)
  let subscribers := (dictGet others eventType).getD []
  return {
    handlers :=
      if subscriberId ∈ registry.handlers then registry.handlers
      else registry.handlers ++ [subscriberId]
    byEventType :=
      if subscriberId ∈ subscribers then others
      else dictSet others eventType (subscribers ++ [subscriberId])
    queues := dictSet registry.queues subscriberId queue
    sameKeys := by rw [map_fst_dictSet, registry.sameKeys]
    nodup := by
      split
      · exact registry.nodup
      · rename_i hnew
        exact registry.nodup.append (List.nodup_singleton _) (by simpa using hnew) }

/-- `queue_for`. -/
def queueFor (registry : JobHandlerRegistry) (subscriberId : SubscriberId) : Option String :=
  dictGet registry.queues subscriberId

/-- `subscribers_for`. -/
def subscribersFor (registry : JobHandlerRegistry) (eventType : String) : List SubscriberId :=
  (dictGet registry.byEventType eventType).getD []

/-- `subscriber_ids_for_queues`. -/
def subscriberIdsForQueues (registry : JobHandlerRegistry) (queues : Option (List String)) :
    Except String (List SubscriberId) := do
  match ← normalizeQueueSelector queues with
  | none => return registry.handlers
  | some selected => return (registry.queues.filter fun e => e.2 ∈ selected).map Prod.fst

/-- `_legacy_routing`: the subscribers whose jobs of the default queue a worker adopts, and those whose it
leaves. -/
def legacyRouting (registry : JobHandlerRegistry) (queues : Option (List String)) :
    Except String (List SubscriberId × List SubscriberId) := do
  match queues with
  | none => return ([], [])
  | some _ =>
    let selected ← registry.subscriberIdsForQueues queues
    return (selected, sortBy id (registry.handlers.filter fun s => s ∉ selected))

/-- The queue whose workers take the job: that of its subscriber for a job in the default queue, when the
subscriber is registered, and its own otherwise. -/
def effectiveQueue (registry : JobHandlerRegistry) (j : ProcessingJob) : String :=
  if j.queue = defaultQueue then (registry.queueFor j.subscriberId).getD j.queue else j.queue

/-- A subscriber has one queue. -/
theorem nodup_keys (registry : JobHandlerRegistry) : (registry.queues.map Prod.fst).Nodup :=
  registry.sameKeys ▸ registry.nodup

/-- A subscriber is registered when it has a queue. -/
theorem mem_handlers {registry : JobHandlerRegistry} {s : SubscriberId} :
    s ∈ registry.handlers ↔ ∃ queue, registry.queueFor s = some queue := by
  rw [← registry.sameKeys, List.mem_map]
  constructor
  · rintro ⟨⟨s, queue⟩, he, rfl⟩
    exact ⟨queue, dictGet_of_mem registry.nodup_keys he⟩
  · rintro ⟨queue, h⟩
    exact ⟨(s, queue), mem_of_dictGet h, rfl⟩

end JobHandlerRegistry

/-! ## The rows a worker takes -/

/-- Names that are all valid are unchanged. -/
theorem mapM_validateQueueName {values names : List String}
    (h : values.mapM validateQueueName = .ok names) :
    names = values ∧ ∀ queue ∈ values, validateQueueName queue = .ok queue := by
  induction values generalizing names with
  | nil =>
    obtain rfl : [] = names := Except.ok.inj h
    exact ⟨rfl, fun _ hq => absurd hq List.not_mem_nil⟩
  | cons value values ih =>
    rw [List.mapM_cons] at h
    cases hname : validateQueueName value with
    | error e => simp [hname, bind, Except.bind] at h
    | ok name =>
      cases hrest : values.mapM validateQueueName with
      | error e => simp [hname, hrest, bind, Except.bind] at h
      | ok rest =>
        obtain ⟨rfl, hvalid⟩ := ih hrest
        obtain rfl := (validateQueueName_ok hname).1
        simp only [hname, hrest, bind, Except.bind, pure, Except.pure, Except.ok.injEq] at h
        exact ⟨h.symm, List.forall_mem_cons.mpr ⟨hname, hvalid⟩⟩

/-- Valid names pass. -/
theorem mapM_of_valid {values : List String} (h : ∀ queue ∈ values, validateQueueName queue = .ok queue) :
    values.mapM validateQueueName = .ok values := by
  induction values with
  | nil => rfl
  | cons value values ih =>
    obtain ⟨hvalue, hrest⟩ := List.forall_mem_cons.mp h
    rw [List.mapM_cons, hvalue, ih hrest]
    rfl

/-- What a normalised selection is normalised to has the same members. -/
theorem normalizeQueueSelector_again {queues : Option (List String)} {selected : List String}
    (h : normalizeQueueSelector queues = .ok (some selected)) :
    normalizeQueueSelector (some selected) = .ok (some selected.eraseDups) := by
  cases queues with
  | none => exact nomatch h
  | some values =>
    cases values with
    | nil => exact nomatch h
    | cons value values =>
      cases hnames : (value :: values).mapM validateQueueName with
      | error e => simp [normalizeQueueSelector, hnames, bind, Except.bind] at h
      | ok names =>
        obtain ⟨rfl, hvalid⟩ := mapM_validateQueueName hnames
        simp only [normalizeQueueSelector, hnames, bind, Except.bind, pure, Except.pure,
          Except.ok.injEq, Option.some.injEq] at h
        have hall : ∀ queue ∈ selected, validateQueueName queue = .ok queue := by
          intro queue hq
          rw [← h] at hq
          exact hvalid queue (List.mem_eraseDups.mp hq)
        cases selected with
        | nil =>
          rw [List.eraseDups_cons] at h
          exact nomatch h
        | cons first rest =>
          simp only [normalizeQueueSelector, mapM_of_valid hall, bind, Except.bind, pure, Except.pure]

namespace JobHandlerRegistry

variable {registry : JobHandlerRegistry} {queues : Option (List String)} {selected : List String}

/-- The subscribers of the selected queues. -/
theorem mem_subscriberIdsForQueues (h : normalizeQueueSelector queues = .ok (some selected))
    {ids : List SubscriberId} (hids : registry.subscriberIdsForQueues (some selected) = .ok ids)
    {s : SubscriberId} : s ∈ ids ↔ ∃ queue ∈ selected, registry.queueFor s = some queue := by
  rw [subscriberIdsForQueues, normalizeQueueSelector_again h] at hids
  simp only [bind, Except.bind, pure, Except.pure, Except.ok.injEq] at hids
  rw [← hids, List.mem_map]
  constructor
  · rintro ⟨⟨s, queue⟩, he, rfl⟩
    obtain ⟨he, hqueue⟩ := List.mem_filter.mp he
    exact ⟨queue, by simpa using hqueue, dictGet_of_mem registry.nodup_keys he⟩
  · rintro ⟨queue, hqueue, h⟩
    exact ⟨(s, queue), List.mem_filter.mpr ⟨mem_of_dictGet h, by simpa using hqueue⟩, rfl⟩

/-- **The two lists of a claim**: the subscribers of the selected queues, and those of the other ones. -/
theorem legacyRouting_ok (h : normalizeQueueSelector queues = .ok (some selected))
    {adopted left : List SubscriberId}
    (hrouting : registry.legacyRouting (some selected) = .ok (adopted, left)) {s : SubscriberId} :
    (s ∈ adopted ↔ ∃ queue ∈ selected, registry.queueFor s = some queue)
      ∧ (s ∈ left ↔ ∃ queue, queue ∉ selected ∧ registry.queueFor s = some queue) := by
  cases hids : registry.subscriberIdsForQueues (some selected) with
  | error e => simp [legacyRouting, hids, bind, Except.bind] at hrouting
  | ok ids =>
    simp only [legacyRouting, hids, bind, Except.bind, pure, Except.pure, Except.ok.injEq] at hrouting
    obtain ⟨rfl, rfl⟩ := Prod.mk.inj hrouting
    have hmem := fun s => mem_subscriberIdsForQueues h hids (s := s)
    refine ⟨hmem s, ?_⟩
    rw [mem_sortBy, List.mem_filter, mem_handlers, decide_eq_true_eq, hmem]
    constructor
    · rintro ⟨⟨queue, hqueue⟩, hnot⟩
      exact ⟨queue, fun hsel => hnot ⟨queue, hsel, hqueue⟩, hqueue⟩
    · rintro ⟨queue, hnot, hqueue⟩
      refine ⟨⟨queue, hqueue⟩, ?_⟩
      rintro ⟨queue', hsel, hqueue'⟩
      obtain rfl := Option.some.inj (hqueue.symm.trans hqueue')
      exact hnot hsel

end JobHandlerRegistry

/-- What a worker reads from the registry for its claims. -/
structure Routed (registry : JobHandlerRegistry) (cfg : RunnerConfig) (selected : Option (List String))
    (r : Readings) : Prop where
  queues : normalizeQueueSelector cfg.queues = .ok selected
  routing : registry.legacyRouting selected =
    .ok (r.defaultQueueSubscribers, r.excludedDefaultQueueSubscribers)

section Partition

variable {registry : JobHandlerRegistry} {cfg : RunnerConfig} {selected : Option (List String)}
  {r : Readings} {j : ProcessingJob}

/-- **The queue part of a claim** asks for the effective queue of a job. -/
theorem Routed.queueFilter_iff (h : Routed registry cfg selected r) (w : Worker) :
    (w.claimRequest cfg r).QueueFilter selected j ↔
      ∀ queues ∈ selected, registry.effectiveQueue j ∈ queues := by
  cases selected with
  | none => simp [ClaimRequest.QueueFilter]
  | some queues =>
    have hadopted := fun s => (JobHandlerRegistry.legacyRouting_ok h.queues h.routing (s := s)).1
    have hleft := fun s => (JobHandlerRegistry.legacyRouting_ok h.queues h.routing (s := s)).2
    have hone : (∀ qs ∈ some queues, registry.effectiveQueue j ∈ qs)
        ↔ registry.effectiveQueue j ∈ queues := by simp
    rw [hone]
    unfold ClaimRequest.QueueFilter JobHandlerRegistry.effectiveQueue
    dsimp only [Worker.claimRequest]
    by_cases hdefault : j.queue = defaultQueue
    · rw [if_pos hdefault, hdefault]
      -- whose job it is decides, and the subscriber may be registered with any queue or not at all
      cases hqueue : registry.queueFor j.subscriberId with
      | none =>
        have hnotAdopted : j.subscriberId ∉ r.defaultQueueSubscribers := by simp [hadopted, hqueue]
        have hnotLeft : j.subscriberId ∉ r.excludedDefaultQueueSubscribers := by simp [hleft, hqueue]
        rw [Option.getD_none]
        simp [hnotAdopted, hnotLeft]
      | some queue =>
        have hin : j.subscriberId ∈ r.defaultQueueSubscribers ↔ queue ∈ queues := by
          simp [hadopted, hqueue]
        have hout : j.subscriberId ∈ r.excludedDefaultQueueSubscribers ↔ queue ∉ queues := by
          simp [hleft, hqueue]
        rw [Option.getD_some]
        by_cases hsel : defaultQueue ∈ queues
        · by_cases hnone : r.excludedDefaultQueueSubscribers = []
          · have hq : queue ∈ queues := by
              by_contra hq
              rw [hnone] at hout
              exact absurd (hout.mpr hq) List.not_mem_nil
            simp [hsel, hnone, hq]
          · simp [hsel, hnone, hout]
        · by_cases hnone : r.defaultQueueSubscribers = []
          · have hq : queue ∉ queues := by
              intro hq
              rw [hnone] at hin
              exact absurd (hin.mpr hq) List.not_mem_nil
            simp [hsel, hnone, hq]
          · simp [hsel, hnone, hin]
    · rw [if_neg hdefault]
      simp [hdefault]

end Partition

/-! ## The move -/

section Move

variable {registry : JobHandlerRegistry} {j j' : ProcessingJob}

/-- A group of a registry's assignments holds the subscribers of its queue, which is not the default one. -/
theorem mem_byQueue {group : String × List SubscriberId} (h : group ∈ byQueue registry.queues) :
    group.1 ≠ defaultQueue ∧ ∀ s ∈ group.2, registry.queueFor s = some group.1 := by
  obtain ⟨queue, hqueue, rfl⟩ := List.mem_map.mp h
  obtain ⟨-, hne⟩ := List.mem_filter.mp (List.mem_eraseDups.mp hqueue)
  refine ⟨by simpa using hne, fun s hs => ?_⟩
  obtain ⟨⟨s, queue'⟩, hfilter, rfl⟩ := List.mem_map.mp hs
  obtain ⟨hmem, heq⟩ := List.mem_filter.mp hfilter
  obtain rfl : queue' = queue := by simpa using heq
  exact dictGet_of_mem registry.nodup_keys hmem

/-- The job is the same up to its queue, and as effective in it. -/
def Moved (registry : JobHandlerRegistry) (j j' : ProcessingJob) : Prop :=
  (∃ queue, j' = j.retag queue) ∧ registry.effectiveQueue j' = registry.effectiveQueue j

/-- A job that is not moved is where it was. -/
theorem Moved.refl : Moved registry j j := ⟨⟨j.queue, rfl⟩, rfl⟩

/-- Two moves are one move. -/
theorem Moved.trans {j'' : ProcessingJob} (h : Moved registry j j') (h' : Moved registry j' j'') :
    Moved registry j j'' := by
  obtain ⟨⟨queue, rfl⟩, heff⟩ := h
  obtain ⟨⟨queue', rfl⟩, heff'⟩ := h'
  exact ⟨⟨queue', rfl⟩, heff'.trans heff⟩

/-- One update moves jobs to the queue of their subscriber. -/
theorem moved_retag {group : String × List SubscriberId} (h : group ∈ byQueue registry.queues)
    (hj : Legacy group.2 j) : Moved registry j (j.retag group.1) := by
  obtain ⟨hne, hqueue⟩ := mem_byQueue h
  refine ⟨⟨group.1, rfl⟩, ?_⟩
  unfold JobHandlerRegistry.effectiveQueue
  rw [if_pos hj.2.1, hqueue _ hj.2.2, Option.getD_some]
  exact if_neg hne

/-- **The move keeps every job**, and its effective queue. -/
theorem moved_backfill (db : Db) {id : JobId} (hj : db.jobs.get id = some j) :
    ∃ j', (backfillLegacyQueues db registry.queues).2.jobs.get id = some j' ∧ Moved registry j j' := by
  -- group by group
  have hfold (groups : List (String × List SubscriberId)) (acc : ℕ × Db) (j : ProcessingJob)
      (hall : ∀ group ∈ groups, group ∈ byQueue registry.queues) (hj : acc.2.jobs.get id = some j) :
      ∃ j', (groups.foldl retagQueue acc).2.jobs.get id = some j' ∧ Moved registry j j' := by
    induction groups generalizing acc j with
    | nil => exact ⟨j, hj, .refl⟩
    | cons group groups ih =>
      obtain ⟨hgroup, hall⟩ := List.forall_mem_cons.mp hall
      have hget : (retagQueue acc group).2.jobs.get id
          = some (if Legacy group.2 j then j.retag group.1 else j) := by
        rw [retagQueue, Table.get_update, hj, Option.map_some]
      obtain ⟨j', hj', hmoved⟩ := ih _ _ hall hget
      refine ⟨j', hj', Moved.trans ?_ hmoved⟩
      by_cases hlegacy : Legacy group.2 j
      · rw [if_pos hlegacy]
        exact moved_retag hgroup hlegacy
      · rw [if_neg hlegacy]
        exact .refl
  exact hfold _ (0, db) j (fun _ hg => hg) hj

end Move

/-- **Queue selection partitions the work.** A worker may claim a pending due job when its effective queue is
selected, or nothing is selected; two workers with disjoint selections never compete for a job, and workers
whose selections cover all effective queues leave none out. The move of the jobs in the default queue leaves
every job in its effective queue. -/
theorem queue_partition (registry : JobHandlerRegistry) :
    (∀ (w : Worker) cfg selected r, Routed registry cfg selected r → ∀ j,
        (w.claimRequest cfg r).Due selected j ↔
          j.status = .pending ∧ j.availableAt ≤ r.now
            ∧ ∀ queues ∈ selected, registry.effectiveQueue j ∈ queues)
      ∧ (∀ (w w' : Worker) cfg cfg' queues queues' r r', Routed registry cfg (some queues) r →
        Routed registry cfg' (some queues') r' → queues.Disjoint queues' → ∀ j,
          ¬((w.claimRequest cfg r).Due (some queues) j ∧ (w'.claimRequest cfg' r').Due (some queues') j))
      ∧ (∀ (workers : List (Worker × RunnerConfig × Option (List String) × Readings)),
        (∀ p ∈ workers, Routed registry p.2.1 p.2.2.1 p.2.2.2) → ∀ j, j.status = .pending →
          (∀ p ∈ workers, j.availableAt ≤ p.2.2.2.now) →
          (∃ p ∈ workers, ∀ queues ∈ p.2.2.1, registry.effectiveQueue j ∈ queues) →
          ∃ p ∈ workers, (p.1.claimRequest p.2.1 p.2.2.2).Due p.2.2.1 j)
      ∧ ∀ db id j, db.jobs.get id = some j →
        ∃ j', (backfillLegacyQueues db registry.queues).2.jobs.get id = some j'
          ∧ registry.effectiveQueue j' = registry.effectiveQueue j := by
  have hdue : ∀ (w : Worker) cfg selected r, Routed registry cfg selected r → ∀ j,
      (w.claimRequest cfg r).Due selected j ↔
        j.status = .pending ∧ j.availableAt ≤ r.now
          ∧ ∀ queues ∈ selected, registry.effectiveQueue j ∈ queues := by
    intro w cfg selected r h j
    exact and_congr_right fun _ => and_congr_right fun _ => h.queueFilter_iff w
  refine ⟨hdue, ?_, ?_, fun db id j hj => ?_⟩
  · rintro w w' cfg cfg' queues queues' r r' h h' hdisjoint j ⟨hj, hj'⟩
    have hin := ((hdue w cfg _ r h j).mp hj).2.2 queues rfl
    have hin' := ((hdue w' cfg' _ r' h' j).mp hj').2.2 queues' rfl
    exact hdisjoint hin hin'
  · rintro workers hrouted j hpending hnow ⟨p, hp, hcover⟩
    exact ⟨p, hp, (hdue p.1 p.2.1 _ _ (hrouted p hp) j).mpr ⟨hpending, hnow p hp, hcover⟩⟩
  · obtain ⟨j', hj', hmoved⟩ := moved_backfill db hj
    have heff : registry.effectiveQueue j' = registry.effectiveQueue j := hmoved.2
    exact ⟨j', hj', heff⟩

/-- A registry with one subscriber, on the queue `mail`. -/
def mailRegistry : JobHandlerRegistry :=
  match JobHandlerRegistry.empty.register "user.created" "mailer" "mail" with
  | .ok registry => registry
  | .error _ => .empty

/-- What a worker on the queue `mail` is built with. -/
def mailConfig : RunnerConfig where
  workerId := "w1"
  leaseSeconds := 60
  intervalSeconds := 20
  maxRuntimeSeconds := 600
  recordAttempts := true
  batchSize := 10
  backoffBaseSeconds := 1
  backoffMaxSeconds := 60
  queues := some ["mail"]

/-- The worker takes the subscriber's jobs of the default queue, and nobody else's. -/
theorem queue_partition_mail :
    let job := newJob sampleEvent "mailer" defaultQueue 3 0 none "job"
    let stray := newJob sampleEvent "stray" defaultQueue 3 0 none "stray"
    let r : Readings := { now := 1, defaultQueueSubscribers := ["mailer"] }
    ((Worker.init Db.empty 0).claimRequest mailConfig r).Due (some ["mail"]) job
      ∧ ¬((Worker.init Db.empty 0).claimRequest mailConfig r).Due (some ["mail"]) stray := by
  intro job stray r
  have hrouted : Routed mailRegistry mailConfig (some ["mail"]) r := ⟨by decide, by decide⟩
  have hdue := (queue_partition mailRegistry).1 (Worker.init Db.empty 0) mailConfig _ r hrouted
  exact ⟨(hdue job).mpr ⟨rfl, by decide, by decide⟩, fun h => absurd ((hdue stray).mp h).2.2 (by decide)⟩

end Jasil.Jobs
