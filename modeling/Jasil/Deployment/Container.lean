import Jasil.Deployment.MailProblems

/-! # Building the platform
`build_platform` checks the wiring and builds the backend that each capability URI selects. The checks and the
builder look at the URIs in different ways.

* **`buildPlatform`**: the backends that are wired.
* **`Shared`**: no capability that several processes or machines reach is kept by one of them.
* **`shared_iff`**: what passes the checks and is built is shared, unless a URI is the bare word `noop` or
  `local`, which the builder takes for a scheme and the checks do not. -/

namespace Jasil.Deployment

/-! ## Backends -/

/-- The state backends. -/
inductive StateBackend
  | memory
  | redis (uri : String)

/-- The storage backends. -/
inductive StorageBackend
  | «local» (root : String) (settings : StorageSettings)
  | s3 (uri : String)
  | null

/-- The event backends. -/
inductive EventsBackend
  | inProcess
  | null
  | redis (uri stream group : String)

/-- The realtime backends. -/
inductive RealtimeBackend
  | inProcess
  | null
  | redis (uri channel : String)

/-- The sinks of the audit log. -/
inductive AuditSinkBackend
  | file (uri : String)
  | s3 (uri : String)

/-- The lock backends. -/
inductive LockBackend
  | noop
  | postgresAdvisory

/-- The mail backends. -/
inductive MailBackend
  | null
  | memory (fromAddress : String)
  | smtp (hostname : String) (port : ℕ) (implicitTls : Bool) (settings : MailSettings)

/-- The providers that the deployment checks are about. -/
structure Platform where
  state : StateBackend
  storage : StorageBackend
  events : EventsBackend
  realtime : RealtimeBackend
  auditSink : Option AuditSinkBackend
  lock : LockBackend
  mail : MailBackend

/-- What building a backend asks of the world. -/
structure Environment where
  mail : MailEnvironment
  /-- `get_shared_client`, for a purpose. -/
  redis : String → String → Except String Unit
  /-- `S3Storage.from_uri`. -/
  s3 : String → Except String Unit
  /-- `FileAuditSink.from_uri`. -/
  fileSink : String → Except String Unit
  /-- `PgAdvisoryLock.from_main_database`. -/
  advisoryLock : Except String Unit

/-- What `build_platform` raises. -/
inductive BuildError
  | value (message : String)
  | inconsistent (issues : List String)
  /-- Unsupported … scheme: … -/
  | unsupportedScheme (setting scheme : String)
  /-- … is not a scheme://... URI -/
  | notUri (setting : String)
  /-- `TransientBuildError`. -/
  | transient (message : String)
  | backend (message : String)

/-! ## Building -/

/-- `_unsupported_scheme`. -/
def unsupportedScheme (setting uri : String) : BuildError :=
  match partition uri.toList with
  | (scheme, some _) => .unsupportedScheme setting (String.ofList scheme)
  | (_, none) => .notUri setting

/-- A backend, when what it needs is there. -/
def whenBuilt {α : Type} (built : Except String Unit) (backend : α) : Except BuildError α :=
  match built with
  | .ok () => .ok backend
  | .error message => .error (.backend message)

local instance lawfulBEq_text : LawfulBEq (List Char) := inferInstance

/-- The schemes of Redis. -/
def redisSchemes : List (List Char) := ["redis".toList, "rediss".toList, "unix".toList]

variable (env : Environment) (s : JasilSettings)

/-- `_build_state`. -/
def buildState (uri : String) : Except BuildError StateBackend :=
  let scheme := (partition uri.toList).1
  if scheme = "memory".toList then .ok .memory
  else if scheme ∈ redisSchemes then whenBuilt (env.redis "platform state" uri) (.redis uri)
  else .error (unsupportedScheme "state_uri" uri)

/-- `_build_storage`. -/
def buildStorage (uri : String) : Except BuildError StorageBackend :=
  let (scheme, rest) := partition uri.toList
  if scheme = "local".toList then
    let root := if rest.getD [] = [] then s.dataDir else String.ofList (rest.getD [])
    .ok (.local root s.storage)
  else if scheme = "s3".toList then whenBuilt (env.s3 uri) (.s3 uri)
  else if scheme = "none".toList then .ok .null
  else .error (unsupportedScheme "storage_uri" uri)

/-- `_build_events`. -/
def buildEvents (uri : String) : Except BuildError EventsBackend :=
  let scheme := (partition uri.toList).1
  if scheme = "memory".toList then .ok .inProcess
  else if scheme = "none".toList then .ok .null
  else if scheme ∈ redisSchemes then
    if s.eventsStream = "" ∨ s.eventsGroup = "" then
      .error (.value "events_stream and events_group must not be empty")
    else whenBuilt (env.redis "event bus" uri) (.redis uri s.eventsStream s.eventsGroup)
  else .error (unsupportedScheme "events_uri" uri)

/-- `_build_realtime`. -/
def buildRealtime (uri : String) : Except BuildError RealtimeBackend :=
  let scheme := (partition uri.toList).1
  if scheme = "memory".toList then .ok .inProcess
  else if scheme = "none".toList then .ok .null
  else if scheme ∈ redisSchemes then
    whenBuilt (env.redis "realtime hints" uri) (.redis uri s.realtimeChannel)
  else .error (unsupportedScheme "realtime_uri" uri)

/-- `_build_audit_sink`. -/
def buildAuditSink : Except BuildError (Option AuditSinkBackend) :=
  match given s.audit.externalSinkUri with
  | none => .ok none
  | some uri =>
    if s.audit.enabled = false then .ok none
    else
      let scheme := (partition uri.toList).1
      if scheme = "file".toList then whenBuilt (env.fileSink uri) (some (.file uri))
      else if scheme = "s3".toList then whenBuilt (env.s3 uri) (some (.s3 uri))
      else .error (unsupportedScheme "audit.external_sink_uri" uri)

/-- `_build_lock`. -/
def buildLock (uri : String) : Except BuildError LockBackend :=
  let scheme := (partition uri.toList).1
  if scheme = "noop".toList then .ok .noop
  else if scheme = "postgres-advisory".toList then whenBuilt env.advisoryLock .postgresAdvisory
  else .error (unsupportedScheme "lock_uri" uri)

variable (u : UnicodeData)

/-- `_build_mail`. -/
def buildMail : Except BuildError MailBackend :=
  match given s.mail.uri with
  | none => .ok .null
  | some uri =>
    match mailProblems u env.mail s.mail with
    | problem :: _ =>
      if problem.code = .cleartextHostUnresolvable then .error (.transient problem.message)
      else .error (.value problem.message)
    | [] =>
      match urlsplit env.mail uri.toList with
      | none => .error (.value "mail.uri is not a valid URI")
      | some parts =>
        if parts.scheme = "memory".toList then .ok (.memory s.mail.fromAddress)
        else
          let port := (parts.port.getD none).getD ((smtpPorts.lookup parts.scheme).getD 0)
          .ok (.smtp ((parts.hostname u).getD "") port (parts.scheme = "smtps".toList) s.mail)

/-- A URI that the settings resolve. -/
def resolved (uri : Except String String) : Except BuildError String :=
  match uri with
  | .ok uri => .ok uri
  | .error message => .error (.value message)

/-- `_check_deployment_consistency`. -/
def refuseInconsistent : Except BuildError Unit :=
  match checkDeploymentConsistency u s with
  | .error message => .error (.value message)
  | .ok issues =>
    if issues = [] ∨ s.enforceDeploymentConsistency = false then .ok () else .error (.inconsistent issues)

/-- `build_platform`, without runtime sources. -/
def buildPlatform : Except BuildError Platform := do
  refuseInconsistent s u
  let mail ← buildMail env s u
  let state ← buildState env (← resolved s.resolvedStateUri)
  let storage ← buildStorage env s (← resolved s.resolvedStorageUri)
  let events ← buildEvents env s (← resolved s.resolvedEventsUri)
  let lock ← buildLock env (← resolved s.resolvedLockUri)
  let realtime ← buildRealtime env s (← resolved s.resolvedRealtimeUri)
  let auditSink ← buildAuditSink env s
  return { state, storage, events, lock, realtime, auditSink, mail }

/-! ## What is shared -/

/-- **No capability is kept by one process or machine** of several that reach it. -/
structure Shared (t : DeploymentTopology) (p : Platform) : Prop where
  state : t.multiProcess = true → p.state ≠ .memory
  events : t.multiProcess = true → p.events ≠ .inProcess
  realtime : t.multiProcess = true → p.realtime ≠ .inProcess
  lock : t.multiProcess = true → p.lock ≠ .noop
  mail : t.multiProcess = true → ∀ sender, p.mail ≠ .memory sender
  storage : t.multiNode = true → ∀ root settings, p.storage ≠ .local root settings
  auditSink : t.multiNode = true → ∀ uri, p.auditSink ≠ some (.file uri)

section Built

variable {env : Environment} {s : JasilSettings} {u : UnicodeData} {p : Platform} {uri : String}

/-- A URI with the scheme `memory` is not classified as Redis. -/
theorem not_redis_of_memory (h : (partition uri.toList).1 = "memory".toList) :
    classifyStateUri u uri ≠ .redis := by
  have hprefix : "memory".toList <+: uri.toList := by
    rcases eq_or_prefix_of_partition h with heq | hprefix
    · rw [heq]
    · exact (List.prefix_append _ _).trans hprefix
  have hnormalized : "memory".toList <+: u.lower (u.strip uri.toList) :=
    lower_strip_plain (by decide) (by decide) hprefix
  -- nothing begins with both
  have hother {w : List Char} (hw : ¬ (w <+: "memory".toList ∨ "memory".toList <+: w)) :
      ¬ w <+: u.lower (u.strip uri.toList) :=
    fun hp => hw (List.prefix_or_prefix_of_prefix hp hnormalized)
  rw [classifyStateUri]
  split
  · nofun
  · rw [if_neg]
    · nofun
    · rintro (hp | hp | hp)
      · exact hother (by decide) hp
      · exact hother (by decide) hp
      · exact hother (by decide) hp

/-- A URI with the scheme `memory` disables nothing. -/
theorem not_disabled_of_memory (h : (partition uri.toList).1 = "memory".toList) : isDisabled uri = false := by
  rw [isDisabled, schemeOf]
  rcases hpart : partition uri.toList with ⟨scheme, rest⟩
  rw [hpart] at h
  obtain rfl : scheme = "memory".toList := h
  cases rest with
  | none => decide
  | some after =>
    show decide (String.ofList "memory".toList = "none") = false
    decide

/-- A backend that is built is the one that was to be. -/
theorem whenBuilt_ok {α : Type} {built : Except String Unit} {backend backend' : α}
    (h : whenBuilt built backend = .ok backend') : backend = backend' := by
  cases built with
  | ok _ => exact Except.ok.inj h
  | error _ => exact nomatch h

/-! Which scheme selects a backend that is not shared. -/

/-- The in-process state store has the scheme `memory`. -/
theorem scheme_of_memoryState (h : buildState env uri = .ok .memory) :
    (partition uri.toList).1 = "memory".toList := by
  simp only [buildState] at h
  split at h
  · assumption
  · split at h
    · exact nomatch whenBuilt_ok h
    · exact nomatch h

/-- So have in-process events. -/
theorem scheme_of_inProcessEvents (h : buildEvents env s uri = .ok .inProcess) :
    (partition uri.toList).1 = "memory".toList := by
  simp only [buildEvents] at h
  split at h
  · assumption
  · split at h
    · exact nomatch h
    · split at h
      · split at h
        · exact nomatch h
        · exact nomatch whenBuilt_ok h
      · exact nomatch h

/-- So have in-process realtime hints. -/
theorem scheme_of_inProcessRealtime (h : buildRealtime env s uri = .ok .inProcess) :
    (partition uri.toList).1 = "memory".toList := by
  simp only [buildRealtime] at h
  split at h
  · assumption
  · split at h
    · exact nomatch h
    · split at h
      · exact nomatch whenBuilt_ok h
      · exact nomatch h

/-- The lock that is none has the scheme `noop`. -/
theorem scheme_of_noop {lock : LockBackend} (h : buildLock env uri = .ok lock) :
    lock = .noop ↔ (partition uri.toList).1 = "noop".toList := by
  simp only [buildLock] at h
  split at h
  · rename_i hscheme
    exact iff_of_true (Except.ok.inj h).symm hscheme
  · rename_i hscheme
    refine iff_of_false ?_ hscheme
    split at h
    · rw [← whenBuilt_ok h]
      nofun
    · exact nomatch h

/-- Local storage has the scheme `local`. -/
theorem scheme_of_local {storage : StorageBackend} (h : buildStorage env s uri = .ok storage) :
    (∃ root settings, storage = .local root settings) ↔ (partition uri.toList).1 = "local".toList := by
  unfold buildStorage at h
  rcases hpart : partition uri.toList with ⟨scheme, rest⟩
  rw [hpart] at h
  dsimp only at h ⊢
  split at h
  · rename_i hscheme
    exact iff_of_true ⟨_, _, (Except.ok.inj h).symm⟩ hscheme
  · rename_i hscheme
    refine iff_of_false ?_ hscheme
    rintro ⟨root, settings, rfl⟩
    split at h
    · exact nomatch whenBuilt_ok h
    · split at h
      · exact nomatch h
      · exact nomatch h

/-- A sink in a directory has the scheme `file`. -/
theorem scheme_of_file {sink : String} (h : buildAuditSink env s = .ok (some (.file sink))) :
    s.audit.enabled = true ∧ ∃ uri, given s.audit.externalSinkUri = some uri
      ∧ (partition uri.toList).1 = "file".toList := by
  simp only [buildAuditSink] at h
  split at h
  · exact nomatch h
  · rename_i uri huri
    split at h
    · exact nomatch h
    · rename_i henabled
      refine ⟨by simpa using henabled, uri, huri, ?_⟩
      split at h
      · assumption
      · split at h
        · exact nomatch whenBuilt_ok h
        · exact nomatch h

/-- Mail that is kept in memory has the scheme `memory`. -/
theorem split_of_memoryMail {sender : String} (h : buildMail env s u = .ok (.memory sender)) :
    ∃ uri parts, given s.mail.uri = some uri ∧ mailProblems u env.mail s.mail = []
      ∧ urlsplit env.mail uri.toList = some parts ∧ parts.scheme = "memory".toList := by
  simp only [buildMail] at h
  split at h
  · exact nomatch h
  · rename_i uri huri
    split at h
    · split at h
      · exact nomatch h
      · exact nomatch h
    · rename_i hproblems
      split at h
      · exact nomatch h
      · rename_i parts hparts
        split at h
        · exact ⟨uri, parts, huri, hproblems, hparts, ‹_›⟩
        · exact nomatch h

/-- Every backend of a platform that is built is the one its URI selects. -/
theorem built_of_buildPlatform (h : buildPlatform env s u = .ok p) :
    buildMail env s u = .ok p.mail ∧ buildAuditSink env s = .ok p.auditSink
      ∧ (∃ uri, s.resolvedStateUri = .ok uri ∧ buildState env uri = .ok p.state)
      ∧ (∃ uri, s.resolvedStorageUri = .ok uri ∧ buildStorage env s uri = .ok p.storage)
      ∧ (∃ uri, s.resolvedEventsUri = .ok uri ∧ buildEvents env s uri = .ok p.events)
      ∧ (∃ uri, s.resolvedLockUri = .ok uri ∧ buildLock env uri = .ok p.lock)
      ∧ ∃ uri, s.resolvedRealtimeUri = .ok uri ∧ buildRealtime env s uri = .ok p.realtime := by
  have hbind {α β : Type} {x : Except BuildError α} {f : α → Except BuildError β} {b : β}
      (h : x >>= f = .ok b) : ∃ a, x = .ok a ∧ f a = .ok b := by
    cases x with
    | error e => exact nomatch h
    | ok a => exact ⟨a, rfl, h⟩
  have hresolved {uri : Except String String} {uri' : String} (h : resolved uri = .ok uri') :
      uri = .ok uri' := by
    cases uri with
    | ok uri => exact congrArg Except.ok (Except.ok.inj h)
    | error e => exact nomatch h
  unfold buildPlatform at h
  obtain ⟨-, -, h⟩ := hbind h
  obtain ⟨mail, hmail, h⟩ := hbind h
  obtain ⟨stateUri, hstateUri, h⟩ := hbind h
  obtain ⟨state, hstate, h⟩ := hbind h
  obtain ⟨storageUri, hstorageUri, h⟩ := hbind h
  obtain ⟨storage, hstorage, h⟩ := hbind h
  obtain ⟨eventsUri, heventsUri, h⟩ := hbind h
  obtain ⟨events, hevents, h⟩ := hbind h
  obtain ⟨lockUri, hlockUri, h⟩ := hbind h
  obtain ⟨lock, hlock, h⟩ := hbind h
  obtain ⟨realtimeUri, hrealtimeUri, h⟩ := hbind h
  obtain ⟨realtime, hrealtime, h⟩ := hbind h
  obtain ⟨auditSink, hauditSink, h⟩ := hbind h
  obtain rfl := Except.ok.inj h
  exact ⟨hmail, hauditSink, ⟨_, hresolved hstateUri, hstate⟩, ⟨_, hresolved hstorageUri, hstorage⟩,
    ⟨_, hresolved heventsUri, hevents⟩, ⟨_, hresolved hlockUri, hlock⟩, ⟨_, hresolved hrealtimeUri, hrealtime⟩⟩

/-! What the rules let through. -/

/-- With several processes every state source is one that Redis serves. -/
theorem redis_of_rule {t : DeploymentTopology} {sources : List StateSource} {label : String}
    (h : checkStateConsistency u t sources = []) (hmulti : t.multiProcess = true)
    (hsource : ⟨label, uri, true⟩ ∈ sources) : classifyStateUri u uri = .redis := by
  rw [checkStateConsistency, if_pos hmulti, List.flatMap_eq_nil_iff] at h
  have hissue := h _ hsource
  simp only [StateSource.issue] at hissue
  split at hissue
  · rename_i hnone
    exact hnone.resolve_left nofun
  · exact nomatch hissue

/-- A rule that looks for `scheme://` lets a URI with the scheme through when it is the bare word. -/
theorem eq_of_rule {w : List Char} {q : Prop} [Decidable q] {issue : String} (hw : Plain w)
    (h : (if q ∧ w ++ "://".toList <+: u.lower (u.strip uri.toList) then [issue] else []) = []) (hq : q)
    (hscheme : (partition uri.toList).1 = w) : uri = String.ofList w := by
  rcases eq_or_prefix_of_partition hscheme with heq | hprefix
  · rw [← heq, String.ofList_toList]
  · have hplain : Plain (w ++ "://".toList) := by
      intro c hc
      rcases List.mem_append.mp hc with hc | hc
      · exact hw c hc
      · exact (by decide : Plain "://".toList) c hc
    rw [if_pos ⟨hq, lower_strip_plain hplain (by simp) hprefix⟩] at h
    exact nomatch h

/-- With several processes the scheme `noop` passes only as the bare word. -/
theorem lock_of_rule {t : DeploymentTopology} (h : checkLockConsistency u t uri = [])
    (hmulti : t.multiProcess = true) (hscheme : (partition uri.toList).1 = "noop".toList) : uri = "noop" := by
  unfold checkLockConsistency at h
  exact eq_of_rule (by decide) h hmulti hscheme

/-- With several nodes the scheme `local` passes only as the bare word. -/
theorem storage_of_rule {t : DeploymentTopology} (h : checkStorageConsistency u t uri = [])
    (hmulti : t.multiNode = true) (hscheme : (partition uri.toList).1 = "local".toList) : uri = "local" := by
  unfold checkStorageConsistency at h
  exact eq_of_rule (by decide) h hmulti hscheme

/-- Settings without an issue pass every rule. -/
theorem rules_of_check {stateUri eventsUri realtimeUri storageUri lockUri : String}
    (h : checkDeploymentConsistency u s = .ok []) (hstate : s.resolvedStateUri = .ok stateUri)
    (hevents : s.resolvedEventsUri = .ok eventsUri) (hrealtime : s.resolvedRealtimeUri = .ok realtimeUri)
    (hstorage : s.resolvedStorageUri = .ok storageUri) (hlock : s.resolvedLockUri = .ok lockUri) :
    checkStateConsistency u s.topologyOf [
        { label := "state_uri", uri := stateUri },
        { label := "events_uri", uri := eventsUri, applies := !isDisabled eventsUri },
        { label := "realtime_uri", uri := realtimeUri,
          applies := (given s.realtimeUri).isSome && !isDisabled realtimeUri }] = []
      ∧ checkStorageConsistency u s.topologyOf storageUri = []
      ∧ checkAuditSinkConsistency u s.topologyOf (if s.audit.enabled then s.audit.externalSinkUri else none) = []
      ∧ checkLockConsistency u s.topologyOf lockUri = []
      ∧ checkMailConsistency u s.topologyOf s.mail.uri = [] := by
  simp only [checkDeploymentConsistency, hstate, hevents, hrealtime, hstorage, hlock, bind, Except.bind, pure,
    Except.pure, Except.ok.injEq, List.append_eq_nil_iff] at h
  exact ⟨h.1.1.1.1.1, h.1.1.1.1.2, h.1.1.1.2, h.1.1.2, h.1.2⟩

/-- **The checks agree with the builder**, the bare words `noop` and `local` apart: of settings that raise no
issue and are built, no backend is kept by one process of several, or by one machine of several, if and only if
no lock URI is `noop` and no storage URI is `local` where that matters. -/
theorem shared_iff (hcheck : checkDeploymentConsistency u s = .ok []) (hbuild : buildPlatform env s u = .ok p) :
    Shared s.topologyOf p ↔
      (s.topologyOf.multiProcess = true → s.resolvedLockUri ≠ .ok "noop")
        ∧ (s.topologyOf.multiNode = true → s.resolvedStorageUri ≠ .ok "local") := by
  obtain ⟨hmail, hsink, ⟨stateUri, hstateUri, hstate⟩, ⟨storageUri, hstorageUri, hstorage⟩,
    ⟨eventsUri, heventsUri, hevents⟩, ⟨lockUri, hlockUri, hlock⟩, realtimeUri, hrealtimeUri, hrealtime⟩ :=
    built_of_buildPlatform hbuild
  obtain ⟨hstateRule, hstorageRule, hsinkRule, hlockRule, hmailRule⟩ :=
    rules_of_check hcheck hstateUri heventsUri hrealtimeUri hstorageUri hlockUri
  constructor
  · intro hshared
    refine ⟨fun hmulti hnoop => ?_, fun hmulti hlocal => ?_⟩
    · obtain rfl := Except.ok.inj (hlockUri.symm.trans hnoop)
      exact hshared.lock hmulti ((scheme_of_noop hlock).mpr (by decide))
    · obtain rfl := Except.ok.inj (hstorageUri.symm.trans hlocal)
      obtain ⟨root, settings, hroot⟩ := (scheme_of_local hstorage).mpr (by decide)
      exact hshared.storage hmulti root settings hroot
  · rintro ⟨hnoop, hlocal⟩
    refine ⟨fun hmulti hp => ?_, fun hmulti hp => ?_, fun hmulti hp => ?_, fun hmulti hp => ?_,
      fun hmulti sender hp => ?_, fun hmulti root settings hp => ?_, fun hmulti sink hp => ?_⟩
    · rw [hp] at hstate
      exact not_redis_of_memory (scheme_of_memoryState hstate)
        (redis_of_rule hstateRule hmulti List.mem_cons_self)
    · rw [hp] at hevents
      have hscheme := scheme_of_inProcessEvents hevents
      rw [not_disabled_of_memory hscheme] at hstateRule
      exact not_redis_of_memory hscheme
        (redis_of_rule hstateRule hmulti (List.mem_cons_of_mem _ List.mem_cons_self))
    · rw [hp] at hrealtime
      have hscheme := scheme_of_inProcessRealtime hrealtime
      cases hgiven : given s.realtimeUri with
      | some uri =>
        rw [hgiven, not_disabled_of_memory hscheme] at hstateRule
        exact not_redis_of_memory hscheme (redis_of_rule hstateRule hmulti
          (List.mem_cons_of_mem _ (List.mem_cons_of_mem _ List.mem_cons_self)))
      | none =>
        -- it follows the events, which are checked
        rw [JasilSettings.resolvedRealtimeUri, hgiven] at hrealtimeUri
        obtain rfl := Except.ok.inj (heventsUri.symm.trans hrealtimeUri)
        rw [not_disabled_of_memory hscheme] at hstateRule
        exact not_redis_of_memory hscheme
          (redis_of_rule hstateRule hmulti (List.mem_cons_of_mem _ List.mem_cons_self))
    · have hword := lock_of_rule hlockRule hmulti ((scheme_of_noop hlock).mp hp)
      exact hnoop hmulti (by rw [hlockUri, hword])
    · rw [hp] at hmail
      obtain ⟨uri, parts, huri, hproblems, hsplit, hscheme⟩ := split_of_memoryMail hmail
      rw [checkMailConsistency, huri] at hmailRule
      dsimp only at hmailRule
      rw [if_pos ⟨hmulti, partition_of_memory hproblems huri hsplit hscheme⟩] at hmailRule
      exact nomatch hmailRule
    · have hword := storage_of_rule hstorageRule hmulti ((scheme_of_local hstorage).mp ⟨root, settings, hp⟩)
      exact hlocal hmulti (by rw [hstorageUri, hword])
    · rw [hp] at hsink
      obtain ⟨henabled, uri, huri, hscheme⟩ := scheme_of_file hsink
      rw [if_pos henabled, checkAuditSinkConsistency, huri] at hsinkRule
      dsimp only at hsinkRule
      rw [hscheme, if_pos ⟨hmulti, lower_strip_self (by decide)⟩] at hsinkRule
      exact nomatch hsinkRule

end Built

/-! Two API processes over one Redis, on one machine. -/

/-- A world in which every backend can be built. -/
def reachable : Environment where
  mail := {
    bracketsValid := fun _ => true
    netlocValid := fun _ => true
    validAddress := fun _ => true
    validHostname := fun _ => true
    ipAddress := fun _ => false
    nonPublicReason := fun _ => none
    unresolvable := fun _ => false }
  redis := fun _ _ => .ok ()
  s3 := fun _ => .ok ()
  fileSink := fun _ => .ok ()
  advisoryLock := .ok ()

/-- The Unicode data, of texts within ASCII. -/
def asciiData : UnicodeData := ⟨fun _ c _ => [c], fun _ => false, fun _ => true⟩

/-- Settings with two web workers, all of whose backends but the lock are in Redis. -/
def overRedis (lockUri : String) : JasilSettings where
  webWorkers := 2
  stateUri := some "redis://cache"
  eventsUri := some "redis://cache"
  lockUri := some lockUri

/-- The platform that they wire. -/
def overRedisPlatform (lock : LockBackend) : Platform where
  state := .redis "redis://cache"
  storage := .local "data" {}
  events := .redis "redis://cache" "jasil:events" "jasil"
  realtime := .redis "redis://cache" "jasil:realtime"
  auditSink := none
  lock := lock
  mail := .null

/-- With an advisory lock, everything is shared. -/
theorem shared_iff_overRedis :
    Shared (overRedis "postgres-advisory://").topologyOf (overRedisPlatform .postgresAdvisory) := by
  have hbuild : buildPlatform reachable (overRedis "postgres-advisory://") asciiData
      = .ok (overRedisPlatform .postgresAdvisory) := rfl
  refine (shared_iff (by decide +kernel) hbuild).mpr ⟨fun _ => ?_, fun hnode => ?_⟩
  · decide
  · exact nomatch hnode

/-- The lock URI `noop` passes the checks, and two processes each hold a lock of their own. -/
theorem not_shared_of_checks :
    ¬ ∀ (env : Environment) (u : UnicodeData) (s : JasilSettings) (p : Platform),
      s.enforceDeploymentConsistency = true → checkDeploymentConsistency u s = .ok [] →
      buildPlatform env s u = .ok p → Shared s.topologyOf p := by
  intro h
  have hshared := h reachable asciiData (overRedis "noop") (overRedisPlatform .noop) rfl (by decide +kernel) rfl
  exact hshared.lock (by decide) rfl

end Jasil.Deployment
