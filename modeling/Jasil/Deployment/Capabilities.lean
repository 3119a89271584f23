import Jasil.Text.Uris

/-! # Deployment shapes
What a deployment looks like, what its settings resolve to, and the rules that refuse a wiring that contradicts
the shape.

* **`DeploymentTopology`**: whether two processes, or two machines, can reach the same capability.
* **`JasilSettings`**: the capability URIs, with the defaults of the local profile.
* **`checkDeploymentConsistency`**: every issue the rules find. -/

namespace Jasil.Deployment

/-! ## Topology -/

/-- `DeploymentProfile`. -/
inductive DeploymentProfile
  | «local»
  | distributed
  | custom
  deriving DecidableEq, Repr

/-- The text of a profile. -/
def DeploymentProfile.value : DeploymentProfile → String
  | .local => "local"
  | .distributed => "distributed"
  | .custom => "custom"

/-- Where durable-job consumers run. -/
inductive JobWorkerMode
  | inProcess
  | standalone
  deriving DecidableEq, Repr

/-- How many nodes, web workers and job workers there are. -/
structure DeploymentTopology where
  profile : DeploymentProfile
  webWorkers : ℤ
  jobWorkerMode : JobWorkerMode

namespace DeploymentTopology

/-- What makes the topology multi-process. -/
def multiProcessCauses (t : DeploymentTopology) : List String :=
  (if t.profile = .distributed then ["profile=distributed runs replicas on separate nodes"] else [])
  ++ (if 1 < t.webWorkers then
      ["web_workers=" ++ toString t.webWorkers ++ " runs several API processes"] else [])
  ++ (if t.jobWorkerMode = .standalone then
      ["job_worker_mode=standalone runs job workers in their own processes"] else [])

/-- Why there are several processes. -/
def multiProcessReason (t : DeploymentTopology) : String := "; ".intercalate t.multiProcessCauses

/-- Two or more processes can reach the same capability. -/
def multiProcess (t : DeploymentTopology) : Bool := !t.multiProcessCauses.isEmpty

/-- They may be on different machines. -/
def multiNode (t : DeploymentTopology) : Bool := decide (t.profile = .distributed)

end DeploymentTopology

/-- Classification of a state storage URI. -/
inductive StateBackendKind
  | memory
  | redis
  | unknown
  deriving DecidableEq, Repr

/-- `classify_state_uri`. -/
def classifyStateUri (u : UnicodeData) (storageUri : String) : StateBackendKind :=
  let normalized := u.lower (u.strip storageUri.toList)
  if "memory://".toList <+: normalized then .memory
  else if "redis://".toList <+: normalized ∨ "rediss://".toList <+: normalized
      ∨ "unix://".toList <+: normalized then .redis
  else .unknown

/-! ## Settings -/

/-- `MailSettings`. -/
structure MailSettings where
  uri : Option String := none
  fromAddress : String := ""
  secure : Bool := true
  username : Option String := none
  password : Option String := none
  ehloHostname : Option String := none

/-- What of the audit settings says where its checkpoints are copied. -/
structure AuditSinkSettings where
  enabled : Bool := true
  externalSinkUri : Option String := none

/-- `StorageSettings`. -/
structure StorageSettings where
  localUrlPrefix : String := ""
  localLegacyLayout : Bool := false
  localPlainAreas : List String := []

/-- What of the settings the wiring of the capabilities reads. -/
structure JasilSettings where
  profile : DeploymentProfile := .local
  webWorkers : ℤ := 1
  jobWorkerMode : JobWorkerMode := .inProcess
  enforceDeploymentConsistency : Bool := true
  dataDir : String := "data"
  stateUri : Option String := none
  storageUri : Option String := none
  eventsUri : Option String := none
  lockUri : Option String := none
  realtimeUri : Option String := none
  realtimeChannel : String := "jasil:realtime"
  eventsStream : String := "jasil:events"
  eventsGroup : String := "jasil"
  jobsEnabled : Bool := false
  audit : AuditSinkSettings := {}
  mail : MailSettings := {}
  storage : StorageSettings := {}

/-- `if value:` of an optional string. -/
def given (value : Option String) : Option String := value.filter (· ≠ "")

namespace JasilSettings

/-- `_resolve`: an explicit capability URI, or the default of the local profile. -/
def resolve (s : JasilSettings) (name : String) (configured : Option String) (localDefault : String) :
    Except String String :=
  match given configured with
  | some uri => .ok uri
  | none =>
    if s.profile = .local then .ok localDefault
    else .error (name ++ " must be set explicitly for the '" ++ s.profile.value
      ++ "' deployment profile; only the 'local' profile has a default (" ++ localDefault ++ ").")

/-- `resolved_state_uri`. -/
def resolvedStateUri (s : JasilSettings) : Except String String :=
  s.resolve "state_uri" s.stateUri "memory://"

/-- `resolved_storage_uri`. -/
def resolvedStorageUri (s : JasilSettings) : Except String String :=
  s.resolve "storage_uri" s.storageUri "local://"

/-- `resolved_events_uri`. -/
def resolvedEventsUri (s : JasilSettings) : Except String String :=
  s.resolve "events_uri" s.eventsUri "memory://"

/-- `resolved_lock_uri`. -/
def resolvedLockUri (s : JasilSettings) : Except String String :=
  s.resolve "lock_uri" s.lockUri "noop://"

/-- `realtime_uri`, else the resolved `events_uri`. -/
def resolvedRealtimeUri (s : JasilSettings) : Except String String :=
  match given s.realtimeUri with
  | some uri => .ok uri
  | none => s.resolvedEventsUri

/-- `topology_of`. -/
def topologyOf (s : JasilSettings) : DeploymentTopology :=
  ⟨s.profile, max 1 s.webWorkers, s.jobWorkerMode⟩

end JasilSettings

/-! ## Consistency -/

/-- `_scheme_of`. -/
def schemeOf (uri : String) : String :=
  match partition uri.toList with
  | (scheme, some _) => String.ofList scheme
  | (_, none) => "invalid"

/-- `_is_disabled`. -/
def isDisabled (uri : String) : Bool := schemeOf uri = "none"

/-- A configured source of ephemeral state. -/
structure StateSource where
  label : String
  uri : String
  /-- A capability the host disabled cannot be misconfigured. -/
  applies : Bool := true

/-- What a rule says of one source. -/
def StateSource.issue (u : UnicodeData) (t : DeploymentTopology) (source : StateSource) : List String :=
  let backend := classifyStateUri u source.uri
  if source.applies = false ∨ backend = .redis then []
  else
    let reason :=
      if backend = .memory then "process-local memory" else "an unrecognized storage scheme"
    [source.label ++ " resolves to " ++ reason ++ ", but this deployment runs multiple processes ("
      ++ t.multiProcessReason ++ ") that need a backend shared across them. Point it at Redis (redis://...) "
      ++ "or run a single process under the local profile."]

/-- `check_state_consistency`. -/
def checkStateConsistency (u : UnicodeData) (t : DeploymentTopology) (sources : List StateSource) :
    List String :=
  if t.multiProcess then sources.flatMap (StateSource.issue u t) else []

/-- `check_storage_consistency`. -/
def checkStorageConsistency (u : UnicodeData) (t : DeploymentTopology) (storageUri : String) : List String :=
  if t.multiNode ∧ "local://".toList <+: u.lower (u.strip storageUri.toList) then
    ["storage_uri resolves to the local filesystem, but profile=" ++ t.profile.value
      ++ " runs replicas on separate nodes that do not share a disk. Point it at object storage "
      ++ "(s3://bucket/...)."]
  else []

/-- `check_audit_sink_consistency`. -/
def checkAuditSinkConsistency (u : UnicodeData) (t : DeploymentTopology) (sinkUri : Option String) :
    List String :=
  match given sinkUri with
  | none => []
  | some uri =>
    if t.multiNode ∧ u.lower (u.strip (partition uri.toList).1) = "file".toList then
      ["audit.external_sink_uri resolves to a local directory, but profile=" ++ t.profile.value
        ++ " runs replicas on separate nodes that do not share a disk, so checkpoint copies would scatter "
        ++ "across them. Point it at object storage (s3://bucket/prefix)."]
    else []

/-- `check_lock_consistency`. -/
def checkLockConsistency (u : UnicodeData) (t : DeploymentTopology) (lockUri : String) : List String :=
  if t.multiProcess ∧ "noop://".toList <+: u.lower (u.strip lockUri.toList) then
    ["lock_uri resolves to an in-process no-op lock, but this deployment runs multiple processes ("
      ++ t.multiProcessReason ++ ") that would each run scheduled jobs. Point it at the shared database lock "
      ++ "(postgres-advisory://)."]
  else []

/-- `check_mail_consistency`. -/
def checkMailConsistency (u : UnicodeData) (t : DeploymentTopology) (mailUri : Option String) : List String :=
  match given mailUri with
  | none => []
  | some uri =>
    if t.multiProcess ∧ u.lower (partition uri.toList).1 = "memory".toList then
      ["mail.uri resolves to the in-memory mail recorder, but this deployment runs multiple processes ("
        ++ t.multiProcessReason ++ "), and no message would ever be delivered. Point it at a relay "
        ++ "(smtp:// or smtps://), or leave it unset."]
    else []

/-- `check_job_worker_consistency`. -/
def checkJobWorkerConsistency (t : DeploymentTopology) (jobsEnabled : Bool) : List String :=
  if t.jobWorkerMode = .standalone ∧ jobsEnabled = false then
    ["job_worker_mode=standalone declares standalone job workers, but jobs.enabled is false, so the "
      ++ "durable-job pipeline is dormant and no worker can consume anything. Enable jobs, or leave "
      ++ "job_worker_mode at in_process."]
  else []

/-- `check_deployment_consistency`: every fatal wiring inconsistency in the settings. -/
def checkDeploymentConsistency (u : UnicodeData) (s : JasilSettings) : Except String (List String) := do
  let t := s.topologyOf
  let stateUri ← s.resolvedStateUri
  let eventsUri ← s.resolvedEventsUri
  let realtimeUri ← s.resolvedRealtimeUri
  let storageUri ← s.resolvedStorageUri
  let lockUri ← s.resolvedLockUri
  return checkStateConsistency u t [
      { label := "state_uri", uri := stateUri },
      -- disabled, there is no bus to diverge across processes
      { label := "events_uri", uri := eventsUri, applies := !isDisabled eventsUri },
      -- unset, it is the events URI
      { label := "realtime_uri", uri := realtimeUri,
        applies := (given s.realtimeUri).isSome && !isDisabled realtimeUri }]
    ++ checkStorageConsistency u t storageUri
    ++ checkAuditSinkConsistency u t (if s.audit.enabled then s.audit.externalSinkUri else none)
    ++ checkLockConsistency u t lockUri
    ++ checkMailConsistency u t s.mail.uri
    ++ checkJobWorkerConsistency t s.jobsEnabled

end Jasil.Deployment
