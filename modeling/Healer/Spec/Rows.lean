import Healer.Lib.Table
import Healer.Spec.StateMachines

/-! The rows of one application, as `app/db/models` has them, and the stored
`healer.yaml` (`app/schemas/healer_yaml.py`). What other applications do to a
shared server reaches this application only through the ports and image tags they
hold, which the oracle of a run supplies. Columns no modelled function reads are
left out. -/

namespace Healer

abbrev ServerId := ℕ
abbrev ReleaseId := ℕ
abbrev InstanceId := ℕ
abbrev DeploymentId := ℕ

/-- Microseconds, the resolution of a `timestamptz`. -/
abbrev Time := ℤ

/-- An absent or empty string is false in Python. -/
def truthy (s : Option String) : Bool := s.any fun t => t != ""

inductive SourceType
  | git | folder | dockerfile | image
  deriving DecidableEq, Repr

structure SourceConfig where
  type : SourceType
  location : String
  ref : Option String

structure WindowsAdapterConfig where
  wsgiModule : String

structure LinuxAdapterConfig where
  internalPort : ℕ

structure HealthConfig where
  intervalSeconds : ℕ
  timeoutSeconds : ℕ
  healthyThreshold : ℕ
  unhealthyThreshold : ℕ
  interval_mem : 1 ≤ intervalSeconds ∧ intervalSeconds ≤ 3600
  timeout_mem : 1 ≤ timeoutSeconds ∧ timeoutSeconds ≤ 300
  healthy_mem : 1 ≤ healthyThreshold ∧ healthyThreshold ≤ 100
  unhealthy_mem : 1 ≤ unhealthyThreshold ∧ unhealthyThreshold ≤ 100

structure PortRangeConfig where
  start : ℕ
  stop : ℕ
  start_pos : 1 ≤ start
  start_le : start ≤ stop
  stop_le : stop ≤ 65535

structure DomainConfig where
  hostname : String
  certPath : Option String
  keyPath : Option String
  deriving DecidableEq

structure ReplicaConfig where
  min : ℕ
  max : ℕ
  min_pos : 1 ≤ min
  min_le : min ≤ max

/-- A `HealerYamlV1`, with what its validators say about the numbers and the adapter's section. What they
say about the source's type and the domain is in `Descriptor`. -/
structure HealerYaml where
  name : String
  adapter : Adapter
  serverId : Option ServerId
  source : SourceConfig
  windows : Option WindowsAdapterConfig
  linux : Option LinuxAdapterConfig
  health : HealthConfig
  ports : PortRangeConfig
  replicas : ReplicaConfig
  domain : Option DomainConfig
  replicas_fit : replicas.max ≤ ports.stop - ports.start + 1
  windows_section : adapter = .windowsWaitressService → windows.isSome
  linux_section : adapter = .linuxDocker → linux.isSome

structure Application where
  name : String
  slug : String
  serverId : Option ServerId
  /-- `none` when the stored JSON no longer validates. -/
  config : Option HealerYaml
  portRangeStart : Option ℕ
  portRangeEnd : Option ℕ
  minReplicas : ℕ
  maxReplicas : ℕ
  desiredReplicas : ℕ
  operationLock : Option String
  operationLockAcquiredAt : Option Time
  activeReleaseId : Option ReleaseId
  releaseRetentionCount : ℕ

structure Release where
  ref : String
  status : ReleaseStatus
  releaseDir : Option String
  venvPython : Option String
  imageRef : Option String
  createdAt : Time

structure Instance where
  releaseId : Option ReleaseId
  serverId : ServerId
  port : ℕ
  status : InstanceStatus
  serviceName : String
  deploymentId : Option DeploymentId
  healingAttempts : ℕ
  lastHealingAttemptAt : Option Time
  failureReason : Option String
  createdAt : Time

/-- `Deployment.kind`; a scale operation keeps the column's default. -/
inductive DeploymentKind
  | deploy | blueGreen | rollback
  deriving DecidableEq, Repr

structure Deployment where
  releaseId : ReleaseId
  status : DeploymentStatus
  instanceCount : ℕ
  kind : DeploymentKind
  failureReason : Option String

inductive LogLevel
  | info | warning | error
  deriving DecidableEq, Repr

structure DeploymentLog where
  deploymentId : DeploymentId
  level : LogLevel
  message : String

structure DeploymentStep where
  deploymentId : DeploymentId
  name : String
  status : StepStatus

structure HealthCheck where
  intervalSeconds : ℕ
  timeoutSeconds : ℕ
  healthyThreshold : ℕ
  unhealthyThreshold : ℕ
  expectedStatus : Option ℕ
  maxRestartAttempts : ℕ
  restartCooldownSeconds : ℕ

structure HealthCheckResult where
  instanceId : InstanceId
  healthy : Bool
  consecutiveFailures : ℕ
  checkedAt : Time

/-- A server and the agent enrolled on it, if any: `agents.server_id` is unique and
refers to a server. -/
structure Server where
  hostname : String
  agent : Option AgentStatus

/-- The actions that `self_healing_service` records about an instance, with their detail. -/
inductive AuditAction
  | removedUnhealthy
  | recoveryFailed (reason : String)
  | restartAttempted (attempt : ℕ)
  | recovered (attempt : ℕ)
  | recoveredByReplacement
  | restartFailed (attempt : ℕ)
  | replaced (replacement : InstanceId) (port : ℕ)
  deriving DecidableEq

structure AuditRow where
  action : AuditAction
  instanceId : InstanceId
  port : ℕ
  deriving DecidableEq

structure Db where
  application : Application
  source : Option SourceConfig
  domains : List DomainConfig
  healthCheck : Option HealthCheck
  results : List HealthCheckResult
  servers : ServerId → Option Server
  releases : Table Release
  instances : Table Instance
  deployments : Table Deployment
  steps : List DeploymentStep
  logs : List DeploymentLog
  notifications : List String
  audits : List AuditRow

/-- `AgentRepository.get_by_server_id`. -/
def Db.agent (db : Db) (s : ServerId) : Option AgentStatus :=
  (db.servers s).bind Server.agent

/-- What the partial unique index `uq_instances_server_id_port_live` refuses. -/
def Db.portHeld (db : Db) (s : ServerId) (port : ℕ) : Bool :=
  !(db.instances.select fun i => i.serverId == s && i.port == port && !i.status.terminal).isEmpty

/-- The statuses `scale_service` counts toward the replica count. -/
def liveStatuses : List InstanceStatus := [.pending, .starting, .running, .unhealthy]

/-- `scale_service._live_instances`. -/
def Db.liveInstances (db : Db) : List InstanceId :=
  db.instances.select fun i => liveStatuses.contains i.status

/-- The newest of some releases. The first of them in key order wins a tie. -/
def Db.newestOf (db : Db) : List ReleaseId → Option ReleaseId
  | [] => none
  | r :: rs =>
    match db.newestOf rs with
    | none => some r
    | some r' =>
      if (db.releases.row r').any fun b => (db.releases.row r).any fun a => a.createdAt < b.createdAt
      then some r' else some r

/-- `Release.status == READY`, in key order. -/
def Db.readyReleases (db : Db) : List ReleaseId :=
  db.releases.select fun r => r.status == .ready

/-- `.order_by(Release.created_at.desc()).first()` over the READY releases. -/
def Db.newestReady (db : Db) : Option ReleaseId := db.newestOf db.readyReleases

/-- `DELETE FROM releases` with its foreign keys: deployments of the release go with
it, and so do their steps and logs; instances keep their row and lose the reference. -/
def Db.deleteRelease (db : Db) (r : ReleaseId) : Db :=
  let gone := fun d => (db.deployments.row d).any fun dep => dep.releaseId == r
  { db with
    application := { db.application with
      activeReleaseId := db.application.activeReleaseId.filter (· != r) }
    releases := db.releases.erase r
    deployments := db.deployments.filterRows fun dep => dep.releaseId != r
    instances := db.instances.mapRows fun i =>
      { i with
        releaseId := i.releaseId.filter (· != r)
        deploymentId := i.deploymentId.filter fun d => !gone d }
    steps := db.steps.filter fun s => !gone s.deploymentId
    logs := db.logs.filter fun l => !gone l.deploymentId }

end Healer
