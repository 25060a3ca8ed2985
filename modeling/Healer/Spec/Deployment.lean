import Healer.Spec.Gateway
import Healer.Spec.Health
import Healer.Spec.Lock

/-! `deployment_service`: port allocation, the reading of an agent's outcome, the
command payloads, and the first deployment of an application. -/

namespace Healer

def CommandStatus.value : CommandStatus → String
  | .pending => "pending"
  | .sent => "sent"
  | .acknowledged => "acknowledged"
  | .running => "running"
  | .succeeded => "succeeded"
  | .failed => "failed"
  | .timedOut => "timed_out"
  | .expired => "expired"

def addLog (d : DeploymentId) (level : LogLevel) (message : String) : M Unit :=
  modifyDb fun db => { db with logs := db.logs ++ [⟨d, level, message⟩] }

/-- `scale_service._log`. -/
def log (d : DeploymentId) (level : LogLevel) (message : String) : M Unit := do
  addLog d level message
  commit

def serviceName (slug : String) (port : ℕ) : String := s!"Healer-{slug}-{port}"

/-- The row `_allocate_instance` inserts. -/
def Application.newInstance (a : Application) (r : ReleaseId) (s : ServerId) (port : ℕ) (t : Time) :
    Instance where
  releaseId := some r
  serverId := s
  port := port
  status := .pending
  serviceName := serviceName a.slug port
  deploymentId := none
  healingAttempts := 0
  lastHealingAttemptAt := none
  failureReason := none
  createdAt := t

/-- The service name is longer than its column, so the insert fails with a `DataError`. -/
def Application.misfit (a : Application) (port : ℕ) : Bool := 255 < (serviceName a.slug port).length

/-- One pass over the range; each insert is checked by the unique index, which also
sees the rows of other applications. Only an `IntegrityError` goes on to the next port. -/
def tryPorts (o : Oracle) (r : ReleaseId) (s : ServerId) : List ℕ → M (Option InstanceId)
  | [] => pure none
  | port :: ports => do
    let db ← getDb
    let i := db.instances.next
    if db.application.misfit port then failFlush
    else if db.portHeld s port || o.foreignPort i s port then tryPorts o r s ports
    else do
      let t ← now
      modifyDb fun db => { db with
        instances := db.instances.insert (db.application.newInstance r s port t) }
      pure (some i)

/-- `_allocate_instance`. -/
def allocateInstance (o : Oracle) (r : ReleaseId) (s : ServerId) (portStart portEnd : ℕ) :
    M InstanceId := do
  match ← tryPorts o r s (List.range' portStart (portEnd + 1 - portStart)) with
  | some i => pure i
  | none => Prog.raise (.deploymentSetup
      s!"no free port available in range {portStart}-{portEnd} on this server")

def stepStatusMap : Option String → StepStatus
  | some "succeeded" => .succeeded
  | some "failed" => .failed
  | some "skipped" => .skipped
  | _ => .failed

/-- Whether a command row counts as a success: the value the two functions below return. -/
def AgentCommand.ok (c : AgentCommand) : Bool :=
  (c.status == .succeeded || c.status == .failed) && !truthy c.error &&
    (c.result.map CommandResult.ok).getD false

def persistStep (d : DeploymentId) (stepTag : String) (step : CommandStep) : M Unit :=
  modifyDb fun db =>
    let status := stepStatusMap step.status
    let name := step.name.getD "unknown"
    { db with
      steps := db.steps ++ [⟨d, s!"{stepTag}{name}", status⟩]
      logs := db.logs ++ [⟨d, if status = .failed then .error else .info, step.message.getD ""⟩] }

/-- The shared body of the two functions that turn a command row into steps and logs.
They differ in the prefix of the texts and in whether they commit. -/
def persistOutcome (d : DeploymentId) (tag stepTag : String) (save : M Unit) (c : AgentCommand) :
    M Bool := do
  if !(c.status == .succeeded || c.status == .failed) then do
    let status := c.status.value
    addLog d .error s!"{tag}the Agent did not respond in time (command status: {status})"
    save
    pure false
  else if truthy c.error then do
    let error := c.error.getD ""
    addLog d .error s!"{tag}{error}"
    save
    pure false
  else do
    Prog.each (persistStep d stepTag) ((c.result.map CommandResult.steps).getD [])
    save
    pure ((c.result.map CommandResult.ok).getD false)

/-- `deployment_service._persist_agent_outcome`. -/
def persistAgentOutcome (d : DeploymentId) (c : AgentCommand) : M Bool :=
  persistOutcome d "" "" (pure ()) c

/-- `scale_service._persist_instance_command_outcome`. -/
def persistInstanceCommandOutcome (d : DeploymentId) (c : AgentCommand) (port : ℕ) : M Bool :=
  persistOutcome d s!"port {port}: " s!"port_{port}_" commit c

/-- `_build_start_instance_payload`. -/
def buildStartInstancePayload (rel : Release) (inst : Instance) (c : HealerYaml) : StartPayload where
  adapter := c.adapter
  serviceName := inst.serviceName
  port := inst.port
  launch :=
    match c.adapter, c.windows, c.linux with
    | .windowsWaitressService, some win, _ =>
      .windows rel.releaseDir rel.venvPython win.wsgiModule "127.0.0.1"
    | .linuxDocker, _, some lin => .linux rel.imageRef lin.internalPort
    | _, _, _ => .bare

/-- `_build_stop_instance_payload`. -/
def buildStopInstancePayload (inst : Instance) (c : HealerYaml) : StopPayload :=
  ⟨c.adapter, inst.serviceName⟩

/-- Build the payload from the rows and submit `start_instance`. -/
def submitStart (o : Oracle) (agent : ServerId) (key : CommandKey) (r : ReleaseId) (i : InstanceId)
    (c : HealerYaml) : M AgentCommand := do
  let rel ← getRelease r
  let inst ← getInstance i
  submitCommandAndWait o agent key (.startInstance i (buildStartInstancePayload rel inst c))

/-- Build the payload from the row and submit `stop_instance`. -/
def submitStop (o : Oracle) (agent : ServerId) (key : CommandKey) (i : InstanceId) (c : HealerYaml) :
    M AgentCommand := do
  let inst ← getInstance i
  submitCommandAndWait o agent key (.stopInstance i (buildStopInstancePayload inst c))

def stopStatus (ok : Bool) : InstanceStatus := if ok then .stopped else .failed

/-- Stop an instance and set STOPPED or FAILED by the outcome: the loop body of
`_stop_instances`, `_drain_old_release` and `_scale_down`. -/
def stopAndSettle (o : Oracle) (d : DeploymentId) (agent : ServerId) (key : InstanceId → CommandKey)
    (c : HealerYaml) (i : InstanceId) : M Bool := do
  let row ← submitStop o agent (key i) i c
  let inst ← getInstance i
  let ok ← persistInstanceCommandOutcome d row inst.port
  transition i (stopStatus ok)
  commit
  pure ok

/-- The fields taken from the agent's result when a build succeeds. -/
def Release.built (rel : Release) (row : AgentCommand) : Release :=
  { rel with
    releaseDir := row.result.bind CommandResult.releaseDir
    venvPython := row.result.bind CommandResult.venvPython
    imageRef := row.result.bind CommandResult.imageRef
    status := .ready }

/-- `_build_deploy_release_payload`, then `deploy_release` and the reading of its result:
`release_service._build_release` and the first half of `run_deployment`. -/
def buildRelease (o : Oracle) (d : DeploymentId) (r : ReleaseId) (c : HealerYaml) (agent : ServerId) :
    M Bool := do
  modifyRelease r fun rel => { rel with status := .building }
  commit
  let rel ← getRelease r
  let db ← getDb
  let row ← submitCommandAndWait o agent (.deployRelease d)
    (.deployRelease c.adapter db.application.slug rel.ref c.source)
  let ok ← persistAgentOutcome d row
  modifyRelease r fun rel => if ok then rel.built row else { rel with status := .failed }
  commit
  pure ok

/-- The timestamp text that names a release, to the second. -/
def releaseVersion (t : Time) : String := toString (t / 1000000)

def newRelease (t : Time) : Release where
  ref := releaseVersion t
  status := .pending
  releaseDir := none
  venvPython := none
  imageRef := none
  createdAt := t

def insertRelease : M ReleaseId := do
  let t ← now
  let db ← getDb
  modifyDb fun db => { db with releases := db.releases.insert (newRelease t) }
  pure db.releases.next

/-- A PENDING deployment row, moved to IN_PROGRESS before it is committed. -/
def insertDeployment (r : ReleaseId) (instanceCount : ℕ) (kind : DeploymentKind) : M DeploymentId := do
  let db ← getDb
  modifyDb fun db => { db with
    deployments := db.deployments.insert
      { releaseId := r, status := .pending, instanceCount := instanceCount, kind := kind
        failureReason := none } }
  pure db.deployments.next

/-- The first insert that is not refused by the unique index fails. -/
def Db.overlong (db : Db) (o : Oracle) (s : ServerId) (ports : List ℕ) : Bool :=
  (ports.find? fun port => db.application.misfit port ||
    !(db.portHeld s port || o.foreignPort db.instances.next s port)).any db.application.misfit

/-- `start_deployment`. Both adapters of the enumeration are implemented, so the branch
for any other is left out. -/
def startDeployment (o : Oracle) (c : HealerYaml) : M DeploymentId := do
  let db ← getDb
  if db.application.activeReleaseId.isSome then
    Prog.raise (.deploymentSetup <| "application is already deployed — use POST " ++
      "/applications/\x7bid\x7d/releases for a blue-green update, or /rollback to restore a " ++
      "previous release")
  else if c.adapter = .windowsWaitressService ∧ c.windows.isNone then
    Prog.raise (.deploymentSetup "adapter windows-waitress-service requires a windows: section")
  else if c.adapter = .linuxDocker ∧ c.linux.isNone then
    Prog.raise (.deploymentSetup "adapter linux-docker requires a linux: section")
  else match c.serverId with
    | none => Prog.raise (.deploymentSetup "no target server selected")
    | some s =>
      if db.agent s ≠ some .connected then
        Prog.raise (.deploymentSetup "the target server's Agent is not currently connected")
      else if db.source.isNone then
        Prog.raise (.deploymentSetup "application has no source configured")
      else if db.overlong o s (List.range' c.ports.start (c.ports.stop + 1 - c.ports.start)) then
        -- the exception of the insert leaves the request, and the release flushed before is rolled back
        failFlush
      else do
        let r ← insertRelease
        let i ← allocateInstance o r s c.ports.start c.ports.stop
        let d ← insertDeployment r 1 .deploy
        modifyInstance i fun inst => { inst with deploymentId := some d }
        transitionDeployment d .inProgress
        commit
        pure d

/-- `_sync_gateway_step`. -/
def syncGatewayStep (o : Oracle) (d : DeploymentId) : M Unit := do
  let result ← syncGateway o
  match result.message with
  | .list _ => failFlush  -- the log's text column takes no list, so neither row is written
  | .text text => do
    let message :=
      if text ≠ "" then text
      else if result.ok then "gateway routing updated" else "gateway sync failed"
    modifyDb fun db => { db with
      steps := db.steps ++ [⟨d, "gateway_sync", if result.ok then .succeeded else .failed⟩]
      logs := db.logs ++ [⟨d, if result.ok then .info else .error, message⟩] }
    commit

/-- `run_deployment` inside its `try`. -/
def deploymentBody (o : Oracle) (d : DeploymentId) (dep : Deployment) : M Unit := do
  let db ← getDb
  let r := dep.releaseId
  match db.releases.row r, (db.instances.select fun i => i.releaseId == some r).head? with
  | some _, some i => do
    let config ← configFromApplication
    let inst ← getInstance i
    if (db.agent inst.serverId).isNone then do
      addLog d .error "the target server's Agent disappeared before deployment could run"
      transitionDeployment d .failed
      commit
    else do
      let deployOk ← buildRelease o d r config inst.serverId
      if !deployOk then do
        transition i .failed
        transitionDeployment d .failed
        commit
      else do
        transition i .starting
        commit
        let row ← submitStart o inst.serverId (.startInstance i) r i config
        let startOk ← persistAgentOutcome d row
        if startOk then do
          transition i .running
          transitionDeployment d .succeeded
          setActive (some r)
          if config.domain.isSome then syncGatewayStep o d
        else do
          transition i .failed
          transitionDeployment d .failed
          commit
  | _, _ => pure ()

/-- Run a body for an existing deployment and give the lock back at its end. -/
def withDeployment (body : DeploymentId → Deployment → M Unit) (d : DeploymentId) (token : Time) :
    M Unit := do
  let db ← getDb
  match db.deployments.row d with
  | none => pure ()
  | some dep => LockService.releaseFinally (body d dep) token

def runDeployment (o : Oracle) (d : DeploymentId) (token : Time) : M Unit :=
  withDeployment (deploymentBody o) d token

end Healer
