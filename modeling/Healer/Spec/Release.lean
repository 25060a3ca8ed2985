import Healer.Spec.Scale

/-! `release_service`: blue-green releases and rollbacks. -/

namespace Healer

/-- `_require_agent`. -/
def requireAgent : M Unit := do
  let db ← getDb
  let app := db.application
  if app.activeReleaseId.isNone then
    Prog.raise (.releaseSetup <| "application has no active release yet — deploy it first with " ++
      "POST /applications/\x7bid\x7d/deploy")
  else match app.serverId, app.portRangeStart, app.portRangeEnd with
    | some s, some _, some _ =>
      if db.agent s ≠ some .connected then
        Prog.raise (.releaseSetup "the target server's Agent is not currently connected")
      else pure ()
    | _, _, _ =>
      Prog.raise (.releaseSetup "application has no target server or port range configured")

/-- The deployment row of a switch, IN_PROGRESS and committed. -/
def openSwitch (r : ReleaseId) (instanceCount : ℕ) (kind : DeploymentKind) : M DeploymentId := do
  let d ← insertDeployment r instanceCount kind
  transitionDeployment d .inProgress
  commit
  pure d

/-- `start_new_release`. -/
def startNewRelease : M DeploymentId := do
  requireAgent
  let db ← getDb
  if db.source.isNone then Prog.raise (.releaseSetup "application has no source configured")
  else do
    let r ← insertRelease
    openSwitch r db.application.desiredReplicas .blueGreen

/-- Whether a release still records what its adapter starts it from. -/
def Release.isBuilt (rel : Release) : Adapter → Bool
  | .windowsWaitressService => truthy rel.releaseDir && truthy rel.venvPython
  | .linuxDocker => truthy rel.imageRef

/-- `start_rollback`. -/
def startRollback (target : ReleaseId) : M DeploymentId := do
  requireAgent
  let db ← getDb
  match db.releases.row target with
  | none => Prog.raise (.releaseSetup "release not found for this application")
  | some rel =>
    if db.application.activeReleaseId = some target then
      Prog.raise (.releaseSetup "that release is already active")
    else do
      let c ← configFromApplication
      if rel.status ≠ .ready ∨ !rel.isBuilt c.adapter then
        Prog.raise (.releaseSetup <| "release is not available to roll back to " ++
          "(never finished building, or has since been pruned)")
      else openSwitch target db.application.desiredReplicas .rollback

/-- `_stop_instances`. -/
def stopInstances (o : Oracle) (d : DeploymentId) (agent : ServerId) (c : HealerYaml)
    (instances : List InstanceId) : M Unit :=
  Prog.each (fun i => do let _ ← stopAndSettle o d agent .abortStopInstance c i; pure ()) instances

/-- The loop of `_start_and_health_gate` with `n` replicas to go. -/
def gateLoop (o : Oracle) (L : Site) : (n : ℕ) → (started : List InstanceId) →
    M (Option (List InstanceId))
  | 0, started => pure (some started)
  | n + 1, started => do
    match ← launch o L with
    | .noPort => do
      stopInstances o L.deployment L.server L.config started
      pure none
    | .startFailed i => do
      settle i .failed
      stopInstances o L.deployment L.server L.config started
      pure none
    | .unhealthy i => do
      settle i .failed
      stopInstances o L.deployment L.server L.config started
      pure none
    | .healthy i => do
      settle i .running
      gateLoop o L n (started ++ [i])

/-- `_start_and_health_gate`. -/
def startAndHealthGate (o : Oracle) (d : DeploymentId) (dep : Deployment) (c : HealerYaml)
    (s : ServerId) (portStart portEnd : ℕ) : M (Option (List InstanceId)) := do
  let db ← getDb
  gateLoop o ⟨d, dep.releaseId, c, s, portStart, portEnd, db.healthCheck,
    (db.servers s).map Server.hostname⟩ dep.instanceCount []

/-- `_drain_old_release`. -/
def drainOldRelease (o : Oracle) (d : DeploymentId) (agent : ServerId) (old : ReleaseId)
    (c : HealerYaml) : M Unit := do
  let db ← getDb
  let instances := db.instances.select fun i => i.releaseId == some old && i.status == .running
  if instances.isEmpty then pure ()
  else do
    Prog.each (fun i => transition i .draining) instances
    commit
    suspend o
    Prog.each (fun i => do let _ ← stopAndSettle o d agent .stopInstance c i; pure ()) instances

/-- `releases[keep:]`, newest first. -/
def Db.prunable (db : Db) : List ReleaseId :=
  let created := fun r => ((db.releases.row r).map Release.createdAt).getD 0
  (db.readyReleases.insertionSort fun r r' => created r' ≤ created r).drop
    (max db.application.releaseRetentionCount 1)

/-- Deletes wait for the next commit, because the session does not flush before a query. -/
def flushDeletes (pending : List ReleaseId) : M Unit :=
  modifyDb fun db => pending.foldl Db.deleteRelease db

/-- The loop of `_prune_old_releases`; `pending` holds the releases deleted so far that
no commit has written out yet. -/
def pruneLoop (o : Oracle) (d : DeploymentId) (agent : ServerId) (c : HealerYaml) :
    List ReleaseId → (pending : List ReleaseId) → M Unit
  | [], pending => do
    flushDeletes pending
    commit
  | r :: rs, pending => do
    let db ← getDb
    if db.application.activeReleaseId = some r then pruneLoop o d agent c rs pending
    else do
      let rel ← getRelease r
      let slug := db.application.slug
      let ref := rel.ref
      let tag := s!"healer-{slug}:{ref}"
      if c.adapter = .linuxDocker ∧ rel.imageRef = some tag then
        if (db.releases.select fun rel => rel.imageRef == some tag).any (· != r) ||
            o.foreignImage tag then do
          flushDeletes pending
          log d .warning s!"kept image {tag}: another release uses it"
          pruneLoop o d agent c rs []
        else do
          flushDeletes pending
          match ← Prog.attempt
              (submitCommandAndWait o agent (.cleanupImage r) (.cleanupImage slug ref)) with
          | .ok row =>
            if row.status = .succeeded ∧ (row.result.map CommandResult.ok).getD false then
              pruneLoop o d agent c rs [r]
            else do
              log d .warning s!"kept image {tag}: cleanup failed"
              pruneLoop o d agent c rs []
          | .error e => do
            let exc := e.text
            log d .warning s!"kept image {tag}: cleanup unavailable: {exc}"
            pruneLoop o d agent c rs []
      else pruneLoop o d agent c rs (pending ++ [r])

/-- `_prune_old_releases`. -/
def pruneOldReleases (o : Oracle) (d : DeploymentId) (agent : ServerId) (c : HealerYaml) : M Unit := do
  let db ← getDb
  pruneLoop o d agent c db.prunable []

/-- `_fail`; `cleanup` is there when the caller passes instances and an agent. -/
def fail (o : Oracle) (d : DeploymentId) (reason : String) (cleanupRelease : Option ReleaseId)
    (cleanup : Option (ServerId × HealerYaml × List InstanceId)) : M Unit := do
  (match cleanup with
    | some (agent, c, instances) => stopInstances o d agent c instances
    | none => pure ())
  (match cleanupRelease with
    | some r => modifyRelease r fun rel =>
        if rel.status = .ready then rel else { rel with status := .failed }
    | none => pure ())
  modifyDb fun db => { db with
    deployments := db.deployments.modify d fun dep => { dep with failureReason := some reason } }
  log d .error reason
  transitionDeployment d .failed
  commit

/-- The end of `run_release_switch`, after the switch has been accepted. -/
def finishSwitch (o : Oracle) (d : DeploymentId) (agent : ServerId) (c : HealerYaml)
    (old : Option ReleaseId) : M Unit := do
  (match old with
    | some r => drainOldRelease o d agent r c
    | none => pure ())
  pruneOldReleases o d agent c
  transitionDeployment d .succeeded
  commit

/-- `run_release_switch` from the write of `active_release_id` on. -/
def switchTo (o : Oracle) (d : DeploymentId) (r : ReleaseId) (agent : ServerId) (c : HealerYaml)
    (new : List InstanceId) : M Unit := do
  let old ← Prog.read fun w => w.db.application.activeReleaseId
  setActive (some r)
  if c.domain.isSome then do
    let result ← syncGateway o
    let message := result.message.str
    if result.ok then finishSwitch o d agent c old
    else do
      setActive old
      fail o d s!"gateway rejected the new release, traffic was not switched: {message}" (some r)
        (some (agent, c, new))
  else finishSwitch o d agent c old

/-- `run_release_switch` from the health gate on. -/
def gateAndSwitch (o : Oracle) (d : DeploymentId) (dep : Deployment) (c : HealerYaml) (s : ServerId)
    (portStart portEnd : ℕ) : M Unit := do
  match ← startAndHealthGate o d dep c s portStart portEnd with
  | none =>
    fail o d "one or more new instances failed to start or become healthy" (some dep.releaseId) none
  | some new => switchTo o d dep.releaseId s c new

/-- `run_release_switch` inside its `try`. -/
def switchBody (o : Oracle) (d : DeploymentId) (dep : Deployment) : M Unit := do
  let db ← getDb
  let r := dep.releaseId
  match db.releases.row r with
  | none => pure ()
  | some _ =>
    match db.application.serverId, db.application.portRangeStart, db.application.portRangeEnd with
    | some s, some portStart, some portEnd => do
      let c ← configFromApplication
      if (db.agent s).isNone then
        fail o d "the target server's Agent disappeared before the switch could run" none none
      else do
        let built ← (if dep.kind = .blueGreen then buildRelease o d r c s else pure true)
        if !built then fail o d "release build failed" (some r) none
        else gateAndSwitch o d dep c s portStart portEnd
    | _, _, _ => fail o d "application is missing its server or port range" none none

def runReleaseSwitch (o : Oracle) (d : DeploymentId) (token : Time) : M Unit :=
  withDeployment (switchBody o) d token

end Healer
