import Healer.Spec.Deployment

/-! `scale_service`. Bringing up one replica is the same code here and in
`release_service`, up to what is done with a replica that fails; `launch` is the
shared part. -/

namespace Healer

/-- Where the replicas of an operation go. `agent` is the one of `server`. -/
structure Site where
  deployment : DeploymentId
  release : ReleaseId
  config : HealerYaml
  server : ServerId
  portStart : ℕ
  portEnd : ℕ
  healthCheck : Option HealthCheck
  host : Option String

inductive Launch
  | noPort
  | startFailed (i : InstanceId)
  | unhealthy (i : InstanceId)
  | healthy (i : InstanceId)

/-- One replica from its port to its health gate. -/
def launch (o : Oracle) (L : Site) : M Launch := do
  match ← Prog.attempt (allocateInstance o L.release L.server L.portStart L.portEnd) with
  | .error (.deploymentSetup message) => do
    log L.deployment .error message
    pure .noPort
  | .error e => Prog.raise e
  | .ok i => do
    modifyInstance i fun inst => { inst with deploymentId := some L.deployment }
    transition i .starting
    commit
    let row ← submitStart o L.server (.startInstance i) L.release i L.config
    let inst ← getInstance i
    let startOk ← persistInstanceCommandOutcome L.deployment row inst.port
    if !startOk then pure (.startFailed i)
    else match L.healthCheck, L.host with
      | some hc, some host => do
        let healthy ← waitUntilHealthy o hc i host inst.port
        if healthy then pure (.healthy i)
        else do
          let port := inst.port
          log L.deployment .error s!"instance on port {port} did not become healthy in time"
          pure (.unhealthy i)
      | _, _ => pure (.healthy i)

/-- `transition` and `commit`, the end of a replica in every branch. -/
def settle (i : InstanceId) (status : InstanceStatus) : M Unit := do
  transition i status
  commit

/-- The loop of `_scale_up` with `n` replicas to go. -/
def scaleUp (o : Oracle) (L : Site) : (n : ℕ) → (overallOk : Bool) → M Bool
  | 0, overallOk => pure overallOk
  | n + 1, overallOk => do
    match ← launch o L with
    | .noPort => pure false
    | .startFailed i => do
      settle i .failed
      scaleUp o L n false
    | .healthy i => do
      settle i .running
      scaleUp o L n overallOk
    | .unhealthy i => do
      settle i .unhealthy
      scaleUp o L n false

/-- `sorted(live, key=created_at, reverse=True)[:count]`, a stable sort. -/
def Db.toDrain (db : Db) (live : List InstanceId) (count : ℕ) : List InstanceId :=
  let created := fun i => ((db.instances.row i).map Instance.createdAt).getD 0
  (live.insertionSort fun i j => created j ≤ created i).take count

def markDraining (d : DeploymentId) (i : InstanceId) : M Unit := do
  modifyInstance i fun inst => { inst with deploymentId := some d }
  transition i .draining

/-- The stop loop of `_scale_down`. -/
def stopDrained (o : Oracle) (d : DeploymentId) (agent : ServerId) (c : HealerYaml) :
    List InstanceId → (overallOk : Bool) → M Bool
  | [], overallOk => pure overallOk
  | i :: is, overallOk => do
    let ok ← stopAndSettle o d agent .stopInstance c i
    stopDrained o d agent c is (overallOk && ok)

/-- A gateway sync whose result is dropped, when the config has a domain. -/
def syncIfDomain (o : Oracle) (c : HealerYaml) : M Unit :=
  if c.domain.isSome then do
    let _ ← syncGateway o
    pure ()
  else pure ()

/-- `_scale_down`. -/
def scaleDown (o : Oracle) (d : DeploymentId) (agent : ServerId) (c : HealerYaml)
    (live : List InstanceId) (count : ℕ) : M Bool := do
  let db ← getDb
  let toDrain := db.toDrain live count
  Prog.each (markDraining d) toDrain
  commit
  syncIfDomain o c
  suspend o
  stopDrained o d agent c toDrain true

/-- `start_scale`. -/
def startScale (target : ℕ) : M DeploymentId := do
  let db ← getDb
  let app := db.application
  let lo := app.minReplicas
  let hi := app.maxReplicas
  if target < lo ∨ hi < target then
    Prog.raise (.scaleSetup s!"desired replica count {target} is outside the allowed range [{lo}, {hi}]")
  else match app.serverId with
    | none => Prog.raise (.scaleSetup "no target server selected")
    | some s =>
      if db.agent s ≠ some .connected then
        Prog.raise (.scaleSetup "the target server's Agent is not currently connected")
      else match db.newestReady with
        | none => Prog.raise (.scaleSetup
            "application has no successfully deployed release to scale")
        | some r => do
          let d ← insertDeployment r target .deploy
          transitionDeployment d .inProgress
          modifyDb fun db => { db with
            application := { db.application with desiredReplicas := target } }
          commit
          pure d

/-- The sync at the end of `run_scale`; a failure is only logged. -/
def reportedSync (o : Oracle) (d : DeploymentId) : M Unit := do
  let result ← syncGateway o
  let message := result.message.str
  if !result.ok then log d .error s!"gateway sync: {message}" else pure ()

/-- The end of `run_scale`: a sync when all went well, then the terminal status. -/
def finishScale (o : Oracle) (d : DeploymentId) (c : HealerYaml) (ok : Bool) : M Unit := do
  (if ok && c.domain.isSome then reportedSync o d else pure ())
  transitionDeployment d (if ok then .succeeded else .failed)
  commit

/-- `run_scale` inside its `try`. -/
def scaleBody (o : Oracle) (d : DeploymentId) (dep : Deployment) : M Unit := do
  let db ← getDb
  match db.releases.row dep.releaseId with
  | none => pure ()
  | some _ =>
    match db.application.serverId, db.application.portRangeStart, db.application.portRangeEnd with
    | some s, some portStart, some portEnd => do
      let c ← configFromApplication
      if (db.agent s).isNone then do
        log d .error "the target server's Agent disappeared before scaling could run"
        transitionDeployment d .failed
        commit
      else do
        let target := dep.instanceCount
        let live := db.liveInstances
        let current := live.length
        if current < target then do
          let L : Site := ⟨d, dep.releaseId, c, s, portStart, portEnd, db.healthCheck,
            (db.servers s).map Server.hostname⟩
          let ok ← scaleUp o L (target - current) true
          finishScale o d c ok
        else if target < current then do
          let ok ← scaleDown o d s c live (current - target)
          finishScale o d c ok
        else finishScale o d c true
    | _, _, _ => do
      log d .error "application is missing its server or port range"
      transitionDeployment d .failed
      commit

def runScale (o : Oracle) (d : DeploymentId) (token : Time) : M Unit :=
  withDeployment (scaleBody o) d token

end Healer
