import Healer.Spec.Instance

/-! `self_healing_service` and the part of `health_monitor` that calls it, with the audit rows that
healing writes. -/

namespace Healer

/-- `_log_audit`. -/
def logAudit (i : InstanceId) (action : Instance → AuditAction) : M Unit := do
  let inst ← getInstance i
  modifyDb fun db => { db with audits := db.audits ++ [⟨action inst, i, inst.port⟩] }
  commit

/-- `_notify_administrators`. -/
def notifyAdministrators (i : InstanceId) (reason : String) : M Unit := do
  let inst ← getInstance i
  modifyDb fun db =>
    let name := db.application.name
    let port := inst.port
    let attempts := inst.healingAttempts
    { db with notifications := db.notifications ++ [s!"{name}: instance on port {port} could not " ++
        s!"be recovered after {attempts} attempt(s) — {reason}"] }
  commit

/-- `_give_up`. -/
def giveUp (i : InstanceId) (reason : String) : M Unit := do
  setFailureReason i (some reason)
  let inst ← getInstance i
  (if inst.status = .failed then pure () else transition i .failed)
  commit
  logAudit i fun _ => .recoveryFailed reason
  notifyAdministrators i reason

/-- The end of `_replace`, once the replacement `i` has its row. -/
def startReplacement (o : Oracle) (hc : HealthCheck) (c : HealerYaml) (agent : ServerId) (r : ReleaseId)
    (host : Option String) (i : InstanceId) : M Unit := do
  let row ← submitStart o agent (.startInstance i) r i c
  if !row.ok then do
    settle i .failed
    giveUp i "replacement instance failed to start"
  else do
    let inst ← getInstance i
    let healthy ← (match host with
      | some host => waitUntilHealthy o hc i host inst.port
      | none => pure true)
    if !healthy then do
      settle i .unhealthy
      giveUp i "replacement instance never became healthy"
    else do
      settle i .running
      logAudit i fun _ => .recoveredByReplacement
      syncIfDomain o c

/-- `_replace`; `failed` is the instance that is given up. -/
def replace (o : Oracle) (hc : HealthCheck) (c : HealerYaml) (agent : ServerId) (r : ReleaseId)
    (host : Option String) (failed : InstanceId) : M Unit := do
  let db ← getDb
  match db.application.portRangeStart, db.application.portRangeEnd with
  | some portStart, some portEnd => do
    let old ← getInstance failed
    match ← Prog.attempt (allocateInstance o r old.serverId portStart portEnd) with
    | .error (.deploymentSetup exc) => giveUp failed s!"could not allocate a replacement port: {exc}"
    | .error e => Prog.raise e
    | .ok i => do
      modifyInstance i fun inst => { inst with
        healingAttempts := old.healingAttempts, deploymentId := old.deploymentId }
      settle i .starting
      let new ← getInstance i
      logAudit failed fun _ => .replaced i new.port
      startReplacement o hc c agent r host i
  | _, _ => giveUp failed "application has no port range configured"

/-- `handle_unhealthy_instance` from the restart on. -/
def restartOrReplace (o : Oracle) (hc : HealthCheck) (c : HealerYaml) (agent : ServerId) (r : ReleaseId)
    (host : Option String) (i : InstanceId) : M Unit := do
  settle i .restarting
  logAudit i fun inst => .restartAttempted inst.healingAttempts
  let inst ← getInstance i
  let row ← submitStart o agent (.restartInstance i inst.healingAttempts) r i c
  let healthy ← (match row.ok, host with
    | true, some host => waitUntilHealthy o hc i host inst.port
    | _, _ => pure false)
  if healthy then do
    transition i .running
    setFailureReason i none
    commit
    logAudit i fun inst => .recovered inst.healingAttempts
    syncIfDomain o c
  else do
    setFailureReason i (some "restart did not restore a healthy instance")
    settle i .failed
    logAudit i fun inst => .restartFailed inst.healingAttempts
    replace o hc c agent r host i

/-- The cooldown has passed since the last attempt. -/
def Instance.cooled (inst : Instance) (hc : HealthCheck) (now : Time) : Bool :=
  !inst.lastHealingAttemptAt.any fun t => now - t < seconds hc.restartCooldownSeconds

/-- `handle_unhealthy_instance` once the instance is out of the gateway. -/
def attemptHealing (o : Oracle) (hc : HealthCheck) (c : HealerYaml) (connected : Bool)
    (host : Option String) (i : InstanceId) : M Unit := do
  let inst ← getInstance i
  let hc ← rereadHealthCheck hc
  let t ← now
  if !connected then giveUp i "the target server's Agent is not connected"
  else if !inst.cooled hc t then pure ()
  else if inst.healingAttempts ≥ hc.maxRestartAttempts then giveUp i "maximum restart attempts reached"
  else do
    modifyInstance i fun inst => { inst with
      healingAttempts := inst.healingAttempts + 1, lastHealingAttemptAt := some t }
    commit
    let db ← getDb
    match inst.releaseId.filter fun r => (db.releases.row r).isSome with
    | none => giveUp i "instance has no associated release to restart"
    | some r => restartOrReplace o hc c inst.serverId r host i

/-- `handle_unhealthy_instance`. -/
def handleUnhealthyInstance (o : Oracle) (hc : HealthCheck) (i : InstanceId) : M Unit := do
  let c ← configFromApplication
  let inst ← getInstance i
  let db ← getDb
  (if inst.status = .running then settle i .unhealthy else pure ())
  logAudit i fun _ => .removedUnhealthy
  syncIfDomain o c
  attemptHealing o hc c (db.agent inst.serverId == some .connected)
    ((db.servers inst.serverId).map Server.hostname) i

/-- `_heal`. -/
def heal (o : Oracle) (hc : HealthCheck) (i : InstanceId) : M Unit := do
  match ← Prog.attempt (LockService.acquire "heal") with
  | .ok token => LockService.releaseFinally (handleUnhealthyInstance o hc i) token
  | .error (.operationLockHeld _) => pure ()
  | .error e => Prog.raise e

def poll (o : Oracle) (i : InstanceId) (host : String) : M Bool := fun w => w.poll o i host

/-- `_poll_and_maybe_heal`. -/
def pollInstance (o : Oracle) (i : InstanceId) (host : String) : M Unit := do
  let due ← poll o i host
  let db ← getDb
  match due, db.healthCheck with
  | true, some hc => heal o hc i
  | _, _ => pure ()

/-- `_poll_and_maybe_heal` for the next instance of the running tick. -/
def pollAndMaybeHeal (o : Oracle) : M Unit := do
  match ← Prog.read World.monitor with
  | [] => pure ()
  | (i, host) :: rest => do
    Prog.update fun w => { w with monitor := rest }
    pollInstance o i host

/-- The second loop of `tick`, over the UNHEALTHY instances. -/
def healUnhealthy (o : Oracle) : M Unit := do
  let db ← getDb
  match db.healthCheck with
  | some hc => Prog.each (heal o hc) (db.instances.select fun i => i.status == .unhealthy)
  | none => pure ()

/-- `tick` from beginning to end, with nothing but `Background` beside it. -/
def tick (o : Oracle) : M Unit := do
  let db ← getDb
  match db.healthCheck, db.application.serverId.bind db.servers with
  | some _, some server => do
    Prog.each (fun i => pollInstance o i server.hostname) (db.instances.select fun i => i.status == .running)
    healUnhealthy o
  | _, _ => pure ()

/-- `run_forever` logs an exception and drops the rest of the tick. -/
def tickGuard (m : M Unit) : M Unit := do
  match ← Prog.attempt m with
  | .ok _ => pure ()
  | .error _ => Prog.update fun w => { w with monitor := [] }

end Healer
