import Healer.Spec.Release

/-! `instance_service`: the manual restart and stop of one instance. Both take the agent
from the instance's own server. -/

namespace Healer

def InstanceStatus.value : InstanceStatus → String
  | .pending => "pending"
  | .starting => "starting"
  | .running => "running"
  | .unhealthy => "unhealthy"
  | .restarting => "restarting"
  | .draining => "draining"
  | .stopped => "stopped"
  | .failed => "failed"

/-- `_ACTIONABLE_STATUSES`. -/
def InstanceStatus.actionable (st : InstanceStatus) : Bool := st == .running || st == .unhealthy

/-- A command that ended `succeeded` without an error text. Unlike `AgentCommand.ok` it
does not read the result. -/
def AgentCommand.clean (c : AgentCommand) : Bool := c.status == .succeeded && !truthy c.error

/-- `command.error or default`. -/
def AgentCommand.reason (c : AgentCommand) (default : String) : String :=
  if truthy c.error then c.error.getD "" else default

def setFailureReason (i : InstanceId) (reason : Option String) : M Unit :=
  modifyInstance i fun inst => { inst with failureReason := reason }

/-- The two checks a restart and a stop share; `action` is the word in the message. -/
def requireActionable (inst : Instance) (action : String) : M Unit := do
  let db ← getDb
  if !inst.status.actionable then
    let status := inst.status.value
    Prog.raise (.instanceAction s!"instance is {status}, not in a state that can be {action}")
  else if db.agent inst.serverId ≠ some .connected then
    Prog.raise (.instanceAction "the instance's Agent is not currently connected")
  else pure ()

/-- `lock_service.acquire` with its exception turned into an `InstanceActionError`. -/
def acquireForAction (operation : String) : M Time := do
  match ← Prog.attempt (LockService.acquire operation) with
  | .ok token => pure token
  | .error (.operationLockHeld message) => Prog.raise (.instanceAction message)
  | .error e => Prog.raise e

/-- `restart_instance` inside its `try`. -/
def restartBody (o : Oracle) (i : InstanceId) (r : ReleaseId) (agent : ServerId) : M Unit := do
  let c ← configFromApplication
  transition i .restarting
  commit
  syncIfDomain o c
  let row ← submitStart o agent (.manualRestart i) r i c
  if row.clean && (row.result.map CommandResult.ok).getD false then do
    setFailureReason i none
    transition i .running
    commit
    syncIfDomain o c
  else do
    let reason := row.reason "manual restart failed"
    setFailureReason i (some reason)
    transition i .failed
    commit
    Prog.raise (.instanceAction reason)

/-- `restart_instance`. -/
def restartInstance (o : Oracle) (i : InstanceId) : M Unit := do
  let inst ← getInstance i
  requireActionable inst "restarted"
  let db ← getDb
  match inst.releaseId.filter fun r => (db.releases.row r).isSome with
  | none => Prog.raise (.instanceAction "this instance has no known release to restart")
  | some r => do
    let token ← acquireForAction "restart"
    LockService.releaseFinally (restartBody o i r inst.serverId) token

/-- `stop_instance` inside its `try`. -/
def stopBody (o : Oracle) (i : InstanceId) (agent : ServerId) : M Unit := do
  let c ← configFromApplication
  transition i .draining
  commit
  syncIfDomain o c
  let row ← submitStop o agent (.manualStop i) i c
  transition i (stopStatus row.clean)
  if row.clean then commit
  else do
    let reason := row.reason "manual stop failed"
    setFailureReason i (some reason)
    commit
    Prog.raise (.instanceAction reason)

/-- `stop_instance`. -/
def stopInstance (o : Oracle) (i : InstanceId) : M Unit := do
  let inst ← getInstance i
  requireActionable inst "stopped"
  let token ← acquireForAction "stop"
  LockService.releaseFinally (stopBody o i inst.serverId) token

end Healer
