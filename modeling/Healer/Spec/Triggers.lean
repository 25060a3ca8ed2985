import Healer.Spec.Ops

/-! The handlers of the routes that take the operation lock, up to the end of the request. A handler
that succeeds has scheduled a background task, which is given the lock's token. -/

namespace Healer

/-- The handlers of the deploy, scale, releases and rollback routes, up to `add_task`. -/
def trigger (operation : String) (start : M DeploymentId) : M (DeploymentId × Time) := do
  let token ← LockService.acquire operation
  match ← Prog.attempt start with
  | .ok d => pure (d, token)
  | .error e => do
    (if e.setup then LockService.release token else pure ())
    Prog.raise e

inductive Trigger
  | deploy
  | scale (target : ℕ)
  | release
  | rollback (target : ReleaseId)
  | restart (i : InstanceId)
  | stop (i : InstanceId)

namespace Trigger

/-- The handler, with the deployment and the token of the task it schedules. -/
def handle (o : Oracle) : Trigger → M (Option (DeploymentId × Time))
  | .deploy => do
    let c ← configFromApplication
    let task ← trigger "deploy" (startDeployment o c)
    pure (some task)
  | .scale target => do
    let task ← trigger "scale" (startScale target)
    pure (some task)
  | .release => do
    let _ ← configFromApplication
    let task ← trigger "deploy" startNewRelease
    pure (some task)
  | .rollback target => do
    let task ← trigger "deploy" (startRollback target)
    pure (some task)
  | .restart i => do
    restartInstance o i
    pure none
  | .stop i => do
    stopInstance o i
    pure none

/-- The background task of a route. -/
def task (o : Oracle) : Trigger → DeploymentId → Time → M Unit
  | .deploy => runDeployment o
  | .scale _ => runScale o
  | .release | .rollback _ => runReleaseSwitch o
  | .restart _ | .stop _ => fun _ _ => pure ()

/-- The request and, after its response, the task. -/
def run (o : Oracle) (t : Trigger) : M Unit := do
  match ← t.handle o with
  | some (d, token) => do
    suspend o
    t.task o d token
  | none => pure ()

def op : Trigger → Op
  | .deploy => .deploy
  | .scale target => .scale target
  | .release => .release
  | .rollback target => .rollback target
  | .restart i => .restart i
  | .stop i => .stop i

end Trigger

end Healer
