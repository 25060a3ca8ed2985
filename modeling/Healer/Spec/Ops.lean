import Healer.Spec.Healing

/-! The operations on one application as its routes and the health monitor start them,
and histories of them. The operation lock keeps the operations apart: while one holds
it, only what `Background` lists runs beside it. -/

namespace Healer

/-- The exceptions a route answers with 409 after it has given the lock back. -/
def Exn.setup : Exn → Bool
  | .deploymentSetup _ | .scaleSetup _ | .releaseSetup _ => true
  | _ => false

/-- A route that starts a deployment under the lock and runs it as a background task. -/
def underLock (o : Oracle) (operation : String) (start : M DeploymentId)
    (run : DeploymentId → Time → M Unit) : M Unit := do
  let token ← LockService.acquire operation
  match ← Prog.attempt start with
  | .ok d => do
    suspend o
    run d token
  | .error e => do
    (if e.setup then LockService.release token else pure ())
    Prog.raise e

/-- `POST /applications/{id}/deploy`. -/
def deployApplication (o : Oracle) : M Unit := do
  let c ← configFromApplication
  underLock o "deploy" (startDeployment o c) (runDeployment o)

/-- `POST /applications/{id}/scale`. -/
def scaleApplication (o : Oracle) (target : ℕ) : M Unit :=
  underLock o "scale" (startScale target) (runScale o)

/-- `POST /applications/{id}/releases`. -/
def deployNewRelease (o : Oracle) : M Unit := do
  let _ ← configFromApplication
  underLock o "deploy" startNewRelease (runReleaseSwitch o)

/-- `POST /applications/{id}/rollback`. -/
def rollbackApplication (o : Oracle) (target : ReleaseId) : M Unit :=
  underLock o "deploy" (startRollback target) (runReleaseSwitch o)

inductive Op
  | deploy
  | scale (target : ℕ)
  | release
  | rollback (target : ReleaseId)
  | restart (i : InstanceId)
  | stop (i : InstanceId)
  | update (c : HealerYaml)
  /-- The agent of a server enrols, connects or drops. -/
  | agentSeen (s : ServerId) (status : AgentStatus)
  | tickBegin
  | tickPoll
  | tickHeal

/-- The status of an enrolled agent; a server that is not there has none. -/
def Db.setAgent (db : Db) (s : ServerId) (status : AgentStatus) : Db :=
  { db with servers := fun s' =>
      if s' = s then (db.servers s').map fun server => { server with agent := some status }
      else db.servers s' }

def Op.run (o : Oracle) : Op → M Unit
  | .deploy => deployApplication o
  | .scale target => scaleApplication o target
  | .release => deployNewRelease o
  | .rollback target => rollbackApplication o target
  | .restart i => restartInstance o i
  | .stop i => stopInstance o i
  | .update c => Prog.update fun w => (Background.update c).run o w
  | .agentSeen s status => modifyDb fun db => db.setAgent s status
  | .tickBegin => Prog.update World.tickBegin
  | .tickPoll => tickGuard (pollAndMaybeHeal o)
  | .tickHeal => tickGuard (healUnhealthy o)

/-- One operation after another, each with its own outcomes. An exception ends its
operation only. -/
def World.history (w : World) : List (Oracle × Op) → World
  | [] => w
  | (o, op) :: rest => (op.run o w).2.history rest

/-! ## An application left to its monitor -/

/-- `run_forever` ticks and sleeps; an exception ends its tick only. Agents come and go meanwhile. -/
inductive Beat
  | tick
  | sleep
  | agentSeen (s : ServerId) (status : AgentStatus)

def Beat.run (o : Oracle) : Beat → M Unit
  | .tick => tickGuard (Healer.tick o)
  | .sleep => suspend o
  | .agentSeen s status => modifyDb fun db => db.setAgent s status

def World.beat (w : World) (e : Oracle × Beat) : World := (e.2.run e.1 w).2

end Healer
