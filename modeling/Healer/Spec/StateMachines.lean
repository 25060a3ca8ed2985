import Mathlib.Tactic

/-! The status enumerations of `app/db/models/enums.py` and the transition tables
of `app/domain/state_machines.py`. -/

namespace Healer

inductive InstanceStatus
  | pending | starting | running | unhealthy | restarting | draining | stopped | failed
  deriving DecidableEq, Repr

inductive DeploymentStatus
  | pending | inProgress | succeeded | failed | rolledBack
  deriving DecidableEq, Repr

inductive ReleaseStatus
  | pending | building | ready | failed
  deriving DecidableEq, Repr

inductive CommandStatus
  | pending | sent | acknowledged | running | succeeded | failed | timedOut | expired
  deriving DecidableEq, Repr

inductive StepStatus
  | pending | running | succeeded | failed | skipped
  deriving DecidableEq, Repr

inductive AgentStatus
  | disconnected | connected | degraded
  deriving DecidableEq, Repr

/-- `AdapterType`, which `HealerYamlV1.adapter` spells the same way. -/
inductive Adapter
  | windowsWaitressService | linuxDocker
  deriving DecidableEq, Repr

def deploymentTransitions : DeploymentStatus → List DeploymentStatus
  | .pending => [.inProgress, .failed]
  | .inProgress => [.succeeded, .failed]
  | .succeeded => [.rolledBack]
  | .failed => [.rolledBack]
  | .rolledBack => []

def instanceTransitions : InstanceStatus → List InstanceStatus
  | .pending => [.starting, .failed]
  | .starting => [.running, .failed]
  | .running => [.unhealthy, .restarting, .draining, .stopped]
  | .unhealthy => [.running, .restarting, .draining, .stopped, .failed]
  | .restarting => [.running, .failed]
  | .draining => [.stopped, .failed]
  | .stopped => [.starting]
  | .failed => [.starting]

def agentCommandTransitions : CommandStatus → List CommandStatus
  | .pending => [.sent, .expired]
  | .sent => [.acknowledged, .failed, .timedOut]
  | .acknowledged => [.running, .failed, .timedOut]
  | .running => [.succeeded, .failed, .timedOut]
  | .succeeded | .failed | .timedOut | .expired => []

def canTransition {σ : Type} [DecidableEq σ] (transitions : σ → List σ) (current target : σ) : Bool :=
  if current = target then false else (transitions current).contains target

/-- An edge of `AGENT_COMMAND_TRANSITIONS`. -/
def CommandStatus.Edge (current target : CommandStatus) : Prop :=
  canTransition agentCommandTransitions current target = true

instance : DecidableRel CommandStatus.Edge := fun current target =>
  inferInstanceAs (Decidable (canTransition agentCommandTransitions current target = true))

/-- The statuses left out of the partial unique index on `(server_id, port)`. -/
def InstanceStatus.terminal : InstanceStatus → Bool
  | .stopped | .failed => true
  | _ => false

end Healer
