import Healer.Spec.Ops

/-! `reconcile_service`: what the Control Plane does to the rows of an application when it starts,
before it accepts a request. -/

namespace Healer

def stuckDeploymentReason : String := "control plane restarted while this operation was in progress"

def stuckInstanceReason : String := "control plane restarted while this instance was mid-transition"

/-- `_TRANSIENT_INSTANCE_STATUSES`. -/
def InstanceStatus.transient : InstanceStatus → Bool
  | .starting | .restarting | .draining => true
  | _ => false

/-- `lock_service.force_release`. -/
def LockService.forceRelease : M Unit := do
  modifyDb fun db => { db with application := db.application.forceRelease }
  commit

def reconcileDeployment (d : DeploymentId) : M Unit := do
  modifyDb fun db => { db with
    deployments := db.deployments.modify d fun dep =>
      { dep with failureReason := some stuckDeploymentReason } }
  addLog d .error stuckDeploymentReason
  transitionDeployment d .failed
  LockService.forceRelease

/-- `reconcile_stuck_deployments`. -/
def reconcileStuckDeployments : M ℕ := do
  let db ← getDb
  let stuck := db.deployments.select fun dep => dep.status == .inProgress
  Prog.each reconcileDeployment stuck
  commit
  pure stuck.length

def reconcileInstance (i : InstanceId) : M Unit := do
  setFailureReason i (some stuckInstanceReason)
  transition i .failed

/-- `reconcile_stuck_instances`. -/
def reconcileStuckInstances : M ℕ := do
  let db ← getDb
  let stuck := db.instances.select fun inst => inst.status.transient
  Prog.each reconcileInstance stuck
  commit
  pure stuck.length

/-- `reconcile_on_startup`. -/
def reconcileOnStartup : M ℕ := do
  let deployments ← reconcileStuckDeployments
  let instances ← reconcileStuckInstances
  pure (deployments + instances)

end Healer
