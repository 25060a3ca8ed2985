import Healer.Spec.World

/-! `health_check_service.wait_until_healthy`. -/

namespace Healer

/-- The health check row as it stands; `hc` is the copy read earlier. The row is read
again for every attempt because each attempt commits. -/
def rereadHealthCheck (hc : HealthCheck) : M HealthCheck :=
  Prog.read fun w => w.db.healthCheck.getD hc

/-- The GET of `check_instance_once`. -/
def probeOnce (o : Oracle) (i : InstanceId) (k : ℕ) : M (Option ℕ) :=
  match o.probe i k with
  | .ok answer => pure answer
  | .error error => do
    emit (.probeRaised i)
    Prog.raise (.probeRaised error)

/-- The loop of `wait_until_healthy` with `n` attempts left, the next being number `k`. -/
def waitLoop (o : Oracle) (hc : HealthCheck) (i : InstanceId) (host : String) (port : ℕ) :
    (n k successes failures : ℕ) → M Bool
  | 0, _, _, _ => pure false
  | n + 1, k, successes, failures => do
    suspend o
    let hc ← rereadHealthCheck hc
    let answer ← probeOnce o i k
    let healthy := hc.judge answer
    let successes := if healthy then successes + 1 else 0
    let failures := if healthy then 0 else failures + 1
    emit (.probe i host port healthy)
    Prog.update fun w => w.recordResult i healthy failures
    commit
    if successes ≥ hc.healthyThreshold then pure true
    else if failures ≥ hc.unhealthyThreshold then pure false
    else waitLoop o hc i host port n (k + 1) successes failures

def waitUntilHealthy (o : Oracle) (hc : HealthCheck) (i : InstanceId) (host : String) (port : ℕ) :
    M Bool := do
  let hc ← rereadHealthCheck hc
  let healthy ← waitLoop o hc i host port (hc.healthyThreshold + hc.unhealthyThreshold) 0 0 0
  emit (.healthGate i healthy)
  pure healthy

end Healer
