import Healer.Spec.World

/-! The results of one instance and the tasks that write them: the health monitor, which reads the latest
result, waits for its probe and continues the count from what it read, and `wait_until_healthy`, which
counts from zero. Statuses are written by operations in between. -/

namespace Healer

/-- A row with the thresholds that `HealthConfig` allows. -/
abbrev CheckRow := { hc : HealthCheck // 1 ≤ hc.healthyThreshold ∧ 1 ≤ hc.unhealthyThreshold }

structure Watch where
  id : InstanceId
  status : InstanceStatus
  /-- In order of `checked_at`. -/
  results : List HealthCheckResult
  /-- The tick has the instance in its list and has not come to it. -/
  listed : Bool
  /-- `last_result` and `now` of a poll that waits for its probe. -/
  polling : Option (Option HealthCheckResult × Time)
  /-- The successes and failures counted by a `wait_until_healthy`, until its outcome is written. If its prober
  raises none ever is, and the row can only be retired. -/
  gate : Option (ℕ × ℕ)

namespace Watch

def allocated (i : InstanceId) : Watch := ⟨i, .pending, [], false, none, none⟩

inductive Event
  | tick
  | poll (now : Time)
  | polled (answer : Option ℕ)
  /-- The prober raises, or the tick ends before it comes to the instance. -/
  | pollRaised
  /-- A start that is followed by a gate. -/
  | launch
  /-- `handle_unhealthy_instance` restarts the instance and waits for it. -/
  | heal
  | probed (answer : Option ℕ) (now : Time)
  | gateFailed
  /-- Any other write of a status, the manual restart's two among them. -/
  | move (target : InstanceStatus)

def record (w : Watch) (healthy : Bool) (failures : ℕ) (now : Time) : Watch :=
  { w with results := w.results ++ [⟨w.id, healthy, failures, now⟩] }

/-- The monitor is about to poll the instance, or polls it. -/
def busy (w : Watch) : Bool := w.listed || w.polling.isSome

def startPoll (w : Watch) (hc : HealthCheck) (now : Time) : Watch :=
  let last := w.results.getLast?
  if last.any fun r => now < r.checkedAt + seconds hc.intervalSeconds then { w with listed := false }
  else { w with listed := false, polling := some (last, now) }

/-- What the monitor does with the answer to its probe; `true` hands the instance to `_heal`. -/
def finishPoll (w : Watch) (hc : HealthCheck) (answer : Option ℕ) : Bool × Watch :=
  match w.polling with
  | none => (false, w)
  | some (last, now) =>
    let healthy := hc.judge answer
    let failures := nextFailures last healthy
    (!healthy && failures ≥ hc.unhealthyThreshold, { w.record healthy failures now with polling := none })

/-- One attempt of `wait_until_healthy`. Enough successes make the instance RUNNING. -/
def probe (w : Watch) (hc : HealthCheck) (healthy : Bool) (now : Time) : Watch :=
  match w.gate with
  | none => w
  | some (successes, failures) =>
    let successes := if healthy then successes + 1 else 0
    let failures := if healthy then 0 else failures + 1
    let w := w.record healthy failures now
    if successes ≥ hc.healthyThreshold then { w with status := .running, gate := none }
    else { w with gate := some (successes, failures) }

def step (w : Watch) : CheckRow × Event → Watch
  | (_, .tick) => if w.polling.isNone then { w with listed := w.status == .running } else w
  | (hc, .poll now) => if w.listed && w.polling.isNone then w.startPoll hc now else w
  | (hc, .polled answer) => (w.finishPoll hc answer).2
  | (_, .pollRaised) => { w with listed := false, polling := none }
  | (_, .launch) => if w.status = .pending then { w with status := .starting, gate := some (0, 0) } else w
  | (_, .heal) =>
    -- a tick heals after it has polled, and one instance at a time
    if !w.busy && (w.status == .running || w.status == .unhealthy) then
      { w with status := .restarting, gate := some (0, 0) }
    else w
  | (hc, .probed answer now) => w.probe hc (hc.1.judge answer) now
  | (_, .gateFailed) => if w.gate.isSome then { w with status := .failed, gate := none } else w
  | (_, .move target) =>
    if w.gate.isNone && canTransition instanceTransitions w.status target &&
      (target != .starting || w.status == .pending) then { w with status := target } else w

end Watch

end Healer
