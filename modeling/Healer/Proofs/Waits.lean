import Healer.Sanity.Sample
import Healer.Sanity.Waits
import Healer.Spec.Lock

/-! The waits of a pipeline against the age at which its lock counts as abandoned. -/

namespace Healer

open Prog (Ends Within)

/-- The longest `wait_until_healthy` waits: one try for each threshold count, each with its timeout and
the pause after it. -/
def HealthConfig.gateSeconds (h : HealthConfig) : ℕ :=
  (h.healthyThreshold + h.unhealthyThreshold) * (h.timeoutSeconds + h.intervalSeconds)

/-- The waits `b` at their longest, when a health gate takes `H` seconds. A command is waited for as long
as its `wait_seconds`; there is one drain sleep for all the instances set DRAINING. -/
def worstSeconds (H : ℕ) (b : Wait → ℕ) : ℕ :=
  480 * b .build + 180 * b .start + 45 * b .stop + 45 * b .abort + 90 * b .cleanup + H * b .gate +
    if 0 < b .drain then 15 else 0

/-- What the run from `w` to `w'` has waited for. -/
def spent (w w' : World) (k : Wait) : ℕ := w'.count k - w.count k

/-- `run_scale` from `live` instances to `target`. -/
def scaleWait (H live target : ℕ) : ℕ := worstSeconds H (scaleCost live target)

/-- `run_release_switch` to `n` replicas, when it takes out `drained` instances and `pruned` images; or
when it stops its own replicas again. -/
def switchWait (H n drained pruned : ℕ) : ℕ :=
  max (worstSeconds H (once .build + aborted n n))
    (worstSeconds H (once .build + n • replica + (drained • retire + pruned • once .cleanup)))

/-- `handle_unhealthy_instance`: a restart, then a replacement. -/
def healWait (H : ℕ) : ℕ := worstSeconds H (replica + replica)

theorem spent_le {b : Wait → ℕ} {w w' : World} (h : Within World.count b w w') (k : Wait) :
    spent w w' k ≤ b k := by
  have hk := h k
  unfold spent
  omega

theorem worstSeconds_mono (H : ℕ) {b b' : Wait → ℕ} (h : ∀ k, b k ≤ b' k) :
    worstSeconds H b ≤ worstSeconds H b' := by
  have hgate := Nat.mul_le_mul_left H (h .gate)
  have hbuild := h .build
  have hstart := h .start
  have hstop := h .stop
  have habort := h .abort
  have hcleanup := h .cleanup
  have hdrain := h .drain
  unfold worstSeconds
  split_ifs <;> omega

theorem worstSeconds_of_within (H : ℕ) {b : Wait → ℕ} {w w' : World} (h : Within World.count b w w') :
    worstSeconds H (spent w w') ≤ worstSeconds H b :=
  worstSeconds_mono H (spent_le h)

/-! The budgets in seconds. -/

theorem scaleWait_eq (H live target : ℕ) :
    scaleWait H live target = (target - live) * (180 + H) +
      if target < live then 15 + 45 * (live - target) else 0 := by
  have hprod : (target - live) * (180 + H) = 180 * (target - live) + H * (target - live) := by ring
  simp only [scaleWait, worstSeconds, scaleCost, replica, retire, once, Pi.add_apply, Pi.smul_apply,
    smul_eq_mul, reduceCtorEq, if_false, if_true, mul_zero, mul_one, zero_add, add_zero, hprod]
  split_ifs <;> omega

theorem switchWait_eq (H n drained pruned : ℕ) :
    switchWait H n drained pruned = 480 + n * (180 + H) +
      max (45 * n) ((if 0 < drained then 15 + 45 * drained else 0) + 90 * pruned) := by
  have hprod : n * (180 + H) = 180 * n + H * n := by ring
  simp only [switchWait, worstSeconds, aborted, replica, retire, once, Pi.add_apply, Pi.smul_apply,
    smul_eq_mul, reduceCtorEq, if_false, if_true, mul_zero, mul_one, zero_add, add_zero, hprod]
  split_ifs <;> omega

theorem healWait_eq (H : ℕ) : healWait H = 2 * (180 + H) := by
  simp [healWait, worstSeconds, replica, once]
  omega

/-! What a switch waits for is within its budget. -/

theorem switched_within {n : ℕ} {w w' : World} (h : Switched n w w') (H : ℕ) :
    worstSeconds H (spent w w') ≤ switchWait H n (spent w w' .drain) (spent w w' .cleanup) := by
  rcases h with h | ⟨w1, h1, ⟨p, q, h2⟩, hpair⟩
  · exact (worstSeconds_of_within H h).trans (le_max_left _ _)
  · refine le_trans (worstSeconds_mono H fun k => ?_) (le_max_right _ _)
    have hk := spent_le (h1.trans h2) k
    have hstop := h1 .stop
    have hdrain := h1 .drain
    unfold Paired at hpair
    cases k <;> simp [replica, retire, once, spent] at hk hstop hdrain ⊢ <;> omega

/-- The numbers for which no pipeline can outlive its lock: at most three replicas, health gates that
leave room for them, and few enough instances and images to take out. -/
def FitsLock (H n live drained pruned : ℕ) : Prop :=
  (n ≤ 1 ∧ H ≤ 420 ∨ n = 2 ∧ H ≤ 135 ∨ n = 3 ∧ H ≤ 15) ∧ live ≤ n + 26 ∧
    n * (180 + H) + (if 0 < drained then 15 + 45 * drained else 0) + 90 * pruned ≤ 720

theorem seconds_le_stale (n : ℕ) : seconds n ≤ staleLockAfter ↔ n ≤ 1200 := by
  have h : (n : ℤ) * 1000000 ≤ 20 * 60 * 1000000 ↔ n ≤ 1200 := by omega
  exact h

theorem scaleWait_fits (H live target : ℕ) :
    scaleWait H live target ≤ 1200 ↔ (target - live) * (180 + H) ≤ 1200 ∧ live ≤ target + 26 := by
  rw [scaleWait_eq]
  split_ifs with hdown
  · rw [Nat.sub_eq_zero_of_le hdown.le, zero_mul]
    omega
  · omega

theorem fitsLock_iff (H n live drained pruned : ℕ) :
    (scaleWait H live n ≤ 1200 ∧ switchWait H n drained pruned ≤ 1200 ∧ healWait H ≤ 1200) ↔
      FitsLock H n live drained pruned := by
  rw [scaleWait_fits, switchWait_eq, healWait_eq, FitsLock]
  have hup : (n - live) * (180 + H) ≤ n * (180 + H) := Nat.mul_le_mul_right _ (Nat.sub_le n live)
  generalize (if 0 < drained then 15 + 45 * drained else 0) = drain
  -- four replicas alone take up the whole time
  rcases n with _ | _ | _ | _ | n
  · omega
  · omega
  · omega
  · omega
  · have hfour : 4 * (180 + H) ≤ (n + 1 + 1 + 1 + 1) * (180 + H) := Nat.mul_le_mul_right _ (by omega)
    omega

/-- The worst cases of the three pipelines, with `n` replicas wanted, `live` there before, and `drained`
instances and `pruned` images taken out by a switch, end before the lock counts as abandoned exactly when
the numbers fit; and every run stays within its worst case. -/
theorem waits_fit_lock_iff (c : HealerYaml) (n live drained pruned : ℕ) :
    ((seconds (scaleWait c.health.gateSeconds live n) ≤ staleLockAfter ∧
        seconds (switchWait c.health.gateSeconds n drained pruned) ≤ staleLockAfter ∧
        seconds (healWait c.health.gateSeconds) ≤ staleLockAfter) ↔
      FitsLock c.health.gateSeconds n live drained pruned) ∧
    (∀ o d dep w, worstSeconds c.health.gateSeconds (spent w (scaleBody o d dep w).2) ≤
      scaleWait c.health.gateSeconds w.db.liveInstances.length dep.instanceCount) ∧
    (∀ o d dep w, worstSeconds c.health.gateSeconds (spent w (switchBody o d dep w).2) ≤
      switchWait c.health.gateSeconds dep.instanceCount (spent w (switchBody o d dep w).2 .drain)
        (spent w (switchBody o d dep w).2 .cleanup)) ∧
    ∀ o hc i w, worstSeconds c.health.gateSeconds (spent w (handleUnhealthyInstance o hc i w).2) ≤
      healWait c.health.gateSeconds := by
  refine ⟨?_, fun o d dep w => ?_, fun o d dep w => ?_, fun o hc i w => ?_⟩
  · rw [seconds_le_stale, seconds_le_stale, seconds_le_stale]
    exact fitsLock_iff _ n live drained pruned
  · exact worstSeconds_of_within _ (scaleBody_costs o d dep w)
  · exact switched_within (switchBody_costs o d dep w) _
  · exact worstSeconds_of_within _ (costs_handleUnhealthyInstance o hc i w)

/-- A release of five replicas, all of which start and pass their gate: at their longest the waits take
more than 25 minutes. -/
theorem five_replicas_outlive_lock :
    (Sample.config none).replicas.min ≤ 5 ∧ 5 ≤ (Sample.config none).replicas.max ∧
      (Sample.world none [] 5).db.application.config = some (Sample.config none) ∧
      (switchBody Sample.allWell 0 (Sample.deployment 5) (Sample.world none [] 5)).1.isOk = true ∧
      worstSeconds (Sample.config none).health.gateSeconds (spent (Sample.world none [] 5)
        (switchBody Sample.allWell 0 (Sample.deployment 5) (Sample.world none [] 5)).2) = 1530 ∧
      staleLockAfter < seconds 1530 := by
  refine ⟨by decide, by decide, rfl, by decide +kernel, by decide +kernel, by decide⟩

end Healer
