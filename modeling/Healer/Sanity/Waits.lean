import Healer.Lib.Cost
import Healer.Sanity.Replica
import Healer.Spec.Healing

/-! How often a pipeline waits. Each command it submits and each health gate it goes through is in the
trace, and so is each instance it sets DRAINING; the bounds below hold for every run. -/

namespace Healer

open Prog List

/-- What a pipeline waits for. `abort` is the stop of an instance that was never routed to, and `drain`
counts the instances that are set DRAINING. -/
inductive Wait
  | build | start | stop | abort | cleanup | gate | drain
  deriving DecidableEq

def CommandKey.wait : CommandKey → Wait
  | .deployRelease _ => .build
  | .startInstance _ | .restartInstance _ _ | .manualRestart _ => .start
  | .stopInstance _ | .manualStop _ => .stop
  | .abortStopInstance _ => .abort
  | .cleanupImage _ => .cleanup

def Event.wait : Event → Option Wait
  | .submitted _ key _ => some key.wait
  | .healthGate _ _ | .probeRaised _ => some .gate
  | .instanceTransition _ _ .draining => some .drain
  | _ => none

/-- How often the run so far has waited for `k`. -/
def World.count (k : Wait) (w : World) : ℕ := w.trace.countP fun e => e.event.wait == some k

abbrev Costs (b : Wait → ℕ) {α : Type} (m : M α) : Prop := Spends World.count b m

/-- One wait for `k`. -/
def once (k j : Wait) : ℕ := if k = j then 1 else 0

section Primitives

theorem count_emit (k : Wait) (w : World) (e : Event) :
    (w.emit e).count k = w.count k + if e.wait == some k then 1 else 0 := by
  rw [World.count, World.emit, countP_append, countP_singleton]
  rfl

theorem costs_emit {e : Event} {k : Wait} (he : e.wait = some k) : Costs (once k) (emit e) := by
  intro w j
  show w.count j ≤ (w.emit e).count j ∧ (w.emit e).count j ≤ w.count j + once k j
  rw [count_emit, he]
  simp [once]

theorem free_emit {e : Event} (he : e.wait = none) : Costs 0 (emit e) := by
  refine fun w => within_of_eq fun j => ?_
  show (w.emit e).count j = w.count j
  rw [count_emit, he]
  simp

theorem free_commit : Costs 0 commit := free_emit rfl

theorem free_modifyDb (f : Db → Db) : Costs 0 (modifyDb f) :=
  fun _ => within_of_eq fun _ => rfl

theorem free_modifyInstance (i : InstanceId) (f : Instance → Instance) : Costs 0 (modifyInstance i f) :=
  free_modifyDb _

variable {w w' : World}

theorem free_of_calm (h : Calm w w') : Within World.count 0 w w' := by
  obtain ⟨es, hes, hback⟩ := h.news.entries
  refine within_of_eq fun k => ?_
  have hnone : es.countP (fun e => e.event.wait == some k) = 0 := by
    rw [countP_eq_zero]
    intro e he
    have hb := hback e he
    unfold Entry.background at hb
    cases hev : e.event <;> rw [hev] at hb <;> first | exact hb.elim | simp [Event.wait]
  rw [World.count, World.count, hes, countP_append, hnone, add_zero]

/-- A call that only leaves background events. -/
theorem free_of_spec {α : Type} {m : M α}
    (h : ∀ w, Ends (m w) (fun _ => Calm w) fun _ => Calm w) : Costs 0 m :=
  fun w => free_of_calm (h w).state

theorem free_suspend (o : Oracle) : Costs 0 (suspend o) := fun w => free_of_calm (calm_suspend o w)

theorem free_getInstance (i : InstanceId) : Costs 0 (getInstance i) := by
  refine free_bind (spends_read _) fun db => ?_
  cases db.instances.row i with
  | none => exact spends_raise _
  | some inst => exact spends_pure _

theorem free_getRelease (r : ReleaseId) : Costs 0 (getRelease r) := by
  refine free_bind (spends_read _) fun db => ?_
  cases db.releases.row r with
  | none => exact spends_raise _
  | some rel => exact spends_pure _

theorem free_config : Costs 0 configFromApplication := by
  refine free_bind (spends_read _) fun db => ?_
  cases db.application.config with
  | none => exact spends_raise _
  | some c => exact spends_pure _

theorem costs_transition {b : Wait → ℕ} (i : InstanceId) (target : InstanceStatus)
    (hb : ∀ st, Costs b (emit (.instanceTransition i st target))) : Costs b (transition i target) := by
  refine free_bind (spends_read _) fun db => ?_
  cases db.instances.row i with
  | none => exact spends_raise _
  | some inst =>
    refine bind_free (hb inst.status) fun _ => ?_
    exact spends_ite (fun _ => free_modifyDb _) fun _ => spends_raise _

theorem free_transition (i : InstanceId) {target : InstanceStatus} (ht : target ≠ .draining) :
    Costs 0 (transition i target) := by
  refine costs_transition i target fun st => free_emit ?_
  cases target <;> first | rfl | exact absurd rfl ht

theorem costs_drain (i : InstanceId) : Costs (once .drain) (transition i .draining) :=
  costs_transition i .draining fun _ => costs_emit rfl

theorem free_settle (i : InstanceId) {target : InstanceStatus} (ht : target ≠ .draining) :
    Costs 0 (settle i target) :=
  free_bind (free_transition i ht) fun _ => free_commit

theorem free_transitionDeployment (d : DeploymentId) (target : DeploymentStatus) :
    Costs 0 (transitionDeployment d target) := by
  refine free_bind (spends_read _) fun db => ?_
  cases db.deployments.row d with
  | none => exact spends_raise _
  | some dep =>
    refine free_bind (free_emit rfl) fun _ => ?_
    exact spends_ite (fun _ => free_modifyDb _) fun _ => spends_raise _

theorem free_setActive (r : Option ReleaseId) : Costs 0 (setActive r) :=
  free_bind (free_emit rfl) fun _ => free_bind (free_modifyDb _) fun _ => free_commit

theorem free_log (d : DeploymentId) (level : LogLevel) (message : String) : Costs 0 (log d level message) :=
  free_bind (free_modifyDb _) fun _ => free_commit

theorem free_persistInstance (d : DeploymentId) (row : AgentCommand) (port : ℕ) :
    Costs 0 (persistInstanceCommandOutcome d row port) :=
  free_of_spec fun w => (persistInstance_spec d row port w).mono (fun _ _ h => h.2) fun _ _ h => h.elim

theorem free_persistAgent (d : DeploymentId) (row : AgentCommand) : Costs 0 (persistAgentOutcome d row) :=
  free_of_spec fun w => (persistAgent_spec d row w).mono (fun _ _ h => h.2) fun _ _ h => h.elim

theorem free_syncGateway (o : Oracle) : Costs 0 (syncGateway o) := by
  refine free_bind (spends_read _) fun payload => ?_
  refine free_bind (spends_read _) fun delivery => ?_
  refine free_bind (free_emit rfl) fun _ => ?_
  refine free_bind (fun _ => within_of_eq fun _ => rfl) fun _ => ?_
  refine free_bind (free_suspend o) fun _ => ?_
  refine free_bind (free_emit rfl) fun _ => ?_
  exact free_bind free_commit fun _ => spends_pure _

theorem free_syncIfDomain (o : Oracle) (c : HealerYaml) : Costs 0 (syncIfDomain o c) :=
  spends_ite (fun _ => free_bind (free_syncGateway o) fun _ => spends_pure _)
    fun _ => spends_pure _

theorem free_tryPorts (o : Oracle) (r : ReleaseId) (s : ServerId) (ports : List ℕ) :
    Costs 0 (tryPorts o r s ports) := by
  induction ports with
  | nil => exact spends_pure _
  | cons port ports ih =>
    refine free_bind (spends_read _) fun db => ?_
    refine spends_ite (fun _ => free_bind (free_emit rfl) fun _ => spends_raise _) fun _ => ?_
    refine spends_ite (fun _ => ih) fun _ => ?_
    refine free_bind (spends_read _) fun t => ?_
    exact free_bind (free_modifyDb _) fun _ => spends_pure _

theorem free_allocateInstance (o : Oracle) (r : ReleaseId) (s : ServerId) (lo hi : ℕ) :
    Costs 0 (allocateInstance o r s lo hi) := by
  refine free_bind (free_tryPorts o r s _) fun found => ?_
  cases found with
  | none => exact spends_raise _
  | some i => exact spends_pure _

end Primitives

/-! ## Commands and gates -/

section Calls

variable (o : Oracle)

theorem costs_submit (agent : ServerId) (key : CommandKey) (command : Command) :
    Costs (once key.wait) (submitCommandAndWait o agent key command) := by
  refine free_bind free_commit fun _ => ?_
  refine bind_free (costs_emit rfl) fun _ => ?_
  refine free_bind (free_suspend o) fun _ => ?_
  cases o.reply key with
  | row c => exact free_bind (free_emit rfl) fun _ => spends_pure _
  | sendFailed error => exact free_bind (free_emit rfl) fun _ => spends_raise _

theorem costs_submitStart (agent : ServerId) (key : CommandKey) (r : ReleaseId) (i : InstanceId)
    (c : HealerYaml) : Costs (once key.wait) (submitStart o agent key r i c) :=
  free_bind (free_getRelease r) fun _ =>
    free_bind (free_getInstance i) fun _ => costs_submit o _ _ _

theorem costs_submitStop (agent : ServerId) (key : CommandKey) (i : InstanceId) (c : HealerYaml) :
    Costs (once key.wait) (submitStop o agent key i c) :=
  free_bind (free_getInstance i) fun _ => costs_submit o _ _ _

/-- A gate is counted when it ends, with a verdict or with the exception of a probe. -/
theorem costs_waitUntilHealthy (hc : HealthCheck) (i : InstanceId) (host : String) (port : ℕ) :
    Costs (once .gate) (waitUntilHealthy o hc i host port) := by
  have hend : ∀ {w v : World} {e : Event}, Calm w v → e.wait = some .gate →
      Within World.count (once .gate) w (v.emit e) := by
    intro w v e hv he k
    obtain ⟨hle, hge⟩ := free_of_calm hv k
    obtain ⟨hle', hge'⟩ := costs_emit he v k
    exact ⟨hle.trans hle', hge'.trans (Nat.add_le_add_right hge _)⟩
  refine free_bind (spends_read _) fun hc' w => ?_
  refine ((waitLoop_spec o i host port _ hc' 0 0 0 w).bind (fun healthy v hv => ?_) ?_).state
  · exact hend hv rfl
  · rintro _ _ ⟨v, hv, rfl⟩
    exact hend hv rfl

/-- One start command and one health gate. -/
def replica : Wait → ℕ := once .start + once .gate

theorem costs_launch (L : Site) : Costs replica (launch o L) := by
  refine free_bind (spends_attempt (free_allocateInstance o _ _ _ _)) fun found => ?_
  cases found with
  | error e =>
    cases e with
    | deploymentSetup message =>
      exact (bind_free (free_log _ _ _) fun _ => spends_pure _).mono fun _ => Nat.zero_le _
    | _ => exact spends_raise _
  | ok i =>
    refine free_bind (free_modifyInstance i _) fun _ => ?_
    refine free_bind (free_transition i InstanceStatus.noConfusion) fun _ => ?_
    refine free_bind free_commit fun _ => ?_
    refine spends_bind (costs_submitStart o _ _ _ _ _) fun row => ?_
    refine free_bind (free_getInstance i) fun inst => ?_
    refine free_bind (free_persistInstance _ _ _) fun startOk => ?_
    refine spends_ite (fun _ => spends_pure _) fun _ => ?_
    rcases L.healthCheck with _ | hc
    · exact spends_pure _
    rcases L.host with _ | host
    · exact spends_pure _
    refine bind_free (costs_waitUntilHealthy o _ _ _ _) fun healthy => ?_
    refine spends_ite (fun _ => spends_pure _) fun _ => ?_
    exact free_bind (free_log _ _ _) fun _ => spends_pure _

theorem costs_stopAndSettle (d : DeploymentId) (agent : ServerId) (key : InstanceId → CommandKey)
    (c : HealerYaml) (i : InstanceId) : Costs (once (key i).wait) (stopAndSettle o d agent key c i) := by
  refine bind_free (costs_submitStop o _ _ _ _) fun row => ?_
  refine free_bind (free_getInstance i) fun inst => ?_
  refine free_bind (free_persistInstance _ _ _) fun ok => ?_
  have hsettled : stopStatus ok ≠ .draining := by cases ok <;> exact InstanceStatus.noConfusion
  refine free_bind (free_transition i hsettled) fun _ => ?_
  exact free_bind free_commit fun _ => spends_pure _

theorem costs_stopInstances (d : DeploymentId) (agent : ServerId) (c : HealerYaml) (is : List InstanceId) :
    Costs (is.length • once .abort) (stopInstances o d agent c is) :=
  spends_each (fun i => bind_free (costs_stopAndSettle o d agent .abortStopInstance c i) fun _ =>
    spends_pure ()) is

end Calls

/-! ## Scale -/

section Scale

variable (o : Oracle)

theorem costs_scaleUp (L : Site) (n : ℕ) : ∀ overallOk, Costs (n • replica) (scaleUp o L n overallOk) := by
  induction n with
  | zero => exact fun _ => spends_pure _
  | succ n ih =>
    intro overallOk
    rw [succ_nsmul']
    refine spends_bind (costs_launch o L) fun res => ?_
    cases res with
    | noPort => exact spends_pure _
    | startFailed i =>
      exact free_bind (free_settle i InstanceStatus.noConfusion) fun _ => ih false
    | healthy i =>
      exact free_bind (free_settle i InstanceStatus.noConfusion) fun _ => ih overallOk
    | unhealthy i =>
      exact free_bind (free_settle i InstanceStatus.noConfusion) fun _ => ih false

theorem costs_stopDrained (d : DeploymentId) (agent : ServerId) (c : HealerYaml) (is : List InstanceId) :
    ∀ overallOk, Costs (is.length • once .stop) (stopDrained o d agent c is overallOk) := by
  induction is with
  | nil => exact fun _ => spends_pure _
  | cons i is ih =>
    intro overallOk
    rw [length_cons, succ_nsmul']
    exact spends_bind (costs_stopAndSettle o d agent _ c i) fun ok => ih (overallOk && ok)

/-- A stop command and a DRAINING mark for each instance. -/
def retire : Wait → ℕ := once .drain + once .stop

theorem length_toDrain (db : Db) (live : List InstanceId) (count : ℕ) :
    (db.toDrain live count).length ≤ count := by
  unfold Db.toDrain
  exact length_take_le _ _

theorem costs_scaleDown (d : DeploymentId) (agent : ServerId) (c : HealerYaml) (live : List InstanceId)
    (count : ℕ) : Costs (count • retire) (scaleDown o d agent c live count) := by
  refine free_bind (spends_read _) fun db => ?_
  have hmark : ∀ i, Costs (once .drain) (markDraining d i) := fun i =>
    free_bind (free_modifyInstance i _) fun _ => costs_drain i
  have hrest : Costs ((db.toDrain live count).length • once .drain +
      (db.toDrain live count).length • once .stop) (do
        Prog.each (markDraining d) (db.toDrain live count)
        commit
        syncIfDomain o c
        suspend o
        stopDrained o d agent c (db.toDrain live count) true) := by
    refine spends_bind (spends_each hmark _) fun _ => ?_
    refine free_bind free_commit fun _ => ?_
    refine free_bind (free_syncIfDomain o c) fun _ => ?_
    refine free_bind (free_suspend o) fun _ => ?_
    exact costs_stopDrained o d agent c _ true
  refine hrest.mono fun k => ?_
  rw [← nsmul_add, Pi.smul_apply, Pi.smul_apply, smul_eq_mul, smul_eq_mul]
  exact Nat.mul_le_mul_right _ (length_toDrain db live count)

theorem free_finishScale (d : DeploymentId) (c : HealerYaml) (ok : Bool) : Costs 0 (finishScale o d c ok) := by
  refine free_bind (spends_ite (fun _ => ?_) fun _ => spends_pure _) fun _ =>
    free_bind (free_transitionDeployment _ _) fun _ => free_commit
  refine free_bind (free_syncGateway o) fun result => ?_
  exact spends_ite (fun _ => free_log _ _ _) fun _ => spends_pure _

/-- From `live` instances to `target`: replicas are started, or instances retired. -/
def scaleCost (live target : ℕ) : Wait → ℕ := (target - live) • replica + (live - target) • retire

theorem scaleBody_costs (d : DeploymentId) (dep : Deployment) (w : World) :
    Within World.count (scaleCost w.db.liveInstances.length dep.instanceCount) w (scaleBody o d dep w).2 := by
  have hlog : ∀ {b} message, Costs b (do
      log d .error message
      transitionDeployment d .failed
      commit : M Unit) := fun message =>
    (free_bind (free_log _ _ _) fun _ =>
      free_bind (free_transitionDeployment _ _) fun _ => free_commit).mono fun _ => Nat.zero_le _
  unfold scaleBody
  rw [getDb, run_read_bind]
  rcases w.db.releases.row dep.releaseId with _ | rel
  · exact Within.refl w
  rcases w.db.application.serverId with _ | s
  · exact hlog _ w
  rcases w.db.application.portRangeStart with _ | lo
  · exact hlog _ w
  rcases w.db.application.portRangeEnd with _ | hi
  · exact hlog _ w
  refine free_bind free_config (fun c => ?_) w
  refine spends_ite (fun _ => hlog _) fun _ => ?_
  refine spends_ite (fun hup => ?_) fun _ => spends_ite (fun hdown => ?_) fun _ => ?_
  · rw [scaleCost, Nat.sub_eq_zero_of_le hup.le, zero_nsmul, add_zero]
    exact bind_free (costs_scaleUp o _ _ _) fun ok => free_finishScale o d c ok
  · rw [scaleCost, Nat.sub_eq_zero_of_le hdown.le, zero_nsmul, zero_add]
    exact bind_free (costs_scaleDown o d _ c _ _) fun ok => free_finishScale o d c ok
  · exact (free_finishScale o d c true).mono fun _ => Nat.zero_le _

end Scale

/-! ## Self-healing -/

section Healing

variable (o : Oracle) (hc : HealthCheck) (c : HealerYaml) (agent : ServerId) (r : ReleaseId)
  (host : Option String) (i : InstanceId)

theorem free_logAudit (action : Instance → AuditAction) : Costs 0 (logAudit i action) :=
  free_bind (free_getInstance i) fun _ =>
    free_bind (free_modifyDb _) fun _ => free_commit

theorem free_giveUp (reason : String) : Costs 0 (giveUp i reason) := by
  refine free_bind (free_modifyInstance i _) fun _ => ?_
  refine free_bind (free_getInstance i) fun inst => ?_
  refine free_bind (spends_ite (fun _ => spends_pure _) fun _ =>
    free_transition i InstanceStatus.noConfusion) fun _ => ?_
  refine free_bind free_commit fun _ => ?_
  refine free_bind (free_logAudit i _) fun _ => ?_
  refine free_bind (free_getInstance i) fun _ => ?_
  exact free_bind (free_modifyDb _) fun _ => free_commit

theorem costs_startReplacement : Costs replica (startReplacement o hc c agent r host i) := by
  refine spends_bind (costs_submitStart o _ _ _ _ _) fun row => ?_
  have hlost : ∀ {b} target reason, target ≠ .draining →
      Costs b (do settle i target; giveUp i reason : M Unit) := fun target reason ht =>
    (free_bind (free_settle i ht) fun _ => free_giveUp i reason).mono fun _ => Nat.zero_le _
  refine spends_ite (fun _ => hlost _ _ InstanceStatus.noConfusion) fun _ => ?_
  refine free_bind (free_getInstance i) fun inst => ?_
  refine bind_free ?_ fun healthy => ?_
  · cases host with
    | none => exact spends_pure _
    | some name => exact costs_waitUntilHealthy o _ _ _ _
  · refine spends_ite (fun _ => hlost _ _ InstanceStatus.noConfusion) fun _ => ?_
    refine free_bind (free_settle i InstanceStatus.noConfusion) fun _ => ?_
    exact free_bind (free_logAudit i _) fun _ => free_syncIfDomain o c

theorem costs_replace : Costs replica (replace o hc c agent r host i) := by
  have hlost : ∀ reason, Costs replica (giveUp i reason) := fun reason =>
    (free_giveUp i reason).mono fun _ => Nat.zero_le _
  refine free_bind (spends_read _) fun db => ?_
  rcases db.application.portRangeStart with _ | lo
  · exact hlost _
  rcases db.application.portRangeEnd with _ | hi
  · exact hlost _
  refine free_bind (free_getInstance i) fun old => ?_
  refine free_bind (spends_attempt (free_allocateInstance o _ _ _ _)) fun found => ?_
  cases found with
  | error e =>
    cases e with
    | deploymentSetup exc => exact hlost _
    | _ => exact spends_raise _
  | ok j =>
    refine free_bind (free_modifyInstance j _) fun _ => ?_
    refine free_bind (free_settle j InstanceStatus.noConfusion) fun _ => ?_
    refine free_bind (free_getInstance j) fun _ => ?_
    exact free_bind (free_logAudit i _) fun _ => costs_startReplacement o hc c agent r host j

theorem costs_restartOrReplace : Costs (replica + replica) (restartOrReplace o hc c agent r host i) := by
  refine free_bind (free_settle i InstanceStatus.noConfusion) fun _ => ?_
  refine free_bind (free_logAudit i _) fun _ => ?_
  refine free_bind (free_getInstance i) fun inst => ?_
  rw [replica, add_assoc]
  refine spends_bind (costs_submitStart o _ _ _ _ _) fun row => ?_
  refine spends_bind ?_ fun healthy => ?_
  · rcases row.ok with _ | _
    · exact spends_pure _
    rcases host with _ | name
    · exact spends_pure _
    exact costs_waitUntilHealthy o _ _ _ _
  · refine spends_ite (fun _ => ?_) fun _ => ?_
    · refine Spends.mono ?_ fun _ => Nat.zero_le _
      refine free_bind (free_transition i InstanceStatus.noConfusion) fun _ => ?_
      refine free_bind (free_modifyInstance i _) fun _ => ?_
      refine free_bind free_commit fun _ => ?_
      exact free_bind (free_logAudit i _) fun _ => free_syncIfDomain o c
    · refine free_bind (free_modifyInstance i _) fun _ => ?_
      refine free_bind (free_settle i InstanceStatus.noConfusion) fun _ => ?_
      exact free_bind (free_logAudit i _) fun _ => costs_replace o hc c agent r host i

theorem costs_handleUnhealthyInstance : Costs (replica + replica) (handleUnhealthyInstance o hc i) := by
  have hlost : ∀ reason, Costs (replica + replica) (giveUp i reason) := fun reason =>
    (free_giveUp i reason).mono fun _ => Nat.zero_le _
  refine free_bind free_config fun c => ?_
  refine free_bind (free_getInstance i) fun inst => ?_
  refine free_bind (spends_read _) fun db => ?_
  refine free_bind (spends_ite (fun _ => free_settle i InstanceStatus.noConfusion) fun _ =>
    spends_pure _) fun _ => ?_
  refine free_bind (free_logAudit i _) fun _ => ?_
  refine free_bind (free_syncIfDomain o c) fun _ => ?_
  refine free_bind (free_getInstance i) fun inst' => ?_
  refine free_bind (spends_read _) fun hc' => ?_
  refine free_bind (spends_read _) fun t => ?_
  refine spends_ite (fun _ => hlost _) fun _ => ?_
  refine spends_ite (fun _ => spends_pure _) fun _ => ?_
  refine spends_ite (fun _ => hlost _) fun _ => ?_
  refine free_bind (free_modifyInstance i _) fun _ => ?_
  refine free_bind free_commit fun _ => ?_
  refine free_bind (spends_read _) fun db' => ?_
  cases inst'.releaseId.filter fun r => (db'.releases.row r).isSome with
  | none => exact hlost _
  | some r => exact costs_restartOrReplace o _ c _ r _ i

end Healing

/-! ## Release switch -/

variable {w w' : World}

section Switch

variable (o : Oracle) (d : DeploymentId) (agent : ServerId) (c : HealerYaml)

theorem costs_buildRelease (r : ReleaseId) : Costs (once .build) (buildRelease o d r c agent) := by
  refine free_bind (free_modifyDb _) fun _ => ?_
  refine free_bind free_commit fun _ => ?_
  refine free_bind (free_getRelease r) fun rel => ?_
  refine free_bind (spends_read _) fun db => ?_
  refine bind_free (costs_submit o _ _ _) fun row => ?_
  refine free_bind (free_persistAgent _ _) fun ok => ?_
  refine free_bind (free_modifyDb _) fun _ => ?_
  exact free_bind free_commit fun _ => spends_pure _

theorem costs_fail (reason : String) (cleanupRelease : Option ReleaseId)
    (cleanup : Option (ServerId × HealerYaml × List InstanceId)) {n : ℕ}
    (hn : ∀ agent c is, cleanup = some (agent, c, is) → is.length = n) :
    Costs (n • once .abort) (fail o d reason cleanupRelease cleanup) := by
  refine bind_free ?_ fun _ => ?_
  · rcases cleanup with _ | ⟨agent, c, is⟩
    · exact spends_pure _
    · rw [← hn agent c is rfl]
      exact costs_stopInstances o d agent c is
  · refine free_bind ?_ fun _ => ?_
    · cases cleanupRelease with
      | none => exact spends_pure _
      | some r => exact free_modifyDb _
    · refine free_bind (free_modifyDb _) fun _ => ?_
      refine free_bind (free_log _ _ _) fun _ => ?_
      exact free_bind (free_transitionDeployment _ _) fun _ => free_commit

theorem free_fail (reason : String) (cleanupRelease : Option ReleaseId) :
    Costs 0 (fail o d reason cleanupRelease none) := by
  have h := costs_fail o d reason cleanupRelease none (n := 0) (fun _ _ _ h => by cases h)
  rwa [zero_nsmul] at h

/-- `n` replicas are started and at most `m` of them stopped again. -/
def aborted (n m : ℕ) : Wait → ℕ := n • replica + m • once .abort

theorem aborted_le {n n' m m' : ℕ} (hn : n ≤ n') (hm : m ≤ m') (k : Wait) :
    aborted n m k ≤ aborted n' m' k := by
  simp only [aborted, Pi.add_apply, Pi.smul_apply, smul_eq_mul]
  exact Nat.add_le_add (Nat.mul_le_mul_right _ hn) (Nat.mul_le_mul_right _ hm)

/-- How the gate ends: with all its replicas, or with those it started stopped. -/
def GateCost (n : ℕ) (started : List InstanceId) (w : World) (r : Option (List InstanceId)) (w' : World) :
    Prop :=
  (∃ new, r = some new ∧ new.length = started.length + n ∧ Within World.count (n • replica) w w') ∨
    (r = none ∧ Within World.count (aborted n (started.length + n)) w w')

/-- The gate gives up after one more try: the replicas started before are stopped. -/
theorem gate_abort_costs (L : Site) (n : ℕ) (started : List InstanceId) {m : M Unit} (hm : Costs 0 m)
    {w w1 : World} (h1 : Within World.count replica w w1) :
    Ends ((do m; stopInstances o L.deployment L.server L.config started; pure none :
        M (Option (List InstanceId))) w1) (GateCost (n + 1) started w)
      fun _ => Within World.count (aborted (n + 1) (started.length + (n + 1))) w := by
  have hle : ∀ w', Within World.count (started.length • once .abort) w1 w' →
      Within World.count (aborted (n + 1) (started.length + (n + 1))) w w' := by
    intro w' h
    have hone : Within World.count (1 • replica) w w1 := by rwa [one_nsmul]
    exact (hone.trans h).mono (aborted_le (Nat.le_add_left 1 n) (Nat.le_add_right _ _))
  refine ((hm.ends w1).bind (fun _ w2 h2 => ?_)) fun _ w2 h2 => hle w2 (h2.mono fun _ => Nat.zero_le _)
  refine ((costs_stopInstances o _ _ _ started).ends w2).bind (fun _ w3 h3 => ?_) fun _ w3 h3 => ?_
  · exact .inr ⟨rfl, hle w3 (h2.free_trans h3)⟩
  · exact hle w3 (h2.free_trans h3)

theorem gateLoop_costs (L : Site) (n : ℕ) : ∀ started w,
    Ends (gateLoop o L n started w) (GateCost n started w)
      fun _ => Within World.count (aborted n (started.length + n)) w := by
  induction n with
  | zero => exact fun started w => .inl ⟨started, rfl, rfl, Within.refl w⟩
  | succ n ih =>
    intro started w
    have hfirst : ∀ w1, Within World.count replica w w1 →
        Within World.count (aborted (n + 1) (started.length + (n + 1))) w w1 := by
      intro w1 h1
      refine h1.mono fun k => ?_
      rw [aborted, succ_nsmul', Pi.add_apply, Pi.add_apply, add_assoc]
      exact Nat.le_add_right _ _
    refine ((costs_launch o L).ends w).bind (fun res w1 h1 => ?_) fun e w1 h1 => ?_
    · cases res with
      | noPort => exact gate_abort_costs o L n started (spends_pure ()) h1
      | startFailed i => exact gate_abort_costs o L n started (free_settle i InstanceStatus.noConfusion) h1
      | unhealthy i => exact gate_abort_costs o L n started (free_settle i InstanceStatus.noConfusion) h1
      | healthy i =>
        have hbound : ∀ k, (replica + aborted n ((started ++ [i]).length + n)) k ≤
            aborted (n + 1) (started.length + (n + 1)) k := by
          intro k
          rw [length_append, length_singleton, add_assoc, add_comm 1 n, aborted, aborted,
            ← add_assoc, succ_nsmul']
        refine ((free_settle i InstanceStatus.noConfusion).ends w1).bind (fun _ w2 h2 => ?_) fun _ w2 h2 => ?_
        · have h12 := h1.trans_free h2
          refine (ih (started ++ [i]) w2).mono (fun r w3 h3 => ?_) fun _ w3 h3 => (h12.trans h3).mono hbound
          rcases h3 with ⟨new, hr, hlen, h3⟩ | ⟨hr, h3⟩
          · refine .inl ⟨new, hr, ?_, ?_⟩
            · rw [hlen, length_append, length_singleton]
              omega
            · rw [succ_nsmul']
              exact h12.trans h3
          · exact .inr ⟨hr, (h12.trans h3).mono hbound⟩
        · exact hfirst w2 (h1.trans_free h2)
    · exact hfirst w1 h1

/-- Stop commands go only to instances that were set DRAINING first. -/
def Paired (w w' : World) : Prop :=
  w'.count .stop + w.count .drain ≤ w.count .stop + w'.count .drain

/-- The old release is taken out: `p` of its instances at most, and `q` images. -/
def Retired (w w' : World) : Prop :=
  (∃ p q : ℕ, Within World.count (p • retire + q • once .cleanup) w w') ∧ Paired w w'

theorem Retired.refl (w : World) : Retired w w := ⟨⟨0, 0, Within.refl w⟩, le_refl _⟩

theorem Retired.trans {w w' w'' : World} (h : Retired w w') (h' : Retired w' w'') : Retired w w'' := by
  obtain ⟨⟨p, q, h⟩, hp⟩ := h
  obtain ⟨⟨p', q', h'⟩, hp'⟩ := h'
  refine ⟨⟨p + p', q + q', (h.trans h').mono fun k => ?_⟩, ?_⟩
  · rw [add_nsmul, add_nsmul, add_add_add_comm]
  · unfold Paired at *
    omega

theorem retired_of_cleanups {q : ℕ} (h : Within World.count (q • once .cleanup) w w') :
    Retired w w' := by
  refine ⟨⟨0, q, by rwa [zero_nsmul, zero_add]⟩, ?_⟩
  have hstop := h .stop
  have hdrain := h .drain
  simp [once] at hstop hdrain
  unfold Paired
  omega

theorem retired_of_free (h : Within World.count 0 w w') : Retired w w' :=
  retired_of_cleanups (q := 0) (by rwa [zero_nsmul])

/-- An instance that is set DRAINING is counted. -/
theorem count_drain (i : InstanceId) (w : World) :
    Ends (transition i .draining w) (fun _ w' => w'.count .drain = w.count .drain + 1) fun _ _ => True := by
  unfold transition
  rw [getDb, run_read_bind]
  rcases w.db.instances.row i with _ | inst
  · trivial
  show Ends ((if _ then _ else _ : M Unit) (w.emit (.instanceTransition i inst.status .draining))) _ _
  rw [ends_ite]
  exact ⟨fun _ => count_emit .drain w _, fun _ => trivial⟩

theorem count_drains (is : List InstanceId) (w : World) :
    Ends (Prog.each (fun i => transition i .draining) is w)
      (fun _ w' => w'.count .drain = w.count .drain + is.length) fun _ _ => True := by
  have h := ends_each (f := fun i => transition i .draining)
    (I := fun xs w' => w'.count .drain + xs.length = w.count .drain + is.length) (E := fun _ _ => True)
    (fun i xs w' h => (count_drain i w').mono (fun _ w'' h' => by
      rw [length_cons] at h
      omega) fun _ _ _ => trivial) is w rfl
  exact h

theorem retired_of_marked {n : ℕ} (h : Within World.count (n • once .drain) w w') :
    Retired w w' := by
  refine ⟨⟨n, 0, h.mono fun k => ?_⟩, ?_⟩
  · rw [zero_nsmul, add_zero, retire, nsmul_add]
    exact Nat.le_add_right _ _
  · have hstop := h .stop
    have hdrain := h .drain
    simp [once] at hstop
    unfold Paired
    omega

theorem retired_of_stopped {n : ℕ} {w w1 w' : World} (h1 : Within World.count (n • once .drain) w w1)
    (hn : w1.count .drain = w.count .drain + n) (h2 : Within World.count (n • once .stop) w1 w') :
    Retired w w' := by
  refine ⟨⟨n, 0, (h1.trans h2).mono fun k => ?_⟩, ?_⟩
  · rw [zero_nsmul, add_zero, retire, nsmul_add]
  · have hstop := h1 .stop
    have hstop' := h2 .stop
    have hdrain := h2 .drain
    simp [once] at hstop hstop'
    unfold Paired
    omega

theorem drainOldRelease_costs (old : ReleaseId) (w : World) :
    Retired w (drainOldRelease o d agent old c w).2 := by
  apply Ends.state
  rw [drainOldRelease, getDb, run_read_bind, ends_ite]
  refine ⟨fun _ => Retired.refl w, fun _ => ?_⟩
  generalize w.db.instances.select (fun i => i.releaseId == some old && i.status == .running) = is
  have hmark := ((spends_each costs_drain is).ends w).and (count_drains is w)
  refine hmark.bind (fun _ w1 h1 => ?_) fun _ w1 h1 => ?_
  · have hrest : Costs (is.length • once .stop) (do
        commit
        suspend o
        Prog.each (fun i => do let _ ← stopAndSettle o d agent .stopInstance c i; pure ()) is) := by
      refine free_bind free_commit fun _ => ?_
      refine free_bind (free_suspend o) fun _ => ?_
      refine spends_each (fun i => ?_) is
      exact bind_free (costs_stopAndSettle o d agent .stopInstance c i) fun _ => spends_pure ()
    exact (hrest.ends w1).mono (fun _ w2 h2 => retired_of_stopped h1.1 h1.2 h2) fun _ w2 h2 =>
      retired_of_stopped h1.1 h1.2 h2
  · exact retired_of_marked h1.1

theorem costs_pruneLoop (rs : List ReleaseId) : ∀ pending,
    Costs (rs.length • once .cleanup) (pruneLoop o d agent c rs pending) := by
  induction rs with
  | nil =>
    exact fun pending => bind_free ((free_modifyDb _).mono fun _ => Nat.zero_le _) fun _ => free_commit
  | cons r rs ih =>
    intro pending
    have hskip : ∀ pending, Costs ((r :: rs).length • once .cleanup) (pruneLoop o d agent c rs pending) := by
      intro pending
      refine (ih pending).mono fun k => ?_
      rw [length_cons, succ_nsmul]
      exact Nat.le_add_right _ _
    refine free_bind (spends_read _) fun db => ?_
    refine spends_ite (fun _ => hskip pending) fun _ => ?_
    refine free_bind (free_getRelease r) fun rel => ?_
    refine spends_ite (fun _ => ?_) fun _ => hskip _
    refine spends_ite (fun _ => ?_) fun _ => ?_
    · refine free_bind (free_modifyDb _) fun _ => ?_
      exact free_bind (free_log _ _ _) fun _ => hskip []
    · refine free_bind (free_modifyDb _) fun _ => ?_
      rw [length_cons, succ_nsmul']
      refine spends_bind (spends_attempt (costs_submit o _ _ _)) fun found => ?_
      cases found with
      | ok row =>
        refine spends_ite (fun _ => ih [r]) fun _ => ?_
        exact free_bind (free_log _ _ _) fun _ => ih []
      | error e => exact free_bind (free_log _ _ _) fun _ => ih []

theorem finishSwitch_costs (old : Option ReleaseId) (w : World) :
    Retired w (finishSwitch o d agent c old w).2 := by
  have hrest : ∀ w1, Retired w1 ((do
      pruneOldReleases o d agent c
      transitionDeployment d .succeeded
      commit : M Unit) w1).2 := by
    intro w1
    rw [pruneOldReleases, getDb]
    have h := bind_free (costs_pruneLoop o d agent c w1.db.prunable []) fun _ =>
      free_bind (free_transitionDeployment d .succeeded) fun _ => free_commit
    exact retired_of_cleanups (h w1)
  cases old with
  | none => exact hrest w
  | some r =>
    apply Ends.state
    refine (ends_of_state (drainOldRelease_costs o d agent c r w)).bind (fun _ w1 h1 => ?_) fun _ _ h1 => h1
    exact (ends_of_state (hrest w1)).mono (fun _ _ h => h1.trans h) fun _ _ h => h1.trans h

/-- How a switch to `new` ends: the old release is taken out, or the gateway has refused and the new
instances are stopped. -/
theorem switchTo_costs (r : ReleaseId) (new : List InstanceId) (w : World) :
    Retired w (switchTo o d r agent c new w).2 ∨
      Within World.count (new.length • once .abort) w (switchTo o d r agent c new w).2 := by
  have hfinish : ∀ old w1, Within World.count 0 w w1 →
      Ends (finishSwitch o d agent c old w1)
        (fun _ w' => Retired w w' ∨ Within World.count (new.length • once .abort) w w')
        fun _ w' => Retired w w' ∨ Within World.count (new.length • once .abort) w w' :=
    fun old w1 h1 =>
      ends_of_state (.inl ((retired_of_free h1).trans (finishSwitch_costs o d agent c old w1)))
  refine Ends.state (P := fun w' => Retired w w' ∨ Within World.count (new.length • once .abort) w w') ?_
  rw [switchTo, run_read_bind]
  refine ((free_setActive (some r)).ends w).bind (fun _ w1 h1 => ?_) fun _ w1 h1 => .inl (retired_of_free h1)
  rw [ends_ite]
  refine ⟨fun _ => ?_, fun _ => hfinish _ w1 h1⟩
  refine ((free_syncGateway o).ends w1).bind (fun result w2 h2 => ?_) fun _ w2 h2 =>
    .inl (retired_of_free (h1.trans h2))
  rw [ends_ite]
  refine ⟨fun _ => hfinish _ w2 (h1.trans h2), fun _ => ends_of_state (.inr ?_)⟩
  have hfail : ∀ reason, Costs (new.length • once .abort) (do
      setActive w.db.application.activeReleaseId
      fail o d reason (some r) (some (agent, c, new))) := by
    intro reason
    refine free_bind (free_setActive _) fun _ => costs_fail o d reason _ _ fun _ _ _ h => ?_
    cases h
    rfl
  exact (h1.free_trans h2).free_trans (hfail _ w2)

/-- What a release switch of `n` replicas waits for. -/
def Switched (n : ℕ) (w w' : World) : Prop :=
  Within World.count (once .build + aborted n n) w w' ∨
    ∃ w1, Within World.count (once .build + n • replica) w w1 ∧ Retired w1 w'

theorem switched_of_build {n : ℕ} (h : Within World.count (once .build) w w') :
    Switched n w w' :=
  .inl (h.mono fun _ => Nat.le_add_right _ _)

theorem gateAndSwitch_costs (dep : Deployment) (portStart portEnd : ℕ) {w w1 : World}
    (h : Within World.count (once .build) w w1) :
    Switched dep.instanceCount w (gateAndSwitch o d dep c agent portStart portEnd w1).2 := by
  apply Ends.state
  have hgate := gateLoop_costs o ⟨d, dep.releaseId, c, agent, portStart, portEnd, w1.db.healthCheck,
    (w1.db.servers agent).map Server.hostname⟩ dep.instanceCount [] w1
  rw [length_nil, zero_add] at hgate
  refine hgate.bind (fun res w2 h2 => ?_) fun _ w2 h2 => .inl (h.trans h2)
  rcases h2 with ⟨new, rfl, hlen, h2⟩ | ⟨rfl, h2⟩
  · rw [length_nil, zero_add] at hlen
    refine ends_of_state ?_
    rcases switchTo_costs o d agent c dep.releaseId new w2 with h3 | h3
    · exact .inr ⟨w2, h.trans h2, h3⟩
    · rw [hlen] at h3
      exact .inl (h.trans (h2.trans h3))
  · refine ends_of_state (.inl ?_)
    rw [length_nil, zero_add] at h2
    exact h.trans (h2.trans_free (free_fail o d _ _ w2))

theorem switchBody_costs (dep : Deployment) (w : World) :
    Switched dep.instanceCount w (switchBody o d dep w).2 := by
  have hfail : ∀ reason r w1, Within World.count (once .build) w w1 →
      Switched dep.instanceCount w (fail o d reason r none w1).2 :=
    fun reason r w1 h1 => switched_of_build (h1.trans_free (free_fail o d reason r w1))
  have hstill : ∀ {w1}, Within World.count 0 w w1 → Within World.count (once .build) w w1 :=
    fun h => h.mono fun _ => Nat.zero_le _
  unfold switchBody
  rw [getDb, run_read_bind]
  rcases w.db.releases.row dep.releaseId with _ | rel
  · exact switched_of_build (Within.refl w)
  rcases w.db.application.serverId with _ | s
  · exact hfail _ _ w (Within.refl w)
  rcases w.db.application.portRangeStart with _ | lo
  · exact hfail _ _ w (Within.refl w)
  rcases w.db.application.portRangeEnd with _ | hi
  · exact hfail _ _ w (Within.refl w)
  apply Ends.state
  refine (free_config.ends w).bind (fun c w1 h1 => ?_) fun _ w1 h1 => switched_of_build (hstill h1)
  rw [ends_ite]
  refine ⟨fun _ => ends_of_state (hfail _ _ w1 (hstill h1)), fun _ => ?_⟩
  have hbuild : Costs (once .build)
      (if dep.kind = .blueGreen then buildRelease o d dep.releaseId c s else pure true) :=
    spends_ite (fun _ => costs_buildRelease o d s c dep.releaseId) fun _ => spends_pure true
  refine (hbuild.ends w1).bind (fun built w2 h2 => ?_) fun _ w2 h2 => ?_
  · rw [ends_ite]
    exact ⟨fun _ => ends_of_state (hfail _ _ w2 (h1.free_trans h2)), fun _ =>
      ends_of_state (gateAndSwitch_costs o d s c dep lo hi (h1.free_trans h2))⟩
  · exact switched_of_build (h1.free_trans h2)

end Switch

end Healer
