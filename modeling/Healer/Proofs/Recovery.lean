import Healer.Sanity.Sample
import Healer.Spec.Reconcile

/-! What `reconcile_on_startup` leaves behind, from any rows a stopped process can have committed. -/

namespace Healer

open Prog Table Sample

/-- The deployment's row is IN_PROGRESS. -/
def Db.InProgress (db : Db) (d : DeploymentId) : Prop :=
  ∃ dep, db.deployments.row d = some dep ∧ dep.status = .inProgress

/-- The statuses that only a background task moves on. -/
def InstanceStatus.driven (st : InstanceStatus) : Bool := st == .pending || st.transient

/-- Nothing is left that waits for a task of the process that is gone. -/
structure Db.Recovered (db : Db) : Prop where
  deployments : ∀ d, ¬ db.InProgress d
  lock : db.application.operationLock = none
  instances : ∀ i, ¬ db.HasStatus InstanceStatus.driven i

/-- No instance is PENDING, and a lock that is held belongs to a deployment. -/
structure Db.Recoverable (db : Db) : Prop where
  instances : ∀ i, ¬ db.HasStatus (· == .pending) i
  lock : db.application.operationLock = none ∨ ∃ d, db.InProgress d

/-! ## One row -/

def Instance.stuck (inst : Instance) : Instance :=
  { inst with failureReason := some stuckInstanceReason, status := .failed }

def Deployment.stuck (dep : Deployment) : Deployment :=
  { dep with failureReason := some stuckDeploymentReason, status := .failed }

theorem reconcileInstance_spec {i : InstanceId} {w : World} (h : w.db.HasStatus InstanceStatus.transient i) :
    Ends (reconcileInstance i w)
      (fun _ w' => w'.db = { w.db with instances := w.db.instances.modify i Instance.stuck })
      fun _ _ => False := by
  obtain ⟨inst, hrow, htransient⟩ := h
  have hcan : canTransition instanceTransitions inst.status .failed = true := by
    cases hst : inst.status <;> rw [hst] at htransient <;> first | rfl | cases htransient
  simp only [reconcileInstance, setFailureReason, modifyInstance, transition, ends_bind, ends_modifyDb,
    ends_getDb, World.setDb, modify_row_self, hrow, Option.map_some, ends_emit, World.emit, hcan,
    if_true, modify_modify]
  rfl

theorem reconcileDeployment_spec {d : DeploymentId} {w : World} (h : w.db.InProgress d) :
    Ends (reconcileDeployment d w)
      (fun _ w' => w'.db = { w.db with
        application := w.db.application.forceRelease
        deployments := w.db.deployments.modify d Deployment.stuck
        logs := w.db.logs ++ [⟨d, .error, stuckDeploymentReason⟩] })
      fun _ _ => False := by
  obtain ⟨dep, hrow, hst⟩ := h
  have hcan : canTransition deploymentTransitions .inProgress .failed = true := rfl
  simp only [reconcileDeployment, addLog, transitionDeployment, LockService.forceRelease, ends_bind,
    ends_modifyDb, ends_getDb, World.setDb, modify_row_self, hrow, Option.map_some, ends_emit,
    World.emit, hst, hcan, if_true, modify_modify, ends_commit]
  rfl

/-! ## The sweeps -/

theorem reconcileStuckInstances_spec (w : World) :
    Ends (reconcileStuckInstances w)
      (fun _ w' => w'.db.application = w.db.application ∧ w'.db.deployments = w.db.deployments ∧
        (∀ i, w'.db.HasStatus (· == .pending) i ↔ w.db.HasStatus (· == .pending) i) ∧
        ∀ i, ¬ w'.db.HasStatus InstanceStatus.transient i)
      fun _ _ => False := by
  simp only [reconcileStuckInstances, ends_bind, ends_getDb]
  refine (ends_sweep (S := fun w' i => w'.db.HasStatus InstanceStatus.transient i)
    (P := fun w' => w'.db.application = w.db.application ∧ w'.db.deployments = w.db.deployments ∧
      ∀ i, w'.db.HasStatus (· == .pending) i ↔ w.db.HasStatus (· == .pending) i)
    ?_ (select_nodup _ _) ⟨rfl, rfl, fun _ => Iff.rfl⟩ fun i => ?_).mono ?_ fun _ _ h => h
  · rintro i w' ⟨happ, hdep, hpending⟩ hsel
    refine (reconcileInstance_spec hsel).mono (fun _ w'' heq => ?_) fun _ _ h => h
    rw [heq]
    refine ⟨⟨happ, hdep, fun j => Iff.trans ?_ (hpending j)⟩, fun j => modify_out_iff ?_ j⟩
    · refine modify_other_iff (fun _ h => by cases h) (fun inst hrow hpend => ?_) j
      obtain ⟨inst', hrow', htransient⟩ := hsel
      rw [hrow, Option.some.injEq] at hrow'
      rw [← hrow', beq_iff_eq.1 hpend] at htransient
      cases htransient
    · exact fun _ h => by cases h
  · exact mem_select.symm
  · rintro _ w' ⟨⟨happ, hdep, hpending⟩, hnone⟩
    exact ⟨happ, hdep, hpending, hnone⟩

theorem reconcileStuckDeployments_spec (w : World) :
    Ends (reconcileStuckDeployments w)
      (fun _ w' => w'.db.instances = w.db.instances ∧ (∀ d, ¬ w'.db.InProgress d) ∧
        (w'.db.application.operationLock = none ↔
          w.db.application.operationLock = none ∨ ∃ d, w.db.InProgress d))
      fun _ _ => False := by
  simp only [reconcileStuckDeployments, ends_bind, ends_getDb]
  -- the lock is as it was until the first deployment is closed
  refine (ends_sweep (S := fun w' d => w'.db.InProgress d)
    (P := fun w' => w'.db.instances = w.db.instances ∧
      (w'.db.application = w.db.application ∧ (∀ d, w'.db.InProgress d ↔ w.db.InProgress d) ∨
        w'.db.application.operationLock = none ∧ ∃ d, w.db.InProgress d))
    ?_ (select_nodup _ _) ⟨rfl, Or.inl ⟨rfl, fun _ => Iff.rfl⟩⟩ fun d => ?_).mono ?_ fun _ _ h => h
  · rintro d w' ⟨hinst, hlock⟩ hsel
    refine (reconcileDeployment_spec hsel).mono (fun _ w'' heq => ?_) fun _ _ h => h
    rw [heq]
    refine ⟨⟨hinst, Or.inr ⟨rfl, ?_⟩⟩, fun j => modify_out_iff (fun _ h => by cases h) j⟩
    rcases hlock with ⟨-, hsame⟩ | ⟨-, hsome⟩
    · exact ⟨d, (hsame d).1 hsel⟩
    · exact hsome
  · simp only [mem_select, beq_iff_eq]
    rfl
  · rintro _ w' ⟨⟨hinst, hlock⟩, hnone⟩
    refine ⟨hinst, hnone, ?_⟩
    rcases hlock with ⟨happ, hsame⟩ | ⟨hfree, hsome⟩
    · show w'.db.application.operationLock = none ↔ _
      rw [happ, or_iff_left]
      rintro ⟨d, hd⟩
      exact hnone d ((hsame d).2 hd)
    · exact ⟨fun _ => Or.inr hsome, fun _ => hfree⟩

theorem reconcileOnStartup_spec (w : World) :
    Ends (reconcileOnStartup w) (fun _ w' => w'.db.Recovered ↔ w.db.Recoverable) fun _ _ => False := by
  refine Ends.bind (reconcileStuckDeployments_spec w) (fun _ w1 h1 => ?_) fun _ _ h => h
  refine Ends.bind (reconcileStuckInstances_spec w1) (fun _ w2 h2 => ?_) fun _ _ h => h
  obtain ⟨hinst, hnone, hlock⟩ := h1
  obtain ⟨happ, hdep, hpending, htransient⟩ := h2
  have hpending' : ∀ i, w2.db.HasStatus (· == .pending) i ↔ w.db.HasStatus (· == .pending) i := by
    intro i
    rw [hpending]
    unfold Db.HasStatus
    rw [hinst]
  constructor
  · intro h
    refine ⟨fun i hi => h.instances i ?_, hlock.1 (happ ▸ h.lock)⟩
    obtain ⟨inst, hrow, hst⟩ := (hpending' i).2 hi
    exact ⟨inst, hrow, Bool.or_eq_true_iff.2 (Or.inl hst)⟩
  · intro h
    refine ⟨fun d => ?_, happ ▸ hlock.2 h.lock, fun i hi => ?_⟩
    · unfold Db.InProgress
      rw [hdep]
      exact hnone d
    · obtain ⟨inst, hrow, hst⟩ := hi
      rcases Bool.or_eq_true_iff.1 hst with hpend | htrans
      · exact h.instances i ((hpending' i).1 ⟨inst, hrow, hpend⟩)
      · exact htransient i ⟨inst, hrow, htrans⟩

/-- A process that starts on any committed rows recovers everything exactly if no instance is PENDING
and the lock is free or has an IN_PROGRESS deployment. -/
theorem restart_recovery_iff (w : World) :
    ∃ n w', reconcileOnStartup w = (.ok n, w') ∧ (w'.db.Recovered ↔ w.db.Recoverable) := by
  have h := reconcileOnStartup_spec w
  rcases hrun : reconcileOnStartup w with ⟨exn | n, w'⟩
  · rw [hrun] at h
    exact h.elim
  · rw [hrun] at h
    exact ⟨n, w', rfl, h⟩

/-- A process that is stopped and started again finds nothing left to do. -/
theorem restart_idempotent (w : World) : ∃ n w1 w2, reconcileOnStartup w = (.ok n, w1) ∧
    reconcileOnStartup w1 = (.ok 0, w2) ∧ w2.db = w1.db := by
  have h : Ends (reconcileOnStartup w) (fun _ w' => (∀ d, ¬ w'.db.InProgress d) ∧
      ∀ i, ¬ w'.db.HasStatus InstanceStatus.transient i) fun _ _ => False := by
    refine Ends.bind (reconcileStuckDeployments_spec w) (fun _ w1 h1 => ?_) fun _ _ h => h
    refine Ends.bind (reconcileStuckInstances_spec w1) (fun _ w2 h2 => ⟨fun d => ?_, h2.2.2.2⟩) fun _ _ h => h
    unfold Db.InProgress
    rw [h2.2.1]
    exact h1.2.1 d
  rcases hrun : reconcileOnStartup w with ⟨exn | n, w1⟩ <;> rw [hrun] at h
  · exact h.elim
  have hdeps : w1.db.deployments.select (fun dep => dep.status == .inProgress) = [] :=
    List.eq_nil_iff_forall_not_mem.2 fun d hd => h.1 d (by simpa [Db.InProgress] using mem_select.1 hd)
  have hinsts : (w1.emit .commit).db.instances.select (fun inst => inst.status.transient) = [] :=
    List.eq_nil_iff_forall_not_mem.2 fun i hi => h.2 i (mem_select.1 hi)
  have hfirst : reconcileStuckDeployments w1 = (.ok 0, w1.emit .commit) := by
    simp only [reconcileStuckDeployments, getDb, run_read_bind, hdeps]
    rfl
  refine ⟨n, w1, (w1.emit .commit).emit .commit, rfl, ?_, rfl⟩
  simp only [reconcileOnStartup, run_bind_ok hfirst, reconcileStuckInstances, getDb, bind_bind,
    run_read_bind, hinsts]
  rfl

/-! ## Crashes that leave something behind -/

/-- The next process, started on committed rows. -/
def restarted (db : Db) : World := ⟨db, ⟨none, []⟩, [], 0, 0, 0, []⟩

def Entry.committed (e : Entry) : Bool :=
  match e.event with
  | .commit => true
  | _ => false

theorem Entry.event_of_committed {e : Entry} (h : e.committed = true) : e.event = .commit := by
  unfold Entry.committed at h
  split at h
  · assumption
  · cases h

/-- One RUNNING instance, and no operation in progress. -/
def idle : World :=
  (Sample.scaling [instanceOf 0 8000 .running] 1).setDb
    { Sample.db none [instanceOf 0 8000 .running] 1 with
      application := { (Sample.db none [] 1).application with
        operationLock := none, operationLockAcquiredAt := none }
      deployments := Table.empty }

/-- After a crash in a manual restart the lock is still held, and after one in a first deployment its
instance is still PENDING. -/
theorem crash_leaves_lock_and_pending :
    (∃ e ∈ (idle.history [(allWell, .restart 0)]).trace, e.event = .commit ∧
        (reconcileOnStartup (restarted e.db)).2.db.application.operationLock = some "restart") ∧
      ∃ e ∈ (created.history [(allWell, .deploy)]).trace, e.event = .commit ∧
        (reconcileOnStartup (restarted e.db)).2.db.HasStatus (· == .pending) 0 := by
  have hlock : (idle.history [(allWell, .restart 0)]).trace.any (fun e => e.committed &&
      (reconcileOnStartup (restarted e.db)).2.db.application.operationLock == some "restart") = true := by
    decide +kernel
  have hpending : (created.history [(allWell, .deploy)]).trace.any (fun e => e.committed &&
      ((reconcileOnStartup (restarted e.db)).2.db.instances.row 0).any (·.status == .pending)) = true := by
    decide +kernel
  obtain ⟨e, he, h⟩ := List.any_eq_true.1 hlock
  obtain ⟨e', he', h'⟩ := List.any_eq_true.1 hpending
  rw [Bool.and_eq_true_iff] at h h'
  refine ⟨⟨e, he, Entry.event_of_committed h.1, beq_iff_eq.1 h.2⟩, e', he', Entry.event_of_committed h'.1, ?_⟩
  obtain ⟨inst, hrow, hst⟩ := (Option.any_eq_true _ _).1 h'.2
  exact ⟨inst, hrow, hst⟩

end Healer
