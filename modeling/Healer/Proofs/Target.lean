import Healer.Sanity.Batch
import Healer.Sanity.Sample

/-! The number of live instances that a scale operation leaves. On the way up each replica
adds one live instance or none, and a run in which all of them came up is the one that
succeeds. On the way down every instance of the batch ends STOPPED or FAILED, so the count is
met whatever the stop commands answer. -/

namespace Healer

open Prog Table Sample

/-! ## Up -/

def Core.liveCount (k : Core) : ℕ :=
  (k.instances.select fun inst => liveStatuses.contains inst.status).length

/-- From `k` to `k'` at most `n` live instances were added, and nothing else happened. -/
structure Grew (n : ℕ) (k k' : Core) : Prop where
  rest : k' = { k with instances := k'.instances }
  old : ∀ i inst, k.instances.row i = some inst → k'.instances.row i = some inst
  least : k.liveCount ≤ k'.liveCount
  most : k'.liveCount ≤ k.liveCount + n

/-- All of `n` replicas came up. -/
structure Full (n : ℕ) (k k' : Core) : Prop where
  count : k'.liveCount = k.liveCount + n
  running : ∀ i inst, k.instances.row i = none → k'.instances.row i = some inst →
    inst.status = .running

section Up

variable {o : Oracle} {L : Site} {n : ℕ} {k k' : Core} {inst : Instance} {w w' : World}
  {i : InstanceId}

theorem Grew.refl (n : ℕ) (k : Core) : Grew n k k :=
  ⟨rfl, fun _ _ h => h, Nat.le_refl _, Nat.le_add_right _ _⟩

theorem full_zero (k : Core) : Full 0 k k := by
  refine ⟨rfl, fun i inst hnone hrow => ?_⟩
  rw [hnone] at hrow
  cases hrow

theorem liveCount_insert (k : Core) (inst : Instance) :
    (k.insert inst).liveCount = k.liveCount + if liveStatuses.contains inst.status then 1 else 0 := by
  simp only [Core.liveCount, Core.insert, select_insert, List.length_append]
  split_ifs <;> rfl

theorem insert_row_old {j : InstanceId} {a : Instance} (h : k.instances.row j = some a) :
    (k.insert inst).instances.row j = some a :=
  (insert_row_of_ne _ _ (lt_of_row h).ne).trans h

theorem Grew.step (h : Grew n (k.insert inst) k') : Grew (n + 1) k k' := by
  have hleast := h.least
  have hmost := h.most
  rw [liveCount_insert] at hleast hmost
  refine ⟨h.rest, fun j a hrow => h.old j a (insert_row_old hrow), by omega, ?_⟩
  split_ifs at hmost <;> omega

theorem Full.step (hrunning : inst.status = .running) (hgrew : Grew n (k.insert inst) k')
    (h : Full n (k.insert inst) k') : Full (n + 1) k k' := by
  constructor
  · have hlive : liveStatuses.contains inst.status = true := by rw [hrunning]; rfl
    rw [h.count, liveCount_insert, if_pos hlive]
    omega
  · intro j a hnone hrow
    by_cases hj : j = k.instances.next
    · -- the new row is already RUNNING, and the rest of the loop keeps it
      subst hj
      have hnew := hgrew.old _ inst (insert_row_self _ _)
      rw [hnew, Option.some.injEq] at hrow
      rw [← hrow, hrunning]
    · exact h.running j a ((insert_row_of_ne _ _ hj).trans hnone) hrow

/-- A launched replica and its last status write are one insertion. -/
theorem settle_launched {healthy : Bool} {target : InstanceStatus}
    (hl : Launched o L i inst healthy w w')
    (hcan : canTransition instanceTransitions .starting target = true) :
    Ends (settle i target w') (fun _ u => u.core = w.core.insert { inst with status := target })
      (fun _ _ => False) := by
  refine (settle_spec hl.row_self (by rw [hl.starting]; exact hcan)).mono (fun _ u hu => ?_)
    (fun _ _ h => h)
  rw [hu.1.core, hl.went.core, hl.fresh]
  exact Core.insert_setStatus w.core inst target

theorem scaleUp_grew {rel : Release} (n : ℕ) :
    ∀ (overallOk : Bool) (w : World), w.db.releases.row L.release = some rel →
      Ends (scaleUp o L n overallOk w)
        (fun ok w' => Grew n w.core w'.core ∧ (ok = true → overallOk = true ∧ Full n w.core w'.core))
        (fun _ _ => True) := by
  induction n with
  | zero =>
    intro overallOk w _
    exact ⟨Grew.refl 0 w.core, fun hok => ⟨hok, full_zero w.core⟩⟩
  | succ n ih =>
    intro overallOk w hrel
    -- a row that is settled leaves the releases alone, so the rest of the loop applies
    have hnext : ∀ {overallOk : Bool} {inst : Instance} {u : World}, u.core = w.core.insert inst →
        Ends (scaleUp o L n overallOk u)
          (fun ok w' => Grew n (w.core.insert inst) w'.core ∧
            (ok = true → overallOk = true ∧ Full n (w.core.insert inst) w'.core))
          (fun _ _ => True) := by
      intro overallOk inst u hu
      rw [← hu]
      exact ih overallOk u ((congrArg (fun k => k.releases.row L.release) hu).trans hrel)
    refine Ends.bind (launch_spec o L hrel) (fun r w1 h1 => ?_) (fun _ _ _ => trivial)
    cases r with
    | noPort =>
      have hcore : w1.core = w.core := h1.core
      refine ⟨?_, fun hok => by cases hok⟩
      rw [hcore]
      exact Grew.refl _ _
    | startFailed i =>
      obtain ⟨inst, row, hl, -⟩ := h1
      refine Ends.bind (settle_launched hl rfl) (fun _ u hu => ?_) (fun _ _ _ => trivial)
      refine (hnext hu).mono (fun ok w' h' => ?_) (fun _ _ h => h)
      exact ⟨h'.1.step, fun hok => by cases (h'.2 hok).1⟩
    | healthy i =>
      obtain ⟨inst, row, hl, -⟩ := h1
      refine Ends.bind (settle_launched hl rfl) (fun _ u hu => ?_) (fun _ _ _ => trivial)
      refine (hnext hu).mono (fun ok w' h' => ?_) (fun _ _ h => h)
      exact ⟨h'.1.step, fun hok => ⟨(h'.2 hok).1, (h'.2 hok).2.step rfl h'.1⟩⟩
    | unhealthy i =>
      -- STARTING → UNHEALTHY is not in the table, so this one does not return
      obtain ⟨inst, row, hl, -⟩ := h1
      refine Ends.bind (settle_refused hl.row_self (by rw [hl.starting]; rfl)) (fun _ _ h => h.elim) ?_
      exact fun _ _ _ => trivial

end Up

/-! ## The end of the run -/

section Close

variable {o : Oracle} {d : DeploymentId} {c : HealerYaml} {w : World}

/-- From `w` to `w'` the deployment `d` got its status and no instance changed. -/
structure Given (d : DeploymentId) (status : DeploymentStatus) (w w' : World) : Prop where
  instances : w'.db.instances = w.db.instances
  status : ∀ dep, w'.db.deployments.row d = some dep → dep.status = status

theorem given_close (d : DeploymentId) (status : DeploymentStatus) (w : World) :
    Ends ((do transitionDeployment d status; commit : M Unit) w) (fun _ => Given d status w)
      (fun _ _ => True) := by
  rcases hrow : w.db.deployments.row d with _ | dep
  · simp only [transitionDeployment, ends_bind, ends_getDb, hrow, ends_raise]
  · simp only [transitionDeployment, ends_bind, ends_getDb, hrow, ends_emit, ends_ite,
      ends_modifyDb, ends_raise, ends_commit, implies_true, and_true]
    refine fun _ => ⟨rfl, fun dep' hdep => ?_⟩
    change (w.db.deployments.modify d _).row d = some dep' at hdep
    rw [modify_row_self, hrow, Option.map_some, Option.some.injEq] at hdep
    rw [← hdep]

theorem Given.before {status : DeploymentStatus} {w' w'' : World} (h : Given d status w' w'')
    (hcore : w'.core = w.core) : Given d status w w'' :=
  ⟨h.instances.trans (congrArg Core.instances hcore), h.status⟩

theorem given_log (d : DeploymentId) (message : String) (w : World) :
    Ends ((do log d .error message; transitionDeployment d .failed; commit : M Unit) w)
      (fun _ => Given d .failed w) (fun _ _ => True) := by
  refine Ends.bind (log_spec d .error message w) (fun _ w' h' => ?_) (fun _ _ h => h.elim)
  exact (given_close d .failed w').mono (fun _ _ h => h.before h'.core) (fun _ _ h => h)

theorem given_finish (ok : Bool) (w : World) :
    Ends (finishScale o d c ok w) (fun _ => Given d (if ok then .succeeded else .failed) w)
      (fun _ _ => True) := by
  have hsync : Ends ((if ok && c.domain.isSome then reportedSync o d else pure () : M Unit) w)
      (fun _ w' => w'.core = w.core) (fun _ _ => False) := by
    rw [ends_ite]
    exact ⟨fun _ => (reportedSync_spec w).mono (fun _ _ h => h.1) (fun _ _ h => h), fun _ => rfl⟩
  refine Ends.bind hsync (fun _ w' hcore => ?_) (fun _ _ h => h.elim)
  exact (given_close d _ w').mono (fun _ _ h => h.before hcore) (fun _ _ h => h)

end Close

/-! ## The whole run -/

/-- `run_scale` gets as far as comparing the number of replicas with its target. -/
def Db.scalable (db : Db) (r : ReleaseId) : Prop :=
  (db.releases.row r).isSome ∧ db.application.portRangeStart.isSome ∧
    db.application.portRangeEnd.isSome ∧ ∃ s, db.application.serverId = some s ∧ (db.agent s).isSome

/-- What a scale operation for `dep` has made of `db` when its deployment ends with `status`. -/
structure TargetReached (dep : Deployment) (status : DeploymentStatus) (db db' : Db) : Prop where
  succeeded : status = .succeeded → db'.liveInstances.length = dep.instanceCount ∧
    ∀ i inst, db.instances.row i = none → db'.instances.row i = some inst → inst.status = .running
  /-- `_scale_down` was entered. -/
  shrunk : db.scalable dep.releaseId → dep.instanceCount < db.liveInstances.length →
    db'.liveInstances.length = dep.instanceCount ∧
    ∀ i ∈ db'.liveInstances, ∀ j ∈ db.liveInstances, j ∉ db'.liveInstances →
      db'.created i ≤ db.created j
  /-- `_scale_up` was entered. -/
  grown : db.scalable dep.releaseId → db.liveInstances.length < dep.instanceCount →
    status = .failed →
    db.liveInstances.length ≤ db'.liveInstances.length ∧ db'.liveInstances.length ≤ dep.instanceCount
  others : ∀ i inst, db.instances.row i = some inst → db'.instances.row i = some inst ∨
    dep.instanceCount < db.liveInstances.length ∧ i ∈ db.liveInstances ∧ i ∉ db'.liveInstances

section Run

variable {o : Oracle} {d : DeploymentId} {dep : Deployment} {status : DeploymentStatus} {db db' : Db}
  {w w' : World}

theorem liveInstances_congr (h : db'.instances = db.instances) : db'.liveInstances = db.liveInstances := by
  rw [Db.liveInstances, Db.liveInstances, h]

theorem TargetReached.same {db'' : Db} (h : TargetReached dep status db db')
    (hinst : db''.instances = db'.instances) : TargetReached dep status db db'' := by
  have hlive := liveInstances_congr hinst
  have hcreated : db''.created = db'.created := by
    funext i
    rw [Db.created, Db.created, hinst]
  refine ⟨?_, ?_, ?_, ?_⟩ <;> simp only [hlive, hinst, hcreated]
  exacts [h.succeeded, h.shrunk, h.grown, h.others]

/-- The run stopped before the comparison. -/
theorem targetReached_of_missing (hnot : ¬ db.scalable dep.releaseId) (h : db'.instances = db.instances) :
    TargetReached dep .failed db db' := by
  refine ⟨fun hst => ?_, fun hs => (hnot hs).elim, fun hs => (hnot hs).elim, fun i inst hrow => ?_⟩
  · cases hst
  · rw [h]
    exact .inl hrow

/-- There was nothing to do. -/
theorem targetReached_of_equal (heq : db.liveInstances.length = dep.instanceCount)
    (h : db'.instances = db.instances) : TargetReached dep status db db' := by
  have hlive := liveInstances_congr h
  refine ⟨fun _ => ⟨by rw [hlive, heq], fun i inst hnone hrow => ?_⟩, fun _ hlt => by omega,
    fun _ hlt => by omega, fun i inst hrow => .inl (by rw [h]; exact hrow)⟩
  rw [h, hnone] at hrow
  cases hrow

theorem targetReached_of_grew {ok : Bool} (hlt : w.db.liveInstances.length < dep.instanceCount)
    (hgrew : Grew (dep.instanceCount - w.db.liveInstances.length) w.core w'.core)
    (hfull : ok = true → Full (dep.instanceCount - w.db.liveInstances.length) w.core w'.core)
    (h : db'.instances = w'.db.instances) :
    TargetReached dep (if ok then .succeeded else .failed) w.db db' := by
  have hcount : db'.liveInstances.length = w'.core.liveCount :=
    congrArg List.length (liveInstances_congr h)
  have hbefore : w.db.liveInstances.length = w.core.liveCount := rfl
  refine ⟨fun hst => ?_, fun _ hgt => by omega, fun _ _ _ => ?_, fun i inst hrow => ?_⟩
  · cases ok with
    | false => cases hst
    | true =>
      have hcount' := (hfull rfl).count
      refine ⟨by omega, fun i inst hnone hrow => ?_⟩
      rw [h] at hrow
      exact (hfull rfl).running i inst hnone hrow
  · have hleast := hgrew.least
    have hmost := hgrew.most
    omega
  · rw [h]
    exact .inl (hgrew.old i inst hrow)

theorem targetReached_of_takenOut (hlt : dep.instanceCount < w.db.liveInstances.length)
    (hout : TakenOut (w.db.toDrain w.db.liveInstances
      (w.db.liveInstances.length - dep.instanceCount)) w w')
    (h : db'.instances = w'.db.instances) : TargetReached dep status w.db db' := by
  have hlive := liveInstances_congr h
  have hcount : db'.liveInstances.length = dep.instanceCount := by
    rw [hlive, hout.length_live]
    omega
  refine ⟨fun _ => ⟨hcount, fun i inst hnone hrow => ?_⟩, fun _ _ => ⟨hcount, fun i hi j hj hnot => ?_⟩,
    fun _ hgt => by omega, fun i inst hrow => ?_⟩
  · -- no row was added
    have hold : w'.db.instances.row i = w.db.instances.row i := by
      refine hout.other i fun hi => ?_
      obtain ⟨inst', hrow', -⟩ := mem_liveInstances.1 (mem_toDrain hi)
      rw [hnone] at hrow'
      cases hrow'
    rw [h, hold, hnone] at hrow
    cases hrow
  · rw [hlive, hout.mem_live] at hi hnot
    have hdrain := hi
    rw [mem_toKeep (liveInstances_nodup _)] at hnot hdrain
    have hsame : db'.created i = w.db.created i := by
      have hrow : w'.db.instances.row i = w.db.instances.row i := hout.other i hdrain.2
      rw [Db.created, Db.created, h, hrow]
    rw [hsame]
    refine toKeep_older hi ?_
    by_contra hj'
    exact hnot ⟨hj, hj'⟩
  · by_cases hi : i ∈ w.db.toDrain w.db.liveInstances (w.db.liveInstances.length - dep.instanceCount)
    · refine .inr ⟨hlt, mem_toDrain hi, ?_⟩
      rw [hlive, hout.mem_live, mem_toKeep (liveInstances_nodup _)]
      exact fun hkeep => hkeep.2 hi
    · rw [h]
      exact .inl ((hout.other i hi).trans hrow)

/-- However far the run gets, a deployment that it ends has reached its target. -/
theorem scaleBody_reaches (hrow : w.db.deployments.row d = some dep) :
    Ends (scaleBody o d dep w)
      (fun _ w' => ∀ dep', w'.db.deployments.row d = some dep' →
        dep' = dep ∨ TargetReached dep dep'.status w.db w'.db)
      (fun _ _ => True) := by
  simp only [scaleBody, ends_bind, ends_getDb]
  rcases hrel : w.db.releases.row dep.releaseId with _ | rel
  · intro dep' hdep
    rw [hrow, Option.some.injEq] at hdep
    exact .inl hdep.symm
  have hgiven : ∀ {status : DeploymentStatus} {u w' : World}, Given d status u w' →
      (w'.db.instances = u.db.instances → TargetReached dep status w.db w'.db) →
      ∀ dep', w'.db.deployments.row d = some dep' →
        dep' = dep ∨ TargetReached dep dep'.status w.db w'.db := by
    intro status u w' h hreached dep' hdep
    rw [h.status dep' hdep]
    exact .inr (hreached h.instances)
  have hlost : ¬ w.db.scalable dep.releaseId → ∀ message,
      Ends ((do log d .error message; transitionDeployment d .failed; commit : M Unit) w)
        (fun _ w' => ∀ dep', w'.db.deployments.row d = some dep' →
          dep' = dep ∨ TargetReached dep dep'.status w.db w'.db) (fun _ _ => True) := by
    intro hnot message
    exact (given_log d message w).mono (fun _ w' h => hgiven h (targetReached_of_missing hnot))
      (fun _ _ h => h)
  rcases hserver : w.db.application.serverId with _ | s
  · exact hlost (by simp [Db.scalable, hserver]) _
  rcases hlo : w.db.application.portRangeStart with _ | lo
  · exact hlost (by simp [Db.scalable, hlo]) _
  rcases hhi : w.db.application.portRangeEnd with _ | hi
  · exact hlost (by simp [Db.scalable, hhi]) _
  rcases hconfig : w.db.application.config with _ | c
  · simp only [ends_bind, configFromApplication, ends_getDb, hconfig, ends_raise]
  simp only [ends_bind, ends_config hconfig, ends_ite]
  refine ⟨fun hagent => ?_, fun hagent => ⟨fun hup => ?_, fun hup => ⟨fun hdown => ?_, fun hdown => ?_⟩⟩⟩
  · have hnot : ¬ w.db.scalable dep.releaseId := by
      rintro ⟨-, -, -, s', hs', hsome⟩
      rw [hserver, Option.some.injEq] at hs'
      rw [← hs', Option.isSome_iff_ne_none] at hsome
      exact hsome (Option.isNone_iff_eq_none.1 hagent)
    have h := hlost hnot "the target server's Agent disappeared before scaling could run"
    simp only [ends_bind] at h
    exact h
  · refine (scaleUp_grew _ true w hrel).mono (fun ok w1 h1 => ?_) (fun _ _ h => h)
    refine (given_finish ok w1).mono (fun _ w' h => hgiven h ?_) (fun _ _ h => h)
    exact targetReached_of_grew hup h1.1 fun hok => (h1.2 hok).2
  · refine (scaleDown_spec _ (scaled_start w) (toDrain_nodup (liveInstances_nodup _) _)
      (batch_rows _ _)).mono
      (fun ok w1 h1 => ?_) (fun _ _ _ => trivial)
    refine (given_finish ok w1).mono (fun _ w' h => hgiven h ?_) (fun _ _ h => h)
    exact targetReached_of_takenOut hdown h1.2.2.2
  · refine (given_finish true w).mono (fun _ w' h => hgiven h ?_) (fun _ _ h => h)
    exact targetReached_of_equal (by omega)

end Run

def DeploymentStatus.ended : DeploymentStatus → Bool
  | .succeeded | .failed | .rolledBack => true
  | .pending | .inProgress => false

/-- A scale operation that returns with its deployment ended has reached its target: all of it
when it succeeded, on the way down in any case, and on the way up without passing it. -/
theorem scale_reaches_target (o : Oracle) (d : DeploymentId) (token : Time) (w w' : World)
    (dep dep' : Deployment) (hrow : w.db.deployments.row d = some dep)
    (hopen : dep.status.ended = false) (hreturns : runScale o d token w = (.ok (), w'))
    (hrow' : w'.db.deployments.row d = some dep') (hended : dep'.status.ended = true) :
    TargetReached dep dep'.status w.db w'.db := by
  have hrun : Ends (runScale o d token w)
      (fun _ w' => ∀ dep', w'.db.deployments.row d = some dep' →
        dep' = dep ∨ TargetReached dep dep'.status w.db w'.db) (fun _ _ => True) := by
    refine withDeployment_rule hrow ((scaleBody_reaches hrow).mono (fun _ u h => ?_) (fun _ _ h => h))
    -- giving the lock back changes the application row only
    intro dep' hdep
    exact (h dep' hdep).imp id fun hreached => hreached.same rfl
  rcases hrun.ok hreturns dep' hrow' with rfl | hreached
  · rw [hopen] at hended
    cases hended
  · exact hreached

/-- One RUNNING instance is scaled to two, and back. -/
theorem scale_reaches_target_sample :
    TargetReached ⟨0, .inProgress, 2, .deploy, none⟩ .succeeded
      (Sample.scaling [instanceOf 0 8000 .running] 2).db
      (runScale allWell 0 0 (Sample.scaling [instanceOf 0 8000 .running] 2)).2.db ∧
    TargetReached ⟨0, .inProgress, 1, .deploy, none⟩ .succeeded
      (Sample.scaling [instanceOf 0 8000 .running,
        { instanceOf 0 8001 .running with createdAt := 1 }] 1).db
      (runScale allWell 0 0 (Sample.scaling [instanceOf 0 8000 .running,
        { instanceOf 0 8001 .running with createdAt := 1 }] 1)).2.db := by
  constructor
  · obtain ⟨dep', hrow', hst⟩ := Option.map_eq_some_iff.1 (show ((runScale allWell 0 0
      (Sample.scaling [instanceOf 0 8000 .running] 2)).2.db.deployments.row 0).map
        Deployment.status = some .succeeded by decide +kernel)
    rw [← hst]
    exact scale_reaches_target allWell 0 0 _ _ _ dep' rfl rfl
      (Prod.ext (by decide +kernel) rfl) hrow' (by rw [hst]; rfl)
  · obtain ⟨dep', hrow', hst⟩ := Option.map_eq_some_iff.1 (show ((runScale allWell 0 0
      (Sample.scaling [instanceOf 0 8000 .running,
        { instanceOf 0 8001 .running with createdAt := 1 }] 1)).2.db.deployments.row 0).map
        Deployment.status = some .succeeded by decide +kernel)
    rw [← hst]
    exact scale_reaches_target allWell 0 0 _ _ _ dep' rfl rfl
      (Prod.ext (by decide +kernel) rfl) hrow' (by rw [hst]; rfl)

end Healer
