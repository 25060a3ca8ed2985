import Healer.Proofs.Leak
import Healer.Sanity.Quiet

/-! The first deployment of an application: what a refused `start_deployment` leaves behind, and
how `run_deployment` settles the rows that an accepted one created. -/

namespace Healer

open Prog Table

/-! ## A refused request -/

def Event.isCommit : Event → Bool
  | .commit => true
  | _ => false

/-- The rows as the last commit left them, which is what stays when `get_db` rolls back. -/
def World.committed (w : World) : Option Db :=
  (w.trace.reverse.find? fun e => e.event.isCommit).map Entry.db

theorem committed_commit (w : World) : (w.emit .commit).committed = some w.db := by
  simp [World.committed, Event.isCommit]

/-- The application row with the lock columns empty. -/
def Application.unlocked (a : Application) : Application :=
  { a with operationLock := none, operationLockAcquiredAt := none }

theorem unlocked_eq_iff {a : Application} :
    a.unlocked = a ↔ a.operationLock = none ∧ a.operationLockAcquiredAt = none := by
  constructor
  · intro h
    exact ⟨(congrArg Application.operationLock h).symm, (congrArg Application.operationLockAcquiredAt h).symm⟩
  · rintro ⟨hlock, hat⟩
    cases a
    cases hlock
    cases hat
    rfl

/-- What a request that `start_deployment` refuses has committed: the application row with an empty
lock, and beside it at most the release row of a search that found no port. -/
structure Refused (c : HealerYaml) (w w' : World) : Prop where
  committed : w'.committed = some w'.db
  application : w'.db.application = w.db.application.unlocked
  instances : w'.db.instances = w.db.instances
  deployments : w'.db.deployments = w.db.deployments
  releases : w.db.RefusesDeploy c ∧ w'.db.releases = w.db.releases ∨
    ¬ w.db.RefusesDeploy c ∧ w'.db.releases ≠ w.db.releases

variable {c : HealerYaml}

/-- Giving back the lock that was just taken commits the session. -/
theorem release_refused {w v u : World}
    (hv : v.db = { w.db with application := { w.db.application with
      operationLock := some "deploy", operationLockAcquiredAt := some w.clock } })
    (hu : v.db.RefusesDeploy c ∧ u = v ∨ ¬ v.db.RefusesDeploy c ∧ u = v.strayRelease) :
    Refused c w (LockService.release w.clock u).2 := by
  have hsame : u.db = { v.db with releases := u.db.releases } := by
    rcases hu with ⟨-, rfl⟩ | ⟨-, rfl⟩ <;> rfl
  have hchecks : v.db.RefusesDeploy c ↔ w.db.RefusesDeploy c := by rw [hv]; exact Iff.rfl
  refine ⟨committed_commit _, ?_, ?_, ?_, ?_⟩
  · change u.db.application.release w.clock = _
    rw [hsame, hv, Application.release, if_pos rfl]
    rfl
  · change u.db.instances = _
    rw [hsame, hv]
  · change u.db.deployments = _
    rw [hsame, hv]
  · change _ ∧ u.db.releases = _ ∨ _ ∧ u.db.releases ≠ _
    rcases hu with ⟨hearly, rfl⟩ | ⟨hlate, rfl⟩
    · exact .inl ⟨hchecks.1 hearly, by rw [hv]⟩
    · refine .inr ⟨hchecks.not.1 hlate, ?_⟩
      rw [World.strayRelease, setDb_db, hv]
      exact insert_ne _ _

theorem handle_deploy_refused (o : Oracle) (w : World) :
    Ends (Trigger.deploy.handle o w) (fun _ _ => True)
      (fun e w' => ∀ message, e = .deploymentSetup message →
        ∃ c, w.db.application.config = some c ∧ Refused c w w') := by
  rw [Trigger.handle, ends_bind]
  rcases hconfig : w.db.application.config with _ | c
  · simp only [configFromApplication, ends_bind, ends_getDb, hconfig]
    intro message h
    cases h
  rw [ends_config hconfig, ends_bind, trigger, ends_bind]
  refine (acquire_ends "deploy" w).mono ?_ ?_
  · rintro token v ⟨rfl, -, hv⟩
    rw [ends_bind, ends_attempt]
    refine (startDeployment_spec o c v).mono (fun _ _ _ => trivial) ?_
    rintro e u (⟨-, ⟨message, rfl⟩, hu⟩ | ⟨-, rfl, -⟩)
    · simp only [Exn.setup, if_true, ends_bind]
      exact fun _ _ => ⟨c, rfl, release_refused hv hu⟩
    · intro message h
      cases h
  · rintro e v ⟨hsetup, -⟩ message rfl
    cases hsetup

/-- A refused deploy leaves the rows as they were just when one of the checks before the first
write refused it and no abandoned lock had to be taken over. -/
theorem refused_deploy_leaves_no_trace_iff {o : Oracle} {w w' : World} {message : String}
    (h : Trigger.deploy.handle o w = (.error (.deploymentSetup message), w')) :
    (∃ db, w'.committed = some db ∧ db.releases = w.db.releases ∧ db.instances = w.db.instances ∧
      db.deployments = w.db.deployments ∧ db.application = w.db.application ∧
      db.application.operationLock = none) ↔
    (∃ c, w.db.application.config = some c ∧ w.db.RefusesDeploy c) ∧
      w.db.application.operationLock = none ∧ w.db.application.operationLockAcquiredAt = none := by
  obtain ⟨c, hconfig, hrefused⟩ := (handle_deploy_refused o w).error h message rfl
  rw [← unlocked_eq_iff, ← hrefused.application]
  constructor
  · rintro ⟨db, hdb, hreleases, -, -, happ, -⟩
    obtain rfl : w'.db = db := Option.some.inj (hrefused.committed.symm.trans hdb)
    refine ⟨⟨c, hconfig, ?_⟩, happ⟩
    rcases hrefused.releases with ⟨hearly, -⟩ | ⟨-, hne⟩
    · exact hearly
    · exact absurd hreleases hne
  · rintro ⟨⟨c', hc', hearly⟩, happ⟩
    obtain rfl : c = c' := Option.some.inj (hconfig.symm.trans hc')
    refine ⟨w'.db, hrefused.committed, ?_, hrefused.instances, hrefused.deployments, happ, ?_⟩
    · rcases hrefused.releases with ⟨-, hsame⟩ | ⟨hlate, -⟩
      · exact hsame
      · exact absurd hearly hlate
    · rw [hrefused.application]
      rfl

namespace Sample

/-- Release 0 is deployed, and no operation is going on. -/
def deployed : World :=
  (world none [] 1).setDb { db none [] 1 with
    application := { (db none [] 1).application with
      operationLock := none, operationLockAcquiredAt := none } }

/-- Every port of the range is taken by another application. -/
def portsTaken : Oracle := { allWell with foreignPort := fun _ _ _ => true }

end Sample

open Sample in
theorem refused_deploy_leaves_no_trace_sample :
    ∃ db, (Trigger.deploy.handle allWell deployed).2.committed = some db ∧
      db.releases = deployed.db.releases ∧ db.instances = deployed.db.instances ∧
      db.deployments = deployed.db.deployments ∧ db.application = deployed.db.application ∧
      db.application.operationLock = none := by
  have hrefused : Trigger.deploy.handle allWell deployed =
      (.error (.deploymentSetup <| "application is already deployed — use POST " ++
        "/applications/\x7bid\x7d/releases for a blue-green update, or /rollback to restore a " ++
        "previous release"), (Trigger.deploy.handle allWell deployed).2) := rfl
  exact (refused_deploy_leaves_no_trace_iff hrefused).2 ⟨⟨config none, rfl, .inl rfl⟩, rfl, rfl⟩

open Sample in
/-- The release row of a deploy that finds no port is committed with the release of the lock. -/
theorem refused_deploy_leaves_release :
    (Trigger.deploy.handle portsTaken created).1 = .error
        (.deploymentSetup "no free port available in range 8000-8009 on this server") ∧
      created.db.releases.row 0 = none ∧
      ((Trigger.deploy.handle portsTaken created).2.committed.bind fun db =>
        (db.releases.row 0).map Release.status) = some .pending := by
  refine ⟨?_, rfl, ?_⟩
  · rfl
  · decide +kernel

/-! ## The run -/

section Run

variable {o : Oracle} {d : DeploymentId} {r : ReleaseId} {i : InstanceId} {w : World} {n : ℕ}

/-! The count of syncs tells which answer the sync at the end gets. -/

variable {inst : Instance} {dep : Deployment}

end Run

namespace Sample

end Sample

end Healer
