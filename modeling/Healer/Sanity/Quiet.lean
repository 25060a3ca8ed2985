import Healer.Sanity.Calls
import Healer.Spec.Ops

/-! Most of what an operation does between two steps that matter is bookkeeping: logs, steps, results,
the lock, the columns of an instance beside its status. A property that does not look at these
survives all of it. -/

namespace Healer

open Prog

/-- What of an instance an operation goes by. -/
def Instance.standing (inst : Instance) : Option ReleaseId × ServerId × ℕ × InstanceStatus :=
  (inst.releaseId, inst.serverId, inst.port, inst.status)

/-- What of the rows bookkeeping leaves alone. -/
structure Outline where
  releases : Table Release
  active : Option ReleaseId
  server : Option ServerId
  config : Option HealerYaml
  hostname : ServerId → Option String
  health : Option HealthCheck
  next : ℕ
  standing : InstanceId → Option (Option ReleaseId × ServerId × ℕ × InstanceStatus)

def Db.outline (db : Db) : Outline where
  releases := db.releases
  active := db.application.activeReleaseId
  server := db.application.serverId
  config := db.application.config
  hostname s := (db.servers s).map Server.hostname
  health := db.healthCheck
  next := db.instances.next
  standing i := (db.instances.row i).map Instance.standing

/-- The events of bookkeeping: no instance is moved, probed or commanded. -/
def Event.quiet : Event → Bool
  | .instanceTransition _ _ _ | .submitted _ _ _ | .answered _ _ | .probe _ _ _ _ => false
  | _ => true

structure Quiet (P : World → Prop) : Prop where
  onEmit : ∀ w e, e.quiet = true → P w → P (w.emit e)
  onWrite : ∀ w db, db.outline = w.db.outline → P w → P (w.setDb db)

theorem standing_modify (t : Table Instance) (i j : InstanceId) {f : Instance → Instance}
    (hf : ∀ inst, (f inst).standing = inst.standing) :
    ((t.modify i f).row j).map Instance.standing = (t.row j).map Instance.standing := by
  rw [Table.modify_row]
  split
  · cases t.row j with
    | none => rfl
    | some inst => exact congrArg some (hf inst)
  · rfl

/-! ## Primitives -/

section Primitives

variable {P : World → Prop} {o : Oracle} {i : InstanceId} {target : InstanceStatus} {agent : ServerId}
  {key : CommandKey} {command : Command}

/-- An await: the tasks that run meanwhile, and then nothing in the rows or the trace. -/
theorem keeps_suspend_of (hbackground : ∀ n, ∀ b ∈ o.during n, ∀ w, P w → P (b.run o w))
    (hrest : ∀ w w' : World, w'.db = w.db → w'.trace = w.trace → w'.monitor = w.monitor → P w → P w') :
    Keeps P (suspend o) := by
  intro w hw
  have hall : ∀ bs : List Background, (∀ b ∈ bs, ∀ w, P w → P (b.run o w)) → ∀ w, P w →
      P (bs.foldl (Background.run o) w) := by
    intro bs
    induction bs with
    | nil => exact fun _ w hw => hw
    | cons b bs ih =>
      exact fun hbs w hw => ih (fun b' hb' => hbs b' (List.mem_cons_of_mem _ hb')) _ (hbs b List.mem_cons_self w hw)
  exact hrest ((o.during w.awaits).foldl (Background.run o) w) _ rfl rfl rfl (hall _ (hbackground _) w hw)

theorem keeps_submit_of (hcommit : Keeps P commit) (hsubmitted : Keeps P (emit (.submitted agent key command)))
    (hsuspend : Keeps P (suspend o)) (hanswered : ∀ row, Keeps P (emit (.answered key row)))
    (hlost : Keeps P (emit (.sendFailed key))) : Keeps P (submitCommandAndWait o agent key command) := by
  refine keeps_bind hcommit fun _ => keeps_bind hsubmitted fun _ => keeps_bind hsuspend fun _ => ?_
  cases o.reply key with
  | row row => exact keeps_bind (hanswered row) fun _ => keeps_pure row
  | sendFailed error => exact keeps_bind hlost fun _ => keeps_raise _

theorem keeps_transition_of (hemit : ∀ current, Keeps P (emit (.instanceTransition i current target)))
    (hwrite : Keeps P (modifyInstance i fun inst => { inst with status := target })) :
    Keeps P (transition i target) := by
  refine keeps_bind (keeps_read _) fun db => ?_
  cases db.instances.row i with
  | none => exact keeps_raise _
  | some inst => exact keeps_bind (hemit _) fun _ => keeps_ite (fun _ => hwrite) fun _ => keeps_raise _

end Primitives

/-! ## Reading -/

section Reading

variable {P : World → Prop}

theorem keeps_getDb : Keeps P getDb := keeps_read _

theorem keeps_getInstance (i : InstanceId) : Keeps P (getInstance i) := by
  refine keeps_bind keeps_getDb fun db => ?_
  cases db.instances.row i with
  | none => exact keeps_raise _
  | some inst => exact keeps_pure inst

theorem keeps_getRelease (r : ReleaseId) : Keeps P (getRelease r) := by
  refine keeps_bind keeps_getDb fun db => ?_
  cases db.releases.row r with
  | none => exact keeps_raise _
  | some rel => exact keeps_pure rel

theorem keeps_configFromApplication : Keeps P configFromApplication := by
  refine keeps_bind keeps_getDb fun db => ?_
  cases db.application.config with
  | none => exact keeps_raise _
  | some c => exact keeps_pure c

theorem keeps_requireActionable (inst : Instance) (action : String) :
    Keeps P (requireActionable inst action) := by
  refine keeps_bind keeps_getDb fun db => ?_
  refine keeps_ite (fun _ => keeps_raise _) (fun _ => ?_)
  exact keeps_ite (fun _ => keeps_raise _) (fun _ => keeps_pure ())

theorem keeps_requireAgent : Keeps P requireAgent := by
  refine keeps_bind keeps_getDb fun db => keeps_ite (fun _ => keeps_raise _) fun _ => ?_
  rcases db.application.serverId with _ | s
  · exact keeps_raise _
  rcases db.application.portRangeStart with _ | lo
  · exact keeps_raise _
  rcases db.application.portRangeEnd with _ | hi
  · exact keeps_raise _
  exact keeps_ite (fun _ => keeps_raise _) fun _ => keeps_pure ()

end Reading

namespace Quiet

variable {P : World → Prop} {d : DeploymentId}

theorem keeps_emit (hP : Quiet P) {e : Event} (he : e.quiet = true) : Keeps P (emit e) :=
  keeps_update fun w hw => hP.onEmit w e he hw

theorem keeps_commit (hP : Quiet P) : Keeps P commit := hP.keeps_emit rfl

theorem keeps_modifyDb (hP : Quiet P) {f : Db → Db} (hf : ∀ db, (f db).outline = db.outline) :
    Keeps P (modifyDb f) :=
  keeps_update fun w hw => hP.onWrite w _ (hf w.db) hw

theorem keeps_modifyInstance (hP : Quiet P) (i : InstanceId) {f : Instance → Instance}
    (hf : ∀ inst, (f inst).standing = inst.standing) : Keeps P (modifyInstance i f) := by
  refine hP.keeps_modifyDb fun db => ?_
  simp only [Db.outline, standing_modify _ _ _ hf]
  rfl

theorem keeps_setFailureReason (hP : Quiet P) (i : InstanceId) (reason : Option String) :
    Keeps P (setFailureReason i reason) :=
  hP.keeps_modifyInstance i fun _ => rfl

theorem keeps_recordResult (hP : Quiet P) (i : InstanceId) (healthy : Bool) (failures : ℕ) :
    Keeps P (Prog.update fun w => w.recordResult i healthy failures : M Unit) :=
  keeps_update fun w hw => hP.onWrite w _ rfl hw

theorem keeps_addLog (hP : Quiet P) (d : DeploymentId) (level : LogLevel) (message : String) :
    Keeps P (addLog d level message) :=
  hP.keeps_modifyDb fun _ => rfl

theorem keeps_log (hP : Quiet P) (d : DeploymentId) (level : LogLevel) (message : String) :
    Keeps P (log d level message) :=
  keeps_bind (hP.keeps_addLog d level message) fun _ => hP.keeps_commit

theorem keeps_transitionDeployment (hP : Quiet P) (d : DeploymentId) (target : DeploymentStatus) :
    Keeps P (transitionDeployment d target) := by
  refine keeps_bind keeps_getDb fun db => ?_
  cases db.deployments.row d with
  | none => exact keeps_raise _
  | some dep =>
    refine keeps_bind (hP.keeps_emit rfl) fun _ => ?_
    exact keeps_ite (fun _ => hP.keeps_modifyDb fun _ => by rfl) (fun _ => keeps_raise _)

theorem keeps_close (hP : Quiet P) (d : DeploymentId) (target : DeploymentStatus) :
    Keeps P (do transitionDeployment d target; commit : M Unit) :=
  keeps_bind (hP.keeps_transitionDeployment d target) fun _ => hP.keeps_commit

theorem keeps_persistOutcome (hP : Quiet P) (d : DeploymentId) (tag stepTag : String)
    {save : M Unit} (hsave : Keeps P save) (row : AgentCommand) :
    Keeps P (persistOutcome d tag stepTag save row) := by
  have hlost : ∀ message, Keeps P (do addLog d .error message; save; pure false : M Bool) := by
    intro message
    exact keeps_bind (hP.keeps_addLog d _ message) fun _ =>
      keeps_bind hsave fun _ => keeps_pure false
  refine keeps_ite (fun _ => hlost _) (fun _ => keeps_ite (fun _ => hlost _) (fun _ => ?_))
  refine keeps_bind (keeps_each fun step _ => hP.keeps_modifyDb fun _ => by rfl) fun _ => ?_
  exact keeps_bind hsave fun _ => keeps_pure _

theorem keeps_persistAgentOutcome (hP : Quiet P) (d : DeploymentId) (row : AgentCommand) :
    Keeps P (persistAgentOutcome d row) :=
  hP.keeps_persistOutcome d _ _ (keeps_pure ()) row

theorem keeps_persistInstanceCommandOutcome (hP : Quiet P) (d : DeploymentId) (row : AgentCommand)
    (port : ℕ) : Keeps P (persistInstanceCommandOutcome d row port) :=
  hP.keeps_persistOutcome d _ _ hP.keeps_commit row

theorem keeps_acquire (hP : Quiet P) (operation : String) : Keeps P (LockService.acquire operation) := by
  refine keeps_of_ends fun w hw => ?_
  simp only [LockService.acquire, ends_bind, ends_now, ends_getDb]
  unfold Application.acquire
  split_ifs
  · exact hP.onEmit _ .commit rfl (hP.onWrite w _ rfl hw)
  · exact hP.onEmit w .commit rfl hw

theorem keeps_acquireForAction (hP : Quiet P) (operation : String) :
    Keeps P (acquireForAction operation) := by
  refine keeps_bind (keeps_attempt (hP.keeps_acquire operation)) fun outcome => ?_
  cases outcome with
  | ok token => exact keeps_pure token
  | error e => cases e <;> exact keeps_raise _

theorem keeps_release (hP : Quiet P) (token : Time) : Keeps P (LockService.release token) := by
  refine keeps_bind (hP.keeps_modifyDb fun db => ?_) fun _ => hP.keeps_commit
  unfold Application.release
  split <;> rfl

theorem keeps_insertDeployment (hP : Quiet P) (r : ReleaseId) (n : ℕ) (kind : DeploymentKind) :
    Keeps P (insertDeployment r n kind) :=
  keeps_bind keeps_getDb fun _ =>
    keeps_bind (hP.keeps_modifyDb fun _ => by rfl) fun _ => keeps_pure _

theorem keeps_startScale (hP : Quiet P) (target : ℕ) : Keeps P (startScale target) := by
  refine keeps_bind keeps_getDb fun db => keeps_ite (fun _ => keeps_raise _) fun _ => ?_
  rcases db.application.serverId with _ | s
  · exact keeps_raise _
  refine keeps_ite (fun _ => keeps_raise _) fun _ => ?_
  rcases db.newestReady with _ | r
  · exact keeps_raise _
  exact keeps_bind (hP.keeps_insertDeployment r _ _) fun d =>
    keeps_bind (hP.keeps_transitionDeployment d _) fun _ =>
    keeps_bind (hP.keeps_modifyDb fun _ => by rfl) fun _ =>
    keeps_bind hP.keeps_commit fun _ => keeps_pure d

theorem keeps_openSwitch (hP : Quiet P) (r : ReleaseId) (n : ℕ) (kind : DeploymentKind) :
    Keeps P (openSwitch r n kind) :=
  keeps_bind (hP.keeps_insertDeployment r n kind) fun d =>
    keeps_bind (hP.keeps_transitionDeployment d _) fun _ =>
    keeps_bind hP.keeps_commit fun _ => keeps_pure d

theorem keeps_startRollback (hP : Quiet P) (r : ReleaseId) : Keeps P (startRollback r) := by
  refine keeps_bind keeps_requireAgent fun _ => keeps_bind keeps_getDb fun db => ?_
  rcases db.releases.row r with _ | rel
  · exact keeps_raise _
  refine keeps_ite (fun _ => keeps_raise _) fun _ =>
    keeps_bind keeps_configFromApplication fun c => ?_
  exact keeps_ite (fun _ => keeps_raise _) fun _ => hP.keeps_openSwitch r _ _

theorem keeps_logAudit (hP : Quiet P) (i : InstanceId) (action : Instance → AuditAction) :
    Keeps P (logAudit i action) :=
  keeps_bind (keeps_getInstance i) fun _ =>
    keeps_bind (hP.keeps_modifyDb fun _ => by rfl) fun _ => hP.keeps_commit

theorem keeps_notifyAdministrators (hP : Quiet P) (i : InstanceId) (reason : String) :
    Keeps P (notifyAdministrators i reason) :=
  keeps_bind (keeps_getInstance i) fun _ =>
    keeps_bind (hP.keeps_modifyDb fun _ => by rfl) fun _ => hP.keeps_commit

theorem keeps_failFlush (hP : Quiet P) {α : Type} : Keeps P (failFlush : M α) :=
  keeps_bind (hP.keeps_emit rfl) fun _ => keeps_raise _

theorem keeps_probeOnce (hP : Quiet P) (o : Oracle) (i : InstanceId) (k : ℕ) : Keeps P (probeOnce o i k) := by
  unfold probeOnce
  rcases o.probe i k with error | answer
  · exact keeps_bind (hP.keeps_emit rfl) fun _ => keeps_raise _
  · exact keeps_pure _

theorem keeps_agentSeen (hP : Quiet P) (s : ServerId) (status : AgentStatus) :
    Keeps P (modifyDb fun db => db.setAgent s status) := by
  refine hP.keeps_modifyDb fun db => ?_
  have hname : ∀ s', ((db.setAgent s status).servers s').map Server.hostname =
      (db.servers s').map Server.hostname := by
    intro s'
    simp only [Db.setAgent]
    split
    · rw [Option.map_map]
      rfl
    · rfl
  simp only [Db.outline, hname]
  rfl

theorem keeps_withDeployment (hP : Quiet P) {body : DeploymentId → Deployment → M Unit}
    (hbody : ∀ dep, Keeps P (body d dep)) (token : Time) : Keeps P (withDeployment body d token) := by
  refine keeps_bind keeps_getDb fun db => ?_
  cases db.deployments.row d with
  | none => exact keeps_pure ()
  | some dep => exact keeps_releaseFinally (hbody dep) (hP.keeps_release token)

end Quiet

end Healer
