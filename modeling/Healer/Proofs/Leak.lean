import Healer.Sanity.Sample
import Healer.Spec.Triggers

/-! Who gives the operation lock back. A handler that has taken the lock releases it, or leaves it to
the background task it scheduled, except where `start_rollback` meets a stored config that no longer
validates, or the database refuses the row that `start_deployment` inserts. A task gives the lock back
unless it ends with a failed flush. -/

namespace Healer

open Prog Table Sample

/-- The lock is not held with this token. -/
def Released (token : Time) (a : Application) : Prop :=
  ¬ (a.operationLock.isSome = true ∧ a.operationLockAcquiredAt = some token)

/-- After the request the lock is held with the token that the handler wrote. Nothing is awaited
before the lock is taken, so that token is the time of the request. -/
def Leaks (w w' : World) : Prop :=
  w.db.application.lockFree w.clock = true ∧ ¬ Released w.clock w'.db.application

/-- A rollback that passes every check before the stored config is parsed, which fails. -/
def Db.Unparsed (db : Db) (target : ReleaseId) : Prop :=
  db.AgentReady ∧ (db.releases.row target).isSome = true ∧
    db.application.activeReleaseId ≠ some target ∧ db.application.config = none

/-! ## Requests and operations -/

theorem underLock_eq (o : Oracle) (operation : String) (start : M DeploymentId)
    (run : DeploymentId → Time → M Unit) :
    underLock o operation start run = (do
      let task ← trigger operation start
      suspend o
      run task.1 task.2) := by
  unfold underLock trigger
  rw [bind_bind]
  congr 1
  funext token w
  rw [bind_bind, run_attempt_bind, run_attempt_bind]
  rcases start w with ⟨e | d, v⟩
  · show _ = ((do (if e.setup then LockService.release token else pure ()); Prog.raise e) >>= _ : M Unit) v
    rw [bind_bind]
    rfl
  · rfl

/-- The operations of a history are the requests with their tasks. -/
theorem op_run_eq (o : Oracle) (t : Trigger) : t.op.run o = t.run o := by
  cases t with
  | deploy =>
    show deployApplication o = _
    unfold Trigger.run Trigger.handle deployApplication
    simp only [underLock_eq, bind_bind]
    rfl
  | scale target =>
    show scaleApplication o target = _
    unfold Trigger.run Trigger.handle scaleApplication
    simp only [underLock_eq, bind_bind]
    rfl
  | release =>
    show deployNewRelease o = _
    unfold Trigger.run Trigger.handle deployNewRelease
    simp only [underLock_eq, bind_bind]
    rfl
  | rollback target =>
    show rollbackApplication o target = _
    unfold Trigger.run Trigger.handle rollbackApplication
    simp only [underLock_eq, bind_bind]
    rfl
  | restart i =>
    show restartInstance o i = _
    unfold Trigger.run Trigger.handle
    rw [bind_bind]
    exact (bind_unit _).symm
  | stop i =>
    show stopInstance o i = _
    unfold Trigger.run Trigger.handle
    rw [bind_bind]
    exact (bind_unit _).symm

/-! ## The lock -/

section Lock

variable {w w' : World}

theorem not_leaks_of_same (h : w'.db.application = w.db.application) : ¬ Leaks w w' := by
  rintro ⟨hfree, hheld⟩
  obtain ⟨hsome, hat⟩ := not_not.1 hheld
  rw [h] at hsome hat
  unfold Application.lockFree at hfree
  rw [hat] at hfree
  rcases Bool.or_eq_true_iff.1 hfree with hnone | hstale
  · rw [Option.isNone_iff_eq_none.1 hnone] at hsome
    cases hsome
  · have hlt : w.clock < w.clock - staleLockAfter := by simpa using hstale
    have hpos : 0 ≤ staleLockAfter := by decide
    exact absurd hlt (Int.not_lt.2 (Int.sub_le_self _ hpos))

/-- Whatever the row is by then, `release` does not leave the token in it. -/
theorem released (token : Time) (a : Application) : Released token (a.release token) := by
  unfold Application.release
  split_ifs with hat
  · rintro ⟨hsome, -⟩
    cases hsome
  · rintro ⟨-, hat'⟩
    exact hat hat'

theorem not_leaks_release (v : World) : ¬ Leaks w (LockService.release w.clock v).2 :=
  fun h => h.2 (released w.clock v.db.application)

/-- `acquire` either takes a free lock and returns the time, or changes nothing. -/
theorem acquire_ends (operation : String) (w : World) :
    Ends (LockService.acquire operation w)
      (fun token w' => token = w.clock ∧ w.db.application.lockFree w.clock = true ∧
        w'.db = { w.db with application := { w.db.application with
          operationLock := some operation, operationLockAcquiredAt := some w.clock } })
      (fun e w' => e.setup = false ∧ w.db.application.lockFree w.clock = false ∧ w'.db = w.db) := by
  simp only [LockService.acquire, Application.acquire, ends_bind, ends_now, ends_getDb]
  split_ifs with hfree
  · exact ⟨rfl, hfree, rfl⟩
  · exact ⟨rfl, by simpa using hfree, rfl⟩

end Lock

/-! ## What the start functions raise -/

/-- `start_deployment` refuses before its first write. -/
def Db.RefusesDeploy (db : Db) (c : HealerYaml) : Prop :=
  db.application.activeReleaseId.isSome ∨
  (c.adapter = .windowsWaitressService ∧ c.windows.isNone) ∨
  (c.adapter = .linuxDocker ∧ c.linux.isNone) ∨
  (∀ s, c.serverId = some s → db.agent s ≠ some .connected) ∨
  db.source.isNone

/-- `start_deployment` comes to an insert that the database refuses. -/
def Db.StrandsDeploy (db : Db) (o : Oracle) (c : HealerYaml) : Prop :=
  ¬ db.RefusesDeploy c ∧ ∃ s, c.serverId = some s ∧
    db.overlong o s (List.range' c.ports.start (c.ports.stop + 1 - c.ports.start)) = true

/-- The rows of an accepted `start_deployment`: the deployment `d` of the release `r` with its one
instance `i`. -/
structure FirstRows (s : ServerId) (d : DeploymentId) (r : ReleaseId) (i : InstanceId) (w w' : World) :
    Prop where
  ids : d = w.db.deployments.next ∧ r = w.db.releases.next ∧ i = w.db.instances.next
  deployments : w'.db.deployments = w.db.deployments.insert ⟨r, .inProgress, 1, .deploy, none⟩
  releases : w'.db.releases = w.db.releases.insert (newRelease w.clock)
  instances : ∃ port, w'.db.instances = w.db.instances.insert
    { w.db.application.newInstance r s port w.clock with deploymentId := some d }

/-- The release row that a refusal for want of a port leaves. -/
def World.strayRelease (w : World) : World :=
  w.setDb { w.db with releases := w.db.releases.insert (newRelease w.clock) }

section Setup

variable {o : Oracle} {c : HealerYaml} {s : ServerId} {w : World}

/-- The end of `start_deployment`, from a free port on. -/
theorem openDeployment_rows {port : ℕ} :
    Ends ((do
        let d ← insertDeployment w.db.releases.next 1 .deploy
        modifyInstance w.db.instances.next fun inst => { inst with deploymentId := some d }
        transitionDeployment d .inProgress
        commit
        pure d : M DeploymentId)
        (w.strayRelease.setDb { w.strayRelease.db with
          instances := w.db.instances.insert
            (w.db.application.newInstance w.db.releases.next s port w.clock) }))
      (fun d w' => FirstRows s d w.db.releases.next w.db.instances.next w w') (fun _ _ => False) := by
  set dep : Deployment := ⟨w.db.releases.next, .pending, 1, .deploy, none⟩ with hdep
  have hrow : (w.db.deployments.insert dep).row w.db.deployments.next = some dep :=
    insert_row_self _ _
  simp only [World.strayRelease, insertDeployment, transitionDeployment, ends_bind, ends_getDb,
    ends_modifyDb, ends_modifyInstance, ends_pure, setDb_db, ← hdep, hrow, ends_emit, ends_commit]
  refine ⟨⟨rfl, rfl, rfl⟩, ?_, rfl, port, ?_⟩
  · exact insert_modify _ _ _
  · exact insert_modify _ _ _

theorem startDeployment_spec (o : Oracle) (c : HealerYaml) (w : World) :
    Ends (startDeployment o c w)
      (fun d w' => ¬ w.db.StrandsDeploy o c ∧ ∃ s r i, c.serverId = some s ∧ FirstRows s d r i w w')
      (fun e w' => (¬ w.db.StrandsDeploy o c ∧ (∃ message, e = .deploymentSetup message) ∧
        (w.db.RefusesDeploy c ∧ w' = w ∨ ¬ w.db.RefusesDeploy c ∧ w' = w.strayRelease)) ∨
        w.db.StrandsDeploy o c ∧ InsertRefused w e w') := by
  have hrefuse : w.db.RefusesDeploy c → ∀ message, (¬ w.db.StrandsDeploy o c ∧
      (∃ m, Exn.deploymentSetup message = .deploymentSetup m) ∧
      (w.db.RefusesDeploy c ∧ w = w ∨ ¬ w.db.RefusesDeploy c ∧ w = w.strayRelease)) ∨
      w.db.StrandsDeploy o c ∧ InsertRefused w (.deploymentSetup message) w :=
    fun h message => .inl ⟨fun hs => hs.1 h, ⟨message, rfl⟩, .inl ⟨h, rfl⟩⟩
  rw [startDeployment, ends_bind, ends_getDb, ends_ite]
  refine ⟨fun h => hrefuse (.inl h) _, fun hactive => ?_⟩
  rw [ends_ite]
  refine ⟨fun h => hrefuse (.inr (.inl h)) _, fun hwindows => ?_⟩
  rw [ends_ite]
  refine ⟨fun h => hrefuse (.inr (.inr (.inl h))) _, fun hlinux => ?_⟩
  rcases hserver : c.serverId with _ | s
  · refine hrefuse (.inr (.inr (.inr (.inl fun s hs => ?_)))) _
    rw [hserver] at hs
    cases hs
  rw [ends_ite]
  refine ⟨fun h => hrefuse (.inr (.inr (.inr (.inl fun s' hs' => ?_)))) _, fun hagent => ?_⟩
  · obtain rfl : s = s' := Option.some.inj (hserver.symm.trans hs')
    exact h
  rw [ends_ite]
  refine ⟨fun h => hrefuse (.inr (.inr (.inr (.inr h)))) _, fun hsource => ?_⟩
  have hpassed : ¬ w.db.RefusesDeploy c := by
    rintro (h | h | h | h | h)
    · exact hactive h
    · exact hwindows h
    · exact hlinux h
    · exact hagent (h s hserver)
    · exact hsource h
  rw [ends_ite]
  refine ⟨fun hlong => .inr ⟨⟨hpassed, s, hserver, hlong⟩, rfl, rfl⟩, fun hfits => ?_⟩
  have hsafe : ¬ w.db.StrandsDeploy o c := by
    rintro ⟨-, s', hs', hlong⟩
    obtain rfl : s = s' := Option.some.inj (hserver.symm.trans hs')
    exact hfits hlong
  refine Ends.bind (insertRelease_spec w) ?_ fun _ _ h => h.elim
  rintro r v ⟨rfl, rfl⟩
  refine Ends.bind (allocate_least o _ s _ _ w.strayRelease) ?_ ?_
  · rintro i v ⟨rfl, port, -, rfl⟩
    exact openDeployment_rows.mono (fun _ _ h => ⟨hsafe, s, _, _, rfl, h⟩) fun _ _ h => h.elim
  · rintro e v (⟨rfl, hmessage, -⟩ | ⟨-, hlong⟩)
    · exact .inl ⟨hsafe, hmessage, .inr ⟨hpassed, rfl⟩⟩
    · exact absurd hlong hfits

end Setup

/-- A start function opens a deployment or raises a setup error; when `bad` holds, and only then, it
raises something else. -/
def Opens (m : M DeploymentId) (bad : Prop) (w : World) : Prop :=
  Ends (m w) (fun d w' => (w'.db.deployments.row d).isSome = true ∧ ¬ bad)
    fun e w' => e.setup = true ∧ ¬ bad ∨ e.setup = false ∧ w'.db = w.db ∧ bad

variable {w : World} {d : DeploymentId}

theorem openSwitch_ends (r : ReleaseId) (n : ℕ) (kind : DeploymentKind) (w : World) :
    Ends (openSwitch r n kind w) (fun d w' => (w'.db.deployments.row d).isSome = true) fun _ _ => False := by
  refine (openSwitch_spec r n kind w).mono ?_ fun _ _ h => h
  rintro d v ⟨rfl, hdb⟩
  rw [hdb]
  exact Option.isSome_iff_exists.2 ⟨_, insert_row_self _ _⟩

theorem opens_startScale (target : ℕ) (w : World) : Opens (startScale target) False w := by
  refine (startScale_spec target w).mono ?_ fun _ _ h => .inl ⟨h.2, id⟩
  rintro d w' ⟨-, dep, hrow, -⟩
  exact ⟨Option.isSome_iff_exists.2 ⟨dep, hrow⟩, id⟩

theorem opens_startNewRelease (w : World) : Opens startNewRelease False w := by
  refine Ends.bind (requireAgent_spec w) ?_ fun _ _ h => .inl ⟨h.2.1, id⟩
  rintro _ w1 -
  rw [ends_bind, ends_getDb, ends_ite]
  refine ⟨fun _ => .inl ⟨rfl, id⟩, fun _ => ?_⟩
  rw [ends_bind]
  exact (openSwitch_ends _ _ _ _).mono (fun _ _ h => ⟨h, id⟩) fun _ _ h => h.elim

theorem opens_startDeployment (o : Oracle) (c : HealerYaml) (w : World) :
    Opens (startDeployment o c) (w.db.StrandsDeploy o c) w := by
  refine (startDeployment_spec o c w).mono ?_ ?_
  · rintro d w' ⟨hsafe, s, r, i, -, hrows⟩
    refine ⟨?_, hsafe⟩
    rw [hrows.deployments, hrows.ids.1, insert_row_self]
    rfl
  · rintro e w' (⟨hsafe, ⟨message, rfl⟩, -⟩ | ⟨hbad, rfl, rfl⟩)
    · exact .inl ⟨rfl, hsafe⟩
    · exact .inr ⟨rfl, rfl, hbad⟩

/-- `start_rollback` raises the ValidationError of an unparsable config and nothing else beside setup
errors. -/
theorem opens_startRollback (target : ReleaseId) (w : World) :
    Opens (startRollback target) (w.db.Unparsed target) w := by
  refine Ends.bind (requireAgent_spec w) ?_ fun _ _ h => .inl ⟨h.2.1, fun hun => h.2.2 hun.1⟩
  rintro _ w1 ⟨rfl, hready⟩
  rw [ends_bind, ends_getDb]
  cases hrel : w1.db.releases.row target with
  | none =>
    refine .inl ⟨rfl, fun hun => ?_⟩
    have hsome := hun.2.1
    rw [hrel] at hsome
    cases hsome
  | some rel =>
    simp only [ends_ite]
    refine ⟨fun hactive => .inl ⟨rfl, fun hun => hun.2.2.1 hactive⟩, fun hactive => ?_⟩
    cases hconfig : w1.db.application.config with
    | none =>
      simp only [ends_bind, configFromApplication, ends_getDb, hconfig]
      refine .inr ⟨rfl, rfl, hready, ?_, hactive, hconfig⟩
      rw [hrel]
      rfl
    | some c =>
      have hparsed : ¬ w1.db.Unparsed target := by
        rintro ⟨-, -, -, hnone⟩
        rw [hconfig] at hnone
        cases hnone
      simp only [ends_bind, ends_config hconfig, ends_ite]
      refine ⟨fun _ => .inl ⟨rfl, hparsed⟩, fun _ => ?_⟩
      exact (openSwitch_ends target _ .rollback w1).mono (fun _ _ h => ⟨h, hparsed⟩) fun _ _ h => h.elim

/-! ## Programs without a failed flush -/

/-- No run of `m` ends with a failed flush. -/
def Flushes {α : Type} (m : M α) : Prop :=
  ∀ w, Ends (m w) (fun _ _ => True) fun e _ => e ≠ .databaseError

namespace Flushes

variable {α β : Type} {m : M α}

theorem bind (hm : Flushes m) {f : α → M β} (hf : ∀ a, Flushes (f a)) : Flushes (m >>= f) :=
  fun w => Ends.bind (hm w) (fun a v _ => hf a v) fun _ _ h => h

theorem ite {p : Prop} [Decidable p] {m' : M α} (hm : Flushes m) (hm' : Flushes m') :
    Flushes (if p then m else m') := by
  split
  · exact hm
  · exact hm'

theorem raise {e : Exn} (he : e ≠ .databaseError) : Flushes (Prog.raise e : M α) := fun _ => he

theorem config : Flushes configFromApplication := by
  intro w
  rw [configFromApplication, ends_bind, ends_getDb]
  cases w.db.application.config with
  | none => exact raise (by rintro ⟨⟩) w
  | some c => trivial

theorem row (i : InstanceId) : Flushes (getInstance i) := by
  intro w
  rw [getInstance, ends_bind, ends_getDb]
  cases w.db.instances.row i with
  | none => exact raise (by rintro ⟨⟩) w
  | some inst => trivial

theorem release (r : ReleaseId) : Flushes (getRelease r) := by
  intro w
  rw [getRelease, ends_bind, ends_getDb]
  cases w.db.releases.row r with
  | none => exact raise (by rintro ⟨⟩) w
  | some rel => trivial

theorem transition (i : InstanceId) (target : InstanceStatus) : Flushes (transition i target) := by
  intro w
  rw [Healer.transition, ends_bind, ends_getDb]
  cases w.db.instances.row i with
  | none => exact raise (by rintro ⟨⟩) w
  | some inst =>
    rw [ends_bind, ends_emit, ends_ite]
    exact ⟨fun _ => trivial, fun _ => raise (by rintro ⟨⟩) _⟩

theorem reason (i : InstanceId) (text : Option String) : Flushes (setFailureReason i text) := fun _ => trivial

theorem submit (o : Oracle) (agent : ServerId) (key : CommandKey) (command : Command) :
    Flushes (submitCommandAndWait o agent key command) := by
  refine fun w => (submit_spec o agent key command w).mono (fun _ _ _ => trivial) ?_
  rintro _ _ ⟨error, rfl, -⟩ ⟨⟩

theorem syncIfDomain (o : Oracle) (c : HealerYaml) : Flushes (syncIfDomain o c) :=
  ite (fun _ => trivial) fun _ => trivial

theorem restartBody (o : Oracle) (i : InstanceId) (r : ReleaseId) (agent : ServerId) :
    Flushes (restartBody o i r agent) := by
  have hstart : ∀ c, Flushes (submitStart o agent (.manualRestart i) r i c) := fun c =>
    (release r).bind fun rel => (row i).bind fun inst => submit o agent _ _
  have hcommit : Flushes commit := fun _ => trivial
  refine config.bind fun c => (transition i _).bind fun _ => hcommit.bind fun _ =>
    (syncIfDomain o c).bind fun _ => (hstart c).bind fun row => ite ?_ ?_
  · exact (reason i _).bind fun _ => (transition i _).bind fun _ => hcommit.bind fun _ => syncIfDomain o c
  · refine (reason i _).bind fun _ => (transition i _).bind fun _ => hcommit.bind fun _ => ?_
    exact raise (by rintro ⟨⟩)

theorem stopBody (o : Oracle) (i : InstanceId) (agent : ServerId) : Flushes (stopBody o i agent) := by
  have hcommit : Flushes commit := fun _ => trivial
  refine config.bind fun c => (transition i _).bind fun _ => hcommit.bind fun _ =>
    (syncIfDomain o c).bind fun _ => ((row i).bind fun inst => submit o agent _ _).bind fun row =>
    (transition i _).bind fun _ => ite hcommit ?_
  refine (reason i _).bind fun _ => hcommit.bind fun _ => ?_
  exact raise (by rintro ⟨⟩)

end Flushes

/-! ## Handlers -/

/-- The handler ends in its own code after it took the lock: the exception is none of those it catches. -/
def Trigger.Strands (o : Oracle) (db : Db) : Trigger → Prop
  | .deploy => ∃ c, db.application.config = some c ∧ db.StrandsDeploy o c
  | .rollback target => db.Unparsed target
  | _ => False

/-- The handler has scheduled a task for a deployment that is there. -/
def Scheduled (scheduled : Option (DeploymentId × Time)) (w : World) : Prop :=
  ∃ d token, scheduled = some (d, token) ∧ (w.db.deployments.row d).isSome = true

/-- The lock is free and `bad` holds. -/
def Strikes (w : World) (bad : Prop) : Prop := w.db.application.lockFree w.clock = true ∧ bad

/-- A handler ends with a task or without a leak, unless the lock is free and `bad` holds; then it leaks. -/
def Accounted (w : World) (bad : Prop) (m : M (Option (DeploymentId × Time))) : Prop :=
  Ends (m w)
    (fun scheduled w' => (Scheduled scheduled w' ∨ scheduled = none ∧ ¬ Leaks w w') ∧ ¬ Strikes w bad)
    fun _ w' => ¬ Leaks w w' ∧ ¬ Strikes w bad ∨ Leaks w w' ∧ bad

theorem accounted_trigger {operation : String} {start : M DeploymentId} {B : Db → Prop} (w : World)
    (hstart : ∀ v, Opens start (B v.db) v)
    (hlock : ∀ lock time, B { w.db with application := { w.db.application with
      operationLock := lock, operationLockAcquiredAt := time } } ↔ B w.db) :
    Accounted w (B w.db) (do let task ← trigger operation start; pure (some task)) := by
  unfold Accounted trigger
  rw [ends_bind, ends_bind]
  refine (acquire_ends operation w).mono ?_ ?_
  · rintro token v ⟨rfl, hfree, hv⟩
    have hsame : B v.db ↔ B w.db := by
      rw [hv]
      exact hlock _ _
    rw [ends_bind, ends_attempt]
    refine (hstart v).mono ?_ ?_
    · rintro d u ⟨hrow, hgood⟩
      exact ⟨.inl ⟨d, w.clock, rfl, hrow⟩, fun h => hgood (hsame.2 h.2)⟩
    · rintro e u (⟨hsetup, hgood⟩ | ⟨hsetup, hu, hbad⟩)
      · simp only [hsetup, if_true, ends_bind]
        exact .inl ⟨not_leaks_release u, fun h => hgood (hsame.2 h.2)⟩
      · simp only [hsetup, Bool.false_eq_true, if_false, ends_bind]
        refine .inr ⟨⟨hfree, fun hrel => hrel ?_⟩, hsame.1 hbad⟩
        rw [hu, hv]
        exact ⟨rfl, rfl⟩
  · rintro e v ⟨-, hheld, hv⟩
    refine .inl ⟨not_leaks_of_same (by rw [hv]), fun h => ?_⟩
    rw [Strikes, hheld] at h
    cases h.1

/-- A body between `try` and `finally: release`, under the lock. -/
theorem action_ends (operation : String) {body : M Unit} (hbody : Flushes body) (w : World) :
    Ends ((do let token ← acquireForAction operation; LockService.releaseFinally body token : M Unit) w)
      (fun _ w' => ¬ Leaks w w') fun _ w' => ¬ Leaks w w' := by
  rw [ends_bind]
  unfold acquireForAction
  rw [ends_bind, ends_attempt]
  refine (acquire_ends operation w).mono ?_ fun e v h => ?_
  · rintro token v ⟨rfl, -, -⟩
    refine ends_releaseFinally.2 ((hbody v).mono (fun _ u _ => not_leaks_release u) fun e u he => ?_)
    rw [World.released, if_neg he]
    exact not_leaks_release u
  · have hsame := not_leaks_of_same (congrArg Db.application h.2.2)
    cases e <;> exact hsame

/-- Restart and stop schedule nothing. -/
theorem accounted_action {m : M Unit}
    (h : Ends (m w) (fun _ w' => ¬ Leaks w w') fun _ w' => ¬ Leaks w w') :
    Accounted w False (do m; pure none) :=
  Ends.bind h (fun _ _ h => ⟨.inr ⟨rfl, h⟩, fun hs => hs.2⟩) fun _ _ h => .inl ⟨h, fun hs => hs.2⟩

theorem not_leaks_self (w : World) : ¬ Leaks w w := not_leaks_of_same rfl

/-- Handlers that parse the config first have no lock to give back if that fails. -/
theorem accounted_parsed {bad : Prop} {m : HealerYaml → M (Option (DeploymentId × Time))}
    (hm : ∀ c, w.db.application.config = some c → Accounted w bad (m c))
    (hnone : w.db.application.config = none → ¬ bad) : Accounted w bad (configFromApplication >>= m) := by
  rw [Accounted, ends_bind, configFromApplication, ends_bind, ends_getDb]
  cases hconfig : w.db.application.config with
  | none => exact .inl ⟨not_leaks_self w, fun h => hnone hconfig h.2⟩
  | some c => exact hm c hconfig

theorem getInstance_ends (i : InstanceId) (w : World) :
    Ends (getInstance i w) (fun _ w' => w' = w) fun _ w' => w' = w := by
  unfold getInstance
  rw [ends_bind, ends_getDb]
  cases w.db.instances.row i with
  | none => exact rfl
  | some inst => exact rfl

theorem requireActionable_ends (inst : Instance) (action : String) (w : World) :
    Ends (requireActionable inst action w) (fun _ w' => w' = w) fun _ w' => w' = w := by
  simp only [requireActionable, ends_bind, ends_getDb, ends_ite, ends_raise, ends_pure]
  exact ⟨fun _ => trivial, fun _ => ⟨fun _ => trivial, fun _ => trivial⟩⟩

/-- An action on an instance only reads before it takes the lock. -/
theorem actionable_ends (i : InstanceId) (action : String) {f : Instance → M Unit}
    (hf : ∀ inst, Ends (f inst w) (fun _ w' => ¬ Leaks w w') fun _ w' => ¬ Leaks w w') :
    Ends ((do let inst ← getInstance i; requireActionable inst action; f inst : M Unit) w)
      (fun _ w' => ¬ Leaks w w') fun _ w' => ¬ Leaks w w' := by
  refine Ends.bind (getInstance_ends i w) ?_ ?_
  · rintro inst w1 rfl
    refine Ends.bind (requireActionable_ends inst action w1) ?_ ?_
    · rintro _ w2 rfl
      exact hf inst
    · rintro _ w2 rfl
      exact not_leaks_self w2
  · rintro _ w1 rfl
    exact not_leaks_self w1

theorem accounted_restart (o : Oracle) (i : InstanceId) (w : World) :
    Accounted w False (do restartInstance o i; pure none) := by
  refine accounted_action (actionable_ends i _ fun inst => ?_)
  rw [ends_bind, ends_getDb]
  cases inst.releaseId.filter fun r => (w.db.releases.row r).isSome with
  | none => exact not_leaks_self w
  | some r => exact action_ends "restart" (Flushes.restartBody o i r _) w

theorem accounted_stop (o : Oracle) (i : InstanceId) (w : World) :
    Accounted w False (do stopInstance o i; pure none) :=
  accounted_action (actionable_ends i _ fun _ => action_ends "stop" (Flushes.stopBody o i _) w)

/-- The lock is no part of what the start functions check. -/
theorem accounted_handle (o : Oracle) (t : Trigger) (w : World) :
    Accounted w (t.Strands o w.db) (t.handle o) := by
  cases t with
  | deploy =>
    refine accounted_parsed (fun c hc => ?_) ?_
    · have hbad : Trigger.deploy.Strands o w.db ↔ w.db.StrandsDeploy o c := by
        refine ⟨?_, fun h => ⟨c, hc, h⟩⟩
        rintro ⟨c', hc', h⟩
        obtain rfl : c = c' := Option.some.inj (hc.symm.trans hc')
        exact h
      rw [hbad]
      exact accounted_trigger (B := fun db => db.StrandsDeploy o c) w (opens_startDeployment o c)
        fun _ _ => Iff.rfl
    · rintro hnone ⟨c, hc, -⟩
      rw [hnone] at hc
      cases hc
  | scale target =>
    exact accounted_trigger (B := fun _ => False) w (opens_startScale target) fun _ _ => Iff.rfl
  | release =>
    exact accounted_parsed (fun _ _ => accounted_trigger (B := fun _ => False) w opens_startNewRelease
      fun _ _ => Iff.rfl) fun _ => id
  | rollback target =>
    refine accounted_trigger (B := fun db => db.Unparsed target) w (opens_startRollback target) fun _ _ => ?_
    refine and_congr ⟨fun h => ?_, fun h => ?_⟩ Iff.rfl
    · exact ⟨h.active, h.ports, h.server⟩
    · exact ⟨h.active, h.ports, h.server⟩
  | restart i => exact accounted_restart o i w
  | stop i => exact accounted_stop o i w

/-! ## Tasks -/

theorem withDeployment_released {body : DeploymentId → Deployment → M Unit}
    (hrow : (w.db.deployments.row d).isSome = true) (token : Time) :
    Ends (withDeployment body d token w) (fun _ w' => Released token w'.db.application)
      fun e w' => e ≠ .databaseError → Released token w'.db.application := by
  obtain ⟨dep, hdep⟩ := Option.isSome_iff_exists.1 hrow
  refine withDeployment_rule hdep ?_
  rcases body d dep w with ⟨e | _, w'⟩
  · intro he
    rw [World.released, if_neg he]
    exact released token _
  · exact released token _

/-- Whatever happens until the task runs and while it does, it gives the lock back if it does not end
with a failed flush. -/
theorem task_released (o : Oracle) (t : Trigger)
    (hrow : (w.db.deployments.row d).isSome = true) (token : Time) (ht : ∀ i, t ≠ .restart i ∧ t ≠ .stop i) :
    Ends ((do suspend o; t.task o d token : M Unit) w) (fun _ w' => Released token w'.db.application)
      fun e w' => e ≠ .databaseError → Released token w'.db.application := by
  have hrow' : ((w.suspend o).db.deployments.row d).isSome = true := by
    have hsame : (w.suspend o).db.deployments = w.db.deployments :=
      congrArg Core.deployments (calm_suspend o w).core
    rw [hsame]
    exact hrow
  rw [ends_bind, ends_suspend]
  cases t with
  | deploy => exact withDeployment_released hrow' token
  | scale target => exact withDeployment_released hrow' token
  | release => exact withDeployment_released hrow' token
  | rollback target => exact withDeployment_released hrow' token
  | restart i => exact absurd rfl (ht i).1
  | stop i => exact absurd rfl (ht i).2

/-- A restart and a stop are over when their handler is. -/
theorem not_scheduled (m : M Unit) (w : World) (task : DeploymentId × Time) :
    ((do m; pure none : M (Option (DeploymentId × Time))) w).1 ≠ .ok (some task) := by
  rcases hr : m w with ⟨e | a, w'⟩
  · rw [run_bind_error hr]
    rintro ⟨⟩
  · rw [run_bind_ok hr]
    rintro ⟨⟩

/-- A handler releases the lock it took or schedules a task, unless it takes a free lock and then ends
with an exception that it does not catch; and every task it schedules releases the lock, unless the task
ends with a failed flush. -/
theorem no_lock_leak_iff (o : Oracle) (t : Trigger) (w : World) :
    ((∃ d token, (t.handle o w).1 = .ok (some (d, token))) ∨ ¬ Leaks w (t.handle o w).2 ↔
        ¬ (w.db.application.lockFree w.clock = true ∧ t.Strands o w.db)) ∧
      ∀ d token, (t.handle o w).1 = .ok (some (d, token)) → ∀ o',
        ((do suspend o'; t.task o' d token : M Unit) (t.handle o w).2).1 ≠ .error .databaseError →
        Released token ((do suspend o'; t.task o' d token : M Unit) (t.handle o w).2).2.db.application := by
  have h := accounted_handle o t w
  unfold Accounted at h
  rcases hr : t.handle o w with ⟨e | scheduled, w'⟩
  · rw [hr] at h
    refine ⟨⟨fun hno => ?_, fun hgood => ?_⟩, fun d token hok => by cases hok⟩
    · rcases hno with ⟨d, token, hok⟩ | hno
      · cases hok
      · exact h.elim And.right fun hleak => absurd hleak.1 hno
    · exact .inr (h.elim And.left fun hleak => absurd ⟨hleak.1.1, hleak.2⟩ hgood)
  · rw [hr] at h
    obtain ⟨htask, hgood⟩ := h
    refine ⟨iff_of_true ?_ hgood, ?_⟩
    · rcases htask with ⟨d, token, rfl, -⟩ | ⟨-, hno⟩
      · exact .inl ⟨d, token, rfl⟩
      · exact .inr hno
    · rintro d token hok o' hend
      cases hok
      obtain ⟨d', token', heq, hrow⟩ := htask.resolve_right fun hnone => by cases hnone.1
      cases heq
      have hscheduled : (t.handle o w).1 = .ok (some (d, token)) := congrArg Prod.fst hr
      have ht : ∀ i, t ≠ .restart i ∧ t ≠ .stop i := by
        refine fun i => ⟨?_, ?_⟩
        · rintro rfl
          exact not_scheduled _ w _ hscheduled
        · rintro rfl
          exact not_scheduled _ w _ hscheduled
      have hrel := task_released o' t hrow token ht
      rcases hrun : (do suspend o'; t.task o' d token : M Unit) w' with ⟨e | _, u⟩
      · refine hrel.error hrun ?_
        rintro rfl
        exact hend (congrArg Prod.fst hrun)
      · exact hrel.ok hrun

/-- An application with an active release whose stored config no longer validates. -/
def unparsable : World :=
  (Sample.world none [] 1).setDb { Sample.db none [] 1 with
    application := { (Sample.db none [] 1).application with
      config := none, operationLock := none, operationLockAcquiredAt := none } }

/-- An application that has just been created, with a domain, on a server whose hostname the Gateway
Manager does not take. -/
def misnamed : World :=
  created.setDb { created.db with
    application := { created.db.application with config := some (Sample.config (some shopDomain)) }
    domains := [shopDomain]
    servers := fun s => if s = 0 then some ⟨"web_1", some .connected⟩ else none }

/-- The Gateway Manager answers with the list of what is wrong with the request. -/
def unprocessing : Oracle :=
  { allWell with delivery := fun _ => .unprocessable "[upstreams.0.host]" }

/-- A rollback to release 1 ends with a ValidationError and leaves the lock held; and the task of an
accepted deployment ends with a failed flush and leaves it held. -/
theorem triggers_leak_lock :
    (((Trigger.rollback 1).handle allWell unparsable).1 = .error .validationError ∧
      Leaks unparsable ((Trigger.rollback 1).handle allWell unparsable).2) ∧
    ∃ w, Trigger.deploy.handle unprocessing misnamed = (.ok (some (0, 0)), w) ∧
      ((do suspend unprocessing; Trigger.deploy.task unprocessing 0 0 : M Unit) w).1 = .error .databaseError ∧
      ¬ Released 0 ((do suspend unprocessing; Trigger.deploy.task unprocessing 0 0 : M Unit) w).2.db.application := by
  refine ⟨⟨rfl, by decide, fun hreleased => hreleased ⟨rfl, rfl⟩⟩, _, rfl, rfl, fun hreleased => hreleased ⟨rfl, rfl⟩⟩

end Healer
