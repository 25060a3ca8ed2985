import Healer.Sanity.Calls
import Healer.Spec.Healing

/-! What self-healing reads and writes: the instance rows, the audit and notification rows, and what the
trace says about its commands and gates. A suspension is invisible here, so each call of the healing code
is an equation between two ledgers. -/

namespace Healer

open Prog Function

/-- What the trace holds about a restart, a replacement's start, and what went wrong. A restart is noted
with the time of its attempt. -/
inductive Note
  | restart (i : InstanceId) (attempt : ℕ) (time : Option Time)
  | start (i : InstanceId)
  | lost (key : CommandKey)
  | unhealthy (i : InstanceId)
  | raised (i : InstanceId)
  | unstored
  deriving DecidableEq

def Event.note (db : Db) : Event → Option Note
  | .submitted _ (.restartInstance i n) _ =>
    some (.restart i n ((db.instances.row i).bind Instance.lastHealingAttemptAt))
  | .submitted _ (.startInstance i) _ => some (.start i)
  | .sendFailed key => some (.lost key)
  | .healthGate i false => some (.unhealthy i)
  | .probeRaised i => some (.raised i)
  | .flushFailed => some .unstored
  | _ => none

def Entry.note (e : Entry) : Option Note := e.event.note e.db

def World.notes (w : World) : List Note := w.trace.filterMap Entry.note

/-- The two settings that an update of the config leaves alone. -/
def HealthCheck.limits (hc : HealthCheck) : ℕ × ℕ := (hc.maxRestartAttempts, hc.restartCooldownSeconds)

structure Ledger where
  row : InstanceId → Option Instance
  next : ℕ
  releases : Table Release
  limits : ℕ × ℕ
  audits : List AuditRow
  notifications : List String
  notes : List Note

def World.ledger (w : World) : Ledger where
  row := w.db.instances.row
  next := w.db.instances.next
  releases := w.db.releases
  limits := (w.db.healthCheck.map HealthCheck.limits).getD (3, 30)
  audits := w.db.audits
  notifications := w.db.notifications
  notes := w.notes

def Instance.fail (inst : Instance) (reason : String) : Instance :=
  { inst with status := .failed, failureReason := some reason }

namespace Ledger

variable (L : Ledger) (i j : InstanceId) (inst : Instance) (action : AuditAction) (n : Note)

def put : Ledger := { L with row := Function.update L.row i (some inst) }

def audit (port : ℕ) : Ledger := { L with audits := L.audits ++ [⟨action, i, port⟩] }

def notify (text : String) : Ledger := { L with notifications := L.notifications ++ [text] }

def write : Ledger := { L with notes := L.notes ++ [n] }

def add : Ledger := { L.put L.next inst with next := L.next + 1 }

/-- The instance is FAILED, and the administrators are told. -/
def gaveUp (reason text : String) : Ledger :=
  ((L.put i (inst.fail reason)).audit i (.recoveryFailed reason) inst.port).notify text

theorem put_self {L : Ledger} {i : InstanceId} {inst : Instance} (h : L.row i = some inst) :
    L.put i inst = L := by
  unfold put
  rw [← h, update_eq_self]

@[simp] theorem put_put (inst' : Instance) : (L.put i inst).put i inst' = L.put i inst' := by
  unfold put
  rw [update_idem]

@[simp] theorem put_row_self : (L.put i inst).row i = some inst := update_self _ _ _

@[simp] theorem add_put (inst' : Instance) : (L.add inst).put L.next inst' = L.add inst' := by
  unfold add put
  rw [update_idem]

@[simp] theorem add_row_next : (L.add inst).row L.next = some inst := update_self _ _ _

theorem add_row_of_ne {j : InstanceId} (h : j ≠ L.next) : (L.add inst).row j = L.row j :=
  update_of_ne h _ _

theorem put_row_of_ne {j : InstanceId} (h : j ≠ i) : (L.put i inst).row j = L.row j :=
  update_of_ne h _ _

end Ledger

/-! ## Primitives -/

section Primitives

variable (w : World)

theorem ledger_emit {e : Event} (he : e.note w.db = none) : (w.emit e).ledger = w.ledger := by
  have hnotes : (w.emit e).notes = w.notes := by
    have hentry : Entry.note ⟨e, w.db, w.gateway.routed⟩ = none := he
    unfold World.notes
    rw [emit_trace, List.filterMap_append, List.filterMap_cons_none hentry, List.filterMap_nil, List.append_nil]
  unfold World.ledger
  rw [hnotes]
  rfl

theorem ledger_write {e : Event} {n : Note} (he : e.note w.db = some n) :
    (w.emit e).ledger = w.ledger.write n := by
  have hnotes : (w.emit e).notes = w.notes ++ [n] := by
    have hentry : Entry.note ⟨e, w.db, w.gateway.routed⟩ = some n := he
    unfold World.notes
    rw [emit_trace, List.filterMap_append, List.filterMap_cons_some hentry, List.filterMap_nil]
  unfold World.ledger Ledger.write
  rw [hnotes]
  rfl

theorem ledger_commit : (w.emit .commit).ledger = w.ledger := ledger_emit w rfl

theorem ledger_recordResult (i : InstanceId) (healthy : Bool) (failures : ℕ) :
    (w.recordResult i healthy failures).ledger = w.ledger := rfl

theorem ledger_poll (o : Oracle) (i : InstanceId) (host : String) : (w.poll o i host).2.ledger = w.ledger := by
  unfold World.poll
  split
  · dsimp only
    split
    · rfl
    · split
      · rfl
      · rw [ledger_commit, ledger_recordResult, ledger_emit _ rfl]
  · rfl

theorem limits_sync (hc : Option HealthCheck) (c : HealthConfig) :
    (HealthCheck.sync hc c).limits = (hc.map HealthCheck.limits).getD (3, 30) := by
  cases hc <;> rfl

theorem ledger_background (o : Oracle) (b : Background) : (b.run o w).ledger = w.ledger := by
  cases b with
  | update c =>
    refine (ledger_emit _ rfl).trans ?_
    unfold World.ledger
    rw [← limits_sync w.db.healthCheck c.health]
    rfl
  | tickBegin =>
    simp only [Background.run, World.tickBegin]
    split <;> rfl
  | pollNext =>
    simp only [Background.run, World.pollNext]
    split
    · rfl
    · exact ledger_poll _ o _ _

theorem ledger_backgrounds (o : Oracle) (bs : List Background) :
    ∀ w : World, (bs.foldl (Background.run o) w).ledger = w.ledger := by
  induction bs with
  | nil => exact fun _ => rfl
  | cons b bs ih => exact fun w => (ih _).trans (ledger_background w o b)

theorem ledger_suspend (o : Oracle) : (w.suspend o).ledger = w.ledger := ledger_backgrounds o _ w

end Primitives

/-! ## Calls -/

section Calls

variable {w : World} {i : InstanceId} {inst : Instance}

theorem ne_next (hrow : w.ledger.row i = some inst) : i ≠ w.ledger.next :=
  Nat.ne_of_lt (Table.lt_of_row hrow)

theorem ledger_modify (hrow : w.ledger.row i = some inst) (f : Instance → Instance) :
    (w.setDb { w.db with instances := w.db.instances.modify i f }).ledger = w.ledger.put i (f inst) := by
  have hmod : (w.db.instances.modify i f).row = Function.update w.db.instances.row i (some (f inst)) := by
    funext j
    by_cases hj : j = i
    · subst hj
      have hrow' : w.db.instances.row j = some inst := hrow
      rw [Table.modify_row_self, hrow', update_self]
      rfl
    · rw [Table.modify_row_of_ne _ _ hj, update_of_ne hj]
  unfold World.ledger Ledger.put
  congr 1

theorem transition_ledger (hrow : w.ledger.row i = some inst) (target : InstanceStatus) :
    Ends (transition i target w)
      (fun _ w' => canTransition instanceTransitions inst.status target = true ∧
        w'.ledger = w.ledger.put i { inst with status := target })
      fun e w' => canTransition instanceTransitions inst.status target = false ∧
        e = .invalidInstanceTransition inst.status target ∧ w'.ledger = w.ledger := by
  have hrow' : w.db.instances.row i = some inst := hrow
  have hemit := ledger_emit w (e := .instanceTransition i inst.status target) rfl
  simp only [transition, ends_bind, ends_getDb, hrow', ends_emit, ends_ite, ends_modifyDb,
    ends_raise]
  refine ⟨fun hcan => ⟨hcan, ?_⟩, fun hcan => ⟨Bool.eq_false_iff.2 hcan, trivial, hemit⟩⟩
  have hrow1 : (w.emit (.instanceTransition i inst.status target)).ledger.row i = some inst := hrow
  have hmod := ledger_modify hrow1 fun inst => { inst with status := target }
  rw [hemit] at hmod
  exact hmod

theorem settle_ledger (hrow : w.ledger.row i = some inst) (target : InstanceStatus) :
    Ends (settle i target w)
      (fun _ w' => canTransition instanceTransitions inst.status target = true ∧
        w'.ledger = w.ledger.put i { inst with status := target })
      fun e w' => canTransition instanceTransitions inst.status target = false ∧
        e = .invalidInstanceTransition inst.status target ∧ w'.ledger = w.ledger :=
  (transition_ledger hrow target).bind
    (fun _ w' h => ⟨h.1, (ledger_commit w').trans h.2⟩) fun _ _ h => h

theorem logAudit_ledger (hrow : w.ledger.row i = some inst) (action : Instance → AuditAction) :
    Ends (logAudit i action w) (fun _ w' => w'.ledger = w.ledger.audit i (action inst) inst.port)
      fun _ _ => False := by
  have hrow' : w.db.instances.row i = some inst := hrow
  simp only [logAudit, ends_bind, ends_getInstance hrow', ends_modifyDb, ends_commit]
  exact ledger_commit _

theorem syncIfDomain_ledger (o : Oracle) (c : HealerYaml) (w : World) :
    Ends (syncIfDomain o c w) (fun _ w' => w'.ledger = w.ledger) fun _ _ => False := by
  unfold syncIfDomain
  rw [ends_ite]
  refine ⟨fun _ => ?_, fun _ => rfl⟩
  simp only [syncGateway, ends_bind, ends_read, ends_emit, ends_update, ends_suspend, ends_commit,
    ends_pure]
  refine (ledger_commit _).trans ((ledger_emit _ rfl).trans ((ledger_suspend _ o).trans ?_))
  exact ledger_emit w (e := .sync _) rfl

theorem submit_ledger (o : Oracle) (agent : ServerId) {key : CommandKey} (command : Command) {n : Note}
    (hn : (Event.submitted agent key command).note w.db = some n) :
    Ends (submitCommandAndWait o agent key command w) (fun _ w' => w'.ledger = w.ledger.write n)
      fun e w' => (∃ error, e = .sendFailed key error) ∧ w'.ledger = (w.ledger.write n).write (.lost key) := by
  have hsent : (((w.emit .commit).emit (.submitted agent key command)).suspend o).ledger = w.ledger.write n := by
    rw [ledger_suspend, ledger_write (w.emit .commit) hn, ledger_commit]
  simp only [submitCommandAndWait, ends_bind, ends_commit, ends_emit, ends_suspend]
  cases o.reply key with
  | row c => exact (ledger_emit _ rfl).trans hsent
  | sendFailed error =>
    refine ⟨⟨error, rfl⟩, ?_⟩
    rw [ledger_write _ rfl, hsent]

theorem submitStart_ledger (o : Oracle) (agent : ServerId) {key : CommandKey} {r : ReleaseId} {rel : Release}
    (c : HealerYaml) {n : Note} (hrow : w.ledger.row i = some inst)
    (hrel : w.ledger.releases.row r = some rel)
    (hn : ∀ command, (Event.submitted agent key command).note w.db = some n) :
    Ends (submitStart o agent key r i c w) (fun _ w' => w'.ledger = w.ledger.write n)
      fun e w' => (∃ error, e = .sendFailed key error) ∧ w'.ledger = (w.ledger.write n).write (.lost key) := by
  have hrow' : w.db.instances.row i = some inst := hrow
  have hrel' : w.db.releases.row r = some rel := hrel
  rw [submitStart, ends_bind, ends_getRelease hrel', ends_bind, ends_getInstance hrow']
  exact submit_ledger o agent _ (hn _)

/-- The probe of `i` has raised. -/
def RaisedLedger (i : InstanceId) (w : World) (e : Exn) (w' : World) : Prop :=
  (∃ error, e = .probeRaised error) ∧ w'.ledger = w.ledger.write (.raised i)

theorem waitLoop_ledger (o : Oracle) (i : InstanceId) (host : String) (port n : ℕ) :
    ∀ (hc : HealthCheck) (k successes failures : ℕ) (w : World),
      Ends (waitLoop o hc i host port n k successes failures w) (fun _ w' => w'.ledger = w.ledger)
        (RaisedLedger i w) := by
  induction n with
  | zero => exact fun _ _ _ _ _ => rfl
  | succ n ih =>
    intro hc k successes failures w
    simp only [waitLoop, rereadHealthCheck, ends_bind, ends_suspend, ends_read, ends_emit,
      ends_update, ends_commit, ends_ite, ends_pure]
    refine ends_probeOnce (fun answer => ?_) fun error => ⟨⟨error, rfl⟩, ?_⟩
    swap
    · rw [ledger_write _ rfl, ledger_suspend]
    have hstep : ∀ healthy failures, (((((w.suspend o).emit (.probe i host port healthy)).recordResult i healthy
        failures).emit .commit).ledger = w.ledger) := by
      intro healthy failures
      rw [ledger_commit, ledger_recordResult, ledger_emit _ rfl, ledger_suspend]
    refine ⟨fun _ => hstep _ _, fun _ => ⟨fun _ => hstep _ _, fun _ => ?_⟩⟩
    refine (ih _ _ _ _ _).mono (fun _ _ h => h.trans (hstep _ _)) fun _ _ h => ⟨h.1, ?_⟩
    rw [h.2, hstep]

theorem wait_ledger (o : Oracle) (hc : HealthCheck) (i : InstanceId) (host : String) (port : ℕ) (w : World) :
    Ends (waitUntilHealthy o hc i host port w)
      (fun healthy w' => w'.ledger = if healthy then w.ledger else w.ledger.write (.unhealthy i))
      (RaisedLedger i w) := by
  refine (waitLoop_ledger o i host port _ _ 0 0 0 w).bind (fun healthy w' h => ?_) fun _ _ h => h
  cases healthy with
  | true => exact (ledger_emit w' rfl).trans h
  | false =>
    refine (ledger_write w' rfl).trans ?_
    rw [h]
    rfl

/-- The database has refused the insert of a row. -/
def RefusedLedger (w : World) (e : Exn) (w' : World) : Prop :=
  e = .databaseError ∧ w'.ledger = w.ledger.write .unstored

theorem tryPorts_ledger (o : Oracle) (r : ReleaseId) (s : ServerId) (ports : List ℕ) (w : World) :
    Ends (tryPorts o r s ports w)
      (fun found w' => (found = none ∧ w'.ledger = w.ledger) ∨
        ∃ inst : Instance, found = some w.ledger.next ∧ inst.status = .pending ∧
          inst.lastHealingAttemptAt = none ∧ w'.ledger = w.ledger.add inst) (RefusedLedger w) := by
  induction ports with
  | nil => exact Or.inl ⟨rfl, rfl⟩
  | cons port ports ih =>
    simp only [tryPorts, ends_bind, ends_getDb, ends_ite, ends_now, ends_modifyDb, ends_pure]
    exact ⟨fun _ => ⟨rfl, ledger_write w rfl⟩, fun _ => ⟨fun _ => ih, fun _ =>
      Or.inr ⟨w.db.application.newInstance r s port w.clock, rfl, rfl, rfl, rfl⟩⟩⟩

theorem allocate_ledger (o : Oracle) (r : ReleaseId) (s : ServerId) (lo hi : ℕ) (w : World) :
    Ends (allocateInstance o r s lo hi w)
      (fun j w' => j = w.ledger.next ∧ ∃ inst : Instance, inst.status = .pending ∧
        inst.lastHealingAttemptAt = none ∧ w'.ledger = w.ledger.add inst)
      fun e w' => (∃ message, e = .deploymentSetup message) ∧ w'.ledger = w.ledger ∨ RefusedLedger w e w' := by
  refine (tryPorts_ledger o r s _ w).bind (fun found w' h => ?_) fun _ _ h => Or.inr h
  rcases h with ⟨rfl, h⟩ | ⟨inst, rfl, hst, hlast, h⟩
  · exact Or.inl ⟨⟨_, rfl⟩, h⟩
  · exact ⟨rfl, inst, hst, hlast, h⟩

theorem notify_ledger (hrow : w.ledger.row i = some inst) (reason : String) :
    Ends (notifyAdministrators i reason w) (fun _ w' => ∃ text, w'.ledger = w.ledger.notify text)
      fun _ _ => False := by
  have hrow' : w.db.instances.row i = some inst := hrow
  simp only [notifyAdministrators, ends_bind, ends_getInstance hrow', ends_modifyDb, ends_commit]
  exact ⟨_, ledger_commit _⟩

/-- FAILED already, or set to it. -/
theorem fail_ledger (reason : String)
    (hrow : w.ledger.row i = some { inst with failureReason := some reason }) :
    Ends ((if inst.status = .failed then pure () else transition i .failed : M Unit) w)
      (fun _ w' => w'.ledger = w.ledger.put i (inst.fail reason))
      fun e w' => inst.status ≠ .failed ∧ canTransition instanceTransitions inst.status .failed = false ∧
        e = .invalidInstanceTransition inst.status .failed ∧ w'.ledger = w.ledger := by
  rw [ends_ite]
  refine ⟨fun hst => ?_, fun hst => ?_⟩
  · have hself : w.ledger.row i = some (inst.fail reason) := by
      rw [hrow, Instance.fail, ← hst]
    exact (Ledger.put_self hself).symm
  · exact (transition_ledger hrow .failed).mono (fun _ w' h => h.2) fun _ w' h => ⟨hst, h⟩

theorem giveUp_ledger (hrow : w.ledger.row i = some inst) (reason : String) :
    Ends (giveUp i reason w) (fun _ w' => ∃ text, w'.ledger = w.ledger.gaveUp i inst reason text)
      fun e w' => inst.status ≠ .failed ∧ canTransition instanceTransitions inst.status .failed = false ∧
        e = .invalidInstanceTransition inst.status .failed ∧
        w'.ledger = w.ledger.put i { inst with failureReason := some reason } := by
  unfold giveUp setFailureReason
  rw [ends_bind, ends_modifyInstance]
  have h1 := ledger_modify hrow fun inst => { inst with failureReason := some reason }
  generalize w.setDb _ = w1 at h1 ⊢
  have hrow1 : w1.ledger.row i = some { inst with failureReason := some reason } := by
    rw [h1, Ledger.put_row_self]
  rw [ends_bind, ends_getInstance hrow1]
  refine (fail_ledger reason hrow1).bind (fun _ w2 h2 => ?_) fun _ w2 h2 => h1 ▸ h2
  rw [h1, Ledger.put_put, ← ledger_commit] at h2
  rw [ends_bind, ends_commit]
  generalize w2.emit .commit = w3 at h2 ⊢
  have hrow3 : w3.ledger.row i = some (inst.fail reason) := by rw [h2, Ledger.put_row_self]
  refine (logAudit_ledger hrow3 _).bind (fun _ w4 h4 => ?_) fun _ _ h => h.elim
  have hrow4 : w4.ledger.row i = some (inst.fail reason) := by rw [h4]; exact hrow3
  refine (notify_ledger hrow4 reason).mono (fun _ w5 h5 => ?_) fun _ _ h => h.elim
  obtain ⟨text, h5⟩ := h5
  refine ⟨text, ?_⟩
  rw [h5, h4, h2]
  rfl

end Calls

end Healer
