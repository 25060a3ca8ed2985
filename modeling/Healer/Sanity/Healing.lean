import Healer.Sanity.Ledger

/-! Every way a call of the healing code can end, and the ledger it leaves. -/

namespace Healer

open Prog

/-- `_give_up`. The transition is refused for a status that may not go to FAILED. -/
inductive GivenUp (i : InstanceId) (inst : Instance) (L : Ledger) : Except Exn Unit → Ledger → Prop
  | done (reason text : String) : GivenUp i inst L (.ok ()) (L.gaveUp i inst reason text)
  | barred (reason : String) (hst : inst.status ≠ .failed)
      (hbar : canTransition instanceTransitions inst.status .failed = false) :
      GivenUp i inst L (.error (.invalidInstanceTransition inst.status .failed))
        (L.put i { inst with failureReason := some reason })

/-- The replacement `j` from its start command on. -/
inductive Started (j : InstanceId) (new : Instance) (L : Ledger) : Except Exn Unit → Ledger → Prop
  | lost (error : String) : Started j new L (.error (.sendFailed (.startInstance j) error))
      ((L.write (.start j)).write (.lost (.startInstance j)))
  | refused (reason text : String) : Started j new L (.ok ()) ((L.write (.start j)).gaveUp j new reason text)
  | raised (error : String) : Started j new L (.error (.probeRaised error))
      ((L.write (.start j)).write (.raised j))
  | stuck : Started j new L (.error (.invalidInstanceTransition .starting .unhealthy))
      ((L.write (.start j)).write (.unhealthy j))
  | running : Started j new L (.ok ())
      (((L.write (.start j)).put j { new with status := .running }).audit j .recoveredByReplacement new.port)

namespace Ledger

variable (L : Ledger) (i : InstanceId) (inst new : Instance)

/-- The restart of an attempt has been asked for. -/
def tried : Ledger :=
  ((L.put i { inst with status := .restarting }).audit i (.restartAttempted inst.healingAttempts)
    inst.port).write (.restart i inst.healingAttempts inst.lastHealingAttemptAt)

/-- The restart did not help; `gated` says whether the instance got as far as its health gate. -/
def broken (gated : Bool) : Ledger :=
  ((if gated then (L.tried i inst).write (.unhealthy i) else L.tried i inst).put i
    (inst.fail "restart did not restore a healthy instance")).audit i (.restartFailed inst.healingAttempts)
    inst.port

/-- `new` has been inserted in the place of `i`. -/
def replaced : Ledger := (L.add new).audit i (.replaced L.next new.port) inst.port

end Ledger

/-- `_replace` of `i`, which is FAILED. -/
inductive Replaced (i : InstanceId) (inst : Instance) (L : Ledger) : Except Exn Unit → Ledger → Prop
  | unplaced {r : Except Exn Unit} {L' : Ledger} (h : GivenUp i inst L r L') : Replaced i inst L r L'
  | unstored : Replaced i inst L (.error .databaseError) (L.write .unstored)
  | placed {r : Except Exn Unit} {L' : Ledger} (new : Instance) (hst : new.status = .starting)
      (hattempts : new.healingAttempts = inst.healingAttempts) (hlast : new.lastHealingAttemptAt = none)
      (h : Started L.next new (L.replaced i inst new) r L') : Replaced i inst L r L'

/-- A restart, and a replacement if it does not help. -/
inductive Restarted (i : InstanceId) (inst : Instance) (L : Ledger) : Except Exn Unit → Ledger → Prop
  | barred (hbar : canTransition instanceTransitions inst.status .restarting = false) :
      Restarted i inst L (.error (.invalidInstanceTransition inst.status .restarting)) L
  | lost (error : String) :
      Restarted i inst L (.error (.sendFailed (.restartInstance i inst.healingAttempts) error))
        ((L.tried i inst).write (.lost (.restartInstance i inst.healingAttempts)))
  | raised (error : String) :
      Restarted i inst L (.error (.probeRaised error)) ((L.tried i inst).write (.raised i))
  | recovered : Restarted i inst L (.ok ())
      (((L.tried i inst).put i { inst with status := .running, failureReason := none }).audit i
        (.recovered inst.healingAttempts) inst.port)
  | replaced {r : Except Exn Unit} {L' : Ledger} (gated : Bool)
      (h : Replaced i (inst.fail "restart did not restore a healthy instance") (L.broken i inst gated) r L') :
      Restarted i inst L r L'

section Replacing

variable (o : Oracle) (hc : HealthCheck) (c : HealerYaml) (agent : ServerId) {r : ReleaseId} {rel : Release}
  (host : Option String) {i : InstanceId} {inst : Instance} {w : World}

theorem giveUp_ends (hrow : w.ledger.row i = some inst) (reason : String) :
    Ends (giveUp i reason w) (fun _ w' => GivenUp i inst w.ledger (.ok ()) w'.ledger)
      fun e w' => GivenUp i inst w.ledger (.error e) w'.ledger := by
  refine (giveUp_ledger hrow reason).mono (fun _ w' h => ?_) fun e w' h => ?_
  · obtain ⟨text, h⟩ := h
    exact h ▸ GivenUp.done reason text
  · obtain ⟨hst, hbar, rfl, h⟩ := h
    exact h ▸ GivenUp.barred reason hst hbar

theorem startReplacement_ends (hrow : w.ledger.row i = some inst) (hst : inst.status = .starting)
    (hrel : w.ledger.releases.row r = some rel) :
    Ends (startReplacement o hc c agent r host i w) (fun _ w' => Started i inst w.ledger (.ok ()) w'.ledger)
      fun e w' => Started i inst w.ledger (.error e) w'.ledger := by
  refine (submitStart_ledger o agent c hrow hrel fun _ => rfl).bind (fun row w1 h1 => ?_) fun e w1 h1 => ?_
  · have hrow1 : w1.ledger.row i = some inst := by rw [h1]; exact hrow
    rw [ends_ite]
    refine ⟨fun _ => ?_, fun _ => ?_⟩
    · -- STARTING may go to FAILED
      refine (settle_ledger hrow1 .failed).bind (fun _ w2 h2 => ?_) fun e w2 h2 => ?_
      · have hrow2 : w2.ledger.row i = some { inst with status := .failed } := by
          rw [h2.2, Ledger.put_row_self]
        refine (giveUp_ledger hrow2 _).mono (fun _ w3 h3 => ?_) fun _ w3 h3 => absurd rfl h3.1
        obtain ⟨text, h3⟩ := h3
        rw [h3, h2.2, Ledger.gaveUp, Ledger.put_put, h1]
        exact Started.refused _ text
      · rw [hst] at h2
        exact absurd h2.1 (by decide)
    · rw [ends_bind, ends_getInstance hrow1]
      refine Ends.bind (?_ : Ends _ (fun healthy w2 =>
        w2.ledger = if healthy then w1.ledger else w1.ledger.write (.unhealthy i)) (RaisedLedger i w1))
        (fun healthy w2 h2 => ?_) fun e w2 h2 => ?_
      rotate_right
      · obtain ⟨⟨error, rfl⟩, h2⟩ := h2
        rw [h2, h1]
        exact Started.raised error
      · cases host with
        | none => rfl
        | some name => exact wait_ledger o hc i name inst.port w1
      have hrow2 : w2.ledger.row i = some inst := by
        rw [h2]
        cases healthy <;> exact hrow1
      cases healthy with
      | false =>
        -- STARTING may not go to UNHEALTHY
        refine (settle_ledger hrow2 .unhealthy).bind (fun _ w3 h3 => ?_) fun e w3 h3 => ?_
        · rw [hst] at h3
          exact absurd h3.1 (by decide)
        · obtain ⟨-, rfl, h3⟩ := h3
          rw [h3, h2, h1, hst]
          exact Started.stuck
      | true =>
        refine (settle_ledger hrow2 .running).bind (fun _ w3 h3 => ?_) fun e w3 h3 => ?_
        · have hrow3 : w3.ledger.row i = some { inst with status := .running } := by
            rw [h3.2, Ledger.put_row_self]
          refine (logAudit_ledger hrow3 _).bind (fun _ w4 h4 => ?_) fun _ _ h => h.elim
          refine (syncIfDomain_ledger o c w4).mono (fun _ w5 h5 => ?_) fun _ _ h => h.elim
          rw [h5, h4, h3.2, h2, h1]
          exact Started.running
        · rw [hst] at h3
          exact absurd h3.1 (by decide)
  · obtain ⟨⟨error, rfl⟩, h1⟩ := h1
    exact h1 ▸ Started.lost error

/-- `_replace` once the new row is there. -/
theorem placed_ends (hrow : w.ledger.row i = some inst) (hrel : w.ledger.releases.row r = some rel)
    {w1 : World} {row : Instance} (hst : row.status = .pending) (hlast : row.lastHealingAttemptAt = none)
    (h1 : w1.ledger = w.ledger.add row) :
    Ends ((do
        modifyInstance w.ledger.next fun new => { new with
          healingAttempts := inst.healingAttempts, deploymentId := inst.deploymentId }
        settle w.ledger.next .starting
        let new ← getInstance w.ledger.next
        logAudit i fun _ => .replaced w.ledger.next new.port
        startReplacement o hc c agent r host w.ledger.next : M Unit) w1)
      (fun _ w' => Replaced i inst w.ledger (.ok ()) w'.ledger)
      fun e w' => Replaced i inst w.ledger (.error e) w'.ledger := by
  have hrow1 : w1.ledger.row w.ledger.next = some row := by rw [h1, Ledger.add_row_next]
  rw [ends_bind, ends_modifyInstance]
  have h2 := ledger_modify hrow1 fun new => { new with
    healingAttempts := inst.healingAttempts, deploymentId := inst.deploymentId }
  rw [h1, Ledger.add_put] at h2
  generalize w1.setDb _ = w2 at h2 ⊢
  have hrow2 : w2.ledger.row w.ledger.next = some { row with
      healingAttempts := inst.healingAttempts, deploymentId := inst.deploymentId } := by
    rw [h2, Ledger.add_row_next]
  -- PENDING may go to STARTING
  refine (settle_ledger hrow2 .starting).bind (fun _ w3 h3 => ?_) fun e w3 h3 => ?_
  · obtain ⟨-, h3⟩ := h3
    rw [h2, Ledger.add_put] at h3
    generalize hnew : ({ row with
      healingAttempts := inst.healingAttempts, deploymentId := inst.deploymentId,
      status := .starting } : Instance) = new at h3
    have hrow3 : w3.ledger.row w.ledger.next = some new := by rw [h3, Ledger.add_row_next]
    have hold3 : w3.ledger.row i = some inst := by
      rw [h3, Ledger.add_row_of_ne _ _ (ne_next hrow)]
      exact hrow
    rw [ends_bind, ends_getInstance hrow3]
    refine (logAudit_ledger hold3 _).bind (fun _ w4 h4 => ?_) fun _ _ h => h.elim
    rw [h3] at h4
    have hrow4 : w4.ledger.row w.ledger.next = some new := by
      rw [h4]
      exact Ledger.add_row_next _ _
    have hrel4 : w4.ledger.releases.row r = some rel := by rw [h4]; exact hrel
    have hnewst : new.status = .starting := by rw [← hnew]
    have hend := startReplacement_ends o hc c agent host hrow4 hnewst hrel4
    rw [h4] at hend
    have hattempts : new.healingAttempts = inst.healingAttempts := by rw [← hnew]
    have hnewlast : new.lastHealingAttemptAt = none := by rw [← hnew]; exact hlast
    exact hend.mono (fun _ _ h => .placed new hnewst hattempts hnewlast h) fun _ _ h =>
      .placed new hnewst hattempts hnewlast h
  · rw [hst] at h3
    exact absurd h3.1 (by decide)

theorem replace_ends (hrow : w.ledger.row i = some inst) (hrel : w.ledger.releases.row r = some rel) :
    Ends (replace o hc c agent r host i w) (fun _ w' => Replaced i inst w.ledger (.ok ()) w'.ledger)
      fun e w' => Replaced i inst w.ledger (.error e) w'.ledger := by
  have hlost : ∀ reason w1, w1.ledger = w.ledger → Ends (giveUp i reason w1)
      (fun _ w' => Replaced i inst w.ledger (.ok ()) w'.ledger)
      fun e w' => Replaced i inst w.ledger (.error e) w'.ledger := by
    intro reason w1 h1
    rw [← h1] at hrow ⊢
    exact (giveUp_ends hrow reason).mono (fun _ _ h => .unplaced h) fun _ _ h => .unplaced h
  rw [replace, ends_bind, ends_getDb]
  rcases w.db.application.portRangeStart with _ | lo
  · exact hlost _ w rfl
  rcases w.db.application.portRangeEnd with _ | hi
  · exact hlost _ w rfl
  have hrow' : w.db.instances.row i = some inst := hrow
  rw [ends_bind, ends_getInstance hrow', ends_bind, ends_attempt]
  refine (allocate_ledger o r inst.serverId lo hi w).mono (fun j w1 h1 => ?_) fun e w1 h1 => ?_
  · obtain ⟨rfl, row, hst, hlast, h1⟩ := h1
    exact placed_ends o hc c agent host hrow hrel hst hlast h1
  · obtain ⟨⟨message, rfl⟩, h1⟩ | ⟨rfl, h1⟩ := h1
    · exact hlost _ w1 h1
    · rw [ends_raise, h1]
      exact Replaced.unstored

theorem tried_row (L : Ledger) (i : InstanceId) (inst : Instance) :
    (L.tried i inst).row i = some { inst with status := .restarting } := L.put_row_self _ _

/-- The restart helped. -/
theorem recovered_ends {L : Ledger} (h : w.ledger = L.tried i inst) :
    Ends ((do
        transition i .running
        setFailureReason i none
        commit
        logAudit i fun inst => .recovered inst.healingAttempts
        syncIfDomain o c : M Unit) w) (fun _ w' => Restarted i inst L (.ok ()) w'.ledger)
      fun e w' => Restarted i inst L (.error e) w'.ledger := by
  have hrow : w.ledger.row i = some { inst with status := .restarting } := by rw [h, tried_row]
  have hcan : ¬ canTransition instanceTransitions .restarting .running = false := by decide
  refine (transition_ledger hrow .running).bind (fun _ w1 h1 => ?_) fun e w1 h1 => absurd h1.1 hcan
  obtain ⟨-, h1⟩ := h1
  have hrow1 : w1.ledger.row i = some { inst with status := .running } := by rw [h1, Ledger.put_row_self]
  rw [setFailureReason, ends_bind, ends_modifyInstance, ends_bind, ends_commit]
  have h2 := (ledger_commit _).trans (ledger_modify hrow1 fun inst => { inst with failureReason := none })
  rw [h1, Ledger.put_put, h] at h2
  generalize World.emit _ .commit = w2 at h2 ⊢
  have hrow2 : w2.ledger.row i = some { inst with status := .running, failureReason := none } := by
    rw [h2, Ledger.put_row_self]
  refine (logAudit_ledger hrow2 _).bind (fun _ w3 h3 => ?_) fun _ _ h => h.elim
  refine (syncIfDomain_ledger o c w3).mono (fun _ w4 h4 => ?_) fun _ _ h => h.elim
  rw [h4, h3, h2]
  exact Restarted.recovered

/-- The restart did not help. -/
theorem broken_ends {L : Ledger} {gated : Bool} (hrel : w.ledger.releases.row r = some rel)
    (h : w.ledger = if gated then (L.tried i inst).write (.unhealthy i) else L.tried i inst) :
    Ends ((do
        setFailureReason i (some "restart did not restore a healthy instance")
        settle i .failed
        logAudit i fun inst => .restartFailed inst.healingAttempts
        replace o hc c agent r host i : M Unit) w) (fun _ w' => Restarted i inst L (.ok ()) w'.ledger)
      fun e w' => Restarted i inst L (.error e) w'.ledger := by
  have hrow : w.ledger.row i = some { inst with status := .restarting } := by
    rw [h]
    cases gated <;> exact tried_row L i inst
  rw [setFailureReason, ends_bind, ends_modifyInstance]
  have h1 := ledger_modify hrow fun inst => { inst with
    failureReason := some "restart did not restore a healthy instance" }
  generalize w.setDb _ = w1 at h1 ⊢
  have hrow1 : w1.ledger.row i = some { inst with
      status := .restarting, failureReason := some "restart did not restore a healthy instance" } := by
    rw [h1, Ledger.put_row_self]
  have hcan : ¬ canTransition instanceTransitions .restarting .failed = false := by decide
  refine (settle_ledger hrow1 .failed).bind (fun _ w2 h2 => ?_) fun e w2 h2 => absurd h2.1 hcan
  obtain ⟨-, h2⟩ := h2
  rw [h1, Ledger.put_put] at h2
  have hrow2 : w2.ledger.row i = some (inst.fail "restart did not restore a healthy instance") := by
    rw [h2]
    exact Ledger.put_row_self _ _ _
  refine (logAudit_ledger hrow2 _).bind (fun _ w3 h3 => ?_) fun _ _ h => h.elim
  have hrow3 : w3.ledger.row i = some (inst.fail "restart did not restore a healthy instance") := by
    rw [h3]
    exact hrow2
  have hrel3 : w3.ledger.releases.row r = some rel := by rw [h3, h2]; exact hrel
  have hend := replace_ends o hc c agent host hrow3 hrel3
  have hl : w3.ledger = L.broken i inst gated := by rw [h3, h2, h]; rfl
  rw [hl] at hend
  exact hend.mono (fun _ _ h => .replaced gated h) fun _ _ h => .replaced gated h

theorem restartOrReplace_ends (hrow : w.ledger.row i = some inst) (hrel : w.ledger.releases.row r = some rel) :
    Ends (restartOrReplace o hc c agent r host i w) (fun _ w' => Restarted i inst w.ledger (.ok ()) w'.ledger)
      fun e w' => Restarted i inst w.ledger (.error e) w'.ledger := by
  refine (settle_ledger hrow .restarting).bind (fun _ w1 h1 => ?_) fun e w1 h1 => ?_
  · obtain ⟨-, h1⟩ := h1
    have hrow1 : w1.ledger.row i = some { inst with status := .restarting } := by rw [h1, Ledger.put_row_self]
    refine (logAudit_ledger hrow1 _).bind (fun _ w2 h2 => ?_) fun _ _ h => h.elim
    have hrow2 : w2.ledger.row i = some { inst with status := .restarting } := by rw [h2]; exact hrow1
    have hrel2 : w2.ledger.releases.row r = some rel := by rw [h2, h1]; exact hrel
    have hnote : ∀ command, (Event.submitted agent (.restartInstance i inst.healingAttempts) command).note w2.db =
        some (.restart i inst.healingAttempts inst.lastHealingAttemptAt) := by
      intro command
      have hdb : w2.db.instances.row i = some { inst with status := .restarting } := hrow2
      simp only [Event.note, hdb, Option.bind_some]
    rw [ends_bind, ends_getInstance hrow2]
    refine (submitStart_ledger o agent c hrow2 hrel2 hnote).bind (fun row w3 h3 => ?_) fun e w3 h3 => ?_
    · have hl : w3.ledger = w.ledger.tried i inst := by rw [h3, h2, h1]; rfl
      refine Ends.bind (?_ : Ends _ (fun healthy w4 => (healthy = true ∧ w4.ledger = w.ledger.tried i inst) ∨
        healthy = false ∧ ∃ gated : Bool, w4.ledger = if gated then (w.ledger.tried i inst).write (.unhealthy i)
          else w.ledger.tried i inst) (RaisedLedger i w3)) (fun healthy w4 h4 => ?_) fun e w4 h4 => ?_
      rotate_right
      · obtain ⟨⟨error, rfl⟩, h4⟩ := h4
        rw [h4, hl]
        exact Restarted.raised error
      · rcases row.ok with _ | _
        · exact Or.inr ⟨rfl, false, hl⟩
        rcases host with _ | name
        · exact Or.inr ⟨rfl, false, hl⟩
        refine (wait_ledger o hc i name inst.port w3).mono (fun healthy w4 h4 => ?_) fun _ _ h => h
        rw [hl] at h4
        cases healthy with
        | true => exact Or.inl ⟨rfl, h4⟩
        | false => exact Or.inr ⟨rfl, true, h4⟩
      · rcases h4 with ⟨rfl, h4⟩ | ⟨rfl, gated, h4⟩
        · exact recovered_ends o c h4
        · have hrel4 : w4.ledger.releases.row r = some rel := by
            rw [h4]
            cases gated <;> exact hrel
          exact broken_ends o hc c agent host hrel4 h4
    · obtain ⟨⟨error, rfl⟩, h3⟩ := h3
      rw [h3, h2, h1]
      exact Restarted.lost error
  · obtain ⟨hbar, rfl, h1⟩ := h1
    exact h1 ▸ Restarted.barred hbar

end Replacing

/-! ## A whole call -/

/-- The last attempt is too short a time ago. -/
def Instance.cooling (inst : Instance) (cooldown : ℕ) (now : Time) : Bool :=
  inst.lastHealingAttemptAt.any fun t => now - t < seconds cooldown

/-- An attempt is counted before it is made. -/
def Instance.counted (inst : Instance) (t : Time) : Instance :=
  { inst with healingAttempts := inst.healingAttempts + 1, lastHealingAttemptAt := some t }

/-- RUNNING becomes UNHEALTHY, which takes the instance out of the gateway. -/
def Instance.removed (inst : Instance) : Instance :=
  if inst.status = .running then { inst with status := .unhealthy } else inst

theorem removed_port (inst : Instance) : inst.removed.port = inst.port := by
  unfold Instance.removed
  split_ifs <;> rfl

def Ledger.removed (L : Ledger) (i : InstanceId) (inst : Instance) : Ledger :=
  (L.put i inst.removed).audit i .removedUnhealthy inst.port

/-- `handle_unhealthy_instance` once the instance is out of the gateway. -/
inductive Attempted (i : InstanceId) (inst : Instance) (L : Ledger) : Except Exn Unit → World → Prop
  | givenUp {r : Except Exn Unit} {w' : World} (h : GivenUp i inst L r w'.ledger) : Attempted i inst L r w'
  | cooling {w' : World} (h : w'.ledger = L) (hcool : inst.cooling L.limits.2 w'.clock = true) :
      Attempted i inst L (.ok ()) w'
  | unreleased {r : Except Exn Unit} {w' : World} (t : Time) (hcool : inst.cooling L.limits.2 t = false)
      (hmax : inst.healingAttempts < L.limits.1)
      (h : GivenUp i (inst.counted t) (L.put i (inst.counted t)) r w'.ledger) : Attempted i inst L r w'
  | restarted {r : Except Exn Unit} {w' : World} (t : Time) (hcool : inst.cooling L.limits.2 t = false)
      (hmax : inst.healingAttempts < L.limits.1)
      (h : Restarted i (inst.counted t) (L.put i (inst.counted t)) r w'.ledger) : Attempted i inst L r w'

section Handling

variable (o : Oracle) (hc : HealthCheck) {i : InstanceId} {inst : Instance} {w : World}

theorem cooled_eq (inst : Instance) (hc : HealthCheck) (t : Time) :
    inst.cooled hc t = !inst.cooling hc.limits.2 t := rfl

theorem limits_of_check {hc : HealthCheck} (hhc : w.db.healthCheck = some hc) : hc.limits = w.ledger.limits := by
  unfold World.ledger
  rw [hhc]
  rfl

theorem limits_reread (hlim : hc.limits = w.ledger.limits) : (w.db.healthCheck.getD hc).limits = w.ledger.limits := by
  rcases h : w.db.healthCheck with _ | hc'
  · exact hlim
  · simp [World.ledger, h]

theorem attemptHealing_ends (c : HealerYaml) (connected : Bool) (host : Option String)
    (hlim : hc.limits = w.ledger.limits) (hrow : w.ledger.row i = some inst) :
    Ends (attemptHealing o hc c connected host i w) (fun _ w' => Attempted i inst w.ledger (.ok ()) w')
      fun e w' => Attempted i inst w.ledger (.error e) w' := by
  have hrow' : w.db.instances.row i = some inst := hrow
  have hlim' := limits_reread hc hlim
  simp only [attemptHealing, ends_bind, ends_getInstance hrow', rereadHealthCheck, ends_read, ends_now]
  generalize w.db.healthCheck.getD hc = hc' at hlim' ⊢
  have hlost : ∀ reason, Ends (giveUp i reason w) (fun _ w' => Attempted i inst w.ledger (.ok ()) w')
      fun e w' => Attempted i inst w.ledger (.error e) w' := fun reason =>
    (giveUp_ends hrow reason).mono (fun _ _ h => .givenUp h) fun _ _ h => .givenUp h
  rw [ends_ite]
  refine ⟨fun _ => hlost _, fun _ => ?_⟩
  rw [ends_ite]
  refine ⟨fun hcool => ?_, fun hcool => ?_⟩
  · refine Attempted.cooling rfl ?_
    rw [cooled_eq, hlim', Bool.not_not] at hcool
    exact hcool
  rw [ends_ite]
  refine ⟨fun _ => hlost _, fun hmax => ?_⟩
  have hcool' : inst.cooling w.ledger.limits.2 w.clock = false := by
    rw [cooled_eq, hlim', Bool.not_not] at hcool
    exact Bool.eq_false_iff.2 hcool
  have hmax' : inst.healingAttempts < w.ledger.limits.1 := by
    rw [← hlim']
    exact Nat.lt_of_not_le hmax
  refine Ends.bind (?_ : Ends _ (fun _ w1 => w1.ledger = w.ledger.put i (inst.counted w.clock)) fun _ _ => False)
    (fun _ w0 h0 => ?_) fun _ _ h => h.elim
  · exact ledger_modify hrow _
  rw [ends_bind, ends_commit, ends_bind, ends_getDb]
  have h1 := (ledger_commit w0).trans h0
  generalize w0.emit .commit = w1 at h1 ⊢
  have hrow1 : w1.ledger.row i = some (inst.counted w.clock) := by rw [h1, Ledger.put_row_self]
  rcases hr : inst.releaseId.filter fun r => (w1.db.releases.row r).isSome with _ | r
  · refine (giveUp_ends hrow1 _).mono (fun _ _ h => ?_) fun _ _ h => ?_
    · exact .unreleased w.clock hcool' hmax' (h1 ▸ h)
    · exact .unreleased w.clock hcool' hmax' (h1 ▸ h)
  · obtain ⟨rel, hrel⟩ := Option.isSome_iff_exists.1 (Option.filter_eq_some_iff.1 hr).2
    refine (restartOrReplace_ends o _ c _ host hrow1 hrel).mono (fun _ _ h => ?_) fun _ _ h => ?_
    · exact .restarted w.clock hcool' hmax' (h1 ▸ h)
    · exact .restarted w.clock hcool' hmax' (h1 ▸ h)

theorem handle_invalid (hconfig : w.db.application.config = none) (hc : HealthCheck) (i : InstanceId) :
    handleUnhealthyInstance o hc i w = (.error .validationError, w) := by
  have hraise : configFromApplication w = (.error .validationError, w) := by
    simp only [configFromApplication, getDb, run_read_bind, hconfig]
    rfl
  exact run_bind_error hraise

/-- `handle_unhealthy_instance` with a config that validates. -/
theorem handle_ends {c : HealerYaml} (hconfig : w.db.application.config = some c)
    (hlim : hc.limits = w.ledger.limits) (hrow : w.ledger.row i = some inst) :
    Ends (handleUnhealthyInstance o hc i w)
      (fun _ w' => Attempted i inst.removed (w.ledger.removed i inst) (.ok ()) w')
      fun e w' => Attempted i inst.removed (w.ledger.removed i inst) (.error e) w' := by
  have hrow' : w.db.instances.row i = some inst := hrow
  rw [handleUnhealthyInstance, ends_bind, ends_config hconfig, ends_bind, ends_getInstance hrow',
    ends_bind, ends_getDb]
  refine Ends.bind (?_ : Ends _ (fun _ w1 => w1.ledger = w.ledger.put i inst.removed) fun _ _ => False)
    (fun _ w1 h1 => ?_) fun _ _ h => h.elim
  · rw [ends_ite]
    refine ⟨fun hst => ?_, fun hst => ?_⟩
    · refine (settle_ledger hrow .unhealthy).mono (fun _ w1 h1 => ?_) fun _ w1 h1 => ?_
      · rw [Instance.removed, if_pos hst]
        exact h1.2
      · rw [hst] at h1
        exact absurd h1.1 (by decide)
    · rw [Instance.removed, if_neg hst, Ledger.put_self hrow]
      rfl
  · have hrow1 : w1.ledger.row i = some inst.removed := by rw [h1, Ledger.put_row_self]
    refine (logAudit_ledger hrow1 _).bind (fun _ w2 h2 => ?_) fun _ _ h => h.elim
    refine (syncIfDomain_ledger o c w2).bind (fun _ w3 h3 => ?_) fun _ _ h => h.elim
    have hl : w3.ledger = w.ledger.removed i inst := by
      rw [h3, h2, h1, removed_port]
      rfl
    have hrow3 : w3.ledger.row i = some inst.removed := by rw [h3, h2]; exact hrow1
    have hlim3 : hc.limits = w3.ledger.limits := by rw [hl]; exact hlim
    rw [← hl]
    exact attemptHealing_ends o hc c _ _ hlim3 hrow3

/-! Under the lock. -/

theorem Attempted.congr {L : Ledger} {r : Except Exn Unit} {w' w'' : World} (h : Attempted i inst L r w')
    (hl : w''.ledger = w'.ledger) (hclock : w''.clock = w'.clock) : Attempted i inst L r w'' := by
  cases h with
  | givenUp h => exact .givenUp (hl ▸ h)
  | cooling h hcool => exact .cooling (hl.trans h) (hclock ▸ hcool)
  | unreleased t hcool hmax h => exact .unreleased t hcool hmax (hl ▸ h)
  | restarted t hcool hmax h => exact .restarted t hcool hmax (hl ▸ h)

theorem heal_held (hheld : w.db.application.lockFree w.clock = false) (i : InstanceId) :
    heal o hc i w = (.ok (), w.emit .commit) := by
  simp only [heal, run_attempt_bind, LockService.acquire, now, getDb, run_read_bind,
    Application.acquire, hheld]
  rfl

/-- What `acquire` leaves when the lock is free. -/
def World.locked (w : World) : World :=
  (w.setDb { w.db with application := { w.db.application with
    operationLock := some "heal", operationLockAcquiredAt := some w.clock } }).emit .commit

theorem ledger_locked (w : World) : w.locked.ledger = w.ledger := ledger_commit _

theorem heal_free (hfree : w.db.application.lockFree w.clock = true) (i : InstanceId) :
    heal o hc i w = LockService.releaseFinally (handleUnhealthyInstance o hc i) w.clock w.locked := by
  have hok : LockService.acquire "heal" w = (.ok w.clock, w.locked) := by
    simp only [LockService.acquire, now, getDb, run_read_bind, Application.acquire, hfree]
    rfl
  rw [heal, run_attempt_bind, hok]

theorem unlock_ledger (token : Time) (w : World) :
    (w.unlock token).ledger = w.ledger ∧ (w.unlock token).clock = w.clock :=
  ⟨ledger_commit _, rfl⟩

theorem heal_ends {c : HealerYaml} (hfree : w.db.application.lockFree w.clock = true)
    (hconfig : w.db.application.config = some c) (hlim : hc.limits = w.ledger.limits)
    (hrow : w.ledger.row i = some inst) :
    Ends (heal o hc i w) (fun _ w' => Attempted i inst.removed (w.ledger.removed i inst) (.ok ()) w')
      fun e w' => Attempted i inst.removed (w.ledger.removed i inst) (.error e) w' := by
  rw [← ledger_locked w] at hlim hrow ⊢
  have hconfig' : w.locked.db.application.config = some c := hconfig
  rw [heal_free o hc hfree, ends_releaseFinally]
  refine (handle_ends o hc hconfig' hlim hrow).mono (fun _ w1 h1 => ?_) fun e w1 h1 => released_of h1 ?_
  · exact h1.congr (unlock_ledger _ w1).1 (unlock_ledger _ w1).2
  · exact h1.congr (unlock_ledger _ w1).1 (unlock_ledger _ w1).2

theorem heal_invalid (hfree : w.db.application.lockFree w.clock = true)
    (hconfig : w.db.application.config = none) :
    Ends (heal o hc i w) (fun _ _ => False) fun _ w' => w'.ledger = w.ledger := by
  have hconfig' : w.locked.db.application.config = none := hconfig
  rw [heal_free o hc hfree, ends_releaseFinally, handle_invalid o hconfig', ends_error]
  exact (unlock_ledger _ w.locked).1.trans (ledger_locked w)

end Handling

end Healer
