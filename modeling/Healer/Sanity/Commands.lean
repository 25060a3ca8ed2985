import Healer.Lib.Runs
import Healer.Spec.Commands

/-! What the calls of `command_service` write, said once: every call is a sequence of the writes
below. -/

namespace Healer

open Prog Table

variable {ρ : Type}

/-- A write to the tables of commands and of their events. -/
inductive AgentDb.Write : AgentDb ρ → AgentDb ρ → Prop
  /-- `submit_command` adds a row. -/
  | insert {db : AgentDb ρ} (r : CommandRow ρ) (hr : r.status = .pending) :
    Write db { db with commands := db.commands.insert r }
  /-- A sender marks a command `SENT` and writes no event. -/
  | sent {db : AgentDb ρ} {i : CommandId} {r : CommandRow ρ} (hrow : db.commands.row i = some r)
      (hr : r.status = .pending) :
    Write db (db.setCommand i fun r => { r with status := .sent })
  /-- A status with its event. -/
  | noted {db : AgentDb ρ} {i : CommandId} {r : CommandRow ρ} {f : CommandRow ρ → CommandRow ρ}
      {e : CommandEventRow ρ} (hrow : db.commands.row i = some r) (he : e.commandId = i)
      (hedge : r.status.Edge e.status) (hf : (f r).status = e.status)
      (hg : (f r).agentId = r.agentId) :
    Write db ((db.setCommand i f).addEvent e)
  /-- Nothing about commands. -/
  | rest {db db' : AgentDb ρ} (hc : db'.commands = db.commands) (he : db'.events = db.events) :
    Write db db'

abbrev AgentDb.Writes : AgentDb ρ → AgentDb ρ → Prop := Relation.ReflTransGen AgentDb.Write

theorem AgentDb.Write.writes {db db' : AgentDb ρ} (h : db.Write db') : db.Writes db' :=
  Relation.ReflTransGen.single h

@[simp] theorem setCommand_commands (db : AgentDb ρ) (i : CommandId) (f : CommandRow ρ → CommandRow ρ) :
    (db.setCommand i f).commands = db.commands.modify i f := rfl

@[simp] theorem addEvent_commands (db : AgentDb ρ) (e : CommandEventRow ρ) :
    (db.addEvent e).commands = db.commands := rfl

@[simp] theorem addEvent_events (db : AgentDb ρ) (e : CommandEventRow ρ) :
    (db.addEvent e).events = db.events ++ [e] := rfl

section Transition

variable {s : AgentDb ρ} {i : CommandId} {r : CommandRow ρ} {target : CommandStatus}

theorem transitionCommand_of_edge (hrow : s.commands.row i = some r) (hedge : r.status.Edge target) :
    transitionCommand i target s = (.ok (), s.setCommand i fun r => { r with status := target }) := by
  rw [transitionCommand, run_read_bind, hrow]
  dsimp only
  rw [if_pos (by exact hedge)]
  rfl

theorem transitionCommand_of_not_edge (hrow : s.commands.row i = some r) (hedge : ¬ r.status.Edge target) :
    transitionCommand i target s = (.error (.invalidTransition r.status target), s) := by
  rw [transitionCommand, run_read_bind, hrow]
  dsimp only
  rw [if_neg (by exact hedge)]
  rfl

end Transition

section RecordEvent

variable {cols : Columns ρ} {s : AgentDb ρ} {i : CommandId} {r : CommandRow ρ}
  {status : CommandStatus} {result error : Option ρ} {t : Time}

/-- The row after `record_event`. -/
def Columns.recorded (cols : Columns ρ) (status : CommandStatus) (result error : Option ρ)
    (r : CommandRow ρ) : CommandRow ρ :=
  { r with status := status, result := result.or r.result, error := (error.bind cols.text).or r.error }

theorem recordEvent_ok (hrow : s.commands.row i = some r) (hedge : r.status.Edge status)
    (htakes : cols.takes result error = true) :
    recordEvent cols i status result error t s =
      (.ok (), (s.setCommand i (cols.recorded status result error)).addEvent
        ⟨i, status, cols.detail result error, t⟩) := by
  rw [recordEvent, run_read_bind, run_bind_ok (transitionCommand_of_edge hrow hedge),
    if_pos htakes]
  -- the two writes to the row are one
  have hset := s.commands.modify_modify i (fun r => { r with status := status })
    (fun r => { r with result := result.or r.result, error := (error.bind cols.text).or r.error })
  simp only [Prog.update, AgentDb.setCommand, hset]
  rfl

theorem recordEvent_invalid (hrow : s.commands.row i = some r) (hedge : ¬ r.status.Edge status) :
    recordEvent cols i status result error t s = (.error (.invalidTransition r.status status), s) := by
  rw [recordEvent, run_read_bind, run_bind_error (transitionCommand_of_not_edge hrow hedge)]

theorem recordEvent_refused (hrow : s.commands.row i = some r) (hedge : r.status.Edge status)
    (htakes : ¬ cols.takes result error = true) :
    recordEvent cols i status result error t s = (.error .dataError, s) := by
  rw [recordEvent, run_read_bind, run_bind_ok (transitionCommand_of_edge hrow hedge),
    if_neg htakes]
  rfl

end RecordEvent

section Messages

variable {cols : Columns ρ} {g : AgentId} {now : Time} {s : AgentDb ρ} {p : CommandEvent ρ}

/-- An event of the agent's own command, with what `record_event` is called with. -/
structure CommandEvent.Reports (p : CommandEvent ρ) (s : AgentDb ρ) (g : AgentId) (now : Time)
    (i : CommandId) (r : CommandRow ρ) (status : CommandStatus) (t : Time) : Prop where
  commandId : p.commandId = .value i
  row : s.commands.row i = some r
  own : r.agentId = g
  status : p.status = some status
  occurredAt : p.occurredAt.orNow now = some t

theorem handleCommandEvent_own {i : CommandId} {r : CommandRow ρ}
    {status : CommandStatus} {t : Time} (h : p.Reports s g now i r status t) :
    handleCommandEvent cols g now p s = recordEvent cols i status p.result p.error t s := by
  have hown : ((s.commands.row i).any fun r => r.agentId == g) = true := by simp [h.row, h.own]
  simp only [handleCommandEvent, h.commandId, h.status, h.occurredAt]
  rw [run_read_bind, if_pos hown]

theorem handleCommandEvent_foreign {i : CommandId} (hid : p.commandId = .value i)
    (h : ¬ ((s.commands.row i).any fun r => r.agentId == g) = true) :
    handleCommandEvent cols g now p s = (.ok (), s) := by
  simp only [handleCommandEvent, hid]
  rw [run_read_bind, if_neg h]
  rfl

/-- `_handle_command_event` writes nothing unless it hands the event to `record_event`. -/
theorem handleCommandEvent_idle
    (h : ∀ i r status t, ¬ p.Reports s g now i r status t) :
    (handleCommandEvent cols g now p s).2 = s := by
  cases hid : p.commandId with
  | absent => simp only [handleCommandEvent, hid]; rfl
  | bad => simp only [handleCommandEvent, hid]; rfl
  | value i =>
    by_cases hown : ((s.commands.row i).any fun r => r.agentId == g) = true
    · simp only [handleCommandEvent, hid]
      rw [run_read_bind, if_pos hown]
      obtain ⟨r, hrow, hg⟩ := (Option.any_eq_true _ _).1 hown
      cases hstatus : p.status with
      | none => rfl
      | some status =>
        cases ht : p.occurredAt.orNow now with
        | none => rfl
        | some t => exact absurd ⟨hid, hrow, by simpa using hg, hstatus, ht⟩ (h i r status t)
    · rw [handleCommandEvent_foreign hid hown]

/-- A message writes the event of a command of the agent's own that fits its status, or nothing
about commands. -/
theorem handleMessage_cases (cols : Columns ρ) (m : AgentMessage ρ) :
    ((handleMessage cols g now m s).2.commands = s.commands ∧
      (handleMessage cols g now m s).2.events = s.events) ∨
    ∃ p i r status t, m = .commandEvent p ∧ p.Reports s g now i r status t ∧ r.status.Edge status ∧
      (handleMessage cols g now m s).2 =
        (s.setCommand i (cols.recorded status p.result p.error)).addEvent
          ⟨i, status, cols.detail p.result p.error, t⟩ := by
  cases m with
  | hello payload =>
    left
    cases payload with
    | none => exact ⟨rfl, rfl⟩
    | some h =>
      simp only [handleMessage, applyHello]
      split_ifs <;> exact ⟨rfl, rfl⟩
  | heartbeat payload =>
    left
    cases payload with
    | none => exact ⟨rfl, rfl⟩
    | some h =>
      simp only [handleMessage, applyHeartbeat]
      split_ifs <;> exact ⟨rfl, rfl⟩
  | unknown => exact .inl ⟨rfl, rfl⟩
  | commandEvent p =>
    have hm : handleMessage cols g now (.commandEvent p) s = handleCommandEvent cols g now p s := rfl
    rw [hm]
    by_cases hreports : ∃ i r status t, p.Reports s g now i r status t
    · obtain ⟨i, r, status, t, h⟩ := hreports
      by_cases hedge : r.status.Edge status
      · by_cases htakes : cols.takes p.result p.error = true
        · right
          refine ⟨p, i, r, status, t, rfl, h, hedge, ?_⟩
          rw [handleCommandEvent_own h, recordEvent_ok h.row hedge htakes]
        · left
          rw [handleCommandEvent_own h, recordEvent_refused h.row hedge htakes]
          exact ⟨rfl, rfl⟩
      · left
        rw [handleCommandEvent_own h, recordEvent_invalid h.row hedge]
        exact ⟨rfl, rfl⟩
    · left
      rw [handleCommandEvent_idle fun i r status t h => hreports ⟨i, r, status, t, h⟩]
      exact ⟨rfl, rfl⟩

theorem handleMessage_writes (m : AgentMessage ρ) : s.Writes (handleMessage cols g now m s).2 := by
  obtain ⟨hc, he⟩ | ⟨p, i, r, status, t, -, h, hedge, heq⟩ := handleMessage_cases cols m
  · exact (AgentDb.Write.rest hc he).writes
  · rw [heq]
    exact (AgentDb.Write.noted h.row rfl hedge rfl rfl).writes

/-- The commands of other agents are left as they are. -/
theorem handleMessage_foreign (m : AgentMessage ρ) {i : CommandId} {r : CommandRow ρ}
    (hrow : s.commands.row i = some r) (hg : r.agentId ≠ g) :
    (handleMessage cols g now m s).2.commands.row i = some r := by
  obtain ⟨hc, -⟩ | ⟨p, j, r', status, t, -, h, -, heq⟩ := handleMessage_cases cols m
  · rw [hc, hrow]
  · have hne : i ≠ j := by
      rintro rfl
      have : r' = r := Option.some.inj (h.row.symm.trans hrow)
      exact hg (this ▸ h.own)
    rw [heq, addEvent_commands, setCommand_commands, modify_row_of_ne _ _ hne, hrow]

end Messages

section Calls

variable {s : AgentDb ρ} {i : CommandId} {r : CommandRow ρ} {send : Sending}

theorem sendCommand_ok {t : Time} (hsend : send i = some t)
    (hrow : s.commands.row i = some r) (hr : r.status = .pending) :
    sendCommand send i s = (.ok (), (s.transmit i t).setCommand i fun r => { r with status := .sent }) := by
  have hrow' : (s.transmit i t).commands.row i = some r := hrow
  have hedge : r.status.Edge .sent := by rw [hr]; decide
  simp only [sendCommand, hsend]
  exact (run_bind_ok rfl).trans (transitionCommand_of_edge hrow' hedge)

theorem sendCommand_closed (hsend : send i = none) :
    sendCommand send i s = (.error .closed, s) := by
  simp only [sendCommand, hsend]
  rfl

theorem overdue_edge {now : Time} (h : r.overdue now = true) :
    r.status.Edge (expiryTarget r.status) := by
  obtain ⟨_, _, status, _, _, _⟩ := r
  cases status <;> simp_all [CommandRow.overdue, expiryTarget] <;> decide

theorem expireCommand_run {now : Time} (hrow : s.commands.row i = some r) (h : r.overdue now = true) :
    expireCommand now i s =
      (.ok (), (s.setCommand i fun r' => { r' with status := expiryTarget r.status }).addEvent
        ⟨i, expiryTarget r.status, none, now⟩) := by
  rw [expireCommand, run_read_bind, hrow]
  dsimp only
  rw [run_bind_ok (transitionCommand_of_edge hrow (overdue_edge h))]
  rfl

theorem sendCommand_writes (hrow : s.commands.row i = some r)
    (hr : r.status = .pending) : s.Writes (sendCommand send i s).2 := by
  cases hsend : send i with
  | none =>
    rw [sendCommand_closed hsend]
  | some t =>
    rw [sendCommand_ok hsend hrow hr]
    have hrest : s.Write (s.transmit i t) := .rest rfl rfl
    exact hrest.writes.tail (.sent hrow hr)

theorem sendCommand_others (send : Sending) {j : CommandId} (hrow : s.commands.row i = some r)
    (hr : r.status = .pending) (hj : j ≠ i) :
    (sendCommand send i s).2.commands.row j = s.commands.row j := by
  cases hsend : send i with
  | none => rw [sendCommand_closed hsend]
  | some t =>
    rw [sendCommand_ok hsend hrow hr]
    exact modify_row_of_ne _ _ hj

theorem submitCommand_writes (g : AgentId) (key : String) (ttlSeconds : ℤ) (now : Time)
    (socket : Option Sending) : s.Writes (submitCommand g key ttlSeconds now socket s).2 := by
  rw [submitCommand, run_read_bind]
  cases s.byIdempotencyKey key with
  | some i => exact .refl
  | none =>
    dsimp only
    rw [run_read_bind, run_update_bind]
    have hinsert : s.Write { s with commands := s.commands.insert (newCommand g key ttlSeconds now) } :=
      .insert _ rfl
    cases socket with
    | none => exact hinsert.writes
    | some send =>
      dsimp only
      rw [state_bind_pure]
      exact hinsert.writes.trans (sendCommand_writes (insert_row_self _ _) rfl)

theorem pendingForAgent_row {g : AgentId} (h : i ∈ s.pendingForAgent g) :
    ∃ r, s.commands.row i = some r ∧ r.agentId = g ∧ r.status = .pending := by
  obtain ⟨r, hrow, hr⟩ := mem_select.1 h
  simp only [Bool.and_eq_true, beq_iff_eq] at hr
  exact ⟨r, hrow, hr.1, hr.2⟩

theorem deliverPendingCommands_writes (g : AgentId) (socket : Option Sending) :
    s.Writes (deliverPendingCommands g socket s).2 := by
  cases socket with
  | none => exact .refl
  | some send =>
    have hloop : s.Writes (Prog.each (sendCommand send) (s.pendingForAgent g) s).2 := by
      refine state_each (fun s i => s.commands.row i) (select_nodup _ _) .refl ?_
      intro i hi t hview ht
      obtain ⟨r, hrow, -, hr⟩ := pendingForAgent_row hi
      rw [← hview] at hrow
      exact ⟨ht.trans (sendCommand_writes hrow hr), fun j hj => sendCommand_others send hrow hr hj⟩
    rw [deliverPendingCommands, run_read_bind, run_attempt_bind]
    cases hend : (Prog.each (sendCommand send) (s.pendingForAgent g) s).1 with
    | ok a => simp only [id, hend]; exact hloop
    | error e =>
      simp only [id, hend]
      have hback : s.Write ((Prog.each (sendCommand send) (s.pendingForAgent g) s).2.rollback s) :=
        .rest rfl rfl
      exact hback.writes

theorem expireOverdueCommands_writes (now : Time) : s.Writes (expireOverdueCommands now s).2 := by
  rw [expireOverdueCommands, run_read_bind]
  refine state_each (fun s i => s.commands.row i) (select_nodup _ _) .refl ?_
  intro i hi t hview ht
  obtain ⟨r, hrow, hr⟩ := mem_select.1 hi
  rw [← hview] at hrow
  rw [expireCommand_run hrow hr]
  refine ⟨ht.tail (.noted hrow rfl (overdue_edge hr) rfl rfl), ?_⟩
  intro j hj
  exact modify_row_of_ne _ _ hj

theorem CommandOp.step_writes (cols : Columns ρ) (op : CommandOp ρ) : s.Writes (op.step cols s) := by
  cases op with
  | submit g key ttlSeconds now socket => exact submitCommand_writes g key ttlSeconds now socket
  | deliver g socket => exact deliverPendingCommands_writes g socket
  | message g now m => exact handleMessage_writes m
  | expire now => exact expireOverdueCommands_writes now

end Calls

end Healer
