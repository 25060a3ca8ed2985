import Healer.Sanity.Commands

/-! Which messages the receive loop of `agent_socket` survives. -/

namespace Healer

variable {ρ : Type} {cols : Columns ρ} {g : AgentId} {now : Time} {db : AgentDb ρ} {p : CommandEvent ρ}

/-- The statuses of `AgentCommandEventPayload`. -/
def CommandStatus.reported : CommandStatus → Bool
  | .acknowledged | .running | .succeeded | .failed | .timedOut => true
  | _ => false

def Field.isValue {α : Type} : Field α → Bool
  | .value _ => true
  | _ => false

/-- The messages of the protocol. -/
def AgentMessage.valid : AgentMessage ρ → Bool
  | .hello payload => payload.isSome
  | .heartbeat payload => payload.any Heartbeat.inRange
  | .commandEvent p =>
    p.commandId.isValue && p.status.any CommandStatus.reported && p.occurredAt.isValue
  | .unknown => false

/-- An event of the agent's own command has a status that can follow the command's, and what a
message brings can be stored. -/
def AgentMessage.fits (cols : Columns ρ) (g : AgentId) (db : AgentDb ρ) : AgentMessage ρ → Bool
  | .hello (some h) => cols.takesHello h
  | .commandEvent ⟨.value i, some status, result, error, _⟩ =>
    (db.commands.row i).all fun r =>
      r.agentId != g ||
        (canTransition agentCommandTransitions r.status status && cols.takes result error)
  | _ => true

theorem Field.isValue_iff {α : Type} {f : Field α} : f.isValue = true ↔ ∃ a, f = .value a := by
  cases f <;> simp [Field.isValue]

theorem valid_commandEvent (h : AgentMessage.valid (.commandEvent p) = true) :
    ∃ i status t, p.commandId = .value i ∧ p.status = some status ∧ p.occurredAt = .value t := by
  simp only [AgentMessage.valid, Bool.and_eq_true, Field.isValue_iff] at h
  obtain ⟨⟨⟨i, hi⟩, hstatus⟩, ⟨t, ht⟩⟩ := h
  obtain ⟨status, hstatus, -⟩ := (Option.any_eq_true _ _).1 hstatus
  exact ⟨i, status, t, hi, hstatus, ht⟩

theorem fits_commandEvent {i : CommandId} {status : CommandStatus}
    (hi : p.commandId = .value i) (hstatus : p.status = some status) :
    AgentMessage.fits cols g db (.commandEvent p) =
      (db.commands.row i).all fun r =>
        r.agentId != g ||
          (canTransition agentCommandTransitions r.status status && cols.takes p.result p.error) := by
  obtain ⟨field, status?, result, error, occurred⟩ := p
  subst hi hstatus
  rfl

theorem handleCommandEvent_fits
    (hvalid : AgentMessage.valid (.commandEvent p) = true) :
    (handleCommandEvent cols g now p db).1 = .ok () ↔
      AgentMessage.fits cols g db (.commandEvent p) = true := by
  obtain ⟨i, status, t, hi, hstatus, ht⟩ := valid_commandEvent hvalid
  rw [fits_commandEvent hi hstatus]
  by_cases hown : ((db.commands.row i).any fun r => r.agentId == g) = true
  · obtain ⟨r, hrow, hg⟩ := (Option.any_eq_true _ _).1 hown
    have hreports : p.Reports db g now i r status t :=
      ⟨hi, hrow, by simpa using hg, hstatus, by rw [ht]; rfl⟩
    rw [handleCommandEvent_own hreports, hrow]
    by_cases hedge : r.status.Edge status
    · have hcan : canTransition agentCommandTransitions r.status status = true := hedge
      by_cases htakes : cols.takes p.result p.error = true
      · simp [recordEvent_ok hrow hedge htakes, hcan, htakes]
      · simp [recordEvent_refused hrow hedge htakes, hreports.own, htakes]
    · have hcan : ¬ canTransition agentCommandTransitions r.status status = true := hedge
      simp [recordEvent_invalid hrow hedge, hreports.own, hcan]
  · rw [handleCommandEvent_foreign hi hown]
    cases hrow : db.commands.row i with
    | none => simp
    | some r =>
      have hg : ¬ r.agentId = g := by simpa [hrow] using hown
      simp [hg]

theorem handleMessage_fits (now : Time) {m : AgentMessage ρ} (hvalid : m.valid = true) :
    (handleMessage cols g now m db).1 = .ok () ↔ m.fits cols g db = true := by
  cases m with
  | hello payload =>
    cases payload with
    | none => cases hvalid
    | some h =>
      simp only [handleMessage, applyHello, AgentMessage.fits]
      split_ifs with htakes
      · simp [htakes, Prog.update]
      · simp [htakes, Prog.raise]
  | heartbeat payload =>
    cases payload with
    | none => cases hvalid
    | some h =>
      have hrange : h.inRange = true := hvalid
      simp [handleMessage, applyHeartbeat, AgentMessage.fits, hrange, Prog.update]
  | commandEvent p => exact handleCommandEvent_fits hvalid
  | unknown => cases hvalid

/-- An event that does not fit writes nothing at all. -/
theorem handleMessage_unfit
    (h : AgentMessage.fits cols g db (.commandEvent p) = false) :
    (handleMessage cols g now (.commandEvent p) db).2 = db := by
  by_cases hreports : ∃ i r status t, p.Reports db g now i r status t
  · obtain ⟨i, r, status, t, hr⟩ := hreports
    change (handleCommandEvent cols g now p db).2 = db
    rw [handleCommandEvent_own hr]
    rw [fits_commandEvent hr.commandId hr.status, hr.row] at h
    by_cases hedge : r.status.Edge status
    · have hcan : canTransition agentCommandTransitions r.status status = true := hedge
      have htakes : ¬ cols.takes p.result p.error = true := by
        intro htakes
        simp [hcan, htakes] at h
      rw [recordEvent_refused hr.row hedge htakes]
    · rw [recordEvent_invalid hr.row hedge]
  · exact handleCommandEvent_idle fun i r status t h => hreports ⟨i, r, status, t, h⟩

def SocketTurn.valid : SocketTurn ρ → Bool
  | .message _ m => m.valid
  | .elsewhere _ => true

def SocketTurn.fits (cols : Columns ρ) (g : AgentId) (s : Receiving ρ) : SocketTurn ρ → Bool
  | .message _ m => m.fits cols g s.db
  | .elsewhere _ => true

section Loop

variable {s : Receiving ρ} {e : CommandExn}

theorem handle_ended (h : s.ended = some e) (outcome : Except CommandExn Unit × AgentDb ρ) :
    s.handle outcome = s := by
  unfold Receiving.handle
  rw [h]

theorem handle_ok (h : s.ended = none) {db' : AgentDb ρ} :
    s.handle (.ok (), db') = ⟨db', none⟩ := by
  unfold Receiving.handle
  rw [h]

theorem handle_error (h : s.ended = none) {db' : AgentDb ρ} :
    s.handle (.error e, db') = ⟨db', some e⟩ := by
  unfold Receiving.handle
  rw [h]

/-- No turn starts the loop again. -/
theorem step_ended (h : s.ended = some e) (t : SocketTurn ρ) :
    (s.step cols g t).ended = some e := by
  cases t with
  | message now m =>
    change (s.handle _).ended = some e
    rw [handle_ended h, h]
  | elsewhere op => exact h

theorem run_ended (turns : List (SocketTurn ρ)) :
    ∀ s : Receiving ρ, s.ended = some e →
      (Runs.run (Receiving.step cols g) s turns).ended = some e := by
  induction turns with
  | nil => intro s h; exact h
  | cons t turns ih => intro s h; exact ih _ (step_ended h t)

/-- A turn ends the loop just when its message does not fit. -/
theorem step_fits (h : s.ended = none) {t : SocketTurn ρ} (hvalid : t.valid = true) :
    (s.step cols g t).ended = none ↔ t.fits cols g s = true := by
  cases t with
  | elsewhere op => exact ⟨fun _ => rfl, fun _ => h⟩
  | message now m =>
    change (s.handle (handleMessage cols g now m s.db)).ended = none ↔ m.fits cols g s.db = true
    rw [← handleMessage_fits now hvalid]
    rcases handleMessage cols g now m s.db with ⟨e | a, db'⟩
    · rw [handle_error h]
      simp
    · rw [handle_ok h]
      simp

theorem run_fits (turns : List (SocketTurn ρ)) (hvalid : ∀ t ∈ turns, t.valid = true) :
    ∀ s : Receiving ρ, s.ended = none →
      ((Runs.run (Receiving.step cols g) s turns).ended = none ↔
        Runs.Along (Receiving.step cols g) (fun s t => t.fits cols g s = true) s turns) := by
  induction turns with
  | nil => intro s h; exact ⟨fun _ => trivial, fun _ => h⟩
  | cons t turns ih =>
    intro s h
    have hrest := ih fun t' ht' => hvalid t' (List.mem_cons_of_mem _ ht')
    have hstep : (s.step cols g t).ended = none ↔ t.fits cols g s = true :=
      step_fits h (hvalid t List.mem_cons_self)
    cases hend : (s.step cols g t).ended with
    | none => exact (hrest _ hend).trans ⟨fun h' => ⟨hstep.1 hend, h'⟩, fun h' => h'.2⟩
    | some e =>
      have hrun : (Runs.run (Receiving.step cols g) s (t :: turns)).ended = some e :=
        run_ended turns _ hend
      rw [hrun]
      refine ⟨nofun, fun h' => ?_⟩
      rw [hstep.2 h'.1] at hend
      cases hend

end Loop

/-- The receive loop of a connection survives a run of valid messages, among whatever other tasks
commit, just when every message fits the state it finds. One that does not fit changes nothing. -/
theorem receive_loop_survives (cols : Columns ρ) (g : AgentId) (db : AgentDb ρ)
    (turns : List (SocketTurn ρ)) (hvalid : ∀ t ∈ turns, t.valid = true) :
    ((Runs.run (Receiving.step cols g) ⟨db, none⟩ turns).ended = none ↔
      Runs.Along (Receiving.step cols g) (fun s t => t.fits cols g s = true) ⟨db, none⟩ turns) ∧
    ∀ now p, AgentMessage.fits cols g db (.commandEvent p) = false →
      (handleMessage cols g now (.commandEvent p) db).2 = db :=
  ⟨run_fits turns hvalid _ rfl, fun _ _ => handleMessage_unfit⟩

section Inputs

def plainColumns : Columns Unit where
  truthy _ := true
  json _ := true
  text _ := some ""
  string _ := true

def someAgent : AgentRow := ⟨0, "unknown", none, none⟩

/-- Command 0 is submitted to agent 1 and goes out to it at once. -/
def submitted : CommandOp Unit := .submit 1 "validate" 120 0 (some fun _ => some 0)

def reportOf (i : CommandId) (status : CommandStatus) : SocketTurn Unit :=
  .message 0 (.commandEvent ⟨.value i, some status, none, none, .value 0⟩)

theorem receive_loop_survives_in_order :
    (Runs.run (Receiving.step plainColumns 1) ⟨.start fun _ => someAgent, none⟩
      [.elsewhere submitted, .message 0 (.hello (some ⟨"1.4.0", .linux, .amd64, ["linux-docker"]⟩)),
        reportOf 0 .acknowledged, reportOf 0 .running, reportOf 5 .succeeded,
        .message 0 (.heartbeat (some ⟨3, 40, 100⟩)), reportOf 0 .succeeded]).ended = none :=
  (receive_loop_survives _ _ _ _ (by decide +kernel)).1.2 (by decide +kernel)

/-- The sweep closes the command while the agent works on it, and the agent's answer ends the
loop; so does an acknowledgement that comes twice. -/
theorem late_answer_drops_agent :
    (Runs.run (Receiving.step plainColumns 1) ⟨.start fun _ => someAgent, none⟩
      [.elsewhere submitted, reportOf 0 .acknowledged, reportOf 0 .running,
        .elsewhere (.expire 120000001), reportOf 0 .succeeded]).ended =
        some (.invalidTransition .timedOut .succeeded) ∧
    (Runs.run (Receiving.step plainColumns 1) ⟨.start fun _ => someAgent, none⟩
      [.elsewhere submitted, reportOf 0 .acknowledged, reportOf 0 .acknowledged]).ended =
        some (.invalidTransition .acknowledged .acknowledged) := by
  decide +kernel

end Inputs

end Healer
