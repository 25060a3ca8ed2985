import Healer.Sanity.Commands
import Healer.Sanity.Handlers

/-! Commands whose `expires_at` has passed: what `deliver_pending_commands` sends of them, and what
the Agent does with one that it receives. -/

namespace Healer

open Prog List

section StopWindows

variable {host : Host} {log : HostLog} {name : String} {status : Except String ServiceStatus}

/-- The calls of `StatusNamed` on a service that is there. -/
def statusCalls (name : String) : HostLog := openCalls name ++ [.scm (.query name)]

theorem statusCalls_quiet (name : String) : ∀ c ∈ statusCalls name, c.acts = false := by
  intro c hc
  obtain hc | hc := mem_append.1 hc
  · exact openCalls_quiet name c hc
  · rw [mem_singleton.1 hc]
    rfl

/-- The service manager of a Windows host finds the service, for `StatusNamed` and then for
`StopNamed` or else for `UninstallNamed`. -/
def Host.finds (host : Host) (name : String) : Bool :=
  host.os == .windows && host.opens [] name && (host.scm (openCalls name) (.query name)).isOk &&
    (host.opens (statusCalls name) name ||
      host.misses (statusCalls name) name && host.opens (statusCalls name ++ openCalls name) name)

/-- A first step that fails is the last to do anything. -/
theorem stopAndRemove_failed {e : String} {log' : HostLog}
    (h : stopService host name status log = (.error e, log')) :
    (stopAndRemove host name status log).2 = log' := by
  obtain ⟨r, hr, hrun⟩ := StepRunner.start.run_error "service_stop" rfl h
  rw [stopAndRemove, run_bind_ok hrun]
  dsimp only
  obtain ⟨r', -, hrun'⟩ := r.run_idle "service_remove" (.inl hr)
  rw [run_bind_ok hrun']
  rfl

theorem removeService_state (name : String) :
    (removeService host name log).2 = (uninstallNamed host name log).2 := by
  rw [removeService, state_bind_pure, wrapError_state]

/-- One that succeeds is followed by the second. -/
theorem stopAndRemove_stopped {message : String}
    {log' : HostLog} (h : stopService host name status log = (.ok (message, ()), log')) :
    (stopAndRemove host name status log).2 = (uninstallNamed host name log').2 := by
  obtain ⟨r, hr, hrun⟩ := StepRunner.start.run_ok "service_stop" rfl h
  rw [stopAndRemove, run_bind_ok hrun]
  dsimp only
  obtain ⟨x, hrun'⟩ := r.run_returns "service_remove" hr
  rw [run_bind_ok hrun', ← removeService_state]
  rfl

theorem effects_ne_nil {c : HostCall} (hc : c ∈ log) (hacts : c.acts = true) :
    HostLog.effects log ≠ [] := by
  intro hnil
  have := filter_eq_nil_iff.1 hnil c hc
  exact this hacts

/-- What the first step has asked of the host, the whole run has. -/
theorem stopAndRemove_grows {c : HostCall}
    (hc : c ∈ (stopService host name status log).2) : c ∈ (stopAndRemove host name status log).2 := by
  rcases h : stopService host name status log with ⟨e | ⟨message, _⟩, log'⟩
  · rw [h] at hc
    rw [stopAndRemove_failed h]
    exact hc
  · rw [h] at hc
    rw [stopAndRemove_stopped h]
    exact uninstallNamed_keeps (withstands_mem c) (fun _ h => mem_append_left _ h) log' hc

theorem stopService_state (st : ServiceStatus) :
    (stopService host name (.ok st) log).2 = (stopNamed host name log).2 := by
  rw [stopService, state_bind_pure, wrapError_state]

theorem uninstallNamed_effects (hos : host.os = .windows) (hlog : HostLog.effects log = []) :
    HostLog.effects (uninstallNamed host name log).2 = [] ↔ host.opens log name = false := by
  cases hopens : host.opens log name with
  | true =>
    have hdelete := effects_ne_nil (uninstallNamed_opens hos hopens) rfl
    simp [hdelete]
  | false =>
    refine ⟨fun _ => rfl, fun _ => ?_⟩
    cases hmisses : host.misses log name with
    | true =>
      rw [uninstallNamed_misses hos hmisses, effects_append_quiet (openCalls_quiet name), hlog]
    | false =>
      obtain ⟨e, calls, hquiet, hrun⟩ := uninstallNamed_fails hos hopens hmisses
      rw [hrun, effects_append_quiet hquiet, hlog]

/-- The two steps touch the service just when it can be opened by the first, or is missing for the
first and can be opened by the second. -/
theorem stopAndRemove_effects (hos : host.os = .windows) (hlog : HostLog.effects log = [])
    (st : ServiceStatus) :
    HostLog.effects (stopAndRemove host name (.ok st) log).2 = [] ↔
      (host.opens log name ||
        host.misses log name && host.opens (log ++ openCalls name) name) = false := by
  cases hopens : host.opens log name with
  | true =>
    have hstop : HostCall.scm (.stop name) ∈ (stopService host name (.ok st) log).2 := by
      rw [stopService_state]
      exact stopNamed_opens hos hopens
    have hacts := effects_ne_nil (stopAndRemove_grows hstop) rfl
    simp [hacts]
  | false =>
    rw [Bool.false_or]
    cases hmisses : host.misses log name with
    | true =>
      have hstop : stopService host name (.ok st) log = (.ok ("stopped", ()), log ++ openCalls name) := by
        rw [stopService, run_bind_ok (wrapError_ok _ (stopNamed_misses hos hmisses))]
        rfl
      rw [stopAndRemove_stopped hstop, Bool.true_and]
      apply uninstallNamed_effects hos
      rw [effects_append_quiet (openCalls_quiet name), hlog]
    | false =>
      obtain ⟨e, calls, hquiet, hrun⟩ := stopNamed_fails hos hopens hmisses
      have hstop : stopService host name (.ok st) log =
          (.error ("stop service " ++ name ++ ": " ++ e), log ++ calls) := by
        rw [stopService, run_bind_error (wrapError_error _ hrun)]
      rw [stopAndRemove_failed hstop, effects_append_quiet hquiet, hlog, Bool.false_and]
      simp

variable {payload : StopInstancePayload} {calls : HostLog}

theorem stopWindowsInstance_absent
    (h : statusNamed host payload.serviceName [] = (.ok .notInstalled, calls)) :
    (stopWindowsInstance host payload []).2 = calls := by
  rw [stopWindowsInstance, run_attempt_bind, h]
  rfl

theorem stopWindowsInstance_error {e : String}
    (h : statusNamed host payload.serviceName [] = (.error e, calls)) :
    (stopWindowsInstance host payload []).2 = calls := by
  rw [stopWindowsInstance, run_attempt_bind, h]
  exact stopAndRemove_failed rfl

theorem stopWindowsInstance_installed
    {st : ServiceState} (h : statusNamed host payload.serviceName [] = (.ok st.status, calls)) :
    stopWindowsInstance host payload [] =
      stopAndRemove host payload.serviceName (.ok st.status) calls := by
  rw [stopWindowsInstance, run_attempt_bind, h]
  cases st <;> rfl

/-- Without an answer that the service is there, nothing is done to it. -/
theorem stopWindowsInstance_quiet (payload : StopInstancePayload) (hos : host.os = .windows)
    (h : host.opens [] payload.serviceName = true →
      ∃ e, host.scm (openCalls payload.serviceName) (.query payload.serviceName) = .error e) :
    HostLog.effects (stopWindowsInstance host payload []).2 = [] := by
  obtain ⟨calls, hquiet, hstatus | ⟨e, hstatus⟩⟩ := statusNamed_absent hos h
  · rw [stopWindowsInstance_absent hstatus, nil_append, effects_quiet hquiet]
  · rw [stopWindowsInstance_error hstatus, nil_append, effects_quiet hquiet]

/-- `stopWindowsInstance` acts just when the service manager finds the service. -/
theorem stopWindowsInstance_effects (payload : StopInstancePayload) :
    HostLog.effects (stopWindowsInstance host payload []).2 = [] ↔
      host.finds payload.serviceName = false := by
  unfold Host.finds
  by_cases hos : host.os = .windows
  · cases hopens : host.opens [] payload.serviceName with
    | false =>
      have hquiet := stopWindowsInstance_quiet payload hos (by simp [hopens])
      simp [hquiet]
    | true =>
      cases hquery : host.scm (openCalls payload.serviceName) (.query payload.serviceName) with
      | error e =>
        have hquiet := stopWindowsInstance_quiet payload hos fun _ => ⟨e, hquery⟩
        simp [hquiet, Except.isOk, Except.toBool]
      | ok st =>
        rw [stopWindowsInstance_installed (statusNamed_installed hos hopens hquery), hos]
        exact stopAndRemove_effects hos (effects_quiet (statusCalls_quiet _)) _
  · obtain ⟨e, he⟩ : Refuses (statusNamed host payload.serviceName) [] := onWindows_refuses hos _
    have hquiet : HostLog.effects (stopWindowsInstance host payload []).2 = [] := by
      rw [stopWindowsInstance_error he]
      rfl
    simp [hquiet, hos]

end StopWindows

section Received

variable {host : Host} {t : Time}

/-- A `stop_instance` that passes validation and goes to the Windows adapter. -/
def InstanceCommand.stopsService (host : Host) : InstanceCommand → Bool
  | .stop (.ok payload) =>
    !host.blank payload.serviceName && payload.adapter != "linux-docker" &&
      host.finds payload.serviceName
  | _ => false

theorem expired_of_received (h : t ≤ host.receivedAt) (log : HostLog) :
    host.expired (some t) log = true := by
  have helapsed : (0 : ℤ) ≤ host.elapsed log := Int.natCast_nonneg _
  simp only [Host.expired, Option.any_some, decide_eq_true_eq]
  exact le_add_of_le_of_nonneg h helapsed

theorem dispatchInstance_effects (h : t ≤ host.receivedAt) (cmd : InstanceCommand) :
    HostLog.effects (dispatchInstance host (some t) cmd []).2 = [] ↔ cmd.stopsService host = false := by
  have hexpired := expired_of_received h []
  cases cmd with
  | start raw =>
    have hidle : (dispatchInstance host (some t) (.start raw) []).2 = [] :=
      handleStartInstance_idle hexpired raw
    rw [hidle]
    exact ⟨fun _ => rfl, fun _ => rfl⟩
  | stop raw =>
    cases raw with
    | error e => exact ⟨fun _ => rfl, fun _ => rfl⟩
    | ok payload =>
      simp only [dispatchInstance, handleStopInstance, InstanceCommand.stopsService]
      by_cases hblank : host.blank payload.serviceName = true
      · rw [if_pos hblank, hblank]
        exact ⟨fun _ => rfl, fun _ => rfl⟩
      · rw [if_neg hblank]
        by_cases hdocker : payload.adapter = "linux-docker"
        · rw [if_pos hdocker, stopLinuxInstance_idle hexpired, hdocker]
          simp [HostLog.effects]
        · rw [if_neg hdocker, stopWindowsInstance_effects]
          simp [hblank, hdocker]

theorem execute_state (expiresAt : Option Time) (cmd : InstanceCommand) (log : HostLog) :
    (execute host expiresAt cmd log).2 = (dispatchInstance host expiresAt cmd log).2 := by
  rw [execute, run_attempt_bind, run_read_bind]
  cases (dispatchInstance host expiresAt cmd log).1 with
  | ok result => rfl
  | error e =>
    dsimp only
    split_ifs <;> rfl

/-- On a command that was stale when it came, the Agent acts just when it admits a `stop_instance`
for a Windows service that is there. -/
theorem receiveInstance_effects (h : t ≤ host.receivedAt) (a : Admission)
    (cmd : InstanceCommand) :
    HostLog.effects (receiveInstance host a (some t) cmd []).2 = [] ↔
      (a.admits && cmd.stopsService host) = false := by
  unfold receiveInstance
  by_cases ha : a.admits = true
  · rw [if_pos ha, ha, Bool.true_and, ← dispatchInstance_effects h, ← execute_state, state_bind_pure]
  · rw [if_neg ha, Bool.eq_false_of_not_eq_true ha, Bool.false_and]
    exact ⟨fun _ => rfl, fun _ => rfl⟩

end Received

section Delivered

variable {ρ : Type} {db : AgentDb ρ} {g : AgentId} {send : Sending} {i : CommandId}

/-- The message a sender makes of command `i`. -/
def AgentDb.envelope (db : AgentDb ρ) (send : Sending) (i : CommandId) : Option Transmission :=
  (db.commands.row i).bind fun r => (send i).map fun sentAt => ⟨i, r.expiresAt, sentAt⟩

/-- The commands a delivery gets to before a send fails. -/
def sendable (send : Sending) (l : List CommandId) : List CommandId :=
  l.takeWhile fun i => (send i).isSome

theorem sendable_cons_some {t : Time} (h : send i = some t) (l : List CommandId) :
    sendable send (i :: l) = i :: sendable send l := by
  rw [sendable, takeWhile_cons_of_pos (by rw [h]; rfl)]
  rfl

theorem sendable_cons_none (h : send i = none) (l : List CommandId) :
    sendable send (i :: l) = [] := by
  rw [sendable, takeWhile_cons_of_neg (by rw [h]; decide)]

theorem mem_of_mem_sendable {l : List CommandId} (h : i ∈ sendable send l) : i ∈ l :=
  (List.takeWhile_prefix _).subset h

/-- A send that goes out adds its message and leaves the other commands as they were. -/
theorem sendCommand_transmitted {t : Time} {s : AgentDb ρ} {r : CommandRow ρ}
    (hsend : send i = some t) (hrow : s.commands.row i = some r) (hr : r.status = .pending) :
    ∃ s', sendCommand send i s = (.ok (), s') ∧
      s'.transmitted = s.transmitted ++ (s.envelope send i).toList ∧
      ∀ j, j ≠ i → s'.commands.row j = s.commands.row j := by
  have hrun := sendCommand_ok hsend hrow hr
  refine ⟨_, hrun, ?_, fun j hj => ?_⟩
  · rw [AgentDb.envelope, hrow, hsend]
    simp only [AgentDb.setCommand, AgentDb.transmit, hrow]
    rfl
  · have := sendCommand_others send hrow hr hj
    rwa [hrun] at this

/-- The loop of a delivery sends what it finds, up to the first send that fails. -/
theorem each_sendCommand_transmitted (l : List CommandId) :
    ∀ s : AgentDb ρ, l.Nodup →
      (∀ i ∈ l, ∃ r, s.commands.row i = some r ∧ r.status = .pending) →
      (each (sendCommand send) l s).2.transmitted =
        s.transmitted ++ (sendable send l).filterMap (s.envelope send) := by
  induction l with
  | nil => intro s _ _; exact (append_nil _).symm
  | cons i l ih =>
    intro s hnodup hrows
    obtain ⟨r, hrow, hr⟩ := hrows i mem_cons_self
    obtain ⟨hi, hnodup'⟩ := nodup_cons.1 hnodup
    cases hsend : send i with
    | none =>
      have heach : each (sendCommand send) (i :: l) s = (.error .closed, s) :=
        run_bind_error (sendCommand_closed hsend)
      rw [heach, sendable_cons_none hsend]
      exact (append_nil _).symm
    | some t =>
      obtain ⟨s', hrun, hsent, hothers⟩ := sendCommand_transmitted hsend hrow hr
      have hsame : ∀ j ∈ l, s'.commands.row j = s.commands.row j := by
        intro j hj
        refine hothers j ?_
        rintro rfl
        exact hi hj
      -- the rest of the loop finds its rows as they were
      have hrest : (sendable send l).filterMap (s'.envelope send) =
          (sendable send l).filterMap (s.envelope send) := by
        apply filterMap_congr
        intro j hj
        rw [AgentDb.envelope, hsame j (mem_of_mem_sendable hj)]
        rfl
      have hrows' : ∀ j ∈ l, ∃ r, s'.commands.row j = some r ∧ r.status = .pending := by
        intro j hj
        rw [hsame j hj]
        exact hrows j (mem_cons_of_mem _ hj)
      have heach : each (sendCommand send) (i :: l) s = each (sendCommand send) l s' :=
        run_bind_ok hrun
      rw [heach, ih s' hnodup' hrows', hsent, hrest, sendable_cons_some hsend, append_assoc,
        filterMap_cons]
      cases s.envelope send i with
      | none => rfl
      | some m => rfl

theorem deliver_transmitted (db : AgentDb ρ) (g : AgentId) (send : Sending) :
    (deliverPendingCommands g (some send) db).2.transmitted =
      db.transmitted ++ (sendable send (db.pendingForAgent g)).filterMap (db.envelope send) := by
  have hrows : ∀ i ∈ db.pendingForAgent g, ∃ r, db.commands.row i = some r ∧ r.status = .pending := by
    intro i hi
    obtain ⟨r, hrow, -, hr⟩ := pendingForAgent_row hi
    exact ⟨r, hrow, hr⟩
  have hloop : (each (sendCommand send) (db.pendingForAgent g) db).2.transmitted = _ :=
    each_sendCommand_transmitted (db.pendingForAgent g) db (Table.select_nodup _ _) hrows
  rw [← hloop, deliverPendingCommands, run_read_bind, run_attempt_bind]
  cases hend : (each (sendCommand send) (db.pendingForAgent g) db).1 with
  | ok a => simp only [id, hend]; rfl
  | error e => simp only [id, hend]; rfl

/-- The command had not expired when it went out. -/
def Transmission.fresh (t : Transmission) : Bool := !(t.expiresAt.any fun expiresAt => expiresAt < t.sentAt)

/-- What a delivery sends has not expired. -/
def CommandOp.fresh (cols : Columns ρ) (db : AgentDb ρ) (op : CommandOp ρ) : Bool :=
  match op with
  | .deliver _ _ => ((op.step cols db).transmitted.drop db.transmitted.length).all Transmission.fresh
  | _ => true

/-- No command that waits for the agent has expired when its turn comes. -/
def CommandOp.timely (db : AgentDb ρ) : CommandOp ρ → Bool
  | .deliver g (some send) =>
    (sendable send (db.pendingForAgent g)).all fun i =>
      (db.commands.row i).all fun r =>
        (send i).all fun now => !(r.expiresAt.any fun expiresAt => expiresAt < now)
  | _ => true

theorem CommandOp.fresh_iff_timely (cols : Columns ρ) (db : AgentDb ρ) (op : CommandOp ρ) :
    op.fresh cols db = true ↔ op.timely db = true := by
  cases op with
  | submit => exact Iff.rfl
  | message => exact Iff.rfl
  | expire => exact Iff.rfl
  | deliver g socket =>
    cases socket with
    | none =>
      have hnone : CommandOp.step cols db (.deliver g none) = db := rfl
      rw [CommandOp.fresh, hnone, drop_length]
      exact Iff.rfl
    | some send =>
      have hstep : (CommandOp.step cols db (.deliver g (some send))).transmitted =
          db.transmitted ++ (sendable send (db.pendingForAgent g)).filterMap (db.envelope send) :=
        deliver_transmitted db g send
      rw [CommandOp.fresh, hstep, drop_left, CommandOp.timely, all_filterMap]
      apply Eq.congr_left
      congr 1
      funext i
      unfold AgentDb.envelope
      cases db.commands.row i with
      | none => rfl
      | some r =>
        cases send i with
        | none => rfl
        | some t => rfl

end Delivered

/-- In every history a delivery sends no command that has expired just when it finds none among
those that wait; and on a command that was stale when it came the Agent acts just when it admits a
`stop_instance` for a Windows service that is there. -/
theorem stale_commands_idle {ρ : Type} (cols : Columns ρ) (agents : AgentId → AgentRow)
    (ops : List (CommandOp ρ)) (host : Host) (a : Admission) (expiresAt : Time) (cmd : InstanceCommand)
    (hstale : expiresAt ≤ host.receivedAt) :
    (Runs.Along (CommandOp.step cols) (fun db op => op.fresh cols db = true) (.start agents) ops ↔
      Runs.Along (CommandOp.step cols) (fun db op => op.timely db = true) (.start agents) ops) ∧
    (HostLog.effects (receiveInstance host a (some expiresAt) cmd []).2 = [] ↔
      (a.admits && cmd.stopsService host) = false) :=
  ⟨Runs.along_congr (CommandOp.fresh_iff_timely cols) ops _, receiveInstance_effects hstale a cmd⟩

section Inputs

/-- A Windows host on which every service is installed and stopped, 200 s into its clock. -/
def windowsHost : Host where
  os := .windows
  socketPath := "/var/run/docker.sock"
  executable := .ok "healer-agent.exe"
  receivedAt := 200000000
  elapsed _ := 0
  passes _ := 0
  docker _ _ := .error "no such file"
  exec _ _ := ("", none)
  scm _ _ := .ok .stopped
  readFile _ _ := .error "no such file"
  write _ _ := none
  contextError _ := "context deadline exceeded"
  trimSpace := id
  pathEscape := id
  queryEscape := id
  dir := id
  join := String.join

def admitted : Admission := ⟨false, false, true, true⟩

def stopWeb : InstanceCommand := .stop (.ok ⟨"windows-waitress-service", "healer-web-8001"⟩)

def anyColumns : Columns Unit := ⟨fun _ => true, fun _ => true, fun _ => some "", fun _ => true⟩

def offlineAgents : AgentId → AgentRow := fun _ => ⟨0, "unknown", none, none⟩

/-- The command waits while the agent is away, and is swept before the agent is back. -/
def sweptHistory : List (CommandOp Unit) :=
  [.submit 1 "stop" 120 0 none, .expire 120000001, .deliver 1 (some fun _ => some 130000000)]

def unsweptHistory : List (CommandOp Unit) :=
  [.submit 1 "stop" 120 0 none, .deliver 1 (some fun _ => some 130000000)]

def stopContainerWeb : InstanceCommand := .stop (.ok ⟨"linux-docker", "healer-web-8001"⟩)

theorem stale_commands_idle_swept :
    Runs.Along (CommandOp.step anyColumns) (fun db op => op.fresh anyColumns db = true)
      (.start offlineAgents) sweptHistory ∧
    HostLog.effects (receiveInstance windowsHost admitted (some 120000000) stopContainerWeb []).2 = [] :=
  have h := stale_commands_idle anyColumns offlineAgents sweptHistory windowsHost admitted 120000000
    stopContainerWeb (by decide)
  ⟨h.1.2 (by decide +kernel), h.2.2 (by decide +kernel)⟩

/-- Without the sweep the command goes out ten seconds late, and the Agent, given it 80 seconds
late, stops and removes the service. -/
theorem stale_stop_removes_service :
    (Runs.run (CommandOp.step anyColumns) (.start offlineAgents) unsweptHistory).transmitted =
      [⟨0, some 120000000, 130000000⟩] ∧
    HostLog.effects (receiveInstance windowsHost admitted (some 120000000) stopWeb []).2 =
      [.scm (.stop "healer-web-8001"), .scm (.delete "healer-web-8001")] := by
  decide +kernel

end Inputs

end Healer
