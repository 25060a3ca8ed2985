import Healer.Spec.Handlers

/-! How the instance handlers run when their context is done, and which of their calls change
nothing on the host. -/

namespace Healer

open Prog List

variable {host : Host} {ctx : Context} {log : HostLog} {α : Type} {m : HostProg α}

section Wrapped

variable {log' : HostLog} {fn : HostProg (String × α)}

theorem wrapError_ok {a : α} (text : String)
    (h : m log = (.ok a, log')) : wrapError text m log = (.ok a, log') := by
  rw [wrapError, run_attempt_bind, h]
  rfl

theorem wrapError_error {e : String} (text : String)
    (h : m log = (.error e, log')) : wrapError text m log = (.error (text ++ e), log') := by
  rw [wrapError, run_attempt_bind, h]
  rfl

theorem StepRunner.run_ok {message : String} {a : α}
    (r : StepRunner) (step : String) (hr : r.failed = false)
    (h : fn log = (.ok (message, a), log')) :
    ∃ r' : StepRunner, r'.failed = false ∧ r.run step fn log = (.ok (r', some a), log') := by
  refine ⟨⟨r.steps ++ [⟨step, .succeeded, message⟩], false⟩, rfl, ?_⟩
  rw [StepRunner.run, if_neg (by rw [hr]; decide), run_attempt_bind, h]
  rfl

theorem StepRunner.run_error {e : String}
    (r : StepRunner) (step : String) (hr : r.failed = false)
    (h : fn log = (.error e, log')) :
    ∃ r' : StepRunner, r'.failed = true ∧ r.run step fn log = (.ok (r', none), log') := by
  refine ⟨⟨r.steps ++ [⟨step, .failed, e⟩], true⟩, rfl, ?_⟩
  rw [StepRunner.run, if_neg (by rw [hr]; decide), run_attempt_bind, h]
  rfl

theorem wrapError_state (text : String) (m : HostProg α) :
    (wrapError text m log).2 = (m log).2 := by
  rcases h : m log with ⟨e | a, log'⟩
  · rw [wrapError_error text h]
  · rw [wrapError_ok text h]

/-- A step that is not skipped leaves the host as its function does. -/
theorem StepRunner.run_returns (r : StepRunner)
    (step : String) (hr : r.failed = false) :
    ∃ x, r.run step fn log = (.ok x, (fn log).2) := by
  rcases h : fn log with ⟨e | ⟨message, a⟩, log'⟩
  · obtain ⟨r', -, hrun⟩ := r.run_error step hr h
    exact ⟨_, hrun⟩
  · obtain ⟨r', -, hrun⟩ := r.run_ok step hr h
    exact ⟨_, hrun⟩

end Wrapped

section Expired

theorem wrapError_refuses (text : String) (h : Refuses m log) :
    Refuses (wrapError text m) log := by
  obtain ⟨e, he⟩ := h
  exact ⟨text ++ e, wrapError_error text he⟩

theorem dockerDo_refuses (h : host.expired ctx log = true) (method : HttpMethod) (path : String)
    (body : DockerBody) : Refuses (dockerDo host ctx method path body) log := by
  rw [Refuses, dockerDo, run_read_bind, id, if_pos h]
  exact ⟨_, rfl⟩

theorem stopContainer_refuses (h : host.expired ctx log = true) (name : String) (t : ℕ) :
    Refuses (stopContainer host ctx name t) log :=
  (dockerDo_refuses h _ _ _).bind _

theorem ensureNetwork_refuses (h : host.expired ctx log = true) (name : String) :
    Refuses (ensureNetwork host ctx name) log :=
  (dockerDo_refuses h _ _ _).bind _

theorem icacls_refuses (h : host.expired ctx log = true) (text : String) (args : List String) :
    Refuses (icacls host ctx text args) log := by
  have hrun : runCommand host ctx "icacls.exe" args log =
      (.ok ("", some (host.contextError (.exec "icacls.exe" args))), log) := by
    rw [runCommand, run_read_bind, id, if_pos h]
    rfl
  rw [Refuses, icacls, run_bind_ok hrun]
  exact ⟨_, rfl⟩

theorem grantPermissions_refuses (h : host.expired ctx log = true) (payload : StartInstancePayload) :
    Refuses (grantPermissions host ctx payload) log :=
  ((icacls_refuses h _ _).bind _).bind _

end Expired

section Steps

/-- A step that refuses, or that comes after a failed one, leaves the host as it is and the
pipeline failed. -/
theorem StepRunner.run_idle {fn : HostProg (String × α)} {r : StepRunner} (name : String)
    (h : r.failed = true ∨ Refuses fn log) :
    ∃ r' : StepRunner, r'.failed = true ∧ r.run name fn log = (.ok (r', none), log) := by
  by_cases hfailed : r.failed = true
  · refine ⟨⟨r.steps ++ [⟨name, .skipped, skippedMessage⟩], true⟩, rfl, ?_⟩
    rw [StepRunner.run, if_pos hfailed]
    rfl
  · obtain ⟨e, he⟩ := h.resolve_left hfailed
    exact r.run_error name (Bool.eq_false_of_not_eq_true hfailed) he

theorem stopLinuxInstance_idle (h : host.expired ctx log = true) (payload : StopInstancePayload) :
    (stopLinuxInstance host ctx payload log).2 = log := by
  have hstop := (wrapError_refuses ("stop container " ++ payload.serviceName ++ ": ")
    (stopContainer_refuses h payload.serviceName containerStopTimeoutSeconds)).bind
      fun _ => (pure ("stopped", ()) : HostProg (String × Unit))
  obtain ⟨r, hr, hrun⟩ := StepRunner.start.run_idle "container_stop" (.inr hstop)
  rw [stopLinuxInstance, run_bind_ok hrun]
  dsimp only
  obtain ⟨r', -, hrun'⟩ := r.run_idle "container_remove" (.inl hr)
  rw [run_bind_ok hrun']
  rfl

theorem startLinuxInstance_idle (h : host.expired ctx log = true) (payload : StartInstancePayload)
    (l : StartLinux) : (startLinuxInstance host ctx payload l log).2 = log := by
  have hnetwork := (wrapError_refuses ("ensure docker network " ++ dockerNetworkName ++ ": ")
    (ensureNetwork_refuses h dockerNetworkName)).bind
      fun _ => (pure ("network " ++ dockerNetworkName ++ " ready", ()) : HostProg (String × Unit))
  obtain ⟨r, hr, hrun⟩ := StepRunner.start.run_idle "network" (.inr hnetwork)
  rw [startLinuxInstance, run_bind_ok hrun]
  dsimp only
  obtain ⟨r', hr', hrun'⟩ := r.run_idle "container_create" (.inl hr)
  rw [run_bind_ok hrun']
  dsimp only
  obtain ⟨r'', -, hrun''⟩ := r'.run_idle "container_start" (.inl hr')
  rw [run_bind_ok hrun'']
  rfl

theorem startWindowsInstance_idle (h : host.expired ctx log = true) (payload : StartInstancePayload) :
    (startWindowsInstance host ctx payload log).2 = log := by
  have hgrant := (grantPermissions_refuses h payload).bind
    fun _ => (pure (permissionsMessage, ()) : HostProg (String × Unit))
  obtain ⟨r, hr, hrun⟩ := StepRunner.start.run_idle "permissions" (.inr hgrant)
  rw [startWindowsInstance, run_bind_ok hrun]
  dsimp only
  obtain ⟨r', hr', hrun'⟩ := r.run_idle "service_install" (.inl hr)
  rw [run_bind_ok hrun']
  dsimp only
  obtain ⟨r'', -, hrun''⟩ := r'.run_idle "service_start" (.inl hr')
  rw [run_bind_ok hrun'']
  rfl

/-- `start_instance` with a context that is done asks nothing of the host. -/
theorem handleStartInstance_idle (h : host.expired ctx log = true)
    (raw : Except String StartInstancePayload) : (handleStartInstance host ctx raw log).2 = log := by
  cases raw with
  | error e => rfl
  | ok payload =>
    simp only [handleStartInstance]
    split_ifs
    · rfl
    · rfl
    · cases validateLinux host payload.linux with
      | error e => rfl
      | ok l => exact startLinuxInstance_idle h payload l
    · cases blankField host payload with
      | some name => rfl
      | none => exact startWindowsInstance_idle h payload

end Steps

/-- The service manager answers and opens the service. -/
def Host.opens (host : Host) (log : HostLog) (name : String) : Bool :=
  (host.scm log .connect).isOk && (host.scm (log ++ [.scm .connect]) (.openService name)).isOk

def answersMissing : Except ScmError ServiceState → Bool
  | .error .doesNotExist => true
  | _ => false

/-- The service manager answers that there is no such service. -/
def Host.misses (host : Host) (log : HostLog) (name : String) : Bool :=
  (host.scm log .connect).isOk &&
    answersMissing (host.scm (log ++ [.scm .connect]) (.openService name))

section Open

variable {name : String} {f : Bool → HostProg α}

/-- The calls that open a service. -/
def openCalls (name : String) : HostLog := [.scm .connect, .scm (.openService name)]

theorem scmCall_run (op : ScmOp) : scmCall host op log = (.ok (host.scm log op), log ++ [.scm op]) := rfl

theorem connectManager_ok {st : ServiceState} (h : host.scm log .connect = .ok st) :
    connectManager host log = (.ok (), log ++ [.scm .connect]) := by
  rw [connectManager, run_bind_ok (scmCall_run _), h]
  rfl

theorem connectManager_error {e : ScmError} (h : host.scm log .connect = .error e) :
    ∃ e', connectManager host log = (.error e', log ++ [.scm .connect]) := by
  rw [connectManager, run_bind_ok (scmCall_run _), h]
  exact ⟨_, rfl⟩

theorem isOk_iff {ε α : Type} {x : Except ε α} : x.isOk = true ↔ ∃ a, x = .ok a := by
  cases x with
  | error e => simp [Except.isOk, Except.toBool]
  | ok a => simp [Except.isOk, Except.toBool]

theorem open_opens (h : host.opens log name = true) :
    (connectManager host >>= fun _ => openNamed host name >>= f) log =
      f true (log ++ openCalls name) := by
  rw [Host.opens, Bool.and_eq_true, isOk_iff, isOk_iff] at h
  obtain ⟨⟨st, hconnect⟩, ⟨st', hopen⟩⟩ := h
  have hnamed : openNamed host name (log ++ [.scm .connect]) = (.ok true, log ++ openCalls name) := by
    rw [openNamed, run_bind_ok (scmCall_run _), hopen, append_assoc]
    rfl
  rw [run_bind_ok (connectManager_ok hconnect), run_bind_ok hnamed]

theorem open_misses (h : host.misses log name = true) :
    (connectManager host >>= fun _ => openNamed host name >>= f) log =
      f false (log ++ openCalls name) := by
  rw [Host.misses, Bool.and_eq_true, isOk_iff] at h
  obtain ⟨⟨st, hconnect⟩, hmissing⟩ := h
  have hopen : host.scm (log ++ [.scm .connect]) (.openService name) = .error .doesNotExist := by
    unfold answersMissing at hmissing
    split at hmissing
    · assumption
    · cases hmissing
  have hnamed : openNamed host name (log ++ [.scm .connect]) = (.ok false, log ++ openCalls name) := by
    rw [openNamed, run_bind_ok (scmCall_run _), hopen, append_assoc]
    rfl
  rw [run_bind_ok (connectManager_ok hconnect), run_bind_ok hnamed]

theorem effects_quiet {calls : HostLog} (h : ∀ c ∈ calls, c.acts = false) :
    HostLog.effects calls = [] := by
  rw [HostLog.effects, filter_eq_nil_iff]
  intro c hc
  rw [h c hc]
  decide

theorem effects_append_quiet {calls : HostLog} (h : ∀ c ∈ calls, c.acts = false) :
    HostLog.effects (log ++ calls) = HostLog.effects log := by
  have hnil : calls.filter HostCall.acts = [] := effects_quiet h
  rw [HostLog.effects, filter_append, hnil, append_nil]
  rfl

theorem openCalls_quiet (name : String) : ∀ c ∈ openCalls name, c.acts = false := by
  intro c hc
  simp only [openCalls, mem_cons, not_mem_nil, or_false] at hc
  obtain rfl | rfl := hc <;> rfl

theorem open_fails (h : host.opens log name = false) (h' : host.misses log name = false) :
    ∃ e calls, (∀ c ∈ calls, c.acts = false) ∧
      (connectManager host >>= fun _ => openNamed host name >>= f) log = (.error e, log ++ calls) := by
  cases hconnect : host.scm log .connect with
  | error e =>
    obtain ⟨e', he'⟩ := connectManager_error hconnect
    refine ⟨e', [.scm .connect], ?_, run_bind_error he'⟩
    simp [HostCall.acts, ScmOp.acts]
  | ok st =>
    cases hopen : host.scm (log ++ [.scm .connect]) (.openService name) with
    | ok st' => simp [Host.opens, hconnect, hopen, Except.isOk, Except.toBool] at h
    | error e =>
      have hnamed : ∃ e', openNamed host name (log ++ [.scm .connect]) =
          (.error e', log ++ openCalls name) := by
        rw [openNamed, run_bind_ok (scmCall_run _), hopen, append_assoc]
        cases e with
        | doesNotExist =>
          simp [Host.misses, hconnect, hopen, answersMissing, Except.isOk, Except.toBool] at h'
        | notActive => exact ⟨_, rfl⟩
        | alreadyRunning => exact ⟨_, rfl⟩
        | other text => exact ⟨_, rfl⟩
      obtain ⟨e', he'⟩ := hnamed
      refine ⟨e', openCalls name, openCalls_quiet name, ?_⟩
      rw [run_bind_ok (connectManager_ok hconnect), run_bind_error he']

end Open

section Named

variable {name : String}

theorem onWindows_run (hos : host.os = .windows) (m : HostProg α) : onWindows host m = m := by
  rw [onWindows, if_pos hos]

theorem onWindows_refuses (hos : host.os ≠ .windows) (m : HostProg α) :
    Refuses (onWindows host m) log := by
  rw [Refuses, onWindows, if_neg hos]
  exact ⟨_, rfl⟩

theorem statusNamed_installed {st : ServiceState} (hos : host.os = .windows)
    (hopens : host.opens log name = true)
    (hquery : host.scm (log ++ openCalls name) (.query name) = .ok st) :
    statusNamed host name log =
      (.ok st.status, log ++ openCalls name ++ [.scm (.query name)]) := by
  have hcall : queryNamed host name (log ++ openCalls name) =
      (.ok st, log ++ openCalls name ++ [.scm (.query name)]) := by
    rw [queryNamed, run_bind_ok (scmCall_run _), hquery]
    rfl
  rw [statusNamed, onWindows_run hos, open_opens hopens, if_pos rfl, run_bind_ok hcall]
  rfl

/-- `StatusNamed` on a service it does not find, or when the service manager fails. -/
theorem statusNamed_absent (hos : host.os = .windows)
    (h : host.opens log name = true → ∃ e, host.scm (log ++ openCalls name) (.query name) = .error e) :
    ∃ calls : HostLog, (∀ c ∈ calls, c.acts = false) ∧
      (statusNamed host name log = (.ok .notInstalled, log ++ calls) ∨
        ∃ e, statusNamed host name log = (.error e, log ++ calls)) := by
  rw [statusNamed, onWindows_run hos]
  cases hopens : host.opens log name with
  | true =>
    obtain ⟨e, he⟩ := h hopens
    have hcall : ∃ e', queryNamed host name (log ++ openCalls name) =
        (.error e', log ++ openCalls name ++ [.scm (.query name)]) := by
      rw [queryNamed, run_bind_ok (scmCall_run _), he]
      exact ⟨_, rfl⟩
    obtain ⟨e', he'⟩ := hcall
    refine ⟨openCalls name ++ [.scm (.query name)], ?_, .inr ⟨e', ?_⟩⟩
    · intro c hc
      obtain hc | hc := mem_append.1 hc
      · exact openCalls_quiet name c hc
      · rw [mem_singleton.1 hc]
        rfl
    · rw [open_opens hopens, if_pos rfl, run_bind_error he', append_assoc]
  | false =>
    cases hmisses : host.misses log name with
    | true =>
      refine ⟨openCalls name, openCalls_quiet name, .inl ?_⟩
      rw [open_misses hmisses]
      rfl
    | false =>
      obtain ⟨e, calls, hquiet, hrun⟩ := open_fails hopens hmisses
      exact ⟨calls, hquiet, .inr ⟨e, hrun⟩⟩

theorem stopNamed_misses (hos : host.os = .windows) (h : host.misses log name = true) :
    stopNamed host name log = (.ok (), log ++ openCalls name) := by
  rw [stopNamed, onWindows_run hos, open_misses h]
  rfl

theorem stopNamed_fails (hos : host.os = .windows) (h : host.opens log name = false)
    (h' : host.misses log name = false) :
    ∃ e calls, (∀ c ∈ calls, c.acts = false) ∧ stopNamed host name log = (.error e, log ++ calls) := by
  rw [stopNamed, onWindows_run hos]
  exact open_fails h h'

theorem uninstallNamed_misses (hos : host.os = .windows) (h : host.misses log name = true) :
    uninstallNamed host name log = (.ok (), log ++ openCalls name) := by
  rw [uninstallNamed, onWindows_run hos, open_misses h]
  rfl

theorem uninstallNamed_fails (hos : host.os = .windows) (h : host.opens log name = false)
    (h' : host.misses log name = false) :
    ∃ e calls, (∀ c ∈ calls, c.acts = false) ∧
      uninstallNamed host name log = (.error e, log ++ calls) := by
  rw [uninstallNamed, onWindows_run hos]
  exact open_fails h h'

end Named

section Inert

/-- The calls that leave the launch specs and the registered services alone. -/
def HostCall.inert : HostCall → Bool
  | .writeFile _ _ | .scm (.delete _) | .scm (.create ..) => false
  | _ => true

/-- `Q` stands whatever inert call is made. -/
def Withstands (Q : HostLog → Prop) : Prop := ∀ log c, c.inert = true → Q log → Q (log ++ [c])

/-- What has been asked of the host stays asked. -/
theorem withstands_mem (c : HostCall) : Withstands (c ∈ ·) := fun _ _ _ hc => mem_append_left _ hc

variable {Q : HostLog → Prop}

theorem wrapError_keeps (text : String) (h : Keeps Q m) : Keeps Q (wrapError text m) := by
  intro log hlog
  rw [wrapError_state]
  exact h log hlog

theorem scmCall_keeps {op : ScmOp} (h : ∀ log, Q log → Q (log ++ [.scm op])) : Keeps Q (scmCall host op) := h

variable (hQ : Withstands Q)

include hQ

theorem connectManager_keeps : Keeps Q (connectManager host) := by
  unfold connectManager
  refine keeps_bind (scmCall_keeps (hQ · _ rfl)) fun answer => ?_
  cases answer with
  | ok st => exact keeps_pure ()
  | error e => exact keeps_raise _

theorem openNamed_keeps (name : String) : Keeps Q (openNamed host name) := by
  unfold openNamed
  refine keeps_bind (scmCall_keeps (hQ · _ rfl)) fun answer => ?_
  cases answer with
  | ok st => exact keeps_pure true
  | error e => cases e <;> first | exact keeps_pure false | exact keeps_raise _

theorem queryNamed_keeps (name : String) : Keeps Q (queryNamed host name) := by
  unfold queryNamed
  refine keeps_bind (scmCall_keeps (hQ · _ rfl)) fun answer => ?_
  cases answer with
  | ok st => exact keeps_pure st
  | error e => exact keeps_raise _

theorem awaitStopped_keeps (name : String) (passes : ℕ) :
    ∀ state, Keeps Q (awaitStopped host name passes state) := by
  induction passes with
  | zero =>
    intro state
    unfold awaitStopped
    exact keeps_ite (fun _ => keeps_pure ()) (fun _ => keeps_raise _)
  | succ passes ih =>
    intro state
    unfold awaitStopped
    exact keeps_ite (fun _ => keeps_pure ()) (fun _ => keeps_bind (queryNamed_keeps hQ name) ih)

omit hQ in
theorem onWindows_keeps (h : Keeps Q m) : Keeps Q (onWindows host m) :=
  keeps_ite (fun _ => h) (fun _ => keeps_raise _)

theorem statusNamed_keeps (name : String) : Keeps Q (statusNamed host name) := by
  refine onWindows_keeps (keeps_bind (connectManager_keeps hQ) fun _ => ?_)
  refine keeps_bind (openNamed_keeps hQ name) fun found => ?_
  exact keeps_ite (fun _ => keeps_bind (queryNamed_keeps hQ name) fun _ => keeps_pure _) (fun _ => keeps_pure _)

theorem stopNamed_keeps (name : String) : Keeps Q (stopNamed host name) := by
  refine onWindows_keeps (keeps_bind (connectManager_keeps hQ) fun _ => ?_)
  refine keeps_bind (openNamed_keeps hQ name) fun found => keeps_ite (fun _ => ?_) (fun _ => keeps_pure ())
  refine keeps_bind (scmCall_keeps (hQ · _ rfl)) fun answer => ?_
  cases answer with
  | ok st => exact keeps_bind (keeps_read _) fun passes => awaitStopped_keeps hQ name passes st
  | error e => cases e <;> first | exact keeps_pure () | exact keeps_raise _

theorem uninstallNamed_keeps {name : String} (hdelete : ∀ log, Q log → Q (log ++ [.scm (.delete name)])) :
    Keeps Q (uninstallNamed host name) := by
  refine onWindows_keeps (keeps_bind (connectManager_keeps hQ) fun _ => ?_)
  refine keeps_bind (openNamed_keeps hQ name) fun found => keeps_ite (fun _ => ?_) (fun _ => keeps_pure ())
  refine keeps_bind (scmCall_keeps hdelete) fun answer => ?_
  cases answer with
  | ok st => exact keeps_pure ()
  | error e => exact keeps_raise _

theorem startNamed_keeps (name : String) : Keeps Q (startNamed host name) := by
  refine onWindows_keeps (keeps_bind (connectManager_keeps hQ) fun _ => ?_)
  refine keeps_bind (scmCall_keeps (hQ · _ rfl)) fun answer => ?_
  cases answer with
  | error e => exact keeps_raise _
  | ok st =>
    refine keeps_bind (scmCall_keeps (hQ · _ rfl)) fun answer => ?_
    cases answer with
    | ok st => exact keeps_pure ()
    | error e => cases e <;> first | exact keeps_pure () | exact keeps_raise _

end Inert

section Opens

variable {name : String}

/-- `StopNamed` on a service it can open sends it the stop control. -/
theorem stopNamed_opens (hos : host.os = .windows) (h : host.opens log name = true) :
    .scm (.stop name) ∈ (stopNamed host name log).2 := by
  have hmem : HostCall.scm (.stop name) ∈ log ++ openCalls name ++ [.scm (.stop name)] :=
    mem_append_right _ (mem_singleton_self _)
  rw [stopNamed, onWindows_run hos, open_opens h, if_pos rfl, run_bind_ok (scmCall_run _)]
  cases host.scm (log ++ openCalls name) (.stop name) with
  | ok st => exact keeps_bind (keeps_read _) (fun passes => awaitStopped_keeps (withstands_mem _) name passes st) _ hmem
  | error e => cases e <;> exact hmem

theorem uninstallNamed_opens (hos : host.os = .windows) (h : host.opens log name = true) :
    .scm (.delete name) ∈ (uninstallNamed host name log).2 := by
  have hmem : HostCall.scm (.delete name) ∈ log ++ openCalls name ++ [.scm (.delete name)] :=
    mem_append_right _ (mem_singleton_self _)
  rw [uninstallNamed, onWindows_run hos, open_opens h, if_pos rfl, run_bind_ok (scmCall_run _)]
  cases host.scm (log ++ openCalls name) (.delete name) with
  | ok st => exact hmem
  | error e => exact hmem

end Opens

end Healer
