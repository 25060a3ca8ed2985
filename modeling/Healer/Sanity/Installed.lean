import Healer.Sanity.Handlers
import Healer.Spec.Installed

/-! What `start_instance` and `stop_instance` leave of the launch specs and of the registered services: one
file and one service of a start that succeeds, at most one service less of a stop. -/

namespace Healer

open Prog StepRunner

variable {host : Host} {ctx : Context} {log : HostLog}

theorem applyAll_concat (calls : HostLog) (c : HostCall) : ∀ (log : HostLog) (s : Installation),
    host.applyAll log s (calls ++ [c]) = host.apply (log ++ calls) (host.applyAll log s calls) c := by
  induction calls with
  | nil =>
    intro log s
    rw [List.append_nil]
    rfl
  | cons d calls ih =>
    intro log s
    rw [List.cons_append, Host.applyAll, ih, List.append_assoc]
    rfl

theorem installed_concat (log : HostLog) (c : HostCall) :
    host.installed (log ++ [c]) = host.apply log (host.installed log) c := by
  rw [Host.installed, applyAll_concat, List.nil_append]
  rfl

theorem apply_inert {c : HostCall} (h : c.inert = true) (log : HostLog) (s : Installation) :
    host.apply log s c = s := by
  cases c with
  | scm op => cases op <;> first | rfl | cases h
  | writeFile path spec => cases h
  | _ => rfl

theorem installed_inert {c : HostCall} (h : c.inert = true) (log : HostLog) :
    host.installed (log ++ [c]) = host.installed log := by
  rw [installed_concat, apply_inert h]

/-- A property of what is installed stands over the inert calls. -/
theorem withstands_installed (host : Host) (P : Installation → Prop) : Withstands fun log => P (host.installed log) := by
  intro log c hc hlog
  rwa [installed_inert hc]

section Removal

/-- `s'` is `s`, but for the service `name`, which may be gone. -/
def AtMostWithout (name : String) (s s' : Installation) : Prop := s' = s ∨ s' = s.remove name

variable {name : String} {s : Installation} {Q : HostLog → Prop}

theorem AtMostWithout.remove {s' : Installation} (h : AtMostWithout name s s') :
    AtMostWithout name s (s'.remove name) := by
  rcases h with rfl | rfl
  · exact Or.inr rfl
  · exact Or.inr (by simp [Installation.remove])

theorem AtMostWithout.register {s' : Installation} (h : AtMostWithout name s s') (args : List String) :
    s'.register name args = s.register name args := by
  rcases h with rfl | rfl
  · rfl
  · simp [Installation.remove, Installation.register]

theorem AtMostWithout.delete (log : HostLog) (h : AtMostWithout name s (host.installed log)) :
    AtMostWithout name s (host.installed (log ++ [.scm (.delete name)])) := by
  rw [installed_concat, Host.apply]
  split_ifs
  · exact h.remove
  · exact h

theorem uninstallNamed_removes :
    Keeps (fun log => AtMostWithout name s (host.installed log)) (uninstallNamed host name) :=
  uninstallNamed_keeps (withstands_installed host _) AtMostWithout.delete

theorem removeServiceIfPresent_removes :
    Keeps (fun log => AtMostWithout name s (host.installed log)) (removeServiceIfPresent host name) := by
  have hQ : Withstands fun log => AtMostWithout name s (host.installed log) := withstands_installed host _
  refine keeps_bind (wrapError_keeps _ (statusNamed_keeps hQ name)) fun status => ?_
  refine keeps_ite (fun _ => keeps_pure ()) fun _ => ?_
  exact keeps_bind (wrapError_keeps _ (stopNamed_keeps hQ name)) fun _ => wrapError_keeps _ uninstallNamed_removes

theorem StepRunner.run_keeps {α : Type} {fn : HostProg (String × α)} (r : StepRunner)
    (step : String) (h : Keeps Q fn) : Keeps Q (r.run step fn) := by
  refine keeps_ite (fun _ => keeps_pure _) fun _ => keeps_bind (keeps_attempt h) fun outcome => ?_
  rcases outcome with e | ⟨message, a⟩
  · exact keeps_pure _
  · exact keeps_pure _

theorem stopService_keeps (hQ : Withstands Q) (status : Except String ServiceStatus) :
    Keeps Q (stopService host name status) := by
  cases status with
  | error e => exact keeps_raise _
  | ok st => exact keeps_bind (wrapError_keeps _ (stopNamed_keeps hQ name)) fun _ => keeps_pure _

theorem stopAndRemove_removes (status : Except String ServiceStatus) :
    Keeps (fun log => AtMostWithout name s (host.installed log)) (stopAndRemove host name status) := by
  refine keeps_bind (run_keeps _ _ (stopService_keeps (withstands_installed host _) status)) fun x => ?_
  refine keeps_bind (run_keeps _ _ ?_) fun _ => keeps_pure _
  exact keeps_bind (wrapError_keeps _ uninstallNamed_removes) fun _ => keeps_pure _

/-- A stop leaves the files, and the services but its own. -/
theorem stopWindowsInstance_removes (payload : StopInstancePayload) :
    Keeps (fun log => AtMostWithout payload.serviceName s (host.installed log))
      (stopWindowsInstance host payload) := by
  refine keeps_bind (keeps_attempt (statusNamed_keeps (withstands_installed host _) _)) fun status => ?_
  cases status with
  | error e => exact stopAndRemove_removes _
  | ok st =>
    cases st with
    | notInstalled =>
      refine keeps_bind (run_keeps _ _ (keeps_pure _)) fun _ => ?_
      exact keeps_bind (run_keeps _ _ (keeps_pure _)) fun _ => keeps_pure _
    | _ => exact stopAndRemove_removes _

end Removal

section Start

variable {Q : HostLog → Prop} (hQ : Withstands Q)

include hQ

theorem icacls_keeps (text : String) (args : List String) : Keeps Q (icacls host ctx text args) := by
  refine keeps_bind ?_ fun x => ?_
  · refine keeps_bind (keeps_read _) fun log => keeps_ite (fun _ => keeps_pure _) fun _ => ?_
    exact keeps_bind (keeps_update fun log hlog => hQ log _ rfl hlog) fun _ => keeps_pure _
  · obtain ⟨output, err⟩ := x
    cases err with
    | none => exact keeps_pure _
    | some e => exact keeps_raise _

theorem grantDirectory_keeps (path rights : String) : Keeps Q (grantDirectory host ctx path rights) :=
  keeps_bind (icacls_keeps hQ _ _) fun _ =>
    keeps_ite (fun _ => keeps_pure _) fun _ => keeps_bind (icacls_keeps hQ _ _) fun _ => keeps_pure _

omit hQ in
theorem resolveExecutable_keeps : Keeps Q (resolveExecutable host) := by
  unfold resolveExecutable
  cases host.executable with
  | ok path => exact keeps_pure _
  | error e => exact keeps_raise _

omit hQ in
theorem findHome_keeps (cfgPath : String) (lines : List String) : Keeps Q (findHome host cfgPath lines) := by
  induction lines with
  | nil => exact keeps_raise _
  | cons line lines ih =>
    unfold findHome
    rcases cutAtEquals line with _ | ⟨key, value⟩
    · exact ih
    · exact keeps_ite (fun _ => ih) fun _ => keeps_ite (fun _ => keeps_raise _) fun _ => keeps_pure _

theorem readFile_keeps (path : String) : Keeps Q (readFile host path) := by
  refine keeps_bind (keeps_read _) fun log => ?_
  refine keeps_bind (keeps_update fun log hlog => hQ log _ rfl hlog) fun _ => ?_
  cases host.readFile log path with
  | ok data => exact keeps_pure _
  | error e => exact keeps_raise _

theorem grantPermissions_keeps (payload : StartInstancePayload) : Keeps Q (grantPermissions host ctx payload) := by
  refine keeps_bind (grantDirectory_keeps hQ _ _) fun _ => keeps_bind resolveExecutable_keeps fun agentExe => ?_
  refine keeps_bind (icacls_keeps hQ _ _) fun _ => keeps_bind (wrapError_keeps _ ?_) fun _ => grantDirectory_keeps hQ _ _
  exact keeps_bind (wrapError_keeps _ (readFile_keeps hQ _)) fun data => findHome_keeps _ _

theorem waitForRunning_keeps (name : String) (passes : ℕ) : Keeps Q (waitForRunning host ctx name passes) := by
  induction passes with
  | zero =>
    refine keeps_bind (wrapError_keeps _ (statusNamed_keeps hQ name)) fun status => ?_
    exact keeps_ite (fun _ => keeps_pure _) fun _ => keeps_raise _
  | succ passes ih =>
    refine keeps_bind (wrapError_keeps _ (statusNamed_keeps hQ name)) fun status => ?_
    refine keeps_ite (fun _ => keeps_pure _) fun _ => keeps_bind (keeps_read _) fun log => ?_
    exact keeps_ite (fun _ => keeps_raise _) fun _ => ih

end Start

section Installs

theorem wrapError_ends {α : Type} {m : HostProg α} {Q : α → HostLog → Prop} (text : String)
    (h : Ends (m log) Q fun _ _ => True) : Ends (wrapError text m log) Q fun _ _ => True := by
  rcases hm : m log with ⟨e | a, log'⟩
  · rw [wrapError_error text hm]
    trivial
  · rw [wrapError_ok text hm]
    exact h.ok hm

/-- A step that was not skipped and has not failed has run to its end. -/
theorem StepRunner.run_ends {Q : HostLog → Prop} {α : Type} {fn : HostProg (String × α)} (r : StepRunner)
    (step : String) (h : r.failed = false → Ends (fn log) (fun _ => Q) fun _ _ => True) :
    Ends (r.run step fn log) (fun x log' => x.1.failed = false → r.failed = false ∧ Q log') fun _ _ => True := by
  cases hr : r.failed with
  | true =>
    rw [StepRunner.run, if_pos hr]
    intro hfalse
    cases hfalse
  | false =>
    have hfn := h hr
    rcases hrun : fn log with ⟨e | ⟨message, a⟩, log'⟩
    · obtain ⟨r', hr', hstep⟩ := r.run_error step hr hrun
      rw [hstep]
      intro hfalse
      rw [hr'] at hfalse
      cases hfalse
    · obtain ⟨r', hr', hstep⟩ := r.run_ok step hr hrun
      rw [hstep]
      exact fun _ => ⟨rfl, hfn.ok hrun⟩

theorem writeFile_ends (call : HostCall) :
    Ends (writeFile host call log) (fun _ log' => host.write log call = none ∧ log' = log ++ [call])
      fun _ _ => True := by
  simp only [writeFile, ends_bind, ends_read, ends_update, id_eq]
  cases h : host.write log call with
  | none => exact ⟨rfl, rfl⟩
  | some e => trivial

theorem writeLaunchSpec_ends (specPath : String) (payload : StartInstancePayload) :
    Ends (writeLaunchSpec host specPath payload log)
      (fun _ log' => host.installed log' = (host.installed log).write specPath (some (launchFile host payload)))
      fun _ _ => True := by
  refine (wrapError_ends _ (writeFile_ends _)).bind ?_ fun _ _ h => h
  rintro _ _ ⟨-, rfl⟩
  refine (wrapError_ends _ (writeFile_ends _)).mono ?_ fun _ _ h => h
  rintro _ _ ⟨hwritten, rfl⟩
  rw [installed_concat, Host.apply, hwritten, installed_inert rfl]
  rfl

theorem installNamed_ends (name displayName description exePath : String) (args : List String) (account : String) :
    Ends (installNamed host name displayName description exePath args account log)
      (fun _ log' => host.installed log' = (host.installed log).register name args) fun _ _ => True := by
  have hQ : Withstands fun log' => host.installed log' = host.installed log :=
    withstands_installed host (· = host.installed log)
  unfold installNamed onWindows
  refine (ends_ite _ _).2 ⟨fun _ => ?_, fun _ => trivial⟩
  refine ((connectManager_keeps hQ).ends rfl).bind (fun _ log₁ h₁ => ?_) fun _ _ _ => trivial
  refine ((scmCall_keeps (hQ · _ rfl)).ends h₁).bind (fun answer log₂ h₂ => ?_) fun _ _ _ => trivial
  cases answer with
  | ok st => trivial
  | error e =>
    rw [ends_bind, scmCall_run, ends_ok]
    cases hcreate : host.scm log₂ (.create name displayName description exePath args account) with
    | error e => trivial
    | ok st =>
      show host.installed _ = _
      rw [installed_concat, Host.apply, hcreate, h₂]
      rfl

/-- The file that a start writes. -/
def specPath (host : Host) (payload : StartInstancePayload) : String := host.join [payload.releaseDir, launchSpecName]

/-- What a start leaves of an installation. -/
def Installation.started (host : Host) (s : Installation) (payload : StartInstancePayload) : Installation :=
  (s.write (specPath host payload) (some (launchFile host payload))).register payload.serviceName
    ["instance-host", specPath host payload]

theorem installInstance_ends (payload : StartInstancePayload) :
    Ends (installInstance host payload log)
      (fun _ log' => host.installed log' = (host.installed log).started host payload) fun _ _ => True := by
  have hexe : Keeps (fun log' => host.installed log' = host.installed log) (resolveExecutable host) :=
    resolveExecutable_keeps
  refine (hexe.ends rfl).bind (fun agentExe log₁ h₁ => ?_) fun _ _ _ => trivial
  refine (writeLaunchSpec_ends _ payload).bind (fun _ log₂ h₂ => ?_) fun _ _ h => h
  have hremoves : Keeps (fun log' => AtMostWithout payload.serviceName (host.installed log₂) (host.installed log'))
      (removeServiceIfPresent host payload.serviceName) := removeServiceIfPresent_removes
  refine (hremoves.ends (Or.inl rfl)).bind (fun _ log₃ h₃ => ?_) fun _ _ _ => trivial
  refine (wrapError_ends _ (installNamed_ends _ _ _ _ _ _)).mono (fun _ log₄ h₄ => ?_) fun _ _ h => h
  rw [h₄, h₃.register, h₂, h₁]
  rfl

/-- The step `service_start`. -/
def startService (host : Host) (ctx : Context) (name : String) : HostProg (String × Unit) := do
  wrapError ("start service " ++ name ++ ": ") (startNamed host name)
  let passes ← Prog.read host.passes
  let message ← waitForRunning host ctx name passes
  pure (message, ())

theorem startService_keeps {Q : HostLog → Prop} (hQ : Withstands Q) (name : String) :
    Keeps Q (startService host ctx name) :=
  keeps_bind (wrapError_keeps _ (startNamed_keeps hQ name)) fun _ => keeps_bind (keeps_read _) fun _ =>
    keeps_bind (waitForRunning_keeps hQ name _) fun _ => keeps_pure _

/-- The steps of `startWindowsInstance` after `permissions`. -/
def installAndStart (host : Host) (ctx : Context) (payload : StartInstancePayload) (runner : StepRunner) :
    HostProg HandlerResult := do
  let installed ← runner.run "service_install" do
    installInstance host payload
    pure ("created service " ++ payload.serviceName, ())
  let started ← installed.1.run "service_start" (startService host ctx payload.serviceName)
  pure (started.1.result (some payload.serviceName) none)

theorem startWindowsInstance_eq (payload : StartInstancePayload) :
    startWindowsInstance host ctx payload =
      StepRunner.start.run "permissions" (grantPermissions host ctx payload >>= fun _ => pure (permissionsMessage, ()))
        >>= fun x => installAndStart host ctx payload x.1 := rfl

theorem installAndStart_ends (payload : StartInstancePayload) (runner : StepRunner) :
    Ends (installAndStart host ctx payload runner log)
      (fun result log' => result.ok = true →
        runner.failed = false ∧ host.installed log' = (host.installed log).started host payload)
      fun _ _ => True := by
  have hinstall : Ends ((installInstance host payload >>= fun _ =>
      pure ("created service " ++ payload.serviceName, ())) log)
      (fun _ log' => host.installed log' = (host.installed log).started host payload) fun _ _ => True :=
    (installInstance_ends payload).bind (fun _ _ h => h) fun _ _ h => h
  refine (run_ends _ _ fun _ => hinstall).bind (fun x log₁ h₁ => ?_) fun _ _ h => h
  have hstart : Keeps (fun log' => host.installed log' = host.installed log₁)
      (startService host ctx payload.serviceName) :=
    startService_keeps (withstands_installed host (· = host.installed log₁)) _
  refine (run_ends _ _ fun _ => (hstart.ends rfl).mono (fun _ _ h => h) fun _ _ _ => trivial).bind
    (fun y log₂ h₂ => ?_) fun _ _ h => h
  intro hok
  obtain ⟨hx, hlog₂⟩ := h₂ (by simpa [StepRunner.result] using hok)
  obtain ⟨hrunner, hlog₁⟩ := h₁ hx
  exact ⟨hrunner, hlog₂.trans hlog₁⟩

/-- A start that succeeds has written its launch spec and registered its service. -/
theorem startWindowsInstance_ends (payload : StartInstancePayload) :
    Ends (startWindowsInstance host ctx payload log)
      (fun result log' => result.ok = true → host.installed log' = (host.installed log).started host payload)
      fun _ _ => True := by
  have hperm : Keeps (fun log' => host.installed log' = host.installed log)
      (grantPermissions host ctx payload >>= fun _ => pure (permissionsMessage, ())) :=
    keeps_bind (grantPermissions_keeps (withstands_installed host (· = host.installed log)) payload) fun _ =>
      keeps_pure _
  rw [startWindowsInstance_eq]
  refine (run_ends _ _ fun _ => (hperm.ends rfl).mono (fun _ _ h => h) fun _ _ _ => trivial).bind
    (fun x log₁ h₁ => ?_) fun _ _ h => h
  refine (installAndStart_ends payload x.1).mono (fun result log₂ h₂ hok => ?_) fun _ _ h => h
  obtain ⟨hx, hlog₂⟩ := h₂ hok
  rw [hlog₂, (h₁ hx).2]

end Installs

end Healer
