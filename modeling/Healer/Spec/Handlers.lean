import Healer.Spec.Agent
import Healer.Spec.Host

/-! `HandleStartInstance` and `HandleStopInstance` of `internal/dispatcher`, and `execute` around
them. -/

namespace Healer

structure HandlerStep where
  name : String
  status : StepStatus
  message : String

/-- `stepRunner`. -/
structure StepRunner where
  steps : List HandlerStep
  failed : Bool

namespace StepRunner

def start : StepRunner := ⟨[], false⟩

def skippedMessage : String := "skipped after an earlier step failed"

/-- `stepRunner.run`. A step that has run hands over, beside its message, what it sets in the
handler's variables. -/
def run {α : Type} (r : StepRunner) (name : String) (fn : HostProg (String × α)) :
    HostProg (StepRunner × Option α) :=
  if r.failed then pure (⟨r.steps ++ [⟨name, .skipped, skippedMessage⟩], true⟩, none)
  else do
    match ← Prog.attempt fn with
    | .error e => pure (⟨r.steps ++ [⟨name, .failed, e⟩], true⟩, none)
    | .ok (message, a) => pure (⟨r.steps ++ [⟨name, .succeeded, message⟩], false⟩, some a)

end StepRunner

def maxOutputChars : ℕ := 2000

def truncateTail (host : Host) (output : String) : String :=
  let trimmed := host.trimSpace output
  if trimmed.length ≤ maxOutputChars then trimmed
  else "...(truncated)... " ++ String.ofList (trimmed.toList.drop (trimmed.length - maxOutputChars))

/-- `strings.TrimSpace(s) == ""`. -/
def Host.blank (host : Host) (s : String) : Bool := host.trimSpace s == ""

/-- The map a handler returns. -/
structure HandlerResult where
  ok : Bool
  steps : List HandlerStep
  serviceName : Option String
  containerId : Option String

def StepRunner.result (r : StepRunner) (serviceName containerId : Option String) : HandlerResult :=
  ⟨!r.failed, r.steps, serviceName, containerId⟩

structure StopInstancePayload where
  adapter : String
  serviceName : String

structure StartLinux where
  imageRef : String
  internalPort : ℤ
  env : List (String × String)
  cpuLimit : ℚ
  memoryLimitMB : ℤ

structure StartInstancePayload where
  adapter : String
  serviceName : String
  releaseDir : String
  venvPython : String
  wsgiModule : String
  host : String
  port : ℤ
  logDir : String
  linux : Option StartLinux

section Stop

variable (host : Host) (ctx : Context)

def containerStopTimeoutSeconds : ℕ := 10

def stopLinuxInstance (payload : StopInstancePayload) : HostProg HandlerResult := do
  let (runner, _) ← StepRunner.start.run "container_stop" do
    wrapError ("stop container " ++ payload.serviceName ++ ": ")
      (stopContainer host ctx payload.serviceName containerStopTimeoutSeconds)
    pure ("stopped", ())
  let (runner, _) ← runner.run "container_remove" do
    wrapError ("remove container " ++ payload.serviceName ++ ": ")
      (removeContainer host ctx payload.serviceName true)
    pure ("removed", ())
  pure (runner.result none none)

/-- The step `service_stop` of a service that may be there. -/
def stopService (name : String) : Except String ServiceStatus → HostProg (String × Unit)
  | .error e => Prog.raise ("query service " ++ name ++ ": " ++ e)
  | .ok _ => do
    wrapError ("stop service " ++ name ++ ": ") (stopNamed host name)
    pure ("stopped", ())

def removeService (name : String) : HostProg (String × Unit) := do
  wrapError ("remove service " ++ name ++ ": ") (uninstallNamed host name)
  pure ("removed", ())

def stopAndRemove (name : String) (status : Except String ServiceStatus) : HostProg HandlerResult := do
  let (runner, _) ← StepRunner.start.run "service_stop" (stopService host name status)
  let (runner, _) ← runner.run "service_remove" (removeService host name)
  pure (runner.result none none)

/-- `stopWindowsInstance`, which is given no context. -/
def stopWindowsInstance (payload : StopInstancePayload) : HostProg HandlerResult := do
  match ← Prog.attempt (statusNamed host payload.serviceName) with
  | .ok .notInstalled => do
    let (runner, _) ← StepRunner.start.run "service_stop" (pure ("service was not installed", ()))
    let (runner, _) ← runner.run "service_remove" (pure ("service was not installed", ()))
    pure (runner.result none none)
  | status => stopAndRemove host payload.serviceName status

/-- `HandleStopInstance`; `raw` is what `json.Unmarshal` makes of the payload. -/
def handleStopInstance (raw : Except String StopInstancePayload) : HostProg HandlerResult :=
  match raw with
  | .error e => Prog.raise ("invalid stop_instance payload: " ++ e)
  | .ok payload =>
    if host.blank payload.serviceName then
      Prog.raise "invalid stop_instance payload: service_name must not be empty"
    else if payload.adapter = "linux-docker" then stopLinuxInstance host ctx payload
    else stopWindowsInstance host payload

end Stop

section StartLinux

variable (host : Host) (ctx : Context)

def dockerNetworkName : String := "healer-apps"

/-- One pass of the loop of `waitForContainerRunning`, up to the deadline check. -/
def inspectPass (name : String) (again : ContainerState → HostProg String) : HostProg String := do
  let state ← wrapError ("inspect container " ++ name ++ ": ") (inspectContainer host ctx name)
  if state.running then pure "container is running"
  else if state.present && state.status == "exited" then do
    let logs ← Prog.attempt (containerLogs host ctx name 50)
    Prog.raise ("container exited (exit code " ++ toString state.exitCode ++
      ") shortly after starting: " ++ truncateTail host (logs.toOption.getD ""))
  else again state

def waitForContainerRunning (name : String) : ℕ → HostProg String
  | 0 => inspectPass host ctx name fun state =>
    Prog.raise ("container " ++ name ++ " did not reach the running state within 15s (last status: " ++
      state.status ++ ")")
  | passes + 1 => inspectPass host ctx name fun _ => do
    let log ← Prog.read id
    if host.expired ctx log then
      Prog.raise "timed out waiting for the container to start: context deadline exceeded"
    else waitForContainerRunning name passes

def StartInstancePayload.spec (payload : StartInstancePayload) (l : StartLinux) : ContainerSpec where
  image := l.imageRef
  env := l.env
  network := dockerNetworkName
  hostPort := payload.port
  internalPort := l.internalPort
  cpuLimit := l.cpuLimit
  memoryLimitMB := l.memoryLimitMB

def startLinuxInstance (payload : StartInstancePayload) (l : StartLinux) : HostProg HandlerResult := do
  let name := payload.serviceName
  let (runner, _) ← StepRunner.start.run "network" do
    wrapError ("ensure docker network " ++ dockerNetworkName ++ ": ")
      (ensureNetwork host ctx dockerNetworkName)
    pure ("network " ++ dockerNetworkName ++ " ready", ())
  let (runner, containerID) ← runner.run "container_create" do
    let id ← wrapError ("create container " ++ name ++ ": ")
      (createContainer host ctx name (payload.spec l))
    pure ("created container " ++ name, id)
  let (runner, _) ← runner.run "container_start" do
    wrapError ("start container " ++ name ++ ": ") (startContainer host ctx name)
    let passes ← Prog.read host.passes
    let message ← waitForContainerRunning host ctx name passes
    pure (message, ())
  pure (runner.result (some name) (some (containerID.getD "")))

end StartLinux

section StartWindows

variable (host : Host) (ctx : Context)

def launchSpecName : String := ".instance-launch.json"

def instanceServiceAccount : String := "NT AUTHORITY\\LocalService"

/-- Upper case without white space. -/
def stripped (s : String) : List Char := (s.toUpper.toList).filter fun c => !c.isWhitespace

def hasAccountGrant (icaclsOutput : String) : Bool :=
  stripped instanceServiceAccount <:+: stripped icaclsOutput

/-- `strings.Cut(line, "=")`. -/
def cutAtEquals (line : String) : Option (String × String) :=
  match line.splitOn "=" with
  | key :: value :: rest => some (key, "=".intercalate (value :: rest))
  | _ => none

def findHome (cfgPath : String) : List String → HostProg String
  | [] => Prog.raise (cfgPath ++ " has no 'home' key")
  | line :: lines =>
    match cutAtEquals line with
    | none => findHome cfgPath lines
    | some (key, value) =>
      if host.trimSpace key ≠ "home" then findHome cfgPath lines
      else if host.blank value then Prog.raise (cfgPath ++ " has an empty 'home' value")
      else pure (host.trimSpace value)

def baseInterpreterHome (releaseDir : String) : HostProg String := do
  let cfgPath := host.join [releaseDir, ".venv", "pyvenv.cfg"]
  let data ← wrapError ("read " ++ cfgPath ++ ": ") (readFile host cfgPath)
  findHome host cfgPath (data.splitOn "\n")

/-- `runCommand("icacls.exe", ..)` with its error worded by `text`. -/
def icacls (text : String) (args : List String) : HostProg String := do
  let (output, err) ← runCommand host ctx "icacls.exe" args
  match err with
  | none => pure output
  | some e => Prog.raise (text ++ ": " ++ e ++ ": " ++ truncateTail host output)

/-- Grant `rights` on a directory unless its listing already shows the account. -/
def grantDirectory (path rights : String) : HostProg Unit := do
  let existing ← icacls host ctx ("query permissions on " ++ path) [path]
  if hasAccountGrant existing then pure ()
  else do
    let _ ← icacls host ctx
      ("granting " ++ instanceServiceAccount ++ " access to " ++ path ++ " failed")
      [path, "/grant", instanceServiceAccount ++ rights, "/T"]
    pure ()

def resolveExecutable : HostProg String :=
  match host.executable with
  | .ok path => pure path
  | .error e => Prog.raise ("resolve this agent's executable path: " ++ e)

/-- The step `permissions`. -/
def grantPermissions (payload : StartInstancePayload) : HostProg Unit := do
  grantDirectory host ctx (host.dir (host.dir payload.releaseDir)) ":(OI)(CI)M"
  let agentExe ← resolveExecutable host
  let _ ← icacls host ctx
    ("granting " ++ instanceServiceAccount ++ " access to " ++ agentExe ++ " failed")
    [agentExe, "/grant", instanceServiceAccount ++ ":RX"]
  let baseHome ← wrapError "determine the base Python installation directory: "
    (baseInterpreterHome host payload.releaseDir)
  grantDirectory host ctx baseHome ":(OI)(CI)RX"

def launchFile (payload : StartInstancePayload) : LaunchFile where
  exe := host.join [host.dir payload.venvPython, "waitress-serve.exe"]
  args := ["--host=" ++ payload.host, "--port=" ++ toString payload.port,
    payload.wsgiModule ++ ":application"]
  workingDir := payload.releaseDir
  stdoutLog := host.join [payload.logDir, payload.serviceName ++ ".out.log"]
  stderrLog := host.join [payload.logDir, payload.serviceName ++ ".err.log"]

def writeLaunchSpec (specPath : String) (payload : StartInstancePayload) : HostProg Unit := do
  wrapError ("create log directory " ++ payload.logDir ++ ": ")
    (writeFile host (.mkdirAll payload.logDir))
  wrapError ("write launch spec " ++ specPath ++ ": ")
    (writeFile host (.writeFile specPath (launchFile host payload)))

def removeServiceIfPresent (name : String) : HostProg Unit := do
  let status ← wrapError ("query service " ++ name ++ ": ") (statusNamed host name)
  if status = .notInstalled then pure ()
  else do
    wrapError ("stop existing service " ++ name ++ ": ") (stopNamed host name)
    wrapError ("remove existing service " ++ name ++ ": ") (uninstallNamed host name)

/-- The step `service_install`. -/
def installInstance (payload : StartInstancePayload) : HostProg Unit := do
  let name := payload.serviceName
  let agentExe ← resolveExecutable host
  let specPath := host.join [payload.releaseDir, launchSpecName]
  writeLaunchSpec host specPath payload
  removeServiceIfPresent host name
  wrapError ("install service " ++ name ++ ": ")
    (installNamed host name name ("Healer-managed application instance (" ++ name ++ ").") agentExe
      ["instance-host", specPath] instanceServiceAccount)

/-- `waitForRunning`. -/
def waitForRunning (name : String) : ℕ → HostProg String
  | 0 => do
    let status ← wrapError ("query service " ++ name ++ ": ") (statusNamed host name)
    if status = .running then pure "service is running"
    else Prog.raise ("service " ++ name ++
      " did not reach the running state within 10s (last status: " ++ status.value ++ ")")
  | passes + 1 => do
    let status ← wrapError ("query service " ++ name ++ ": ") (statusNamed host name)
    if status = .running then pure "service is running"
    else do
      let log ← Prog.read id
      if host.expired ctx log then
        Prog.raise "timed out waiting for the service to start: context deadline exceeded"
      else waitForRunning name passes

def permissionsMessage : String :=
  "granted the low-privilege service account access to the app directory, the Agent executable, " ++
    "and the base Python installation"

def startWindowsInstance (payload : StartInstancePayload) : HostProg HandlerResult := do
  let name := payload.serviceName
  let (runner, _) ← StepRunner.start.run "permissions" do
    grantPermissions host ctx payload
    pure (permissionsMessage, ())
  let (runner, _) ← runner.run "service_install" do
    installInstance host payload
    pure ("created service " ++ name, ())
  let (runner, _) ← runner.run "service_start" do
    wrapError ("start service " ++ name ++ ": ") (startNamed host name)
    let passes ← Prog.read host.passes
    let message ← waitForRunning host ctx name passes
    pure (message, ())
  pure (runner.result (some name) none)

end StartWindows

section Dispatch

variable (host : Host) (ctx : Context)

def portInRange (port : ℤ) : Bool := 1 ≤ port && port ≤ 65535

/-- The first blank field of a Windows payload. The source ranges over a map, so which of several
it names is not fixed. -/
def blankField (payload : StartInstancePayload) : Option String :=
  ([("release_dir", payload.releaseDir), ("venv_python", payload.venvPython),
    ("wsgi_module", payload.wsgiModule), ("host", payload.host), ("log_dir", payload.logDir)].find?
      fun field => host.blank field.2).map Prod.fst

def validateLinux : Option StartLinux → Except String StartLinux
  | none => .error "invalid start_instance payload: missing linux config"
  | some l =>
    if host.blank l.imageRef then
      .error "invalid start_instance payload: linux.image_ref must not be empty"
    else if portInRange l.internalPort then .ok l
    else .error ("invalid start_instance payload: linux.internal_port " ++ toString l.internalPort ++
      " is out of range")

/-- `HandleStartInstance`, with `validateStartInstancePayload` in front of each adapter. -/
def handleStartInstance (raw : Except String StartInstancePayload) : HostProg HandlerResult :=
  match raw with
  | .error e => Prog.raise ("invalid start_instance payload: " ++ e)
  | .ok payload =>
    if host.blank payload.serviceName then
      Prog.raise "invalid start_instance payload: service_name must not be empty"
    else if !portInRange payload.port then
      Prog.raise ("invalid start_instance payload: port " ++ toString payload.port ++ " is out of range")
    else if payload.adapter = "linux-docker" then
      match validateLinux host payload.linux with
      | .error e => Prog.raise e
      | .ok l => startLinuxInstance host ctx payload l
    else
      match blankField host payload with
      | some name => Prog.raise ("invalid start_instance payload: " ++ name ++ " must not be empty")
      | none => startWindowsInstance host ctx payload

/-- A `start_instance` or `stop_instance` command, by its decoded payload. -/
inductive InstanceCommand
  | start (raw : Except String StartInstancePayload)
  | stop (raw : Except String StopInstancePayload)

def dispatchInstance : InstanceCommand → HostProg HandlerResult
  | .start raw => handleStartInstance host ctx raw
  | .stop raw => handleStopInstance host ctx raw

end Dispatch

section Execute

variable (host : Host)

/-- `execute` around `Dispatch`: the deadline of the context is the command's `expires_at`, and a
handler's error is reported as `timed_out` once that has passed. -/
def execute (expiresAt : Option Time) (cmd : InstanceCommand) : HostProg Outcome := do
  let result ← Prog.attempt (dispatchInstance host expiresAt cmd)
  let log ← Prog.read id
  match result with
  | .ok _ => pure .succeeded
  | .error _ => if host.expired expiresAt log then pure .timedOut else pure .failed

/-- What `handleMessage` finds on a delivery. -/
structure Admission where
  completed : Bool
  inFlight : Bool
  /-- `Record(received)` and `send(acknowledged)` return `nil`. -/
  recorded : Bool
  acknowledged : Bool

def Admission.admits (a : Admission) : Bool :=
  !a.completed && !a.inFlight && a.recorded && a.acknowledged

/-- `handleMessage` and the goroutine it starts. -/
def receiveInstance (a : Admission) (expiresAt : Option Time) (cmd : InstanceCommand) :
    HostProg (Option Outcome) :=
  if a.admits then do
    let outcome ← execute host expiresAt cmd
    pure (some outcome)
  else pure none

end Execute

end Healer
