import Healer.Lib.Prog
import Healer.Spec.Commands

/-! What the Agent's handlers ask of the host they run on: `internal/dockerengine`, the named
services of `internal/service`, processes and files. The answers are a parameter, and each may
depend on all that was asked before it. -/

namespace Healer

inductive HttpMethod
  | get | post | delete
  deriving DecidableEq

/-- `dockerengine.ContainerSpec`. -/
structure ContainerSpec where
  image : String
  env : List (String × String)
  network : String
  hostPort : ℤ
  internalPort : ℤ
  cpuLimit : ℚ
  memoryLimitMB : ℤ
  deriving DecidableEq

inductive DockerBody
  | empty
  | network (name : String)
  | container (spec : ContainerSpec)
  deriving DecidableEq

/-- A call on the Windows service manager. -/
inductive ScmOp
  | connect
  | openService (name : String)
  | query (name : String)
  | stop (name : String)
  | start (name : String)
  | delete (name : String)
  | create (name displayName description exePath : String) (args : List String) (account : String)
  deriving DecidableEq

/-- `launchSpec` of `start_instance`: what the Agent's `instance-host` runs. -/
structure LaunchFile where
  exe : String
  args : List String
  workingDir : String
  stdoutLog : String
  stderrLog : String
  deriving DecidableEq

inductive HostCall
  | docker (method : HttpMethod) (path : String) (body : DockerBody)
  | exec (name : String) (args : List String)
  | scm (op : ScmOp)
  | readFile (path : String)
  | mkdirAll (path : String)
  | writeFile (path : String) (spec : LaunchFile)
  deriving DecidableEq

def ScmOp.acts : ScmOp → Bool
  | .connect | .openService _ | .query _ => false
  | _ => true

/-- The call changes something on the host, rather than only ask. -/
def HostCall.acts : HostCall → Bool
  | .docker method _ _ => method != .get
  | .exec _ args => args.contains "/grant"
  | .scm op => op.acts
  | .readFile _ => false
  | .mkdirAll _ | .writeFile _ _ => true

abbrev HostLog := List HostCall

/-- What a handler has done to the host. -/
def HostLog.effects (log : HostLog) : List HostCall := log.filter HostCall.acts

structure ContainerState where
  present : Bool
  running : Bool
  status : String
  exitCode : ℤ

/-- A response of the Docker daemon, its body as the client decodes it. -/
structure HttpResponse where
  status : ℕ
  /-- The `message` of an error body, or the body itself. -/
  message : String
  id : Except String String
  state : Except String ContainerState
  logs : String

inductive ScmError
  | doesNotExist
  | notActive
  | alreadyRunning
  | other (text : String)

/-- `err.Error()` of the errors of `golang.org/x/sys/windows`. -/
def ScmError.text : ScmError → String
  | .doesNotExist => "The specified service does not exist as an installed service."
  | .notActive => "The service has not been started."
  | .alreadyRunning => "An instance of the service is already running."
  | .other text => text

inductive ServiceState
  | running | stopped | startPending | stopPending | other
  deriving DecidableEq

/-- The `Status*` strings of `StatusNamed`. -/
inductive ServiceStatus
  | running | stopped | startPending | stopPending | notInstalled | unknown
  deriving DecidableEq

def ServiceState.status : ServiceState → ServiceStatus
  | .running => .running
  | .stopped => .stopped
  | .startPending => .startPending
  | .stopPending => .stopPending
  | .other => .unknown

def ServiceStatus.value : ServiceStatus → String
  | .running => "running"
  | .stopped => "stopped"
  | .startPending => "start_pending"
  | .stopPending => "stop_pending"
  | .notInstalled => "not_installed"
  | .unknown => "unknown"

/-- The host, with the functions of Go's standard library that the handlers use. -/
structure Host where
  os : Os
  socketPath : String
  executable : Except String String
  /-- When the command was received, and the time since. -/
  receivedAt : Time
  elapsed : HostLog → ℕ
  /-- The passes a polling loop makes before its deadline. -/
  passes : HostLog → ℕ
  docker : HostLog → HostCall → Except String HttpResponse
  /-- The combined output, and the error. -/
  exec : HostLog → HostCall → String × Option String
  scm : HostLog → ScmOp → Except ScmError ServiceState
  readFile : HostLog → String → Except String String
  /-- The error of `os.MkdirAll` or `os.WriteFile`. -/
  write : HostLog → HostCall → Option String
  /-- The error of a call that is given a context which is done. -/
  contextError : HostCall → String
  trimSpace : String → String
  pathEscape : String → String
  queryEscape : String → String
  dir : String → String
  join : List String → String

abbrev HostProg := Prog HostLog String

/-- A context by its deadline. -/
abbrev Context := Option Time

def Host.expired (host : Host) (ctx : Context) (log : HostLog) : Bool :=
  ctx.any fun deadline => deadline ≤ host.receivedAt + host.elapsed log

/-- `fmt.Errorf(text + "%w", err)`. -/
def wrapError {α : Type} (text : String) (m : HostProg α) : HostProg α := do
  let outcome ← Prog.attempt m
  match outcome with
  | .ok a => pure a
  | .error e => Prog.raise (text ++ e)

section Docker

variable (host : Host) (ctx : Context)

/-- `Client.do`. A request with a context that is done is not sent. -/
def dockerDo (method : HttpMethod) (path : String) (body : DockerBody) : HostProg HttpResponse := do
  let log ← Prog.read id
  if host.expired ctx log then
    Prog.raise ("docker daemon at " ++ host.socketPath ++ ": " ++
      host.contextError (.docker method path body))
  else do
    Prog.update fun log => log ++ [.docker method path body]
    match host.docker log (.docker method path body) with
    | .ok resp => pure resp
    | .error e => Prog.raise ("docker daemon at " ++ host.socketPath ++ ": " ++ e)

def HttpResponse.isSuccess (resp : HttpResponse) : Bool := 200 ≤ resp.status && resp.status < 300

def readErrorBody (resp : HttpResponse) : String :=
  "docker daemon returned HTTP " ++ toString resp.status ++ ": " ++ resp.message

def ensureNetwork (name : String) : HostProg Unit := do
  let resp ← dockerDo host ctx .get ("/networks/" ++ host.pathEscape name) .empty
  if resp.status = 200 then pure ()
  else if resp.status ≠ 404 then
    Prog.raise ("checking network \"" ++ name ++ "\": HTTP " ++ toString resp.status)
  else do
    let created ← dockerDo host ctx .post "/networks/create" (.network name)
    if created.isSuccess then pure () else Prog.raise (readErrorBody created)

def removeContainer (name : String) (force : Bool) : HostProg Unit := do
  let path := "/containers/" ++ host.pathEscape name
  let resp ← dockerDo host ctx .delete (if force then path ++ "?force=true" else path) .empty
  if resp.isSuccess || resp.status = 404 then pure () else Prog.raise (readErrorBody resp)

def createContainer (name : String) (spec : ContainerSpec) : HostProg String := do
  wrapError ("removing any existing container named " ++ name ++ ": ")
    (removeContainer host ctx name true)
  let resp ← dockerDo host ctx .post ("/containers/create?name=" ++ host.queryEscape name)
    (.container spec)
  if resp.isSuccess then
    match resp.id with
    | .ok id => pure id
    | .error e => Prog.raise ("decode container create response: " ++ e)
  else Prog.raise (readErrorBody resp)

def startContainer (name : String) : HostProg Unit := do
  let resp ← dockerDo host ctx .post ("/containers/" ++ host.pathEscape name ++ "/start") .empty
  if resp.isSuccess || resp.status = 304 then pure () else Prog.raise (readErrorBody resp)

def stopContainer (name : String) (timeoutSeconds : ℕ) : HostProg Unit := do
  let resp ← dockerDo host ctx .post
    ("/containers/" ++ host.pathEscape name ++ "/stop?t=" ++ toString timeoutSeconds) .empty
  if [200, 204, 304, 404].contains resp.status then pure () else Prog.raise (readErrorBody resp)

def inspectContainer (name : String) : HostProg ContainerState := do
  let resp ← dockerDo host ctx .get ("/containers/" ++ host.pathEscape name ++ "/json") .empty
  if resp.status = 404 then pure ⟨false, false, "", 0⟩
  else if resp.isSuccess then
    match resp.state with
    | .ok state => pure state
    | .error e => Prog.raise ("decode container inspect response: " ++ e)
  else Prog.raise (readErrorBody resp)

def containerLogs (name : String) (tail : ℕ) : HostProg String := do
  let resp ← dockerDo host ctx .get
    ("/containers/" ++ host.pathEscape name ++ "/logs?stdout=1&stderr=1&tail=" ++ toString tail) .empty
  if resp.isSuccess then pure resp.logs else Prog.raise (readErrorBody resp)

end Docker

section Processes

/-- `runCommand`. `exec.CommandContext` starts nothing when its context is done. -/
def runCommand (host : Host) (ctx : Context) (name : String) (args : List String) :
    HostProg (String × Option String) := do
  let log ← Prog.read id
  if host.expired ctx log then pure ("", some (host.contextError (.exec name args)))
  else do
    Prog.update fun log => log ++ [.exec name args]
    pure (host.exec log (.exec name args))

def readFile (host : Host) (path : String) : HostProg String := do
  let log ← Prog.read id
  Prog.update fun log => log ++ [.readFile path]
  match host.readFile log path with
  | .ok data => pure data
  | .error e => Prog.raise e

/-- `os.MkdirAll` or `os.WriteFile`. -/
def writeFile (host : Host) (call : HostCall) : HostProg Unit := do
  let log ← Prog.read id
  Prog.update fun log => log ++ [call]
  match host.write log call with
  | none => pure ()
  | some e => Prog.raise e

end Processes

section Services

variable (host : Host)

def scmCall (op : ScmOp) : HostProg (Except ScmError ServiceState) := do
  let log ← Prog.read id
  Prog.update fun log => log ++ [.scm op]
  pure (host.scm log op)

/-- Off Windows every named service call fails. -/
def onWindows {α : Type} (m : HostProg α) : HostProg α :=
  if host.os = .windows then m
  else Prog.raise "per-instance service management is not supported on linux (only windows)"

def connectManager : HostProg Unit := do
  match ← scmCall host .connect with
  | .ok _ => pure ()
  | .error e => Prog.raise ("connect to service manager: " ++ e.text)

/-- `OpenService`, with `false` for a service that does not exist. -/
def openNamed (name : String) : HostProg Bool := do
  match ← scmCall host (.openService name) with
  | .ok _ => pure true
  | .error .doesNotExist => pure false
  | .error e => Prog.raise ("open service " ++ name ++ ": " ++ e.text)

def queryNamed (name : String) : HostProg ServiceState := do
  match ← scmCall host (.query name) with
  | .ok state => pure state
  | .error e => Prog.raise ("query service " ++ name ++ ": " ++ e.text)

def statusNamed (name : String) : HostProg ServiceStatus := onWindows host do
  connectManager host
  if ← openNamed host name then do
    let state ← queryNamed host name
    pure state.status
  else pure .notInstalled

/-- The loop at the end of `StopNamed`. -/
def awaitStopped (name : String) : ℕ → ServiceState → HostProg Unit
  | passes, state =>
    if state = .stopped then pure ()
    else match passes with
      | 0 => Prog.raise ("service " ++ name ++ " did not reach the stopped state in time")
      | passes + 1 => do
        let state ← queryNamed host name
        awaitStopped name passes state

def stopNamed (name : String) : HostProg Unit := onWindows host do
  connectManager host
  if ← openNamed host name then
    match ← scmCall host (.stop name) with
    | .error .notActive => pure ()
    | .error e => Prog.raise ("send stop control to " ++ name ++ ": " ++ e.text)
    | .ok state => do
      let passes ← Prog.read host.passes
      awaitStopped host name passes state
  else pure ()

def uninstallNamed (name : String) : HostProg Unit := onWindows host do
  connectManager host
  if ← openNamed host name then
    match ← scmCall host (.delete name) with
    | .ok _ => pure ()
    | .error e => Prog.raise ("delete service " ++ name ++ ": " ++ e.text)
  else pure ()

def startNamed (name : String) : HostProg Unit := onWindows host do
  connectManager host
  match ← scmCall host (.openService name) with
  | .error e => Prog.raise ("open service " ++ name ++ ": " ++ e.text)
  | .ok _ =>
    match ← scmCall host (.start name) with
    | .ok _ => pure ()
    | .error .alreadyRunning => pure ()
    | .error e => Prog.raise ("start service " ++ name ++ ": " ++ e.text)

def installNamed (name displayName description exePath : String) (args : List String)
    (account : String) : HostProg Unit := onWindows host do
  connectManager host
  match ← scmCall host (.openService name) with
  | .ok _ => Prog.raise ("service " ++ name ++ " is already installed")
  | .error _ =>
    match ← scmCall host (.create name displayName description exePath args account) with
    | .ok _ => pure ()
    | .error e => Prog.raise ("create service " ++ name ++ ": " ++ e.text)

end Services

end Healer
