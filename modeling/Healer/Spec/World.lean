import Healer.Lib.Prog
import Healer.Spec.Application

/-! What a running operation sees: the rows, the Gateway Manager's loaded
configuration, and the answers of the agents, the prober and the gateway. An
operation is a program over a `World`; everything it cannot know comes from an
`Oracle`, so a statement about every oracle is one about every sequence of
outcomes. Each thing an operation does is recorded with the rows and the routed
instances at that moment. -/

namespace Healer

/-- One `upstreams` item, with the instance it was built from. -/
structure Upstream where
  /-- The row that the entry is built from. The payload does not carry it, but hostnames are unique and a port
  has one live instance on a server, so host and port name the same row. -/
  instanceId : InstanceId
  host : String
  port : ℕ

structure ReloadPayload where
  appSlug : String
  domains : List DomainConfig
  upstreams : List Upstream

/-- The part of the start payload that depends on the adapter. -/
inductive LaunchSpec
  | windows (releaseDir venvPython : Option String) (wsgiModule host : String)
  | linux (imageRef : Option String) (internalPort : ℕ)
  | bare

structure StartPayload where
  adapter : Adapter
  serviceName : String
  port : ℕ
  launch : LaunchSpec

structure StopPayload where
  adapter : Adapter
  serviceName : String

inductive Command
  | deployRelease (adapter : Adapter) (appSlug releaseVersion : String) (source : SourceConfig)
  | cleanupImage (appSlug releaseVersion : String)
  | startInstance (i : InstanceId) (payload : StartPayload)
  | stopInstance (i : InstanceId) (payload : StopPayload)

/-- The idempotency keys; a random suffix of the source is left out. -/
inductive CommandKey
  | deployRelease (d : DeploymentId)
  | startInstance (i : InstanceId)
  | abortStopInstance (i : InstanceId)
  | stopInstance (i : InstanceId)
  | cleanupImage (r : ReleaseId)
  | restartInstance (i : InstanceId) (attempt : ℕ)
  | manualRestart (i : InstanceId)
  | manualStop (i : InstanceId)
  deriving DecidableEq

structure CommandStep where
  name : Option String
  status : Option String
  message : Option String

structure CommandResult where
  ok : Bool
  steps : List CommandStep
  releaseDir : Option String
  venvPython : Option String
  imageRef : Option String

/-- The `AgentCommand` row as `submit_command_and_wait` returns it. -/
structure AgentCommand where
  status : CommandStatus
  error : Option String
  result : Option CommandResult

/-- The row, or an exception out of the WebSocket send. -/
inductive Reply
  | row (c : AgentCommand)
  | sendFailed (error : String)

inductive Event
  | commit
  | updated (c : HealerYaml)
  | instanceTransition (i : InstanceId) (current target : InstanceStatus)
  | deploymentTransition (d : DeploymentId) (current target : DeploymentStatus)
  | submitted (agent : ServerId) (key : CommandKey) (command : Command)
  | answered (key : CommandKey) (row : AgentCommand)
  | sendFailed (key : CommandKey)
  | probe (i : InstanceId) (host : String) (port : ℕ) (healthy : Bool)
  | probeRaised (i : InstanceId)
  | healthGate (i : InstanceId) (healthy : Bool)
  | sync (payload : ReloadPayload)
  | synced (ok : Bool)
  | setActive (r : Option ReleaseId)
  /-- The database refuses a flush; its rows are rolled back. -/
  | flushFailed

structure Entry where
  event : Event
  db : Db
  routed : List InstanceId

inductive Exn
  | invalidInstanceTransition (current target : InstanceStatus)
  | invalidDeploymentTransition (current target : DeploymentStatus)
  | sendFailed (key : CommandKey) (error : String)
  | probeRaised (error : String)
  /-- After a flush has failed the session takes no statement until it is rolled back. -/
  | databaseError
  | validationError
  | missingRow
  | deploymentSetup (message : String)
  | scaleSetup (message : String)
  | releaseSetup (message : String)
  | instanceAction (message : String)
  | operationLockHeld (message : String)
  deriving DecidableEq

/-- `str(exc)`; a failed send is the only exception the source puts into a log. -/
def Exn.text : Exn → String
  | .sendFailed _ error => error
  | _ => ""

/-- The Gateway Manager: the managed file nginx has loaded, if there is one, and the
requests it has yet to process. -/
structure Gateway where
  active : Option ReloadPayload
  inFlight : List (ℕ × ReloadPayload)

/-- A successful `nginx_manager.apply`. Without a domain or an upstream the managed
file is removed. -/
def Gateway.apply (g : Gateway) (p : ReloadPayload) : Gateway :=
  { g with active := if p.domains.isEmpty || p.upstreams.isEmpty then none else some p }

def Gateway.routed (g : Gateway) : List InstanceId :=
  match g.active with
  | none => []
  | some p => p.upstreams.map Upstream.instanceId

/-- One suspension point passes: requests that were one away are processed. -/
def Gateway.pass (g : Gateway) : Gateway :=
  (g.inFlight.filter (·.1 == 0)).foldl (fun g q => g.apply q.2)
    { g with inFlight := (g.inFlight.filter (·.1 != 0)).map fun q => (q.1 - 1, q.2) }

/-- What becomes of a `/reload` request. `answered` is a reply in time; `timedOut` is
any `httpx.HTTPError`, after which the gateway may never act on the request or act on
it after some further suspension points. A payload that `ReloadRequest` refuses (a slug
of more than 63 letters, a host with an underscore) is answered 422; its `detail` is a
list, given here as its `str`. -/
inductive Delivery
  | answered (ok : Bool) (message : String)
  | unprocessable (detail : String)
  | timedOut (error : String) (applied : Option ℕ)

/-- What the rest of the process may do while an operation is suspended. -/
inductive Background
  | update (c : HealerYaml)
  | tickBegin
  | pollNext

/-- What comes of one GET: the status, nothing after an `httpx.HTTPError`, or an exception
that is none and goes through `check_instance_once` (`httpx.InvalidURL`). -/
abbrev ProbeOutcome := Except String (Option ℕ)

structure Oracle where
  reply : CommandKey → Reply
  probe : InstanceId → ℕ → ProbeOutcome
  poll : ℕ → InstanceId → ProbeOutcome
  foreignPort : InstanceId → ServerId → ℕ → Bool
  foreignImage : String → Bool
  delivery : ℕ → Delivery
  during : ℕ → List Background
  elapsed : ℕ → ℕ

structure World where
  db : Db
  gateway : Gateway
  trace : List Entry
  awaits : ℕ
  syncs : ℕ
  clock : Time
  /-- Instances the running `health_monitor.tick` has yet to poll, with the host it took. -/
  monitor : List (InstanceId × String)

abbrev M := Prog World Exn

def World.emit (w : World) (e : Event) : World :=
  { w with trace := w.trace ++ [⟨e, w.db, w.gateway.routed⟩] }

def World.setDb (w : World) (db : Db) : World := { w with db := db }

/-- `check_instance_once`: without an expected status anything below 500 is healthy. -/
def HealthCheck.judge (hc : HealthCheck) : Option ℕ → Bool
  | none => false
  | some status =>
    match hc.expectedStatus with
    | some expected => status == expected
    | none => status < 500

def seconds (n : ℕ) : Time := (n : ℤ) * 1000000

/-- The latest result of an instance; results are appended in order of `checked_at`. -/
def Db.lastResult (db : Db) (i : InstanceId) : Option HealthCheckResult :=
  db.results.reverse.find? fun r => r.instanceId == i

/-- The head of `health_monitor.tick`. -/
def World.tickBegin (w : World) : World :=
  match w.db.healthCheck, w.db.application.serverId.bind w.db.servers with
  | some _, some server =>
    { w with monitor := (w.db.instances.select fun i => i.status == .running).map (·, server.hostname) }
  | _, _ => w

/-- `consecutive_failures` of the next result of the monitor. -/
def nextFailures (last : Option HealthCheckResult) (healthy : Bool) : ℕ :=
  if healthy then 0
  else match last with
    | some r => if r.healthy then 1 else r.consecutiveFailures + 1
    | none => 1

def World.recordResult (w : World) (i : InstanceId) (healthy : Bool) (failures : ℕ) : World :=
  w.setDb { w.db with results := w.db.results ++ [⟨i, healthy, failures, w.clock⟩] }

/-- `_poll_and_maybe_heal` up to the result row, and whether the threshold is reached. An
exception of the prober leaves `tick`, which polls no further instance. -/
def World.poll (o : Oracle) (w : World) (i : InstanceId) (host : String) : Except Exn Bool × World :=
  match w.db.instances.row i, w.db.healthCheck with
  | some inst, some hc =>
    let last := w.db.lastResult i
    if last.any fun r => w.clock < r.checkedAt + seconds hc.intervalSeconds then (.ok false, w)
    else
      match o.poll w.db.results.length i with
      | .error error => (.error (.probeRaised error), { w with monitor := [] })
      | .ok answer =>
        let healthy := hc.judge answer
        let failures := nextFailures last healthy
        (.ok (!healthy && failures ≥ hc.unhealthyThreshold),
          ((w.emit (.probe i host inst.port healthy)).recordResult i healthy failures).emit .commit)
  | _, _ => (.ok false, w)

def World.pollNext (o : Oracle) (w : World) : World :=
  match w.monitor with
  | [] => w
  | (i, host) :: rest => ({ w with monitor := rest }.poll o i host).2

/-- A poll that reaches the threshold would heal, but the suspended operation holds
the lock and `_heal` returns. -/
def Background.run (o : Oracle) (w : World) : Background → World
  | .update c => (w.setDb (w.db.updateApplication c)).emit (.updated c)
  | .tickBegin => w.tickBegin
  | .pollNext => w.pollNext o

/-- An `await`: the rest of the process runs, time passes, late requests arrive. -/
def World.suspend (o : Oracle) (w : World) : World :=
  let w' := (o.during w.awaits).foldl (Background.run o) w
  { w' with
    awaits := w.awaits + 1
    clock := w'.clock + o.elapsed w.awaits
    gateway := w'.gateway.pass }

def emit (e : Event) : M Unit := Prog.update fun w => w.emit e

def commit : M Unit := emit .commit

def suspend (o : Oracle) : M Unit := Prog.update fun w => w.suspend o

def getDb : M Db := Prog.read World.db

def modifyDb (f : Db → Db) : M Unit := Prog.update fun w => w.setDb (f w.db)

def now : M Time := Prog.read World.clock

/-- A flush that the database refuses, other than with an `IntegrityError`. -/
def failFlush {α : Type} : M α := do
  emit .flushFailed
  Prog.raise .databaseError

/-- `command_service.submit_command_and_wait`: the command row is committed, sent, and
read again when its outcome is known or the wait is over. -/
def submitCommandAndWait (o : Oracle) (agent : ServerId) (key : CommandKey) (command : Command) :
    M AgentCommand := do
  commit
  emit (.submitted agent key command)
  suspend o
  match o.reply key with
  | .row c => do emit (.answered key c); pure c
  | .sendFailed error => do emit (.sendFailed key); Prog.raise (.sendFailed key error)

/-- `InstanceRepository.transition`. -/
def transition (i : InstanceId) (target : InstanceStatus) : M Unit := do
  let db ← getDb
  match db.instances.row i with
  | none => Prog.raise .missingRow
  | some inst => do
    emit (.instanceTransition i inst.status target)
    if canTransition instanceTransitions inst.status target then
      modifyDb fun db => { db with
        instances := db.instances.modify i fun inst => { inst with status := target } }
    else Prog.raise (.invalidInstanceTransition inst.status target)

/-- `deployment_service.transition_deployment`, without its audit row. -/
def transitionDeployment (d : DeploymentId) (target : DeploymentStatus) : M Unit := do
  let db ← getDb
  match db.deployments.row d with
  | none => Prog.raise .missingRow
  | some dep => do
    emit (.deploymentTransition d dep.status target)
    if canTransition deploymentTransitions dep.status target then
      modifyDb fun db => { db with
        deployments := db.deployments.modify d fun dep => { dep with status := target } }
    else Prog.raise (.invalidDeploymentTransition dep.status target)

/-- An ORM object read by the code: its row is there. -/
def getInstance (i : InstanceId) : M Instance := do
  let db ← getDb
  match db.instances.row i with
  | some inst => pure inst
  | none => Prog.raise .missingRow

def getRelease (r : ReleaseId) : M Release := do
  let db ← getDb
  match db.releases.row r with
  | some rel => pure rel
  | none => Prog.raise .missingRow

def modifyInstance (i : InstanceId) (f : Instance → Instance) : M Unit :=
  modifyDb fun db => { db with instances := db.instances.modify i f }

def modifyRelease (r : ReleaseId) (f : Release → Release) : M Unit :=
  modifyDb fun db => { db with releases := db.releases.modify r f }

/-- `application.active_release_id = r; session.commit()`. -/
def setActive (r : Option ReleaseId) : M Unit := do
  emit (.setActive r)
  modifyDb fun db => { db with application := { db.application with activeReleaseId := r } }
  commit

/-- `application_service.config_from_application`. -/
def configFromApplication : M HealerYaml := do
  let db ← getDb
  match db.application.config with
  | some c => pure c
  | none => Prog.raise .validationError

end Healer
