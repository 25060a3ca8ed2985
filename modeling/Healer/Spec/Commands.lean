import Healer.Lib.Prog
import Healer.Spec.Sockets

/-! `command_service` and the messages that `agent_socket` handles, on the rows they read and
write, each call as one transaction. JSON values are of an arbitrary type `ρ`, and what the
columns of PostgreSQL do with them is a parameter. -/

namespace Healer

abbrev CommandId := ℕ

structure CommandRow (ρ : Type) where
  agentId : AgentId
  idempotencyKey : String
  status : CommandStatus
  expiresAt : Option Time
  result : Option ρ
  error : Option String

/-- `AgentCommandEvent.detail`: `{"result": r}` or `{"error": e}`. -/
inductive EventDetail (ρ : Type)
  | result (r : ρ)
  | error (e : ρ)

def EventDetail.value {ρ : Type} : EventDetail ρ → ρ
  | .result r => r
  | .error e => e

structure CommandEventRow (ρ : Type) where
  commandId : CommandId
  status : CommandStatus
  detail : Option (EventDetail ρ)
  occurredAt : Time

inductive Os
  | windows | linux
  deriving DecidableEq, Repr

inductive Arch
  | amd64 | arm64
  deriving DecidableEq, Repr

structure Capabilities where
  os : Os
  arch : Arch
  adapters : List String

structure AgentRow where
  serverId : ℕ
  agentVersion : String
  lastSeenAt : Option Time
  capabilities : Option Capabilities

structure MetricsSnapshot where
  serverId : ℕ
  cpuPercent : ℚ
  memoryPercent : ℚ
  diskPercent : ℚ
  recordedAt : Time

/-- A `control.command` that went out to an agent, and when it did. -/
structure Transmission where
  commandId : CommandId
  expiresAt : Option Time
  sentAt : Time
  deriving DecidableEq

structure AgentDb (ρ : Type) where
  agents : AgentId → AgentRow
  commands : Table (CommandRow ρ)
  /-- In the order of insertion. -/
  events : List (CommandEventRow ρ)
  metrics : List MetricsSnapshot
  /-- What the sockets have carried, which no rollback takes back. -/
  transmitted : List Transmission

/-- What Python and PostgreSQL make of the values an agent sends. -/
structure Columns (ρ : Type) where
  truthy : ρ → Bool
  /-- A `jsonb` column takes the value. -/
  json : ρ → Bool
  /-- What a text column keeps of the value, if it takes it. -/
  text : ρ → Option String
  /-- A text column, or `jsonb`, takes the string. -/
  string : String → Bool

inductive CommandExn
  | invalidTransition (current target : CommandStatus)
  /-- `pydantic.ValidationError`. -/
  | validation
  /-- A field of the payload is not of the type the code takes it for. -/
  | badField
  /-- PostgreSQL refuses a value. -/
  | dataError
  /-- `send_json` on a socket that has closed. -/
  | closed
  deriving DecidableEq

abbrev CommandProg (ρ : Type) := Prog (AgentDb ρ) CommandExn

/-- The socket `connection_manager.get` finds, by what becomes of each command sent on it: the
time it goes out, or an exception. -/
abbrev Sending := CommandId → Option Time

section Service

variable {ρ : Type}

def AgentDb.setCommand (db : AgentDb ρ) (i : CommandId) (f : CommandRow ρ → CommandRow ρ) :
    AgentDb ρ :=
  { db with commands := db.commands.modify i f }

def AgentDb.addEvent (db : AgentDb ρ) (e : CommandEventRow ρ) : AgentDb ρ :=
  { db with events := db.events ++ [e] }

/-- Back to the rows of `before`. -/
def AgentDb.rollback (db before : AgentDb ρ) : AgentDb ρ :=
  { before with transmitted := db.transmitted }

/-- The message that `_command_envelope_payload` makes of a command. -/
def AgentDb.transmit (db : AgentDb ρ) (i : CommandId) (sentAt : Time) : AgentDb ρ :=
  { db with
    transmitted :=
      db.transmitted ++ ((db.commands.row i).map fun r => ⟨i, r.expiresAt, sentAt⟩).toList }

/-- `AgentCommandRepository.transition`, with `require_transition` in it. -/
def transitionCommand (i : CommandId) (target : CommandStatus) : CommandProg ρ Unit := do
  let row ← Prog.read fun db => db.commands.row i
  match row with
  | none => pure ()
  | some r =>
    if canTransition agentCommandTransitions r.status target then
      Prog.update fun db => db.setCommand i fun r => { r with status := target }
    else Prog.raise (.invalidTransition r.status target)

/-- `get_by_idempotency_key`. -/
def AgentDb.byIdempotencyKey (db : AgentDb ρ) (key : String) : Option CommandId :=
  (db.commands.select fun r => r.idempotencyKey == key).head?

/-- `await websocket.send_json(..)` and then the transition to `SENT`. -/
def sendCommand (send : Sending) (i : CommandId) : CommandProg ρ Unit :=
  match send i with
  | none => Prog.raise .closed
  | some sentAt => do
    Prog.update fun db => db.transmit i sentAt
    transitionCommand i .sent

/-- The row `submit_command` adds, which expires after `ttl_seconds`. -/
def newCommand (g : AgentId) (key : String) (ttlSeconds : ℤ) (now : Time) : CommandRow ρ where
  agentId := g
  idempotencyKey := key
  status := .pending
  expiresAt := some (now + ttlSeconds * 1000000)
  result := none
  error := none

/-- `submit_command`. The new row is committed before it is sent, so that it stays when the send
fails. -/
def submitCommand (g : AgentId) (key : String) (ttlSeconds : ℤ) (now : Time)
    (socket : Option Sending) : CommandProg ρ CommandId := do
  let existing ← Prog.read fun db => db.byIdempotencyKey key
  match existing with
  | some i => pure i
  | none => do
    let i ← Prog.read fun db => db.commands.next
    Prog.update fun db =>
      { db with commands := db.commands.insert (newCommand g key ttlSeconds now) }
    match socket with
    | none => pure i
    | some send => do
      sendCommand send i
      pure i

/-- `list_pending_for_agent`. -/
def AgentDb.pendingForAgent (db : AgentDb ρ) (g : AgentId) : List CommandId :=
  db.commands.select fun r => r.agentId == g && r.status == .pending

/-- `deliver_pending_commands`, committed by `agent_socket` when it returns and rolled back when
it raises. -/
def deliverPendingCommands (g : AgentId) (socket : Option Sending) : CommandProg ρ Unit :=
  match socket with
  | none => pure ()
  | some send => do
    let before ← Prog.read id
    let outcome ← Prog.attempt (Prog.each (sendCommand send) (before.pendingForAgent g))
    match outcome with
    | .ok _ => pure ()
    | .error e => do
      Prog.update fun db => db.rollback before
      Prog.raise e

/-- `{"result": result} if result is not None else ({"error": error} if error else None)`. -/
def Columns.detail (cols : Columns ρ) : Option ρ → Option ρ → Option (EventDetail ρ)
  | some r, _ => some (.result r)
  | none, some e => if cols.truthy e then some (.error e) else none
  | none, none => none

/-- The flush of `record_event` goes through. -/
def Columns.takes (cols : Columns ρ) (result error : Option ρ) : Bool :=
  result.all cols.json && error.all (fun e => (cols.text e).isSome) &&
    (cols.detail result error).all fun d => cols.json d.value

/-- `record_event`. -/
def recordEvent (cols : Columns ρ) (i : CommandId) (status : CommandStatus) (result error : Option ρ)
    (occurredAt : Time) : CommandProg ρ Unit := do
  let before ← Prog.read id
  transitionCommand i status
  if cols.takes result error then
    Prog.update fun db =>
      (db.setCommand i fun r =>
        { r with result := result.or r.result, error := (error.bind cols.text).or r.error }).addEvent
          ⟨i, status, cols.detail result error, occurredAt⟩
  else do
    Prog.update fun db => db.rollback before
    Prog.raise .dataError

/-- The `WHERE` clause of `expire_overdue_commands`. -/
def CommandRow.overdue (r : CommandRow ρ) (now : Time) : Bool :=
  [CommandStatus.pending, .sent, .acknowledged, .running].contains r.status &&
    r.expiresAt.any fun t => t < now

def expiryTarget (status : CommandStatus) : CommandStatus :=
  if status = .pending then .expired else .timedOut

/-- One turn of the loop in `expire_overdue_commands`. -/
def expireCommand (now : Time) (i : CommandId) : CommandProg ρ Unit := do
  let row ← Prog.read fun db => db.commands.row i
  match row with
  | none => pure ()
  | some r => do
    transitionCommand i (expiryTarget r.status)
    Prog.update fun db => db.addEvent ⟨i, expiryTarget r.status, none, now⟩

def expireOverdueCommands (now : Time) : CommandProg ρ Unit := do
  let overdue ← Prog.read fun db => db.commands.select fun r => r.overdue now
  Prog.each (expireCommand now) overdue

end Service

section Messages

variable {ρ : Type}

/-- A field of a payload: missing or empty, of a type the code raises on, or a value. -/
inductive Field (α : Type)
  | absent
  | bad
  | value (a : α)

/-- The payload of `agent.hello` as `AgentHelloPayload` validates it. -/
structure Hello where
  agentVersion : String
  os : Os
  arch : Arch
  adapters : List String

/-- The payload of `agent.heartbeat`. -/
structure Heartbeat where
  cpuPercent : ℚ
  memoryPercent : ℚ
  diskPercent : ℚ

/-- The payload of `agent.command_event`. A `command_id` that is no UUID is `absent`, a `status`
that is no `AgentCommandStatus` is `none`. -/
structure CommandEvent (ρ : Type) where
  commandId : Field CommandId
  status : Option CommandStatus
  result : Option ρ
  error : Option ρ
  occurredAt : Field Time

inductive AgentMessage (ρ : Type)
  /-- `none` for a payload that does not validate. -/
  | hello (payload : Option Hello)
  | heartbeat (payload : Option Heartbeat)
  | commandEvent (payload : CommandEvent ρ)
  | unknown

/-- `Field(ge=0, le=100)`. -/
def percentage (x : ℚ) : Bool := 0 ≤ x && x ≤ 100

def Heartbeat.inRange (h : Heartbeat) : Bool :=
  percentage h.cpuPercent && percentage h.memoryPercent && percentage h.diskPercent

/-- The columns of the agent's row take the report: `agent_version` is a `String(50)`. -/
def Columns.takesHello (cols : Columns ρ) (h : Hello) : Bool :=
  h.agentVersion.length ≤ 50 && cols.string h.agentVersion && h.adapters.all cols.string

def AgentDb.setAgent (db : AgentDb ρ) (g : AgentId) (f : AgentRow → AgentRow) : AgentDb ρ :=
  { db with agents := Function.update db.agents g (f (db.agents g)) }

def applyHello (cols : Columns ρ) (g : AgentId) (payload : Option Hello) : CommandProg ρ Unit :=
  match payload with
  | none => Prog.raise .validation
  | some h =>
    if cols.takesHello h then
      Prog.update fun db =>
        db.setAgent g fun a =>
          { a with agentVersion := h.agentVersion, capabilities := some ⟨h.os, h.arch, h.adapters⟩ }
    else Prog.raise .dataError

def applyHeartbeat (g : AgentId) (now : Time) (payload : Option Heartbeat) : CommandProg ρ Unit :=
  match payload with
  | none => Prog.raise .validation
  | some h =>
    if h.inRange then
      Prog.update fun db =>
        { db.setAgent g fun a => { a with lastSeenAt := some now } with
          metrics := db.metrics ++
            [⟨(db.agents g).serverId, h.cpuPercent, h.memoryPercent, h.diskPercent, now⟩] }
    else Prog.raise .validation

/-- `datetime.fromisoformat(occurred_at_raw) if occurred_at_raw else datetime.now(UTC)`. -/
def Field.orNow (now : Time) : Field Time → Option Time
  | .absent => some now
  | .bad => none
  | .value t => some t

/-- `_handle_command_event`. -/
def handleCommandEvent (cols : Columns ρ) (g : AgentId) (now : Time) (payload : CommandEvent ρ) :
    CommandProg ρ Unit :=
  match payload.commandId with
  | .absent => pure ()
  | .bad => Prog.raise .badField
  | .value i => do
    let row ← Prog.read fun db => db.commands.row i
    -- Never let one agent update a command that isn't its own.
    if row.any fun r => r.agentId == g then
      match payload.status with
      | none => pure ()
      | some status =>
        match payload.occurredAt.orNow now with
        | none => Prog.raise .badField
        | some occurredAt => recordEvent cols i status payload.result payload.error occurredAt
    else pure ()

/-- `_handle_message` on the connection of agent `g`. -/
def handleMessage (cols : Columns ρ) (g : AgentId) (now : Time) : AgentMessage ρ → CommandProg ρ Unit
  | .hello payload => applyHello cols g payload
  | .heartbeat payload => applyHeartbeat g now payload
  | .commandEvent payload => handleCommandEvent cols g now payload
  | .unknown => pure ()

end Messages

section Histories

variable {ρ : Type}

/-- What writes commands, each as one step. -/
inductive CommandOp (ρ : Type)
  | submit (g : AgentId) (key : String) (ttlSeconds : ℤ) (now : Time) (socket : Option Sending)
  | deliver (g : AgentId) (socket : Option Sending)
  | message (g : AgentId) (now : Time) (m : AgentMessage ρ)
  | expire (now : Time)

def CommandOp.step (cols : Columns ρ) (db : AgentDb ρ) : CommandOp ρ → AgentDb ρ
  | .submit g key ttlSeconds now socket => (submitCommand g key ttlSeconds now socket db).2
  | .deliver g socket => (deliverPendingCommands g socket db).2
  | .message g now m => (handleMessage cols g now m db).2
  | .expire now => (expireOverdueCommands now db).2

def AgentDb.start (agents : AgentId → AgentRow) : AgentDb ρ := ⟨agents, .empty, [], [], []⟩

/-- The event rows of a command, in the order of insertion. -/
def AgentDb.eventsOf (db : AgentDb ρ) (i : CommandId) : List (CommandEventRow ρ) :=
  db.events.filter fun e => e.commandId == i

/-- The receive loop of `agent_socket`, and the exception other than `WebSocketDisconnect` that
has ended it. -/
structure Receiving (ρ : Type) where
  db : AgentDb ρ
  ended : Option CommandExn

inductive SocketTurn (ρ : Type)
  /-- `receive_json` returns a message, which the loop handles and commits. -/
  | message (now : Time) (m : AgentMessage ρ)
  /-- Another task commits. -/
  | elsewhere (op : CommandOp ρ)

def Receiving.handle (s : Receiving ρ) (outcome : Except CommandExn Unit × AgentDb ρ) : Receiving ρ :=
  match s.ended, outcome with
  | some _, _ => s
  | none, (.ok _, db) => ⟨db, none⟩
  | none, (.error e, db) => ⟨db, some e⟩

def Receiving.step (cols : Columns ρ) (g : AgentId) (s : Receiving ρ) : SocketTurn ρ → Receiving ρ
  | .message now m => s.handle (handleMessage cols g now m s.db)
  | .elsewhere op => { s with db := op.step cols s.db }

end Histories

end Healer
