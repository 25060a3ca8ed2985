import Healer.Lib.Table
import Healer.Spec.Rows

/-! `agent_socket` and `connection_manager`: the handlers of the agents' connections, as tasks
that interleave at their awaits. A handler acts on the agent row it loaded when it authenticated
the connection, and its cleanup names the agent, not the socket. -/

namespace Healer

abbrev AgentId := ℕ

/-- What a handler does next. -/
inductive HandlerStage
  /-- `await websocket.accept()` and `connection_manager.register`. -/
  | accept
  /-- `agent.status = CONNECTED` and `commit`. -/
  | mark
  /-- `deliver_pending_commands` and the receive loop. -/
  | serve
  /-- `connection_manager.unregister`, the first call of the `finally` block. -/
  | unregister
  /-- `agent_row.status = DISCONNECTED` and `commit`. -/
  | clear
  | done
  deriving DecidableEq, Repr

structure Handler where
  agent : AgentId
  /-- `agent.status` as it was loaded. -/
  loaded : AgentStatus
  stage : HandlerStage
  /-- The socket is open. -/
  live : Bool

structure Sockets where
  /-- `ConnectionManager._connections`; a socket is named by its handler. -/
  connections : AgentId → Option ℕ
  /-- The committed `Agent.status`. -/
  status : AgentId → AgentStatus
  handlers : Table Handler
  /-- The sockets in the order they were registered, newest first. -/
  registered : List ℕ

inductive SocketEvent
  /-- A connection is authenticated: its handler loads the agent row. -/
  | connect (g : AgentId)
  | register (k : ℕ)
  | mark (k : ℕ)
  /-- The network drops the socket, which its handler has yet to notice. -/
  | drop (k : ℕ)
  /-- The receive loop ends, with `WebSocketDisconnect` or another exception that leaves the session usable. -/
  | leave (k : ℕ)
  /-- The handler ends without its cleanup: `deliver_pending_commands` raises, before the `try` block, or a flush or a
  commit fails in the receive loop, and then `agent.id` raises at the head of the `finally` block. -/
  | fail (k : ℕ)
  | unregister (k : ℕ)
  | clear (k : ℕ)
  deriving DecidableEq

namespace Sockets

def start : Sockets := ⟨fun _ => none, fun _ => .disconnected, Table.empty, []⟩

def set (s : Sockets) (k : ℕ) (f : Handler → Handler) : Sockets :=
  { s with handlers := s.handlers.modify k f }

def goto (s : Sockets) (k : ℕ) (stage : HandlerStage) : Sockets :=
  s.set k fun h => { h with stage := stage }

/-- The change of handler `k` if it is at `stage`. -/
def atStage (s : Sockets) (k : ℕ) (stage : HandlerStage) (f : Handler → Sockets) : Sockets :=
  match s.handlers.row k with
  | none => s
  | some h => if h.stage = stage then f h else s

/-- An assignment to a loaded attribute is written only if it changes its value. -/
def assign (s : Sockets) (h : Handler) (status : AgentStatus) : Sockets :=
  if h.loaded = status then s else { s with status := Function.update s.status h.agent status }

def step (s : Sockets) : SocketEvent → Sockets
  | .connect g => { s with handlers := s.handlers.insert ⟨g, s.status g, .accept, true⟩ }
  | .register k => s.atStage k .accept fun h =>
    { s.goto k .mark with
      connections := Function.update s.connections h.agent (some k)
      registered := k :: s.registered }
  | .mark k => s.atStage k .mark fun h => (s.assign h .connected).goto k .serve
  | .drop k => s.set k fun h => { h with live := false }
  | .leave k => s.atStage k .serve fun _ => s.set k fun h => { h with stage := .unregister, live := false }
  | .fail k => s.atStage k .serve fun _ => s.set k fun h => { h with stage := .done, live := false }
  | .unregister k => s.atStage k .unregister fun h =>
    { s.goto k .clear with connections := Function.update s.connections h.agent none }
  | .clear k => s.atStage k .clear fun h =>
    -- the row was loaded again since, so the assignment takes effect
    { s.goto k .done with status := Function.update s.status h.agent .disconnected }

/-- Every handler serves an open socket or is through. -/
def Quiescent (s : Sockets) : Prop :=
  (s.handlers.select fun h => !(h.stage == .done || h.stage == .serve && h.live)) = []

instance (s : Sockets) : Decidable s.Quiescent := inferInstanceAs (Decidable (_ = []))

/-- The socket of agent `g` that was registered last, of those that are open. -/
def newest (s : Sockets) (g : AgentId) : Option ℕ :=
  s.registered.find? fun k => (s.handlers.row k).any fun h => h.agent == g && h.live

def Remembers (s : Sockets) (g : AgentId) : Prop :=
  s.connections g = s.newest g ∧ (s.status g = .connected ↔ (s.newest g).isSome = true)

end Sockets

end Healer
