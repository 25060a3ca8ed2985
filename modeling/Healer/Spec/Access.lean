import Healer.Spec.Enrollment
import Healer.Spec.Sockets

/-! The credentials of the agents beside their connections: handshakes of `agent_socket`, `enroll_agent` and
`revoke_agent` (`app/services/server_service.py`), which interleave at their awaits. -/

namespace Healer

open Enrollment (EnrollDb enrollTxn)

/-- A call of `revoke_agent` that awaits `websocket.close`. -/
structure Revocation where
  agent : AgentId
  socket : ℕ

structure Access where
  /-- The committed rows; the status of an agent is kept by `sockets`. -/
  db : EnrollDb
  sockets : Sockets
  /-- The hash of the credential that a handler's connection was authenticated with. -/
  presented : ℕ → Option String
  revocations : Table Revocation

inductive AccessEvent
  /-- An upgrade request with the credential of its Bearer header, if it has one. -/
  | handshake (rawCredential : Option String)
  /-- A handler goes on. -/
  | socket (e : SocketEvent)
  | enroll (rawToken : String) (now : Time) (rawCredential : String)
  /-- `POST /servers/{server_id}/agent/revoke`, up to its first await. -/
  | revoke (server : ServerId)
  /-- `websocket.close` returns, and `connection_manager.unregister` is called. -/
  | closed (m : ℕ)
  /-- `websocket.close` raises, and the request ends with it. -/
  | closeFails (m : ℕ)

namespace Access

def start (db : EnrollDb) : Access := ⟨db, Sockets.start, fun _ => none, Table.empty⟩

/-- `authenticate_agent_credential` -/
def authenticate (s : Access) (hash : String) : Option AgentId :=
  (s.db.agents.first fun a => a.credentialHash == some hash).map Prod.fst

def agentOf (s : Access) (server : ServerId) : Option AgentId :=
  (s.db.agents.first fun a => a.serverId == server).map Prod.fst

/-- The connection is authenticated, and its handler goes on to accept it. -/
def join (s : Access) (g : AgentId) (hash : String) : Access :=
  { s with
    sockets := s.sockets.step (.connect g)
    presented := Function.update s.presented s.sockets.handlers.next (some hash) }

/-- The registered socket is closed, and the request waits for it. -/
def close (s : Access) (g : AgentId) : Access :=
  match s.sockets.connections g with
  | none => s
  | some k =>
    { s with sockets := s.sockets.set k fun h => { h with live := false }, revocations := s.revocations.insert ⟨g, k⟩ }

def revokeAgent (s : Access) (g : AgentId) : Access :=
  close { s with
    db := { s.db with agents := s.db.agents.modify g fun a => { a with credentialHash := none } }
    sockets := { s.sockets with status := Function.update s.sockets.status g .disconnected } } g

def step (env : Enrollment.Env) (s : Access) : AccessEvent → Access
  | .handshake rawCredential =>
    match rawCredential with
    | none => s
    | some raw =>
      match s.authenticate (env.hashToken raw) with
      | none => s
      | some g => s.join g (env.hashToken raw)
  | .socket (.connect _) => s
  | .socket e => { s with sockets := s.sockets.step e }
  | .enroll rawToken now rawCredential =>
    { s with db := (Txn.alone Enrollment.schema s.db [] (enrollTxn env rawToken now rawCredential)).2 }
  | .revoke server =>
    match s.agentOf server with
    | none => s
    | some g => s.revokeAgent g
  | .closed m =>
    match s.revocations.row m with
    | none => s
    | some r =>
      { s with
        sockets := { s.sockets with connections := Function.update s.sockets.connections r.agent none }
        revocations := s.revocations.erase m }
  | .closeFails m => { s with revocations := s.revocations.erase m }

/-- Every handler serves an open socket or is through, and no revocation waits. -/
def Quiescent (s : Access) : Prop := s.sockets.Quiescent ∧ s.revocations.select (fun _ => true) = []

instance (s : Access) : Decidable s.Quiescent := inferInstanceAs (Decidable (_ ∧ _))

/-- `Agent.credential_hash` -/
def credential (s : Access) (g : AgentId) : Option String := (s.db.agents.row g).bind (·.credentialHash)

/-- Connection `k` was authenticated with the credential that agent `g` has now. -/
def Valid (s : Access) (k : ℕ) (g : AgentId) : Prop :=
  ∃ hash, s.presented k = some hash ∧ s.credential g = some hash

/-- The sockets that are sent commands, and those that report events, have the current credentials. -/
structure Current (s : Access) : Prop where
  held : ∀ g k, s.sockets.connections g = some k → s.Valid k g
  reporting : ∀ k h, s.sockets.handlers.row k = some h → h.stage = .serve → h.live = true → s.Valid k h.agent

end Access

end Healer
