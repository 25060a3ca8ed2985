import Healer.Lib.Txn
import Healer.Spec.Rows

/-! `enroll_agent` (`app/services/agent_service.py`) behind `POST /agents/enroll`, and
`revoke_enrollment_token` (`app/services/server_service.py`) behind its route, as transactions. -/

namespace Healer.Enrollment

abbrev TokenId := ℕ
abbrev AgentId := ℕ

structure EnrollmentToken where
  serverId : ServerId
  tokenHash : String
  expiresAt : Time
  usedAt : Option Time
  revokedAt : Option Time

structure Agent where
  serverId : ServerId
  agentVersion : String
  status : AgentStatus
  credentialHash : Option String

structure EnrollDb where
  tokens : Table EnrollmentToken
  agents : Table Agent

inductive Statement
  | useToken (t : TokenId) (now : Time)
  | revokeToken (t : TokenId) (now : Time)
  | insertAgent (row : Agent)
  | rotateCredential (a : AgentId) (hash : String)

inductive Lock
  | token (t : TokenId)
  | agent (a : AgentId)
  | server (s : ServerId)
  | credential (hash : String)
  deriving DecidableEq

/-- Another agent than `but` has the credential; `agents.credential_hash` is unique. -/
def EnrollDb.credentialTaken (db : EnrollDb) (but : Option AgentId) (hash : String) : Bool :=
  (db.agents.select fun a => a.credentialHash == some hash).any fun a => some a != but

def EnrollDb.serverTaken (db : EnrollDb) (s : ServerId) : Bool :=
  (db.agents.select fun a => a.serverId == s).any fun _ => true

def schema : Txn.Schema EnrollDb Statement Lock where
  apply
    | .useToken t now, db => some { db with tokens := db.tokens.modify t fun r => { r with usedAt := some now } }
    | .revokeToken t now, db =>
      some { db with tokens := db.tokens.modify t fun r => { r with revokedAt := some now } }
    | .insertAgent row, db =>
      if db.serverTaken row.serverId || row.credentialHash.any (db.credentialTaken none) then none
      else some { db with agents := db.agents.insert row }
    | .rotateCredential a hash, db =>
      if db.credentialTaken (some a) hash then none
      else some { db with agents := db.agents.modify a fun r => { r with credentialHash := some hash } }
  locks
    | .useToken t _ | .revokeToken t _ => [.token t]
    | .insertAgent row => .server row.serverId :: (row.credentialHash.map .credential).toList
    | .rotateCredential a hash => [.agent a, .credential hash]

inductive Outcome
  | enrolled (t : TokenId)
  | revoked (t : TokenId)
  | unchanged
  deriving DecidableEq

abbrev T := Txn EnrollDb Statement Outcome

inductive Request
  /-- The token, the time, and the credential that is drawn. -/
  | enroll (rawToken : String) (now : Time) (rawCredential : String)
  | revoke (server : ServerId) (t : TokenId) (now : Time)

/-- `hash_token`, and whether a flush writes the token before the agent: their tables do not depend on each
other. -/
structure Env where
  hashToken : String → String
  tokenFirst : Bool

/-- The flush of `enroll_agent`. -/
def flushTxn (env : Env) (token agent : Statement) (next : T) : T :=
  if env.tokenFirst then .exec token (.exec agent next) else .exec agent (.exec token next)

def enrollTxn (env : Env) (rawToken : String) (now : Time) (rawCredential : String) : T :=
  .query fun db =>
    match db.tokens.first fun r => r.tokenHash == env.hashToken rawToken with
    | none => .abort
    | some (t, token) =>
      if token.revokedAt.isSome then .abort
      else if token.usedAt.isSome then .abort
      else if token.expiresAt < now then .abort
      else .query fun db =>
        match db.agents.first fun a => a.serverId == token.serverId with
        | none =>
          flushTxn env (.useToken t now)
            (.insertAgent ⟨token.serverId, "unknown", .disconnected, some (env.hashToken rawCredential)⟩)
            (.done (.enrolled t))
        | some (a, _) =>
          flushTxn env (.useToken t now) (.rotateCredential a (env.hashToken rawCredential)) (.done (.enrolled t))

def revokeTxn (server : ServerId) (t : TokenId) (now : Time) : T :=
  .query fun db =>
    match db.tokens.row t with
    | none => .abort
    | some token =>
      if token.serverId ≠ server then .abort
      else if token.usedAt.isNone && token.revokedAt.isNone then .exec (.revokeToken t now) (.done (.revoked t))
      else .done .unchanged

def Request.txn (env : Env) : Request → T
  | .enroll rawToken now rawCredential => enrollTxn env rawToken now rawCredential
  | .revoke server t now => revokeTxn server t now

abbrev EnrollSystem := Txn.System EnrollDb Statement Outcome Request

def EnrollSystem.step (env : Env) (s : EnrollSystem) (e : Txn.Event Request) : EnrollSystem :=
  schema.step (Request.txn env) s e

end Healer.Enrollment
