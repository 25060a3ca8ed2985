import Healer.Lib.Txn
import Healer.Spec.Auth

/-! The requests of `app/api/routes/auth.py` as transactions, statement by statement, so that any number of
them can run at once. `session.flush()` sends the updates of a table before its inserts. -/

namespace Healer.Auth

/-- The tables, and a record of where each new session came from: the session it was exchanged for, or a
login. -/
structure Traced where
  db : AuthDb
  issued : List (Option SessionId × SessionId)

inductive Statement
  | revoke (i : SessionId) (now : Time)
  | insert (row : RefreshSession) (parent : Option SessionId)
  | setPassword (id : UserId) (hash : String)

inductive Lock
  | session (i : SessionId)
  | token (hash : String)
  | user (id : UserId)
  deriving DecidableEq

def schema : Txn.Schema Traced Statement Lock where
  apply
    | .revoke i now, s => some { s with db := s.db.revoke i now }
    | .insert row parent, s =>
      (s.db.addSession row).map fun db => ⟨db, s.issued ++ [(parent, s.db.sessions.next)]⟩
    | .setPassword id hash, s => some { s with db := s.db.setPassword id hash }
  locks
    | .revoke i _ => [.session i]
    | .insert row _ => [.token row.tokenHash]
    | .setPassword id _ => [.user id]

abbrev T := Txn Traced Statement Unit

def csrfOk (req : Request) : Bool :=
  truthy req.csrfCookie && truthy req.csrfHeader && req.csrfCookie == req.csrfHeader

section Requests

variable (env : Env) (req : Request)

/-- `_revoke_all_for_user`, then the rest. -/
def revokeAllTxn (user : UserId) (now : Time) (next : T) : T :=
  .query fun s => (s.db.sessions.select fun r => r.userId == user && r.revokedAt.isNone).foldr
    (fun i t => .exec (.revoke i now) t) next

/-- `create_refresh_session`. -/
def createTxn (id : UserId) (now : Time) (parent : Option SessionId) : T :=
  .exec (.insert ⟨id, env.hashToken req.freshToken, now + env.refreshTokenTtl, none⟩ parent) (.done ())

/-- `rotate_refresh_session`. -/
def rotateTxn (rawToken : String) : T :=
  .query fun s =>
    match s.db.findSession (env.hashToken rawToken) with
    | none => .abort
    | some (i, row) =>
      if row.revokedAt.isSome then revokeAllTxn row.userId req.later .abort
      else if row.expiresAt < req.now then .abort
      else .query fun s =>
        match s.db.users.row row.userId with
        | none => .abort
        | some user =>
          if !user.isActive then .abort
          else .exec (.revoke i req.now) (createTxn env req row.userId req.later (some i))

def refreshTxn : T :=
  if !csrfOk req then .abort
  else
    match req.rawToken with
    | none => .abort
    | some rawToken => rotateTxn env req rawToken

def logoutTxn : T :=
  if !csrfOk req then .abort
  else
    match req.rawToken with
    | none => .done ()
    | some rawToken => .query fun s =>
      match s.db.findSession (env.hashToken rawToken) with
      | none => .done ()
      | some (i, row) => if row.revokedAt.isNone then .exec (.revoke i req.now) (.done ()) else .done ()

def loginTxn (email password : String) : T :=
  .query fun s =>
    match s.db.findUser (env.normalize email) with
    | none => .abort
    | some (id, user) =>
      if !user.isActive || !env.verifyPassword password user.passwordHash then .abort
      else createTxn env req id req.now none

/-- `get_current_user`, then the rest. -/
def currentUserTxn (next : UserId → T) : T :=
  if !truthy req.accessCookie then .abort
  else
    match req.accessCookie.bind (env.decodeAccessToken · req.now) with
    | none => .abort
    | some id => .query fun s =>
      match s.db.users.row id with
      | none => .abort
      | some user => if !user.isActive then .abort else next id

/-- `change_password`; the query of `_revoke_all_for_user` flushes nothing before it. -/
def changeTxn (id : UserId) (user : User) (currentPassword newPassword : String) : T :=
  if !env.verifyPassword currentPassword user.passwordHash then .abort
  else .query fun s => .exec (.setPassword id (env.hashPassword newPassword))
    ((s.db.sessions.select fun r => r.userId == id && r.revokedAt.isNone).foldr
      (fun i t => .exec (.revoke i req.now) t) (.done ()))

def changePasswordTxn (currentPassword newPassword : String) : T :=
  if !csrfOk req then .abort
  else currentUserTxn env req fun id => .query fun s =>
    match s.db.users.row id with
    | none => .abort
    | some user => changeTxn env req id user currentPassword newPassword

end Requests

def Call.txn (env : Env) : Call → T
  | .login req email password => loginTxn env req email password
  | .refresh req => refreshTxn env req
  | .logout req => logoutTxn env req
  | .changePassword req currentPassword newPassword => changePasswordTxn env req currentPassword newPassword

/-- The control plane's database and every request that is being served. -/
abbrev AuthSystem := Txn.System Traced Statement Unit Call

def AuthSystem.step (env : Env) (s : AuthSystem) (e : Txn.Event Call) : AuthSystem :=
  schema.step (Call.txn env) s e

def AuthSystem.start (db : AuthDb) : AuthSystem := Txn.System.start ⟨db, []⟩

end Healer.Auth
