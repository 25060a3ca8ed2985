import Healer.Lib.Runs
import Healer.Lib.Session
import Healer.Lib.Table
import Healer.Spec.Rows

/-! `app/services/auth_service.py`, the routes of `app/api/routes/auth.py` that write, and the
request-scoped session of `app/db/session.py`. FastAPI raises a handler's exception again inside
`get_db`, so a request that fails is rolled back. -/

namespace Healer.Auth

open Table

abbrev UserId := ℕ
abbrev SessionId := ℕ

structure User where
  email : String
  passwordHash : String
  isActive : Bool
  /-- The names of `user.roles`, sorted and without repetition. -/
  roles : List String

structure RefreshSession where
  userId : UserId
  tokenHash : String
  expiresAt : Time
  revokedAt : Option Time
  deriving DecidableEq

/-- The tables, with `uq_refresh_sessions_token_hash`. -/
structure AuthDb where
  users : Table User
  sessions : Table RefreshSession
  unique : ∀ i j a b, sessions.row i = some a → sessions.row j = some b → a.tokenHash = b.tokenHash → i = j

inductive AuthError
  | invalidCredentials
  | invalidRefreshToken
  | refreshTokenReused
  | refreshTokenExpired
  | invalidUser
  deriving DecidableEq

inductive Raised
  | auth (e : AuthError)
  | http (status : ℕ) (detail : String)
  /-- A flush that violates a constraint. -/
  | integrity

abbrev A := Prog (Session AuthDb) Raised

/-- What the routes take from `bcrypt`, `hashlib`, `jwt`, `str` and the settings. -/
structure Env where
  hashToken : String → String
  hashPassword : String → String
  verifyPassword : String → String → Bool
  /-- `email.strip().lower()`. -/
  normalize : String → String
  accessToken : UserId → List String → Time → String
  /-- The user of a valid access token. -/
  decodeAccessToken : String → Time → Option UserId
  refreshTokenTtl : Time

/-- The cookies and the CSRF header of a request, and what the clock and `secrets` give it: the time is
read at most twice by a route. -/
structure Request where
  accessCookie : Option String
  refreshCookie : Option String
  csrfCookie : Option String
  csrfHeader : Option String
  now : Time
  later : Time
  freshToken : String
  freshCsrf : String

/-- The refresh token of a request; an empty cookie is none. -/
def Request.rawToken (req : Request) : Option String := req.refreshCookie.filter (· != "")

structure UserOut where
  id : UserId
  email : String
  roles : List String

structure SessionCookies where
  access : String
  refresh : String
  csrf : String

/-- A response: the cookies it sets, or `none` where it deletes them. -/
structure Response (α : Type) where
  body : α
  cookies : Option SessionCookies

namespace AuthDb

def findSession (db : AuthDb) (hash : String) : Option (SessionId × RefreshSession) :=
  db.sessions.first fun s => s.tokenHash == hash

def findUser (db : AuthDb) (email : String) : Option (UserId × User) :=
  db.users.first fun u => u.email == email

def revoke (db : AuthDb) (i : SessionId) (now : Time) : AuthDb where
  users := db.users
  sessions := db.sessions.modify i fun s => { s with revokedAt := some now }
  unique j k a b hj hk hhash := by
    have hrow : ∀ j a, (db.sessions.modify i fun s => { s with revokedAt := some now }).row j = some a →
        ∃ a₀, db.sessions.row j = some a₀ ∧ a₀.tokenHash = a.tokenHash := by
      intro j a hj
      rw [modify_row] at hj
      split_ifs at hj
      · obtain ⟨a₀, ha₀, rfl⟩ := Option.map_eq_some_iff.1 hj
        exact ⟨a₀, ha₀, rfl⟩
      · exact ⟨a, hj, rfl⟩
    obtain ⟨a₀, ha₀, ha⟩ := hrow j a hj
    obtain ⟨b₀, hb₀, hb⟩ := hrow k b hk
    exact db.unique j k a₀ b₀ ha₀ hb₀ (by rw [ha, hb, hhash])

def setPassword (db : AuthDb) (id : UserId) (hash : String) : AuthDb :=
  { db with users := db.users.modify id fun u => { u with passwordHash := hash } }

/-- The new row, unless its token hash is taken. -/
def addSession (db : AuthDb) (row : RefreshSession) : Option AuthDb :=
  if h : db.sessions.select (fun s => s.tokenHash == row.tokenHash) = [] then
    some
      { users := db.users
        sessions := db.sessions.insert row
        unique := by
          have hfree : ∀ j b, db.sessions.row j = some b → b.tokenHash ≠ row.tokenHash := by
            intro j b hb heq
            exact absurd heq (by simpa using select_eq_nil.1 h j b hb)
          intro i j a b hi hj hhash
          by_cases hinew : i = db.sessions.next <;> by_cases hjnew : j = db.sessions.next
          · rw [hinew, hjnew]
          · rw [hinew, insert_row_self, Option.some.injEq] at hi
            rw [insert_row_of_ne _ _ hjnew] at hj
            exact absurd (by rw [hi, hhash]) (hfree j b hj)
          · rw [hjnew, insert_row_self, Option.some.injEq] at hj
            rw [insert_row_of_ne _ _ hinew] at hi
            exact absurd (by rw [hj, hhash]) (hfree i a hi)
          · rw [insert_row_of_ne _ _ hinew] at hi
            rw [insert_row_of_ne _ _ hjnew] at hj
            exact db.unique i j a b hi hj hhash }
  else none

end AuthDb

open Session (get flush commit)

/-! ## auth_service -/

section Service

variable (env : Env) (req : Request)

def authenticate (email password : String) : A (UserId × User) := do
  match ← get (·.findUser (env.normalize email)) with
  | none => .raise (.auth .invalidCredentials)
  | some (id, user) =>
    if !user.isActive || !env.verifyPassword password user.passwordHash then
      .raise (.auth .invalidCredentials)
    else pure (id, user)

/-- `_revoke_all_for_user`. -/
def revokeAllForUser (user : UserId) (now : Time) : A Unit := do
  let rows ← get fun db => db.sessions.select fun s => s.userId == user && s.revokedAt.isNone
  Prog.each (fun i => flush (·.revoke i now)) rows

def changePassword (id : UserId) (user : User) (currentPassword newPassword : String) : A Unit := do
  if !env.verifyPassword currentPassword user.passwordHash then
    .raise (.auth .invalidCredentials)
  else do
    flush (·.setPassword id (env.hashPassword newPassword))
    revokeAllForUser id req.now
    commit

def createRefreshSession (id : UserId) (now : Time) : A String := do
  let row : RefreshSession := ⟨id, env.hashToken req.freshToken, now + env.refreshTokenTtl, none⟩
  match ← get (·.addSession row) with
  | none => .raise .integrity
  | some db => do
    flush fun _ => db
    pure req.freshToken

def rotateRefreshSession (rawToken : String) : A (String × UserId × User) := do
  match ← get (·.findSession (env.hashToken rawToken)) with
  | none => .raise (.auth .invalidRefreshToken)
  | some (i, row) =>
    if row.revokedAt.isSome then do
      revokeAllForUser row.userId req.later
      .raise (.auth .refreshTokenReused)
    else if row.expiresAt < req.now then .raise (.auth .refreshTokenExpired)
    else
      match ← get (·.users.row row.userId) with
      | none => .raise (.auth .invalidUser)
      | some user =>
        if !user.isActive then .raise (.auth .invalidUser)
        else do
          flush (·.revoke i req.now)
          let token ← createRefreshSession env req row.userId req.later
          pure (token, row.userId, user)

def revokeRefreshSession (rawToken : String) : A (Option UserId) := do
  match ← get (·.findSession (env.hashToken rawToken)) with
  | none => pure none
  | some (i, row) =>
    if row.revokedAt.isNone then do
      flush (·.revoke i req.now)
      pure (some row.userId)
    else pure (some row.userId)

end Service

/-! ## Routes -/

/-- `except AuthError: raise HTTPException(...)`. -/
def onAuthError (m : A α) (status : ℕ) (detail : String) : A α := do
  match ← Prog.attempt m with
  | .ok a => pure a
  | .error (.auth _) => .raise (.http status detail)
  | .error e => .raise e

def verifyCsrf (req : Request) : A Unit :=
  if !truthy req.csrfCookie || !truthy req.csrfHeader || req.csrfCookie ≠ req.csrfHeader then
    .raise (.http 403 "CSRF validation failed")
  else pure ()

section Routes

variable (env : Env) (req : Request)

/-- `get_current_user`. -/
def getCurrentUser : A UserId := do
  if !truthy req.accessCookie then .raise (.http 401 "not authenticated")
  else
    match req.accessCookie.bind (env.decodeAccessToken · req.now) with
    | none => .raise (.http 401 "invalid or expired session")
    | some id =>
      match ← get (·.users.row id) with
      | none => .raise (.http 401 "invalid or expired session")
      | some user => if !user.isActive then .raise (.http 401 "invalid or expired session") else pure id

/-- `_set_session_cookies`. -/
def sessionCookies (id : UserId) (roles : List String) (refreshToken : String) : SessionCookies :=
  ⟨env.accessToken id roles req.later, refreshToken, req.freshCsrf⟩

def login (email password : String) : A (Response UserOut) := do
  let (id, user) ← onAuthError (authenticate env email password) 401 "invalid email or password"
  let token ← createRefreshSession env req id req.now
  pure ⟨⟨id, user.email, user.roles⟩, some (sessionCookies env req id user.roles token)⟩

def refresh : A (Response UserOut) := do
  verifyCsrf req
  match req.rawToken with
  | none => .raise (.http 401 "no refresh session")
  | some rawToken => do
    let (token, id, user) ←
      onAuthError (rotateRefreshSession env req rawToken) 401 "invalid or expired refresh session"
    pure ⟨⟨id, user.email, user.roles⟩, some (sessionCookies env req id user.roles token)⟩

def logout : A (Response String) := do
  verifyCsrf req
  match req.rawToken with
  | none => pure ⟨"logged out", none⟩
  | some rawToken => do
    let _ ← revokeRefreshSession env req rawToken
    pure ⟨"logged out", none⟩

def changePasswordRoute (currentPassword newPassword : String) : A (Response String) := do
  verifyCsrf req
  let id ← getCurrentUser env req
  match ← get (·.users.row id) with
  | none => .raise (.http 401 "invalid or expired session")
  | some user => do
    onAuthError (changePassword env req id user currentPassword newPassword) 401
      "current password is incorrect"
    pure ⟨"password changed — please log in again", none⟩

end Routes

/-- A request to one of the routes that write. -/
inductive Call
  | login (req : Request) (email password : String)
  | refresh (req : Request)
  | logout (req : Request)
  | changePassword (req : Request) (currentPassword newPassword : String)

/-- The database after a request: the handler runs in the session that `get_db` opens. -/
def serve (env : Env) (db : AuthDb) : Call → AuthDb
  | .login req email password => (Session.scope (login env req email password) db).2
  | .refresh req => (Session.scope (refresh env req) db).2
  | .logout req => (Session.scope (logout env req) db).2
  | .changePassword req currentPassword newPassword =>
    (Session.scope (changePasswordRoute env req currentPassword newPassword) db).2

end Healer.Auth
