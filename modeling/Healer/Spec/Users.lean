import Healer.Spec.Auth

/-! `app/api/routes/users.py` with `app/services/user_service.py`, `app/domain/permissions.py` and the
dependencies of `app/api/deps.py`. The permissions of a caller are those of the roles in the access token, which
were read when it was issued; that the caller is active is read from the database. -/

namespace Healer.Auth

/-- `ROLE_PERMISSIONS`. -/
def rolePermissions : List (String × List String) :=
  [("Administrator", ["*"]),
    ("Operator", ["view", "deploy", "scale", "restart", "stop", "rollback"]),
    ("Viewer", ["view"])]

def granted (role : String) : List String := (rolePermissions.lookup role).getD []

def hasPermission (roles : List String) (permission : String) : Bool :=
  roles.any fun role => (granted role).contains "*" || (granted role).contains permission

def validRoleNames : List String := rolePermissions.map Prod.fst

/-- The claims of an access token; `exp` is in whole seconds. -/
structure AccessToken where
  sub : UserId
  roles : List String
  exp : Time

structure UsersEnv extends Env where
  accessTokenTtl : Time

/-- `create_access_token`, but for its encoding. -/
def accessClaims (env : UsersEnv) (id : UserId) (roles : List String) (now : Time) : AccessToken :=
  ⟨id, roles, (now + env.accessTokenTtl) / 1000000 * 1000000⟩

structure CurrentUser where
  id : UserId
  email : String
  roles : List String

structure UserSummary where
  id : UserId
  email : String
  roles : List String
  isActive : Bool

namespace AuthDb

def addUser (db : AuthDb) (user : User) : AuthDb := { db with users := db.users.insert user }

def setRoles (db : AuthDb) (id : UserId) (roles : List String) : AuthDb :=
  { db with users := db.users.modify id fun u => { u with roles := roles } }

def setActive (db : AuthDb) (id : UserId) (active : Bool) : AuthDb :=
  { db with users := db.users.modify id fun u => { u with isActive := active } }

end AuthDb

open Session (get flush commit)

/-! ## user_service -/

/-- A `UserServiceError`, as both routes answer it. -/
def conflict (detail : String) : A α := .raise (.http 409 detail)

/-- `_validate_role_names`. -/
def validateRoleNames (roleNames : List String) : A Unit :=
  if roleNames = [] then conflict "a user must have at least one role"
  else
    let unknown := (roleNames.filter fun name => !validRoleNames.contains name).dedup.insertionSort (· ≤ ·)
    let names := ", ".intercalate unknown
    if unknown ≠ [] then conflict s!"unknown role(s): {names}" else pure ()

/-- `_set_roles`: a role that is named twice violates the primary key of `user_roles`. -/
def setRolesOf (id : UserId) (roleNames : List String) : A Unit := do
  flush (·.setRoles id [])
  if roleNames.Nodup then flush (·.setRoles id (roleNames.insertionSort (· ≤ ·))) else .raise .integrity

def createUser (env : UsersEnv) (email password : String) (roleNames : List String) : A UserId := do
  validateRoleNames roleNames
  match ← get (·.findUser (env.normalize email)) with
  | some _ => conflict "a user with this email already exists"
  | none => do
    let id ← get (·.users.next)
    flush (·.addUser ⟨env.normalize email, env.hashPassword password, true, []⟩)
    setRolesOf id roleNames
    commit
    pure id

def setUserRoles (id : UserId) (roleNames : List String) : A Unit := do
  validateRoleNames roleNames
  setRolesOf id roleNames
  commit

def setUserActive (id : UserId) (active : Bool) : A Unit := do
  flush (·.setActive id active)
  commit

/-! ## Routes -/

section Routes

variable (env : UsersEnv) (issued : List (String × AccessToken)) (req : Request)

/-- `decode_access_token`: a cookie that was not issued does not verify. -/
def decodedToken : Option AccessToken :=
  (req.accessCookie.bind fun cookie => List.lookup cookie issued).filter fun token => decide (req.now < token.exp)

/-- `get_current_user`. -/
def currentUser : A CurrentUser := do
  if !truthy req.accessCookie then .raise (.http 401 "not authenticated")
  else
    match decodedToken issued req with
    | none => .raise (.http 401 "invalid or expired session")
    | some token =>
      match ← get (·.users.row token.sub) with
      | none => .raise (.http 401 "invalid or expired session")
      | some user =>
        if !user.isActive then .raise (.http 401 "invalid or expired session")
        else pure ⟨token.sub, user.email, token.roles⟩

def requirePermission (permission : String) : A CurrentUser := do
  let user ← currentUser issued req
  if !hasPermission user.roles permission then .raise (.http 403 "insufficient permissions") else pure user

/-- `_summary`. -/
def summary (id : UserId) : A UserSummary := do
  match ← get (·.users.row id) with
  | none => .raise (.http 404 "user not found")
  | some user => pure ⟨id, user.email, user.roles, user.isActive⟩

/-- The constraints of `CreateUserRequest` and `SetUserRolesRequest`. -/
def validated (ok : Bool) : A Unit := if ok then pure () else .raise (.http 422 "validation error")

def createUserRoute (email password : String) (roles : List String) : A UserSummary := do
  let _ ← requirePermission issued req "manage_users"
  verifyCsrf req
  validated (1 ≤ email.length && email.length ≤ 320 && 8 ≤ password.length && password.length ≤ 200 && !roles.isEmpty)
  let id ← createUser env email password roles
  summary id

def setUserRolesRoute (id : UserId) (roles : List String) : A UserSummary := do
  let current ← requirePermission issued req "manage_users"
  verifyCsrf req
  validated (!roles.isEmpty)
  match ← get (·.users.row id) with
  | none => .raise (.http 404 "user not found")
  | some _ =>
    if id = current.id ∧ "Administrator" ∉ roles then
      .raise (.http 409 "you cannot remove your own Administrator role")
    else do
      setUserRoles id roles
      summary id

def deactivateUser (id : UserId) : A UserSummary := do
  let current ← requirePermission issued req "manage_users"
  verifyCsrf req
  if id = current.id then .raise (.http 409 "you cannot deactivate your own account")
  else
    match ← get (·.users.row id) with
    | none => .raise (.http 404 "user not found")
    | some _ => do
      setUserActive id false
      summary id

def activateUser (id : UserId) : A UserSummary := do
  let _ ← requirePermission issued req "manage_users"
  verifyCsrf req
  match ← get (·.users.row id) with
  | none => .raise (.http 404 "user not found")
  | some _ => do
    setUserActive id true
    summary id

end Routes

/-! ## The service -/

/-- The database and the access cookies that have been issued. -/
structure Realm where
  db : AuthDb
  issued : List (String × AccessToken)

inductive UsersCall
  | create (email password : String) (roles : List String)
  | setRoles (id : UserId) (roles : List String)
  | deactivate (id : UserId)
  | activate (id : UserId)

inductive RealmEvent
  | auth (c : Call)
  | users (req : Request) (c : UsersCall)

/-- The access cookie of a response to a login or a refresh. -/
def issues (env : UsersEnv) (req : Request) : Except Raised (Response UserOut) → List (String × AccessToken)
  | .error _ => []
  | .ok r => r.cookies.toList.map fun c => (c.access, accessClaims env r.body.id r.body.roles req.later)

def serveUsers (env : UsersEnv) (r : Realm) (req : Request) : UsersCall → AuthDb
  | .create email password roles => (Session.scope (createUserRoute env r.issued req email password roles) r.db).2
  | .setRoles id roles => (Session.scope (setUserRolesRoute r.issued req id roles) r.db).2
  | .deactivate id => (Session.scope (deactivateUser r.issued req id) r.db).2
  | .activate id => (Session.scope (activateUser r.issued req id) r.db).2

def Realm.step (env : UsersEnv) (r : Realm) : RealmEvent → Realm
  | .auth (.login req email password) =>
    ⟨serve env.toEnv r.db (.login req email password),
      r.issued ++ issues env req (Session.scope (login env.toEnv req email password) r.db).1⟩
  | .auth (.refresh req) =>
    ⟨serve env.toEnv r.db (.refresh req), r.issued ++ issues env req (Session.scope (refresh env.toEnv req) r.db).1⟩
  | .auth c => { r with db := serve env.toEnv r.db c }
  | .users req c => { r with db := serveUsers env r req c }

/-- An active user holds the Administrator role. -/
def AuthDb.HasAdministrator (db : AuthDb) : Prop :=
  ∃ id user, db.users.row id = some user ∧ user.isActive = true ∧ "Administrator" ∈ user.roles

end Healer.Auth
