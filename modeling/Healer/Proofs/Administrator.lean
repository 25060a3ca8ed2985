import Healer.Sanity.Auth
import Healer.Spec.Users

/-! Whether an active administrator remains. The routes of `/users` protect the caller's own account only, and
the caller's authority is that of a token which may be older than a demotion. -/

namespace Healer.Auth

open Prog Table

/-! ## What a request to `/users` changes -/

/-- The user that the access cookie of a request was issued for. -/
def callerOf (issued : List (String × AccessToken)) (req : Request) : Option UserId :=
  (decodedToken issued req).map (·.sub)

/-- The caller has an active account. -/
def Active (db : AuthDb) (id : UserId) : Prop := ∃ user, db.users.row id = some user ∧ user.isActive = true

/-- What a request changes when it is not refused. -/
inductive Changes (db : AuthDb) (caller : UserId) : UsersCall → AuthDb → Prop
  | create {email password : String} {roles : List String} (user : User) :
      Changes db caller (.create email password roles) (db.addUser user)
  | setRoles {id : UserId} {roles : List String} (hself : id = caller → "Administrator" ∈ roles) :
      Changes db caller (.setRoles id roles) (db.setRoles id (roles.insertionSort (· ≤ ·)))
  | deactivate {id : UserId} (hother : id ≠ caller) : Changes db caller (.deactivate id) (db.setActive id false)
  | activate {id : UserId} : Changes db caller (.activate id) (db.setActive id true)

/-- A request that is served for an active caller, and what it leaves. -/
inductive Served (issued : List (String × AccessToken)) (req : Request) (db : AuthDb) (c : UsersCall)
    (db' : AuthDb) : Prop
  | of (caller : UserId) (hcaller : callerOf issued req = some caller) (hactive : Active db caller)
      (hchanges : Changes db caller c db') : Served issued req db c db'

section Routes

variable (env : UsersEnv) (issued : List (String × AccessToken)) (req : Request) {α : Type}

theorem ends_currentUser (s : Session AuthDb) : Ends (currentUser issued req s)
    (fun current s' => s' = s ∧ callerOf issued req = some current.id ∧ Active s.working current.id)
    (fun _ s' => s' = s) := by
  unfold currentUser callerOf
  split_ifs
  · exact rfl
  rcases decodedToken issued req with _ | token
  · exact rfl
  dsimp only
  rw [Session.get, run_read_bind]
  rcases hrow : s.working.users.row token.sub with _ | user
  · exact rfl
  dsimp only
  split_ifs with hactive
  · exact rfl
  · exact ⟨rfl, rfl, user, hrow, by simpa using hactive⟩

variable {E : Raised → Session AuthDb → Prop} {Q : α → Session AuthDb → Prop} {s : Session AuthDb}

/-- The dependencies that all the routes share. -/
theorem ends_authorised {k : CurrentUser → A α}
    (hE : ∀ e, E e s)
    (hk : ∀ current : CurrentUser, callerOf issued req = some current.id → Active s.working current.id →
      Ends (k current s) Q E) :
    Ends ((do let current ← requirePermission issued req "manage_users"; verifyCsrf req; k current : A α) s) Q E := by
  unfold requirePermission
  rw [bind_bind]
  refine (ends_currentUser issued req s).bind ?_ (fun e s' h => h ▸ hE e)
  rintro current s' ⟨rfl, hcaller, hactive⟩
  unfold verifyCsrf
  split_ifs
  · exact hE _
  · exact hE _
  · exact hE _
  · exact hk current hcaller hactive

theorem ends_validated {ok : Bool} {k : Unit → A α}
    (hE : ∀ e, E e s) (hk : Ends (k () s) Q E) :
    Ends ((validated ok >>= k) s) Q E := by
  unfold validated
  split_ifs
  · exact hk
  · exact hE _

theorem ends_validateRoleNames {roleNames : List String} {k : Unit → A α}
    (hE : ∀ e, E e s) (hk : Ends (k () s) Q E) :
    Ends ((validateRoleNames roleNames >>= k) s) Q E := by
  unfold validateRoleNames
  dsimp only
  split_ifs
  · exact hE _
  · exact hE _
  · exact hk

theorem ends_setRolesOf (id : UserId) (roleNames : List String) (s : Session AuthDb) :
    Ends (setRolesOf id roleNames s)
      (fun _ s' => s' = ⟨s.committed, s.working.setRoles id (roleNames.insertionSort (· ≤ ·))⟩)
      (fun _ s' => s'.committed = s.committed) := by
  unfold setRolesOf
  rw [Session.flush, run_update_bind]
  split_ifs
  · refine congrArg (Session.mk s.committed) ?_
    exact congrArg (fun t => { s.working with users := t }) (modify_modify _ _ _ _)
  · exact rfl

theorem ends_summary (id : UserId) (s : Session AuthDb) :
    Ends (summary id s) (fun _ s' => s' = s) (fun _ s' => s' = s) := by
  unfold summary
  rw [Session.get, run_read_bind]
  rcases s.working.users.row id with _ | user <;> exact rfl

/-- The changes are committed before the response is put together. -/
theorem ends_commit_summary (id : UserId) {db : AuthDb} {P : AuthDb → Prop} (h : P s.working) :
    Ends ((do Session.commit; summary id : A UserSummary) s) (fun _ s' => P s'.working)
      (fun _ s' => s'.committed = db ∨ P s'.committed) := by
  rw [Session.commit, run_update_bind]
  refine (ends_summary id _).mono ?_ ?_
  · rintro _ s' rfl
    exact h
  · rintro _ s' rfl
    exact .inr h

variable (db : AuthDb)

theorem setUserRoles_cases (id : UserId) (roles : List String) :
    (Session.scope (setUserRolesRoute issued req id roles) db).2 = db ∨
      Served issued req db (.setRoles id roles) (Session.scope (setUserRolesRoute issued req id roles) db).2 := by
  refine Session.scope_cases (P := Served issued req db (.setRoles id roles)) ?_
  refine ends_authorised issued req (fun _ => .inl rfl) fun current hcaller hactive => ?_
  refine ends_validated (fun _ => .inl rfl) ?_
  rw [Session.get, run_read_bind]
  rcases (Session.start db).working.users.row id with _ | user
  · exact .inl rfl
  dsimp only
  split_ifs with hself
  · exact .inl rfl
  unfold setUserRoles
  rw [bind_bind]
  refine ends_validateRoleNames (fun _ => .inl rfl) ?_
  rw [bind_bind]
  refine (ends_setRolesOf id roles _).bind ?_ fun _ _ h => .inl h
  rintro _ s' rfl
  refine ends_commit_summary id (.of current.id hcaller hactive (.setRoles fun hid => ?_))
  by_contra hadmin
  exact hself ⟨hid, hadmin⟩

theorem deactivate_cases (id : UserId) :
    (Session.scope (deactivateUser issued req id) db).2 = db ∨
      Served issued req db (.deactivate id) (Session.scope (deactivateUser issued req id) db).2 := by
  refine Session.scope_cases (P := Served issued req db (.deactivate id)) ?_
  refine ends_authorised issued req (fun _ => .inl rfl) fun current hcaller hactive => ?_
  split_ifs with hself
  · exact .inl rfl
  rw [Session.get, run_read_bind]
  rcases (Session.start db).working.users.row id with _ | user
  · exact .inl rfl
  dsimp only
  unfold setUserActive
  rw [bind_bind, Session.flush, run_update_bind]
  exact ends_commit_summary id (.of current.id hcaller hactive (.deactivate hself))

theorem activate_cases (id : UserId) :
    (Session.scope (activateUser issued req id) db).2 = db ∨
      Served issued req db (.activate id) (Session.scope (activateUser issued req id) db).2 := by
  refine Session.scope_cases (P := Served issued req db (.activate id)) ?_
  refine ends_authorised issued req (fun _ => .inl rfl) fun current hcaller hactive => ?_
  rw [Session.get, run_read_bind]
  rcases (Session.start db).working.users.row id with _ | user
  · exact .inl rfl
  dsimp only
  unfold setUserActive
  rw [bind_bind, Session.flush, run_update_bind]
  exact ends_commit_summary id (.of current.id hcaller hactive .activate)

theorem addUser_setRoles (user : User) (roles : List String) :
    (db.addUser user).setRoles db.users.next roles = db.addUser { user with roles := roles } :=
  congrArg (fun t => { db with users := t }) (insert_modify db.users user fun u => { u with roles := roles })

theorem create_cases (email password : String) (roles : List String) :
    (Session.scope (createUserRoute env issued req email password roles) db).2 = db ∨
      Served issued req db (.create email password roles)
        (Session.scope (createUserRoute env issued req email password roles) db).2 := by
  refine Session.scope_cases (P := Served issued req db (.create email password roles)) ?_
  refine ends_authorised issued req (fun _ => .inl rfl) fun current hcaller hactive => ?_
  refine ends_validated (fun _ => .inl rfl) ?_
  unfold createUser
  rw [bind_bind]
  refine ends_validateRoleNames (fun _ => .inl rfl) ?_
  rw [bind_bind, Session.get, run_read_bind]
  rcases (Session.start db).working.findUser (env.normalize email) with _ | found
  swap
  · exact .inl rfl
  dsimp only
  rw [bind_bind, Session.get, run_read_bind, bind_bind, Session.flush, run_update_bind,
    bind_bind]
  refine (ends_setRolesOf db.users.next roles _).bind ?_ fun _ _ h => .inl h
  rintro _ s' rfl
  rw [bind_bind]
  refine ends_commit_summary _ (.of current.id hcaller hactive ?_)
  change Changes db current.id _ ((db.addUser _).setRoles db.users.next _)
  rw [addUser_setRoles]
  exact .create _

/-- A request to `/users` changes nothing, or one account, for a caller who is active. -/
theorem serveUsers_cases (r : Realm) (c : UsersCall) : serveUsers env r req c = r.db ∨
    Served r.issued req r.db c (serveUsers env r req c) := by
  cases c with
  | create email password roles => exact create_cases env r.issued req r.db email password roles
  | setRoles id roles => exact setUserRoles_cases r.issued req r.db id roles
  | deactivate id => exact deactivate_cases r.issued req r.db id
  | activate id => exact activate_cases r.issued req r.db id

end Routes

/-! ## Runs -/

/-- The user holds the role now, whatever a token says. -/
def AuthDb.holdsRole (db : AuthDb) (id : UserId) : Bool :=
  (db.users.row id).any fun u => u.roles.contains "Administrator"

def AuthDb.administrator (db : AuthDb) (id : UserId) : Bool :=
  (db.users.row id).any fun u => u.isActive && u.roles.contains "Administrator"

/-- An active administrator is demoted or deactivated only by a caller who holds the role by then. -/
def Realm.authorised (r : Realm) : RealmEvent → Bool
  | .users req (.setRoles id roles) =>
    roles.contains "Administrator" || !r.db.administrator id || (callerOf r.issued req).all r.db.holdsRole
  | .users req (.deactivate id) => !r.db.administrator id || (callerOf r.issued req).all r.db.holdsRole
  | _ => true

section Runs

variable {db : AuthDb} {env : UsersEnv} {r : Realm}

theorem administrator_iff {id : UserId} : db.administrator id = true ↔
    ∃ user, db.users.row id = some user ∧ user.isActive = true ∧ "Administrator" ∈ user.roles := by
  simp [AuthDb.administrator, Option.any_eq_true]

theorem hasAdministrator_iff : db.HasAdministrator ↔ ∃ id, db.administrator id = true := by
  simp only [administrator_iff, AuthDb.HasAdministrator]

theorem administrator_of_caller {id : UserId} (hactive : Active db id) (hrole : db.holdsRole id = true) :
    db.administrator id = true := by
  obtain ⟨user, hrow, hactive⟩ := hactive
  refine administrator_iff.2 ⟨user, hrow, hactive, ?_⟩
  simpa [AuthDb.holdsRole, hrow] using hrole

/-- A change to one account leaves the administrators that it does not concern. -/
theorem administrator_modify_of_ne {id id' : UserId} {f : User → User} (h : db.administrator id = true)
    (hne : id ≠ id') : AuthDb.administrator { db with users := db.users.modify id' f } id = true := by
  unfold AuthDb.administrator at h ⊢
  rw [modify_row_of_ne _ _ hne]
  exact h

/-- Nor does one that leaves the account active and with its role. -/
theorem administrator_modify {id id' : UserId} {f : User → User} (h : db.administrator id = true)
    (hf : ∀ u : User, u.isActive = true → "Administrator" ∈ u.roles →
      (f u).isActive = true ∧ "Administrator" ∈ (f u).roles) :
    AuthDb.administrator { db with users := db.users.modify id' f } id = true := by
  by_cases hne : id = id'
  · subst hne
    obtain ⟨user, hrow, hactive, hrole⟩ := administrator_iff.1 h
    refine administrator_iff.2 ⟨f user, ?_, hf user hactive hrole⟩
    rw [modify_row_self, hrow, Option.map_some]
  · exact administrator_modify_of_ne h hne

theorem stable_hasAdministrator : Stable AuthDb.HasAdministrator := by
  refine ⟨fun db i now h => h, fun db id hash h => ?_, fun db db' row h hadd => ?_⟩
  · obtain ⟨admin, hadmin⟩ := hasAdministrator_iff.1 h
    exact hasAdministrator_iff.2 ⟨admin, administrator_modify hadmin fun u hactive hrole => ⟨hactive, hrole⟩⟩
  · unfold AuthDb.HasAdministrator at h ⊢
    rw [(addSession_eq hadd).1]
    exact h

theorem Changes.hasAdministrator {req : Request} {c : UsersCall} {db' : AuthDb} {caller : UserId}
    (h : r.db.HasAdministrator) (hcaller : callerOf r.issued req = some caller) (hactive : Active r.db caller)
    (hc : r.authorised (.users req c) = true) (hchanges : Changes r.db caller c db') : db'.HasAdministrator := by
  obtain ⟨admin, hadmin⟩ := hasAdministrator_iff.1 h
  refine hasAdministrator_iff.2 ?_
  cases hchanges with
  | create user =>
    refine ⟨admin, ?_⟩
    obtain ⟨row, hrow, hrest⟩ := administrator_iff.1 hadmin
    exact administrator_iff.2 ⟨row, (insert_row_of_ne _ _ (lt_of_row hrow).ne).trans hrow, hrest⟩
  | activate => exact ⟨admin, administrator_modify hadmin fun u _ hrole => ⟨rfl, hrole⟩⟩
  | @setRoles id roles hself =>
    by_cases hroles : "Administrator" ∈ roles
    · refine ⟨admin, administrator_modify hadmin fun u hactive _ => ⟨hactive, ?_⟩⟩
      exact (List.mem_insertionSort _).2 hroles
    by_cases hne : admin = id
    · subst hne
      simp only [Realm.authorised, hadmin, hcaller, List.contains_eq_mem, hroles, decide_false, Bool.not_true,
        Bool.or_self, Bool.false_or, Option.all_some] at hc
      have hother : caller ≠ admin := fun heq => hroles (hself heq.symm)
      exact ⟨caller, administrator_modify_of_ne (administrator_of_caller hactive hc) hother⟩
    · exact ⟨admin, administrator_modify_of_ne hadmin hne⟩
  | @deactivate id hother =>
    by_cases hne : admin = id
    · subst hne
      simp only [Realm.authorised, hadmin, hcaller, Bool.not_true, Bool.false_or, Option.all_some] at hc
      exact ⟨caller, administrator_modify_of_ne (administrator_of_caller hactive hc) hother.symm⟩
    · exact ⟨admin, administrator_modify_of_ne hadmin hne⟩

theorem step_hasAdministrator (e : RealmEvent) (h : r.db.HasAdministrator) (he : r.authorised e = true) :
    (r.step env e).db.HasAdministrator := by
  cases e with
  | auth c =>
    have hserve := stable_hasAdministrator.serve env.toEnv h c
    cases c <;> exact hserve
  | users req c =>
    change (serveUsers env r req c).HasAdministrator
    rcases serveUsers_cases env req r c with hsame | hserved
    · rw [hsame]
      exact h
    · obtain ⟨caller, hcaller, hactive, hchanges⟩ := hserved
      exact hchanges.hasAdministrator h hcaller hactive he

end Runs

/-- As long as active administrators are demoted and deactivated only by callers who still hold the role, one
remains. -/
theorem administrator_remains (env : UsersEnv) (r : Realm) (h : r.db.HasAdministrator) (es : List RealmEvent)
    (hes : Runs.Along (Realm.step env) (fun r e => r.authorised e = true) r es) :
    (Runs.run (Realm.step env) r es).db.HasAdministrator :=
  Runs.invariant (I := fun r => r.db.HasAdministrator) (fun _ e h he => step_hasAdministrator e h he) es r h hes

/-- Access cookies that are told apart by the user they are for. -/
def usersEnv : UsersEnv where
  hashToken := id
  hashPassword := id
  verifyPassword := fun a b => a == b
  normalize := id
  accessToken := fun id _ _ => if id = 0 then "zero" else "one"
  decodeAccessToken := fun _ _ => none
  refreshTokenTtl := 100000000
  accessTokenTtl := 100000000

/-- Two administrators. -/
def twoAdministrators : Realm where
  db :=
    { users := (Table.empty.insert ⟨"a@h", "pw", true, ["Administrator"]⟩).insert ⟨"b@h", "pw", true, ["Administrator"]⟩
      sessions := Table.empty
      unique := no_sessions_unique }
  issued := []

def withCookie (access fresh : String) : Request := ⟨some access, none, some "c", some "c", 1, 2, fresh, "c"⟩

/-- Both log in, and the first demotes the second. -/
def demoted : List RealmEvent :=
  [.auth (.login (withCookie "" "r") "a@h" "pw"), .auth (.login (withCookie "" "s") "b@h" "pw"),
    .users (withCookie "zero" "") (.setRoles 1 ["Viewer"])]

theorem administrator_remains_demoted :
    (Runs.run (Realm.step usersEnv) twoAdministrators demoted).db.holdsRole 1 = false ∧
      (Runs.run (Realm.step usersEnv) twoAdministrators demoted).db.HasAdministrator := by
  refine ⟨by decide +kernel, administrator_remains usersEnv twoAdministrators ?_ demoted (by decide +kernel)⟩
  exact hasAdministrator_iff.2 ⟨0, by decide +kernel⟩

/-- The one who has been demoted deactivates the other, with the token from before. -/
theorem no_administrator_left :
    twoAdministrators.db.HasAdministrator ∧
      ¬ (Runs.run (Realm.step usersEnv) twoAdministrators
        (demoted ++ [.users (withCookie "one" "") (.deactivate 0)])).db.HasAdministrator := by
  refine ⟨hasAdministrator_iff.2 ⟨0, by decide +kernel⟩, fun h => ?_⟩
  obtain ⟨id, hadmin⟩ := hasAdministrator_iff.1 h
  obtain ⟨user, hrow, -⟩ := administrator_iff.1 hadmin
  have hlt : id < 2 := (lt_of_row hrow).trans_eq (by decide +kernel)
  revert hadmin
  interval_cases id
  · decide +kernel
  · decide +kernel

end Healer.Auth
