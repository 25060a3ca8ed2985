import Healer.Spec.Auth

/-! What the statements of `auth_service` keep, its routes keep. -/

namespace Healer.Auth

open Prog Session

/-- No statement of `auth_service` takes `P` away. -/
structure Stable (P : AuthDb → Prop) : Prop where
  revoke : ∀ db i now, P db → P (db.revoke i now)
  setPassword : ∀ db id hash, P db → P (db.setPassword id hash)
  addSession : ∀ db db' row, P db → db.addSession row = some db' → P db'

theorem no_sessions_unique (i j : SessionId) (a b : RefreshSession)
    (h : (Table.empty : Table RefreshSession).row i = some a) : (Table.empty : Table RefreshSession).row j = some b →
      a.tokenHash = b.tokenHash → i = j := by
  cases h

theorem addSession_eq {db db' : AuthDb} {row : RefreshSession} (h : db.addSession row = some db') :
    db'.users = db.users ∧ db'.sessions = db.sessions.insert row := by
  unfold AuthDb.addSession at h
  split_ifs at h
  cases h
  exact ⟨rfl, rfl⟩

abbrev KeepsBoth (P : AuthDb → Prop) {α : Type} (m : A α) : Prop := Keeps (Session.Both P) m

section Routes

variable {P : AuthDb → Prop} (env : Env) (req : Request)

theorem keeps_onAuthError {α : Type} {m : A α} (hm : KeepsBoth P m) (status : ℕ) (detail : String) :
    KeepsBoth P (onAuthError m status detail) := by
  refine keeps_bind (keeps_attempt hm) fun r => ?_
  rcases r with (e | _ | e) | a
  · exact keeps_raise _
  · exact keeps_raise _
  · exact keeps_raise _
  · exact keeps_pure _

theorem keeps_verifyCsrf : KeepsBoth P (verifyCsrf req) :=
  keeps_ite (fun _ => keeps_raise _) fun _ => keeps_pure _

theorem keeps_authenticate (email password : String) : KeepsBoth P (authenticate env email password) := by
  refine keeps_get_bind fun db _ => ?_
  rcases db.findUser (env.normalize email) with _ | ⟨id, user⟩
  · exact keeps_raise _
  · exact keeps_ite (fun _ => keeps_raise _) fun _ => keeps_pure _

theorem keeps_getCurrentUser : KeepsBoth P (getCurrentUser env req) := by
  refine keeps_ite (fun _ => keeps_raise _) fun _ => ?_
  rcases req.accessCookie.bind (env.decodeAccessToken · req.now) with _ | id
  · exact keeps_raise _
  · refine keeps_get_bind fun db _ => ?_
    rcases db.users.row id with _ | user
    · exact keeps_raise _
    · exact keeps_ite (fun _ => keeps_raise _) fun _ => keeps_pure _

namespace Stable

variable (hP : Stable P)

include hP

theorem keeps_revoke (j : SessionId) (now : Time) : KeepsBoth P (Session.flush (·.revoke j now)) :=
  keeps_flush fun db h => hP.revoke db j now h

theorem keeps_revokeAllForUser (user : UserId) (now : Time) : KeepsBoth P (revokeAllForUser user now) :=
  keeps_get_bind fun _ _ => keeps_each fun j _ => hP.keeps_revoke j now

theorem keeps_createRefreshSession (user : UserId) (now : Time) :
    KeepsBoth P (createRefreshSession env req user now) := by
  refine keeps_get_bind fun db h => ?_
  cases hadd : db.addSession ⟨user, env.hashToken req.freshToken, now + env.refreshTokenTtl, none⟩ with
  | none => exact keeps_raise _
  | some db' =>
    refine keeps_bind (keeps_flush fun _ _ => ?_) fun _ => keeps_pure _
    exact hP.addSession db db' _ h hadd

theorem keeps_rotateRefreshSession (rawToken : String) : KeepsBoth P (rotateRefreshSession env req rawToken) := by
  refine keeps_get_bind fun db _ => ?_
  rcases db.findSession (env.hashToken rawToken) with _ | ⟨j, row⟩
  · exact keeps_raise _
  · refine keeps_ite (fun _ => ?_) fun _ => keeps_ite (fun _ => keeps_raise _) fun _ => ?_
    · exact keeps_bind (hP.keeps_revokeAllForUser _ _) fun _ => keeps_raise _
    · refine keeps_get_bind fun db' _ => ?_
      rcases db'.users.row row.userId with _ | user
      · exact keeps_raise _
      · refine keeps_ite (fun _ => keeps_raise _) fun _ => ?_
        refine keeps_bind (hP.keeps_revoke j _) fun _ => ?_
        exact keeps_bind (hP.keeps_createRefreshSession env req _ _) fun _ => keeps_pure _

theorem keeps_revokeRefreshSession (rawToken : String) : KeepsBoth P (revokeRefreshSession env req rawToken) := by
  refine keeps_get_bind fun db _ => ?_
  rcases db.findSession (env.hashToken rawToken) with _ | ⟨j, row⟩
  · exact keeps_pure _
  · refine keeps_ite (fun _ => ?_) fun _ => keeps_pure _
    exact keeps_bind (hP.keeps_revoke j _) fun _ => keeps_pure _

theorem keeps_changePassword (id : UserId) (user : User) (currentPassword newPassword : String) :
    KeepsBoth P (changePassword env req id user currentPassword newPassword) := by
  refine keeps_ite (fun _ => keeps_raise _) fun _ => ?_
  refine keeps_bind (keeps_flush fun db h => hP.setPassword db id _ h) fun _ => ?_
  exact keeps_bind (hP.keeps_revokeAllForUser id _) fun _ => keeps_commit

theorem keeps_login (email password : String) : KeepsBoth P (login env req email password) := by
  refine keeps_bind (keeps_onAuthError (keeps_authenticate env _ _) _ _) fun _ => ?_
  exact keeps_bind (hP.keeps_createRefreshSession env req _ _) fun _ => keeps_pure _

theorem keeps_refresh : KeepsBoth P (refresh env req) := by
  refine keeps_bind (keeps_verifyCsrf req) fun _ => ?_
  rcases req.rawToken with _ | rawToken
  · exact keeps_raise _
  · exact keeps_bind (keeps_onAuthError (hP.keeps_rotateRefreshSession env req rawToken) _ _)
      fun _ => keeps_pure _

theorem keeps_logout : KeepsBoth P (logout env req) := by
  refine keeps_bind (keeps_verifyCsrf req) fun _ => ?_
  rcases req.rawToken with _ | rawToken
  · exact keeps_pure _
  · exact keeps_bind (hP.keeps_revokeRefreshSession env req rawToken) fun _ => keeps_pure _

theorem keeps_changePasswordRoute (currentPassword newPassword : String) :
    KeepsBoth P (changePasswordRoute env req currentPassword newPassword) := by
  refine keeps_bind (keeps_verifyCsrf req) fun _ => ?_
  refine keeps_bind (keeps_getCurrentUser env req) fun id => ?_
  refine keeps_get_bind fun db _ => ?_
  rcases db.users.row id with _ | user
  · exact keeps_raise _
  · exact keeps_bind (keeps_onAuthError (hP.keeps_changePassword env req _ _ _ _) _ _)
      fun _ => keeps_pure _

/-- Every request keeps it. -/
theorem serve {db : AuthDb} (h : P db) (c : Call) : P (serve env db c) := by
  cases c with
  | login req email password => exact scope_keeps (hP.keeps_login env req email password) h
  | refresh req => exact scope_keeps (hP.keeps_refresh env req) h
  | logout req => exact scope_keeps (hP.keeps_logout env req) h
  | changePassword req currentPassword newPassword =>
    exact scope_keeps (hP.keeps_changePasswordRoute env req currentPassword newPassword) h

end Stable

end Routes

end Healer.Auth
