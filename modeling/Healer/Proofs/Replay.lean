import Healer.Sanity.Auth

/-! A replayed refresh token revokes nothing that lasts: the request ends with an exception, and
`get_db` rolls the revocation back. -/

namespace Healer.Auth

open Prog Table

/-- Every session of the user has `revoked_at` set. -/
def AllRevoked (db : AuthDb) (user : UserId) : Prop :=
  ∀ i s, db.sessions.row i = some s → s.userId = user → s.revokedAt.isSome = true

/-- Session `i` has this token hash and is revoked. -/
def Dead (i : SessionId) (hash : String) (db : AuthDb) : Prop :=
  ∃ s, db.sessions.row i = some s ∧ s.tokenHash = hash ∧ s.revokedAt.isSome = true

/-! ## Revoked sessions stay revoked -/

section Stay

variable {i : SessionId} {hash : String} {db : AuthDb}

theorem Dead.revoke (h : Dead i hash db) (j : SessionId) (now : Time) :
    Dead i hash (db.revoke j now) := by
  obtain ⟨s, hrow, hhash, hrevoked⟩ := h
  by_cases hj : i = j
  · subst hj
    refine ⟨{ s with revokedAt := some now }, ?_, hhash, rfl⟩
    rw [AuthDb.revoke, modify_row_self, hrow, Option.map_some]
  · refine ⟨s, ?_, hhash, hrevoked⟩
    rw [AuthDb.revoke, modify_row_of_ne _ _ hj, hrow]

theorem Dead.addSession {db db' : AuthDb} {row : RefreshSession} (h : Dead i hash db)
    (hadd : db.addSession row = some db') : Dead i hash db' := by
  obtain ⟨s, hrow, hhash, hrevoked⟩ := h
  refine ⟨s, ?_, hhash, hrevoked⟩
  rw [(addSession_eq hadd).2, insert_row_of_ne _ _ (lt_of_row hrow).ne, hrow]

variable (env : Env)

theorem Dead.serve (h : Dead i hash db) (c : Call) : Dead i hash (serve env db c) := by
  have hstable : Stable (Dead i hash) :=
    ⟨fun _ j now h => h.revoke j now, fun _ _ _ h => h, fun _ _ _ h hadd => h.addSession hadd⟩
  exact hstable.serve env h c

theorem Dead.run (h : Dead i hash db) (calls : List Call) :
    Dead i hash (Runs.run (Healer.Auth.serve env) db calls) := by
  induction calls generalizing db with
  | nil => exact h
  | cons c calls ih => exact ih (h.serve env c)

end Stay

/-! ## A replay -/

section Replay

variable (env : Env) (req : Request)

theorem ends_revokeAllForUser (user : UserId) (now : Time) (s : Session AuthDb) :
    Ends (revokeAllForUser user now s) (fun _ s' => s'.committed = s.committed) fun _ _ => False := by
  unfold revokeAllForUser
  rw [Session.get, run_read_bind]
  refine ends_each (I := fun _ s' => s'.committed = s.committed) ?_ _ s rfl
  exact fun _ _ _ hs' => hs'

theorem Dead.findSession {db : AuthDb} {i : SessionId} {hash : String} (h : Dead i hash db) :
    ∃ s, db.findSession hash = some (i, s) ∧ s.revokedAt.isSome = true := by
  obtain ⟨s, hrow, hhash, hrevoked⟩ := h
  cases hfind : db.findSession hash with
  | none =>
    have := first_eq_none hfind hrow
    simp [hhash] at this
  | some found =>
    obtain ⟨j, s'⟩ := found
    obtain ⟨hrow', hhash'⟩ := row_of_first hfind
    have hij : i = j := db.unique i j s s' hrow hrow' (by rw [hhash, beq_iff_eq.1 hhash'])
    subst hij
    rw [hrow, Option.some.injEq] at hrow'
    exact ⟨s', rfl, hrow' ▸ hrevoked⟩

/-- The rotation of a revoked token raises, whatever it has flushed by then. -/
theorem rotate_dead {db : AuthDb} {i : SessionId} {rawToken : String}
    (h : Dead i (env.hashToken rawToken) db) :
    Ends (rotateRefreshSession env req rawToken (Session.start db)) (fun _ _ => False)
      fun e s => e = .auth .refreshTokenReused ∧ s.committed = db := by
  obtain ⟨s, hfind, hrevoked⟩ := h.findSession
  have hrun : rotateRefreshSession env req rawToken (Session.start db) =
      (revokeAllForUser s.userId req.later >>= fun _ =>
        (Prog.raise (.auth .refreshTokenReused) : A _)) (Session.start db) := by
    unfold rotateRefreshSession Session.get
    rw [run_read_bind]
    simp only [Session.start, hfind, hrevoked, if_true]
  rw [hrun, ends_bind]
  exact (ends_revokeAllForUser s.userId req.later _).mono (fun _ _ hs' => ⟨rfl, hs'⟩) fun _ _ h => h.elim

/-- A request with a revoked token is answered with an error and changes nothing. -/
theorem refresh_dead {db : AuthDb} {i : SessionId} {rawToken : String} (htoken : req.rawToken = some rawToken)
    (h : Dead i (env.hashToken rawToken) db) :
    (∃ e, (Session.scope (refresh env req) db).1 = .error e) ∧
      (Session.scope (refresh env req) db).2 = db := by
  apply Session.scope_raised
  unfold refresh
  rw [ends_bind, verifyCsrf, ends_ite]
  refine ⟨fun _ => rfl, fun _ => ?_⟩
  simp only [htoken, ends_pure, ends_bind, onAuthError, ends_attempt]
  refine (rotate_dead env req h).mono (fun _ _ h => h.elim) ?_
  rintro e s ⟨rfl, hs⟩
  exact hs

end Replay

/-- Replaying a revoked token leaves every session of the user revoked exactly if they all were before;
then none of their tokens can be rotated again, whatever requests come between. -/
theorem replay_revokes_iff (env : Env) (db : AuthDb) (req : Request) {rawToken : String} {i : SessionId}
    {row : RefreshSession} (htoken : req.rawToken = some rawToken) (hrow : db.sessions.row i = some row)
    (hhash : row.tokenHash = env.hashToken rawToken) (hrevoked : row.revokedAt.isSome = true) :
    (AllRevoked (serve env db (.refresh req)) row.userId ↔ AllRevoked db row.userId) ∧
      (AllRevoked db row.userId → ∀ (calls : List Call) (j : SessionId) (s : RefreshSession)
        (req' : Request) (rawToken' : String), db.sessions.row j = some s → s.userId = row.userId →
        req'.rawToken = some rawToken' → s.tokenHash = env.hashToken rawToken' →
        ∃ e, (Session.scope (refresh env req')
          (Runs.run (serve env) (serve env db (.refresh req)) calls)).1 = .error e) := by
  have hsame : serve env db (.refresh req) = db := (refresh_dead env req htoken ⟨row, hrow, hhash, hrevoked⟩).2
  rw [hsame]
  refine ⟨Iff.rfl, fun hall calls j s req' rawToken' hs huser htoken' hhash' => ?_⟩
  have hdead : Dead j (env.hashToken rawToken') db := ⟨s, hs, hhash', hall j s hs huser⟩
  exact (refresh_dead env req' htoken' (hdead.run env calls)).1

/-- Hashes and passwords as plain texts. -/
def plainEnv : Env where
  hashToken := id
  hashPassword := id
  verifyPassword := fun a b => a == b
  normalize := id
  accessToken := fun _ _ _ => "jwt"
  decodeAccessToken := fun _ _ => none
  refreshTokenTtl := 100

/-- A database with one user and no session. -/
def oneUser : AuthDb where
  users := Table.empty.insert ⟨"u@h", "pw", true, ["Viewer"]⟩
  sessions := Table.empty
  unique := no_sessions_unique

/-- A request with a refresh token, which draws `fresh` for a new one. -/
def withToken (token fresh : String) : Request :=
  ⟨none, some token, some "c", some "c", 1, 2, fresh, "c"⟩

/-- After a login and a rotation: token `a` is revoked, token `b` is current. -/
def rotated : AuthDb :=
  Runs.run (serve plainEnv) oneUser [.login (withToken "" "a") "u@h" "pw", .refresh (withToken "a" "b")]

/-- After a logout with token `b` no session is left. -/
def loggedOut : AuthDb := serve plainEnv rotated (.logout (withToken "b" ""))

theorem replay_revokes_iff_loggedOut :
    AllRevoked (serve plainEnv loggedOut (.refresh (withToken "a" "c"))) 0 ∧
      ∃ e, (Session.scope (refresh plainEnv (withToken "b" "d"))
        (serve plainEnv loggedOut (.refresh (withToken "a" "c")))).1 = .error e := by
  have hall : AllRevoked loggedOut 0 := by
    intro i s hs _
    have hi : i < 2 := lt_of_row hs
    interval_cases i
    · cases hs
      rfl
    · cases hs
      rfl
  have h := replay_revokes_iff plainEnv loggedOut (withToken "a" "c") rfl
    (show loggedOut.sessions.row 0 = some ⟨0, "a", 101, some 1⟩ by decide +kernel) rfl rfl
  refine ⟨h.1.2 hall, h.2 hall [] 1 ⟨0, "b", 102, some 1⟩ (withToken "b" "d") "b" ?_ rfl rfl rfl⟩
  decide +kernel

/-- Token `a` is replayed after its rotation, and token `b` is rotated afterwards. -/
theorem replay_leaves_session :
    rotated.sessions.row 0 = some ⟨0, "a", 101, some 1⟩ ∧
      ¬ AllRevoked (serve plainEnv rotated (.refresh (withToken "a" "c"))) 0 ∧
      ∃ r, (Session.scope (refresh plainEnv (withToken "b" "d"))
        (serve plainEnv rotated (.refresh (withToken "a" "c")))).1 = .ok r := by
  refine ⟨by decide +kernel, fun hall => ?_, _, rfl⟩
  have hrow : (serve plainEnv rotated (.refresh (withToken "a" "c"))).sessions.row 1 =
      some ⟨0, "b", 102, none⟩ := by decide +kernel
  exact absurd (hall 1 _ hrow rfl) (by decide)

end Healer.Auth
