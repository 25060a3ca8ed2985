import Healer.Proofs.Replay
import Healer.Spec.AuthTxn
import Mathlib.Logic.Relation

/-! How often a refresh token is exchanged when any number of requests are served at once. -/

namespace Healer.Auth

open Prog

open Txn (Commits Apart Discipline)

namespace Traced

variable (s : Traced)

/-- Session `j` was issued in exchange for the token of session `i`. -/
def Successor (i j : SessionId) : Prop := (some i, j) ∈ s.issued

def Descends : SessionId → SessionId → Prop := Relation.ReflTransGen s.Successor

def Live (now : Time) (i : SessionId) : Prop :=
  ∃ row, s.db.sessions.row i = some row ∧ row.revokedAt = none ∧ now ≤ row.expiresAt

def Revoked (i : SessionId) : Prop := ∃ row, s.db.sessions.row i = some row ∧ row.revokedAt.isSome = true

def HasHash (i : SessionId) (hash : String) : Prop :=
  ∃ row, s.db.sessions.row i = some row ∧ row.tokenHash = hash

end Traced

/-- Each session was exchanged at most once, and what descends from one session (a login's, say) is alive at
most once. -/
structure ExchangedOnce (s : Traced) : Prop where
  once : ∀ i j j', s.Successor i j → s.Successor i j' → j = j'
  alive : ∀ l a b now, s.Descends l a → s.Descends l b → s.Live now a → s.Live now b → a = b

/-- The token that a request asks to exchange, as it is stored. -/
def Call.exchanges (env : Env) : Call → Option String
  | .refresh req => req.rawToken.map env.hashToken
  | _ => none

/-- The two requests do not ask to exchange the same token. -/
def Call.Apart (env : Env) (r r' : Call) : Prop :=
  ∀ hash, r.exchanges env = some hash → r'.exchanges env ≠ some hash

/-! ## What is kept -/

/-- A session that was exchanged is revoked, and was exchanged once. -/
structure Traced.Booked (s : Traced) : Prop where
  once : ∀ i j j', s.Successor i j → s.Successor i j' → j = j'
  dead : ∀ i j, s.Successor i j → s.Revoked i

theorem Traced.Booked.exchangedOnce {s : Traced} (h : s.Booked) : ExchangedOnce s := by
  have hlast : ∀ {a b now}, s.Live now a → s.Descends a b → a = b := by
    intro a b now hlive hdesc
    rcases hdesc.cases_head with heq | ⟨c, hsucc, -⟩
    · exact heq
    · obtain ⟨row, hrow, hnone, -⟩ := hlive
      obtain ⟨row', hrow', hsome⟩ := h.dead a c hsucc
      rw [hrow, Option.some.injEq] at hrow'
      rw [← hrow', hnone] at hsome
      cases hsome
  refine ⟨h.once, fun l a b now ha hb hlive hlive' => ?_⟩
  -- both lie on the one chain that starts at `l`
  rcases Relation.ReflTransGen.total_of_right_unique (fun i j j' => h.once i j j') ha hb with hab | hba
  · exact hlast hlive hab
  · exact (hlast hlive' hba).symm

/-- One statement at the commit. -/
def Statement.effect (op : Statement) (s : Traced) : Traced := (schema.apply op s).getD s

theorem view_cons (op : Statement) (ops : List Statement) (s : Traced) :
    schema.view (op :: ops) s = schema.view ops (op.effect s) := rfl

/-- The writes that exchange nothing. -/
def Plain (ops : List Statement) : Prop := ∀ row i, Statement.insert row (some i) ∉ ops

variable {hash : String}

section Effects

variable {s : Traced} (op : Statement) {i j : SessionId} {row : RefreshSession}

/-- No statement takes a row away or gives it another token, and none makes it valid again. -/
theorem effect_row (h : s.db.sessions.row i = some row) :
    ∃ row', (op.effect s).db.sessions.row i = some row' ∧ row'.tokenHash = row.tokenHash ∧
      (row.revokedAt.isSome = true → row'.revokedAt.isSome = true) := by
  cases op with
  | revoke k now =>
    change ∃ row', (s.db.sessions.modify k fun r => { r with revokedAt := some now }).row i = some row' ∧ _
    rw [Table.modify_row, h]
    split_ifs
    · exact ⟨_, rfl, rfl, fun _ => rfl⟩
    · exact ⟨row, rfl, rfl, id⟩
  | insert new parent =>
    unfold Statement.effect
    rcases hadd : s.db.addSession new with _ | db'
    · simp only [schema, hadd]
      exact ⟨row, h, rfl, id⟩
    · simp only [schema, hadd, Option.map_some, Option.getD_some]
      rw [(addSession_eq hadd).2, Table.insert_row_of_ne _ _ (Table.lt_of_row h).ne]
      exact ⟨row, h, rfl, id⟩
  | setPassword u hash => exact ⟨row, h, rfl, id⟩

theorem hasHash_effect (h : s.HasHash i hash) : (op.effect s).HasHash i hash := by
  obtain ⟨row, hrow, hhash⟩ := h
  obtain ⟨row', hrow', hhash', -⟩ := effect_row op hrow
  exact ⟨row', hrow', hhash'.trans hhash⟩

theorem revoked_effect (h : s.Revoked i) : (op.effect s).Revoked i := by
  obtain ⟨row, hrow, hsome⟩ := h
  obtain ⟨row', hrow', -, hkeep⟩ := effect_row op hrow
  exact ⟨row', hrow', hkeep hsome⟩

/-- Only an insert adds to the record, and only what it says. -/
theorem issued_effect : (op.effect s).issued = s.issued ∨
    ∃ row parent, op = .insert row parent ∧ (op.effect s).issued = s.issued ++ [(parent, s.db.sessions.next)] := by
  cases op with
  | revoke k now => exact Or.inl rfl
  | setPassword id hash => exact Or.inl rfl
  | insert new parent =>
    unfold Statement.effect
    rcases hadd : s.db.addSession new with _ | db'
    · left
      simp only [schema, hadd]
      rfl
    · right
      refine ⟨new, parent, rfl, ?_⟩
      simp only [schema, hadd]
      rfl

theorem successor_effect (hplain : ∀ row i, op ≠ .insert row (some i)) :
    (op.effect s).Successor i j ↔ s.Successor i j := by
  unfold Traced.Successor
  rcases issued_effect (s := s) op with h | ⟨row, parent, rfl, h⟩
  · rw [h]
  · cases parent with
    | none => simp [h]
    | some k => exact absurd rfl (hplain row k)

end Effects

variable {row : RefreshSession}

section Views

variable {s : Traced} {ops : List Statement} {i j : SessionId}

theorem hasHash_view (h : s.HasHash i hash) : (schema.view ops s).HasHash i hash := by
  induction ops generalizing s with
  | nil => exact h
  | cons op ops ih => exact ih (hasHash_effect op h)

theorem revoked_view (h : s.Revoked i) : (schema.view ops s).Revoked i := by
  induction ops generalizing s with
  | nil => exact h
  | cons op ops ih => exact ih (revoked_effect op h)

theorem successor_view (hplain : Plain ops) : (schema.view ops s).Successor i j ↔ s.Successor i j := by
  induction ops generalizing s with
  | nil => exact Iff.rfl
  | cons op ops ih =>
    rw [view_cons, ih fun row k hmem => hplain row k (List.mem_cons_of_mem op hmem)]
    exact successor_effect op fun row k hop => hplain row k (hop ▸ List.mem_cons_self)

theorem Traced.Booked.plain (h : s.Booked) (hplain : Plain ops) : (schema.view ops s).Booked := by
  refine ⟨fun i j j' hj hj' => ?_, fun i j hj => ?_⟩
  · exact h.once i j j' ((successor_view hplain).1 hj) ((successor_view hplain).1 hj')
  · exact revoked_view (h.dead i j ((successor_view hplain).1 hj))

/-- The two writes that exchange session `i`. -/
theorem successor_exchange {now : Time} {a : SessionId} :
    (schema.view [.revoke i now, .insert row (some i)] s).Successor a j →
      s.Successor a j ∨ a = i ∧ j = s.db.sessions.next := by
  intro h
  rw [view_cons, view_cons] at h
  unfold Traced.Successor at h ⊢
  have hfirst : ((Statement.revoke i now).effect s).issued = s.issued := rfl
  rcases issued_effect (s := (Statement.revoke i now).effect s) (.insert row (some i)) with
    hsame | ⟨row', parent, hop, hnew⟩
  · left
    rw [← hfirst, ← hsame]
    exact h
  · cases hop
    change (some a, j) ∈ ((Statement.insert row (some i)).effect ((Statement.revoke i now).effect s)).issued at h
    rw [hnew, List.mem_append, List.mem_singleton, hfirst] at h
    refine h.imp id fun heq => ?_
    obtain ⟨ha, hj⟩ := Prod.mk.inj heq
    exact ⟨Option.some.inj ha, hj⟩

theorem revoked_exchange {now : Time} (h : s.HasHash i hash) :
    (schema.view [.revoke i now, .insert row (some i)] s).Revoked i := by
  obtain ⟨old, hold, -⟩ := h
  refine revoked_effect (s := (Statement.revoke i now).effect s) (.insert row (some i)) ?_
  refine ⟨{ old with revokedAt := some now }, ?_, rfl⟩
  change (s.db.sessions.modify i fun r => { r with revokedAt := some now }).row i = _
  rw [Table.modify_row_self, hold, Option.map_some]

theorem Traced.Booked.exchange {now : Time} (h : s.Booked)
    (hhash : s.HasHash i hash) (hnone : ∀ j, ¬ s.Successor i j) :
    (schema.view [.revoke i now, .insert row (some i)] s).Booked := by
  refine ⟨fun a j j' hj hj' => ?_, fun a j hj => ?_⟩
  · rcases successor_exchange hj with hj | ⟨rfl, rfl⟩ <;> rcases successor_exchange hj' with hj' | ⟨ha, rfl⟩
    · exact h.once a j j' hj hj'
    · exact absurd (ha ▸ hj) (hnone j)
    · exact absurd hj' (hnone j')
    · rfl
  · rcases successor_exchange hj with hj | ⟨rfl, -⟩
    · exact revoked_view (h.dead a j hj)
    · exact revoked_exchange hhash

end Views

/-! ## What a request relies on -/

/-- The only way for a request to commit is to exchange session `i`. -/
def Exchanges (i : SessionId) (now : Time) (row : RefreshSession) (ops : List Statement) : Prop :=
  ops = [.revoke i now, .insert row (some i)]

/-- A request has not read yet, or exchanges nothing, or has found the session of its token not exchanged. -/
inductive Relies (env : Env) (s : Traced) (r : Call) (ops : List Statement) (t : T) : Prop
  | unread (req : Request) (rawToken : String) (hr : r = .refresh req) (htoken : req.rawToken = some rawToken)
      (hops : ops = []) (ht : t = rotateTxn env req rawToken) : Relies env s r ops t
  | plain (h : Commits (fun ops _ => Plain ops) ops t) : Relies env s r ops t
  | exchanging (i : SessionId) (hash : String) (now : Time) (row : RefreshSession)
      (hr : r.exchanges env = some hash) (hhash : s.HasHash i hash) (hnone : ∀ j, ¬ s.Successor i j)
      (h : Commits (fun ops _ => Exchanges i now row ops) ops t) : Relies env s r ops t

section Requests

variable (env : Env) {ops : List Statement}

theorem plain_nil : Plain [] := by
  intro row i h
  cases h

theorem Plain.snoc (h : Plain ops) {op : Statement} (hop : ∀ row i, op ≠ .insert row (some i)) :
    Plain (ops ++ [op]) := by
  intro row i hmem
  rw [List.mem_append, List.mem_singleton] at hmem
  rcases hmem with hmem | heq
  · exact h row i hmem
  · exact hop row i heq.symm

theorem commits_revokes (is : List SessionId) (now : Time) {next : T}
    (hnext : ∀ ops, Plain ops → Commits (fun ops _ => Plain ops) ops next) (h : Plain ops) :
    Commits (fun ops _ => Plain ops) ops (is.foldr (fun i t => .exec (.revoke i now) t) next) := by
  induction is generalizing ops with
  | nil => exact hnext ops h
  | cons i is ih => exact ih (h.snoc (by simp))

theorem commits_login (req : Request) (email password : String) :
    Commits (fun ops _ => Plain ops) [] (loginTxn env req email password) := by
  intro s
  dsimp only
  split
  · trivial
  · split_ifs
    · trivial
    · exact plain_nil.snoc (by simp)

theorem commits_logout (req : Request) : Commits (fun ops _ => Plain ops) [] (logoutTxn env req) := by
  unfold logoutTxn
  split_ifs
  · trivial
  split
  · exact plain_nil
  intro s
  dsimp only
  split
  · exact plain_nil
  · split_ifs
    · exact plain_nil.snoc (by simp)
    · exact plain_nil

theorem commits_changePassword (req : Request) (currentPassword newPassword : String) :
    Commits (fun ops _ => Plain ops) [] (changePasswordTxn env req currentPassword newPassword) := by
  unfold changePasswordTxn currentUserTxn
  split_ifs
  · trivial
  · trivial
  split
  · trivial
  intro s
  dsimp only
  split
  · trivial
  split_ifs
  · trivial
  intro s
  dsimp only
  split
  · trivial
  unfold changeTxn
  split_ifs
  · trivial
  intro s
  exact commits_revokes _ _ (fun ops h => h) (plain_nil.snoc (by simp))

theorem relies_start (s : Traced) (r : Call) : Relies env s r [] (r.txn env) := by
  cases r with
  | login req email password => exact .plain (commits_login env req email password)
  | logout req => exact .plain (commits_logout env req)
  | changePassword req currentPassword newPassword =>
    exact .plain (commits_changePassword env req currentPassword newPassword)
  | refresh req =>
    change Relies env s (.refresh req) [] (refreshTxn env req)
    unfold refreshTxn
    split_ifs
    · exact .plain trivial
    rcases htoken : req.rawToken with _ | rawToken
    · exact .plain trivial
    · exact .unread req rawToken rfl htoken rfl rfl

/-- The first read of a refresh: the row it goes on with is not revoked, so it was not exchanged. -/
theorem relies_rotate {s : Traced} (hs : s.Booked) {req : Request} {rawToken : String}
    (htoken : req.rawToken = some rawToken) {next : Traced → T} (hnext : .query next = rotateTxn env req rawToken) :
    Relies env s (.refresh req) [] (next s) := by
  unfold rotateTxn at hnext
  cases hnext
  dsimp only
  rcases hfind : s.db.findSession (env.hashToken rawToken) with _ | ⟨i, row⟩
  · exact .plain trivial
  obtain ⟨hrow, hhash⟩ := Table.row_of_first hfind
  dsimp only
  split_ifs with hrevoked hexpired
  · exact .plain fun s => commits_revokes _ _ (fun _ _ => trivial) plain_nil
  · exact .plain trivial
  · refine .exchanging i (env.hashToken rawToken) req.now
      ⟨row.userId, env.hashToken req.freshToken, req.later + env.refreshTokenTtl, none⟩ ?_ ⟨row, hrow, ?_⟩ ?_ ?_
    · simp [Call.exchanges, htoken]
    · simpa using hhash
    · intro j hj
      obtain ⟨row', hrow', hsome⟩ := hs.dead i j hj
      rw [hrow, Option.some.injEq] at hrow'
      exact hrevoked (hrow' ▸ hsome)
    · intro s'
      dsimp only
      split
      · trivial
      split_ifs
      · trivial
      · rfl

end Requests

theorem discipline (env : Env) : Discipline schema (Call.txn env) (Call.Apart env) (fun s _ => s.Booked)
    (fun s _ => Relies env s) where
  symm h hash hr' hr := h hash hr hr'
  start _ := relies_start env _ _
  query hs h := by
    cases h with
    | unread req rawToken hr htoken hops ht =>
      subst hr hops
      exact relies_rotate env hs htoken ht
    | plain h => exact .plain (h _)
    | exchanging i hash now row hr hhash hnone h => exact .exchanging i hash now row hr hhash hnone (h _)
  exec h := by
    cases h with
    | unread req rawToken hr htoken hops ht => cases ht
    | plain h => exact .plain h
    | exchanging i hash now row hr hhash hnone h => exact .exchanging i hash now row hr hhash hnone h
  commit hs h := by
    cases h with
    | unread req rawToken hr htoken hops ht => cases ht
    | plain h => exact hs.plain h
    | exchanging i hash now row hr hhash hnone h =>
      obtain rfl : _ = _ := h
      exact hs.exchange hhash hnone
  others hs h hapart h' := by
    cases h' with
    | unread req rawToken hr htoken hops ht => exact .unread req rawToken hr htoken hops ht
    | plain h' => exact .plain h'
    | exchanging i hash now row hr hhash hnone h' =>
      refine .exchanging i hash now row hr (hasHash_view hhash) (fun j hj => ?_) h'
      cases h with
      | unread req rawToken hr htoken hops ht => cases ht
      | plain h => exact hnone j ((successor_view h).1 hj)
      | exchanging i₀ hash₀ now₀ row₀ hr₀ hhash₀ hnone₀ h =>
        obtain rfl : _ = _ := h
        rcases successor_exchange hj with hj | ⟨rfl, -⟩
        · exact hnone j hj
        · -- both would exchange the token of the same session
          obtain ⟨a, ha, hahash⟩ := hhash
          obtain ⟨b, hb, hbhash⟩ := hhash₀
          rw [ha, Option.some.injEq] at hb
          refine hapart hash₀ hr₀ ?_
          rw [hr, ← hahash, ← hbhash, hb]

/-! ## One request at a time -/

/-- The database that `get_db` leaves. -/
def settled {α : Type} : Except Raised α × Session AuthDb → AuthDb
  | (.ok _, s) => s.working
  | (.error _, s) => s.committed

/-- The transaction, alone, leaves the same database as the handler. -/
def Mirrors {α : Type} (m : A α) (t : T) : Prop :=
  ∀ s ops, settled (m ⟨s.db, (schema.view ops s).db⟩) = (Txn.alone schema s ops t).2.db

section Mirrors

variable (env : Env) (req : Request) {α β : Type} {m : A α} {t t' : T}

theorem mirrors_raise (e : Raised) : Mirrors (Prog.raise e : A α) .abort := fun _ _ => rfl

theorem mirrors_pure (a : α) : Mirrors (pure a) (.done ()) := fun _ _ => rfl

theorem mirrors_get {f : AuthDb → β} {g : β → A α} {next : Traced → T} (h : ∀ v, Mirrors (g (f v.db)) (next v)) :
    Mirrors (Session.get f >>= g) (.query next) := fun s ops => h _ s ops

theorem view_snoc (op : Statement) (ops : List Statement) (s : Traced) :
    schema.view (ops ++ [op]) s = op.effect (schema.view ops s) := by
  simp [Txn.Schema.view, Statement.effect]

theorem mirrors_revoke (i : SessionId) (now : Time) {g : Unit → A α} (h : Mirrors (g ()) t) :
    Mirrors (Session.flush (·.revoke i now) >>= g) (.exec (.revoke i now) t) := by
  intro s ops
  have hnext := h s (ops ++ [.revoke i now])
  rw [view_snoc] at hnext
  exact hnext

theorem mirrors_create (id : UserId) (now : Time) (parent : Option SessionId) :
    Mirrors (createRefreshSession env req id now) (createTxn env req id now parent) := by
  intro s ops
  have happly : ∀ row v, schema.apply (.insert row parent) v =
      (v.db.addSession row).map fun db => ⟨db, v.issued ++ [(parent, v.db.sessions.next)]⟩ := fun _ _ => rfl
  simp only [createRefreshSession, createTxn, Txn.alone, Session.get, run_read_bind, happly]
  rcases hadd : (schema.view ops s).db.addSession
      ⟨id, env.hashToken req.freshToken, now + env.refreshTokenTtl, none⟩ with _ | db
  · rfl
  · simp only [Option.map_some, view_snoc, Statement.effect, happly, hadd]
    rfl

theorem settled_bind_pure (m : A α) (g : α → β) (s : Session AuthDb) :
    settled ((m >>= fun a => pure (g a)) s) = settled (m s) := by
  rcases h : m s with ⟨e | a, s'⟩
  · rw [run_bind_error h]
    rfl
  · rw [run_bind_ok h]
    rfl

theorem settled_onAuthError (m : A α) (status : ℕ) (detail : String) (s : Session AuthDb) :
    settled (onAuthError m status detail s) = settled (m s) := by
  unfold onAuthError
  rw [run_attempt_bind]
  rcases m s with ⟨e | a, s'⟩
  · cases e <;> rfl
  · rfl

theorem Mirrors.answered (h : Mirrors m t) (status : ℕ) (detail : String) (g : α → β) :
    Mirrors (onAuthError m status detail >>= fun a => pure (g a)) t := by
  intro s ops
  rw [settled_bind_pure, settled_onAuthError]
  exact h s ops

theorem mirrors_ite {p : Prop} [Decidable p] {m' : A α} (h : p → Mirrors m t) (h' : ¬ p → Mirrors m' t') :
    Mirrors (if p then m else m') (if p then t else t') := by
  split_ifs with hp
  · exact h hp
  · exact h' hp

theorem alone_revokes (s : Traced) (now : Time) (next : T) (is : List SessionId) (ops : List Statement) :
    Txn.alone schema s ops (is.foldr (fun i t => .exec (.revoke i now) t) next) =
      Txn.alone schema s (ops ++ is.map (.revoke · now)) next := by
  induction is generalizing ops with
  | nil => simp
  | cons i is ih =>
    rw [List.foldr_cons, List.map_cons, List.append_cons, ← ih]
    rfl

/-- The revocations of a replay are rolled back. -/
theorem mirrors_reused (user : UserId) (now : Time) (e : Raised) :
    Mirrors (do revokeAllForUser user now; (Prog.raise e : A α)) (revokeAllTxn user now .abort) := by
  intro s ops
  have hraise : ∀ (is : List SessionId) (s : Session AuthDb),
      settled (((Prog.each (fun i => Session.flush (·.revoke i now)) is : A Unit) >>= fun _ =>
        (Prog.raise e : A α)) s) = s.committed := by
    intro is
    induction is with
    | nil => intro s; rfl
    | cons i is ih => intro s; exact ih _
  rw [revokeAllTxn, Txn.alone, alone_revokes]
  exact hraise _ _

theorem mirrors_rotate (rawToken : String) :
    Mirrors (rotateRefreshSession env req rawToken) (rotateTxn env req rawToken) := by
  refine mirrors_get fun v => ?_
  rcases v.db.findSession (env.hashToken rawToken) with _ | ⟨i, row⟩
  · exact mirrors_raise _
  refine mirrors_ite (fun _ => mirrors_reused _ _ _) fun _ => mirrors_ite (fun _ => mirrors_raise _) fun _ => ?_
  refine mirrors_get fun v => ?_
  rcases v.db.users.row row.userId with _ | user
  · exact mirrors_raise _
  refine mirrors_ite (fun _ => mirrors_raise _) fun _ => mirrors_revoke i req.now ?_
  intro s ops
  rw [settled_bind_pure]
  exact mirrors_create env req row.userId req.later (some i) s ops

theorem csrfOk_eq : csrfOk req =
    !(!truthy req.csrfCookie || !truthy req.csrfHeader || req.csrfCookie ≠ req.csrfHeader) := by
  unfold csrfOk
  cases truthy req.csrfCookie <;> cases truthy req.csrfHeader <;> simp [beq_eq_decide]

theorem mirrors_csrf (h : Mirrors m t) :
    Mirrors (do verifyCsrf req; m) (if !csrfOk req then .abort else t) := by
  rw [csrfOk_eq, Bool.not_not]
  unfold verifyCsrf
  split_ifs
  · exact mirrors_raise _
  · exact h

theorem mirrors_refresh : Mirrors (refresh env req) (refreshTxn env req) := by
  refine mirrors_csrf req ?_
  rcases req.rawToken with _ | rawToken
  · exact mirrors_raise _
  · exact (mirrors_rotate env req rawToken).answered _ _ _

theorem mirrors_logout : Mirrors (logout env req) (logoutTxn env req) := by
  refine mirrors_csrf req ?_
  rcases req.rawToken with _ | rawToken
  · exact mirrors_pure _
  intro s ops
  rw [settled_bind_pure]
  refine mirrors_get (fun v => ?_) s ops
  rcases v.db.findSession (env.hashToken rawToken) with _ | ⟨i, row⟩
  · exact mirrors_pure _
  · exact mirrors_ite (fun _ => mirrors_revoke i req.now (mirrors_pure _)) fun _ => mirrors_pure _

theorem onAuthError_ok {a : α} {s s' : Session AuthDb} (h : m s = (.ok a, s')) (status : ℕ) (detail : String) :
    onAuthError m status detail s = (.ok a, s') := by
  rw [onAuthError, run_attempt_bind, h]
  rfl

theorem onAuthError_auth {e : AuthError} {s s' : Session AuthDb} (h : m s = (.error (.auth e), s')) (status : ℕ)
    (detail : String) : onAuthError m status detail s = (.error (.http status detail), s') := by
  rw [onAuthError, run_attempt_bind, h]
  rfl

theorem mirrors_login (email password : String) :
    Mirrors (login env req email password) (loginTxn env req email password) := by
  intro s ops
  have hfails : ∀ e, authenticate env email password ⟨s.db, (schema.view ops s).db⟩ = (.error (.auth e),
      ⟨s.db, (schema.view ops s).db⟩) → settled (login env req email password ⟨s.db, (schema.view ops s).db⟩) =
      s.db := by
    intro e h
    rw [login, run_bind_error (onAuthError_auth h _ _)]
    rfl
  simp only [loginTxn, Txn.alone]
  rcases hfind : (schema.view ops s).db.findUser (env.normalize email) with _ | ⟨id, user⟩
  · refine hfails .invalidCredentials ?_
    simp only [authenticate, Session.get, run_read_bind, hfind]
    rfl
  dsimp only
  split_ifs with hbad
  · refine hfails .invalidCredentials ?_
    simp only [authenticate, Session.get, run_read_bind, hfind, hbad]
    rfl
  · have hauth : authenticate env email password ⟨s.db, (schema.view ops s).db⟩ =
        (.ok (id, user), ⟨s.db, (schema.view ops s).db⟩) := by
      simp only [authenticate, Session.get, run_read_bind, hfind, hbad]
      rfl
    rw [login, run_bind_ok (onAuthError_ok hauth _ _)]
    exact (settled_bind_pure _ _ _).trans (mirrors_create env req id req.now none s ops)

theorem view_append (ops ops' : List Statement) (s : Traced) :
    schema.view (ops ++ ops') s = schema.view ops' (schema.view ops s) := List.foldl_append

theorem view_revokes (s : Traced) (now : Time) (is : List SessionId) :
    (schema.view (is.map (.revoke · now)) s).db = is.foldl (fun db i => db.revoke i now) s.db := by
  induction is generalizing s with
  | nil => rfl
  | cons i is ih => exact ih _

theorem each_revoke (now : Time) (is : List SessionId) (s : Session AuthDb) :
    (Prog.each (fun i => Session.flush (·.revoke i now)) is : A Unit) s =
      (.ok (), ⟨s.committed, is.foldl (fun db i => db.revoke i now) s.working⟩) := by
  induction is generalizing s with
  | nil => rfl
  | cons i is ih => exact ih _

/-- The password is written first in the session, and the rows to revoke are read first in the database;
neither sees the other. -/
theorem mirrors_change (id : UserId) (user : User) (currentPassword newPassword : String) :
    Mirrors (changePassword env req id user currentPassword newPassword)
      (changeTxn env req id user currentPassword newPassword) := by
  refine mirrors_ite (fun _ => mirrors_raise _) fun _ s ops => ?_
  have hrevokes := each_revoke req.now ((schema.view ops s).db.sessions.select fun r => r.userId == id &&
    r.revokedAt.isNone) ⟨s.db, (schema.view ops s).db.setPassword id (env.hashPassword newPassword)⟩
  have hrun : (do revokeAllForUser id req.now; Session.commit : A Unit) ⟨s.db, (schema.view ops s).db.setPassword id
      (env.hashPassword newPassword)⟩ = (.ok (), ⟨_, _⟩) := run_bind_ok hrevokes
  change settled ((do revokeAllForUser id req.now; Session.commit : A Unit) ⟨s.db, (schema.view ops s).db.setPassword id
      (env.hashPassword newPassword)⟩) = (Txn.alone schema s (ops ++ [.setPassword id (env.hashPassword newPassword)])
        (((schema.view ops s).db.sessions.select fun r => r.userId == id && r.revokedAt.isNone).foldr
          (fun i t => .exec (.revoke i req.now) t) (.done ()))).2.db
  rw [hrun, alone_revokes, Txn.alone, view_append, view_revokes, view_snoc]
  rfl

theorem mirrors_currentUser {g : UserId → A α} {next : UserId → T} (h : ∀ id, Mirrors (g id) (next id)) :
    Mirrors (getCurrentUser env req >>= g) (currentUserTxn env req next) := by
  unfold getCurrentUser currentUserTxn
  split_ifs
  · exact mirrors_raise _
  rcases req.accessCookie.bind (env.decodeAccessToken · req.now) with _ | id
  · exact mirrors_raise _
  dsimp only
  rw [bind_bind]
  refine mirrors_get fun v => ?_
  rcases v.db.users.row id with _ | user
  · exact mirrors_raise _
  dsimp only
  split_ifs
  · exact mirrors_raise _
  · exact h id

theorem mirrors_changePassword (currentPassword newPassword : String) :
    Mirrors (changePasswordRoute env req currentPassword newPassword)
      (changePasswordTxn env req currentPassword newPassword) := by
  refine mirrors_csrf req (mirrors_currentUser env req fun id => mirrors_get fun v => ?_)
  rcases v.db.users.row id with _ | user
  · exact mirrors_raise _
  · exact (mirrors_change env req id user currentPassword newPassword).answered _ _ _

/-- A request that is served alone does what the sequential model of its handler does. -/
theorem alone_serve (s : Traced) (c : Call) : (Txn.alone schema s [] (c.txn env)).2.db = serve env s.db c := by
  have hscope : ∀ {α : Type} (m : A α), (Session.scope m s.db).2 = settled (m ⟨s.db, s.db⟩) := by
    intro α m
    unfold Session.scope Session.start
    rcases m ⟨s.db, s.db⟩ with ⟨e | a, s'⟩ <;> rfl
  cases c with
  | login req email password => exact ((hscope _).trans (mirrors_login env req email password s [])).symm
  | refresh req => exact ((hscope _).trans (mirrors_refresh env req s [])).symm
  | logout req => exact ((hscope _).trans (mirrors_logout env req s [])).symm
  | changePassword req currentPassword newPassword =>
    exact ((hscope _).trans (mirrors_changePassword env req currentPassword newPassword s [])).symm

end Mirrors

/-- In every run in which no refresh starts while another refresh of the same token is being served, each
token is exchanged at most once, and at most one session that descends from a login is alive. -/
theorem refresh_exchanges_once (env : Env) (db : AuthDb) (es : List (Txn.Event Call))
    (hes : Runs.Along (AuthSystem.step env) (Apart (Call.Apart env)) (AuthSystem.start db) es) :
    ExchangedOnce (Runs.run (AuthSystem.step env) (AuthSystem.start db) es).committed := by
  have hstart : Traced.Booked ⟨db, []⟩ := ⟨fun i j j' hj => (by cases hj), fun i j hj => (by cases hj)⟩
  exact ((discipline env).run hstart es hes).inv.exchangedOnce

/-- A login with token `a`, which is then refreshed, and the new token `b` after it. -/
def oneByOne : List (Txn.Event Call) :=
  [.start (.login (withToken "" "a") "u@h" "pw"), .step 0, .step 0, .step 0,
    .start (.refresh (withToken "a" "b")), .step 1, .step 1, .step 1, .step 1, .step 1,
    .start (.refresh (withToken "b" "c")), .step 2, .step 2, .step 2, .step 2, .step 2]

theorem refresh_exchanges_once_one_by_one :
    (Runs.run (AuthSystem.step plainEnv) (AuthSystem.start oneUser) oneByOne).committed.issued =
        [(none, 0), (some 0, 1), (some 1, 2)] ∧
      ExchangedOnce (Runs.run (AuthSystem.step plainEnv) (AuthSystem.start oneUser) oneByOne).committed := by
  have hidle : ∀ {s : AuthSystem} {e : Txn.Event Call}, s.clients.select (fun _ => true) = [] →
      Apart (Call.Apart plainEnv) s e := fun h => Txn.apart_of_idle h _
  refine ⟨by decide +kernel, refresh_exchanges_once plainEnv oneUser oneByOne ⟨hidle rfl, trivial, trivial, trivial,
    hidle (by decide +kernel), trivial, trivial, trivial, trivial, trivial, hidle (by decide +kernel), trivial,
    trivial, trivial, trivial, trivial, trivial⟩⟩

/-- The same token, submitted twice at once. -/
def twiceAtOnce : List (Txn.Event Call) :=
  [.start (.login (withToken "" "a") "u@h" "pw"), .step 0, .step 0, .step 0,
    .start (.refresh (withToken "a" "b")), .start (.refresh (withToken "a" "c")), .step 1, .step 2,
    .step 1, .step 1, .step 1, .step 1, .step 2, .step 2, .step 2, .step 2]

/-- Both requests have read the row before either commits: two sessions that are not revoked. -/
theorem token_exchanged_twice :
    ¬ ExchangedOnce (Runs.run (AuthSystem.step plainEnv) (AuthSystem.start oneUser) twiceAtOnce).committed ∧
      (Runs.run (AuthSystem.step plainEnv) (AuthSystem.start oneUser) twiceAtOnce).committed.db.sessions.row 1 =
        some ⟨0, "b", 102, none⟩ ∧
      (Runs.run (AuthSystem.step plainEnv) (AuthSystem.start oneUser) twiceAtOnce).committed.db.sessions.row 2 =
        some ⟨0, "c", 102, none⟩ := by
  refine ⟨fun h => ?_, by decide +kernel, by decide +kernel⟩
  have hissued : (Runs.run (AuthSystem.step plainEnv) (AuthSystem.start oneUser) twiceAtOnce).committed.issued =
      [(none, 0), (some 0, 1), (some 0, 2)] := by decide +kernel
  have heq := h.once 0 1 2 (by rw [Traced.Successor, hissued]; decide) (by rw [Traced.Successor, hissued]; decide)
  cases heq

end Healer.Auth
