import Healer.Lib.Runs
import Healer.Spec.Access

/-! The credentials of connected agents. A credential is checked once, when the connection is authenticated;
what it says about an open socket later depends on when it is rotated or revoked. -/

namespace Healer

open Function Table Option

/-! ## Handlers -/

/-- The socket is closed, and the handler does not register it any more. -/
def Handler.Shut (h : Handler) : Prop := h.live = false ∧ h.stage ≠ .accept

/-- The handler has gone on: it does not turn back. -/
structure Handler.Follows (h h' : Handler) : Prop where
  agent : h'.agent = h.agent
  closed : h.live = false → h'.live = false
  past : h.stage ≠ .accept → h'.stage ≠ .accept

theorem Handler.Follows.refl (h : Handler) : h.Follows h := ⟨rfl, id, id⟩

theorem Handler.Follows.shut {h h' : Handler} (hf : h.Follows h') (hs : h.Shut) : h'.Shut :=
  ⟨hf.closed hs.1, hf.past hs.2⟩

namespace Sockets

variable {s : Sockets} {k : ℕ} {f : Handler → Handler}

/-- Every handler has gone on, and there are no others. -/
def Follow (t t' : Table Handler) : Prop :=
  ∀ j, ∃ f : Handler → Handler, (∀ h, Handler.Follows h (f h)) ∧ t'.row j = (t.row j).map f

theorem Follow.refl (t : Table Handler) : Follow t t := fun j => ⟨id, .refl, by rw [map_id, id]⟩

theorem modify_follow (t : Table Handler) (k : ℕ) (hf : ∀ h, Handler.Follows h (f h)) : Follow t (t.modify k f) := by
  intro j
  by_cases hj : j = k
  · subst hj
    exact ⟨f, hf, modify_row_self _ _ _⟩
  · refine ⟨id, .refl, ?_⟩
    rw [map_id, id]
    exact modify_row_of_ne _ _ hj

theorem goto_follows (stage : HandlerStage) (hstage : stage ≠ .accept) (h : Handler) :
    h.Follows { h with stage := stage } := ⟨rfl, id, fun _ => hstage⟩

theorem drop_follows (h : Handler) : h.Follows { h with live := false } := ⟨rfl, fun _ => rfl, id⟩

theorem atStage_cases (s : Sockets) (k : ℕ) (stage : HandlerStage) (F : Handler → Sockets) :
    s.atStage k stage F = s ∨
      ∃ x, s.handlers.row k = some x ∧ x.stage = stage ∧ s.atStage k stage F = F x := by
  unfold atStage
  rcases hk : s.handlers.row k with _ | x
  · exact .inl rfl
  · by_cases hx : x.stage = stage
    · exact .inr ⟨x, rfl, hx, if_pos hx⟩
    · exact .inl (if_neg hx)

/-- A step of a handler leaves the registry, clears an entry, or registers the handler's own socket. -/
theorem step_cases (s : Sockets) (e : SocketEvent) (he : ∀ g, e ≠ .connect g) :
    Follow s.handlers (s.step e).handlers ∧ ∀ g k, (s.step e).connections g = some k → s.connections g = some k ∨
      ∃ x x', s.handlers.row k = some x ∧ x.agent = g ∧ x.stage = .accept ∧
        (s.step e).handlers.row k = some x' ∧ x'.stage ≠ .accept := by
  have hclose : ∀ stage, stage ≠ .accept → ∀ h : Handler, h.Follows { h with stage := stage, live := false } :=
    fun stage hstage h => ⟨rfl, fun _ => rfl, fun _ => hstage⟩
  cases e with
  | connect g => exact absurd rfl (he g)
  | drop k => exact ⟨modify_follow s.handlers k drop_follows, fun g k hk => .inl hk⟩
  | register k =>
    simp only [step]
    rcases atStage_cases s k .accept _ with heq | ⟨x, hx, hstage, heq⟩ <;> rw [heq]
    · exact ⟨.refl s.handlers, fun g j hj => .inl hj⟩
    · refine ⟨modify_follow s.handlers k (goto_follows .mark (by decide)), fun g j hj => ?_⟩
      by_cases hg : g = x.agent
      · subst hg
        obtain rfl : k = j := by simpa using hj
        refine .inr ⟨x, { x with stage := .mark }, hx, rfl, hstage, ?_, by simp⟩
        exact (modify_row_self _ _ _).trans (by rw [hx]; rfl)
      · exact .inl (by simpa [update_of_ne hg] using hj)
  | mark k =>
    simp only [step]
    rcases atStage_cases s k .mark _ with heq | ⟨x, hx, hstage, heq⟩ <;> rw [heq]
    · exact ⟨.refl s.handlers, fun g j hj => .inl hj⟩
    · unfold assign
      split_ifs
      · exact ⟨modify_follow s.handlers k (goto_follows .serve (by decide)), fun g j hj => .inl hj⟩
      · exact ⟨modify_follow s.handlers k (goto_follows .serve (by decide)), fun g j hj => .inl hj⟩
  | leave k =>
    simp only [step]
    rcases atStage_cases s k .serve _ with heq | ⟨x, hx, hstage, heq⟩ <;> rw [heq]
    · exact ⟨.refl s.handlers, fun g j hj => .inl hj⟩
    · exact ⟨modify_follow s.handlers k (hclose .unregister (by decide)), fun g j hj => .inl hj⟩
  | fail k =>
    simp only [step]
    rcases atStage_cases s k .serve _ with heq | ⟨x, hx, hstage, heq⟩ <;> rw [heq]
    · exact ⟨.refl s.handlers, fun g j hj => .inl hj⟩
    · exact ⟨modify_follow s.handlers k (hclose .done (by decide)), fun g j hj => .inl hj⟩
  | unregister k =>
    simp only [step]
    rcases atStage_cases s k .unregister _ with heq | ⟨x, hx, hstage, heq⟩ <;> rw [heq]
    · exact ⟨.refl s.handlers, fun g j hj => .inl hj⟩
    · refine ⟨modify_follow s.handlers k (goto_follows .clear (by decide)), fun g j hj => .inl ?_⟩
      by_cases hg : g = x.agent
      · subst hg
        simp at hj
      · simpa [update_of_ne hg] using hj
  | clear k =>
    simp only [step]
    rcases atStage_cases s k .clear _ with heq | ⟨x, hx, hstage, heq⟩ <;> rw [heq]
    · exact ⟨.refl s.handlers, fun g j hj => .inl hj⟩
    · exact ⟨modify_follow s.handlers k (goto_follows .done (by decide)), fun g j hj => .inl hj⟩

end Sockets

namespace Access

open Enrollment (EnrollDb enrollTxn flushTxn)
open Runs (run Along)

variable (env : Enrollment.Env)

/-- The agent whose credential an enrolment rotates. -/
def rotated (db : EnrollDb) (rawToken : String) (now : Time) : Option AgentId :=
  match db.tokens.first fun r => r.tokenHash == env.hashToken rawToken with
  | none => none
  | some (_, token) =>
    if token.revokedAt.isSome || token.usedAt.isSome || decide (token.expiresAt < now) then none
    else (db.agents.first fun a => a.serverId == token.serverId).map Prod.fst

/-- The connections of an agent that are open or about to be registered. -/
def busy (s : Access) (g : AgentId) : List ℕ :=
  s.sockets.handlers.select fun h => h.agent == g && (h.live || h.stage == .accept)

/-- A credential is rotated while its agent has no connection and no entry in the registry; it is revoked while
the registered connection is the only one, and the close of a registered socket does not raise. -/
def orderly (s : Access) : AccessEvent → Bool
  | .enroll rawToken now _ => (rotated env s.db rawToken now).all fun g =>
    (s.sockets.connections g).isNone && (s.busy g).isEmpty
  | .revoke server => (s.agentOf server).all fun g => (s.busy g).all fun k => s.sockets.connections g == some k
  | .closeFails m => (s.revocations.row m).all fun r => s.sockets.connections r.agent != some r.socket
  | _ => true

/-! ## Enrolment -/

section Enroll

variable (db : EnrollDb) (rawToken rawCredential : String) (now : Time)

/-- The agent's statement does not look at the tokens. -/
theorem flush_agents (t : Enrollment.TokenId) {agent : Enrollment.Statement} {out : Enrollment.Outcome}
    (hagent : ∀ tokens, (Enrollment.schema.apply agent { db with tokens := tokens }).map (·.agents) =
      (Enrollment.schema.apply agent db).map (·.agents)) :
    (Txn.alone Enrollment.schema db [] (flushTxn env (.useToken t now) agent (.done out))).2.agents =
      ((Enrollment.schema.apply agent db).map (·.agents)).getD db.agents := by
  have htoken : ∀ db', Enrollment.schema.apply (.useToken t now) db' =
      some { db' with tokens := db'.tokens.modify t fun r => { r with usedAt := some now } } := fun db' => rfl
  unfold flushTxn
  split_ifs
  · have hafter := hagent (db.tokens.modify t fun r => { r with usedAt := some now })
    rw [← hafter]
    simp only [Txn.alone, Txn.Schema.view, List.foldl, htoken, List.nil_append, getD_some]
    rcases h : Enrollment.schema.apply agent { db with tokens := db.tokens.modify t fun r =>
      { r with usedAt := some now } } with _ | db'
    · rfl
    · simp [h, htoken]
  · simp only [Txn.alone, Txn.Schema.view, List.foldl, List.nil_append]
    rcases h : Enrollment.schema.apply agent db with _ | db'
    · rfl
    · simp [h, htoken]

theorem insert_agents (db : EnrollDb) (row : Enrollment.Agent) :
    (Enrollment.schema.apply (.insertAgent row) db).map (·.agents) =
      if (db.serverTaken row.serverId || row.credentialHash.any (db.credentialTaken none)) = true then none
      else some (db.agents.insert row) := by
  simp only [Enrollment.schema]
  split_ifs <;> rfl

theorem rotate_agents (db : EnrollDb) (g : AgentId) (hash : String) :
    (Enrollment.schema.apply (.rotateCredential g hash) db).map (·.agents) =
      if db.credentialTaken (some g) hash = true then none
      else some (db.agents.modify g fun r => { r with credentialHash := some hash }) := by
  simp only [Enrollment.schema]
  split_ifs <;> rfl

/-- An enrolment leaves the agents, adds one, or rotates the credential of the one it is for. -/
theorem enroll_agents :
    (Txn.alone Enrollment.schema db [] (enrollTxn env rawToken now rawCredential)).2.agents = db.agents ∨
      (∃ row, (Txn.alone Enrollment.schema db [] (enrollTxn env rawToken now rawCredential)).2.agents =
        db.agents.insert row) ∨
      ∃ g f, rotated env db rawToken now = some g ∧
        (Txn.alone Enrollment.schema db [] (enrollTxn env rawToken now rawCredential)).2.agents =
          db.agents.modify g f := by
  simp only [enrollTxn, Txn.alone, Txn.Schema.view, List.foldl]
  unfold rotated
  rcases db.tokens.first fun r => r.tokenHash == env.hashToken rawToken with _ | ⟨t, token⟩
  · exact .inl rfl
  dsimp only
  by_cases hrevoked : token.revokedAt.isSome = true
  · left
    rw [if_pos hrevoked]
    rfl
  by_cases hused : token.usedAt.isSome = true
  · left
    rw [if_neg hrevoked, if_pos hused]
    rfl
  by_cases hexpired : token.expiresAt < now
  · left
    rw [if_neg hrevoked, if_neg hused, if_pos hexpired]
    rfl
  rw [if_neg hrevoked, if_neg hused, if_neg hexpired, if_neg (by simp [hrevoked, hused, hexpired])]
  simp only [Txn.alone, Txn.Schema.view, List.foldl]
  rcases db.agents.first fun a => a.serverId == token.serverId with _ | ⟨g, agent⟩
  · dsimp only
    rw [flush_agents env db now t fun tokens => (insert_agents _ _).trans (insert_agents db _).symm, insert_agents]
    split_ifs
    · exact .inl rfl
    · exact .inr (.inl ⟨_, rfl⟩)
  · dsimp only
    rw [flush_agents env db now t fun tokens => (rotate_agents _ _ _).trans (rotate_agents db _ _).symm, rotate_agents]
    split_ifs
    · exact .inl rfl
    · exact .inr (.inr ⟨g, _, rfl, rfl⟩)

end Enroll

/-! ## Runs -/

/-- A connection has the current credential of its agent or is shut, and a registered one has it unless a
revocation is about to take it out. -/
structure Inv (s : Access) : Prop where
  handlers : ∀ k h, s.sockets.handlers.row k = some h → s.Valid k h.agent ∨ h.Shut
  past : ∀ g k, s.sockets.connections g = some k → ∃ h, s.sockets.handlers.row k = some h ∧ h.stage ≠ .accept
  held : ∀ g k, s.sockets.connections g = some k → s.Valid k g ∨ ∃ m, s.revocations.row m = some ⟨g, k⟩

section Steps

variable {env} {s : Access}

theorem mem_busy {g : AgentId} {k : ℕ} {h : Handler} (hk : s.sockets.handlers.row k = some h) (hg : h.agent = g)
    (hshut : ¬ h.Shut) : k ∈ s.busy g := by
  refine mem_select.2 ⟨h, hk, ?_⟩
  rcases hlive : h.live with _ | _
  · have haccept : h.stage = .accept := by
      by_contra hstage
      exact hshut ⟨hlive, hstage⟩
    simp [hg, haccept]
  · simp [hg]

theorem start_inv (db : EnrollDb) : (start db).Inv :=
  ⟨fun k h hk => (by cases hk), fun g k hk => (by cases hk), fun g k hk => (by cases hk)⟩

/-- A step after which the valid connections of the agents it does not touch are still valid. -/
theorem Inv.credentials (h : s.Inv) {db : EnrollDb}
    (hdb : ∀ g hash, s.credential g = some hash → Access.credential { s with db := db } g = some hash ∨
      s.sockets.connections g = none ∧ s.busy g = []) : Inv { s with db := db } := by
  refine ⟨fun k x hk => ?_, h.past, fun g k hk => ?_⟩
  · rcases h.handlers k x hk with ⟨hash, hpresented, hcredential⟩ | hshut
    · rcases hdb _ hash hcredential with hkeep | ⟨-, hbusy⟩
      · exact .inl ⟨hash, hpresented, hkeep⟩
      · right
        by_contra hshut
        have hmem := mem_busy (s := s) hk rfl hshut
        rw [hbusy] at hmem
        cases hmem
    · exact .inr hshut
  · rcases h.held g k hk with ⟨hash, hpresented, hcredential⟩ | hpending
    · rcases hdb g hash hcredential with hkeep | ⟨hnone, -⟩
      · exact .inl ⟨hash, hpresented, hkeep⟩
      · rw [hnone] at hk
        cases hk
    · exact .inr hpending

theorem Inv.enroll (h : s.Inv) {rawToken rawCredential : String} {now : Time}
    (he : s.orderly env (.enroll rawToken now rawCredential) = true) :
    (s.step env (.enroll rawToken now rawCredential)).Inv := by
  refine h.credentials fun g hash hcredential => ?_
  unfold Access.credential at hcredential ⊢
  dsimp only
  rcases enroll_agents env s.db rawToken rawCredential now with hagents | ⟨row, hagents⟩ | ⟨g', f, hrotated, hagents⟩
  · exact .inl (by rw [hagents]; exact hcredential)
  · left
    obtain ⟨a, ha, -⟩ := bind_eq_some_iff.1 hcredential
    rw [hagents, insert_row_of_ne _ _ (lt_of_row ha).ne]
    exact hcredential
  · by_cases hg : g = g'
    · right
      subst hg
      simpa [orderly, hrotated] using he
    · left
      rw [hagents, modify_row_of_ne _ _ hg]
      exact hcredential

theorem Inv.handshake (h : s.Inv) (rawCredential : Option String) : (s.step env (.handshake rawCredential)).Inv := by
  simp only [Access.step]
  rcases rawCredential with _ | raw
  · exact h
  dsimp only
  rcases hauth : s.authenticate (env.hashToken raw) with _ | g
  · exact h
  dsimp only
  have hvalid : ∀ k x g', s.sockets.handlers.row k = some x → s.Valid k g' →
      (s.join g (env.hashToken raw)).Valid k g' := by
    rintro k x g' hk ⟨hash, hpresented, hcredential⟩
    refine ⟨hash, ?_, hcredential⟩
    rw [← hpresented]
    exact update_of_ne (lt_of_row hk).ne _ _
  refine ⟨fun k x hk => ?_, fun g' k hk => ?_, fun g' k hk => ?_⟩
  · rcases insert_row_cases hk with ⟨rfl, rfl⟩ | hk
    · left
      obtain ⟨⟨g₀, a⟩, hfirst, rfl⟩ := map_eq_some_iff.1 hauth
      obtain ⟨hrow, hhash⟩ := row_of_first hfirst
      exact ⟨env.hashToken raw, update_self _ _ _, by simpa [Access.credential, join, hrow] using hhash⟩
    · exact (h.handlers k x hk).imp (hvalid k x _ hk) id
  · obtain ⟨x, hx, hstage⟩ := h.past g' k hk
    exact ⟨x, (insert_row_of_ne _ _ (lt_of_row hx).ne).trans hx, hstage⟩
  · obtain ⟨x, hx, -⟩ := h.past g' k hk
    exact (h.held g' k hk).imp (hvalid k x _ hx) id

theorem Inv.socket (h : s.Inv) (e : SocketEvent) (he : ∀ g, e ≠ .connect g) :
    Inv { s with sockets := s.sockets.step e } := by
  obtain ⟨hfollow, hconnections⟩ := s.sockets.step_cases e he
  refine ⟨fun k x' hk => ?_, fun g k hk => ?_, fun g k hk => ?_⟩
  · obtain ⟨f, hf, hrow⟩ := hfollow k
    obtain ⟨x, hx, rfl⟩ := map_eq_some_iff.1 (hrow.symm.trans hk)
    rw [(hf x).agent]
    exact (h.handlers k x hx).imp id (hf x).shut
  · rcases hconnections g k hk with hk | ⟨x, x', -, -, -, hx', hstage⟩
    · obtain ⟨x, hx, hstage⟩ := h.past g k hk
      obtain ⟨f, hf, hrow⟩ := hfollow k
      exact ⟨f x, hrow.trans (by rw [hx, map_some]), (hf x).past hstage⟩
    · exact ⟨x', hx', hstage⟩
  · rcases hconnections g k hk with hk | ⟨x, x', hx, rfl, hstage, -⟩
    · exact h.held g k hk
    · -- what is about to be registered is not shut
      exact .inl ((h.handlers k x hx).resolve_right fun hshut => hshut.2 hstage)

/-- What `revoke_agent` commits. -/
def revokedDb (s : Access) (g : AgentId) : EnrollDb :=
  { s.db with agents := s.db.agents.modify g fun a => { a with credentialHash := none } }

/-- The agents' credentials, but for that of `g`. -/
theorem Valid.revoked {s' : Access} {k : ℕ} {g j : AgentId} (h : s.Valid k j) (hj : j ≠ g)
    (hpresented : s'.presented = s.presented) (hdb : s'.db = s.revokedDb g) : s'.Valid k j := by
  obtain ⟨hash, hk, hcredential⟩ := h
  refine ⟨hash, by rw [hpresented, hk], ?_⟩
  rw [credential, hdb, revokedDb, modify_row_of_ne _ _ hj]
  exact hcredential

/-- The only connection that can have the credential is the registered one, and it is closed. -/
theorem Inv.revokeAgent (h : s.Inv) {g : AgentId}
    (hbusy : ∀ k ∈ s.busy g, s.sockets.connections g = some k) : (s.revokeAgent g).Inv := by
  unfold Access.revokeAgent close
  rcases hheld : s.sockets.connections g with _ | k
  · simp only
    have hnone : s.busy g = [] := by
      refine List.eq_nil_iff_forall_not_mem.2 fun k hk => ?_
      have hsome := hbusy k hk
      rw [hheld] at hsome
      cases hsome
    have hdb : Inv { s with db := s.revokedDb g } := by
      refine h.credentials fun j hash hcredential => ?_
      by_cases hj : j = g
      · exact .inr (hj ▸ ⟨hheld, hnone⟩)
      · left
        rw [← hcredential, credential, revokedDb, modify_row_of_ne _ _ hj]
        rfl
    exact ⟨hdb.handlers, hdb.past, hdb.held⟩
  · simp only
    obtain ⟨x₀, hx₀, hpast₀⟩ := h.past g k hheld
    refine ⟨fun j x hj => ?_, fun g' j hj => ?_, fun g' j hj => ?_⟩
    · by_cases hjk : j = k
      · subst hjk
        obtain ⟨y, hy, rfl⟩ := map_eq_some_iff.1 ((modify_row_self _ _ _).symm.trans hj)
        obtain rfl : x₀ = y := Option.some.inj (hx₀.symm.trans hy)
        exact .inr ⟨rfl, hpast₀⟩
      · have hx : s.sockets.handlers.row j = some x := (modify_row_of_ne _ _ hjk).symm.trans hj
        by_cases hg : x.agent = g
        · right
          by_contra hshut
          exact hjk (Option.some.inj ((hbusy j (mem_busy hx hg hshut)).symm.trans hheld))
        · exact (h.handlers j x hx).imp (fun hvalid => hvalid.revoked hg rfl rfl) id
    · obtain ⟨x, hx, hstage⟩ := h.past g' j hj
      obtain ⟨f, hf, hrow⟩ := Sockets.modify_follow s.sockets.handlers k Sockets.drop_follows j
      exact ⟨f x, hrow.trans (by rw [hx, map_some]), (hf x).past hstage⟩
    · by_cases hg : g' = g
      · subst hg
        obtain rfl : k = j := Option.some.inj (hheld.symm.trans hj)
        exact .inr ⟨s.revocations.next, insert_row_self _ _⟩
      · refine (h.held g' j hj).imp (fun hvalid => hvalid.revoked hg rfl rfl) ?_
        rintro ⟨m, hm⟩
        exact ⟨m, (insert_row_of_ne _ _ (lt_of_row hm).ne).trans hm⟩

theorem Inv.closed (h : s.Inv) (m : ℕ) : (s.step env (.closed m)).Inv := by
  simp only [Access.step]
  rcases hm : s.revocations.row m with _ | r
  · exact h
  dsimp only
  have hother : ∀ g k, Function.update s.sockets.connections r.agent none g = some k →
      g ≠ r.agent ∧ s.sockets.connections g = some k := by
    intro g k hk
    by_cases hg : g = r.agent
    · subst hg
      simp at hk
    · exact ⟨hg, by simpa [update_of_ne hg] using hk⟩
  refine ⟨h.handlers, fun g k hk => h.past g k (hother g k hk).2, fun g k hk => ?_⟩
  obtain ⟨hg, hk⟩ := hother g k hk
  refine (h.held g k hk).imp id ?_
  rintro ⟨m', hm'⟩
  refine ⟨m', ?_⟩
  have hne : m' ≠ m := by
    rintro rfl
    rw [hm, Option.some.injEq] at hm'
    exact hg (by rw [hm'])
  exact (erase_row_of_ne _ hne).trans hm'

theorem Inv.closeFails (h : s.Inv) {m : ℕ} (he : s.orderly env (.closeFails m) = true) :
    (s.step env (.closeFails m)).Inv := by
  refine ⟨h.handlers, h.past, fun g k hk => (h.held g k hk).imp id ?_⟩
  rintro ⟨m', hm'⟩
  refine ⟨m', ?_⟩
  have hne : m' ≠ m := by
    rintro rfl
    simp only [orderly, hm', all_some, bne_iff_ne] at he
    exact he hk
  exact (erase_row_of_ne _ hne).trans hm'

theorem Inv.step (h : s.Inv) (e : AccessEvent) (he : s.orderly env e = true) : (s.step env e).Inv := by
  cases e with
  | handshake rawCredential => exact h.handshake rawCredential
  | enroll rawToken now rawCredential => exact h.enroll he
  | closed m => exact h.closed m
  | closeFails m => exact h.closeFails he
  | revoke server =>
    simp only [Access.step]
    rcases hagent : s.agentOf server with _ | g
    · exact h
    · refine h.revokeAgent fun k hk => ?_
      simp only [orderly, hagent, all_some, List.all_eq_true, beq_iff_eq] at he
      exact he k hk
  | socket e =>
    cases e with
    | connect g => exact h
    | register k => exact h.socket (.register k) (by simp)
    | mark k => exact h.socket (.mark k) (by simp)
    | drop k => exact h.socket (.drop k) (by simp)
    | leave k => exact h.socket (.leave k) (by simp)
    | fail k => exact h.socket (.fail k) (by simp)
    | unregister k => exact h.socket (.unregister k) (by simp)
    | clear k => exact h.socket (.clear k) (by simp)

theorem Inv.current (h : s.Inv) (hquiet : s.Quiescent) : s.Current := by
  constructor
  · intro g k hk
    refine (h.held g k hk).resolve_right ?_
    rintro ⟨m, hm⟩
    have hfalse := select_eq_nil.1 hquiet.2 m _ hm
    cases hfalse
  · intro k x hk _ hlive
    refine (h.handlers k x hk).resolve_right fun hshut => ?_
    rw [hshut.1] at hlive
    cases hlive

end Steps

/-- When credentials are rotated and revoked in order, every socket in use has the current one. -/
theorem connected_with_current_credential (db : EnrollDb) (es : List AccessEvent)
    (hes : Along (step env) (fun s e => s.orderly env e = true) (start db) es)
    (hquiet : (run (step env) (start db) es).Quiescent) : (run (step env) (start db) es).Current := by
  have hinv : (run (step env) (start db) es).Inv :=
    Runs.invariant (fun s e h he => h.step e he) es (start db) (start_inv db) hes
  exact hinv.current hquiet

def plainEnv : Enrollment.Env := ⟨id, true⟩

/-- A server without an agent and two tokens for it. -/
def twoTokens : EnrollDb :=
  ⟨(Table.empty.insert ⟨0, "t", 100, none, none⟩).insert ⟨0, "u", 100, none, none⟩, Table.empty⟩

/-- The agent enrols and connects. -/
def connect (rawCredential : String) (k : ℕ) : List AccessEvent :=
  [.handshake (some rawCredential), .socket (.register k), .socket (.mark k)]

/-- The agent is revoked while it is connected, enrols again and connects. -/
def revokedThenEnrolled : List AccessEvent :=
  .enroll "t" 1 "c" :: connect "c" 0 ++
    [.revoke 0, .closed 0, .socket (.leave 0), .socket (.unregister 0), .socket (.clear 0), .enroll "u" 2 "d"] ++
    connect "d" 1

theorem connected_with_current_credential_enrolled :
    (run (step plainEnv) (start twoTokens) revokedThenEnrolled).sockets.connections 0 = some 1 ∧
      (run (step plainEnv) (start twoTokens) revokedThenEnrolled).Current :=
  ⟨by decide +kernel, connected_with_current_credential plainEnv twoTokens revokedThenEnrolled (by decide +kernel)
    (by decide +kernel)⟩

/-- The agent stays connected while its credential is rotated. -/
def rotatedWhileConnected : List AccessEvent := .enroll "t" 1 "c" :: connect "c" 0 ++ [.enroll "u" 2 "d"]

/-- The credential is revoked between a connection's authentication and its entry in the registry. -/
def revokedInHandshake : List AccessEvent :=
  [.enroll "t" 1 "c", .handshake (some "c"), .revoke 0, .socket (.register 0), .socket (.mark 0)]

/-- The agent has connected twice when it is revoked. -/
def revokedTwofold : List AccessEvent :=
  .enroll "t" 1 "c" :: connect "c" 0 ++ connect "c" 1 ++
    [.revoke 0, .closed 0, .socket (.leave 1), .socket (.unregister 1), .socket (.clear 1)]

/-- A socket that is registered or reports events, though its credential is not the current one. -/
theorem outdated_credentials_connected :
    ((run (step plainEnv) (start twoTokens) rotatedWhileConnected).Quiescent ∧
        (run (step plainEnv) (start twoTokens) rotatedWhileConnected).credential 0 = some "d" ∧
        ¬ (run (step plainEnv) (start twoTokens) rotatedWhileConnected).Current) ∧
      ((run (step plainEnv) (start twoTokens) revokedInHandshake).Quiescent ∧
        (run (step plainEnv) (start twoTokens) revokedInHandshake).credential 0 = none ∧
        ¬ (run (step plainEnv) (start twoTokens) revokedInHandshake).Current) ∧
      (run (step plainEnv) (start twoTokens) revokedTwofold).Quiescent ∧
        (run (step plainEnv) (start twoTokens) revokedTwofold).sockets.connections 0 = none ∧
        ¬ (run (step plainEnv) (start twoTokens) revokedTwofold).Current := by
  refine ⟨⟨by decide +kernel, by decide +kernel, fun h => ?_⟩, ⟨by decide +kernel, by decide +kernel, fun h => ?_⟩,
    by decide +kernel, by decide +kernel, fun h => ?_⟩
  · obtain ⟨hash, hpresented, hcredential⟩ := h.held 0 0 (by decide +kernel)
    have hold : (run (step plainEnv) (start twoTokens) rotatedWhileConnected).presented 0 = some "c" := by
      decide +kernel
    have hnew : (run (step plainEnv) (start twoTokens) rotatedWhileConnected).credential 0 = some "d" := by
      decide +kernel
    have heq := (hold.symm.trans hpresented).trans (hcredential.symm.trans hnew)
    revert heq
    decide
  · obtain ⟨hash, -, hcredential⟩ := h.held 0 0 (by decide +kernel)
    have hnone : (run (step plainEnv) (start twoTokens) revokedInHandshake).credential 0 = none := by
      decide +kernel
    cases hnone.symm.trans hcredential
  · have hserving : ((run (step plainEnv) (start twoTokens) revokedTwofold).sockets.handlers.row 0).any
        (fun x => x.agent == 0 && x.stage == .serve && x.live) = true := by decide +kernel
    obtain ⟨x, hx, hopen⟩ := any_eq_true _ _ |>.1 hserving
    simp only [Bool.and_eq_true, beq_iff_eq] at hopen
    obtain ⟨⟨hagent, hstage⟩, hlive⟩ := hopen
    obtain ⟨hash, -, hcredential⟩ := h.reporting 0 x hx hstage hlive
    rw [hagent] at hcredential
    have hnone : (run (step plainEnv) (start twoTokens) revokedTwofold).credential 0 = none := by
      decide +kernel
    cases hnone.symm.trans hcredential

end Access

end Healer
