import Healer.Spec.Enrollment

/-! How often an enrollment token is consumed when enrolments and revocations are served at once. -/

namespace Healer.Enrollment

open List Table

open Txn (Commits Apart Discipline)
open Runs (run Along)

/-- No token has enrolled twice, and none after its revocation. -/
structure ConsumedOnce (outcomes : List Outcome) : Prop where
  once : ∀ t, outcomes.count (.enrolled t) ≤ 1
  revoked : outcomes.Pairwise fun a b => ∀ t, a = .revoked t → b ≠ .enrolled t

def EnrollSystem.outcomes (s : EnrollSystem) : List Outcome := s.log.map Prod.snd

def EnrollDb.hashOf (db : EnrollDb) (t : TokenId) : Option String := (db.tokens.row t).map (·.tokenHash)

/-- An enrolment does not overlap with another enrolment or a revocation of its token. -/
def Request.Apart (env : Env) (db : EnrollDb) : Request → Request → Prop
  | .enroll rawToken _ _, .enroll rawToken' _ _ => env.hashToken rawToken ≠ env.hashToken rawToken'
  | .enroll rawToken _ _, .revoke _ t _ | .revoke _ t _, .enroll rawToken _ _ =>
    db.hashOf t ≠ some (env.hashToken rawToken)
  | .revoke .., .revoke .. => True

theorem Request.Apart.symm {env : Env} {db : EnrollDb} {r r' : Request} (h : r.Apart env db r') :
    r'.Apart env db r := by
  cases r <;> cases r'
  · exact Ne.symm h
  · exact h
  · exact h
  · trivial

/-! ## Tokens -/

/-- The token is there and has neither been used nor revoked. -/
def EnrollDb.Open (db : EnrollDb) (t : TokenId) : Prop :=
  ∃ row, db.tokens.row t = some row ∧ row.usedAt = none ∧ row.revokedAt = none

def EnrollDb.Used (db : EnrollDb) (t : TokenId) : Prop :=
  ∃ row, db.tokens.row t = some row ∧ row.usedAt.isSome = true

def EnrollDb.Revoked (db : EnrollDb) (t : TokenId) : Prop :=
  ∃ row, db.tokens.row t = some row ∧ row.revokedAt.isSome = true

variable {t : TokenId}

theorem EnrollDb.Open.not_used {db : EnrollDb} (h : db.Open t) : ¬ db.Used t := by
  rintro ⟨row', hrow', hsome⟩
  obtain ⟨row, hrow, hnone, -⟩ := h
  rw [hrow, Option.some.injEq] at hrow'
  rw [← hrow', hnone] at hsome
  cases hsome

theorem EnrollDb.Open.not_revoked {db : EnrollDb} (h : db.Open t) : ¬ db.Revoked t := by
  rintro ⟨row', hrow', hsome⟩
  obtain ⟨row, hrow, -, hnone⟩ := h
  rw [hrow, Option.some.injEq] at hrow'
  rw [← hrow', hnone] at hsome
  cases hsome

/-- The token that a statement writes. -/
def Statement.token : Statement → Option TokenId
  | .useToken t _ | .revokeToken t _ => some t
  | .insertAgent _ | .rotateCredential .. => none

def Statement.effect (op : Statement) (db : EnrollDb) : EnrollDb := (schema.apply op db).getD db

section Effects

variable (db : EnrollDb) (op : Statement) (ops : List Statement)

theorem effect_token (h : op.token ≠ some t) : (op.effect db).tokens.row t = db.tokens.row t := by
  cases op with
  | useToken u now => exact modify_row_of_ne _ _ fun heq => h (heq ▸ rfl)
  | revokeToken u now => exact modify_row_of_ne _ _ fun heq => h (heq ▸ rfl)
  | insertAgent row =>
    simp only [Statement.effect, schema]
    split_ifs <;> rfl
  | rotateCredential a hash =>
    simp only [Statement.effect, schema]
    split_ifs <;> rfl

/-- A write to a token sets one of its two times. -/
theorem effect_written (h : op.token = some t) :
    ∃ f : EnrollmentToken → EnrollmentToken, (op.effect db).tokens.row t = (db.tokens.row t).map f ∧
      ∀ row, (f row).tokenHash = row.tokenHash ∧ (row.usedAt.isSome = true → (f row).usedAt.isSome = true) ∧
        (row.revokedAt.isSome = true → (f row).revokedAt.isSome = true) := by
  cases op with
  | useToken u now =>
    cases h
    exact ⟨_, modify_row_self _ _ _, fun row => ⟨rfl, fun _ => rfl, id⟩⟩
  | revokeToken u now =>
    cases h
    exact ⟨_, modify_row_self _ _ _, fun row => ⟨rfl, id, fun _ => rfl⟩⟩
  | insertAgent row => cases h
  | rotateCredential a hash => cases h

theorem hashOf_view : (schema.view ops db).hashOf t = db.hashOf t := by
  induction ops generalizing db with
  | nil => rfl
  | cons op ops ih =>
    refine (ih (op.effect db)).trans ?_
    unfold EnrollDb.hashOf
    by_cases htoken : op.token = some t
    · obtain ⟨f, hrow, hf⟩ := effect_written db op htoken
      rw [hrow, Option.map_map]
      exact congrArg (fun g => (db.tokens.row t).map g) (funext fun row => (hf row).1)
    · rw [effect_token db op htoken]

theorem used_view (h : db.Used t) : (schema.view ops db).Used t := by
  induction ops generalizing db with
  | nil => exact h
  | cons op ops ih =>
    refine ih (op.effect db) ?_
    obtain ⟨row, hrow, hused⟩ := h
    by_cases htoken : op.token = some t
    · obtain ⟨f, hrow', hf⟩ := effect_written db op htoken
      exact ⟨f row, by rw [hrow', hrow, Option.map_some], (hf row).2.1 hused⟩
    · exact ⟨row, (effect_token db op htoken).trans hrow, hused⟩

theorem revoked_view (h : db.Revoked t) : (schema.view ops db).Revoked t := by
  induction ops generalizing db with
  | nil => exact h
  | cons op ops ih =>
    refine ih (op.effect db) ?_
    obtain ⟨row, hrow, hrevoked⟩ := h
    by_cases htoken : op.token = some t
    · obtain ⟨f, hrow', hf⟩ := effect_written db op htoken
      exact ⟨f row, by rw [hrow', hrow, Option.map_some], (hf row).2.2 hrevoked⟩
    · exact ⟨row, (effect_token db op htoken).trans hrow, hrevoked⟩

/-- Writes to other tokens leave a token alone. -/
theorem view_token (h : ∀ op ∈ ops, op.token ≠ some t) :
    (schema.view ops db).tokens.row t = db.tokens.row t := by
  induction ops generalizing db with
  | nil => rfl
  | cons op ops ih =>
    have hrest := ih (op.effect db) fun op' hop' => h op' (mem_cons_of_mem op hop')
    exact hrest.trans (effect_token db op (h op mem_cons_self))

theorem hashOf_isSome : (db.hashOf t).isSome = (db.tokens.row t).isSome := Option.isSome_map

variable {now : Time}

/-- A write that is among those made has been made, whatever comes before and after it. -/
theorem used_of_mem (hrow : (db.hashOf t).isSome = true) (h : .useToken t now ∈ ops) :
    (schema.view ops db).Used t := by
  induction ops generalizing db with
  | nil => cases h
  | cons op ops ih =>
    rcases mem_cons.1 h with rfl | h
    · refine used_view (Statement.effect (.useToken t now) db) ops ?_
      rw [hashOf_isSome] at hrow
      obtain ⟨row, hrow⟩ := Option.isSome_iff_exists.1 hrow
      exact ⟨{ row with usedAt := some now }, (modify_row_self _ _ _).trans (by rw [hrow]; rfl), rfl⟩
    · refine ih (op.effect db) ?_ h
      rw [← hrow]
      exact congrArg Option.isSome (hashOf_view db [op])

end Effects

/-! ## What a request relies on -/

/-- The writes of an enrolment with token `t`. -/
def Uses (t : TokenId) (now : Time) (ops : List Statement) : Prop :=
  .useToken t now ∈ ops ∧ ∀ op ∈ ops, op.token = none ∨ op.token = some t

/-- A request has not read yet, or changes nothing, or has found its token open, or is to revoke one. -/
inductive Relies (env : Env) (db : EnrollDb) (r : Request) (ops : List Statement) (t : T) : Prop
  | unread (hops : ops = []) (ht : t = r.txn env) : Relies env db r ops t
  | idle (h : Commits (fun ops out => ops = [] ∧ out = .unchanged) ops t) : Relies env db r ops t
  | enrolling (token : TokenId) (rawToken : String) (now : Time) (rawCredential : String)
      (hr : r = .enroll rawToken now rawCredential) (hhash : db.hashOf token = some (env.hashToken rawToken))
      (hopen : db.Open token) (h : Commits (fun ops out => Uses token now ops ∧ out = .enrolled token) ops t) :
      Relies env db r ops t
  | revoking (token : TokenId) (server : ServerId) (now : Time) (hr : r = .revoke server token now)
      (hrow : (db.tokens.row token).isSome = true)
      (h : Commits (fun ops out => ops = [.revokeToken token now] ∧ out = .revoked token) ops t) :
      Relies env db r ops t

/-- The record of the outcomes agrees with the rows. -/
structure Booked (db₀ db : EnrollDb) (outcomes : List Outcome) : Prop where
  hashes : ∀ t, db.hashOf t = db₀.hashOf t
  consumed : ConsumedOnce outcomes
  used : ∀ t, .enrolled t ∈ outcomes → db.Used t
  revoked : ∀ t, .revoked t ∈ outcomes → db.Revoked t

section Outcomes

variable {outcomes : List Outcome}

theorem ConsumedOnce.snoc (h : ConsumedOnce outcomes) {out : Outcome}
    (hout : ∀ t, out = .enrolled t → .enrolled t ∉ outcomes ∧ .revoked t ∉ outcomes) :
    ConsumedOnce (outcomes ++ [out]) := by
  constructor
  · intro t
    rw [count_append, count_singleton]
    have hold := h.once t
    split_ifs with heq
    · have hnone := count_eq_zero.2 (hout t (beq_iff_eq.1 heq)).1
      omega
    · omega
  · rw [pairwise_append]
    refine ⟨h.revoked, pairwise_singleton _ _, ?_⟩
    rintro a ha b hb t rfl hbt
    rw [mem_singleton] at hb
    exact (hout t (hb ▸ hbt)).2 ha

end Outcomes

variable {now : Time}

section Requests

variable (env : Env) {db₀ db : EnrollDb} {outcomes : List Outcome}

theorem commits_flush {agent : Statement} (hagent : agent.token = none) :
    Commits (fun ops out => Uses t now ops ∧ out = .enrolled t) []
      (flushTxn env (.useToken t now) agent (.done (.enrolled t))) := by
  have hall : ∀ op, op = .useToken t now ∨ op = agent → op.token = none ∨ op.token = some t := by
    rintro op (rfl | rfl)
    · exact Or.inr rfl
    · exact Or.inl hagent
  unfold flushTxn
  split_ifs
  · exact ⟨⟨by simp, fun op hop => hall op (by simpa using hop)⟩, rfl⟩
  · exact ⟨⟨by simp, fun op hop => hall op (Or.symm (by simpa using hop))⟩, rfl⟩

variable {rawToken rawCredential : String}

/-- The first read of an enrolment: it goes on only with an open token. -/
theorem relies_enroll {next : EnrollDb → T}
    (hnext : .query next = enrollTxn env rawToken now rawCredential) :
    Relies env db (.enroll rawToken now rawCredential) [] (next db) := by
  unfold enrollTxn at hnext
  cases hnext
  dsimp only
  rcases hfind : db.tokens.first fun r => r.tokenHash == env.hashToken rawToken with _ | ⟨t, token⟩
  · exact .idle trivial
  obtain ⟨hrow, hhash⟩ := row_of_first hfind
  dsimp only
  split_ifs with hrevoked hused hexpired
  · exact .idle trivial
  · exact .idle trivial
  · exact .idle trivial
  · refine .enrolling t rawToken now rawCredential rfl ?_ ⟨token, hrow, ?_, ?_⟩ fun db' => ?_
    · rw [EnrollDb.hashOf, hrow, Option.map_some, beq_iff_eq.1 hhash]
    · simpa using hused
    · simpa using hrevoked
    · dsimp only
      split
      · exact commits_flush env rfl
      · exact commits_flush env rfl

theorem relies_revoke {server : ServerId} {next : EnrollDb → T}
    (hnext : .query next = revokeTxn server t now) : Relies env db (.revoke server t now) [] (next db) := by
  unfold revokeTxn at hnext
  cases hnext
  dsimp only
  rcases hrow : db.tokens.row t with _ | token
  · exact .idle trivial
  dsimp only
  split_ifs
  · exact .idle trivial
  · exact .revoking t server now rfl (by rw [hrow]; rfl) ⟨rfl, rfl⟩
  · exact .idle ⟨rfl, rfl⟩

/-- What a commit does to the books. -/
theorem Booked.commit (hb : Booked db₀ db outcomes) {r : Request} {ops : List Statement} {out : Outcome}
    (h : Relies env db r ops (.done out)) : Booked db₀ (schema.view ops db) (outcomes ++ [out]) := by
  have hhashes : ∀ t, (schema.view ops db).hashOf t = db₀.hashOf t := fun t => (hashOf_view db ops).trans (hb.hashes t)
  have hused : ∀ t, .enrolled t ∈ outcomes → (schema.view ops db).Used t := fun t ht => used_view db ops (hb.used t ht)
  have hrevoked : ∀ t, .revoked t ∈ outcomes → (schema.view ops db).Revoked t :=
    fun t ht => revoked_view db ops (hb.revoked t ht)
  cases h with
  | unread hops ht => cases r <;> cases ht
  | idle h =>
    obtain ⟨-, rfl⟩ := h
    refine ⟨hhashes, hb.consumed.snoc (by simp), fun t ht => ?_, fun t ht => ?_⟩
    · exact hused t (by simpa using ht)
    · exact hrevoked t (by simpa using ht)
  | enrolling token rawToken now rawCredential hr hhash hopen h =>
    obtain ⟨⟨hmem, -⟩, rfl⟩ := h
    refine ⟨hhashes, hb.consumed.snoc ?_, fun t ht => ?_, fun t ht => ?_⟩
    · rintro t ⟨⟩
      exact ⟨fun ht => hopen.not_used (hb.used _ ht), fun ht => hopen.not_revoked (hb.revoked _ ht)⟩
    · rcases mem_append.1 ht with ht | ht
      · exact hused t ht
      · obtain ⟨rfl⟩ : t = token := by simpa using ht
        exact used_of_mem db ops (by rw [hhash]; rfl) hmem
    · exact hrevoked t (by simpa using ht)
  | revoking token server now hr hrow h =>
    obtain ⟨rfl, rfl⟩ := h
    refine ⟨hhashes, hb.consumed.snoc (by simp), fun t ht => ?_, fun t ht => ?_⟩
    · exact hused t (by simpa using ht)
    · rcases mem_append.1 ht with ht | ht
      · exact hrevoked t ht
      · obtain ⟨rfl⟩ : t = token := by simpa using ht
        obtain ⟨row, hrow⟩ := Option.isSome_iff_exists.1 hrow
        exact ⟨{ row with revokedAt := some now }, (modify_row_self _ _ _).trans (by rw [hrow]; rfl), rfl⟩

/-- A commit that keeps apart from an enrolment does not write to its token. -/
theorem spares_token (hb : Booked db₀ db outcomes) {r : Request} {ops : List Statement} {out : Outcome}
    (h : Relies env db r ops (.done out)) {token : TokenId}
    (hapart : r.Apart env db₀ (.enroll rawToken now rawCredential))
    (hhash : db.hashOf token = some (env.hashToken rawToken)) : ∀ op ∈ ops, op.token ≠ some token := by
  cases h with
  | unread hops ht => cases r <;> cases ht
  | idle h =>
    obtain ⟨rfl, -⟩ := h
    intro op hop
    cases hop
  | enrolling token' rawToken' now' rawCredential' hr hhash' hopen h =>
    subst hr
    obtain ⟨⟨-, hall⟩, -⟩ := h
    intro op hop htoken
    rcases hall op hop with hnone | hsome
    · rw [hnone] at htoken
      cases htoken
    · obtain rfl : token' = token := Option.some.inj (hsome.symm.trans htoken)
      exact hapart (Option.some.inj (hhash'.symm.trans hhash))
  | revoking token' server now' hr hrow h =>
    subst hr
    obtain ⟨rfl, -⟩ := h
    intro op hop htoken
    rw [mem_singleton] at hop
    subst hop
    obtain rfl : token' = token := Option.some.inj htoken
    exact hapart ((hb.hashes token').symm.trans hhash)

theorem discipline (db₀ : EnrollDb) : Discipline schema (Request.txn env) (Request.Apart env db₀)
    (fun db log => Booked db₀ db (log.map Prod.snd)) (fun db _ => Relies env db) where
  symm h := h.symm
  start _ := .unread rfl rfl
  query hb h := by
    cases h with
    | unread hops ht =>
      subst hops
      rename_i r _
      cases r with
      | enroll rawToken now rawCredential => exact relies_enroll env ht
      | revoke server t now => exact relies_revoke env ht
    | idle h => exact .idle (h _)
    | enrolling token rawToken now rawCredential hr hhash hopen h =>
      exact .enrolling token rawToken now rawCredential hr hhash hopen (h _)
    | revoking token server now hr hrow h => exact .revoking token server now hr hrow (h _)
  exec h := by
    cases h with
    | unread hops ht =>
      rename_i r _ _ _
      cases r <;> cases ht
    | idle h => exact .idle h
    | enrolling token rawToken now rawCredential hr hhash hopen h =>
      exact .enrolling token rawToken now rawCredential hr hhash hopen h
    | revoking token server now hr hrow h => exact .revoking token server now hr hrow h
  commit hb h := by
    rw [map_append]
    exact hb.commit env h
  others {db log r ops a r' ops' t'} hb h hapart h' := by
    cases h' with
    | unread hops ht => exact .unread hops ht
    | idle h' => exact .idle h'
    | enrolling token rawToken now rawCredential hr hhash hopen h' =>
      subst hr
      have hrow := view_token db ops (spares_token env hb h hapart hhash)
      obtain ⟨row, hopen⟩ := hopen
      refine .enrolling token rawToken now rawCredential rfl ((hashOf_view _ _).trans hhash) ?_ h'
      exact ⟨row, hrow.trans hopen.1, hopen.2⟩
    | revoking token server now hr hrow h' =>
      refine .revoking token server now hr ?_ h'
      rw [← hashOf_isSome, hashOf_view, hashOf_isSome]
      exact hrow

end Requests

/-- As long as no enrolment overlaps with another one or with a revocation of its token, a token is consumed at
most once. -/
theorem token_consumed_once (env : Env) (db : EnrollDb) (es : List (Txn.Event Request))
    (hes : Along (EnrollSystem.step env) (Apart (Request.Apart env db)) (Txn.System.start db) es) :
    ConsumedOnce (run (EnrollSystem.step env) (Txn.System.start db) es).outcomes := by
  have hstart : Booked db db [] :=
    ⟨fun t => rfl, ⟨fun t => Nat.zero_le 1, List.Pairwise.nil⟩, fun t ht => (by cases ht), fun t ht => (by cases ht)⟩
  exact ((discipline env db).run hstart es hes).inv.consumed

def plainEnv : Env := ⟨id, true⟩

/-- One server with its agent, and a token for it. -/
def reenrolling : EnrollDb :=
  ⟨Table.empty.insert ⟨0, "t", 100, none, none⟩, Table.empty.insert ⟨0, "1.0", .disconnected, some "old"⟩⟩

/-- An enrolment, then a revocation and another enrolment with the same token. -/
def oneByOne : List (Txn.Event Request) :=
  [.start (.enroll "t" 1 "c"), .step 0, .step 0, .step 0, .step 0, .step 0,
    .start (.revoke 0 0 2), .step 1, .step 1, .start (.enroll "t" 3 "d"), .step 2, .step 2]

theorem token_consumed_once_one_by_one :
    (run (EnrollSystem.step plainEnv) (Txn.System.start reenrolling) oneByOne).outcomes =
        [.enrolled 0, .unchanged] ∧
      ConsumedOnce (run (EnrollSystem.step plainEnv) (Txn.System.start reenrolling) oneByOne).outcomes := by
  have hidle : ∀ {s : EnrollSystem} {e : Txn.Event Request}, s.clients.select (fun _ => true) = [] →
      Apart (Request.Apart plainEnv reenrolling) s e := fun h => Txn.apart_of_idle h _
  refine ⟨by decide +kernel, token_consumed_once plainEnv reenrolling oneByOne ⟨hidle rfl, trivial, trivial, trivial,
    trivial, trivial, hidle (by decide +kernel), trivial, trivial, hidle (by decide +kernel), trivial, trivial,
    trivial⟩⟩

/-- Two enrolments that both read the token before either commits. -/
def twiceAtOnce : List (Txn.Event Request) :=
  [.start (.enroll "t" 1 "c"), .start (.enroll "t" 1 "d"), .step 0, .step 1,
    .step 0, .step 0, .step 0, .step 0, .step 1, .step 1, .step 1, .step 1]

/-- A revocation that commits between the read and the commit of an enrolment. -/
def revokedBetween : List (Txn.Event Request) :=
  [.start (.enroll "t" 1 "c"), .start (.revoke 0 0 1), .step 0, .step 1, .step 1, .step 1,
    .step 0, .step 0, .step 0, .step 0]

/-- On re-enrolment no unique constraint is violated: the token enrols twice, or after its revocation. -/
theorem token_consumed_twice :
    (run (EnrollSystem.step plainEnv) (Txn.System.start reenrolling) twiceAtOnce).outcomes =
        [.enrolled 0, .enrolled 0] ∧
      ¬ ConsumedOnce (run (EnrollSystem.step plainEnv) (Txn.System.start reenrolling) twiceAtOnce).outcomes ∧
      (run (EnrollSystem.step plainEnv) (Txn.System.start reenrolling) revokedBetween).outcomes =
        [.revoked 0, .enrolled 0] ∧
      ¬ ConsumedOnce (run (EnrollSystem.step plainEnv) (Txn.System.start reenrolling) revokedBetween).outcomes := by
  have htwice : (run (EnrollSystem.step plainEnv) (Txn.System.start reenrolling) twiceAtOnce).outcomes =
      [.enrolled 0, .enrolled 0] := by decide +kernel
  have hbetween : (run (EnrollSystem.step plainEnv) (Txn.System.start reenrolling) revokedBetween).outcomes =
      [.revoked 0, .enrolled 0] := by decide +kernel
  refine ⟨htwice, fun h => ?_, hbetween, fun h => ?_⟩
  · rw [htwice] at h
    exact absurd (h.once 0) (by decide)
  · rw [hbetween] at h
    exact (pairwise_cons.1 h.revoked).1 (.enrolled 0) mem_cons_self 0 rfl rfl

end Healer.Enrollment
