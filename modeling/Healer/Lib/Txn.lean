import Healer.Lib.Runs
import Healer.Lib.Table

/-! Transactions at READ COMMITTED. A client reads the latest committed rows under its own writes. A write
waits while another open transaction has written the same row or the same unique value, and then applies to
the rows as they are by then. So the writes of an open transaction may be kept as a list and applied when
it commits. -/

/-- One transaction, statement by statement, from here to its end. -/
inductive Txn (δ ω α : Type)
  | done (a : α)
  | abort
  | query (next : δ → Txn δ ω α)
  | exec (op : ω) (next : Txn δ ω α)

namespace Txn

open Table

/-- What a statement does, unless it violates a constraint, and the rows and unique values it locks. -/
structure Schema (δ ω κ : Type) where
  apply : ω → δ → Option δ
  locks : ω → List κ

structure Client (δ ω α ρ : Type) where
  request : ρ
  written : List ω
  rest : Txn δ ω α

/-- The committed database, the open transactions, and the requests that have committed with their results. -/
structure System (δ ω α ρ : Type) where
  committed : δ
  clients : Table (Client δ ω α ρ)
  log : List (ρ × α)

inductive Event (ρ : Type)
  | start (r : ρ)
  /-- The next statement of a client, or its commit. -/
  | step (c : ℕ)
  /-- A deadlock or a lost connection. -/
  | kill (c : ℕ)

variable {δ ω κ α ρ : Type} [DecidableEq κ]

namespace Schema

variable (S : Schema δ ω κ)

/-- The rows that a transaction with these writes sees. -/
def view (ops : List ω) (db : δ) : δ := ops.foldl (fun db op => (S.apply op db).getD db) db

/-- Two statements that wait for each other. -/
def clash (op op' : ω) : Bool := (S.locks op).any fun k => (S.locks op').contains k

/-- Another open transaction has written what `op` is to write. -/
def blocked (s : System δ ω α ρ) (c : ℕ) (op : ω) : Bool :=
  (s.clients.select fun t => t.written.any (S.clash op)).any (· != c)

/-- A client without its next statement; `none` when it is over. -/
def advance (s : System δ ω α ρ) (c : ℕ) (t : Client δ ω α ρ) : System δ ω α ρ :=
  match t.rest with
  | .done a => ⟨S.view t.written s.committed, s.clients.erase c, s.log ++ [(t.request, a)]⟩
  | .abort => { s with clients := s.clients.erase c }
  | .query next => { s with clients := s.clients.modify c fun t =>
      { t with rest := next (S.view t.written s.committed) } }
  | .exec op next =>
    if S.blocked s c op then s
    else
      match S.apply op (S.view t.written s.committed) with
      | none => { s with clients := s.clients.erase c }
      | some _ => { s with clients := s.clients.modify c fun t => { t with written := t.written ++ [op], rest := next } }

def step (program : ρ → Txn δ ω α) (s : System δ ω α ρ) : Event ρ → System δ ω α ρ
  | .start r => { s with clients := s.clients.insert ⟨r, [], program r⟩ }
  | .step c =>
    match s.clients.row c with
    | none => s
    | some t => S.advance s c t
  | .kill c => { s with clients := s.clients.erase c }

end Schema

def System.start (db : δ) : System δ ω α ρ := ⟨db, Table.empty, []⟩

/-- A transaction with nobody beside it. -/
def alone (S : Schema δ ω κ) (db : δ) : (ops : List ω) → Txn δ ω α → Option α × δ
  | ops, .done a => (some a, S.view ops db)
  | _, .abort => (none, db)
  | ops, .query next => alone S db ops (next (S.view ops db))
  | ops, .exec op next =>
    match S.apply op (S.view ops db) with
    | none => (none, db)
    | some _ => alone S db (ops ++ [op]) next

/-- Every list of writes that the transaction can commit, after those already made, satisfies `Q`. -/
def Commits (Q : List ω → α → Prop) : (ops : List ω) → Txn δ ω α → Prop
  | ops, .done a => Q ops a
  | _, .abort => True
  | ops, .query next => ∀ db, Commits Q ops (next db)
  | ops, .exec op next => Commits Q (ops ++ [op]) next

/-! ## Requests that keep apart -/

/-- A way to reason about interleaved transactions: `I` is what holds of the committed rows and the log, `P`
is what an open transaction has come to rely on, and `compat` says which requests may be open together. -/
structure Discipline (S : Schema δ ω κ) (program : ρ → Txn δ ω α) (compat : ρ → ρ → Prop)
    (I : δ → List (ρ × α) → Prop) (P : δ → List (ρ × α) → ρ → List ω → Txn δ ω α → Prop) : Prop where
  symm : ∀ {r r'}, compat r r' → compat r' r
  start : ∀ {db log r}, I db log → P db log r [] (program r)
  query : ∀ {db log r ops next}, I db log → P db log r ops (.query next) → P db log r ops (next (S.view ops db))
  exec : ∀ {db log r ops op next}, P db log r ops (.exec op next) → P db log r (ops ++ [op]) next
  commit : ∀ {db log r ops a}, I db log → P db log r ops (.done a) → I (S.view ops db) (log ++ [(r, a)])
  /-- The commit of one leaves the others what they rely on. -/
  others : ∀ {db log r ops a r' ops' t'}, I db log → P db log r ops (.done a) → compat r r' →
    P db log r' ops' t' → P (S.view ops db) (log ++ [(r, a)]) r' ops' t'

/-- A request starts only beside requests that it is compatible with. -/
def Apart (compat : ρ → ρ → Prop) (s : System δ ω α ρ) : Event ρ → Prop
  | .start r => ∀ c t, s.clients.row c = some t → compat r t.request
  | _ => True

theorem apart_of_idle {compat : ρ → ρ → Prop} {s : System δ ω α ρ} (h : s.clients.select (fun _ => true) = [])
    (e : Event ρ) : Apart compat s e := by
  cases e with
  | start r =>
    intro c t ht
    have hfalse := select_eq_nil.1 h c t ht
    cases hfalse
  | step c => trivial
  | kill c => trivial

structure Holds (compat : ρ → ρ → Prop) (I : δ → List (ρ × α) → Prop)
    (P : δ → List (ρ × α) → ρ → List ω → Txn δ ω α → Prop) (s : System δ ω α ρ) : Prop where
  inv : I s.committed s.log
  relies : ∀ c t, s.clients.row c = some t → P s.committed s.log t.request t.written t.rest
  apart : ∀ c c' t t', s.clients.row c = some t → s.clients.row c' = some t' → c ≠ c' → compat t.request t'.request

section Rule

variable {S : Schema δ ω κ} {program : ρ → Txn δ ω α} {compat : ρ → ρ → Prop} {I : δ → List (ρ × α) → Prop}
  {P : δ → List (ρ × α) → ρ → List ω → Txn δ ω α → Prop} {s : System δ ω α ρ}

theorem Holds.erase (h : Holds compat I P s) (c : ℕ) : Holds compat I P { s with clients := s.clients.erase c } := by
  refine ⟨h.inv, fun d t ht => ?_, fun d d' t t' ht ht' => ?_⟩
  · exact h.relies d t (erase_row_cases ht).2
  · exact h.apart d d' t t' (erase_row_cases ht).2 (erase_row_cases ht').2

/-- One client goes on, and its request stays the same. -/
theorem Holds.modify (h : Holds compat I P s) {c : ℕ} {t : Client δ ω α ρ} (ht : s.clients.row c = some t)
    {f : Client δ ω α ρ → Client δ ω α ρ} (hreq : (f t).request = t.request)
    (hf : P s.committed s.log (f t).request (f t).written (f t).rest) :
    Holds compat I P { s with clients := s.clients.modify c f } := by
  have hold : ∀ d u, (s.clients.modify c f).row d = some u →
      ∃ u₀, s.clients.row d = some u₀ ∧ u.request = u₀.request ∧ (u = f t ∨ u = u₀) := by
    intro d u hu
    rcases modify_row_cases hu with ⟨t', rfl, ht', rfl⟩ | hu
    · obtain rfl : t = t' := by rw [ht] at ht'; exact Option.some.inj ht'
      exact ⟨t, ht, hreq, Or.inl rfl⟩
    · exact ⟨u, hu, rfl, Or.inr rfl⟩
  refine ⟨h.inv, fun d u hu => ?_, fun d d' u u' hu hu' hne => ?_⟩
  · obtain ⟨u₀, hu₀, -, rfl | rfl⟩ := hold d u hu
    · exact hf
    · exact h.relies d u hu₀
  · obtain ⟨u₀, hu₀, hr, -⟩ := hold d u hu
    obtain ⟨u₁, hu₁, hr', -⟩ := hold d' u' hu'
    rw [hr, hr']
    exact h.apart d d' u₀ u₁ hu₀ hu₁ hne

theorem Holds.advance (D : Discipline S program compat I P) (h : Holds compat I P s) {c : ℕ}
    {t : Client δ ω α ρ} (ht : s.clients.row c = some t) : Holds compat I P (S.advance s c t) := by
  have hrelies := h.relies c t ht
  unfold Schema.advance
  cases hrest : t.rest with
  | done a =>
    rw [hrest] at hrelies
    refine ⟨D.commit h.inv hrelies, fun d u hu => ?_, fun d d' u u' hu hu' => ?_⟩
    · obtain ⟨hne, hu⟩ := erase_row_cases hu
      exact D.others h.inv hrelies (h.apart c d t u ht hu (Ne.symm hne)) (h.relies d u hu)
    · exact h.apart d d' u u' (erase_row_cases hu).2 (erase_row_cases hu').2
  | abort => exact h.erase c
  | query next =>
    rw [hrest] at hrelies
    exact h.modify ht rfl (D.query h.inv hrelies)
  | exec op next =>
    rw [hrest] at hrelies
    dsimp only
    split_ifs
    · exact h
    · cases S.apply op (S.view t.written s.committed) with
      | none => exact h.erase c
      | some db => exact h.modify ht rfl (D.exec hrelies)

theorem Holds.step (D : Discipline S program compat I P) (h : Holds compat I P s) (e : Event ρ)
    (he : Apart compat s e) : Holds compat I P (S.step program s e) := by
  cases e with
  | start r =>
    refine ⟨h.inv, fun d u hu => ?_, fun d d' u u' hu hu' hne => ?_⟩
    · rcases insert_row_cases hu with ⟨-, rfl⟩ | hu
      · exact D.start h.inv
      · exact h.relies d u hu
    · rcases insert_row_cases hu with ⟨hd, rfl⟩ | hu <;> rcases insert_row_cases hu' with ⟨hd', rfl⟩ | hu'
      · exact absurd (hd.trans hd'.symm) hne
      · exact he d' u' hu'
      · exact D.symm (he d u hu)
      · exact h.apart d d' u u' hu hu' hne
  | step c =>
    simp only [Schema.step]
    rcases ht : s.clients.row c with _ | t
    · exact h
    · exact h.advance D ht
  | kill c => exact h.erase c

/-- In every run of compatible requests the invariant holds. -/
theorem Discipline.run (D : Discipline S program compat I P) {db : δ} (h0 : I db []) (es : List (Event ρ))
    (hes : Runs.Along (S.step program) (Apart compat) (System.start db) es) :
    Holds compat I P (Runs.run (S.step program) (System.start db) es) := by
  have hstart : Holds compat I P (System.start db) :=
    ⟨h0, fun c t ht => (by cases ht), fun c c' t t' ht => (by cases ht)⟩
  exact Runs.invariant (fun s e h he => h.step D e he) es _ hstart hes

end Rule

end Txn
