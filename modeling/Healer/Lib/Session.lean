import Healer.Lib.Prog

/-! A database session: what has been committed, and the session's own view with the writes it has
flushed since. A scope opens a session for one program, commits when the program returns and rolls
back when it raises. -/

structure Session (δ : Type) where
  committed : δ
  working : δ

namespace Session

variable {δ ε α : Type} {P : δ → Prop} {m : Prog (Session δ) ε α}

def start (db : δ) : Session δ := ⟨db, db⟩

def commit : Prog (Session δ) ε Unit := .update fun s => ⟨s.working, s.working⟩

def get (f : δ → α) : Prog (Session δ) ε α := .read fun s => f s.working

def flush (f : δ → δ) : Prog (Session δ) ε Unit := .update fun s => ⟨s.committed, f s.working⟩

def scope (m : Prog (Session δ) ε α) (db : δ) : Except ε α × δ :=
  match m (start db) with
  | (.ok a, s) => (.ok a, s.working)
  | (.error e, s) => (.error e, s.committed)

/-- Both views satisfy `P`. -/
def Both (P : δ → Prop) (s : Session δ) : Prop := P s.committed ∧ P s.working

theorem keeps_get_bind {β : Type} {f : δ → α} {g : α → Prog (Session δ) ε β}
    (hg : ∀ db, P db → Prog.Keeps (Both P) (g (f db))) : Prog.Keeps (Both P) (get f >>= g) :=
  Prog.keeps_read_bind fun s hs => hg s.working hs.2

theorem keeps_flush {f : δ → δ} (hf : ∀ db, P db → P (f db)) :
    Prog.Keeps (Both P) (flush f : Prog (Session δ) ε Unit) :=
  Prog.keeps_update fun s hs => ⟨hs.1, hf s.working hs.2⟩

theorem keeps_commit : Prog.Keeps (Both P) (commit : Prog (Session δ) ε Unit) :=
  Prog.keeps_update fun _ hs => ⟨hs.2, hs.2⟩

/-- What a program keeps in both views, its scope keeps in the database. -/
theorem scope_keeps (hm : Prog.Keeps (Both P) m) {db : δ} (h : P db) :
    P (scope m db).2 := by
  have hend := hm (start db) ⟨h, h⟩
  unfold scope
  rcases hr : m (start db) with ⟨e | a, s⟩
  · rw [hr] at hend
    exact hend.1
  · rw [hr] at hend
    exact hend.2

/-- A program that commits only what satisfies `P`, or leaves the database as it was. -/
theorem scope_cases {db : δ}
    (h : Prog.Ends (m (start db)) (fun _ s => P s.working) fun _ s => s.committed = db ∨ P s.committed) :
    (scope m db).2 = db ∨ P (scope m db).2 := by
  unfold scope
  rcases hr : m (start db) with ⟨e | a, s⟩
  · rw [hr] at h
    exact h
  · rw [hr] at h
    exact Or.inr h

/-- A program that raises before any commit has changed nothing. -/
theorem scope_raised {db : δ}
    (h : Prog.Ends (m (start db)) (fun _ _ => False) fun _ s => s.committed = db) :
    (∃ e, (scope m db).1 = .error e) ∧ (scope m db).2 = db := by
  unfold scope
  rcases hr : m (start db) with ⟨e | a, s⟩
  · rw [hr] at h
    exact ⟨⟨e, rfl⟩, h⟩
  · rw [hr] at h
    exact h.elim

end Session
