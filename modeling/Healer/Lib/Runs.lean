import Mathlib.Tactic

/-! Runs of a machine that takes one event at a time. A run is the list of its events, and a
property of its steps is a relation between the state before a step and the event. -/

namespace Runs

variable {σ ε : Type} {step : σ → ε → σ} {P Q : σ → ε → Prop} {I : σ → Prop}

def run (step : σ → ε → σ) (s : σ) (es : List ε) : σ := es.foldl step s

def Along (step : σ → ε → σ) (P : σ → ε → Prop) : σ → List ε → Prop
  | _, [] => True
  | s, e :: es => P s e ∧ Along step P (step s e) es

instance Along.decidable [∀ s e, Decidable (P s e)] : ∀ s es, Decidable (Along step P s es)
  | _, [] => inferInstanceAs (Decidable True)
  | s, e :: es =>
    have := Along.decidable (step s e) es
    inferInstanceAs (Decidable (P s e ∧ Along step P (step s e) es))

/-- An invariant of the steps that `P` allows is one of the runs. -/
theorem invariant (hstep : ∀ s e, I s → P s e → I (step s e)) (es : List ε) :
    ∀ s, I s → Along step P s es → I (run step s es) := by
  induction es with
  | nil => intro s h _; exact h
  | cons e es ih =>
    intro s h hes
    exact ih _ (hstep s e h hes.1) hes.2

/-- An invariant of every step is one of every run. -/
theorem stable (hstep : ∀ s e, I s → I (step s e)) (es : List ε) : ∀ s, I s → I (run step s es) := by
  induction es with
  | nil => intro s h; exact h
  | cons e es ih =>
    intro s h
    exact ih _ (hstep s e h)

/-- What an invariant gives at one step, it gives at every step of a run. -/
theorem along (hstep : ∀ s e, I s → P s e → I (step s e)) (hQ : ∀ s e, I s → P s e → Q s e)
    (es : List ε) : ∀ s, I s → Along step P s es → Along step Q s es := by
  induction es with
  | nil => intro s _ _; trivial
  | cons e es ih =>
    intro s h hes
    exact ⟨hQ s e h hes.1, ih _ (hstep s e h hes.1) hes.2⟩

/-- The same where the steps are free. -/
theorem always (hstep : ∀ s e, I s → I (step s e)) (hQ : ∀ s e, I s → Q s e) (es : List ε) :
    ∀ s, I s → Along step Q s es := by
  induction es with
  | nil => intro s _; trivial
  | cons e es ih =>
    intro s h
    exact ⟨hQ s e h, ih _ (hstep s e h)⟩

theorem along_concat (e : ε) (es : List ε) :
    ∀ s, Along step P s (es ++ [e]) ↔ Along step P s es ∧ P (run step s es) e := by
  induction es with
  | nil => intro s; simp [Along, run]
  | cons d es ih =>
    intro s
    simp only [List.cons_append, Along, ih, and_assoc]
    exact Iff.rfl

theorem along_congr (h : ∀ s e, P s e ↔ Q s e) (es : List ε) :
    ∀ s, Along step P s es ↔ Along step Q s es := by
  induction es with
  | nil => intro s; exact Iff.rfl
  | cons e es ih => intro s; exact and_congr (h s e) (ih _)

/-- A property holds after every step of a run iff every step meets the condition under which it is kept. -/
theorem along_kept_iff (hstep : ∀ s e, I s → P s e → (I (step s e) ↔ Q s e)) (es : List ε) :
    ∀ s, I s → Along step P s es → (Along step (fun s e => I (step s e)) s es ↔ Along step Q s es) := by
  induction es with
  | nil => intro s _ _; exact Iff.rfl
  | cons e es ih =>
    intro s h hes
    constructor
    · rintro ⟨hI, hrest⟩
      exact ⟨(hstep s e h hes.1).1 hI, (ih _ hI hes.2).1 hrest⟩
    · rintro ⟨hQ, hrest⟩
      have hI := (hstep s e h hes.1).2 hQ
      exact ⟨hI, (ih _ hI hes.2).2 hrest⟩

end Runs
