import Mathlib.Tactic

/-! Programs over a state. A run ends with a value or with an exception and keeps
the state it reached either way, as a Python function does with its database
session. `Ends` is the weakest precondition of one run from one state, so a
specification may speak of the state before and the state after together. -/

def Prog (σ ε α : Type) : Type := σ → Except ε α × σ

namespace Prog

open List

variable {σ ε α β : Type}

instance : Monad (Prog σ ε) where
  pure a := fun s => (.ok a, s)
  bind m f := fun s =>
    match m s with
    | (.ok a, s') => f a s'
    | (.error e, s') => (.error e, s')

def raise (e : ε) : Prog σ ε α := fun s => (.error e, s)

def read (f : σ → α) : Prog σ ε α := fun s => (.ok (f s), s)

def update (f : σ → σ) : Prog σ ε Unit := fun s => (.ok (), f s)

/-- `try: m` with every exception handed to the caller as a value. -/
def attempt (m : Prog σ ε α) : Prog σ ε (Except ε α) := fun s => (.ok (m s).1, (m s).2)

/-- `for x in xs: f x`. -/
def each (f : β → Prog σ ε Unit) : List β → Prog σ ε Unit
  | [] => pure ()
  | x :: xs => do f x; each f xs

section Run

variable {m : Prog σ ε α} {f : α → Prog σ ε β} {s s' : σ} {xs : List β}

theorem run_read_bind (g : σ → α) (f : α → Prog σ ε β) (s : σ) : (read g >>= f) s = f (g s) s := rfl

theorem run_update_bind (g : σ → σ) (f : Unit → Prog σ ε β) (s : σ) :
    (update g >>= f) s = f () (g s) := rfl

theorem run_attempt_bind (m : Prog σ ε α) (f : Except ε α → Prog σ ε β) (s : σ) :
    (attempt m >>= f) s = f (m s).1 (m s).2 := rfl

theorem run_bind_ok {a : α} (h : m s = (.ok a, s')) : (m >>= f) s = f a s' := by
  simp only [bind, h]

theorem run_bind_error {e : ε} (h : m s = (.error e, s')) : (m >>= f) s = (.error e, s') := by
  simp only [bind, h]

theorem bind_bind {γ : Type} (m : Prog σ ε α) (f : α → Prog σ ε β) (g : β → Prog σ ε γ) :
    (m >>= f) >>= g = m >>= fun a => f a >>= g := by
  funext s
  rcases h : m s with ⟨e | a, s'⟩
  · rw [run_bind_error h, run_bind_error (run_bind_error h)]
  · rw [run_bind_ok h]
    simp only [bind, h]

theorem bind_unit (m : Prog σ ε Unit) : (m >>= fun _ => pure ()) = m := by
  funext s
  rcases h : m s with ⟨e | a, s'⟩
  · rw [run_bind_error h]
  · rw [run_bind_ok h]
    rfl

theorem each_append (f : β → Prog σ ε Unit) (xs ys : List β) : each f (xs ++ ys) = each f xs >>= fun _ => each f ys := by
  induction xs with
  | nil => rfl
  | cons x xs ih =>
    rw [cons_append, each, each, ih, bind_bind]

/-- A loop of which no turn changes the state. -/
theorem each_idle {f : β → Prog σ ε Unit} (h : ∀ x ∈ xs, f x s = (.ok (), s)) :
    each f xs s = (.ok (), s) := by
  induction xs with
  | nil => rfl
  | cons x xs ih =>
    rw [each, run_bind_ok (h x mem_cons_self)]
    exact ih fun y hy => h y (mem_cons_of_mem x hy)

theorem state_bind_pure (m : Prog σ ε α) (g : α → β) (s : σ) :
    ((m >>= fun a => pure (g a)) s).2 = (m s).2 := by
  rcases h : m s with ⟨e | a, s'⟩
  · rw [run_bind_error h]
  · rw [run_bind_ok h]
    rfl

/-- The run raises before it has changed anything. -/
def Refuses (m : Prog σ ε α) (s : σ) : Prop := ∃ e, m s = (.error e, s)

theorem Refuses.bind (h : Refuses m s) (f : α → Prog σ ε β) : Refuses (m >>= f) s := by
  obtain ⟨e, he⟩ := h
  exact ⟨e, run_bind_error he⟩

end Run

/-- How a run ends: with a value and a state in `Q`, or with an exception and a state in `E`. -/
def Ends (r : Except ε α × σ) (Q : α → σ → Prop) (E : ε → σ → Prop) : Prop :=
  match r with
  | (.ok a, s) => Q a s
  | (.error e, s) => E e s

section Rules

variable {m : Prog σ ε α} {s : σ} {Q Q' : α → σ → Prop} {E E' : ε → σ → Prop} {f : α → Prog σ ε β} {P : σ → Prop}

@[simp] theorem ends_ok (a : α) (s : σ) : Ends (.ok a, s) Q E ↔ Q a s := Iff.rfl

@[simp] theorem ends_error (e : ε) (s : σ) : Ends (.error e, s) Q E ↔ E e s := Iff.rfl

@[simp] theorem ends_pure (a : α) : Ends ((pure a : Prog σ ε α) s) Q E ↔ Q a s := Iff.rfl

@[simp] theorem ends_raise (e : ε) : Ends ((raise e : Prog σ ε α) s) Q E ↔ E e s := Iff.rfl

@[simp] theorem ends_read (f : σ → α) : Ends ((read f : Prog σ ε α) s) Q E ↔ Q (f s) s := Iff.rfl

@[simp] theorem ends_update (f : σ → σ) {Q : Unit → σ → Prop} :
    Ends ((update f : Prog σ ε Unit) s) Q E ↔ Q () (f s) := Iff.rfl

@[simp] theorem ends_bind (f : α → Prog σ ε β) {Q : β → σ → Prop} :
    Ends ((m >>= f) s) Q E ↔ Ends (m s) (fun a s' => Ends (f a s') Q E) E := by
  change Ends (match m s with | (.ok a, s') => f a s' | (.error e, s') => (.error e, s')) Q E ↔ _
  rcases m s with ⟨_ | _, _⟩ <;> rfl

@[simp] theorem ends_attempt {Q : Except ε α → σ → Prop} :
    Ends (attempt m s) Q E ↔ Ends (m s) (fun a => Q (.ok a)) (fun e => Q (.error e)) := by
  unfold attempt
  rcases m s with ⟨_ | _, _⟩ <;> rfl

@[simp] theorem ends_ite (p : Prop) [Decidable p] (m' : Prog σ ε α) :
    Ends ((if p then m else m') s) Q E ↔
      (p → Ends (m s) Q E) ∧ (¬p → Ends (m' s) Q E) := by
  split_ifs with h <;> simp [h]

theorem Ends.mono (h : Ends (m s) Q E) (hQ : ∀ a s', Q a s' → Q' a s')
    (hE : ∀ e s', E e s' → E' e s') : Ends (m s) Q' E' := by
  rcases hr : m s with ⟨e | a, s'⟩
  · rw [hr] at h; exact hE e s' h
  · rw [hr] at h; exact hQ a s' h

/-- Sequencing with a specification of the first program. -/
theorem Ends.bind {Q : β → σ → Prop} (h : Ends (m s) Q' E')
    (hQ : ∀ a s', Q' a s' → Ends (f a s') Q E) (hE : ∀ e s', E' e s' → E e s') :
    Ends ((m >>= f) s) Q E :=
  (ends_bind f).2 (h.mono hQ hE)

/-- Both postconditions of one run. -/
theorem Ends.and (h : Ends (m s) Q E) (h' : Ends (m s) Q' E') :
    Ends (m s) (fun a t => Q a t ∧ Q' a t) (fun e t => E e t ∧ E' e t) := by
  rcases hr : m s with ⟨e | a, s'⟩
  · rw [hr] at h h'; exact ⟨h, h'⟩
  · rw [hr] at h h'; exact ⟨h, h'⟩

theorem Ends.ok {a : α} {s' : σ} (h : Ends (m s) Q E) (hr : m s = (.ok a, s')) : Q a s' := by
  rw [hr] at h; exact h

theorem Ends.error {e : ε} {s' : σ} (h : Ends (m s) Q E) (hr : m s = (.error e, s')) : E e s' := by
  rw [hr] at h; exact h

/-- A fact about the state alone, whichever way the run ends. -/
theorem Ends.state (h : Ends (m s) (fun _ => P) (fun _ => P)) : P (m s).2 := by
  rcases hr : m s with ⟨e | a, s'⟩ <;> rw [hr] at h <;> exact h

/-- A relation between the outcome and the state. -/
theorem Ends.result {R : Except ε α → σ → Prop}
    (h : Ends (m s) (fun a s' => R (.ok a) s') fun e s' => R (.error e) s') : R (m s).1 (m s).2 := by
  rcases hr : m s with ⟨e | a, s'⟩ <;> rw [hr] at h <;> exact h

theorem ends_of_state (h : P (m s).2) : Ends (m s) (fun _ => P) (fun _ => P) := by
  rcases hr : m s with ⟨e | a, s'⟩ <;> rw [hr] at h <;> exact h

/-- The rule of a loop over a list: `I` holds of the elements still to come. -/
theorem ends_each {f : β → Prog σ ε Unit} {I : List β → σ → Prop} {E : ε → σ → Prop}
    (hstep : ∀ x xs s, I (x :: xs) s → Ends (f x s) (fun _ => I xs) E) :
    ∀ (xs : List β) (s : σ), I xs s → Ends (each f xs s) (fun _ => I []) E := by
  intro xs
  induction xs with
  | nil => intro s h; exact h
  | cons x xs ih =>
    intro s h
    exact Ends.bind (hstep x xs s h) (fun _ s' h' => ih s' h') (fun _ _ h' => h')

/-- A loop over distinct elements whose turns each write only what they read: every turn finds its
own part of the state as it was before the loop. -/
theorem state_each {xs : List β} {γ : Type} (view : σ → β → γ) {f : β → Prog σ ε Unit}
    (hnodup : xs.Nodup) (hP : P s)
    (hf : ∀ x ∈ xs, ∀ t, view t x = view s x → P t →
      P (f x t).2 ∧ ∀ y, y ≠ x → view (f x t).2 y = view t y) :
    P (each f xs s).2 := by
  have h := ends_each (f := f) (E := fun _ => P)
    (I := fun ys t => P t ∧ ys.Nodup ∧ ∀ y ∈ ys, y ∈ xs ∧ view t y = view s y)
    (fun x ys t ⟨ht, hys, hview⟩ => by
      obtain ⟨hx, hviewx⟩ := hview x mem_cons_self
      obtain ⟨hP', hothers⟩ := hf x hx t hviewx ht
      obtain ⟨hnotmem, hys'⟩ := nodup_cons.1 hys
      refine (ends_of_state (P := fun t' => P t' ∧ ys.Nodup ∧ ∀ y ∈ ys, y ∈ xs ∧ view t' y = view s y)
        ⟨hP', hys', ?_⟩).mono (fun _ _ h => h) (fun _ _ h => h.1)
      intro y hy
      obtain ⟨hyx, hviewy⟩ := hview y (mem_cons_of_mem _ hy)
      have hne : y ≠ x := by
        rintro rfl
        exact hnotmem hy
      exact ⟨hyx, (hothers y hne).trans hviewy⟩)
    xs s ⟨hP, hnodup, fun y hy => ⟨hy, rfl⟩⟩
  exact (h.mono (fun _ _ h => h.1) (fun _ _ h => h)).state

/-- A loop that takes every selected element out of the selection. -/
theorem ends_sweep {xs : List β} {f : β → Prog σ ε Unit} {S : σ → β → Prop}
    (hturn : ∀ x s, P s → S s x →
      Ends (f x s) (fun _ s' => P s' ∧ ∀ y, S s' y ↔ S s y ∧ y ≠ x) fun _ _ => False)
    (hnodup : xs.Nodup) (hP : P s) (hsel : ∀ y, S s y ↔ y ∈ xs) :
    Ends (each f xs s) (fun _ s' => P s' ∧ ∀ y, ¬ S s' y) fun _ _ => False := by
  refine (ends_each (I := fun ys t => P t ∧ ys.Nodup ∧ ∀ y, S t y ↔ y ∈ ys) ?_ xs s
    ⟨hP, hnodup, hsel⟩).mono ?_ fun _ _ h => h
  · rintro x ys t ⟨ht, hys, hmem⟩
    obtain ⟨hnot, hys'⟩ := nodup_cons.1 hys
    refine (hturn x t ht ((hmem x).2 mem_cons_self)).mono ?_ fun _ _ h => h
    rintro _ t' ⟨ht', hsel'⟩
    refine ⟨ht', hys', fun y => ?_⟩
    rw [hsel', hmem, mem_cons]
    constructor
    · rintro ⟨rfl | hy, hne⟩
      · exact absurd rfl hne
      · exact hy
    · intro hy
      refine ⟨Or.inr hy, ?_⟩
      rintro rfl
      exact hnot hy
  · rintro _ t ⟨ht, -, hmem⟩
    exact ⟨ht, fun y hy => absurd ((hmem y).1 hy) not_mem_nil⟩

end Rules

/-- Every run of `m` from a state in `P` stays in `P`, whichever way it ends. -/
def Keeps (P : σ → Prop) (m : Prog σ ε α) : Prop := ∀ s, P s → P (m s).2

section Keeps

variable {P : σ → Prop} {m : Prog σ ε α}

theorem Keeps.ends (h : Keeps P m) {s : σ} (hs : P s) : Ends (m s) (fun _ => P) (fun _ => P) :=
  ends_of_state (h s hs)

theorem keeps_of_ends (h : ∀ s, P s → Ends (m s) (fun _ => P) (fun _ => P)) : Keeps P m :=
  fun s hs => (h s hs).state

theorem keeps_pure (a : α) : Keeps P (pure a : Prog σ ε α) := fun _ hs => hs

theorem keeps_raise (e : ε) : Keeps P (raise e : Prog σ ε α) := fun _ hs => hs

theorem keeps_read (f : σ → α) : Keeps P (read f : Prog σ ε α) := fun _ hs => hs

theorem keeps_update {f : σ → σ} (hf : ∀ s, P s → P (f s)) : Keeps P (update f : Prog σ ε Unit) := hf

theorem keeps_bind {f : α → Prog σ ε β} (hm : Keeps P m) (hf : ∀ a, Keeps P (f a)) :
    Keeps P (m >>= f) :=
  keeps_of_ends fun _ hs => (hm.ends hs).bind (fun a _ hs' => (hf a).ends hs') (fun _ _ h => h)

/-- What is read may be used to show that the rest keeps `P`. -/
theorem keeps_read_bind {f : α → Prog σ ε β} {g : σ → α} (hf : ∀ s, P s → Keeps P (f (g s))) :
    Keeps P (read g >>= f) :=
  fun s hs => hf s hs s hs

theorem keeps_attempt (hm : Keeps P m) : Keeps P (attempt m) := fun s hs => hm s hs

theorem keeps_ite {p : Prop} [Decidable p] {m' : Prog σ ε α} (hm : p → Keeps P m)
    (hm' : ¬ p → Keeps P m') : Keeps P (if p then m else m') := by
  by_cases hp : p
  · rw [if_pos hp]; exact hm hp
  · rw [if_neg hp]; exact hm' hp

theorem keeps_each {xs : List β} {f : β → Prog σ ε Unit} (hf : ∀ x ∈ xs, Keeps P (f x)) :
    Keeps P (each f xs) := by
  induction xs with
  | nil => exact keeps_pure ()
  | cons x xs ih =>
    exact keeps_bind (hf x mem_cons_self) fun _ => ih fun y hy => hf y (mem_cons_of_mem _ hy)

end Keeps

end Prog
