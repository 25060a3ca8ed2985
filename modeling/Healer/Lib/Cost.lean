import Healer.Lib.Prog

/-! Counters of a state that programs raise. A bound gives each counter a number; bounds add up along a
program. -/

namespace Prog

variable {κ σ ε α β : Type} {c : κ → σ → ℕ} {b b' : κ → ℕ} {m : Prog σ ε α} {f : α → Prog σ ε β}

/-- From `s` to `s'` each counter `k` has grown by at most `b k`. -/
def Within (c : κ → σ → ℕ) (b : κ → ℕ) (s s' : σ) : Prop := ∀ k, c k s ≤ c k s' ∧ c k s' ≤ c k s + b k

theorem within_of_eq {s s' : σ} (h : ∀ k, c k s' = c k s) : Within c b s s' :=
  fun k => ⟨(h k).ge, (h k).le.trans (Nat.le_add_right _ _)⟩

theorem Within.refl (s : σ) : Within c b s s := within_of_eq fun _ => rfl

theorem Within.mono {s s' : σ} (h : Within c b s s') (hb : ∀ k, b k ≤ b' k) : Within c b' s s' :=
  fun k => ⟨(h k).1, (h k).2.trans (Nat.add_le_add_left (hb k) _)⟩

theorem Within.trans {s s' s'' : σ} (h : Within c b s s') (h' : Within c b' s' s'') :
    Within c (b + b') s s'' := by
  intro k
  have h1 := h k
  have h2 := h' k
  rw [Pi.add_apply]
  omega

theorem Within.free_trans {s s' s'' : σ} (h : Within c 0 s s') (h' : Within c b s' s'') :
    Within c b s s'' := by
  have ht := h.trans h'
  rwa [zero_add] at ht

theorem Within.trans_free {s s' s'' : σ} (h : Within c b s s') (h' : Within c 0 s' s'') :
    Within c b s s'' := by
  have ht := h.trans h'
  rwa [add_zero] at ht

/-- Every run of `m` stays within `b`, whichever way it ends. -/
def Spends (c : κ → σ → ℕ) (b : κ → ℕ) (m : Prog σ ε α) : Prop := ∀ s, Within c b s (m s).2

theorem Spends.mono (h : Spends c b m) (hb : ∀ k, b k ≤ b' k) : Spends c b' m :=
  fun s => (h s).mono hb

theorem Spends.ends (h : Spends c b m) (s : σ) :
    Ends (m s) (fun _ => Within c b s) (fun _ => Within c b s) :=
  ends_of_state (h s)

theorem spends_pure (a : α) : Spends c b (pure a : Prog σ ε α) := fun s => Within.refl s

theorem spends_raise (e : ε) : Spends c b (raise e : Prog σ ε α) := fun s => Within.refl s

theorem spends_read (f : σ → α) : Spends c b (read f : Prog σ ε α) := fun s => Within.refl s

theorem spends_bind (hm : Spends c b m)
    (hf : ∀ a, Spends c b' (f a)) : Spends c (b + b') (m >>= f) := by
  intro s
  have h1 := hm s
  rcases hr : m s with ⟨e | a, s'⟩
  · rw [hr] at h1
    rw [run_bind_error hr]
    exact h1.mono fun k => Nat.le_add_right _ _
  · rw [hr] at h1
    rw [run_bind_ok hr]
    exact h1.trans (hf a s')

/-- A first part that raises no counter. -/
theorem free_bind (hm : Spends c 0 m)
    (hf : ∀ a, Spends c b (f a)) : Spends c b (m >>= f) := by
  have h := spends_bind hm hf
  rwa [zero_add] at h

/-- A last part that raises no counter. -/
theorem bind_free (hm : Spends c b m)
    (hf : ∀ a, Spends c 0 (f a)) : Spends c b (m >>= f) := by
  have h := spends_bind hm hf
  rwa [add_zero] at h

theorem spends_ite {p : Prop} [Decidable p] {m m' : Prog σ ε α} (hm : p → Spends c b m)
    (hm' : ¬ p → Spends c b m') : Spends c b (if p then m else m') := by
  split_ifs with h
  · exact hm h
  · exact hm' h

theorem spends_attempt (hm : Spends c b m) : Spends c b (attempt m) := hm

theorem spends_each {f : β → Prog σ ε Unit} (hf : ∀ x, Spends c b (f x)) (xs : List β) :
    Spends c (xs.length • b) (each f xs) := by
  induction xs with
  | nil => exact spends_pure ()
  | cons x xs ih =>
    have h := spends_bind (hf x) fun _ => ih
    rw [List.length_cons, succ_nsmul']
    exact h

end Prog
