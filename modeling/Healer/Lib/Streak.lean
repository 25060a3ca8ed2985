import Mathlib.Tactic

/-! The run of entries of one kind that a list ends in. A counter that goes up on such an
entry and back to zero on any other holds its length. -/

namespace Streak

variable {α : Type}

def trailing (p : α → Bool) (l : List α) : ℕ := (l.reverse.takeWhile p).length

@[simp] theorem trailing_nil (p : α → Bool) : trailing p [] = 0 := rfl

@[simp] theorem trailing_concat (p : α → Bool) (l : List α) (a : α) :
    trailing p (l ++ [a]) = if p a then trailing p l + 1 else 0 := by
  cases h : p a <;> simp [trailing, h]

/-- The last `k` entries of `l` are all of the kind. -/
def Last (p : α → Bool) (k : ℕ) (l : List α) : Prop :=
  k ≤ l.length ∧ ∀ a ∈ l.drop (l.length - k), p a = true

theorem last_zero (p : α → Bool) (l : List α) : Last p 0 l := by simp [Last]

theorem last_succ_concat {p : α → Bool} {k : ℕ} {l : List α} {a : α} :
    Last p (k + 1) (l ++ [a]) ↔ p a = true ∧ Last p k l := by
  have hdrop : (l ++ [a]).drop ((l ++ [a]).length - (k + 1)) = l.drop (l.length - k) ++ [a] := by
    rw [List.length_append, List.length_singleton, Nat.add_sub_add_right,
      List.drop_append_of_le_length (Nat.sub_le _ _)]
  rw [Last, hdrop]
  simp only [Last, List.length_append, List.length_singleton, Nat.add_le_add_iff_right,
    List.forall_mem_append, List.forall_mem_singleton]
  tauto

theorem le_trailing_iff {p : α → Bool} {k : ℕ} {l : List α} : k ≤ trailing p l ↔ Last p k l := by
  induction l using List.reverseRecOn generalizing k with
  | nil => simp [Last]
  | append_singleton l a ih =>
    cases k with
    | zero => simp [last_zero]
    | succ k =>
      rw [last_succ_concat, trailing_concat, ← ih]
      cases p a <;> simp

end Streak
