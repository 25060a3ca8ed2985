import Healer.Lib.Table

/-! Tasks that take turns at resources. Each row of a table is a task at one resource, its key;
of the tasks at a resource at most one is in a phase other than `idle`. -/

structure Roles (τ ι π : Type) where
  key : τ → ι
  phase : τ → π
  idle : π

namespace Roles

open Table

variable {τ ι π : Type} {R : Roles τ ι π} {t : Table τ} {i : ι} {k l : ℕ} {p : π} {x : τ} {f : τ → τ}

/-- Task `k` is in phase `p` at resource `i`, and all other tasks there are idle. -/
structure Turn (R : Roles τ ι π) (t : Table τ) (i : ι) (k : ℕ) (p : π) : Prop where
  phases : ∀ l x, t.row l = some x → R.key x = i → R.phase x = if l = k then p else R.idle
  known : p ≠ R.idle → ∃ x, t.row k = some x ∧ R.key x = i

theorem Turn.others (h : R.Turn t i k p) (hl : t.row l = some x) (hi : R.key x = i) (hlk : l ≠ k) :
    R.phase x = R.idle := by
  rw [h.phases l x hl hi, if_neg hlk]

/-- A task that is not idle is the one whose turn it is. -/
theorem Turn.holder (h : R.Turn t i k p) (hl : t.row l = some x) (hi : R.key x = i)
    (hx : R.phase x ≠ R.idle) : l = k ∧ p = R.phase x := by
  by_cases hlk : l = k
  · refine ⟨hlk, ?_⟩
    rw [h.phases l x hl hi, if_pos hlk]
  · exact absurd (h.others hl hi hlk) hx

/-- When nobody has the turn, anybody may be said to have it. -/
theorem Turn.free (h : R.Turn t i k R.idle) (l : ℕ) : R.Turn t i l R.idle := by
  refine ⟨fun m x hm hi => ?_, fun hp => absurd rfl hp⟩
  have := h.phases m x hm hi
  rw [ite_self] at this ⊢
  exact this

/-- If all tasks at the resource are idle, nobody has the turn. -/
theorem Turn.eq_idle (h : R.Turn t i k p) (hall : ∀ l x, t.row l = some x → R.key x = i → R.phase x = R.idle) :
    p = R.idle := by
  by_contra hp
  obtain ⟨x, hx, hi⟩ := h.known hp
  have := h.phases k x hx hi
  rw [if_pos rfl, hall k x hx hi] at this
  exact hp this.symm

/-- The task whose turn it is moves on. -/
theorem Turn.move (h : R.Turn t i k p) (hk : t.row k = some x) (f : τ → τ) (hkey : R.key (f x) = i) :
    R.Turn (t.modify k f) i k (R.phase (f x)) := by
  refine ⟨fun m y hm hi => ?_, fun _ => ⟨f x, by rw [modify_row_self, hk, Option.map_some], hkey⟩⟩
  by_cases hmk : m = k
  · subst hmk
    rw [modify_row_self, hk] at hm
    cases hm
    rw [if_pos rfl]
  · rw [modify_row_of_ne _ _ hmk] at hm
    rw [if_neg hmk]
    exact h.others hm hi hmk

/-- A change of a task that leaves its phase and its resource alone, or that is at another one. -/
theorem Turn.aside (h : R.Turn t i k p) (hl : t.row l = some x) (hkey : R.key (f x) = R.key x)
    (hphase : R.key x = i → R.phase (f x) = R.phase x) : R.Turn (t.modify l f) i k p := by
  refine ⟨fun m y hm hi => ?_, fun hp => ?_⟩
  · by_cases hml : m = l
    · subst hml
      rw [modify_row_self, hl] at hm
      cases hm
      rw [hkey] at hi
      rw [hphase hi]
      exact h.phases m x hl hi
    · rw [modify_row_of_ne _ _ hml] at hm
      exact h.phases m y hm hi
  · obtain ⟨y, hy, hi⟩ := h.known hp
    by_cases hkl : k = l
    · subst hkl
      obtain rfl : y = x := Option.some.inj (hy.symm.trans hl)
      exact ⟨f y, by rw [modify_row_self, hy, Option.map_some], hkey.trans hi⟩
    · exact ⟨y, by rw [modify_row_of_ne _ _ hkl, hy], hi⟩

/-- A new task, idle or at another resource. -/
theorem Turn.insert (h : R.Turn t i k p) (hx : R.key x = i → R.phase x = R.idle) :
    R.Turn (t.insert x) i k p := by
  refine ⟨fun m y hm hi => ?_, fun hp => ?_⟩
  · by_cases hnew : m = t.next
    · subst hnew
      rw [insert_row_self] at hm
      cases hm
      rw [hx hi]
      -- the number is new, so it is not the holder's
      by_cases hp : p = R.idle
      · rw [hp, ite_self]
      · obtain ⟨z, hz, -⟩ := h.known hp
        have := lt_of_row hz
        rw [if_neg (by omega)]
    · rw [insert_row_of_ne _ _ hnew] at hm
      exact h.phases m y hm hi
  · obtain ⟨z, hz, hi⟩ := h.known hp
    have := lt_of_row hz
    exact ⟨z, by rw [insert_row_of_ne _ _ (by omega), hz], hi⟩

/-- A new task takes its turn at once. -/
theorem Turn.insert_holder (h : R.Turn t i k R.idle) (hx : R.key x = i) :
    R.Turn (t.insert x) i t.next (R.phase x) := by
  refine ⟨fun m y hm hi => ?_, fun _ => ⟨x, insert_row_self t x, hx⟩⟩
  by_cases hnew : m = t.next
  · subst hnew
    rw [insert_row_self] at hm
    cases hm
    rw [if_pos rfl]
  · rw [insert_row_of_ne _ _ hnew] at hm
    rw [if_neg hnew, h.phases m y hm hi, ite_self]

end Roles
