import Mathlib.Tactic

/-! Safety properties of a recorded run. `Always φ l` says that each entry of `l`
satisfies `φ` together with the entries before it, so `φ` may ask for something to
have happened earlier. -/

namespace Trace

variable {α : Type}

def Always (φ : List α → α → Prop) (l : List α) : Prop :=
  ∀ pre e post, l = pre ++ e :: post → φ pre e

theorem always_nil (φ : List α → α → Prop) : Always φ [] := by
  intro pre e post h
  simp at h

theorem always_snoc {φ : List α → α → Prop} {l : List α} {e : α} :
    Always φ (l ++ [e]) ↔ Always φ l ∧ φ l e := by
  constructor
  · intro h
    refine ⟨fun pre x post hl => h pre x (post ++ [e]) (by simp [hl]), h l e [] rfl⟩
  · rintro ⟨hl, he⟩ pre x post h
    rcases List.eq_nil_or_concat post with rfl | ⟨post, y, rfl⟩
    · obtain ⟨rfl, hx⟩ := List.append_inj' h rfl
      cases hx
      exact he
    · rw [List.concat_eq_append, ← List.cons_append, ← List.append_assoc] at h
      exact hl pre x post (List.append_inj' h rfl).1

/-- New entries keep a run safe when each is safe after the ones before it. -/
theorem Always.append {φ : List α → α → Prop} {l es : List α} (h : Always φ l)
    (hes : ∀ pre e post, es = pre ++ e :: post → φ (l ++ pre) e) : Always φ (l ++ es) := by
  induction es using List.reverseRecOn with
  | nil => simpa using h
  | append_singleton es e ih =>
    rw [← List.append_assoc, always_snoc]
    refine ⟨ih fun pre x post hx => ?_, hes es e [] rfl⟩
    exact hes pre x (post ++ [e]) (by simp [hx])

end Trace
