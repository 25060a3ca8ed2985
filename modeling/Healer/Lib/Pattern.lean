import Mathlib.Computability.RegularExpressions
import Mathlib.Tactic

/-! Classes and bounded repetition for regular expressions, and what a match of one is made of. -/

namespace RegularExpression

open List

variable {α : Type} {cs : List α} {x : List α} {c : α} {n : ℕ} {P Q : RegularExpression α}
  {S : α → Prop}

/-- A class: any one of the letters. -/
def oneOf : List α → RegularExpression α
  | [] => 0
  | c :: cs => char c + oneOf cs

/-- The pattern `P?`. -/
def optional (P : RegularExpression α) : RegularExpression α := 1 + P

/-- The pattern `P{0,n}`. -/
def upTo (P : RegularExpression α) : ℕ → RegularExpression α
  | 0 => 1
  | n + 1 => optional (P * upTo P n)

/-- The pattern `P+`. -/
def atLeastOnce (P : RegularExpression α) : RegularExpression α := P * star P

theorem mem_oneOf : x ∈ (oneOf cs).matches' ↔ ∃ c ∈ cs, x = [c] := by
  induction cs with
  | nil => simp [oneOf]
  | cons c cs ih =>
    rw [oneOf, matches'_add, Language.mem_add, ih, exists_mem_cons_iff]
    exact Iff.rfl

theorem mem_optional : x ∈ (optional P).matches' ↔ x = [] ∨ x ∈ P.matches' := by
  simp [optional, matches'_add, Language.mem_add]

theorem mem_mul : x ∈ (P * Q).matches' ↔ ∃ y ∈ P.matches', ∃ z ∈ Q.matches', y ++ z = x := by
  simp [Language.mem_mul]

theorem mem_oneOf_mul : x ∈ (oneOf cs * P).matches' ↔ ∃ c ∈ cs, ∃ z ∈ P.matches', c :: z = x := by
  simp only [mem_mul, mem_oneOf]
  constructor
  · rintro ⟨y, ⟨c, hc, rfl⟩, z, hz, rfl⟩
    exact ⟨c, hc, z, hz, rfl⟩
  · rintro ⟨c, hc, z, hz, rfl⟩
    exact ⟨[c], ⟨c, hc, rfl⟩, z, hz, rfl⟩

theorem mem_upTo_oneOf :
    x ∈ (upTo (oneOf cs) n).matches' ↔ x.length ≤ n ∧ ∀ c ∈ x, c ∈ cs := by
  induction n generalizing x with
  | zero =>
    cases x with
    | nil => simp [upTo]
    | cons c x => simp [upTo]
  | succ n ih =>
    rw [upTo, mem_optional, mem_oneOf_mul]
    cases x with
    | nil => simp
    | cons c x =>
      simp only [ih, length_cons, forall_mem_cons, reduceCtorEq, false_or,
        List.cons.injEq]
      constructor
      · rintro ⟨c, hc, z, ⟨hn, hz⟩, rfl, rfl⟩
        exact ⟨by omega, hc, hz⟩
      · rintro ⟨hn, hc, hx⟩
        exact ⟨c, hc, x, ⟨by omega, hx⟩, rfl, rfl⟩

theorem mem_star_oneOf : x ∈ (star (oneOf cs)).matches' ↔ ∀ c ∈ x, c ∈ cs := by
  rw [matches'_star, Language.mem_kstar]
  constructor
  · rintro ⟨L, rfl, hL⟩ c hc
    obtain ⟨y, hy, hcy⟩ := mem_flatten.1 hc
    obtain ⟨d, hd, rfl⟩ := mem_oneOf.1 (hL y hy)
    rw [mem_singleton] at hcy
    rw [hcy]
    exact hd
  · intro h
    refine ⟨x.map fun c => [c], by simp [← flatMap_def], fun y hy => ?_⟩
    obtain ⟨c, hc, rfl⟩ := mem_map.1 hy
    exact mem_oneOf.2 ⟨c, h c hc, rfl⟩

theorem mem_atLeastOnce_oneOf : x ∈ (atLeastOnce (oneOf cs)).matches' ↔ x ≠ [] ∧ ∀ c ∈ x, c ∈ cs := by
  simp only [atLeastOnce, mem_oneOf_mul, mem_star_oneOf]
  constructor
  · rintro ⟨c, hc, z, hz, rfl⟩
    exact ⟨cons_ne_nil c z, forall_mem_cons.2 ⟨hc, hz⟩⟩
  · rintro ⟨hne, hx⟩
    obtain ⟨c, z, rfl⟩ := exists_cons_of_ne_nil hne
    exact ⟨c, hx c mem_cons_self, z, fun d hd => hx d (mem_cons_of_mem c hd), rfl⟩

theorem nil_mem_star : [] ∈ (star P).matches' := by
  rw [matches'_star]
  exact Language.nil_mem_kstar _

theorem append_mem_star {y z : List α} (hy : y ∈ P.matches') (hz : z ∈ (star P).matches') :
    y ++ z ∈ (star P).matches' := by
  rw [matches'_star, Language.mem_kstar] at hz ⊢
  obtain ⟨L, rfl, hL⟩ := hz
  exact ⟨y :: L, rfl, forall_mem_cons.2 ⟨hy, hL⟩⟩

theorem star_append_mem {y z : List α} (hz : z ∈ (star P).matches') (hy : y ∈ P.matches') :
    z ++ y ∈ (star P).matches' := by
  rw [matches'_star, Language.mem_kstar] at hz ⊢
  obtain ⟨L, rfl, hL⟩ := hz
  refine ⟨L ++ [y], by simp, fun x hx => ?_⟩
  rcases mem_append.1 hx with hx | hx
  · exact hL x hx
  · rw [mem_singleton.1 hx]
    exact hy

/-- Every letter written in the expression is in `S`. -/
def Over (S : α → Prop) : RegularExpression α → Prop
  | zero => True
  | epsilon => True
  | char c => S c
  | plus P Q => P.Over S ∧ Q.Over S
  | comp P Q => P.Over S ∧ Q.Over S
  | star P => P.Over S

theorem over_oneOf (h : ∀ c ∈ cs, S c) : (oneOf cs).Over S := by
  induction cs with
  | nil => trivial
  | cons c cs ih =>
    exact ⟨h c mem_cons_self, ih fun d hd => h d (mem_cons_of_mem c hd)⟩

theorem Over.upTo (h : P.Over S) (n : ℕ) : (P.upTo n).Over S := by
  induction n with
  | zero => trivial
  | succ n ih => exact ⟨trivial, h, ih⟩

/-- So every letter of a match is in `S`. -/
theorem Over.of_mem (h : P.Over S) (hx : x ∈ P.matches') : ∀ c ∈ x, S c := by
  induction P generalizing x with
  | zero => exact absurd hx (Language.notMem_zero x)
  | epsilon =>
    obtain rfl : x = [] := hx
    simp
  | char a =>
    obtain rfl : x = [a] := hx
    intro c hc
    rw [mem_singleton.1 hc]
    exact h
  | plus P Q ihP ihQ =>
    rcases hx with hx | hx
    · exact ihP h.1 hx
    · exact ihQ h.2 hx
  | comp P Q ihP ihQ =>
    obtain ⟨y, hy, z, hz, rfl⟩ := mem_mul.1 hx
    intro c hc
    rcases mem_append.1 hc with hc | hc
    · exact ihP h.1 hy c hc
    · exact ihQ h.2 hz c hc
  | star P ih =>
    obtain ⟨L, rfl, hL⟩ := Language.mem_kstar.1 hx
    intro c hc
    obtain ⟨y, hy, hcy⟩ := mem_flatten.1 hc
    exact ih h (hL y hy) c hcy

end RegularExpression
