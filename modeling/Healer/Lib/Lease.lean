import Mathlib.Tactic

/-! A lease on one slot. Whoever takes it stamps the slot with the time and keeps the stamp
as its token; a stamp older than `ttl` may be overwritten, and giving back clears the slot
only under the token it still carries. The stamps alone tell the holders apart. -/

structure Lease (ι τ : Type) where
  slot : Option τ
  clock : τ
  /-- The tokens of those that have taken the lease, have not given it back and are alive. -/
  token : ι → Option τ
  /-- Who took the lease last, and when. -/
  last : Option (ι × τ)

namespace Lease

open Function

inductive Event (ι τ : Type)
  | take (x : ι) (now : τ)
  | give (x : ι) (now : τ)
  /-- The slot is cleared for a holder that is gone. -/
  | clear (now : τ)
  | crash (x : ι)

variable {ι τ : Type} [DecidableEq ι] [AddCommGroup τ] [LinearOrder τ]

def free (ttl : τ) (s : Lease ι τ) (now : τ) : Bool := s.slot.all fun t => t < now - ttl

def step (ttl : τ) (s : Lease ι τ) : Event ι τ → Lease ι τ
  | .take x now =>
    if s.free ttl now then ⟨some now, now, Function.update s.token x (some now), some (x, now)⟩
    else { s with clock := now }
  | .give x now =>
    { s with
      slot := if s.slot = s.token x then none else s.slot
      clock := now
      token := Function.update s.token x none }
  | .clear now => { s with slot := none, clock := now }
  | .crash x => { s with token := Function.update s.token x none }

/-- Time does not go back, a token is used once, and the slot is cleared only when the one
that took it last is gone. -/
def Fair (s : Lease ι τ) : Event ι τ → Prop
  | .take x now => s.clock ≤ now ∧ s.token x = none
  | .give x now => s.clock ≤ now ∧ (s.token x).isSome
  | .clear now => s.clock ≤ now ∧ ∀ x t, s.last = some (x, t) → s.token x = none
  | .crash _ => True

def Event.time : Event ι τ → Option τ
  | .take _ now | .give _ now | .clear now => some now
  | .crash _ => none

/-- Nobody has kept the lease longer than `ttl` when the event happens. -/
def Prompt (ttl : τ) (s : Lease ι τ) (e : Event ι τ) : Prop :=
  ∀ now, e.time = some now → ∀ x t, s.token x = some t → now ≤ t + ttl

/-- A property of each step of a run, with the state before it. -/
def Along (ttl : τ) (P : Lease ι τ → Event ι τ → Prop) (s : Lease ι τ) : List (Event ι τ) → Prop
  | [] => True
  | e :: es => P s e ∧ (s.step ttl e).Along ttl P es

def run (ttl : τ) (s : Lease ι τ) (es : List (Event ι τ)) : Lease ι τ := es.foldl (step ttl) s

/-- An invariant of the steps that `P` allows is one of the runs. -/
theorem run_induction {ttl : τ} {P : Lease ι τ → Event ι τ → Prop} {I : Lease ι τ → Prop}
    (hstep : ∀ s e, I s → P s e → I (s.step ttl e)) (es : List (Event ι τ)) :
    ∀ s, I s → s.Along ttl P es → I (s.run ttl es) := by
  induction es with
  | nil => intro s h _; exact h
  | cons e es ih =>
    intro s h hes
    exact ih _ (hstep s e h hes.1) hes.2

/-- Whoever still has a token either took the lease last and has its stamp in the slot, or
was robbed and has an older token than the last taker. -/
structure Inv (s : Lease ι τ) : Prop where
  past : ∀ y u, s.last = some (y, u) → u ≤ s.clock
  stamped : ∀ t, s.slot = some t → ∃ x, s.last = some (x, t)
  order : ∀ x t, s.token x = some t →
    ∃ y u, s.last = some (y, u) ∧ (x = y ∧ t = u ∧ s.slot = some t ∨ x ≠ y ∧ t < u)

section Inv

variable {ttl : τ} {s : Lease ι τ} {x : ι} {t now : τ} {e : Event ι τ}

theorem Inv.take [IsOrderedAddMonoid τ] (h : s.Inv) (httl : 0 ≤ ttl) (hclock : s.clock ≤ now) (hfree : s.free ttl now = true) :
    (⟨some now, now, Function.update s.token x (some now), some (x, now)⟩ : Lease ι τ).Inv := by
  refine ⟨fun y u hl => ?_, fun t ht => ?_, fun z t hz => ⟨x, now, rfl, ?_⟩⟩
  · cases hl
    exact le_rfl
  · cases ht
    exact ⟨x, rfl⟩
  by_cases hzx : z = x
  · subst hzx
    dsimp only at hz
    rw [update_self] at hz
    cases hz
    exact .inl ⟨rfl, rfl, rfl⟩
  · dsimp only at hz
    rw [update_of_ne hzx] at hz
    refine .inr ⟨hzx, ?_⟩
    obtain ⟨y, u, hl, ⟨-, -, hslot⟩ | ⟨-, htu⟩⟩ := h.order z t hz
    · -- the holder is robbed, so its stamp is out of date
      have hstale : t < now - ttl := by simpa [free, hslot] using hfree
      exact lt_of_lt_of_le hstale (sub_le_self now httl)
    · exact lt_of_lt_of_le htu ((h.past y u hl).trans hclock)

omit [DecidableEq ι] [AddCommGroup τ] in
theorem Inv.tick (h : s.Inv) (hclock : s.clock ≤ now) : ({ s with clock := now } : Lease ι τ).Inv :=
  ⟨fun y u hl => (h.past y u hl).trans hclock, h.stamped, h.order⟩

/-- A robbed holder's token is older than the stamp, so giving back under it changes nothing. -/
theorem Inv.give (h : s.Inv) (hclock : s.clock ≤ now) (hx : s.token x = some t) :
    (s.step ttl (.give x now)).Inv := by
  refine ⟨fun y u hl => (h.past y u hl).trans hclock, fun v hv => ?_, fun z v hz => ?_⟩
  · simp only [step] at hv
    split at hv
    · cases hv
    · exact h.stamped v hv
  · by_cases hzx : z = x
    · subst hzx
      simp [step] at hz
    · simp only [step, update_of_ne hzx] at hz
      obtain ⟨y, u, hl, ⟨rfl, rfl, hslot⟩ | hrobbed⟩ := h.order z v hz
      · refine ⟨z, v, hl, .inl ⟨rfl, rfl, ?_⟩⟩
        obtain ⟨y, u, hl', ⟨rfl, -, -⟩ | ⟨-, htu⟩⟩ := h.order x t hx
        · rw [hl] at hl'
          cases hl'
          exact absurd rfl hzx
        · rw [hl] at hl'
          cases hl'
          have hne : s.slot ≠ s.token x := by
            rw [hslot, hx]
            exact fun heq => htu.ne (Option.some.inj heq).symm
          simp only [step, if_neg hne]
          exact hslot
      · exact ⟨y, u, hl, .inr hrobbed⟩

omit [DecidableEq ι] [AddCommGroup τ] in
theorem Inv.clear (h : s.Inv) (hclock : s.clock ≤ now)
    (hgone : ∀ x t, s.last = some (x, t) → s.token x = none) :
    ({ s with slot := none, clock := now } : Lease ι τ).Inv := by
  refine ⟨fun y u hl => (h.past y u hl).trans hclock, fun v hv => (by cases hv), fun z v hz => ?_⟩
  obtain ⟨y, u, hl, ⟨rfl, -, -⟩ | hrobbed⟩ := h.order z v hz
  · rw [show s.token z = none from hgone z u hl] at hz
    cases hz
  · exact ⟨y, u, hl, .inr hrobbed⟩

omit [AddCommGroup τ] in
theorem Inv.crash (h : s.Inv) : ({ s with token := Function.update s.token x none } : Lease ι τ).Inv := by
  refine ⟨h.past, h.stamped, fun z v hz => h.order z v ?_⟩
  by_cases hzx : z = x
  · subst hzx
    simp at hz
  · simpa [update_of_ne hzx] using hz

theorem Inv.step [IsOrderedAddMonoid τ] (httl : 0 ≤ ttl) (h : s.Inv) (hfair : s.Fair e) : (s.step ttl e).Inv := by
  cases e with
  | take x now =>
    simp only [Lease.step]
    split
    · exact h.take httl hfair.1 (by assumption)
    · exact h.tick hfair.1
  | give x now =>
    obtain ⟨t, ht⟩ := Option.isSome_iff_exists.1 hfair.2
    exact h.give hfair.1 ht
  | clear now => exact h.clear hfair.1 hfair.2
  | crash x => exact h.crash

omit [DecidableEq ι] [AddCommGroup τ] in
/-- A token matches the stamp exactly when its owner took the lease last. -/
theorem Inv.slot_eq_token_iff (h : s.Inv) (hx : s.token x = some t) :
    s.slot = some t ↔ ∃ u, s.last = some (x, u) := by
  obtain ⟨y, u, hl, ⟨rfl, rfl, hslot⟩ | ⟨hne, htu⟩⟩ := h.order x t hx
  · exact ⟨fun _ => ⟨t, hl⟩, fun _ => hslot⟩
  · constructor
    · intro hslot
      obtain ⟨z, hl'⟩ := h.stamped t hslot
      rw [hl] at hl'
      cases hl'
      exact absurd htu (lt_irrefl _)
    · rintro ⟨v, hl'⟩
      rw [hl] at hl'
      cases hl'
      exact absurd rfl hne

end Inv

/-- Whoever has a token took the lease last and has its stamp in the slot. -/
def Sole (s : Lease ι τ) : Prop := ∀ x t, s.token x = some t → s.last = some (x, t) ∧ s.slot = some t

section Sole

variable {ttl : τ} {s : Lease ι τ} {x y : ι} {t u : τ} {e : Event ι τ}

omit [DecidableEq ι] [AddCommGroup τ] [LinearOrder τ] in
theorem Sole.unique (h : s.Sole) (hx : s.token x = some t) (hy : s.token y = some u) : x = y := by
  have heq := (h x t hx).1.symm.trans (h y u hy).1
  cases heq
  rfl

omit [DecidableEq ι] in
/-- Nobody with a token may be robbed yet, so a free slot means that nobody has one. -/
theorem Sole.none_of_free [IsOrderedAddMonoid τ] {now : τ} (h : s.Sole) (hfree : s.free ttl now = true)
    (hprompt : ∀ x t, s.token x = some t → now ≤ t + ttl) (z : ι) : s.token z = none := by
  cases hz : s.token z with
  | none => rfl
  | some t =>
    have hstale : t < now - ttl := by simpa [free, (h z t hz).2] using hfree
    exact absurd (hprompt z t hz) (not_le.2 (lt_sub_iff_add_lt.1 hstale))

theorem Sole.step [IsOrderedAddMonoid τ] (h : s.Sole) (hfair : s.Fair e) (hprompt : s.Prompt ttl e) :
    (s.step ttl e).Sole := by
  intro z v hz
  cases e with
  | take x now =>
    simp only [Lease.step] at hz ⊢
    split at hz
    · rename_i hfree
      rw [if_pos hfree]
      by_cases hzx : z = x
      · subst hzx
        simp only [update_self] at hz
        cases hz
        exact ⟨rfl, rfl⟩
      · simp only [update_of_ne hzx] at hz
        rw [h.none_of_free hfree (hprompt now rfl) z] at hz
        cases hz
    · rename_i hfree
      rw [if_neg hfree]
      exact h z v hz
  | give x now =>
    by_cases hzx : z = x
    · subst hzx
      simp [Lease.step] at hz
    · simp only [Lease.step, update_of_ne hzx] at hz
      obtain ⟨t, ht⟩ := Option.isSome_iff_exists.1 hfair.2
      exact absurd (h.unique hz ht) hzx
  | clear now =>
    have hgone : s.token z = none := hfair.2 z v (h z v hz).1
    exact absurd (hgone.symm.trans hz) (Option.some_ne_none v).symm
  | crash x =>
    refine h z v ?_
    by_cases hzx : z = x
    · subst hzx
      simp [Lease.step] at hz
    · simpa [Lease.step, update_of_ne hzx] using hz

end Sole

end Lease
