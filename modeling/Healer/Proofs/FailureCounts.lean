import Healer.Lib.Runs
import Healer.Lib.Streak
import Healer.Spec.Watch

/-! The monitor and the gates count failures differently, and still the count of the latest result of a
RUNNING instance is right: a gate that starts from zero in the middle of a history lets the instance run
only after a success. -/

namespace Healer.Watch

open Streak (trailing)

def failed (r : HealthCheckResult) : Bool := !r.healthy

/-- The latest count is the length of the run of failures that the results end in. -/
def Exact (w : Watch) : Prop :=
  ∀ r, w.results.getLast? = some r → r.consecutiveFailures = trailing failed w.results

structure Inv (w : Watch) : Prop where
  read : ∀ last now, w.polling = some (last, now) → last = w.results.getLast?
  busy : w.busy = true → w.Exact ∧ w.gate = none ∧ w.status ≠ .pending
  counted : ∀ s f, w.gate = some (s, f) →
    w.status = .restarting ∨ w.status = .starting ∧ f = trailing failed w.results
  exact : w.Exact ∨ w.status = .failed ∨ w.status = .restarting ∧ w.gate.isSome = true
  fresh : w.status = .pending → w.results = [] ∧ w.gate = none

variable {w : Watch} {hc : CheckRow}

theorem inv_allocated (i : InstanceId) : (allocated i).Inv where
  read _ _ h := by cases h
  busy h := by cases h
  counted _ _ h := by cases h
  exact := .inl fun r hr => by cases hr
  fresh _ := ⟨rfl, rfl⟩

theorem exact_record {healthy : Bool} {failures : ℕ} (now : Time)
    (h : failures = if healthy then 0 else trailing failed w.results + 1) : (w.record healthy failures now).Exact := by
  intro r hr
  rw [record, List.getLast?_concat, Option.some.injEq] at hr
  rw [← hr, record, Streak.trailing_concat, h]
  cases healthy <;> rfl

/-- The monitor continues an exact count. -/
theorem nextFailures_eq (h : w.Exact) (healthy : Bool) :
    nextFailures w.results.getLast? healthy = if healthy then 0 else trailing failed w.results + 1 := by
  rcases List.eq_nil_or_concat w.results with hnil | ⟨l, r, hl⟩
  · rw [hnil]
    cases healthy <;> rfl
  · have hr := h r (by rw [hl, List.concat_eq_append, List.getLast?_concat])
    rw [hl, List.concat_eq_append, Streak.trailing_concat] at hr ⊢
    rw [List.getLast?_concat, nextFailures]
    cases healthy with
    | true => rfl
    | false => cases hfailed : r.healthy <;> simp [failed, hfailed] at hr ⊢; exact hr

theorem busy_of_polling {q : Option HealthCheckResult × Time} (h : w.polling = some q) : w.busy = true := by
  rw [Watch.busy, h]
  exact Bool.or_true _

theorem inv_startPoll (h : w.Inv) (hlisted : w.listed = true) (now : Time) : (w.startPoll hc now).Inv := by
  obtain ⟨hexact, hgate, hst⟩ := h.busy (by rw [Watch.busy, hlisted]; rfl)
  unfold startPoll
  dsimp only
  split
  · exact ⟨h.read, fun _ => ⟨hexact, hgate, hst⟩, h.counted, h.exact, h.fresh⟩
  · refine ⟨fun last now heq => ?_, fun _ => ⟨hexact, hgate, hst⟩, h.counted, h.exact, h.fresh⟩
    cases heq
    rfl

theorem inv_finishPoll (h : w.Inv) (answer : Option ℕ) : (w.finishPoll hc answer).2.Inv := by
  unfold finishPoll
  split
  · exact h
  · rename_i last now hpolling
    obtain ⟨hexact, hgate, hst⟩ := h.busy (busy_of_polling hpolling)
    have hcount := nextFailures_eq hexact (hc.1.judge answer)
    rw [← h.read last now hpolling] at hcount
    have hexact' := exact_record now hcount
    refine ⟨fun _ _ heq => (by cases heq), fun _ => ⟨hexact', hgate, hst⟩, fun s f heq => ?_, .inl hexact', ?_⟩
    · rw [show w.gate = some (s, f) from heq] at hgate
      cases hgate
    · exact fun heq => absurd heq hst

/-- A gate is open only where the monitor is not. -/
theorem Inv.idle (h : w.Inv) (hgate : w.gate ≠ none) : ¬ w.busy = true := fun hbusy => hgate (h.busy hbusy).2.1

theorem inv_probe (h : w.Inv) (healthy : Bool) (now : Time) : (w.probe hc healthy now).Inv := by
  unfold probe
  split
  · exact h
  rename_i successes failures hgate
  have hidle := h.idle (by rw [hgate]; nofun)
  have hread : ∀ last now, w.polling = some (last, now) → False := fun last now heq => hidle (busy_of_polling heq)
  have hst : w.status ≠ .pending := fun heq => by rw [(h.fresh heq).2] at hgate; cases hgate
  dsimp only
  by_cases hpass : (if healthy then successes + 1 else 0) ≥ hc.1.healthyThreshold
  · -- enough successes: the last of them is the result that has just been recorded
    rw [if_pos hpass]
    have hhealthy : healthy = true := by
      by_contra hne
      rw [if_neg hne] at hpass
      exact absurd hpass (Nat.not_le.2 hc.2.1)
    subst hhealthy
    have hexact : (w.record true 0 now).Exact := exact_record now rfl
    exact ⟨fun _ _ heq => (hread _ _ heq).elim, fun hbusy => (hidle hbusy).elim, fun _ _ heq => (by cases heq),
      .inl hexact, fun heq => (by cases heq)⟩
  · rw [if_neg hpass]
    refine ⟨fun _ _ heq => (hread _ _ heq).elim, fun hbusy => (hidle hbusy).elim, fun s f heq => ?_, ?_,
      fun heq => (hst heq).elim⟩
    · cases heq
      refine (h.counted _ _ hgate).imp_right fun hstart => ⟨hstart.1, ?_⟩
      rw [record, Streak.trailing_concat, ← hstart.2]
      cases healthy <;> rfl
    · rcases h.counted _ _ hgate with hst | ⟨-, hf⟩
      · exact .inr (.inr ⟨hst, rfl⟩)
      · exact .inl (exact_record now (by rw [hf]))

theorem Inv.exact_of (h : w.Inv) (hst : w.status ≠ .failed) (hgate : w.status = .restarting → w.gate = none) :
    w.Exact := by
  rcases h.exact with hexact | heq | ⟨heq, hsome⟩
  · exact hexact
  · exact absurd heq hst
  · rw [hgate heq] at hsome
    cases hsome

theorem Inv.running (h : w.Inv) (hst : w.status = .running) : w.Exact ∧ w.gate = none := by
  have hgate : w.gate = none := by
    by_contra hne
    obtain ⟨⟨s, f⟩, hgate⟩ := Option.ne_none_iff_exists'.1 hne
    rcases h.counted s f hgate with heq | ⟨heq, -⟩ <;> rw [hst] at heq <;> cases heq
  exact ⟨h.exact_of (by rw [hst]; decide) fun _ => hgate, hgate⟩

/-- No service starts a retired instance again. -/
theorem move_cases {st target : InstanceStatus} (hcan : canTransition instanceTransitions st target = true)
    (hfrom : target ≠ .starting ∨ st = .pending) : st ≠ .failed ∧ target ≠ .pending := by
  revert hcan hfrom
  cases st <;> cases target <;> decide

theorem inv_move (h : w.Inv) {target : InstanceStatus} (hgate : w.gate = none)
    (hcan : canTransition instanceTransitions w.status target = true)
    (hfrom : target ≠ .starting ∨ w.status = .pending) : Inv { w with status := target } := by
  have hst := move_cases hcan hfrom
  have hexact := h.exact_of hst.1 fun _ => hgate
  refine ⟨h.read, fun _ => ⟨hexact, hgate, hst.2⟩, fun s f heq => ?_, .inl hexact, fun heq => (hst.2 heq).elim⟩
  rw [show w.gate = some (s, f) from heq] at hgate
  cases hgate

theorem inv_ite {p : Prop} [Decidable p] {w' : Watch} (h : w.Inv) (h' : p → w'.Inv) :
    Inv (if p then w' else w) := by
  split_ifs with hp
  · exact h' hp
  · exact h

theorem inv_step (h : w.Inv) (e : CheckRow × Event) : (w.step e).Inv := by
  obtain ⟨hc, e⟩ := e
  cases e with
  | tick =>
    refine inv_ite h fun hif => ⟨h.read, fun hbusy => ?_, h.counted, h.exact, h.fresh⟩
    have hst : w.status = .running := by simpa [Watch.busy, Option.isNone_iff_eq_none.1 hif] using hbusy
    exact ⟨(h.running hst).1, (h.running hst).2, by rw [hst]; decide⟩
  | poll now => exact inv_ite h fun hif => inv_startPoll h (Bool.and_eq_true_iff.1 hif).1 now
  | polled answer => exact inv_finishPoll h answer
  | pollRaised => exact ⟨nofun, nofun, h.counted, h.exact, h.fresh⟩
  | launch =>
    refine inv_ite h fun hif => ?_
    obtain ⟨hnil, -⟩ := h.fresh hif
    refine ⟨h.read, fun hbusy => absurd hif (h.busy hbusy).2.2, fun s f heq => .inr ⟨rfl, ?_⟩,
      .inl fun r hr => ?_, nofun⟩
    · cases heq
      rw [hnil]
      rfl
    · rw [hnil] at hr
      cases hr
  | heal =>
    refine inv_ite h fun hif => ⟨h.read, fun hbusy => ?_, fun _ _ _ => .inl rfl, .inr (.inr ⟨rfl, rfl⟩), nofun⟩
    rw [show w.busy = true from hbusy] at hif
    cases hif
  | probed answer now => exact inv_probe h _ now
  | gateFailed =>
    exact inv_ite h fun hif => ⟨h.read, fun hbusy => (h.idle (Option.isSome_iff_ne_none.1 hif) hbusy).elim,
      nofun, .inr (.inl rfl), nofun⟩
  | move target =>
    refine inv_ite h fun hif => ?_
    simp only [Bool.and_eq_true, Bool.or_eq_true, Option.isNone_iff_eq_none, bne_iff_ne, beq_iff_eq] at hif
    exact inv_move h hif.1.1 hif.1.2 hif.2

/-- Whatever order the polls, gates, restarts and other writes of a status come in, the latest result of a
RUNNING instance counts the failures that its results end in, and a poll hands the instance to `_heal`
exactly when the last `unhealthy_threshold` results are then all failures. -/
theorem failure_counts_exact (i : InstanceId) (es : List (CheckRow × Event)) :
    ((Runs.run step (allocated i) es).status = .running → (Runs.run step (allocated i) es).Exact) ∧
      ∀ (hc : CheckRow) answer, (Runs.run step (allocated i) es).polling.isSome = true →
        (((Runs.run step (allocated i) es).finishPoll hc answer).1 = true ↔
          Streak.Last failed hc.1.unhealthyThreshold
            ((Runs.run step (allocated i) es).finishPoll hc answer).2.results) := by
  have h := Runs.stable (I := Inv) (fun w e h => inv_step h e) es (allocated i) (inv_allocated i)
  generalize Runs.run step (allocated i) es = w at h
  refine ⟨fun hst => (h.running hst).1, fun hc answer hsome => ?_⟩
  obtain ⟨⟨last, now⟩, hpolling⟩ := Option.isSome_iff_exists.1 hsome
  obtain ⟨hexact, -⟩ := h.busy (busy_of_polling hpolling)
  have hcount := nextFailures_eq hexact (hc.1.judge answer)
  rw [← h.read last now hpolling] at hcount
  have hpos := hc.2.2
  rw [← Streak.le_trailing_iff]
  simp only [finishPoll, hpolling, record, Streak.trailing_concat, hcount, failed]
  cases hc.1.judge answer <;> simp
  omega

end Healer.Watch
