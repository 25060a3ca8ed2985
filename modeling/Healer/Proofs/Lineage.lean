import Healer.Lib.Runs
import Healer.Lib.Succession
import Healer.Sanity.Healing
import Healer.Sanity.Sample
import Healer.Spec.Ops

/-! Self-healing along the chain of an instance and its replacements: what one call does to the counters,
and what any number of ticks can add up to. -/

namespace Healer

open Prog Function List
open Succession (lineage Tally)

/-- The instance that was given up, and its replacement. -/
def AuditRow.pair (a : AuditRow) : Option (InstanceId × InstanceId) :=
  match a.action with
  | .replaced j _ => some (a.instanceId, j)
  | _ => none

def Note.restarted : Note → Option (InstanceId × Option Time)
  | .restart i _ time => some (i, time)
  | _ => none

def Note.started : Note → Option InstanceId
  | .start i => some i
  | _ => none

namespace Ledger

variable (L : Ledger)

def pairs : List (InstanceId × InstanceId) := L.audits.filterMap AuditRow.pair

/-- The restart commands, with the times of their attempts. -/
def restarts : List (InstanceId × Option Time) := L.notes.filterMap Note.restarted

/-- The start commands of replacements. -/
def starts : List InstanceId := L.notes.filterMap Note.started

def attempts (i : InstanceId) : ℕ := ((L.row i).map Instance.healingAttempts).getD 0

end Ledger

/-! ## One call -/

/-- The row of `k` has become `a`, and the restarts `rs` have been asked for. -/
structure Tended (k : InstanceId) (a : Instance) (rs : List (InstanceId × Option Time)) (L L' : Ledger) : Prop where
  row : L'.row = Function.update L.row k (some a)
  next : L'.next = L.next
  limits : L'.limits = L.limits
  pairs : L'.pairs = L.pairs
  restarts : L'.restarts = L.restarts ++ rs
  starts : L'.starts = L.starts

/-- The same, and `k` has been replaced by the new row `b`, for which the starts `ss` have been asked. -/
structure Succeeded (k : InstanceId) (a b : Instance) (rs : List (InstanceId × Option Time)) (ss : List InstanceId)
    (L L' : Ledger) : Prop where
  row : L'.row = Function.update (Function.update L.row k (some a)) L.next (some b)
  next : L'.next = L.next + 1
  limits : L'.limits = L.limits
  pairs : L'.pairs = L.pairs ++ [(k, L.next)]
  restarts : L'.restarts = L.restarts ++ rs
  starts : L'.starts = L.starts ++ ss

section Call

variable {k : InstanceId} {inst a b : Instance} {rs : List (InstanceId × Option Time)} {ss : List InstanceId}
  {L L1 L' : Ledger} {r : Except Exn Unit}

theorem filterMap_snoc {α β : Type} (f : α → Option β) (l : List α) (x : α) :
    (l ++ [x]).filterMap f = l.filterMap f ++ (f x).toList := by
  rw [filterMap_append]
  cases hx : f x <;> simp [hx]

theorem pairs_audit (L : Ledger) (i : InstanceId) (action : AuditAction) (port : ℕ) :
    (L.audit i action port).pairs = L.pairs ++ (AuditRow.pair ⟨action, i, port⟩).toList :=
  filterMap_snoc _ _ _

theorem restarts_write (L : Ledger) (n : Note) : (L.write n).restarts = L.restarts ++ n.restarted.toList :=
  filterMap_snoc _ _ _

theorem starts_write (L : Ledger) (n : Note) : (L.write n).starts = L.starts ++ n.started.toList :=
  filterMap_snoc _ _ _

theorem tended_refl (h : L.row k = some a) : Tended k a [] L L :=
  ⟨by rw [← h, update_eq_self], rfl, rfl, rfl, (append_nil _).symm, rfl⟩

theorem Tended.put (h : Tended k inst rs L L1) (a : Instance) : Tended k a rs L (L1.put k a) := by
  refine ⟨?_, h.next, h.limits, h.pairs, h.restarts, h.starts⟩
  change Function.update L1.row k (some a) = _
  rw [h.row, update_idem]

variable {i : InstanceId}

theorem Tended.audit (h : Tended k a rs L L1) {action : AuditAction} {port : ℕ}
    (hp : AuditRow.pair ⟨action, i, port⟩ = none) : Tended k a rs L (L1.audit i action port) := by
  refine ⟨h.row, h.next, h.limits, ?_, h.restarts, h.starts⟩
  rw [pairs_audit, hp, h.pairs, Option.toList_none, append_nil]

theorem Tended.write (h : Tended k a rs L L1) (n : Note) (hs : n.started = none) :
    Tended k a (rs ++ n.restarted.toList) L (L1.write n) := by
  refine ⟨h.row, h.next, h.limits, h.pairs, ?_, ?_⟩
  · rw [restarts_write, h.restarts, append_assoc]
  · rw [starts_write, hs, h.starts, Option.toList_none, append_nil]

theorem Tended.gaveUp (h : Tended k a rs L L1) (inst : Instance) (reason text : String) :
    Tended k (inst.fail reason) rs L (L1.gaveUp k inst reason text) := by
  have h' : Tended k (inst.fail reason) rs L ((L1.put k (inst.fail reason)).audit k (.recoveryFailed reason)
      inst.port) := (h.put (inst.fail reason)).audit rfl
  exact ⟨h'.row, h'.next, h'.limits, h'.pairs, h'.restarts, h'.starts⟩

theorem Tended.givenUp (h : Tended k inst rs L L1) (he : GivenUp k inst L1 r L') :
    ∃ a, a.healingAttempts = inst.healingAttempts ∧ a.lastHealingAttemptAt = inst.lastHealingAttemptAt ∧
      Tended k a rs L L' := by
  cases he with
  | done reason text => exact ⟨inst.fail reason, rfl, rfl, h.gaveUp inst reason text⟩
  | barred reason _ _ => exact ⟨{ inst with failureReason := some reason }, rfl, rfl, h.put _⟩

theorem Succeeded.put (h : Succeeded k a inst rs ss L L1) (b : Instance) :
    Succeeded k a b rs ss L (L1.put L.next b) := by
  refine ⟨?_, h.next, h.limits, h.pairs, h.restarts, h.starts⟩
  change Function.update L1.row L.next (some b) = _
  rw [h.row, update_idem]

theorem Succeeded.audit (h : Succeeded k a b rs ss L L1) {action : AuditAction} {port : ℕ}
    (hp : AuditRow.pair ⟨action, i, port⟩ = none) : Succeeded k a b rs ss L (L1.audit i action port) := by
  refine ⟨h.row, h.next, h.limits, ?_, h.restarts, h.starts⟩
  rw [pairs_audit, hp, h.pairs, Option.toList_none, append_nil]

theorem Succeeded.write (h : Succeeded k a b rs ss L L1) (n : Note) (hr : n.restarted = none) :
    Succeeded k a b rs (ss ++ n.started.toList) L (L1.write n) := by
  refine ⟨h.row, h.next, h.limits, h.pairs, ?_, ?_⟩
  · rw [restarts_write, hr, h.restarts, Option.toList_none, append_nil]
  · rw [starts_write, h.starts, append_assoc]

theorem Succeeded.started (h : Succeeded k a inst rs [] L L1) (he : Started L.next inst L1 r L') :
    ∃ b, b.healingAttempts = inst.healingAttempts ∧ Succeeded k a b rs [L.next] L L' := by
  have hstart : Succeeded k a inst rs [L.next] L (L1.write (.start L.next)) :=
    h.write (.start L.next) rfl
  cases he with
  | lost error => exact ⟨inst, rfl, hstart.write (.lost _) rfl⟩
  | refused reason text =>
    have h' : Succeeded k a (inst.fail reason) rs [L.next] L (((L1.write (.start L.next)).put L.next
        (inst.fail reason)).audit L.next (.recoveryFailed reason) inst.port) :=
      (hstart.put (inst.fail reason)).audit rfl
    exact ⟨inst.fail reason, rfl, h'.row, h'.next, h'.limits, h'.pairs, h'.restarts, h'.starts⟩
  | raised error => exact ⟨inst, rfl, hstart.write (.raised _) rfl⟩
  | stuck => exact ⟨inst, rfl, hstart.write (.unhealthy _) rfl⟩
  | running => exact ⟨{ inst with status := .running }, rfl, (hstart.put _).audit rfl⟩

/-- What a call for `k`, whose row was `inst`, has done to the counters. -/
inductive Healed (k : InstanceId) (inst : Instance) (L L' : Ledger) : Prop
  | rested (a : Instance) (hattempts : a.healingAttempts = inst.healingAttempts)
      (hlast : a.lastHealingAttemptAt = inst.lastHealingAttemptAt) (h : Tended k a [] L L') : Healed k inst L L'
  | tried (t : Time) (a : Instance) (rs : List (InstanceId × Option Time))
      (hcool : inst.cooling L.limits.2 t = false) (hmax : inst.healingAttempts < L.limits.1)
      (hattempts : a.healingAttempts = inst.healingAttempts + 1) (hlast : a.lastHealingAttemptAt = some t)
      (hrs : rs = [] ∨ rs = [(k, some t)]) (h : Tended k a rs L L') : Healed k inst L L'
  | replaced (t : Time) (a b : Instance)
      (hcool : inst.cooling L.limits.2 t = false) (hmax : inst.healingAttempts < L.limits.1)
      (hattempts : a.healingAttempts = inst.healingAttempts + 1) (hlast : a.lastHealingAttemptAt = some t)
      (hst : a.status = .failed) (hnew : b.healingAttempts = inst.healingAttempts + 1)
      (h : Succeeded k a b [(k, some t)] [L.next] L L') : Healed k inst L L'

theorem Tended.tried (h : Tended k inst [] L L1) :
    Tended k { inst with status := .restarting } [(k, inst.lastHealingAttemptAt)] L (L1.tried k inst) :=
  ((h.put { inst with status := .restarting }).audit rfl).write
    (.restart k inst.healingAttempts inst.lastHealingAttemptAt) rfl

theorem Tended.broken (h : Tended k inst [] L L1) (gated : Bool) :
    Tended k (inst.fail "restart did not restore a healthy instance") [(k, inst.lastHealingAttemptAt)] L
      (L1.broken k inst gated) := by
  cases gated with
  | false => exact (h.tried.put _).audit rfl
  | true => exact ((h.tried.write (.unhealthy k) rfl).put _).audit rfl

theorem Tended.replaced (h : Tended k inst rs L L1) (new : Instance) :
    Succeeded k inst new rs [] L (L1.replaced k inst new) := by
  refine ⟨?_, ?_, h.limits, ?_, h.restarts, ?_⟩
  · change Function.update L1.row L1.next (some new) = _
    rw [h.row, h.next]
  · change L1.next + 1 = _
    rw [h.next]
  · rw [Ledger.replaced, pairs_audit, h.next]
    change L1.pairs ++ _ = _
    rw [h.pairs]
    rfl
  · change L1.starts = _
    rw [h.starts, append_nil]

variable {w' : World} {old : Instance} {t : Time}

/-- An attempt at `t` has been counted, and the restart is next. -/
theorem healed_restarted (h : Tended k inst [] L L1) (he : Restarted k inst L1 r L')
    (hcool : old.cooling L.limits.2 t = false) (hmax : old.healingAttempts < L.limits.1)
    (hattempts : inst.healingAttempts = old.healingAttempts + 1) (hlast : inst.lastHealingAttemptAt = some t) :
    Healed k old L L' := by
  have hrs : [(k, inst.lastHealingAttemptAt)] = [(k, some t)] := by rw [hlast]
  cases he with
  | barred _ => exact .tried t inst [] hcool hmax hattempts hlast (.inl rfl) h
  | lost error =>
    exact .tried t { inst with status := .restarting } _ hcool hmax hattempts hlast (.inr hrs)
      (h.tried.write (.lost _) rfl)
  | raised error =>
    exact .tried t { inst with status := .restarting } _ hcool hmax hattempts hlast (.inr hrs)
      (h.tried.write (.raised _) rfl)
  | recovered =>
    exact .tried t { inst with status := .running, failureReason := none } _ hcool hmax hattempts hlast
      (.inr hrs) ((h.tried.put _).audit rfl)
  | replaced gated he =>
    have hbroken := h.broken gated
    cases he with
    | unplaced he =>
      obtain ⟨a, ha, hl, h'⟩ := hbroken.givenUp he
      exact .tried t a _ hcool hmax (ha.trans hattempts) (hl.trans hlast) (.inr hrs) h'
    | unstored =>
      exact .tried t (inst.fail "restart did not restore a healthy instance") _ hcool hmax hattempts hlast
        (.inr hrs) (hbroken.write .unstored rfl)
    | placed new _ hnew _ he =>
      have hsucc := hbroken.replaced new
      rw [hbroken.next] at he
      obtain ⟨b, hb, h'⟩ := hsucc.started he
      rw [hrs] at h'
      exact .replaced t (inst.fail "restart did not restore a healthy instance") b hcool hmax hattempts hlast
        rfl (hb.trans (hnew.trans hattempts)) h'

theorem healed_attempted (h : Tended k inst [] L L1) (he : Attempted k inst L1 r w')
    (hattempts : inst.healingAttempts = old.healingAttempts)
    (hlast : inst.lastHealingAttemptAt = old.lastHealingAttemptAt) : Healed k old L w'.ledger := by
  have hcooling : ∀ t, old.cooling L.limits.2 t = inst.cooling L1.limits.2 t := by
    intro t
    unfold Instance.cooling
    rw [hlast, h.limits]
  have hmax' : inst.healingAttempts < L1.limits.1 → old.healingAttempts < L.limits.1 := by
    rw [hattempts, h.limits]
    exact id
  cases he with
  | givenUp he =>
    obtain ⟨a, ha, hl, h'⟩ := h.givenUp he
    exact .rested a (ha.trans hattempts) (hl.trans hlast) h'
  | cooling he _ => exact .rested inst hattempts hlast (he ▸ h)
  | unreleased t hcool hmax he =>
    obtain ⟨a, ha, hl, h'⟩ := (h.put (inst.counted t)).givenUp he
    refine .tried t a [] ((hcooling t).trans hcool) (hmax' hmax) ?_ hl (.inl rfl) h'
    rw [ha, ← hattempts]
    rfl
  | restarted t hcool hmax he =>
    refine healed_restarted (h.put (inst.counted t)) he ((hcooling t).trans hcool) (hmax' hmax) ?_ rfl
    rw [← hattempts]
    rfl

theorem removed_attempts (inst : Instance) : inst.removed.healingAttempts = inst.healingAttempts := by
  unfold Instance.removed
  split_ifs <;> rfl

theorem removed_last (inst : Instance) : inst.removed.lastHealingAttemptAt = inst.lastHealingAttemptAt := by
  unfold Instance.removed
  split_ifs <;> rfl

end Call

variable {inst : Instance}

/-- A call for `k` under the lock, or one that finds it taken. -/
theorem heal_healed (o : Oracle) {hc : HealthCheck} {k : InstanceId} {w : World}
    (hrow : w.ledger.row k = some inst) (hlim : hc.limits = w.ledger.limits) :
    Healed k inst w.ledger (heal o hc k w).2.ledger := by
  have hsame : ∀ w' : World, w'.ledger = w.ledger → Healed k inst w.ledger w'.ledger := by
    intro w' h
    rw [h]
    exact .rested inst rfl rfl (tended_refl hrow)
  rcases hfree : w.db.application.lockFree w.clock with _ | _
  · rw [heal_held o hc hfree]
    exact hsame _ (ledger_commit w)
  rcases hconfig : w.db.application.config with _ | c
  · have hend : Ends (heal o hc k w) (fun _ w' => w'.ledger = w.ledger) fun _ w' => w'.ledger = w.ledger :=
      (heal_invalid o hc hfree hconfig).mono (fun _ _ h => h.elim) fun _ _ h => h
    exact hsame _ hend.state
  · have hremoved : Tended k inst.removed [] w.ledger (w.ledger.removed k inst) :=
      ((tended_refl hrow).put _).audit rfl
    exact healed_attempted hremoved (heal_ends o hc hfree hconfig hlim hrow).result (removed_attempts inst)
      (removed_last inst)

/-! ## Spacing -/

def Ledger.lastAttempt (L : Ledger) (k : InstanceId) : Option Time := (L.row k).bind Instance.lastHealingAttemptAt

/-- When the restarts of `k` were attempted. -/
def restartTimes (k : InstanceId) (rs : List (InstanceId × Option Time)) : List Time :=
  rs.filterMap fun p => if p.1 = k then p.2 else none

/-- Between two states counts only grow, and on every instance the last attempt before the first of them and
the attempts that restarted it since are a cooldown apart. -/
structure Paced (L0 : Ledger) (rs : List (InstanceId × Option Time)) (L : Ledger) : Prop where
  restarts : L.restarts = L0.restarts ++ rs
  limits : L.limits = L0.limits
  grow : ∀ k, L0.attempts k ≤ L.attempts k
  spaced : ∀ k, ((L0.lastAttempt k).toList ++ restartTimes k rs).Pairwise fun t t' => seconds L0.limits.2 ≤ t' - t
  recent : ∀ k, ∀ t ∈ (L0.lastAttempt k).toList ++ restartTimes k rs, ∃ t', L.lastAttempt k = some t' ∧ t ≤ t'

theorem paced_refl (L : Ledger) : Paced L [] L := by
  refine ⟨(append_nil _).symm, rfl, fun _ => le_rfl, fun k => ?_, fun k t ht => ⟨t, ?_, le_rfl⟩⟩
  · cases L.lastAttempt k <;> simp [restartTimes]
  · simpa [restartTimes, Option.mem_toList] using ht

/-- What one call does to the attempts on `j`. -/
inductive Onward (L L' : Ledger) (again : List (InstanceId × Option Time)) (j : InstanceId) : Prop
  | kept (hnone : restartTimes j again = [])
      (hlast : ∀ t, L.lastAttempt j = some t → ∃ t', L'.lastAttempt j = some t' ∧ t ≤ t') : Onward L L' again j
  | restarted (t : Time) (hone : restartTimes j again = [t]) (hlast : L'.lastAttempt j = some t)
      (hcool : ∀ t0, L.lastAttempt j = some t0 → seconds L.limits.2 ≤ t - t0) : Onward L L' again j

section Spacing

variable {k j : InstanceId} {a b : Instance} {rs again : List (InstanceId × Option Time)} {ss : List InstanceId}
  {L0 L L' : Ledger} {t : Time}

theorem restartTimes_append (k : InstanceId) (rs again : List (InstanceId × Option Time)) :
    restartTimes k (rs ++ again) = restartTimes k rs ++ restartTimes k again :=
  filterMap_append

theorem seconds_nonneg (n : ℕ) : (0 : Time) ≤ seconds n := mul_nonneg (Int.natCast_nonneg n) (by decide)

theorem Paced.onward (h : Paced L0 rs L) (hrestarts : L'.restarts = L.restarts ++ again)
    (hlimits : L'.limits = L.limits) (hgrow : ∀ j, L.attempts j ≤ L'.attempts j)
    (hstep : ∀ j, Onward L L' again j) : Paced L0 (rs ++ again) L' := by
  have hlater : ∀ j t, (∀ t0, L.lastAttempt j = some t0 → seconds L.limits.2 ≤ t - t0) →
      ∀ t0 ∈ (L0.lastAttempt j).toList ++ restartTimes j rs, seconds L0.limits.2 ≤ t - t0 := by
    intro j t hcool t0 ht0
    obtain ⟨t', ht', hle⟩ := h.recent j t0 ht0
    have hcool' := hcool t' ht'
    rw [h.limits] at hcool'
    exact hcool'.trans (Int.sub_le_sub_left hle t)
  refine ⟨?_, hlimits.trans h.limits, fun j => (h.grow j).trans (hgrow j), fun j => ?_, fun j => ?_⟩
  · rw [hrestarts, h.restarts, append_assoc]
  · rw [restartTimes_append, ← append_assoc]
    cases hstep j with
    | kept hnone _ =>
      rw [hnone, append_nil]
      exact h.spaced j
    | restarted t hone _ hcool =>
      rw [hone, pairwise_append]
      refine ⟨h.spaced j, by simp, fun t0 ht0 t' ht' => ?_⟩
      rw [mem_singleton.1 ht']
      exact hlater j t hcool t0 ht0
  · rw [restartTimes_append, ← append_assoc]
    intro t0 ht0
    cases hstep j with
    | kept hnone hlast =>
      rw [hnone, append_nil] at ht0
      obtain ⟨t', ht', hle⟩ := h.recent j t0 ht0
      obtain ⟨t'', ht'', hle'⟩ := hlast t' ht'
      exact ⟨t'', ht'', hle.trans hle'⟩
    | restarted t hone hlast hcool =>
      refine ⟨t, hlast, ?_⟩
      rw [hone, mem_append, mem_singleton] at ht0
      rcases ht0 with ht0 | rfl
      · exact Int.le_of_sub_nonneg ((seconds_nonneg _).trans (hlater j t hcool t0 ht0))
      · exact le_rfl

theorem not_cooling {cooldown : ℕ} (hcool : inst.cooling cooldown t = false) {t0 : Time}
    (h0 : inst.lastHealingAttemptAt = some t0) : seconds cooldown ≤ t - t0 := by
  unfold Instance.cooling at hcool
  rw [h0, Option.any_some, decide_eq_false_iff_not] at hcool
  exact not_lt.1 hcool

theorem attempts_of_row (hrow : L.row k = some inst) : L.attempts k = inst.healingAttempts := by
  unfold Ledger.attempts
  rw [hrow]
  rfl

theorem lastAttempt_of_row (hrow : L.row k = some inst) : L.lastAttempt k = inst.lastHealingAttemptAt := by
  unfold Ledger.lastAttempt
  rw [hrow]
  rfl

/-- An attempt on `k` at `t`, with or without a restart; on others the last attempt stays. -/
theorem onward_tried (hrow : L.row k = some inst) (hcool : inst.cooling L.limits.2 t = false)
    (hself : L'.lastAttempt k = some t) (hrest : ∀ j, j ≠ k → ∀ t0, L.lastAttempt j = some t0 → L'.lastAttempt j = some t0)
    (hagain : again = [] ∨ again = [(k, some t)]) (j : InstanceId) : Onward L L' again j := by
  have hpast : ∀ t0, L.lastAttempt k = some t0 → seconds L.limits.2 ≤ t - t0 := by
    intro t0 h0
    rw [lastAttempt_of_row hrow] at h0
    exact not_cooling hcool h0
  by_cases hj : j = k
  · subst hj
    rcases hagain with rfl | rfl
    · refine .kept rfl fun t0 h0 => ⟨t, hself, ?_⟩
      exact Int.le_of_sub_nonneg ((seconds_nonneg _).trans (hpast t0 h0))
    · exact .restarted t (by simp [restartTimes]) hself hpast
  · refine .kept ?_ fun t0 h0 => ⟨t0, hrest j hj t0 h0, le_rfl⟩
    rcases hagain with rfl | rfl
    · rfl
    · simp [restartTimes, Ne.symm hj]

theorem Tended.attempts (h : Tended k a rs L L') :
    L'.attempts = Function.update L.attempts k a.healingAttempts := by
  change (fun r => (r.map Instance.healingAttempts).getD 0) ∘ L'.row = _
  rw [h.row, comp_update]
  rfl

theorem Tended.lastAttempt (h : Tended k a rs L L') :
    L'.lastAttempt = Function.update L.lastAttempt k a.lastHealingAttemptAt := by
  change (fun r => r.bind Instance.lastHealingAttemptAt) ∘ L'.row = _
  rw [h.row, comp_update]
  rfl

theorem Succeeded.attempts (h : Succeeded k a b rs ss L L') :
    L'.attempts = Function.update (Function.update L.attempts k a.healingAttempts) L.next b.healingAttempts := by
  change (fun r => (r.map Instance.healingAttempts).getD 0) ∘ L'.row = _
  rw [h.row, comp_update, comp_update]
  rfl

theorem Succeeded.lastAttempt (h : Succeeded k a b rs ss L L') (hj : j ≠ L.next) :
    L'.lastAttempt j = Function.update L.lastAttempt k a.lastHealingAttemptAt j := by
  change ((fun r => r.bind Instance.lastHealingAttemptAt) ∘ L'.row) j = _
  rw [h.row, comp_update, comp_update, update_of_ne hj]
  rfl

theorem Paced.rested (h : Paced L0 rs L) (hrow : L.row k = some inst)
    (hattempts : a.healingAttempts = inst.healingAttempts)
    (hlast : a.lastHealingAttemptAt = inst.lastHealingAttemptAt) (h' : Tended k a [] L L') :
    Paced L0 (rs ++ []) L' := by
  refine h.onward h'.restarts h'.limits ?_ fun j => .kept rfl fun t0 h0 => ⟨t0, ?_, le_rfl⟩
  · rw [h'.attempts, hattempts, ← attempts_of_row hrow, update_eq_self]
    exact fun _ => le_rfl
  · rw [h'.lastAttempt, hlast, ← lastAttempt_of_row hrow, update_eq_self]
    exact h0

theorem Paced.tried (h : Paced L0 rs L) (hrow : L.row k = some inst) (hcool : inst.cooling L.limits.2 t = false)
    (hattempts : a.healingAttempts = inst.healingAttempts + 1) (hlast : a.lastHealingAttemptAt = some t)
    (hagain : again = [] ∨ again = [(k, some t)]) (h' : Tended k a again L L') : Paced L0 (rs ++ again) L' := by
  refine h.onward h'.restarts h'.limits ?_ (onward_tried hrow hcool ?_ ?_ hagain)
  · rw [h'.attempts, hattempts, ← attempts_of_row hrow]
    exact le_update_self_iff.2 (Nat.le_succ _)
  · rw [h'.lastAttempt, update_self, hlast]
  · intro j hj t0 h0
    rw [h'.lastAttempt, update_of_ne hj, h0]

theorem Paced.replaced (h : Paced L0 rs L) (hrow : L.row k = some inst) (hnext : L.row L.next = none)
    (hcool : inst.cooling L.limits.2 t = false) (hattempts : a.healingAttempts = inst.healingAttempts + 1)
    (hlast : a.lastHealingAttemptAt = some t) (h' : Succeeded k a b [(k, some t)] ss L L') :
    Paced L0 (rs ++ [(k, some t)]) L' := by
  have hne : ∀ {j : InstanceId} {inst : Instance}, L.row j = some inst → j ≠ L.next := by
    rintro j inst hj rfl
    rw [hnext] at hj
    cases hj
  refine h.onward h'.restarts h'.limits ?_ (onward_tried hrow hcool ?_ ?_ (.inr rfl))
  · rw [h'.attempts, hattempts, ← attempts_of_row hrow]
    have hgrow : L.attempts ≤ Function.update L.attempts k (L.attempts k + 1) :=
      le_update_self_iff.2 (Nat.le_succ _)
    refine hgrow.trans (le_update_self_iff.2 ?_)
    rw [update_of_ne (hne hrow).symm, Ledger.attempts, hnext]
    exact Nat.zero_le _
  · rw [h'.lastAttempt (hne hrow), update_self, hlast]
  · intro j hj t0 h0
    obtain ⟨old, hold, -⟩ := Option.bind_eq_some_iff.1 h0
    rw [h'.lastAttempt (hne hold), update_of_ne hj, h0]

end Spacing

/-! ## Chains -/

/-- Since `L0` the replacements `ps` were made, the restarts `rs` and the starts `ss` asked for, and the books
on the chain of `i` are in order. -/
structure Chained (L0 : Ledger) (i : InstanceId) (ps : List (InstanceId × InstanceId))
    (rs : List (InstanceId × Option Time)) (ss : List InstanceId) (L : Ledger) : Prop where
  pairs : L.pairs = L0.pairs ++ ps
  starts : L.starts = L0.starts ++ ss
  fresh : ∀ j, L.next ≤ j → L.row j = none
  /-- Whoever was replaced is FAILED, so the monitor does not come back to it. -/
  retired : ∀ k ∈ ps.map Prod.fst, ∃ a, L.row k = some a ∧ a.status = .failed
  paced : Paced L0 rs L
  tally : Tally (· < L.next) L.attempts L0.limits.1 i ps (rs.map Prod.fst) ss

section Chains

variable {i k : InstanceId} {a b : Instance} {ps : List (InstanceId × InstanceId)}
  {rs again : List (InstanceId × Option Time)} {ss : List InstanceId} {L0 L L' : Ledger} {t : Time}

theorem Chained.lt_next (h : Chained L0 i ps rs ss L) (hrow : L.row k = some inst) : k < L.next := by
  by_contra hle
  rw [h.fresh k (not_lt.1 hle)] at hrow
  cases hrow

theorem Chained.not_replaced (h : Chained L0 i ps rs ss L) (hrow : L.row k = some inst)
    (hst : inst.status ≠ .failed) : k ∉ ps.map Prod.fst := by
  intro hin
  obtain ⟨a, ha, hfailed⟩ := h.retired k hin
  rw [hrow, Option.some.injEq] at ha
  exact hst (ha ▸ hfailed)

theorem Chained.tended (h : Chained L0 i ps rs ss L) (hrow : L.row k = some inst) (hst : inst.status ≠ .failed)
    (h' : Tended k a again L L') (hpaced : Paced L0 (rs ++ again) L')
    (htally : Tally (· < L.next) L'.attempts L0.limits.1 i ps ((rs ++ again).map Prod.fst) ss) :
    Chained L0 i ps (rs ++ again) ss L' := by
  refine ⟨h'.pairs.trans h.pairs, h'.starts.trans h.starts, fun j hj => ?_, fun j hj => ?_, hpaced, ?_⟩
  · rw [h'.next] at hj
    rw [h'.row, update_of_ne ((h.lt_next hrow).trans_le hj).ne', h.fresh j hj]
  · rw [h'.row, update_of_ne (ne_of_mem_of_not_mem hj (h.not_replaced hrow hst))]
    exact h.retired j hj
  · rw [h'.next]
    exact htally

theorem Chained.succeeded (h : Chained L0 i ps rs ss L) (hrow : L.row k = some inst) (hst : inst.status ≠ .failed)
    (hfailed : a.status = .failed) (hmax : inst.healingAttempts < L0.limits.1)
    (hattempts : a.healingAttempts = inst.healingAttempts + 1) (hnew : b.healingAttempts = inst.healingAttempts + 1)
    (h' : Succeeded k a b [(k, some t)] [L.next] L L') (hpaced : Paced L0 (rs ++ [(k, some t)]) L') :
    Chained L0 i (ps ++ [(k, L.next)]) (rs ++ [(k, some t)]) (ss ++ [L.next]) L' := by
  have hk := h.lt_next hrow
  have hfree := h.not_replaced hrow hst
  refine ⟨?_, ?_, fun j hj => ?_, fun j hj => ?_, hpaced, ?_⟩
  · rw [h'.pairs, h.pairs, append_assoc]
  · rw [h'.starts, h.starts, append_assoc]
  · rw [h'.next] at hj
    rw [h'.row, update_of_ne (Nat.lt_of_succ_le hj).ne',
      update_of_ne (hk.trans (Nat.lt_of_succ_le hj)).ne', h.fresh j (Nat.le_of_succ_le hj)]
  · have hrow' : ∀ {j}, j < L.next → L'.row j = Function.update L.row k (some a) j := by
      intro j hj
      rw [h'.row, update_of_ne hj.ne]
    rw [map_append, mem_append, map_singleton, mem_singleton] at hj
    rcases hj with hj | rfl
    · obtain ⟨a', ha', hst'⟩ := h.retired j hj
      refine ⟨a', ?_, hst'⟩
      rw [hrow' (h.lt_next ha'), update_of_ne (ne_of_mem_of_not_mem hj hfree), ha']
    · refine ⟨a, ?_, hfailed⟩
      rw [hrow' hk, update_self]
  · -- the attempt is counted on `k` first, and its replacement takes over the new count
    have hcount := attempts_of_row hrow
    have htry : Tally (· < L.next) (Function.update L.attempts k (L.attempts k + 1)) L0.limits.1 i ps
        (rs.map Prod.fst ++ [k]) ss := h.tally.attempt hk hfree (hcount ▸ hmax) (.inr rfl)
    have hroom : k ∈ lineage i ps →
        ss.countP (· ∈ lineage i ps) < Function.update L.attempts k (L.attempts k + 1) k := by
      intro hmem
      rw [update_self]
      exact Nat.lt_succ_of_le (h.tally.starts_le_of_mem hfree hmem)
    have hfollow := htry.follow (lt_irrefl L.next) hfree hroom
    rw [update_self] at hfollow
    rw [h'.attempts, h'.next, hattempts, hnew, ← hcount, map_append, map_singleton]
    exact hfollow.widen fun j hj => Nat.lt_succ_of_le (hj.elim Nat.le_of_lt Nat.le_of_eq)

/-- A call for an instance that the monitor has found alive. -/
theorem Chained.healed (h : Chained L0 i ps rs ss L) (hrow : L.row k = some inst) (hst : inst.status ≠ .failed)
    (he : Healed k inst L L') : ∃ ps' rs' ss', Chained L0 i ps' rs' ss' L' := by
  have hcount := attempts_of_row hrow
  have hlimit := congrArg Prod.fst h.paced.limits
  cases he with
  | rested a hattempts hlast h' =>
    refine ⟨ps, rs ++ [], ss, h.tended hrow hst h' (h.paced.rested hrow hattempts hlast h') ?_⟩
    rw [h'.attempts, hattempts, ← hcount, update_eq_self, append_nil]
    exact h.tally
  | tried t a again hcool hmax hattempts hlast hagain h' =>
    refine ⟨ps, rs ++ again, ss,
      h.tended hrow hst h' (h.paced.tried hrow hcool hattempts hlast hagain h') ?_⟩
    rw [hlimit, ← hcount] at hmax
    rw [h'.attempts, hattempts, ← hcount, map_append]
    exact h.tally.attempt (h.lt_next hrow) (h.not_replaced hrow hst) hmax
      (hagain.imp (congrArg (List.map Prod.fst)) (congrArg (List.map Prod.fst)))
  | replaced t a b hcool hmax hattempts hlast hfailed hnew h' =>
    exact ⟨_, _, _, h.succeeded hrow hst hfailed (hlimit ▸ hmax) hattempts hnew h'
      (h.paced.replaced hrow (h.fresh _ le_rfl) hcool hattempts hlast h')⟩

/-- A call writes no row but that of its instance and a new one. -/
theorem Healed.row_of_ne (he : Healed k inst L L') {j : InstanceId} (hk : j ≠ k) (hj : j ≠ L.next) :
    L'.row j = L.row j := by
  cases he with
  | rested a _ _ h => rw [h.row, update_of_ne hk]
  | tried t a rs _ _ _ _ _ h => rw [h.row, update_of_ne hk]
  | replaced t a b _ _ _ _ _ _ h => rw [h.row, update_of_ne hj, update_of_ne hk]

end Chains

/-! ## The monitor -/

/-- The books are in order, and the instances `xs` that a loop has yet to visit are alive. -/
structure Watched (L0 : Ledger) (i : InstanceId) (xs : List InstanceId) (L : Ledger) : Prop where
  chained : ∃ ps rs ss, Chained L0 i ps rs ss L
  once : xs.Nodup
  alive : ∀ x ∈ xs, ∃ inst, L.row x = some inst ∧ inst.status ≠ .failed

section Monitor

variable (o : Oracle) {L0 : Ledger} {i k : InstanceId} {xs : List InstanceId} {hc : HealthCheck} {w : World}

variable {L : Ledger}

theorem Watched.limits (h : Watched L0 i xs L) : L.limits = L0.limits := by
  obtain ⟨_, _, _, h⟩ := h.chained
  exact h.paced.limits

theorem Watched.healed {L L' : Ledger} (h : Watched L0 i (k :: xs) L)
    (he : ∀ inst, L.row k = some inst → Healed k inst L L') : Watched L0 i xs L' := by
  obtain ⟨ps, rs, ss, hc⟩ := h.chained
  obtain ⟨inst, hrow, hst⟩ := h.alive k mem_cons_self
  have hhealed := he inst hrow
  obtain ⟨hnotin, honce⟩ := nodup_cons.1 h.once
  refine ⟨hc.healed hrow hst hhealed, honce, fun x hx => ?_⟩
  obtain ⟨a, ha, hsta⟩ := h.alive x (mem_cons_of_mem k hx)
  refine ⟨a, ?_, hsta⟩
  rw [hhealed.row_of_ne (ne_of_mem_of_not_mem hx hnotin) (hc.lt_next ha).ne, ha]

theorem Watched.skipped (h : Watched L0 i (k :: xs) L) : Watched L0 i xs L :=
  ⟨h.chained, (nodup_cons.1 h.once).2, fun x hx => h.alive x (mem_cons_of_mem k hx)⟩

theorem watched_select {p : Instance → Bool} (h : Watched L0 i [] L) (hL : w.ledger = L)
    (hp : ∀ inst : Instance, p inst = true → inst.status ≠ .failed) :
    Watched L0 i (w.db.instances.select p) L := by
  refine ⟨h.chained, w.db.instances.select_nodup p, fun x hx => ?_⟩
  obtain ⟨inst, hrow, hinst⟩ := Table.mem_select.1 hx
  exact ⟨inst, hL ▸ hrow, hp inst hinst⟩

theorem Watched.done (h : Watched L0 i xs L) : Watched L0 i [] L :=
  ⟨h.chained, nodup_nil, by simp⟩

theorem watched_heal (h : Watched L0 i (k :: xs) w.ledger) (hlim : hc.limits = L0.limits) :
    Watched L0 i xs (heal o hc k w).2.ledger :=
  h.healed fun _ hrow => heal_healed o hrow (hlim.trans h.limits.symm)

theorem watched_poll (host : String) (h : Watched L0 i (k :: xs) w.ledger) :
    Watched L0 i xs (pollInstance o k host w).2.ledger := by
  rw [← ledger_poll w o k host] at h
  rcases hres : w.poll o k host with ⟨e | due, w1⟩ <;> rw [hres] at h
  · rw [pollInstance, run_bind_error (m := poll o k host) hres]
    exact h.skipped
  rw [pollInstance, run_bind_ok (m := poll o k host) hres, getDb, run_read_bind]
  rcases due with _ | _
  · exact h.skipped
  rcases hcheck : w1.db.healthCheck with _ | hc
  · exact h.skipped
  · exact watched_heal o h ((limits_of_check hcheck).trans h.limits)

/-- A loop of the monitor; an exception ends it early. -/
theorem watched_each {f : InstanceId → M Unit}
    (hf : ∀ k xs w, Watched L0 i (k :: xs) w.ledger → Watched L0 i xs (f k w).2.ledger) (xs : List InstanceId)
    (h : Watched L0 i xs w.ledger) :
    Ends (Prog.each f xs w) (fun _ w' => Watched L0 i [] w'.ledger) fun _ w' => Watched L0 i [] w'.ledger := by
  refine ends_each (I := fun xs w => Watched L0 i xs w.ledger) (fun k xs w h => ?_) xs w h
  exact (ends_of_state (P := fun w' => Watched L0 i xs w'.ledger) (hf k xs w h)).mono
    (fun _ _ h' => h') fun _ _ h' => h'.done

theorem watched_healUnhealthy (h : Watched L0 i [] w.ledger) :
    Ends (healUnhealthy o w) (fun _ w' => Watched L0 i [] w'.ledger) fun _ w' => Watched L0 i [] w'.ledger := by
  unfold healUnhealthy
  rw [getDb, run_read_bind]
  rcases hcheck : w.db.healthCheck with _ | hc
  · exact h
  · have hlim : hc.limits = L0.limits := (limits_of_check hcheck).trans h.limits
    refine watched_each (fun k xs w h => watched_heal o h hlim) _ (watched_select h rfl ?_)
    intro inst hp hst
    rw [hst] at hp
    cases hp

theorem watched_tick (h : Watched L0 i [] w.ledger) :
    Ends (tick o w) (fun _ w' => Watched L0 i [] w'.ledger) fun _ w' => Watched L0 i [] w'.ledger := by
  unfold tick
  rw [getDb, run_read_bind]
  rcases w.db.healthCheck with _ | hc
  · exact h
  rcases w.db.application.serverId.bind w.db.servers with _ | server
  · exact h
  refine Ends.bind (watched_each (fun k xs w h => watched_poll o server.hostname h) _ (watched_select h rfl ?_))
    (fun _ w1 h1 => watched_healUnhealthy o h1) fun _ _ h1 => h1
  intro inst hp hst
  rw [hst] at hp
  cases hp

end Monitor

theorem watched_beat {i : InstanceId} {L0 : Ledger} {w : World} (e : Oracle × Beat)
    (h : Watched L0 i [] w.ledger) : Watched L0 i [] (w.beat e).ledger := by
  obtain ⟨o, b⟩ := e
  cases b with
  | tick =>
    have hend : Ends (tickGuard (tick o) w) (fun _ w' => Watched L0 i [] w'.ledger) fun _ w' =>
        Watched L0 i [] w'.ledger := by
      unfold tickGuard
      rw [run_attempt_bind]
      have htick := (watched_tick o h).state
      generalize (tick o w).2 = w1 at htick ⊢
      rcases (tick o w).1 with e | a
      · exact htick
      · exact htick
    exact hend.state
  | sleep =>
    change Watched L0 i [] (w.suspend o).ledger
    rw [ledger_suspend]
    exact h
  | agentSeen s status => exact h

/-! ## Whole runs -/

namespace Ledger

variable (L0 L : Ledger) (i : InstanceId)

/-- The replacements made since `L0`. -/
def pairsSince : List (InstanceId × InstanceId) := L.pairs.drop L0.pairs.length

def restartsSince : List (InstanceId × Option Time) := L.restarts.drop L0.restarts.length

def startsSince : List InstanceId := L.starts.drop L0.starts.length

/-- `i`, its replacement, the replacement of that one, and so on. -/
def chain : List InstanceId := lineage i (pairsSince L0 L)

end Ledger

/-- Self-healing has kept its bounds on the chain of `i` since `L0`. -/
structure BoundedHealing (i : InstanceId) (L0 L : Ledger) : Prop where
  appended : L0.pairs <+: L.pairs ∧ L0.restarts <+: L.restarts ∧ L0.starts <+: L.starts
  replaced_once : ((L0.pairsSince L).map Prod.fst).Nodup
  restarts_le : ((L0.restartsSince L).map Prod.fst).countP (· ∈ L0.chain L i) ≤ L0.limits.1
  starts_le : (L0.startsSince L).countP (· ∈ L0.chain L i) ≤ L0.limits.1
  /-- Along the chain, and over time. -/
  attempts_mono : ((L0.chain L i).map L.attempts).Pairwise (· ≤ ·)
  attempts_grow : ∀ k, L0.attempts k ≤ L.attempts k
  cooled : ∀ k, ((L0.lastAttempt k).toList ++ restartTimes k (L0.restartsSince L)).Pairwise
    fun t t' => seconds L0.limits.2 ≤ t' - t

theorem Chained.bounded {i : InstanceId} {L0 L : Ledger} {ps : List (InstanceId × InstanceId)}
    {rs : List (InstanceId × Option Time)} {ss : List InstanceId} (h : Chained L0 i ps rs ss L) :
    BoundedHealing i L0 L := by
  have hps : L0.pairsSince L = ps := by rw [Ledger.pairsSince, h.pairs, drop_left]
  have hrs : L0.restartsSince L = rs := by rw [Ledger.restartsSince, h.paced.restarts, drop_left]
  have hss : L0.startsSince L = ss := by rw [Ledger.startsSince, h.starts, drop_left]
  have hchain : L0.chain L i = lineage i ps := by rw [Ledger.chain, hps]
  refine ⟨⟨⟨ps, h.pairs.symm⟩, ⟨rs, h.paced.restarts.symm⟩, ⟨ss, h.starts.symm⟩⟩, ?_, ?_, ?_, ?_, h.paced.grow, ?_⟩
  · rw [hps]
    exact h.tally.once
  · rw [hrs, hchain]
    exact h.tally.tries_le
  · rw [hss, hchain]
    exact h.tally.starts_le
  · rw [hchain]
    exact h.tally.mono
  · rw [hrs]
    exact h.paced.spaced

theorem watched_init {i : InstanceId} {w : World} (hrow : w.db.instances.row i = some inst)
    (h0 : inst.healingAttempts = 0) : Watched w.ledger i [] w.ledger := by
  have hcount : w.ledger.attempts i = 0 := (attempts_of_row hrow).trans h0
  have hlt : i < w.ledger.next := Table.lt_of_row hrow
  exact ⟨⟨[], [], [], (append_nil _).symm, (append_nil _).symm, w.db.instances.row_none, by simp,
    paced_refl _, Succession.tally_one hlt hcount⟩, nodup_nil, by simp⟩

/-- One call restarts its own instance only, and only when the cooldown since the last attempt is over. -/
theorem Healed.cooled {k : InstanceId} {L L' : Ledger} (he : Healed k inst L L') {t0 : Time}
    (h0 : inst.lastHealingAttemptAt = some t0) :
    ∃ again, L'.restarts = L.restarts ++ again ∧
      ∀ p ∈ again, ∃ t, p = (k, some t) ∧ seconds L.limits.2 ≤ t - t0 := by
  cases he with
  | rested a _ _ h => exact ⟨[], h.restarts, by simp⟩
  | tried t a rs hcool _ _ _ hrs h =>
    refine ⟨rs, h.restarts, fun p hp => ⟨t, ?_, not_cooling hcool h0⟩⟩
    rcases hrs with rfl | rfl
    · cases hp
    · exact mem_singleton.1 hp
  | replaced t a b hcool _ _ _ _ _ h =>
    exact ⟨_, h.restarts, fun p hp => ⟨t, mem_singleton.1 hp, not_cooling hcool h0⟩⟩

/-- From an instance with no attempts, whatever the ticks, pauses, agents and outcomes: at most
`max_restart_attempts` restarts and replacement starts for its whole chain. No call restarts an instance
before the cooldown since its last attempt is over. -/
theorem self_healing_bounded {w : World} {i : InstanceId} {inst : Instance}
    (hrow : w.db.instances.row i = some inst) (h0 : inst.healingAttempts = 0) (es : List (Oracle × Beat)) :
    BoundedHealing i w.ledger (Runs.run World.beat w es).ledger ∧
      ∀ (o : Oracle) (u : World) (hc : HealthCheck) (k : InstanceId) (a : Instance) (t0 : Time),
        u.db.healthCheck = some hc → u.db.instances.row k = some a → a.lastHealingAttemptAt = some t0 →
        ∃ again, (heal o hc k u).2.ledger.restarts = u.ledger.restarts ++ again ∧
          ∀ p ∈ again, ∃ t, p = (k, some t) ∧ seconds hc.restartCooldownSeconds ≤ t - t0 := by
  constructor
  · have hinv : Watched w.ledger i [] (Runs.run World.beat w es).ledger :=
      Runs.stable (I := fun u => Watched w.ledger i [] u.ledger) (fun _ e h => watched_beat e h) es w
        (watched_init hrow h0)
    obtain ⟨_, _, _, h⟩ := hinv.chained
    exact h.bounded
  · intro o u hc k a t0 hcheck ha hlast
    have hlim := limits_of_check hcheck
    have hcooled := (heal_healed o ha hlim).cooled hlast
    rw [← hlim] at hcooled
    exact hcooled

/-- One RUNNING instance and nobody at work. -/
def lone : World :=
  (Sample.world none [] 1).setDb { Sample.db none [Sample.instanceOf 0 8000 .running] 1 with
    application := (Sample.db none [] 1).application.forceRelease }

/-- No poll succeeds, the restart of instance 0 does not help, and its replacement recovers. Every suspension
takes 20 seconds. -/
def flapping : Oracle := { Sample.allWell with
  poll := fun _ _ => .ok none
  probe := fun i _ => .ok (if i = 0 then none else some 200)
  elapsed := fun _ => 20000000 }

def twoTicks : World := Runs.run World.beat lone [(flapping, .tick), (flapping, .sleep), (flapping, .tick)]

/-- Instance 0 is restarted and replaced, and its replacement is restarted by the next tick: two of the three
attempts are used up. -/
theorem self_healing_bounded_two_ticks :
    (lone.ledger.chain twoTicks.ledger 0 = [0, 1] ∧
      (lone.ledger.restartsSince twoTicks.ledger).map Prod.fst = [0, 1] ∧
      lone.ledger.startsSince twoTicks.ledger = [1] ∧ twoTicks.ledger.attempts 1 = 2) ∧
      BoundedHealing 0 lone.ledger twoTicks.ledger :=
  ⟨by decide +kernel, (self_healing_bounded (w := lone) (i := 0) rfl rfl _).1⟩

end Healer
