import Healer.Sanity.Healing
import Healer.Sanity.Sample
import Healer.Spec.Ops

/-! What `_heal` does to an instance that another operation has retired since the tick read it. -/

namespace Healer

open Sample

open Prog (Ends)

/-- The statuses that scale, release switch and manual stop leave an instance in. -/
def InstanceStatus.retired : InstanceStatus → Bool
  | .draining | .stopped | .failed => true
  | _ => false

def Db.auditsOf (db : Db) (i : InstanceId) : List AuditRow := db.audits.filter fun a => a.instanceId == i

/-- The call for `i` has not touched it, and has not ended the tick. -/
structure Spared (i : InstanceId) (w : World) (r : Except Exn Unit) (w' : World) : Prop where
  returns : r = .ok ()
  row : w'.db.instances.row i = w.db.instances.row i
  audits : w'.db.auditsOf i = w.db.auditsOf i
  notifications : w'.db.notifications = w.db.notifications

/-! ## What a call writes beside its instance -/

/-- From `L` to `L'` audit rows were appended, for `i` and `k` only, and no other row has changed. -/
structure Confined (i k : InstanceId) (L L' : Ledger) : Prop where
  row : ∀ j, j ≠ i → j ≠ k → L'.row j = L.row j
  audits : ∃ new : List AuditRow, L'.audits = L.audits ++ new ∧ ∀ a ∈ new, a.instanceId = i ∨ a.instanceId = k

section Confined

variable {i k : InstanceId} {inst : Instance} {L L1 L' : Ledger} {r : Except Exn Unit} {j : InstanceId}

theorem Confined.refl (L : Ledger) : Confined i k L L := ⟨fun _ _ _ => rfl, [], (List.append_nil _).symm, by simp⟩

theorem Confined.put (h : Confined i k L L1) (hj : j = i ∨ j = k) (a : Instance) :
    Confined i k L (L1.put j a) := by
  refine ⟨fun j' hi hk => ?_, h.audits⟩
  rw [Ledger.put_row_of_ne, h.row j' hi hk]
  rcases hj with rfl | rfl
  · exact hi
  · exact hk

theorem Confined.audit (h : Confined i k L L1) (hj : j = i ∨ j = k) (action : AuditAction)
    (port : ℕ) : Confined i k L (L1.audit j action port) := by
  obtain ⟨new, hnew, hmem⟩ := h.audits
  refine ⟨h.row, new ++ [⟨action, j, port⟩], ?_, ?_⟩
  · change L1.audits ++ _ = _
    rw [hnew, List.append_assoc]
  · intro a ha
    rw [List.mem_append, List.mem_singleton] at ha
    rcases ha with ha | rfl
    · exact hmem a ha
    · exact hj

theorem Confined.write (h : Confined i k L L1) (n : Note) : Confined i k L (L1.write n) := ⟨h.row, h.audits⟩

theorem Confined.gaveUp (h : Confined i k L L1) (hj : j = i ∨ j = k) (a : Instance)
    (reason text : String) : Confined i k L (L1.gaveUp j a reason text) := by
  have h' := (h.put hj (a.fail reason)).audit hj (.recoveryFailed reason) a.port
  exact ⟨h'.row, h'.audits⟩

theorem Confined.givenUp (h : Confined i k L L1) (he : GivenUp i inst L1 r L') : Confined i k L L' := by
  cases he with
  | done reason text => exact h.gaveUp (.inl rfl) inst reason text
  | barred reason _ _ => exact h.put (.inl rfl) _

theorem Confined.started (h : Confined i k L L1) {new : Instance} (he : Started k new L1 r L') : Confined i k L L' := by
  have hstart := h.write (.start k)
  cases he with
  | lost error => exact hstart.write _
  | raised error => exact hstart.write _
  | refused reason text => exact hstart.gaveUp (.inr rfl) new reason text
  | stuck => exact hstart.write _
  | running => exact (hstart.put (.inr rfl) _).audit (.inr rfl) _ _

theorem Confined.replaced (h : Confined i k L L1) (hk : L1.next = k) (he : Replaced i inst L1 r L') :
    Confined i k L L' := by
  cases he with
  | unplaced he => exact h.givenUp he
  | unstored => exact h.write _
  | placed new _ _ _ he =>
    subst hk
    have hadd : Confined i L1.next L (L1.add new) := by
      have h' := h.put (.inr rfl) new
      exact ⟨h'.row, h'.audits⟩
    exact (hadd.audit (.inl rfl) _ _).started he

theorem Confined.restarted (h : Confined i k L L1) (hk : L1.next = k) (he : Restarted i inst L1 r L') :
    Confined i k L L' := by
  have htried : Confined i k L (L1.tried i inst) :=
    ((h.put (.inl rfl) _).audit (.inl rfl) _ _).write _
  cases he with
  | barred _ => exact h
  | lost error => exact htried.write _
  | raised error => exact htried.write _
  | recovered => exact (htried.put (.inl rfl) _).audit (.inl rfl) _ _
  | replaced gated he =>
    refine Confined.replaced ?_ (by cases gated <;> exact hk) he
    cases gated with
    | false => exact (htried.put (.inl rfl) _).audit (.inl rfl) _ _
    | true => exact ((htried.write _).put (.inl rfl) _).audit (.inl rfl) _ _

theorem Confined.attempted {w' : World} (h : Confined i k L L1) (hk : L1.next = k) (he : Attempted i inst L1 r w') :
    Confined i k L w'.ledger := by
  cases he with
  | givenUp he => exact h.givenUp he
  | cooling he _ => exact he ▸ h
  | unreleased t _ _ he => exact (h.put (.inl rfl) _).givenUp he
  | restarted t _ _ he => exact (h.put (.inl rfl) _).restarted hk he

end Confined

/-! ## The call under the lock -/

section Heal

variable (o : Oracle) {hc : HealthCheck} {i : InstanceId} {inst : Instance} {w : World}

theorem heal_confined (hrow : w.ledger.row i = some inst) (hhc : w.db.healthCheck = some hc) :
    Confined i w.ledger.next w.ledger (heal o hc i w).2.ledger := by
  rcases hfree : w.db.application.lockFree w.clock with _ | _
  · rw [heal_held o hc hfree, ledger_commit]
    exact Confined.refl _
  rcases hconfig : w.db.application.config with _ | c
  · have hend : Ends (heal o hc i w) (fun _ w' => w'.ledger = w.ledger) fun _ w' => w'.ledger = w.ledger :=
      (heal_invalid o hc hfree hconfig).mono (fun _ _ h => h.elim) fun _ _ h => h
    rw [hend.state]
    exact Confined.refl _
  · have hstart : Confined i w.ledger.next w.ledger (w.ledger.removed i inst) :=
      ((Confined.refl _).put (.inl rfl) _).audit (.inl rfl) _ _
    exact hstart.attempted rfl (heal_ends o hc hfree hconfig (limits_of_check hhc) hrow).result

/-- With the lock in hand the call writes an audit row for its instance, or raises. -/
theorem heal_not_spared (hrow : w.ledger.row i = some inst) (hhc : w.db.healthCheck = some hc)
    (hfree : w.db.application.lockFree w.clock = true) :
    ¬ Spared i w (heal o hc i w).1 (heal o hc i w).2 := by
  intro h
  rcases hconfig : w.db.application.config with _ | c
  · have hend : Ends (heal o hc i w) (fun _ _ => (Except.ok () : Except Exn Unit) ≠ .ok ())
        fun e _ => (Except.error e : Except Exn Unit) ≠ .ok () :=
      (heal_invalid o hc hfree hconfig).mono (fun _ _ h => h.elim) fun _ _ _ => by rintro ⟨⟩
    exact hend.result (R := fun r _ => r ≠ .ok ()) h.returns
  · have hend := (heal_ends o hc hfree hconfig (limits_of_check hhc) hrow).result
    have hafter : Confined i w.ledger.next (w.ledger.removed i inst) (heal o hc i w).2.ledger :=
      (Confined.refl _).attempted rfl hend
    obtain ⟨new, hnew, -⟩ := hafter.audits
    have haudits : (heal o hc i w).2.db.audits = w.db.audits ++ [⟨.removedUnhealthy, i, inst.port⟩] ++ new := hnew
    have hlen := congrArg List.length h.audits
    simp [Db.auditsOf, haudits] at hlen

/-- `_heal` leaves a retired instance alone exactly when it does not obtain the lock; and it never touches
another retired instance. -/
theorem heal_spares_retired_iff (hrow : w.db.instances.row i = some inst) (hhc : w.db.healthCheck = some hc) :
    ((inst.status.retired = true → Spared i w (heal o hc i w).1 (heal o hc i w).2) ↔
        ¬ (w.db.application.lockFree w.clock = true ∧ inst.status.retired = true)) ∧
      ∀ j, j ≠ i → w.db.HasStatus InstanceStatus.retired j →
        (heal o hc i w).2.db.instances.row j = w.db.instances.row j ∧
          (heal o hc i w).2.db.auditsOf j = w.db.auditsOf j := by
  refine ⟨⟨fun h hboth => ?_, fun h hret => ?_⟩, fun j hj hst => ?_⟩
  · exact heal_not_spared o hrow hhc hboth.1 (h hboth.2)
  · have hheld : w.db.application.lockFree w.clock = false := by
      by_contra hfree
      exact h ⟨by simpa using hfree, hret⟩
    rw [heal_held o hc hheld]
    exact ⟨rfl, rfl, rfl, rfl⟩
  · obtain ⟨inst', hrow', -⟩ := hst
    have hk : j ≠ w.ledger.next := ne_next hrow'
    have hconf := heal_confined o hrow hhc
    refine ⟨hconf.row j hj hk, ?_⟩
    obtain ⟨new, hnew, hmem⟩ := hconf.audits
    have haudits : (heal o hc i w).2.db.audits = w.db.audits ++ new := hnew
    have hnone : new.filter (fun a => a.instanceId == j) = [] := by
      refine List.filter_eq_nil_iff.2 fun a ha => ?_
      rcases hmem a ha with h | h
      · rw [h, beq_iff_eq]
        exact hj.symm
      · rw [h, beq_iff_eq]
        exact hk.symm
    rw [Db.auditsOf, haudits, List.filter_append, hnone, List.append_nil]
    rfl

end Heal

/-- The lock is held by a deployment, and the instance is STOPPED. -/
def stoppedUnderLock : World := Sample.world none [instanceOf 0 8000 .stopped] 1

theorem heal_spares_retired_iff_held :
    Spared 0 stoppedUnderLock (heal allWell ⟨10, 5, 1, 1, none, 3, 30⟩ 0 stoppedUnderLock).1
      (heal allWell ⟨10, 5, 1, 1, none, 3, 30⟩ 0 stoppedUnderLock).2 :=
  (heal_spares_retired_iff allWell rfl rfl).1.2 (by decide) rfl

/-- Two RUNNING instances and nobody at work. -/
def restingPair : World :=
  (Sample.world none [] 2).setDb { Sample.db none
      [instanceOf 0 8000 .running, instanceOf 0 8001 .running] 2 with
    application := (Sample.db none [] 2).application.forceRelease }

/-- A tick has read both instances, and instance 0 has been stopped by hand. -/
def stoppedInTick : World := restingPair.history [(allWell, .tickBegin), (allWell, .stop 0)]

/-- The tick polls instance 0, which does not answer. -/
def polledInTick : World :=
  stoppedInTick.history [({ allWell with poll := fun _ _ => .ok none }, .tickPoll)]

/-- Instance 0 gets an attempt and an audit row, the transition is refused, and instance 1 is not polled. -/
theorem stale_decision_touches_stopped :
    (stoppedInTick.db.instances.row 0).map (·.status) = some .stopped ∧
      stoppedInTick.db.application.lockFree stoppedInTick.clock = true ∧
      (stoppedInTick.db.instances.row 0).map (·.healingAttempts) = some 0 ∧
      stoppedInTick.db.auditsOf 0 = [] ∧ stoppedInTick.monitor.map Prod.fst = [0, 1] ∧
      (polledInTick.db.instances.row 0).map (·.healingAttempts) = some 1 ∧
      polledInTick.db.auditsOf 0 = [⟨.removedUnhealthy, 0, 8000⟩] ∧ polledInTick.monitor.map Prod.fst = [] := by
  refine ⟨?_, ?_, ?_, ?_, ?_, ?_, ?_, ?_⟩ <;> decide +kernel

end Healer
