import Healer.Proofs.Routing
import Healer.Sanity.Placid

/-! Scale-down and the manual stop take instances out of the upstream set before they stop them,
and look at no result of the sync in between. Whether a stop can hit an instance that is routed to
is decided by that one sync. -/

namespace Healer

open Prog List

theorem stopsUnrouted_of_not_stop {e : Entry} (h : e.event.isStop = false) : StopsUnrouted e := by
  intro agent key i payload he
  rw [he] at h
  cases h

theorem unhurt_emit {w : World} {e : Event} (h : w.Unhurt)
    (he : StopsUnrouted ⟨e, w.db, w.gateway.routed⟩) : (w.emit e).Unhurt := by
  intro x hx
  rw [emit_trace, mem_append, mem_singleton] at hx
  obtain hx | rfl := hx
  · exact h x hx
  · exact he

/-- The gateway and the count of syncs are those before the operation. -/
structure Unmoved (g : Gateway) (n : ℕ) (w : World) : Prop where
  gateway : w.gateway = g
  syncs : w.syncs = n
  unhurt : w.Unhurt

theorem placid_unmoved (g : Gateway) (n : ℕ) : Placid (Unmoved g n) :=
  ⟨fun _ _ _ h => ⟨h.gateway, h.syncs, h.unhurt⟩,
    fun _ _ he h => ⟨h.gateway, h.syncs, unhurt_emit h.unhurt (stopsUnrouted_of_not_stop he)⟩⟩

section Gateway

variable {g : Gateway} {S : List InstanceId} {p : ReloadPayload} {db : Db}

def ReloadPayload.LeavesOut (S : List InstanceId) (p : ReloadPayload) : Prop :=
  ∀ i ∈ S, i ∉ p.upstreams.map Upstream.instanceId

/-- The gateway routes to none of `S`, and no request on its way would change that. -/
structure Gateway.LeavesOut (S : List InstanceId) (g : Gateway) : Prop where
  routed : ∀ i ∈ S, i ∉ g.routed
  inFlight : ∀ q ∈ g.inFlight, q.2.LeavesOut S

theorem apply_unrouted (hp : p.LeavesOut S) : ∀ i ∈ S, i ∉ (g.apply p).routed := by
  intro i hi
  unfold Gateway.apply Gateway.routed
  by_cases hempty : (p.domains.isEmpty || p.upstreams.isEmpty) = true
  · simp [hempty]
  · simpa [hempty] using hp i hi

theorem foldl_apply_leavesOut (qs : List (ℕ × ReloadPayload)) :
    ∀ g : Gateway, g.LeavesOut S → (∀ q ∈ qs, q.2.LeavesOut S) →
      (qs.foldl (fun g q => g.apply q.2) g).LeavesOut S := by
  induction qs with
  | nil => intro g hg _; exact hg
  | cons q qs ih =>
    intro g hg hqs
    have hq := hqs q mem_cons_self
    exact ih _ ⟨apply_unrouted hq, hg.inFlight⟩ fun q' hq' => hqs q' (mem_cons_of_mem _ hq')

theorem Gateway.LeavesOut.pass (hg : g.LeavesOut S) : g.pass.LeavesOut S := by
  refine foldl_apply_leavesOut _ _ ⟨hg.routed, ?_⟩ ?_
  · intro q hq
    obtain ⟨q', hq', rfl⟩ := mem_map.1 hq
    exact hg.inFlight q' (mem_of_mem_filter hq')
  · intro q hq
    exact hg.inFlight q (mem_of_mem_filter hq)

/-- The request is applied by the time it is answered or given up. -/
def Delivery.applied : Delivery → Bool
  | .answered ok _ => ok
  | .unprocessable _ => false
  | .timedOut _ late => late == some 0

/-- None of `S` is RUNNING. -/
def Db.Drained (S : List InstanceId) (db : Db) : Prop :=
  ∀ i ∈ S, ∀ inst, db.instances.row i = some inst → inst.status ≠ .running

theorem Db.Drained.payload (h : db.Drained S) : db.reloadPayload.LeavesOut S := by
  intro i hi hmem
  obtain ⟨up, hup, rfl⟩ := mem_map.1 hmem
  obtain ⟨inst, hrow, hrunning, -⟩ := mem_reloadPayload hup
  exact h _ hi inst hrow hrunning

end Gateway

/-- From here on `S` can be stopped. -/
structure Cleared (S : List InstanceId) (w : World) : Prop where
  gateway : w.gateway.LeavesOut S
  unhurt : w.Unhurt

section Cleared

variable {o : Oracle} {S : List InstanceId} {d : DeploymentId} {agent : ServerId} {c : HealerYaml}
  {w : World} {i : InstanceId}

theorem placid_cleared (S : List InstanceId) : Placid (Cleared S) :=
  ⟨fun _ _ _ h => ⟨h.gateway, h.unhurt⟩,
    fun _ _ he h => ⟨h.gateway, unhurt_emit h.unhurt (stopsUnrouted_of_not_stop he)⟩⟩

theorem Cleared.keeps_suspend : Keeps (Cleared S) (suspend o) := by
  refine keeps_update fun w hw => ⟨?_, ?_⟩
  · have hgateway : (w.suspend o).gateway = w.gateway.pass :=
      congrArg (fun f => f.1.pass) (backgrounds_fixed o _ w)
    rw [hgateway]
    exact hw.gateway.pass
  · exact (calm_suspend o w).news.unhurt (fun _ he => he.stopsUnrouted) hw.unhurt

theorem Cleared.keeps_submitStop (hi : i ∈ S) (key : CommandKey) :
    Keeps (Cleared S) (submitStop o agent key i c) := by
  have hP := placid_cleared S
  refine keeps_bind (Placid.keeps_getInstance i) fun inst => ?_
  refine keeps_bind hP.keeps_commit fun _ => keeps_bind ?_ fun _ =>
    keeps_bind keeps_suspend fun _ => ?_
  · refine keeps_update fun w hw => ⟨hw.gateway, unhurt_emit hw.unhurt ?_⟩
    intro agent' key' j payload' he
    cases he
    exact hw.gateway.routed _ hi
  · cases o.reply key with
    | row row => exact keeps_bind (hP.keeps_emit rfl) fun _ => keeps_pure row
    | sendFailed error => exact keeps_bind (hP.keeps_emit rfl) fun _ => keeps_raise _

theorem Cleared.keeps_stopAndSettle (hi : i ∈ S) (key : InstanceId → CommandKey) :
    Keeps (Cleared S) (stopAndSettle o d agent key c i) := by
  have hP := placid_cleared S
  refine keeps_bind (keeps_submitStop hi _) fun row => ?_
  refine keeps_bind (Placid.keeps_getInstance i) fun inst => ?_
  refine keeps_bind (hP.keeps_persistInstanceCommandOutcome d row _) fun ok => ?_
  refine keeps_bind (hP.keeps_transition i _) fun _ => ?_
  exact keeps_bind hP.keeps_commit fun _ => keeps_pure ok

theorem Cleared.keeps_stopDrained (is : List InstanceId) :
    (∀ i ∈ is, i ∈ S) → ∀ ok, Keeps (Cleared S) (stopDrained o d agent c is ok) := by
  induction is with
  | nil => intro _ ok; exact keeps_pure ok
  | cons i is ih =>
    intro his ok
    refine keeps_bind (keeps_stopAndSettle (his i mem_cons_self) _) fun b => ?_
    exact ih (fun j hj => his j (mem_cons_of_mem _ hj)) _

theorem transition_drains (i : InstanceId) (w : World) :
    Ends (transition i .draining w)
      (fun _ v => v.db.instances = w.db.instances.modify i fun inst => { inst with status := .draining })
      (fun _ _ => True) := by
  rw [transition, ends_bind]
  cases hrow : w.db.instances.row i with
  | none => simp [getDb, hrow]
  | some inst =>
    simp only [getDb, ends_read, hrow, ends_bind, emit, modifyDb, ends_update,
      ends_ite, ends_raise]
    exact ⟨fun _ => rfl, fun _ => trivial⟩

theorem drained_modify {db : Db} {f : Instance → Instance} {rem : List InstanceId}
    (hf : ∀ inst, (f inst).status ≠ .running)
    (h : ∀ j ∈ S, j ∉ i :: rem → ∀ inst, db.instances.row j = some inst → inst.status ≠ .running) :
    ∀ j ∈ S, j ∉ rem → ∀ inst, (db.instances.modify i f).row j = some inst →
      inst.status ≠ .running := by
  intro j hj hrem inst hrow
  by_cases hji : j = i
  · subst hji
    rw [Table.modify_row_self, Option.map_eq_some_iff] at hrow
    obtain ⟨inst', -, rfl⟩ := hrow
    exact hf inst'
  · rw [Table.modify_row_of_ne _ _ hji] at hrow
    exact h j hj (by simp [hji, hrem]) inst hrow

theorem markDraining_row (d : DeploymentId) (i : InstanceId) (w : World) :
    Ends (markDraining d i w)
      (fun _ v => v.db.instances = w.db.instances.modify i
        fun inst => { inst with deploymentId := some d, status := .draining }) (fun _ _ => True) := by
  simp only [markDraining, ends_bind, modifyInstance, modifyDb, ends_update]
  refine (transition_drains i _).mono (fun _ v h => ?_) fun _ _ h => h
  rw [h]
  exact Table.modify_modify _ _ _ _

/-- The loop of `_scale_down` that marks its instances, with `rem` still to mark. -/
structure Marked (S : List InstanceId) (g : Gateway) (n : ℕ) (rem : List InstanceId) (w : World) :
    Prop where
  unmoved : Unmoved g n w
  rows : ∀ j ∈ S, j ∉ rem → ∀ inst, w.db.instances.row j = some inst → inst.status ≠ .running

theorem Marked.step {g : Gateway} {n : ℕ} {rem : List InstanceId} (h : Marked S g n (i :: rem) w) :
    Ends (markDraining d i w) (fun _ => Marked S g n rem) (fun _ => World.Unhurt) := by
  have hP := placid_unmoved g n
  have hkeep : Keeps (Unmoved g n) (markDraining d i) :=
    keeps_bind (hP.keeps_modifyInstance i _) fun _ => hP.keeps_transition i _
  refine ((hkeep.ends h.unmoved).and (markDraining_row d i w)).mono ?_ fun _ _ h => h.1.unhurt
  intro _ v ⟨hv, hinst⟩
  refine ⟨hv, ?_⟩
  rw [hinst]
  exact drained_modify (by simp) h.rows

end Cleared

namespace Sample

/-- Two instances of the active release, both routed to, with the lock free. -/
def served : World :=
  let rows := db (some shopDomain) [instanceOf 0 8000 .running, instanceOf 0 8001 .running] 2
  { world (some shopDomain) [] 2 with
    db := { rows with
      application := { rows.application with operationLock := none, operationLockAcquiredAt := none } }
    gateway := ⟨some rows.reloadPayload, []⟩ }

end Sample

end Healer
