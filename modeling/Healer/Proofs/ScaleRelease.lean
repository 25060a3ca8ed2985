import Healer.Sanity.Sample
import Healer.Sanity.Scaling
import Healer.Spec.Ops

/-! Which release a scale operation starts. `start_scale` takes the newest READY release,
while routing goes by `active_release_id`; the new replicas are of the active release
exactly when the two agree. -/

namespace Healer

open Prog

/-- Only the lock differs. -/
def SameRows (w w' : World) : Prop := w'.core = { w.core with lock := w'.core.lock }

section Start

variable {o : Oracle} {target : ℕ} {w w' : World}

theorem acquire_spec (operation : String) (w : World) :
    Ends (LockService.acquire operation w) (fun _ => SameRows w) (fun _ => SameRows w) := by
  simp only [LockService.acquire, ends_bind, ends_now, ends_getDb]
  cases h : w.db.application.acquire operation w.clock with
  | none => exact rfl
  | some a =>
    unfold Application.acquire at h
    split at h
    · cases h
      exact rfl
    · cases h

theorem newestOf_congr {db db' : Db} (h : db'.releases = db.releases) (rs : List ReleaseId) :
    db'.newestOf rs = db.newestOf rs := by
  induction rs with
  | nil => rfl
  | cons r rs ih => simp only [Db.newestOf, ih, h]

theorem newestReady_congr (h : w'.core.releases = w.core.releases) :
    w'.db.newestReady = w.db.newestReady := by
  have hrel : w'.db.releases = w.db.releases := h
  unfold Db.newestReady Db.readyReleases
  rw [hrel]
  exact newestOf_congr hrel _

/-- What a scale operation from `w` creates is of the release that was the newest READY one
in `w`, on a server that is there. -/
structure NewestSpawned (w w' : World) : Prop where
  active : w'.core.active = w.core.active
  created : ∀ i inst, w.core.instances.next ≤ i → w'.core.instances.row i = some inst →
    ∃ r, w.db.newestReady = some r ∧ inst.releaseId = some r ∧
      (w'.core.servers inst.serverId).isSome

theorem newestSpawned_of_same (hactive : w'.core.active = w.core.active)
    (hinst : w'.core.instances = w.core.instances) : NewestSpawned w w' := by
  refine ⟨hactive, fun i inst hi hrow => ?_⟩
  rw [hinst] at hrow
  exact absurd (Table.lt_of_row hrow) (Nat.not_lt.2 hi)

theorem scaleApplication_spec (o : Oracle) (target : ℕ) (w : World) :
    Ends (scaleApplication o target w) (fun _ => NewestSpawned w) (fun _ => NewestSpawned w) := by
  refine Ends.bind (acquire_spec "scale" w) (fun token w1 h1 => ?_) (fun _ w1 h1 => ?_)
  swap
  · exact newestSpawned_of_same (by rw [h1]) (by rw [h1])
  have hactive1 : w1.core.active = w.core.active := by rw [h1]
  have hinst1 : w1.core.instances = w.core.instances := by rw [h1]
  rw [ends_bind, ends_attempt]
  refine (startScale_spec target w1).mono (fun d w2 h2 => ?_) (fun e w2 h2 => ?_)
  swap
  · -- a setup error gives the lock back and creates nothing
    obtain ⟨rfl, -⟩ := h2
    simp only [ends_bind, ends_ite, ends_raise]
    refine ⟨fun _ => ?_, fun _ => newestSpawned_of_same hactive1 hinst1⟩
    exact newestSpawned_of_same ((release_core _ _).trans hactive1) hinst1
  obtain ⟨hrest, dep, hrow, hst, hnewest⟩ := h2
  simp only [ends_bind, ends_suspend]
  have hcalm := calm_suspend o w2
  set w3 := w2.suspend o
  have hrow3 : w3.db.deployments.row d = some dep :=
    deployment_of_core hcalm.core hrow
  have hactive3 : w3.core.active = w.core.active := by rw [hcalm.core, hrest]; exact hactive1
  have hinst3 : w3.core.instances = w.core.instances := by rw [hcalm.core, hrest]; exact hinst1
  have hready : w.db.newestReady = some dep.releaseId := by
    rw [← hnewest]
    exact (newestReady_congr (by rw [h1])).symm
  have hspawn : ∀ w', Spawned dep.releaseId w3 w' → NewestSpawned w w' := by
    intro w' h
    refine ⟨h.active.trans hactive3, fun i inst hi hrow => ?_⟩
    rw [← hinst3] at hi
    obtain ⟨hrel, hserver⟩ := h.created i inst hi hrow
    exact ⟨dep.releaseId, hready, hrel, hserver⟩
  have hunlock : ∀ w', NewestSpawned w w' → NewestSpawned w (w'.unlock token) := fun w' h =>
    ⟨(release_core _ _).trans h.active, h.created⟩
  exact withDeployment_rule hrow3 ((scaleBody_spec hrow3 hst (scaled_start w3)).mono
    (fun _ w' h => hunlock w' (hspawn w' h.1))
    (fun _ w' h => released_of (hspawn w' h.1) (hunlock w' (hspawn w' h.1))))

end Start

/-- The replicas a scale operation adds to `w`. -/
structure ScaleRelease (w w' : World) : Prop where
  active : w'.db.application.activeReleaseId = w.db.application.activeReleaseId
  created : ∀ i inst, w.db.instances.next ≤ i → w'.db.instances.row i = some inst →
    (inst.releaseId = w'.db.application.activeReleaseId ↔
      w.db.newestReady = w.db.application.activeReleaseId)
  routed : w.db.newestReady = w.db.application.activeReleaseId →
    ∀ i inst, w.db.instances.next ≤ i → w'.db.instances.row i = some inst → inst.status = .running →
      i ∈ w'.db.reloadPayload.upstreams.map Upstream.instanceId

theorem mem_upstreams {w : World} {i : InstanceId} {inst : Instance}
    (hrow : w.db.instances.row i = some inst) (hst : inst.status = .running)
    (hrel : inst.releaseId = w.db.application.activeReleaseId)
    (hserver : (w.db.servers inst.serverId).isSome) :
    i ∈ w.db.reloadPayload.upstreams.map Upstream.instanceId := by
  obtain ⟨server, hserver⟩ := Option.isSome_iff_exists.1 hserver
  refine List.mem_map.2 ⟨⟨i, server.hostname, inst.port⟩, List.mem_filterMap.2 ⟨i, ?_, ?_⟩, rfl⟩
  · rw [Db.routable, Table.mem_select]
    refine ⟨inst, hrow, ?_⟩
    rw [← hrel]
    cases inst.releaseId with
    | none => simp [hst]
    | some r => simp [hst]
  · simp [Db.upstream, hrow, hserver]

/-- In every state, what a scale operation creates is of the active release if and only if
the newest READY release is the active one; then every replica it brings to RUNNING is
routed to. -/
theorem scale_creates_active_iff (o : Oracle) (w : World) (target : ℕ) :
    ScaleRelease w (scaleApplication o target w).2 := by
  have h := (scaleApplication_spec o target w).state
  have hactive : (scaleApplication o target w).2.db.application.activeReleaseId =
      w.db.application.activeReleaseId := h.active
  refine ⟨hactive, fun i inst hi hrow => ?_, fun hagree i inst hi hrow hst => ?_⟩
  · obtain ⟨r, hr, hrel, -⟩ := h.created i inst hi hrow
    rw [hactive, hrel, hr]
  · obtain ⟨r, hr, hrel, hserver⟩ := h.created i inst hi hrow
    exact mem_upstreams hrow hst (by rw [hactive, hrel, ← hr, hagree]) hserver

/-- A release is built and then refused by its health gate; the next scale operation starts
a replica of it, which is RUNNING and receives no traffic. -/
theorem scale_starts_refused_release :
    ∃ w, Sample.created.history [(Sample.slowly Sample.allWell, .deploy),
        (Sample.slowly Sample.neverHealthy, .release), (Sample.allWell, .scale 2)] = w ∧
      w.db.application.activeReleaseId = some 0 ∧
      (w.db.instances.row 2).map (fun inst => (inst.status, inst.releaseId)) = some (.running, some 1) ∧
      2 ∉ w.db.reloadPayload.upstreams.map Upstream.instanceId :=
  ⟨_, rfl, by decide +kernel, by decide +kernel, by decide +kernel⟩

end Healer
