import Healer.Sanity.Sample

/-! The write of `active_release_id` by a release switch: it happens only when every
new instance is up, and a switch that is not accepted leaves the old release as it was. -/

namespace Healer

open List Sample

open Prog (Ends)

/-- The entry is not a write of `active_release_id`. -/
def Plain (e : Entry) : Prop := ∀ r, e.event ≠ .setActive r

theorem Syncs.plain {ok : Bool} {e : Entry} (h : Syncs ok e) : Plain e := by
  intro r he
  rcases h with h | ⟨payload, h⟩ | h
  · exact (silent_background h).plain r he
  · rw [h] at he; cases he
  · rw [h] at he; cases he

/-- What must hold where `active_release_id := dep.releaseId` is written, with `pre` the
run so far. -/
structure GatePassed (d : DeploymentId) (dep : Deployment) (gated : Prop) (pre : List Entry)
    (e : Entry) : Prop where
  ready : ∃ rel, e.db.releases.row dep.releaseId = some rel ∧ rel.status = .ready
  count : (e.db.instances.select fun i =>
    i.deploymentId == some d && i.releaseId == some dep.releaseId).length = dep.instanceCount
  running : ∀ i inst, e.db.instances.row i = some inst → inst.deploymentId = some d →
    inst.releaseId = some dep.releaseId ∧ inst.status = .running
  started : ∀ i inst, e.db.instances.row i = some inst → inst.deploymentId = some d →
    ∃ row, Event.answered (.startInstance i) row ∈ pre.map Entry.event ∧ row.ok = true
  healthy : gated → ∀ i inst, e.db.instances.row i = some inst → inst.deploymentId = some d →
    Event.healthGate i true ∈ pre.map Entry.event
  unsynced : ∀ payload, Event.sync payload ∉ pre.map Entry.event

/-- Health gates apply to the run that starts in `w`. -/
def World.gated (w : World) : Prop :=
  w.db.healthCheck.isSome ∧ (w.db.application.serverId.bind w.db.servers).isSome

section Gate

variable {o : Oracle} {d : DeploymentId} {dep : Deployment} {s : ServerId} {c : HealerYaml}
  {new : List InstanceId} {w v : World}

/-- The instances of the deployment are the new ones. -/
theorem Prepared.mem_new (h : Prepared d dep s c new w v) (hopen : Opened d dep w) {i : InstanceId}
    {inst : Instance} (hrow : v.db.instances.row i = some inst) :
    i ∈ new ↔ inst.deploymentId = some d := by
  have hgrown := h.beside.grown
  constructor
  · intro hi
    rw [h.ids, mem_range'_1] at hi
    exact (hgrown.new i inst hi.1 hrow).1
  · intro hd
    have hle : w.db.instances.next ≤ i := by
      by_contra hlt
      have hold : v.core.instances.row i = w.core.instances.row i := hgrown.old i (Nat.lt_of_not_le hlt)
      exact hopen.fresh i inst (hold.symm.trans hrow) hd
    have hlt := Table.lt_of_row hrow
    rw [h.next] at hlt
    rw [h.ids, mem_range'_1]
    exact ⟨hle, hlt⟩

theorem Prepared.count_new (h : Prepared d dep s c new w v) (hopen : Opened d dep w) :
    (v.db.instances.select fun i =>
      i.deploymentId == some d && i.releaseId == some dep.releaseId).length = dep.instanceCount := by
  rw [← h.count]
  refine List.Perm.length_eq ((perm_ext_iff_of_nodup (Table.select_nodup _ _) ?_).2 fun i => ?_)
  · rw [h.ids]
    exact nodup_range'
  · rw [Table.mem_select]
    constructor
    · rintro ⟨inst, hrow, hp⟩
      simp only [Bool.and_eq_true, beq_iff_eq] at hp
      exact (h.mem_new hopen hrow).2 hp.1
    · intro hi
      obtain ⟨inst, hrow, -⟩ := (h.up i hi).running
      rw [h.ids, mem_range'_1] at hi
      obtain ⟨hd, hr⟩ := h.beside.grown.new i inst hi.1 hrow
      exact ⟨inst, hrow, by simp [hd, hr]⟩

theorem Prepared.gate_passed (h : Prepared d dep s c new w v) (hopen : Opened d dep w)
    (htrace : w.trace = []) (routed : List InstanceId) :
    GatePassed d dep w.gated v.trace ⟨.setActive (some dep.releaseId), v.db, routed⟩ := by
  have hup : ∀ i inst, v.db.instances.row i = some inst → inst.deploymentId = some d →
      i ∈ new ∧ Up (w.db.healthCheck.isSome ∧ (w.db.servers s).isSome) v i := fun i inst hrow hd =>
    have hi := (h.mem_new hopen hrow).2 hd
    ⟨hi, h.up i hi⟩
  refine ⟨?_, h.count_new hopen, fun i inst hrow hd => ?_, fun i inst hrow hd => ?_,
    fun hgated i inst hrow hd => ?_, fun payload hmem => ?_⟩
  · obtain ⟨rel, hrow, hready | ⟨hkind, hsame⟩⟩ := h.release
    · exact ⟨rel, hrow, hready⟩
    · obtain ⟨rel', hrow', hready⟩ := hopen.release
      rw [hsame] at hrow'
      cases hrow'
      exact ⟨rel, hrow, hready hkind⟩
  · obtain ⟨hi, hrun⟩ := hup i inst hrow hd
    obtain ⟨inst', hrow', hst⟩ := hrun.running
    rw [show v.db.instances.row i = some inst from hrow] at hrow'
    cases hrow'
    rw [h.ids, mem_range'_1] at hi
    exact ⟨(h.beside.grown.new i inst hi.1 hrow).2, hst⟩
  · exact (hup i inst hrow hd).2.started
  · refine (hup i inst hrow hd).2.healthy ⟨hgated.1, ?_⟩
    have hserver := hgated.2
    rw [h.server] at hserver
    exact hserver
  · rcases h.beside.news.cases hmem with hmem | ⟨x, hx, hev⟩
    · simp [World.events, htrace] at hmem
    · exact hx.1.silent.sync payload hev

/-- A property of the writes of `active_release_id` holds in the whole run if it holds of
the write behind the gate and of the write that undoes it. -/
theorem switch_always {φ : List Entry → Entry → Prop} {token : Time} (htrace : w.trace = [])
    (hrow : w.db.deployments.row d = some dep) (hst : dep.status = .inProgress)
    (hplain : ∀ pre e, Plain e → φ pre e)
    (hwrite : ∀ s c new v, Prepared d dep s c new w v →
      φ v.trace ⟨.setActive (some dep.releaseId), v.db, v.gateway.routed⟩)
    (hundo : ∀ pre e, e.event = .setActive w.db.application.activeReleaseId → φ pre e) :
    Trace.Always φ (runReleaseSwitch o d token w).2.trace := by
  have hstart : Trace.Always φ w.trace := by
    rw [htrace]
    exact Trace.always_nil φ
  have hmore : ∀ {P : Entry → Prop} {a b : World}, News P a b → (∀ e, P e → Plain e) →
      Trace.Always φ a.trace → Trace.Always φ b.trace :=
    fun hnews hP ha => hnews.always (fun es e _ he => hplain _ e (hP e he)) ha
  have hunlock : ∀ w' : World, Trace.Always φ w'.trace → Trace.Always φ (w'.unlock token).trace :=
    fun w' h => Trace.always_snoc.2 ⟨h, hplain _ _ (silent_background (e := ⟨.commit, _, _⟩) trivial).plain⟩
  have hbody : Ends (switchBody o d dep w) (fun _ w' => Trace.Always φ w'.trace)
      (fun _ w' => Trace.Always φ w'.trace) := by
    refine switchBody_rule hrow hst ⟨fun _ => hstart, fun _ => hstart, fun w' h _ => ?_,
      fun _ w' h _ _ => ?_⟩ fun s c new v hv => ?_
    · exact hmore h.news (fun e he => he.1.silent.plain) hstart
    · exact hmore h.news (fun e he => he.silent.plain) hstart
    have hv1 : Trace.Always φ (v.emit (.setActive (some dep.releaseId))).trace :=
      Trace.always_snoc.2 ⟨hmore hv.beside.news (fun e he => he.1.silent.plain) hstart, hwrite s c new v hv⟩
    have haccept : ∀ u, Accepted o dep.releaseId c v u → Trace.Always φ u.trace := fun u hu =>
      hmore hu.news (fun e he => he.plain) hv1
    have hreject : ∀ u, Rejected o dep.releaseId v u → Trace.Always φ u.trace := by
      intro u hu
      refine hu.news.always (fun es e _ he => ?_) hv1
      rcases he with he | he
      · exact hplain _ e he.plain
      · exact hundo _ e (he.trans (congrArg Event.setActive hv.beside.active))
    refine hv.switchTo_rule hrow hst ?_ ?_ ?_ ?_
    · exact fun u w' hu h => hmore h.news (fun e he => he.silent.plain) (haccept u hu)
    · exact fun _ u w' hu h _ => hmore h.news (fun e he => he.silent.plain) (haccept u hu)
    · intro u x w' _ hu hhalt hclose
      exact hmore hclose.news (fun e he => he.silent.plain)
        (hmore hhalt.news (fun e he => he.silent.plain) (hreject u hu))
    · exact fun _ u w' _ hu h _ => hmore h.news (fun e he => he.silent.plain) (hreject u hu)
  exact withDeployment_state hrow hbody hunlock

end Gate

/-- `active_release_id` is moved to the release of the deployment only once the release is
READY and all of the deployment's instances are up, and before any sync. -/
theorem switch_gate_all_or_nothing (o : Oracle) (w : World) (d : DeploymentId) (dep : Deployment)
    (token : Time) (hopen : Opened d dep w) (htrace : w.trace = []) :
    Trace.Always (fun pre e => e.event = .setActive (some dep.releaseId) →
      GatePassed d dep w.gated pre e) (runReleaseSwitch o d token w).2.trace := by
  refine switch_always htrace hopen.row hopen.inProgress (fun _ _ he h => (he _ h).elim) ?_ ?_
  · intro s c new v hv _
    exact hv.gate_passed hopen htrace _
  · intro pre e he h
    rw [he] at h
    exact (hopen.inactive (Event.setActive.inj h)).elim

/-- In the sample the write takes place, with two new instances behind it. -/
theorem switch_gate_sample :
    Trace.Always (fun pre e => e.event = .setActive (some 1) →
        GatePassed 0 (Sample.deployment 2) True pre e)
      (runReleaseSwitch allWell 0 0
        (Sample.world (some shopDomain) [instanceOf 0 8000 .running] 2)).2.trace ∧
    (runReleaseSwitch allWell 0 0
      (Sample.world (some shopDomain) [instanceOf 0 8000 .running] 2)).2.db.application.activeReleaseId
        = some 1 := by
  have hgated : (Sample.world (some shopDomain) [instanceOf 0 8000 .running] 2).gated =
      True := eq_true ⟨rfl, rfl⟩
  have h := switch_gate_all_or_nothing allWell
    (Sample.world (some shopDomain) [instanceOf 0 8000 .running] 2) 0
    (Sample.deployment 2) 0 (Sample.opened _ _ 2 (by simp [instanceOf])) rfl
  rw [hgated] at h
  exact ⟨h, by decide +kernel⟩

/-! ## A switch that is not accepted -/

/-- The switch to `r` was accepted: it was written and no sync refused it. -/
def SwitchAccepted (r : ReleaseId) (events : List Event) : Prop :=
  Event.setActive (some r) ∈ events ∧ Event.synced false ∉ events

/-- The active release and the instances of `w` are as they were; the other instances
belong to the deployment `d`. -/
structure Restored (d : DeploymentId) (w w' : World) : Prop where
  active : w'.db.application.activeReleaseId = w.db.application.activeReleaseId
  kept : ∀ i inst, w.db.instances.row i = some inst → w'.db.instances.row i = some inst
  created : ∀ i inst, w'.db.instances.row i = some inst → inst.deploymentId ≠ some d →
    w.db.instances.row i = some inst

section Restored

variable {o : Oracle} {d : DeploymentId} {dep : Deployment} {s : ServerId} {c : HealerYaml}
  {new : List InstanceId} {r : ReleaseId} {w v u w' : World}

theorem Grown.restored (h : Grown d r w.core.instances w'.core.instances)
    (hactive : w'.core.active = w.core.active) : Restored d w w' := by
  refine ⟨hactive, fun i inst hrow => ?_, fun i inst hrow hd => ?_⟩
  · exact (h.old i (Table.lt_of_row hrow)).trans hrow
  · by_cases hi : i < w.core.instances.next
    · exact (h.old i hi).symm.trans hrow
    · exact (hd (h.new i inst (Nat.le_of_not_lt hi) hrow).1).elim

/-- Undoing the write and stopping the new instances restores the rest. -/
theorem Prepared.rejected_restored (hv : Prepared d dep s c new w v)
    (hu : Rejected o dep.releaseId v u) {ok : Bool} {x : World}
    (hx : Halted o s .abortStopInstance .running new ok u x) :
    Grown d dep.releaseId w.core.instances x.core.instances ∧ x.core.active = w.core.active := by
  have hgrown : Grown d dep.releaseId w.core.instances u.core.instances := by
    rw [hu.core]
    exact hv.beside.grown
  refine ⟨hgrown.touched hx.touched fun i hi => ?_, ?_⟩
  · rw [hv.ids, mem_range'_1] at hi
    exact hi.1
  · rw [hx.touched.rest, hu.core]
    exact hv.beside.active

/-- After the write, only a refused sync is missing for the switch to count as accepted. -/
theorem Accepted.switchAccepted {P : Entry → Prop} (htrace : w.trace = [])
    (hv : Prepared d dep s c new w v) (hu : Accepted o dep.releaseId c v u) (hnews : News P u w')
    (hP : ∀ e, P e → Silent e) : SwitchAccepted dep.releaseId w'.events := by
  have hwritten : Event.setActive (some dep.releaseId) ∈ (v.emit (.setActive (some dep.releaseId))).events := by
    simp
  refine ⟨hnews.mem (hu.news.mem hwritten), fun hmem => ?_⟩
  rcases hnews.cases hmem with hmem | ⟨x, hx, hev⟩
  swap
  · exact (hP x hx).synced false hev
  rcases hu.news.cases hmem with hmem | ⟨x, hx, hev⟩
  swap
  · rcases hx with hx | ⟨payload, hx⟩ | hx
    · exact (silent_background hx).synced false hev
    · rw [hx] at hev; cases hev
    · rw [hx] at hev; cases hev
  rw [emit_events, mem_append, mem_singleton] at hmem
  rcases hmem with hmem | hmem
  · rcases hv.beside.news.cases hmem with hmem | ⟨x, hx, hev⟩
    · simp [World.events, htrace] at hmem
    · exact hx.1.silent.synced false hev
  · cases hmem

end Restored

/-- A switch that is not accepted leaves the active release and every instance that it did
not create as they were, whether it returns or raises. -/
theorem refused_switch_restores (o : Oracle) (w : World) (d : DeploymentId) (dep : Deployment)
    (token : Time) (hrow : w.db.deployments.row d = some dep) (hst : dep.status = .inProgress)
    (htrace : w.trace = [])
    (hrefused : ¬ SwitchAccepted dep.releaseId (runReleaseSwitch o d token w).2.events) :
    Restored d w (runReleaseSwitch o d token w).2 := by
  have hbody : Ends (switchBody o d dep w)
      (fun _ w' => ¬ SwitchAccepted dep.releaseId w'.events → Restored d w w')
      (fun _ w' => ¬ SwitchAccepted dep.releaseId w'.events → Restored d w w') := by
    have hsame : Restored d w w := (Grown.refl d dep.releaseId _).restored rfl
    refine switchBody_rule hrow hst ⟨fun _ _ => hsame, fun _ _ => hsame,
      fun w' h _ _ => h.grown.restored h.active, fun _ w' h _ _ _ => h.grown.restored h.active⟩
      fun s c new v hv => ?_
    refine hv.switchTo_rule hrow hst ?_ ?_ ?_ ?_
    · intro u w' hu h hno
      exact (hno (hu.switchAccepted htrace hv h.news fun e he => he.silent)).elim
    · intro _ u w' hu h _ hno
      exact (hno (hu.switchAccepted htrace hv h.news fun e he => he.silent)).elim
    · intro u x w' _ hu hx hclose _
      obtain ⟨hgrown, hactive⟩ := hv.rejected_restored hu hx
      rw [← hclose.instances] at hgrown
      exact hgrown.restored (hclose.active.trans hactive)
    · intro _ u w' _ hu hx _ _
      obtain ⟨hgrown, hactive⟩ := hv.rejected_restored hu hx
      exact hgrown.restored hactive
  have hunlock : ∀ w' : World, (¬ SwitchAccepted dep.releaseId w'.events → Restored d w w') →
      ¬ SwitchAccepted dep.releaseId (w'.unlock token).events → Restored d w (w'.unlock token) := by
    intro w' h hno
    have hevents : ¬ SwitchAccepted dep.releaseId w'.events := by
      intro hacc
      exact hno (by simpa [SwitchAccepted, World.unlock] using hacc)
    obtain ⟨hactive, hkept, hcreated⟩ := h hevents
    have hcore := unlock_core w' token
    have hinst : (w'.unlock token).core.instances = w'.core.instances := by rw [hcore]
    have hact : (w'.unlock token).core.active = w'.core.active := by rw [hcore]
    refine ⟨hact.trans hactive, fun i inst hi => ?_, fun i inst hi => ?_⟩
    · exact (congrArg (fun t => t.row i) hinst).trans (hkept i inst hi)
    · exact hcreated i inst ((congrArg (fun t => t.row i) hinst).symm.trans hi)
  exact withDeployment_state hrow hbody hunlock hrefused

/-- In the sample the gateway refuses two new instances and the old one stays. -/
theorem refused_switch_sample :
    Restored 0 (Sample.world (some shopDomain) [instanceOf 0 8000 .running] 2)
      (runReleaseSwitch Sample.refusing 0 0
        (Sample.world (some shopDomain) [instanceOf 0 8000 .running] 2)).2 := by
  refine refused_switch_restores _ _ 0 (Sample.deployment 2) 0 rfl rfl rfl fun hacc => hacc.2 ?_
  have hrefused : ((runReleaseSwitch Sample.refusing 0 0 (Sample.world (some shopDomain)
      [instanceOf 0 8000 .running] 2)).2.events.any Sample.refused) = true := by
    decide +kernel
  obtain ⟨e, hmem, he⟩ := any_eq_true.1 hrefused
  cases e with
  | synced ok =>
    cases ok with
    | false => exact hmem
    | true => cases he
  | _ => cases he

end Healer
