import Healer.Sanity.Batch
import Healer.Sanity.Deaf
import Healer.Sanity.Sample

/-! Whether a scale-down leaves the gateway something to route to. The batch is chosen by
creation time alone, so the instances that serve may all be in it. -/

namespace Healer

open Prog Sample

/-- RUNNING, of the active release once there is one, on a server that is there. -/
def Db.serves (db : Db) (i : InstanceId) : Prop := i ∈ db.routable ∧ (db.upstream i).isSome

section Serves

variable {db db' : Db} {w w' : World} {i : InstanceId}

theorem upstreams_ne_nil_iff : db.reloadPayload.upstreams ≠ [] ↔ ∃ i, db.serves i := by
  rw [Ne, Db.reloadPayload, List.filterMap_eq_nil_iff, not_forall₂]
  simp only [Db.serves, ← Option.isSome_iff_ne_none, exists_prop]

theorem serves_iff : db.serves i ↔ ∃ inst, db.instances.row i = some inst ∧ inst.status = .running ∧
    (∀ r, db.application.activeReleaseId = some r → inst.releaseId = some r) ∧
    (db.servers inst.serverId).isSome := by
  simp only [Db.serves, Db.routable, Table.mem_select, Bool.and_eq_true, beq_iff_eq]
  constructor
  · rintro ⟨⟨inst, hrow, hst, hrel⟩, hup⟩
    refine ⟨inst, hrow, hst, fun r hr => ?_, ?_⟩
    · rw [hr] at hrel
      exact beq_iff_eq.1 hrel
    · simpa [Db.upstream, hrow, Option.isSome_bind, Option.isSome_iff_exists] using hup
  · rintro ⟨inst, hrow, hst, hrel, hserver⟩
    obtain ⟨server, hserver⟩ := Option.isSome_iff_exists.1 hserver
    refine ⟨⟨inst, hrow, hst, ?_⟩, by simp [Db.upstream, hrow, hserver]⟩
    cases hr : db.application.activeReleaseId with
    | none => rfl
    | some r => exact beq_iff_eq.2 (hrel r hr)

/-- Serving is a matter of the instance's row, the active release and the servers. -/
theorem serves_congr (hrow : w'.core.instances.row i = w.core.instances.row i)
    (hactive : w'.core.active = w.core.active) (hservers : w'.core.servers = w.core.servers) :
    w'.db.serves i ↔ w.db.serves i := by
  have hrow' : w'.db.instances.row i = w.db.instances.row i := hrow
  have hactive' : w'.db.application.activeReleaseId = w.db.application.activeReleaseId := hactive
  have hservers' : w'.db.servers = w.db.servers := hservers
  rw [serves_iff, serves_iff, hrow', hactive', hservers']

theorem serves_core (h : w'.core = w.core) : w'.db.serves i ↔ w.db.serves i :=
  serves_congr (by rw [h]) (by rw [h]) (by rw [h])

theorem Db.serves.live (h : db.serves i) : i ∈ db.liveInstances := by
  obtain ⟨inst, hrow, hst, -⟩ := serves_iff.1 h
  exact mem_liveInstances.2 ⟨inst, hrow, by rw [hst]; decide⟩

end Serves

/-! ## The batch is marked -/

section Marked

variable {d : DeploymentId} {w w' : World} {is : List InstanceId} {i : InstanceId}

theorem Marking.serves_iff (h : Marking is w [] w') : w'.db.serves i ↔ w.db.serves i ∧ i ∉ is := by
  by_cases hi : i ∈ is
  · obtain ⟨-, inst, hrow, hst⟩ := h.done i hi List.not_mem_nil
    refine iff_of_false (fun hs => ?_) (fun hs => hs.2 hi)
    obtain ⟨inst', hrow', hst', -⟩ := Healer.serves_iff.1 hs
    rw [show w'.db.instances.row i = some inst from hrow, Option.some.injEq] at hrow'
    rw [← hrow', hst] at hst'
    cases hst'
  · rw [and_iff_left hi]
    exact serves_congr (h.other i hi) (by rw [h.keys.rest]) (by rw [h.keys.rest])

/-- The marked batch leaves a serving instance if and only if one of the kept ones serves. -/
theorem serves_after_marking {marked : World} {count : ℕ}
    (h : Prog.each (markDraining d) (w.db.toDrain w.db.liveInstances count) w = (.ok (), marked)) :
    (∃ i, marked.db.serves i) ↔ ∃ i ∈ w.db.toKeep w.db.liveInstances count, w.db.serves i := by
  have hmarking := (ends_each (I := Marking _ w)
    (fun i rem s hs => markDraining_step (d := d) (batch_rows _ count) hs) _ w
    (marking_start (toDrain_nodup (liveInstances_nodup _) _))).ok h
  refine exists_congr fun i => ?_
  rw [hmarking.serves_iff, mem_toKeep (liveInstances_nodup _)]
  constructor
  · rintro ⟨hs, hnot⟩
    exact ⟨⟨hs.live, hnot⟩, hs⟩
  · rintro ⟨⟨-, hnot⟩, hs⟩
    exact ⟨hs, hnot⟩

end Marked

/-! ## What the run sends -/

/-- The entry is not a sync without an upstream. -/
def Fed (e : Entry) : Prop := ∀ payload, e.event = .sync payload → payload.upstreams ≠ []

/-- The instance `i` serves, and everything sent since `w` had an upstream. -/
structure Supplied (i : InstanceId) (w w' : World) : Prop where
  serves : w'.db.serves i
  news : News Fed w w'

section Fed

variable {o : Oracle} {d : DeploymentId} {c : HealerYaml} {w w' : World} {i : InstanceId} {e : Entry} {w₀ : World}

theorem fed_of_ne (h : ∀ payload, e.event ≠ .sync payload) : Fed e :=
  fun payload he => (h payload he).elim

theorem deaf_fed (w₀ : World) : Deaf Fed (News Fed w₀) := by
  refine ⟨fun e he => fed_of_ne fun payload hsync => ?_, fun w w' hnews hw => hw.trans hnews⟩
  rw [hsync] at he
  cases he

theorem fed_background (h : e.background) : Fed e := by
  refine fed_of_ne fun payload he => ?_
  rw [Entry.background, he] at h
  exact h

theorem Halts.fed {agent : ServerId} {key : InstanceId → CommandKey} {st : InstanceStatus}
    {is : List InstanceId} {ok : Bool} (h : Halts o agent key st is w ok e) : Fed e := by
  cases h with
  | background h => exact fed_background h
  | _ => exact fed_of_ne fun payload he => by cases he

theorem Calm.fed (h : Calm w w') : News Fed w w' := h.news.mono fun _ => fed_background

theorem Supplied.core (h : Supplied i w₀ w) (hcore : w'.core = w.core)
    (hnews : News Fed w w') : Supplied i w₀ w' :=
  ⟨(serves_core hcore).2 h.serves, h.news.trans hnews⟩

theorem Supplied.calm (h : Supplied i w₀ w) (h' : Calm w w') : Supplied i w₀ w' :=
  h.core h'.core h'.fed

/-- A sync sends what serves. -/
theorem syncGateway_supplied (h : Supplied i w₀ w) :
    Ends (syncGateway o w) (fun _ => Supplied i w₀) (fun _ _ => False) := by
  simp only [syncGateway, ends_bind, ends_read, ends_emit, ends_update, ends_suspend,
    ends_commit, ends_pure]
  set w1 := { w.emit (.sync w.db.reloadPayload) with
    gateway := (w.emit (.sync w.db.reloadPayload)).gateway.receive w.db.reloadPayload
      (o.delivery w.syncs),
    syncs := (w.emit (.sync w.db.reloadPayload)).syncs + 1 } with hw1
  have hsent : News Fed w (w.emit (.sync w.db.reloadPayload)) := by
    refine news_emit fun payload hpayload => ?_
    cases hpayload
    exact upstreams_ne_nil_iff.2 ⟨i, h.serves⟩
  have h1 : Supplied i w₀ w1 := h.core rfl ⟨hsent.entries, id⟩
  have h2 := h1.calm (calm_suspend o w1)
  have h3 : Supplied i w₀ ((w1.suspend o).emit (.synced (o.delivery w.syncs).result.ok)) :=
    h2.core rfl (news_emit (fed_of_ne fun payload he => by cases he))
  exact h3.calm (calm_commit _)

theorem markDraining_fed (d : DeploymentId) (i : InstanceId) (w₀ : World) :
    Keeps (News Fed w₀) (markDraining d i) :=
  keeps_bind ((deaf_fed w₀).keeps_modifyInstance i _) fun _ =>
    (deaf_fed w₀).keeps_transition fun _ _ _ => fed_of_ne fun payload he => by cases he

theorem finishScale_fed (ok : Bool) (h : Supplied i w₀ w) :
    Ends (finishScale o d c ok w) (fun _ => News Fed w₀) (fun _ => News Fed w₀) := by
  have hsync : Ends ((if ok && c.domain.isSome then reportedSync o d else pure () : M Unit) w)
      (fun _ => Supplied i w₀) (fun _ _ => False) := by
    rw [ends_ite]
    refine ⟨fun _ => Ends.bind (syncGateway_supplied h) (fun result u hu => ?_) (fun _ _ h => h), fun _ => h⟩
    simp only [ends_ite, ends_pure]
    refine ⟨fun _ => ?_, fun _ => hu⟩
    exact (log_spec d .error _ u).mono (fun _ _ hv => hu.calm hv) (fun _ _ h => h)
  refine Ends.bind hsync (fun _ u hu => ?_) (fun _ _ h => h.elim)
  exact ((deaf_fed w₀).keeps_close d _).ends hu.news

end Fed

/-! ## The run -/

section Run

variable {o : Oracle} {d : DeploymentId} {dep : Deployment} {agent : ServerId} {c : HealerYaml}
  {w : World} {i : InstanceId} {count : ℕ}

/-- While an instance outside the batch serves, a scale-down sends it. -/
theorem scaleDown_supplied (hserves : w.db.serves i)
    (hkept : i ∉ w.db.toDrain w.db.liveInstances count) :
    Ends (scaleDown o d agent c w.db.liveInstances count w) (fun _ => Supplied i w)
      (fun _ => News Fed w) := by
  have hnodup := toDrain_nodup (w := w) (liveInstances_nodup w.db) count
  have hrows := batch_rows w.db count
  simp only [scaleDown, ends_bind, ends_getDb]
  set is := w.db.toDrain w.db.liveInstances count
  refine (ends_each (I := fun rem s => Marking is w rem s ∧ News Fed w s) (fun j rem s hs => ?_) is w
    ⟨marking_start hnodup, News.refl Fed w⟩).mono (fun _ w1 h1 => ?_) (fun _ _ h => h)
  · exact ((markDraining_step (d := d) hrows hs.1).and ((markDraining_fed d j w).ends hs.2)).mono
      (fun _ _ hu => hu) (fun _ _ hu => hu.2)
  have hs1 : Supplied i w w1 := ⟨h1.1.serves_iff.2 ⟨hserves, hkept⟩, h1.2⟩
  simp only [ends_commit, ends_suspend]
  have hsync : Ends (syncIfDomain o c (w1.emit .commit))
      (fun _ u => Supplied i w u ∧ u.core = w1.core) (fun _ _ => False) := by
    have hs2 := hs1.calm (calm_commit w1)
    simp only [syncIfDomain, ends_ite, ends_bind, ends_pure]
    refine ⟨fun _ => ?_, fun _ => ⟨hs2, rfl⟩⟩
    exact ((syncGateway_supplied hs2).and (syncGateway_spec o _)).mono
      (fun _ u hu => ⟨hu.1, hu.2.core⟩) (fun _ _ h => h.1)
  refine hsync.mono (fun _ w2 h2 => ?_) (fun _ _ h => h.elim)
  have hcalm3 := calm_suspend o w2
  have hs3 := h2.1.calm hcalm3
  have hcore3 : (w2.suspend o).core = w1.core := hcalm3.core.trans h2.2
  set w3 := w2.suspend o
  have hrows3 : ∀ j ∈ is, ∃ inst, w3.db.instances.row j = some inst ∧ inst.status = .draining := by
    intro j hj
    obtain ⟨inst, hrow, hst⟩ := (h1.1.done j hj (by simp)).2
    exact ⟨inst, instance_of_core hcore3 hrow, hst⟩
  refine (stopDrained_spec is true w3 ⟨Halted.refl, sweep_start _ hnodup hrows3⟩).mono ?_ ?_
  · intro _ w4 h4
    have htouched := h4.halted.touched
    refine ⟨?_, hs3.news.trans (h4.halted.news.mono fun _ he => he.fed)⟩
    exact (serves_congr (htouched.other i hkept) (by rw [htouched.rest]) (by rw [htouched.rest])).2
      hs3.serves
  · intro _ w4 h4
    exact hs3.news.trans (h4.1.news.mono fun _ he => he.fed)

theorem scaleBody_fed (hlt : dep.instanceCount < w.db.liveInstances.length) (hserves : w.db.serves i)
    (hkept : i ∉ w.db.toDrain w.db.liveInstances (w.db.liveInstances.length - dep.instanceCount)) :
    Ends (scaleBody o d dep w) (fun _ => News Fed w) (fun _ => News Fed w) := by
  have hsame := News.refl Fed w
  have hlost : ∀ message,
      Ends ((do log d .error message; transitionDeployment d .failed; commit : M Unit) w)
        (fun _ => News Fed w) (fun _ => News Fed w) :=
    fun message => ((deaf_fed w).keeps_log_close d message .failed).ends hsame
  simp only [scaleBody, ends_bind, ends_getDb]
  rcases w.db.releases.row dep.releaseId with _ | rel
  · exact hsame
  rcases w.db.application.serverId with _ | s
  · exact hlost _
  rcases w.db.application.portRangeStart with _ | lo
  · exact hlost _
  rcases w.db.application.portRangeEnd with _ | hi
  · exact hlost _
  rcases hconfig : w.db.application.config with _ | c
  · simp only [ends_bind, configFromApplication, ends_getDb, hconfig]
    exact hsame
  simp only [ends_bind, ends_config hconfig, ends_ite]
  refine ⟨fun _ => ?_, fun _ => ⟨fun hup => by omega, fun _ => ⟨fun _ => ?_, fun hdown => by omega⟩⟩⟩
  · have h := hlost "the target server's Agent disappeared before scaling could run"
    simp only [ends_bind] at h
    exact h
  · refine (scaleDown_supplied hserves hkept).mono (fun ok u hu => ?_) (fun _ _ h => h)
    exact finishScale_fed ok hu

end Run

/-- After a scale-down has marked its batch something still serves, and every sync of the run has
an upstream, if and only if one of the instances that are kept, the oldest ones, serves. -/
theorem scale_down_keeps_serving_iff (o : Oracle) (d : DeploymentId) (token : Time) (w marked : World)
    (dep : Deployment) (hrow : w.db.deployments.row d = some dep)
    (hlt : dep.instanceCount < w.db.liveInstances.length)
    (hmarked : Prog.each (markDraining d) (w.db.toDrain w.db.liveInstances
      (w.db.liveInstances.length - dep.instanceCount)) w = (.ok (), marked)) :
    ((∃ i, marked.db.serves i) ∧
        ∀ e ∈ (runScale o d token w).2.trace.drop w.trace.length, ∀ payload,
          e.event = .sync payload → payload.upstreams ≠ []) ↔
      ∃ i ∈ w.db.toKeep w.db.liveInstances (w.db.liveInstances.length - dep.instanceCount),
        w.db.serves i := by
  rw [serves_after_marking hmarked, and_iff_left_iff_imp]
  rintro ⟨i, hkeep, hserves⟩
  have hkept := ((mem_toKeep (liveInstances_nodup _)).1 hkeep).2
  have hrun : Ends (runScale o d token w) (fun _ => News Fed w) (fun _ => News Fed w) := by
    have hunlock : ∀ u, News Fed w u → News Fed w (u.unlock token) := fun u hu =>
      hu.trans (news_unlock u token fun _ => fed_background)
    refine withDeployment_rule hrow ((scaleBody_fed hlt hserves hkept).mono (fun _ => hunlock) ?_)
    exact fun _ u hu => released_of hu (hunlock u hu)
  obtain ⟨es, hes, hfed⟩ := hrun.state.entries
  rw [hes, List.drop_left]
  exact hfed

/-- Of two RUNNING instances the older one is kept. -/
theorem scale_down_keeps_serving_sample :
    (∃ i, (Prog.each (markDraining 0) [1] (Sample.scaling [instanceOf 0 8000 .running,
        { instanceOf 0 8001 .running with createdAt := 1 }] 1)).2.db.serves i) ∧
      ∀ e ∈ (runScale allWell 0 0 (Sample.scaling [instanceOf 0 8000 .running,
        { instanceOf 0 8001 .running with createdAt := 1 }] 1)).2.trace.drop 0, ∀ payload,
        e.event = .sync payload → payload.upstreams ≠ [] := by
  refine (scale_down_keeps_serving_iff allWell 0 0 (Sample.scaling [instanceOf 0 8000 .running,
    { instanceOf 0 8001 .running with createdAt := 1 }] 1) _ _ rfl (by decide +kernel)
    (Prod.ext (by decide +kernel) ?_)).2 ⟨0, by decide +kernel, by decide +kernel, by decide +kernel⟩
  rw [show (Sample.scaling _ _).db.toDrain _ _ = [1] by decide +kernel]

/-- No poll of the monitor is answered. -/
def unanswered : Oracle := { slowly allWell with poll := fun _ _ => .ok none }

/-- Ten seconds pass at every suspension. -/
def tenSecondly : Oracle := { allWell with elapsed := fun _ => 10000000 }

/-- Two replicas with a domain. The older one has been restarted by the monitor and is UNHEALTHY
again before the cooldown is over. -/
def olderUnhealthy : World :=
  created.history [
    (slowly allWell, .update (Sample.config (some shopDomain))),
    (slowly allWell, .deploy), (slowly allWell, .scale 2),
    (allWell, .tickBegin), (unanswered, .tickPoll), (tenSecondly, .scale 2),
    (allWell, .tickBegin), (unanswered, .tickPoll)]

def Event.emptySync : Event → Bool
  | .sync payload => payload.upstreams.isEmpty
  | _ => false

/-- Scaling to one replica takes down the newer instance, the only one that serves: the sync is
sent without an upstream and the gateway routes to nothing. -/
theorem scale_down_empties_upstream :
    (olderUnhealthy.db.instances.row 0).map (·.status) = some .unhealthy ∧
      olderUnhealthy.db.liveInstances = [0, 1] ∧ olderUnhealthy.db.routable = [1] ∧
      olderUnhealthy.db.reloadPayload.upstreams.map Upstream.instanceId = [1] ∧
      ((olderUnhealthy.history [(slowly allWell, .scale 1)]).trace.drop
        olderUnhealthy.trace.length).any (fun e => e.event.emptySync && e.db.routable.isEmpty) = true ∧
      (olderUnhealthy.history [(slowly allWell, .scale 1)]).gateway.routed = [] := by
  refine ⟨?_, ?_, ?_, ?_, ?_, ?_⟩ <;> decide +kernel

end Healer
