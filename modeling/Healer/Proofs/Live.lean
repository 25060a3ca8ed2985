import Healer.Proofs.Cutover

/-! Which instances are live after a switch that succeeded. The drain takes the RUNNING
instances of the old release only, so whatever else was live at the start still is. -/

namespace Healer

open Sample

open Prog (Ends)

/-- The statuses of an instance that is up, coming up, or about to be healed. -/
def InstanceStatus.live : InstanceStatus → Bool
  | .pending | .starting | .running | .unhealthy | .restarting => true
  | .draining | .stopped | .failed => false

def World.live (w : World) (i : InstanceId) : Prop :=
  ∃ inst, w.db.instances.row i = some inst ∧ inst.status.live = true

/-- RUNNING and of the active release: what the drain of a switch from `w` takes. -/
def World.serving (w : World) (i : InstanceId) : Prop :=
  ∃ inst r, w.db.instances.row i = some inst ∧ w.db.application.activeReleaseId = some r ∧
    inst.releaseId = some r ∧ inst.status = .running

theorem not_live_of_terminal {st : InstanceStatus} (h : st.terminal = true) : st.live = false := by
  cases st <;> first | rfl | cases h

section Rows

variable {o : Oracle} {d : DeploymentId} {dep : Deployment} {agent s : ServerId} {c : HealerYaml}
  {new is : List InstanceId} {w v u w' : World} {i : InstanceId}

theorem mem_retired : i ∈ w.retired w.db.application.activeReleaseId ↔ w.serving i := by
  unfold World.serving
  cases hact : w.db.application.activeReleaseId with
  | none => simp [World.retired]
  | some old =>
    change i ∈ w.drainable old ↔ _
    rw [mem_drainable]
    constructor
    · rintro ⟨inst, hrow, hrel, hst⟩
      exact ⟨inst, old, hrow, rfl, hrel, hst⟩
    · rintro ⟨inst, r, hrow, hr, hrel, hst⟩
      cases hr
      exact ⟨inst, hrow, hrel, hst⟩

/-- A drained instance is STOPPED or FAILED at the end. -/
theorem Finished.drained (h : Finished o d agent is w w') (hi : i ∈ is) : ¬ w'.live i := by
  obtain ⟨x, y, -, hprune, hclose, hterm⟩ := h.steps
  obtain ⟨inst, hrow, hst⟩ := hterm i hi
  rintro ⟨inst', hrow', hlive⟩
  have hy : y.core.instances.row i = some inst' := by
    rw [← hclose.instances]
    exact hrow'
  rcases hprune.core.rows i with ⟨hnone, -⟩ | ⟨a, b, ha, hb, hdet, -⟩
  · rw [hnone] at hy
    cases hy
  · rw [hy] at hb
    cases hb
    rw [show x.core.instances.row i = some inst from hrow] at ha
    cases ha
    rw [hdet] at hlive
    exact absurd hlive (by simp [not_live_of_terminal hst])

/-- Any other instance keeps its status, and its release if that is the active one. -/
theorem Finished.kept (h : Finished o d agent is w w') (hi : i ∉ is) {inst : Instance}
    (hrow : w.db.instances.row i = some inst) :
    ∃ inst', w'.db.instances.row i = some inst' ∧ inst'.status = inst.status ∧
      (inst.releaseId = w.db.application.activeReleaseId → inst'.releaseId = inst.releaseId) := by
  obtain ⟨x, y, hdrain, hprune, hclose, -⟩ := h.steps
  have hx : x.core.instances.row i = some inst := (hdrain.touched.other i hi).trans hrow
  have hact : x.core.active = w.db.application.activeReleaseId :=
    congrArg Core.active hdrain.touched.rest
  rcases hprune.core.rows i with ⟨-, hnone⟩ | ⟨a, b, ha, hb, hdet, hrel⟩
  · rw [hx] at hnone
    cases hnone
  · rw [hx] at ha
    cases ha
    refine ⟨b, ?_, by rw [hdet], fun hq => ?_⟩
    · change w'.core.instances.row i = some b
      rw [hclose.instances]
      exact hb
    · rcases hrel with hrel | ⟨-, hne⟩
      · exact hrel
      · exact absurd hq (hact ▸ hne)

/-- No row appears during the drain and the pruning. -/
theorem Finished.before (h : Finished o d agent is w w') {inst' : Instance}
    (hrow' : w'.db.instances.row i = some inst') : ∃ inst, w.db.instances.row i = some inst := by
  obtain ⟨x, y, hdrain, hprune, hclose, -⟩ := h.steps
  have hy : y.core.instances.row i = some inst' := by
    rw [← hclose.instances]
    exact hrow'
  rcases hprune.core.rows i with ⟨hnone, -⟩ | ⟨a, b, ha, -, -⟩
  · rw [hnone] at hy
    cases hy
  · obtain ⟨inst, hinst, -⟩ := hdrain.touched.row i a ha
    exact ⟨inst, hinst⟩

theorem Finished.active (h : Finished o d agent is w w') :
    w'.db.application.activeReleaseId = w.db.application.activeReleaseId := by
  obtain ⟨x, y, hdrain, hprune, hclose, -⟩ := h.steps
  have hx : x.core.active = w.core.active := by rw [hdrain.touched.rest]
  exact hclose.active.trans (hprune.core.active.trans hx)

end Rows

/-- The instances of `w'` after a switch from `w`: the new ones are up, the served ones are
gone, and every other row has the status it had. -/
structure SwitchLive (dep : Deployment) (w w' : World) : Prop where
  active : w'.db.application.activeReleaseId = some dep.releaseId
  created : ∀ i, w.db.instances.next ≤ i → i < w.db.instances.next + dep.instanceCount →
    ∃ inst, w'.db.instances.row i = some inst ∧ inst.status = .running ∧
      inst.releaseId = some dep.releaseId
  left : ∀ i inst, w.db.instances.row i = some inst → ¬ w.serving i →
    ∃ inst', w'.db.instances.row i = some inst' ∧ inst'.status = inst.status
  live : ∀ i, w'.live i ↔
    (w.db.instances.next ≤ i ∧ i < w.db.instances.next + dep.instanceCount) ∨
      w.live i ∧ ¬ w.serving i

section Live

variable {o : Oracle} {d : DeploymentId} {dep : Deployment} {s : ServerId} {c : HealerYaml}
  {new : List InstanceId} {w v u w' : World}

variable {i : InstanceId}

/-- The rows at the start of the drain: those of `w`, and the new instances. -/
theorem Accepted.old_row (hv : Prepared d dep s c new w v) (hu : Accepted o dep.releaseId c v u)
    (hi : i < w.db.instances.next) :
    u.db.instances.row i = w.db.instances.row i := by
  have hinst : u.core.instances = v.core.instances := by rw [hu.core]
  exact (congrArg (fun t => t.row i) hinst).trans (hv.beside.grown.old i hi)

theorem Accepted.lt_next (hv : Prepared d dep s c new w v) (hu : Accepted o dep.releaseId c v u)
    {inst : Instance} (hrow : u.db.instances.row i = some inst) :
    i < w.db.instances.next + dep.instanceCount := by
  have hinst : u.core.instances = v.core.instances := by rw [hu.core]
  have hlt := Table.lt_of_row hrow
  rw [show u.db.instances = v.db.instances from hinst, hv.next, hv.count] at hlt
  exact hlt

theorem Accepted.new_row (hv : Prepared d dep s c new w v) (hu : Accepted o dep.releaseId c v u)
    (hi : w.db.instances.next ≤ i) (hlt : i < w.db.instances.next + dep.instanceCount) :
    ∃ inst, u.db.instances.row i = some inst ∧ inst.status = .running ∧
      inst.releaseId = some dep.releaseId := by
  have hinst : u.core.instances = v.core.instances := by rw [hu.core]
  have hrows : u.db.instances.row i = v.db.instances.row i := congrArg (fun t => t.row i) hinst
  have hmem : i ∈ new := by
    rw [hv.ids, hv.count, List.mem_range'_1]
    exact ⟨hi, hlt⟩
  obtain ⟨inst, hrow, hst⟩ := (hv.up i hmem).running
  exact ⟨inst, hrows.trans hrow, hst, (hv.beside.grown.new i inst hi hrow).2⟩

/-- What the drain takes of the old rows is what was served. -/
theorem Accepted.old_retired (hv : Prepared d dep s c new w v) (hu : Accepted o dep.releaseId c v u)
    (hi : i < w.db.instances.next) :
    i ∈ u.retired w.db.application.activeReleaseId ↔ w.serving i := by
  rw [← mem_retired]
  cases w.db.application.activeReleaseId with
  | none => exact Iff.rfl
  | some old =>
    change i ∈ u.drainable old ↔ i ∈ w.drainable old
    rw [mem_drainable, mem_drainable, hu.old_row hv hi]

/-- The new rows belong to a release that was not active, so the drain leaves them alone. -/
theorem Accepted.new_not_retired (hopen : Opened d dep w) (hv : Prepared d dep s c new w v)
    (hu : Accepted o dep.releaseId c v u) (hi : w.db.instances.next ≤ i) :
    i ∉ u.retired w.db.application.activeReleaseId := by
  intro hmem
  cases hact : w.db.application.activeReleaseId with
  | none =>
    rw [hact] at hmem
    cases hmem
  | some old =>
    rw [hact] at hmem
    obtain ⟨inst, hrow, hrel, -⟩ := mem_drainable.1 hmem
    obtain ⟨inst', hrow', -, hrel'⟩ := hu.new_row hv hi (hu.lt_next hv hrow)
    rw [hrow] at hrow'
    cases hrow'
    exact hopen.inactive (by rw [hact, ← hrel, hrel'])

theorem Finished.switchLive (hopen : Opened d dep w) (hv : Prepared d dep s c new w v)
    (hu : Accepted o dep.releaseId c v u)
    (h : Finished o d s (u.retired v.db.application.activeReleaseId) u w') : SwitchLive dep w w' := by
  have hvact : v.db.application.activeReleaseId = w.db.application.activeReleaseId := hv.beside.active
  have huact : u.db.application.activeReleaseId = some dep.releaseId := by
    change u.core.active = _
    rw [hu.core]
  rw [hvact] at h
  have hleft : ∀ i inst, w.db.instances.row i = some inst → ¬ w.serving i →
      ∃ inst', w'.db.instances.row i = some inst' ∧ inst'.status = inst.status := by
    intro i inst hrow hserving
    have hi := Table.lt_of_row hrow
    rw [← hu.old_row hv hi] at hrow
    obtain ⟨inst', hrow', hst, -⟩ := h.kept (fun hm => hserving ((hu.old_retired hv hi).1 hm)) hrow
    exact ⟨inst', hrow', hst⟩
  have hcreated : ∀ i, w.db.instances.next ≤ i → i < w.db.instances.next + dep.instanceCount →
      ∃ inst, w'.db.instances.row i = some inst ∧ inst.status = .running ∧
        inst.releaseId = some dep.releaseId := by
    intro i hi hlt
    obtain ⟨inst, hrow, hst, hrel⟩ := hu.new_row hv hi hlt
    obtain ⟨inst', hrow', hst', hrel'⟩ := h.kept (hu.new_not_retired hopen hv hi) hrow
    exact ⟨inst', hrow', hst'.trans hst, (hrel' (hrel.trans huact.symm)).trans hrel⟩
  refine ⟨h.active.trans huact, hcreated, hleft, fun i => ⟨fun hlive => ?_, fun hlive => ?_⟩⟩
  · obtain ⟨inst', hrow', hst'⟩ := hlive
    obtain ⟨inst, hrow⟩ := h.before hrow'
    by_cases hi : i < w.db.instances.next
    · have hserving : ¬ w.serving i := fun hs =>
        h.drained ((hu.old_retired hv hi).2 hs) ⟨inst', hrow', hst'⟩
      rw [hu.old_row hv hi] at hrow
      obtain ⟨inst'', hrow'', hst⟩ := hleft i inst hrow hserving
      rw [hrow'] at hrow''
      cases hrow''
      exact Or.inr ⟨⟨inst, hrow, hst ▸ hst'⟩, hserving⟩
    · exact Or.inl ⟨Nat.le_of_not_lt hi, hu.lt_next hv hrow⟩
  · rcases hlive with ⟨hi, hlt⟩ | ⟨⟨inst, hrow, hst⟩, hserving⟩
    · obtain ⟨inst, hrow, hst, -⟩ := hcreated i hi hlt
      exact ⟨inst, hrow, by rw [hst]; rfl⟩
    · obtain ⟨inst', hrow', hst'⟩ := hleft i inst hrow hserving
      exact ⟨inst', hrow', by rw [hst']; exact hst⟩

end Live

/-- After a switch that ends SUCCEEDED the live instances are the `instance_count` new ones,
all RUNNING and of the active release, and those that were live before without being
RUNNING instances of the release that was active then. -/
theorem succeeded_switch_live (o : Oracle) (w : World) (d : DeploymentId) (dep : Deployment)
    (token : Time) (hopen : Opened d dep w)
    (hsucceeded : (runReleaseSwitch o d token w).2.stands d .succeeded) :
    SwitchLive dep w (runReleaseSwitch o d token w).2 := by
  have hopened : ∀ w' : World, w'.db.deployments = w.db.deployments → ¬ w'.stands d .succeeded := by
    rintro w' heq ⟨dep', hrow, hst⟩
    rw [heq, hopen.row] at hrow
    cases hrow
    rw [hopen.inProgress] at hst
    cases hst
  have hfailed : ∀ w' : World, w'.stands d .failed → ¬ w'.stands d .succeeded := by
    rintro w' ⟨dep', hrow, hst⟩ ⟨dep'', hrow', hst'⟩
    rw [hrow] at hrow'
    cases hrow'
    rw [hst] at hst'
    cases hst'
  have hbody : Ends (switchBody o d dep w) (fun _ w' => w'.stands d .succeeded → SwitchLive dep w w')
      (fun _ w' => w'.stands d .succeeded → SwitchLive dep w w') := by
    refine switchBody_rule hopen.row hopen.inProgress
      ⟨fun _ h => (hopened w rfl h).elim, fun _ h => (hopened w rfl h).elim,
        fun w' _ hst h => (hfailed w' hst h).elim, fun _ w' _ heq _ h => (hopened w' heq h).elim⟩
      fun s c new v hv => ?_
    refine hv.switchTo_rule hopen.row hopen.inProgress ?_ ?_ ?_ ?_
    · exact fun u w' hu h _ => h.switchLive hopen hv hu
    · intro _ u w' hu h _ hst
      refine (hopened w' ?_ hst).elim
      have hdeps : w'.core.deployments = v.core.deployments := by rw [h.touched.rest, hu.core]
      exact hdeps.trans hv.deployments
    · exact fun u x w' _ _ _ hclose hst => (hfailed w' hclose.status hst).elim
    · intro _ u w' _ hu h _ hst
      refine (hopened w' ?_ hst).elim
      have hdeps : w'.core.deployments = v.core.deployments := by rw [h.touched.rest, hu.core]
      exact hdeps.trans hv.deployments
  have hunlock : ∀ w' : World, (w'.stands d .succeeded → SwitchLive dep w w') →
      (w'.unlock token).stands d .succeeded → SwitchLive dep w (w'.unlock token) := by
    intro w' h hst
    obtain ⟨hactive, hcreated, hleft, hlive⟩ := h hst
    exact ⟨(release_core _ _).trans hactive, hcreated, hleft, hlive⟩
  exact withDeployment_state hopen.row hbody hunlock hsucceeded

/-- The sample with a RUNNING and an UNHEALTHY instance of the old release. -/
theorem succeeded_switch_sample :
    SwitchLive (Sample.deployment 1)
      (Sample.world none [instanceOf 0 8000 .running, instanceOf 0 8001 .unhealthy] 1)
      (runReleaseSwitch allWell 0 0 (Sample.world none
        [instanceOf 0 8000 .running, instanceOf 0 8001 .unhealthy] 1)).2 := by
  refine succeeded_switch_live _ _ 0 (Sample.deployment 1) 0
    (Sample.opened _ _ 1 (by simp [instanceOf])) ?_
  have hst : ((runReleaseSwitch allWell 0 0 (Sample.world none
      [instanceOf 0 8000 .running, instanceOf 0 8001 .unhealthy] 1)).2.db.deployments.row
        0).map Deployment.status = some .succeeded := by
    decide +kernel
  obtain ⟨dep, hrow, hst⟩ := Option.map_eq_some_iff.1 hst
  exact ⟨dep, hrow, hst⟩

/-- The UNHEALTHY instance of the old release outlives the switch to release 1. -/
theorem unhealthy_instance_survives_switch :
    ∃ w', (runReleaseSwitch allWell 0 0 (Sample.world none
        [instanceOf 0 8000 .running, instanceOf 0 8001 .unhealthy] 1)).2 = w' ∧
      (w'.db.deployments.row 0).map Deployment.status = some .succeeded ∧
      w'.db.application.activeReleaseId = some 1 ∧
      (w'.db.instances.row 1).map (fun inst => (inst.status, inst.releaseId)) =
        some (.unhealthy, some 0) :=
  ⟨_, rfl, by decide +kernel, by decide +kernel, by decide +kernel⟩

end Healer
