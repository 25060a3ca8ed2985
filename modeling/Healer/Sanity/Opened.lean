import Healer.Sanity.Switch
import Healer.Spec.Ops

/-! What `start_scale` hands to `run_scale`, and `start_new_release` and `start_rollback` to
`run_release_switch`. -/

namespace Healer

open Prog

/-- The deployment `d` has been opened for a release other than the active one, which is
READY unless the run is to build it, and no instance belongs to it yet. -/
structure Opened (d : DeploymentId) (dep : Deployment) (w : World) : Prop where
  row : w.db.deployments.row d = some dep
  inProgress : dep.status = .inProgress
  release : ∃ rel, w.db.releases.row dep.releaseId = some rel ∧
    (dep.kind ≠ .blueGreen → rel.status = .ready)
  inactive : w.db.application.activeReleaseId ≠ some dep.releaseId
  fresh : ∀ i inst, w.db.instances.row i = some inst → inst.deploymentId ≠ some d

/-- What `_require_agent` asks for. -/
structure Db.AgentReady (db : Db) : Prop where
  active : db.application.activeReleaseId.isSome = true
  ports : db.application.portRangeStart.isSome = true ∧ db.application.portRangeEnd.isSome = true
  server : ∃ s, db.application.serverId = some s ∧ db.agent s = some .connected

/-- `_require_agent` passes exactly where the agent is ready. -/
theorem requireAgent_spec (w : World) :
    Ends (requireAgent w) (fun _ w' => w' = w ∧ w.db.AgentReady)
      fun e w' => w' = w ∧ e.setup = true ∧ ¬ w.db.AgentReady := by
  unfold requireAgent
  rw [ends_bind, ends_getDb, ends_ite]
  refine ⟨fun hnone => ⟨rfl, rfl, fun h => ?_⟩, fun hsome => ?_⟩
  · have hactive := h.active
    rw [Option.isNone_iff_eq_none.1 hnone] at hactive
    cases hactive
  · have hactive : w.db.application.activeReleaseId.isSome = true := by
      simpa [Option.isSome_iff_ne_none] using hsome
    cases hserver : w.db.application.serverId with
    | none =>
      refine ⟨rfl, rfl, fun h => ?_⟩
      obtain ⟨s, hs, -⟩ := h.server
      rw [hserver] at hs
      cases hs
    | some s =>
      cases hstart : w.db.application.portRangeStart with
      | none =>
        refine ⟨rfl, rfl, fun h => ?_⟩
        have hports := h.ports.1
        rw [hstart] at hports
        cases hports
      | some lo =>
        cases hend : w.db.application.portRangeEnd with
        | none =>
          refine ⟨rfl, rfl, fun h => ?_⟩
          have hports := h.ports.2
          rw [hend] at hports
          cases hports
        | some hi =>
          simp only [ends_ite, ends_raise, ends_pure]
          refine ⟨fun hagent => ⟨trivial, rfl, fun h => ?_⟩, fun hagent => ⟨trivial, ?_⟩⟩
          · obtain ⟨s', hs', hconnected⟩ := h.server
            rw [hserver, Option.some.injEq] at hs'
            exact hagent (hs' ▸ hconnected)
          · exact ⟨hactive, ⟨by rw [hstart]; rfl, by rw [hend]; rfl⟩, s, hserver, not_not.1 hagent⟩

/-- The deployment `start_scale` opens is for the newest READY release. -/
theorem startScale_spec (target : ℕ) (w : World) :
    Ends (startScale target w)
      (fun d w' => w'.core = { w.core with deployments := w'.core.deployments } ∧
        ∃ dep, w'.db.deployments.row d = some dep ∧ dep.status = .inProgress ∧
          w.db.newestReady = some dep.releaseId)
      (fun e w' => w' = w ∧ e.setup = true) := by
  simp only [startScale, ends_bind, ends_getDb, ends_ite, ends_raise]
  refine ⟨fun _ => ⟨trivial, rfl⟩, fun _ => ?_⟩
  rcases w.db.application.serverId with _ | s
  · exact ⟨rfl, rfl⟩
  simp only [ends_ite, ends_raise]
  refine ⟨fun _ => ⟨trivial, rfl⟩, fun _ => ?_⟩
  rcases hr : w.db.newestReady with _ | r
  · exact ⟨rfl, rfl⟩
  set dep : Deployment := ⟨r, .pending, target, .deploy, none⟩ with hdep
  have hrow : (w.db.deployments.insert dep).row w.db.deployments.next = some dep :=
    Table.insert_row_self _ _
  simp only [insertDeployment, transitionDeployment, ends_bind, ends_getDb, ends_modifyDb,
    ends_pure, setDb_db, ← hdep, hrow, ends_emit, ends_commit]
  refine ⟨rfl, { dep with status := .inProgress }, ?_, rfl, rfl⟩
  change ((w.db.deployments.insert dep).modify w.db.deployments.next _).row _ = _
  rw [Table.modify_row_self, hrow]
  rfl

theorem insertRelease_spec (w : World) :
    Ends (insertRelease w)
      (fun r w' => r = w.db.releases.next ∧ w' = w.setDb { w.db with
        releases := w.db.releases.insert (newRelease w.clock) })
      (fun _ _ => False) :=
  ⟨rfl, rfl⟩

theorem openSwitch_spec (r : ReleaseId) (n : ℕ) (kind : DeploymentKind) (w : World) :
    Ends (openSwitch r n kind w)
      (fun d w' => d = w.db.deployments.next ∧ w'.db = { w.db with
        deployments := w.db.deployments.insert ⟨r, .inProgress, n, kind, none⟩ })
      (fun _ _ => False) := by
  have hrow := Table.insert_row_self w.db.deployments (⟨r, .pending, n, kind, none⟩ : Deployment)
  simp only [openSwitch, insertDeployment, transitionDeployment, ends_bind, ends_getDb, ends_modifyDb,
    ends_pure, setDb_db, hrow, ends_emit, ends_commit]
  exact ⟨trivial, congrArg (fun t => ({ w.db with deployments := t } : Db)) (Table.insert_modify _ _ _)⟩

section Start

variable {w : World}

/-- The references between rows: no instance belongs to a deployment that is not there yet, and the active
release is there. -/
structure Referenced (w : World) : Prop where
  deployments : ∀ i inst d, w.db.instances.row i = some inst → inst.deploymentId = some d →
    d < w.db.deployments.next
  active : ∀ r, w.db.application.activeReleaseId = some r → r < w.db.releases.next

theorem openSwitch_opened {r : ReleaseId} (n : ℕ) {kind : DeploymentKind} (hw : Referenced w)
    (hrel : ∃ rel, w.db.releases.row r = some rel ∧ (kind ≠ .blueGreen → rel.status = .ready))
    (hactive : w.db.application.activeReleaseId ≠ some r) :
    Ends (openSwitch r n kind w) (fun d w' => ∃ dep, Opened d dep w' ∧ dep.releaseId = r ∧ dep.kind = kind)
      (fun _ _ => False) := by
  refine (openSwitch_spec r n kind w).mono ?_ fun _ _ h => h
  rintro d w' ⟨rfl, hdb⟩
  refine ⟨⟨r, .inProgress, n, kind, none⟩, ⟨?_, rfl, ?_, ?_, fun i inst hrow heq => ?_⟩, rfl, rfl⟩
  · rw [hdb]
    exact Table.insert_row_self _ _
  · rw [hdb]
    exact hrel
  · rw [hdb]
    exact hactive
  · rw [hdb] at hrow
    exact absurd (hw.deployments i inst _ hrow heq) (Nat.lt_irrefl _)

/-- A deployment that `start_new_release` returns is open, for a release that is to be built. -/
theorem startNewRelease_opened (hw : Referenced w) :
    Ends (startNewRelease w) (fun d w' => ∃ dep, Opened d dep w' ∧ dep.kind = .blueGreen) (fun _ _ => True) := by
  refine Ends.bind (requireAgent_spec w) ?_ fun _ _ _ => trivial
  rintro _ v ⟨rfl, -⟩
  rw [ends_bind, ends_getDb, ends_ite]
  refine ⟨fun _ => trivial, fun _ => Ends.bind (insertRelease_spec v) ?_ fun _ _ h => h.elim⟩
  rintro r u ⟨rfl, rfl⟩
  have hopen := @openSwitch_opened (v.setDb { v.db with releases := v.db.releases.insert (newRelease v.clock) })
    v.db.releases.next v.db.application.desiredReplicas .blueGreen
    ⟨hw.deployments, fun r hr => Nat.lt_succ_of_lt (hw.active r hr)⟩
    ⟨newRelease v.clock, Table.insert_row_self _ _, fun h => absurd rfl h⟩
    fun heq => absurd (hw.active _ heq) (Nat.lt_irrefl _)
  refine hopen.mono ?_ fun _ _ h => h.elim
  rintro d u ⟨dep, h, -, hkind⟩
  exact ⟨dep, h, hkind⟩

/-- A deployment that `start_rollback` returns is open, for the target. -/
theorem startRollback_opened (target : ReleaseId) (hw : Referenced w) :
    Ends (startRollback target w) (fun d w' => ∃ dep, Opened d dep w' ∧ dep.releaseId = target) (fun _ _ => True) := by
  refine Ends.bind (requireAgent_spec w) ?_ fun _ _ _ => trivial
  rintro _ v ⟨rfl, -⟩
  rw [ends_bind, ends_getDb]
  cases hrel : v.db.releases.row target with
  | none => trivial
  | some rel =>
    simp only [ends_ite]
    refine ⟨fun _ => trivial, fun hactive => ?_⟩
    cases hconfig : v.db.application.config with
    | none => simp only [ends_bind, configFromApplication, ends_getDb, hconfig, ends_raise]
    | some c =>
      simp only [ends_bind, ends_config hconfig, ends_ite]
      refine ⟨fun _ => trivial, fun hready => ?_⟩
      have hst : rel.status = .ready := not_not.1 fun h => hready (Or.inl h)
      refine (openSwitch_opened _ hw ⟨rel, hrel, fun _ => hst⟩ hactive).mono ?_ fun _ _ h => h.elim
      rintro d u ⟨dep, h, hr, -⟩
      exact ⟨dep, h, hr⟩

end Start

end Healer
