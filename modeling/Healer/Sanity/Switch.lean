import Healer.Sanity.Retire

/-! `run_release_switch` cut at the write of `active_release_id`. Every way to end
before it leaves the old rows and the active release alone; what follows it is either
a drain and a pruning, or an undo and a stop of the new instances. -/

namespace Healer

open Prog

/-- Nothing that was there in `w₀` has changed: new rows belong to the deployment `d`. -/
structure Beside (d : DeploymentId) (r : ReleaseId) (P : Entry → Prop) (w₀ w : World) : Prop where
  grown : Grown d r w₀.core.instances w.core.instances
  active : w.core.active = w₀.core.active
  news : News P w₀ w
  still : Still w₀ w

section Beside

variable {d : DeploymentId} {r : ReleaseId} {P Q : Entry → Prop} {w₀ u w w' : World} {target : DeploymentStatus}

theorem Beside.refl (d : DeploymentId) (r : ReleaseId) (P : Entry → Prop) (w : World) :
    Beside d r P w w :=
  ⟨Grown.refl d r _, rfl, News.refl P w, Still.refl w⟩

theorem Beside.mono (h : Beside d r P w₀ w) (hPQ : ∀ e, P e → Q e) : Beside d r Q w₀ w :=
  ⟨h.grown, h.active, h.news.mono hPQ, h.still⟩

theorem Beside.closed (h : Beside d r P w₀ w) (h' : Closed d target w w')
    (hP : ∀ e, Closes d target e → P e) : Beside d r P w₀ w' :=
  ⟨by rw [h'.instances]; exact h.grown, h'.active.trans h.active,
    h.news.trans (h'.news.mono hP), h.still.trans h'.still⟩

variable {agent : ServerId} {ok : Bool} {e : Entry}

theorem Built.beside (h : Built d r agent ok w w')
    (hP : ∀ e, Builds d agent ok e → P e) : Beside d r P w w' := by
  refine ⟨?_, ?_, h.news.mono hP, h.still⟩
  · rw [h.rest]
    exact Grown.refl d r _
  · rw [h.rest]

/-- A gate that starts later, with the instances untouched in between. -/
theorem Tame.base (hnext : u.db.instances.next = w.db.instances.next)
    (hstill : Still w u) (h : Tame u e) : Tame w e := by
  refine ⟨h.silent, fun agent key i payload he => ?_⟩
  obtain ⟨hle, hr⟩ := h.stop agent key i payload he
  refine ⟨hnext ▸ hle, fun hf => ?_⟩
  rw [hr (hstill.inFlight hf), hstill hf]

theorem Aside.beside {L : Site} (hd : L.deployment = d) (hr : L.release = r)
    (hinst : u.core.instances = w.core.instances) (h : Beside d r P w u) (h' : Aside L Q u w')
    (hQP : ∀ e, Q e → P e) : Beside d r P w w' := by
  subst hd hr
  refine ⟨?_, ?_, h.news.trans (h'.news.mono hQP), h.still.trans h'.still⟩
  · rw [← hinst]
    exact h'.grown
  · rw [h'.rest]
    exact h.active

theorem Builds.tame (h : Builds d agent ok e) :
    Tame w e := by
  cases h with
  | background h => exact tame_background h
  | _ => exact ⟨⟨by simp, by simp, by simp⟩, by simp⟩

theorem Builds.fine (h : Builds d agent true e) : Fine e := by
  cases h with
  | background h => exact fine_background h
  | sendFailed h => cases h
  | _ => exact ⟨rfl, rfl⟩

theorem Builds.passing (h : Builds d agent ok e) :
    Passing e := by
  cases h with
  | background h => exact passing_background h
  | _ => intro i; simp

theorem Closes.tame (h : Closes d target e) : Tame w e := by
  obtain ⟨event, db, routed⟩ := e
  rcases h with h | h
  · exact tame_background h
  · cases h
    exact ⟨⟨by simp, by simp, by simp⟩, by simp⟩

theorem Closes.silent (h : Closes d target e) : Silent e := by
  obtain ⟨event, db, routed⟩ := e
  rcases h with h | h
  · exact silent_background h
  · cases h
    exact ⟨by simp, by simp, by simp⟩

theorem Closes.fine
    (hcan : canTransition deploymentTransitions .inProgress target = true)
    (h : Closes d target e) : Fine e := by
  obtain ⟨event, db, routed⟩ := e
  rcases h with h | h
  · exact fine_background h
  · cases h
    exact ⟨hcan, rfl⟩

end Beside

/-- The deployment `d` is `target`. -/
def World.stands (w : World) (d : DeploymentId) (target : DeploymentStatus) : Prop :=
  ∃ dep, w.db.deployments.row d = some dep ∧ dep.status = target

/-- The new instances are up and nothing has been switched yet. -/
structure Prepared (d : DeploymentId) (dep : Deployment) (s : ServerId) (c : HealerYaml)
    (new : List InstanceId) (w v : World) : Prop where
  config : w.db.application.config = some c
  server : w.db.application.serverId = some s
  beside : Beside d dep.releaseId (fun e => Tame w e ∧ Fine e ∧ Passing e) w v
  count : new.length = dep.instanceCount
  ids : new = List.range' w.db.instances.next new.length
  next : v.db.instances.next = w.db.instances.next + new.length
  up : ∀ i ∈ new, Up (w.db.healthCheck.isSome ∧ (w.db.servers s).isSome) v i
  release : ∃ rel, v.db.releases.row dep.releaseId = some rel ∧
    (rel.status = .ready ∨ dep.kind ≠ .blueGreen ∧ w.db.releases.row dep.releaseId = some rel)
  deployments : v.db.deployments = w.db.deployments

section Body

variable {o : Oracle} {d : DeploymentId} {dep : Deployment} {w : World} {Q : Unit → World → Prop}
  {E : Exn → World → Prop}

/-- Ends of the run that come before the switch. -/
structure SwitchEnds (d : DeploymentId) (r : ReleaseId) (w : World) (Q : Unit → World → Prop)
    (E : Exn → World → Prop) : Prop where
  gone : w.db.releases.row r = none → Q () w
  invalid : w.db.application.config = none → E .validationError w
  failed : ∀ w', Beside d r (fun e => Tame w e ∧ Fine e) w w' → w'.stands d .failed → Q () w'
  raised : ∀ e w', Beside d r (Tame w) w w' → w'.db.deployments = w.db.deployments →
    (∃ x ∈ w'.events, x.fatal = true) → E e w'

theorem closes_failed (e : Entry) (h : Closes d .failed e) : Tame w e ∧ Fine e := ⟨h.tame, h.fine rfl⟩

/-- `_fail` before the switch. -/
theorem fail_before {r : ReleaseId} {u : World} (reason : String) (cleanupRelease : Option ReleaseId)
    (hends : SwitchEnds d r w Q E) (hu : Beside d r (fun e => Tame w e ∧ Fine e) w u)
    (hrow : u.db.deployments.row d = some dep) (hst : dep.status = .inProgress) :
    Ends (fail o d reason cleanupRelease none u) Q E := by
  refine (fail_spec o reason cleanupRelease hrow hst).mono (fun _ w' h' => ?_) (fun _ _ h => h.elim)
  exact hends.failed w' (hu.closed h' closes_failed) h'.status

/-- From a built release on: the gate, and what the run does with its result. -/
theorem gate_rule {s : ServerId} {c : HealerYaml} {lo hi : ℕ} {u : World}
    (hst : dep.status = .inProgress) (hends : SwitchEnds d dep.releaseId w Q E)
    (hconfig : w.db.application.config = some c) (hserver : w.db.application.serverId = some s)
    (hu : Beside d dep.releaseId (fun e => Tame w e ∧ Fine e ∧ Passing e) w u)
    (hrest : u.core = { w.core with releases := u.core.releases })
    (hrow : w.db.deployments.row d = some dep)
    (hrel : ∃ rel, u.db.releases.row dep.releaseId = some rel ∧
      (rel.status = .ready ∨ dep.kind ≠ .blueGreen ∧ w.db.releases.row dep.releaseId = some rel))
    (hswitch : ∀ new v, Prepared d dep s c new w v →
      Ends (switchTo o d dep.releaseId s c new v) Q E) :
    Ends (gateAndSwitch o d dep c s lo hi u) Q E := by
  obtain ⟨rel, hrelrow, hready⟩ := hrel
  have hinst : u.core.instances = w.core.instances := by rw [hrest]
  have hnext : u.db.instances.next = w.db.instances.next := congrArg Table.next hinst
  have hdeps : u.db.deployments = w.db.deployments := congrArg Core.deployments hrest
  have hservers : u.db.servers = w.db.servers := congrArg Core.servers hrest
  set L : Site := ⟨d, dep.releaseId, c, s, lo, hi, u.db.healthCheck,
    (u.db.servers s).map Server.hostname⟩ with hL
  have hgate := gateLoop_spec (o := o) (L := L) hrelrow dep.instanceCount [] u (gating_start L u)
  rw [List.length_nil, Nat.zero_add] at hgate
  simp only [gateAndSwitch, startAndHealthGate, ends_bind, ends_getDb]
  refine hgate.mono (fun r v hv => ?_) (fun e v hv => ?_)
  · have hdepsv : ∀ {P : Entry → Prop}, Aside L P u v → v.db.deployments = w.db.deployments :=
      fun h => (congrArg Core.deployments h.rest).trans hdeps
    cases r with
    | none =>
      have hbeside : Beside d dep.releaseId (fun e => Tame w e ∧ Fine e) w v :=
        Aside.beside rfl rfl hinst (hu.mono fun _ he => ⟨he.1, he.2.1⟩) hv
          fun e he => ⟨he.1.base hnext hu.still, he.2⟩
      exact fail_before _ _ hends hbeside (by rw [hdepsv hv]; exact hrow) hst
    | some new =>
      obtain ⟨hlen, hg⟩ := hv
      refine hswitch new v ⟨hconfig, hserver, ?_, ?_, ?_, ?_, ?_, ?_, hdepsv hg.aside⟩
      · exact Aside.beside rfl rfl hinst hu hg.aside
          fun e he => ⟨he.1.base hnext hu.still, he.2⟩
      · exact hlen
      · rw [← hnext]
        exact hg.ids
      · rw [← hnext]
        exact hg.next
      · intro i hi
        obtain ⟨hrun, hstart, hh⟩ := hg.up i hi
        refine ⟨hrun, hstart, fun hgated => hh ⟨hu.news.health hgated.1, ?_⟩⟩
        rw [hL]
        simpa [hservers] using hgated.2
      · exact ⟨rel, hg.aside.release.trans hrelrow, hready⟩
  · refine hends.raised e v ?_ ((congrArg Core.deployments hv.1.rest).trans hdeps) hv.2
    exact Aside.beside rfl rfl hinst (hu.mono fun _ he => he.1) hv.1
      fun e he => he.base hnext hu.still

/-- A switch either ends before `active_release_id` is written or reaches the write with
every new instance up. -/
theorem switchBody_rule (hrow : w.db.deployments.row d = some dep) (hst : dep.status = .inProgress)
    (hends : SwitchEnds d dep.releaseId w Q E)
    (hswitch : ∀ s c new v, Prepared d dep s c new w v →
      Ends (switchTo o d dep.releaseId s c new v) Q E) :
    Ends (switchBody o d dep w) Q E := by
  have hrefl := Beside.refl d dep.releaseId (fun e => Tame w e ∧ Fine e) w
  simp only [switchBody, ends_bind, ends_getDb]
  rcases hrel : w.db.releases.row dep.releaseId with _ | rel
  · exact hends.gone hrel
  rcases hserver : w.db.application.serverId with _ | s
  · exact fail_before _ _ hends hrefl hrow hst
  rcases hlo : w.db.application.portRangeStart with _ | lo
  · exact fail_before _ _ hends hrefl hrow hst
  rcases hhi : w.db.application.portRangeEnd with _ | hi
  · exact fail_before _ _ hends hrefl hrow hst
  rcases hconfig : w.db.application.config with _ | c
  · simp only [ends_bind, configFromApplication, ends_getDb, hconfig]
    exact hends.invalid hconfig
  simp only [ends_bind, ends_config hconfig, ends_ite]
  refine ⟨fun _ => fail_before _ _ hends hrefl hrow hst, fun _ => ⟨fun hkind => ?_, fun hkind => ?_⟩⟩
  · -- a blue-green release is built first
    refine (buildRelease_spec o d c s hrel).mono ?_ ?_
    · intro built u hu
      obtain ⟨hbuilt, hready⟩ := hu
      have hbeside : Beside d dep.releaseId (fun e => Tame w e ∧ Fine e ∧ Passing e) w u :=
        hbuilt.beside fun e he => ⟨he.tame, he.fine, he.passing⟩
      have hdeps : u.db.deployments.row d = some dep :=
        deployment_of_core hbuilt.rest hrow
      cases built with
      | false =>
        simp only [Bool.not_false, forall_true_left, not_true_eq_false, false_implies, and_true]
        exact fail_before _ _ hends (hbeside.mono fun _ he => ⟨he.1, he.2.1⟩) hdeps hst
      | true =>
        simp only [Bool.not_true, Bool.false_eq_true, false_implies, not_false_eq_true,
          forall_true_left, true_and]
        obtain ⟨rel', hrel', hst'⟩ := hready rfl
        exact gate_rule hst hends hconfig hserver hbeside hbuilt.rest hrow
          ⟨rel', hrel', .inl hst'⟩ (hswitch s c)
    · intro e u hu
      exact hends.raised e u (hu.1.beside fun e he => he.tame) (congrArg Core.deployments hu.1.rest)
        ⟨_, hu.2, rfl⟩
  · simp only [ends_pure, Bool.not_true, Bool.false_eq_true, false_implies, not_false_eq_true,
      forall_true_left, true_and]
    exact gate_rule hst hends hconfig hserver (Beside.refl _ _ _ w) rfl hrow
      ⟨rel, hrel, .inr ⟨hkind, hrel⟩⟩ (hswitch s c)

end Body

/-! ## After the switch -/

/-- The instances the end of the run drains. -/
def World.retired (w : World) : Option ReleaseId → List InstanceId
  | none => []
  | some old => w.drainable old

/-- A finished switch: drained, pruned, SUCCEEDED. -/
structure Finished (o : Oracle) (d : DeploymentId) (agent : ServerId) (is : List InstanceId)
    (w w' : World) : Prop where
  steps : ∃ u v, Drained o agent is true w u ∧ Pruning agent u v ∧ Closed d .succeeded v w' ∧
    ∀ i ∈ is, ∃ inst, u.db.instances.row i = some inst ∧ inst.status.terminal = true

section Tail

variable {o : Oracle} {d : DeploymentId} {dep : Deployment} {agent : ServerId} {c : HealerYaml}
  {w : World}

variable {is : List InstanceId}

/-- The end of an accepted switch, after a drain `m` of the old release. -/
theorem finishing_spec {m : M Unit} (hrow : w.db.deployments.row d = some dep)
    (hst : dep.status = .inProgress) (hact : w.core.active = some dep.releaseId)
    (hm : Ends (m w)
      (fun _ u => Drained o agent is true w u ∧
        ∀ i ∈ is, ∃ inst, u.db.instances.row i = some inst ∧ inst.status.terminal = true)
      (fun _ u => Drained o agent is false w u ∧ ∃ i, Event.sendFailed (.stopInstance i) ∈ u.events)) :
    Ends ((do
        m
        pruneOldReleases o d agent c
        transitionDeployment d .succeeded
        commit : M Unit) w)
      (fun _ w' => Finished o d agent is w w')
      (fun _ w' => Drained o agent is false w w' ∧
        ∃ i, Event.sendFailed (.stopInstance i) ∈ w'.events) := by
  refine Ends.bind hm (fun _ u hu => ?_) (fun _ _ h => h)
  obtain ⟨hdrained, hterm⟩ := hu
  refine Ends.bind (prune_spec u) (fun _ v hv => ?_) (fun _ _ h => h.elim)
  have hrowu : u.db.deployments.row d = some dep :=
    deployment_of_core hdrained.touched.rest hrow
  have hactu : u.core.active = some dep.releaseId :=
    (congrArg Core.active hdrained.touched.rest).trans hact
  have hrowv := hv.core.deployments d dep hrowu hactu
  refine (close_spec .succeeded hrowv hst rfl).mono (fun _ w' h' => ?_) (fun _ _ h => h.elim)
  exact ⟨u, v, hdrained, hv, h', hterm⟩

theorem finishSwitch_spec (old : Option ReleaseId) (hrow : w.db.deployments.row d = some dep)
    (hst : dep.status = .inProgress) (hact : w.core.active = some dep.releaseId) :
    Ends (finishSwitch o d agent c old w)
      (fun _ w' => Finished o d agent (w.retired old) w w')
      (fun _ w' => Drained o agent (w.retired old) false w w' ∧
        ∃ i, Event.sendFailed (.stopInstance i) ∈ w'.events) := by
  cases old with
  | none =>
    refine finishing_spec (m := pure ()) hrow hst hact ⟨⟨Touched.refl _ _, News.refl _ _, Still.refl w⟩, ?_⟩
    simp [World.retired]
  | some r => exact finishing_spec (m := drainOldRelease o d agent r c) hrow hst hact (drain_spec r)

/-- `_fail` with instances to stop. -/
theorem fail_stop_spec (reason : String) (cleanupRelease : Option ReleaseId)
    (hnodup : is.Nodup)
    (hrows : ∀ i ∈ is, ∃ inst, w.db.instances.row i = some inst ∧ inst.status = .running)
    (hrow : w.db.deployments.row d = some dep) (hst : dep.status = .inProgress) :
    Ends (fail o d reason cleanupRelease (some (agent, c, is)) w)
      (fun _ w' => ∃ u, Halted o agent .abortStopInstance .running is true w u ∧ Closed d .failed u w')
      (fun _ w' => Halted o agent .abortStopInstance .running is false w w' ∧
        HaltFailed .abortStopInstance .running is w') := by
  refine Ends.bind (halt_each hnodup hrows) (fun _ u hu => ?_) (fun _ _ h => h)
  have hrowu : u.db.deployments.row d = some dep :=
    deployment_of_core hu.halted.touched.rest hrow
  refine (fail_spec o reason cleanupRelease hrowu hst).mono (fun _ w' h' => ?_) (fun _ _ h => h.elim)
  exact ⟨u, hu.halted, h'⟩

/-- What the end of an accepted switch leaves in the trace. -/
def Finishes (o : Oracle) (d : DeploymentId) (agent : ServerId) (is : List InstanceId) (w : World)
    (e : Entry) : Prop :=
  Drains o agent is w true e ∨ Prunes agent e ∨ Closes d .succeeded e

theorem Finished.news {w' : World} (h : Finished o d agent is w w') :
    News (Finishes o d agent is w) w w' := by
  obtain ⟨u, v, hdrain, hprune, hclose, -⟩ := h.steps
  exact ((hdrain.news.mono fun _ => .inl).trans (hprune.news.mono fun _ h => .inr (.inl h))).trans
    (hclose.news.mono fun _ h => .inr (.inr h))

theorem Drains.silent {ok : Bool} {e : Entry} (h : Drains o agent is w ok e) :
    Silent e := by
  rcases h with ⟨i, -, h⟩ | h
  · exact (h.tame : Tame w e).silent
  · exact h.silent

theorem Prunes.silent {e : Entry} (h : Prunes agent e) : Silent e := by
  cases h with
  | background h => exact silent_background h
  | _ => exact ⟨by simp, by simp, by simp⟩

theorem Finishes.silent {e : Entry} (h : Finishes o d agent is w e) :
    Silent e := by
  rcases h with h | h | h
  · exact h.silent
  · exact h.silent
  · exact h.silent

/-- The four ways a run ends once the new instances are up. -/
theorem Prepared.switchTo_rule {s : ServerId} {new : List InstanceId} {v : World}
    {Q : Unit → World → Prop} {E : Exn → World → Prop} (hv : Prepared d dep s c new w v)
    (hrow : w.db.deployments.row d = some dep) (hst : dep.status = .inProgress)
    (haccept : ∀ u w', Accepted o dep.releaseId c v u →
      Finished o d s (u.retired v.db.application.activeReleaseId) u w' → Q () w')
    (hstuck : ∀ e u w', Accepted o dep.releaseId c v u →
      Drained o s (u.retired v.db.application.activeReleaseId) false u w' →
      (∃ i, Event.sendFailed (.stopInstance i) ∈ w'.events) → E e w')
    (hreject : ∀ u x w', c.domain.isSome → Rejected o dep.releaseId v u →
      Halted o s .abortStopInstance .running new true u x → Closed d .failed x w' → Q () w')
    (hbroken : ∀ e u w', c.domain.isSome → Rejected o dep.releaseId v u →
      Halted o s .abortStopInstance .running new false u w' →
      HaltFailed .abortStopInstance .running new w' → E e w') :
    Ends (switchTo o d dep.releaseId s c new v) Q E := by
  have hdeps : ∀ u : World, u.core.deployments = v.core.deployments →
      u.db.deployments.row d = some dep := fun u hu =>
    (congrArg (fun t => t.row d) (hu.trans hv.deployments)).trans hrow
  refine Healer.switchTo_rule (fun u hu => ?_) (fun u reason hdomain hu => ?_)
  · refine (finishSwitch_spec _ (hdeps u (by rw [hu.core])) hst (by rw [hu.core])).mono ?_ ?_
    · exact fun _ w' h => haccept u w' hu h
    · exact fun e w' h => hstuck e u w' hu h.1 h.2
  · have hnodup : new.Nodup := by
      rw [hv.ids]
      exact List.nodup_range'
    have hinst : u.db.instances = v.db.instances := congrArg Core.instances hu.core
    refine (fail_stop_spec reason _ hnodup (fun i hi => ?_) (hdeps u (by rw [hu.core])) hst).mono ?_ ?_
    · rw [hinst]
      exact (hv.up i hi).running
    · intro _ w' h
      obtain ⟨x, hhalt, hclose⟩ := h
      exact hreject u x w' hdomain hu hhalt hclose
    · exact fun e w' h => hbroken e u w' hdomain hu h.1 h.2

end Tail

/-! ## The lock around a run -/

theorem release_core (a : Application) (token : Time) :
    (a.release token).activeReleaseId = a.activeReleaseId := by
  unfold Application.release
  split <;> rfl

theorem unlock_core (w : World) (token : Time) :
    (w.unlock token).core = { w.core with lock := (w.unlock token).core.lock } := by
  simp only [World.core, World.unlock, emit_db, setDb_db, release_core]

theorem news_unlock {P : Entry → Prop} (w : World) (token : Time) (hP : ∀ e, e.background → P e) :
    News P w (w.unlock token) := by
  have hset : News P w (w.setDb { w.db with application := w.db.application.release token }) :=
    news_setDb rfl
  exact hset.trans (news_emit (hP ⟨.commit, _, _⟩ trivial))

variable {body : DeploymentId → Deployment → M Unit}

/-- A run is its body with what the `finally` does at the end. -/
theorem withDeployment_rule {d : DeploymentId}
    {dep : Deployment} {token : Time} {w : World} {Q : Unit → World → Prop} {E : Exn → World → Prop}
    (hrow : w.db.deployments.row d = some dep)
    (h : Ends (body d dep w) (fun _ w' => Q () (w'.unlock token)) (fun e w' => E e (w'.released token e))) :
    Ends (withDeployment body d token w) Q E := by
  simp only [withDeployment, ends_bind, ends_getDb, hrow]
  exact ends_releaseFinally.2 h

/-- What the body leaves behind however it ends, and the release of the lock keeps. -/
theorem withDeployment_state {d : DeploymentId}
    {dep : Deployment} {token : Time} {w : World} {P : World → Prop}
    (hrow : w.db.deployments.row d = some dep)
    (hbody : Ends (body d dep w) (fun _ => P) (fun _ => P))
    (hunlock : ∀ w', P w' → P (w'.unlock token)) : P (withDeployment body d token w).2 := by
  have hrun : Ends (withDeployment body d token w) (fun _ => P) (fun _ => P) :=
    withDeployment_rule hrow (hbody.mono (fun _ => hunlock) fun _ w' h => released_of h (hunlock w' h))
  exact hrun.state

end Healer
