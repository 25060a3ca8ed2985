import Healer.Sanity.Gate

/-! The other steps of a release switch: the build, the deployment's status, the write
of `active_release_id` with its sync, the drain and the pruning. -/

namespace Healer

open Prog

/-! ## Deployment status -/

section Deployment

variable {d : DeploymentId} {dep : Deployment} {target : DeploymentStatus} {w : World}

/-- The entries of a deployment that leaves IN_PROGRESS. -/
def Closes (d : DeploymentId) (target : DeploymentStatus) (e : Entry) : Prop :=
  e.background ∨ e.event = .deploymentTransition d .inProgress target

theorem transitionDeployment_spec (hrow : w.db.deployments.row d = some dep)
    (hst : dep.status = .inProgress)
    (hcan : canTransition deploymentTransitions .inProgress target = true) :
    Ends (transitionDeployment d target w)
      (fun _ w' => Went (Closes d target) { w.core with
        deployments := w.core.deployments.modify d fun dep => { dep with status := target } } w w')
      (fun _ _ => False) := by
  simp only [transitionDeployment, ends_bind, ends_getDb, hrow, ends_emit, hst, hcan, if_true,
    ends_modifyDb]
  exact ⟨rfl, (news_emit (.inr rfl)).trans (news_setDb rfl), fun _ => rfl⟩

/-- The deployment `d` has reached `target`; the instances, the active release and the
servers have not changed. -/
structure Closed (d : DeploymentId) (target : DeploymentStatus) (w w' : World) : Prop where
  instances : w'.core.instances = w.core.instances
  active : w'.core.active = w.core.active
  servers : w'.core.servers = w.core.servers
  status : ∃ dep, w'.db.deployments.row d = some dep ∧ dep.status = target
  news : News (Closes d target) w w'
  still : Still w w'

theorem close_spec (target : DeploymentStatus) (hrow : w.db.deployments.row d = some dep)
    (hst : dep.status = .inProgress)
    (hcan : canTransition deploymentTransitions .inProgress target = true) :
    Ends ((do transitionDeployment d target; commit : M Unit) w) (fun _ => Closed d target w)
      (fun _ _ => False) := by
  refine Ends.bind (transitionDeployment_spec hrow hst hcan) (fun _ w1 h1 => ?_) (fun _ _ h => h)
  have h2 := h1.calm (calm_commit w1) fun _ => .inl
  refine ⟨by rw [h2.core], by rw [h2.core], by rw [h2.core], ⟨{ dep with status := target }, ?_, rfl⟩,
    h2.news, h2.still⟩
  have hdep := congrArg (fun k => k.deployments.row d) h2.core
  refine hdep.trans ?_
  change (w.db.deployments.modify d _).row d = _
  rw [Table.modify_row_self, hrow]
  rfl

/-- `_fail` after a first step `m` that may touch the release row. -/
theorem failing_spec {m : M Unit} (reason : String) (hrow : w.db.deployments.row d = some dep)
    (hst : dep.status = .inProgress)
    (hm : Ends (m w) (fun _ w1 => Went (Closes d .failed) w1.core w w1 ∧
      w1.core = { w.core with releases := w1.core.releases }) (fun _ _ => False)) :
    Ends ((do
        m
        modifyDb fun db => { db with
          deployments := db.deployments.modify d fun dep => { dep with failureReason := some reason } }
        log d .error reason
        transitionDeployment d .failed
        commit : M Unit) w) (fun _ => Closed d .failed w) (fun _ _ => False) := by
  simp only [ends_bind]
  refine hm.mono (fun _ w1 h1 => ?_) (fun _ _ h => h)
  obtain ⟨hwent1, hcore1⟩ := h1
  simp only [ends_modifyDb]
  set w2 := w1.setDb { w1.db with deployments := w1.db.deployments.modify d fun dep =>
    { dep with failureReason := some reason } } with hw2
  refine (log_spec d .error reason w2).mono (fun _ w3 h3 => ?_) (fun _ _ h => h)
  have hrow3 : w3.db.deployments.row d = some { dep with failureReason := some reason } := by
    have hdep := congrArg (fun k => k.deployments.row d) h3.core
    refine hdep.trans ?_
    change (w1.db.deployments.modify d _).row d = _
    have hrow1 : w1.db.deployments.row d = some dep :=
      deployment_of_core hcore1 hrow
    rw [Table.modify_row_self, hrow1]
    rfl
  have hclose := close_spec .failed hrow3 hst rfl
  rw [ends_bind] at hclose
  refine hclose.mono (fun _ w4 h4 => ?_) (fun _ _ h => h)
  have hmid : Went (Closes d .failed) w2.core w1 w2 := went_setDb rfl
  have hall := (hwent1.trans hmid).calm h3 fun _ => .inl
  refine ⟨?_, ?_, ?_, h4.status, hall.news.trans h4.news, hall.still.trans h4.still⟩
  · have hcore : w1.core.instances = w.core.instances := by rw [hcore1]
    rw [h4.instances, hall.core]
    exact hcore
  · have hcore : w1.core.active = w.core.active := by rw [hcore1]
    rw [h4.active, hall.core]
    exact hcore
  · have hcore : w1.core.servers = w.core.servers := by rw [hcore1]
    rw [h4.servers, hall.core]
    exact hcore

/-- The end of `_fail`, after the instances have been stopped. -/
theorem fail_spec (o : Oracle) (reason : String) (cleanupRelease : Option ReleaseId)
    (hrow : w.db.deployments.row d = some dep) (hst : dep.status = .inProgress) :
    Ends (fail o d reason cleanupRelease none w) (fun _ => Closed d .failed w) (fun _ _ => False) := by
  cases cleanupRelease with
  | none =>
    exact failing_spec (m := pure ()) reason hrow hst ⟨⟨rfl, News.refl _ _, Still.refl w⟩, rfl⟩
  | some r =>
    exact failing_spec (m := modifyRelease r fun rel => if rel.status = .ready then rel else
      { rel with status := .failed }) reason hrow hst ⟨went_setDb rfl, rfl⟩

end Deployment

/-! ## The build -/

/-- What a build leaves in the trace. -/
inductive Builds (d : DeploymentId) (agent : ServerId) (ok : Bool) : Entry → Prop
  | background {e : Entry} (h : e.background) : Builds d agent ok e
  | build {adapter slug version source db routed} : Builds d agent ok
      ⟨.submitted agent (.deployRelease d) (.deployRelease adapter slug version source), db, routed⟩
  | answered {row db routed} : Builds d agent ok ⟨.answered (.deployRelease d) row, db, routed⟩
  | sendFailed {db routed} (h : ok = false) : Builds d agent ok ⟨.sendFailed (.deployRelease d), db, routed⟩

/-- Only the release `r` has changed since `w`. -/
structure Built (d : DeploymentId) (r : ReleaseId) (agent : ServerId) (ok : Bool) (w w' : World) :
    Prop where
  rest : w'.core = { w.core with releases := w'.core.releases }
  release : ∃ rel, w'.db.releases.row r = some rel
  news : News (Builds d agent ok) w w'
  still : Still w w'

variable {d : DeploymentId} {agent : ServerId} {ok : Bool} {r : ReleaseId}

theorem Asked.builds {adapter : Adapter} {slug version : String}
    {source : SourceConfig} {reply : Event} {w w' : World}
    (h : Asked agent (.deployRelease d) (.deployRelease adapter slug version source) reply w w')
    (hreply : ∀ db routed, Builds d agent ok ⟨reply, db, routed⟩) : News (Builds d agent ok) w w' := by
  refine h.went.news.mono ?_
  rintro ⟨e, db, routed⟩ (hb | he | he)
  · exact .background hb
  · cases he
    exact .build
  · cases he
    exact hreply db routed

/-- A write to one release row. -/
theorem modifyRelease_built
    {w : World} {rel : Release} (f : Release → Release) (h : w.db.releases.row r = some rel) :
    Built d r agent ok w (w.setDb { w.db with releases := w.db.releases.modify r f }) :=
  ⟨rfl, ⟨f rel, by simp [h]⟩, news_setDb rfl, fun _ => rfl⟩

theorem Built.trans {a b c : World}
    (h : Built d r agent ok a b) (h' : Built d r agent ok b c) : Built d r agent ok a c :=
  ⟨by rw [h'.rest, h.rest], h'.release, h.news.trans h'.news, h.still.trans h'.still⟩

theorem Built.went {a b c : World}
    (h : Built d r agent ok a b) (hcore : c.core = b.core) (hnews : News (Builds d agent ok) b c)
    (hstill : Still b c) : Built d r agent ok a c := by
  refine ⟨by rw [hcore]; exact h.rest, ?_, h.news.trans hnews, h.still.trans hstill⟩
  have hrel : c.db.releases.row r = b.db.releases.row r := congrArg (fun k => k.releases.row r) hcore
  rw [hrel]
  exact h.release

theorem buildRelease_spec (o : Oracle) (d : DeploymentId) (c : HealerYaml)
    (agent : ServerId) {w : World} {rel : Release} (hrel : w.db.releases.row r = some rel) :
    Ends (buildRelease o d r c agent w)
      (fun ok w' => Built d r agent true w w' ∧
        (ok = true → ∃ rel, w'.db.releases.row r = some rel ∧ rel.status = .ready))
      (fun _ w' => Built d r agent false w w' ∧ Event.sendFailed (.deployRelease d) ∈ w'.events) := by
  simp only [buildRelease, ends_bind, ends_modifyRelease, ends_commit, ends_getDb]
  set w1 := w.setDb { w.db with releases := w.db.releases.modify r fun rel =>
    { rel with status := .building } }
  have h2 : ∀ ok, Built d r agent ok w (w1.emit .commit) := fun ok =>
    (modifyRelease_built _ hrel).went rfl (news_emit (.background trivial)) fun _ => rfl
  obtain ⟨rel2, hrel2⟩ := (h2 true).release
  simp only [ends_getRelease hrel2]
  refine (submit_spec o agent (.deployRelease d) _ (w1.emit .commit)).mono ?_ ?_
  · intro row w3 h3
    obtain ⟨-, hasked⟩ := h3
    have h3 := (h2 true).went hasked.went.core (hasked.builds fun _ _ => .answered) hasked.went.still
    refine (persistAgent_spec d row w3).mono ?_ (fun _ _ h => h.elim)
    intro ok w4 h4
    obtain ⟨rfl, hcalm⟩ := h4
    have h4 := h3.went hcalm.core (hcalm.news.mono fun _ => .background) hcalm.still
    obtain ⟨rel4, hrel4⟩ := h4.release
    simp only [ends_pure]
    refine ⟨?_, fun hok => ⟨rel4.built row, ?_, rfl⟩⟩
    · exact (h4.trans (modifyRelease_built _ hrel4)).went rfl (news_emit (.background trivial))
        fun _ => rfl
    · simp [hrel4, hok]
  · intro e w3 h3
    obtain ⟨error, -, -, hasked⟩ := h3
    refine ⟨?_, hasked.replied⟩
    exact (h2 false).went hasked.went.core (hasked.builds fun _ _ => .sendFailed rfl)
      hasked.went.still

/-! ## The switch and its sync -/

/-- The entries of a gateway sync with its outcome. -/
def Syncs (ok : Bool) (e : Entry) : Prop :=
  e.background ∨ (∃ payload, e.event = .sync payload) ∨ e.event = .synced ok

/-- No request is applied after its caller has been told that it failed. -/
def Delivery.faithful : Delivery → Prop
  | .timedOut _ (some _) => False
  | _ => True

structure Synced (o : Oracle) (ok : Bool) (w w' : World) : Prop where
  core : w'.core = w.core
  news : News (Syncs ok) w w'
  synced : Event.synced ok ∈ w'.events
  gateway : w.gateway.inFlight = [] → (o.delivery w.syncs).faithful →
    w'.gateway = if ok then w.gateway.apply w.db.reloadPayload else w.gateway

/-- With a faithful delivery the gateway has the new configuration exactly when the
caller is told so. -/
theorem Gateway.receive_faithful {delivery : Delivery} (g : Gateway) (p : ReloadPayload)
    (h : delivery.faithful) :
    g.receive p delivery = if delivery.result.ok then g.apply p else g := by
  match delivery, h with
  | .answered true _, _ => rfl
  | .answered false _, _ => rfl
  | .unprocessable _, _ => rfl
  | .timedOut _ none, _ => rfl

theorem syncGateway_spec (o : Oracle) (w : World) :
    Ends (syncGateway o w) (fun result w' => Synced o result.ok w w') (fun _ _ => False) := by
  simp only [syncGateway, ends_bind, ends_read, ends_emit, ends_update, ends_suspend,
    ends_commit, ends_pure]
  set delivery := o.delivery w.syncs
  set w1 := { w.emit (.sync w.db.reloadPayload) with
    gateway := (w.emit (.sync w.db.reloadPayload)).gateway.receive w.db.reloadPayload delivery,
    syncs := (w.emit (.sync w.db.reloadPayload)).syncs + 1 } with hw1
  have hcalm : Calm w1 (w1.suspend o) := calm_suspend o w1
  have hsync : News (Syncs delivery.result.ok) w w1 := by
    have h : News (Syncs delivery.result.ok) w (w.emit (.sync w.db.reloadPayload)) :=
      news_emit (.inr (.inl ⟨_, rfl⟩))
    exact ⟨h.entries, id⟩
  refine ⟨hcalm.core, ?_, by simp, fun hflight hfaithful => ?_⟩
  · exact ((hsync.trans (hcalm.news.mono fun _ => .inl)).trans
      (news_emit (.inr (.inr rfl)))).trans (news_emit (.inl trivial))
  · have hg : w1.gateway = if delivery.result.ok then w.gateway.apply w.db.reloadPayload else w.gateway :=
      Gateway.receive_faithful _ _ hfaithful
    have hflight1 : w1.gateway.inFlight = [] := by
      rw [hg]
      split
      · exact hflight
      · exact hflight
    exact (hcalm.still hflight1).trans hg

def World.activate (w : World) (r : Option ReleaseId) : World :=
  ((w.emit (.setActive r)).setDb
    { w.db with application := { w.db.application with activeReleaseId := r } }).emit .commit

@[simp] theorem ends_setActive {r : Option ReleaseId} {w : World} {Q : Unit → World → Prop}
    {E : Exn → World → Prop} : Ends (setActive r w) Q E ↔ Q () (w.activate r) := Iff.rfl

@[simp] theorem activate_core (w : World) (r : Option ReleaseId) :
    (w.activate r).core = { w.core with active := r } := rfl

theorem activate_news {P : Entry → Prop} (w : World) (r : Option ReleaseId)
    (hP : ∀ e, e.background → P e) : News P (w.emit (.setActive r)) (w.activate r) := by
  have hset : News P (w.emit (.setActive r)) ((w.emit (.setActive r)).setDb
      { w.db with application := { w.db.application with activeReleaseId := r } }) := news_setDb rfl
  exact hset.trans (news_emit (hP ⟨.commit, _, _⟩ trivial))

/-- The write of the new release stood: there was no domain, or the sync succeeded. -/
structure Accepted (o : Oracle) (r : ReleaseId) (c : HealerYaml) (v u : World) : Prop where
  core : u.core = { v.core with active := some r }
  news : News (Syncs true) (v.emit (.setActive (some r))) u
  gateway : c.domain.isSome → v.gateway.inFlight = [] → (o.delivery v.syncs).faithful →
    u.gateway = v.gateway.apply (v.activate (some r)).db.reloadPayload

/-- The sync failed and the write was undone. -/
structure Rejected (o : Oracle) (r : ReleaseId) (v u : World) : Prop where
  core : u.core = v.core
  news : News (fun e => Syncs false e ∨ e.event = .setActive v.db.application.activeReleaseId)
    (v.emit (.setActive (some r))) u
  synced : Event.synced false ∈ u.events
  gateway : v.gateway.inFlight = [] → (o.delivery v.syncs).faithful → u.gateway = v.gateway

/-- The two ways on from the write of `active_release_id`. -/
theorem switchTo_rule {o : Oracle}
    {c : HealerYaml} {new : List InstanceId} {v : World} {Q : Unit → World → Prop}
    {E : Exn → World → Prop}
    (haccept : ∀ u, Accepted o r c v u →
      Ends (finishSwitch o d agent c v.db.application.activeReleaseId u) Q E)
    (hreject : ∀ u reason, c.domain.isSome → Rejected o r v u →
      Ends (fail o d reason (some r) (some (agent, c, new)) u) Q E) :
    Ends (switchTo o d r agent c new v) Q E := by
  simp only [switchTo, ends_bind, ends_read, ends_setActive, ends_ite]
  refine ⟨fun hdomain => ?_, fun hdomain => ?_⟩
  · refine (syncGateway_spec o (v.activate (some r))).mono ?_ (fun _ _ h => h.elim)
    intro result u h
    refine ⟨fun hok => haccept u ?_, fun hok => ?_⟩
    · rw [hok] at h
      exact ⟨h.core, (activate_news v (some r) fun _ => .inl).trans h.news,
        fun _ hflight hfaithful => h.gateway hflight hfaithful⟩
    · rw [Bool.not_eq_true] at hok
      rw [hok] at h
      refine hreject _ _ hdomain ⟨?_, ?_, ?_, fun hflight hfaithful => h.gateway hflight hfaithful⟩
      · rw [activate_core, h.core]
        rfl
      · have hpre := (activate_news v (some r) fun _ => .inl).trans h.news
        have hundo : News (fun e => Syncs false e ∨ e.event = .setActive v.db.application.activeReleaseId)
            u (u.emit (.setActive v.db.application.activeReleaseId)) := news_emit (.inr rfl)
        exact ((hpre.mono fun _ => .inl).trans hundo).trans
          (activate_news u _ fun _ he => .inl (.inl he))
      · have hmem := h.synced
        simp only [World.activate, emit_events, setDb_events, List.mem_append]
        exact .inl (.inl hmem)
  · exact haccept _ ⟨rfl, activate_news v (some r) fun _ => .inl, fun h => (hdomain h).elim⟩

end Healer
