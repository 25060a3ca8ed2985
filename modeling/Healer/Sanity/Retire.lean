import Healer.Sanity.Steps

/-! What happens to the old release after a switch: `_drain_old_release` and
`_prune_old_releases`. -/

namespace Healer

open Prog List

/-! ## Drain -/

/-- What the drain of `is` leaves in the trace. -/
def Drains (o : Oracle) (agent : ServerId) (is : List InstanceId) (w : World) (ok : Bool) (e : Entry) :
    Prop :=
  (∃ i ∈ is, Moves i .running .draining e) ∨ Halts o agent .stopInstance .draining is w ok e

structure Drained (o : Oracle) (agent : ServerId) (is : List InstanceId) (ok : Bool) (w w' : World) :
    Prop where
  touched : Touched (· ∈ is) w.core w'.core
  news : News (Drains o agent is w ok) w w'
  still : Still w w'

section Drain

variable {o : Oracle} {d : DeploymentId} {agent : ServerId} {c : HealerYaml} {is : List InstanceId}
  {w w₀ : World}

theorem drains_background {ok : Bool} {e : Entry} (h : e.background) : Drains o agent is w ok e :=
  .inr (.background h)

/-- The instances have left RUNNING one by one. -/
theorem mark_each (o : Oracle) (agent : ServerId) (hnodup : is.Nodup)
    (hrows : ∀ i ∈ is, ∃ inst, w.db.instances.row i = some inst ∧ inst.status = .running) :
    Ends (Prog.each (fun i => transition i .draining) is w)
      (fun _ w' => Drained o agent is true w w' ∧ Sweep .running (· = .draining) is [] w'.core)
      (fun _ _ => False) := by
  refine ends_each
    (I := fun rem w' => Drained o agent is true w w' ∧ Sweep .running (· = .draining) is rem w'.core)
    (fun i rem s h => ?_) is w ⟨⟨Touched.refl _ _, News.refl _ _, Still.refl w⟩, sweep_start _ hnodup hrows⟩
  obtain ⟨hd, hsweep⟩ := h
  obtain ⟨inst, hrow, hst⟩ := hsweep.left i mem_cons_self
  have hi := hsweep.sub i mem_cons_self
  refine (transition_spec hrow (by rw [hst]; rfl)).mono (fun _ s' h' => ?_) (fun _ _ h => h)
  obtain ⟨hmove, -⟩ := h'
  rw [hst] at hmove
  refine ⟨⟨?_, hd.news.trans (hmove.news.mono fun _ he => .inl ⟨i, hi, he⟩),
    hd.still.trans hmove.still⟩, ?_⟩
  · rw [hmove.core]
    exact hd.touched.trans (touched_setStatus hi _)
  · rw [hmove.core]
    exact hsweep.step rfl

/-- The instances `_drain_old_release` selects. -/
def World.drainable (w : World) (old : ReleaseId) : List InstanceId :=
  w.db.instances.select fun i => i.releaseId == some old && i.status == .running

theorem mem_drainable {old : ReleaseId} {i : InstanceId} :
    i ∈ w.drainable old ↔
      ∃ inst, w.db.instances.row i = some inst ∧ inst.releaseId = some old ∧ inst.status = .running := by
  simp [World.drainable, Table.mem_select]

theorem drain_spec (old : ReleaseId) :
    Ends (drainOldRelease o d agent old c w)
      (fun _ w' => Drained o agent (w.drainable old) true w w' ∧
        ∀ i ∈ w.drainable old, ∃ inst, w'.db.instances.row i = some inst ∧
          inst.status.terminal = true)
      (fun _ w' => Drained o agent (w.drainable old) false w w' ∧
        ∃ i, Event.sendFailed (.stopInstance i) ∈ w'.events) := by
  simp only [drainOldRelease, ends_bind, ends_getDb]
  change Ends ((if (w.drainable old).isEmpty then _ else _ : M Unit) w) _ _
  have hnodup : (w.drainable old).Nodup := Table.select_nodup _ _
  have hrows : ∀ i ∈ w.drainable old, ∃ inst, w.db.instances.row i = some inst ∧
      inst.status = .running := by
    intro i hi
    obtain ⟨inst, hrow, -, hst⟩ := mem_drainable.1 hi
    exact ⟨inst, hrow, hst⟩
  rw [ends_ite]
  refine ⟨fun hempty => ?_, fun _ => ?_⟩
  · refine ⟨⟨Touched.refl _ _, News.refl _ _, Still.refl w⟩, ?_⟩
    rw [isEmpty_iff.1 hempty]
    simp
  set is := w.drainable old
  refine Ends.bind (mark_each o agent hnodup hrows) (fun _ w1 h1 => ?_)
    (fun _ _ h => h.elim)
  obtain ⟨hmark, hsweep⟩ := h1
  simp only [ends_bind, ends_commit, ends_suspend]
  have hcalm : Calm w1 ((w1.emit .commit).suspend o) := (calm_commit w1).then (calm_suspend o _)
  set w2 := (w1.emit .commit).suspend o
  have hmark2 : Drained o agent is true w w2 :=
    ⟨by rw [hcalm.core]; exact hmark.touched,
      hmark.news.trans (hcalm.news.mono fun _ => drains_background), hmark.still.trans hcalm.still⟩
  have hrows2 : ∀ i ∈ is, ∃ inst, w2.db.instances.row i = some inst ∧ inst.status = .draining := by
    intro i hi
    have hrow := congrArg (fun k => k.instances.row i) hcalm.core
    exact (hsweep.done i hi (by simp)).imp fun inst h => ⟨hrow.trans h.1, h.2⟩
  refine (halt_each hnodup hrows2).mono ?_ ?_
  · intro _ w3 h3
    refine ⟨⟨hmark2.touched.trans h3.halted.touched, hmark2.news.trans (h3.halted.news.mono ?_),
      hmark2.still.trans h3.halted.still⟩, fun i hi => h3.sweep.done i hi (by simp)⟩
    exact fun e he => .inr (he.base hmark2.still)
  · intro _ w3 h3
    obtain ⟨hhalt, i, hi, hsend | ⟨row, -, hcan⟩⟩ := h3
    · refine ⟨⟨hmark2.touched.trans hhalt.touched, ?_, hmark2.still.trans hhalt.still⟩, i, hsend⟩
      refine (hmark2.news.mono fun e he => he.imp id Halts.weaken).trans (hhalt.news.mono ?_)
      exact fun e he => .inr (he.base hmark2.still)
    · -- out of DRAINING the table takes either outcome
      rw [canTransition_draining_stop] at hcan
      cases hcan

end Drain

/-! ## Pruning -/

/-- `inst'` is `inst` with its links to deleted rows cleared; the link to the active
release stays. -/
def Detached (active : Option ReleaseId) (inst inst' : Instance) : Prop :=
  inst' = { inst with releaseId := inst'.releaseId, deploymentId := inst'.deploymentId } ∧
    (inst'.releaseId = inst.releaseId ∨ inst'.releaseId = none ∧ inst.releaseId ≠ active)

/-- Releases other than the active one are gone, with their deployments and the links of
their instances. -/
structure Pruned (k k' : Core) : Prop where
  active : k'.active = k.active
  next : k'.instances.next = k.instances.next
  rows : ∀ j, k'.instances.row j = none ∧ k.instances.row j = none ∨
    ∃ inst inst', k.instances.row j = some inst ∧ k'.instances.row j = some inst' ∧
      Detached k.active inst inst'
  deployments : ∀ d dep, k.deployments.row d = some dep → k.active = some dep.releaseId →
    k'.deployments.row d = some dep

theorem Detached.trans {active : Option ReleaseId} {a b c : Instance} (h : Detached active a b)
    (h' : Detached active b c) : Detached active a c := by
  obtain ⟨heq, hrel⟩ := h
  obtain ⟨heq', hrel'⟩ := h'
  refine ⟨by rw [heq', heq], ?_⟩
  rcases hrel' with hrel' | ⟨hnone, hne⟩
  · rw [hrel']
    exact hrel
  · rcases hrel with hrel | ⟨-, hne'⟩
    · exact .inr ⟨hnone, hrel ▸ hne⟩
    · exact .inr ⟨hnone, hne'⟩

theorem Pruned.refl (k : Core) : Pruned k k := by
  refine ⟨rfl, rfl, fun j => ?_, fun _ _ h _ => h⟩
  cases hrow : k.instances.row j with
  | none => exact .inl ⟨rfl, rfl⟩
  | some inst => exact .inr ⟨inst, inst, rfl, rfl, rfl, .inl rfl⟩

theorem Pruned.trans {a b c : Core} (h : Pruned a b) (h' : Pruned b c) : Pruned a c := by
  refine ⟨h'.active.trans h.active, h'.next.trans h.next, fun j => ?_, fun d dep hrow hact => ?_⟩
  · rcases h.rows j with ⟨hb, ha⟩ | ⟨inst, inst', ha, hb, hdet⟩
    · rcases h'.rows j with ⟨hc, -⟩ | ⟨x, -, hb', -⟩
      · exact .inl ⟨hc, ha⟩
      · rw [hb] at hb'
        cases hb'
    · rcases h'.rows j with ⟨-, hb'⟩ | ⟨x, inst'', hb', hc, hdet'⟩
      · rw [hb] at hb'
        cases hb'
      · rw [hb] at hb'
        cases hb'
        rw [h.active] at hdet'
        exact .inr ⟨inst, inst'', ha, hc, hdet.trans hdet'⟩
  · exact h'.deployments d dep (h.deployments d dep hrow hact) (h.active ▸ hact)

variable {r : ReleaseId}

theorem pruned_deleteRelease {w : World}
    (hne : w.db.application.activeReleaseId ≠ some r) :
    Pruned w.core (w.setDb (w.db.deleteRelease r)).core := by
  refine ⟨?_, rfl, fun j => ?_, fun d dep hrow hact => ?_⟩
  · change w.db.application.activeReleaseId.filter (· != r) = w.db.application.activeReleaseId
    cases hact : w.db.application.activeReleaseId with
    | none => rfl
    | some a =>
      have har : a ≠ r := fun h => hne (by rw [hact, h])
      simp [Option.filter, har]
  · change (w.db.instances.row j).map _ = none ∧ w.db.instances.row j = none ∨ _
    cases hrow : w.db.instances.row j with
    | none => exact .inl ⟨rfl, rfl⟩
    | some inst =>
      refine .inr ⟨inst, { inst with
          releaseId := inst.releaseId.filter (· != r)
          deploymentId := inst.deploymentId.filter fun d =>
            !(w.db.deployments.row d).any fun dep => dep.releaseId == r }, hrow, ?_, rfl, ?_⟩
      · change (w.db.instances.row j).map _ = _
        rw [hrow]
        rfl
      · change inst.releaseId.filter (· != r) = inst.releaseId ∨
          inst.releaseId.filter (· != r) = none ∧ inst.releaseId ≠ w.db.application.activeReleaseId
        cases hrel : inst.releaseId with
        | none => exact .inl rfl
        | some a =>
          by_cases har : a = r
          · subst har
            exact .inr ⟨by simp [Option.filter], fun h => hne h.symm⟩
          · exact .inl (by simp [Option.filter, har])
  · change (w.db.deployments.row d).filter _ = some dep
    change w.db.deployments.row d = some dep at hrow
    have hdr : dep.releaseId ≠ r := by
      rintro rfl
      exact hne hact
    rw [hrow]
    simp [Option.filter, hdr]

/-- What pruning leaves in the trace. -/
inductive Prunes (agent : ServerId) : Entry → Prop
  | background {e : Entry} (h : e.background) : Prunes agent e
  | cleanup {r slug ref db routed} :
      Prunes agent ⟨.submitted agent (.cleanupImage r) (.cleanupImage slug ref), db, routed⟩
  | answered {r row db routed} : Prunes agent ⟨.answered (.cleanupImage r) row, db, routed⟩
  | sendFailed {r db routed} : Prunes agent ⟨.sendFailed (.cleanupImage r), db, routed⟩

structure Pruning (agent : ServerId) (w w' : World) : Prop where
  core : Pruned w.core w'.core
  news : News (Prunes agent) w w'
  still : Still w w'

section Prune

variable {o : Oracle} {d : DeploymentId} {agent : ServerId} {c : HealerYaml} {w : World} {rs pending : List ReleaseId}

theorem Pruning.trans {a b c : World} (h : Pruning agent a b) (h' : Pruning agent b c) :
    Pruning agent a c :=
  ⟨h.core.trans h'.core, h.news.trans h'.news, h.still.trans h'.still⟩

theorem Calm.pruning {a b : World} (h : Calm a b) : Pruning agent a b :=
  ⟨by rw [h.core]; exact Pruned.refl _, h.news.mono fun _ => .background, h.still⟩

theorem flush_spec (agent : ServerId) (pending : List ReleaseId) :
    ∀ w : World, (∀ r ∈ pending, w.db.application.activeReleaseId ≠ some r) →
      Pruning agent w (w.setDb (pending.foldl Db.deleteRelease w.db)) ∧
      ∀ r, r ∉ pending → (pending.foldl Db.deleteRelease w.db).releases.row r = w.db.releases.row r := by
  induction pending with
  | nil => intro w _; exact ⟨⟨Pruned.refl _, news_setDb rfl, fun _ => rfl⟩, fun _ _ => rfl⟩
  | cons r pending ih =>
    intro w hne
    have hone : Pruning agent w (w.setDb (w.db.deleteRelease r)) :=
      ⟨pruned_deleteRelease (hne r mem_cons_self), news_setDb rfl, fun _ => rfl⟩
    obtain ⟨hrest, hrows⟩ := ih (w.setDb (w.db.deleteRelease r)) fun r' hr' => by
      rw [show (w.setDb (w.db.deleteRelease r)).db.application.activeReleaseId =
        w.db.application.activeReleaseId from hone.core.active]
      exact hne r' (mem_cons_of_mem _ hr')
    refine ⟨hone.trans hrest, fun r' hr' => ?_⟩
    rw [mem_cons, not_or] at hr'
    obtain ⟨hr, hr'⟩ := hr'
    refine (hrows r' hr').trans ?_
    change (if r' = r then none else w.db.releases.row r') = _
    rw [if_neg hr]

/-- What the loop relies on: the releases ahead exist, and neither they nor the active
one wait to be deleted. -/
structure Prunable (rs pending : List ReleaseId) (w : World) : Prop where
  nodup : rs.Nodup
  ahead : ∀ r ∈ rs, ∃ rel, w.db.releases.row r = some rel
  active : ∀ r ∈ pending, w.db.application.activeReleaseId ≠ some r
  apart : ∀ r ∈ pending, r ∉ rs

theorem Prunable.tail (h : Prunable (r :: rs) pending w) :
    Prunable rs pending w :=
  ⟨(nodup_cons.1 h.nodup).2, fun r' hr' => h.ahead r' (mem_cons_of_mem _ hr'), h.active,
    fun r' hr' hmem => h.apart r' hr' (mem_cons_of_mem _ hmem)⟩

/-- The same releases lie ahead after other rows were written or deleted. -/
theorem Prunable.flushed {w' : World}
    (h : Prunable (r :: rs) pending w) (hrows : ∀ r' ∈ rs, w'.db.releases.row r' = w.db.releases.row r')
    (hact : w'.core.active = w.core.active) (hr : w.db.application.activeReleaseId ≠ some r) :
    Prunable rs [] w' ∧ Prunable rs [r] w' := by
  obtain ⟨hnot, hnodup⟩ := nodup_cons.1 h.nodup
  have hahead : ∀ r' ∈ rs, ∃ rel, w'.db.releases.row r' = some rel := by
    intro r' hr'
    rw [hrows r' hr']
    exact h.ahead r' (mem_cons_of_mem _ hr')
  have hact' : w'.db.application.activeReleaseId = w.db.application.activeReleaseId := hact
  refine ⟨⟨hnodup, hahead, by simp, by simp⟩, hnodup, hahead, ?_, ?_⟩
  · intro r' hr'
    rw [mem_singleton.1 hr', hact']
    exact hr
  · intro r' hr'
    rw [mem_singleton.1 hr']
    exact hnot

theorem Asked.prunes {slug ref : String} {reply : Event} {w w' : World}
    (h : Asked agent (.cleanupImage r) (.cleanupImage slug ref) reply w w')
    (hreply : ∀ db routed, Prunes agent ⟨reply, db, routed⟩) : Pruning agent w w' := by
  refine ⟨by rw [h.went.core]; exact Pruned.refl _, h.went.news.mono ?_, h.went.still⟩
  rintro ⟨e, db, routed⟩ (hb | he | he)
  · exact .background hb
  · cases he
    exact .cleanup
  · cases he
    exact hreply db routed

/-- The rest of the loop from `v`, whose rows are still those of `u`. -/
theorem prune_next {u v : World} (hwv : Pruning agent w v)
    (hcore : v.core = u.core) (h : Prunable rs pending u)
    (ih : ∀ pending w, Prunable rs pending w →
      Ends (pruneLoop o d agent c rs pending w) (fun _ => Pruning agent w) (fun _ _ => False)) :
    Ends (pruneLoop o d agent c rs pending v) (fun _ => Pruning agent w) (fun _ _ => False) := by
  have hv : Prunable rs pending v := by
    have hrel : v.db.releases = u.db.releases := congrArg Core.releases hcore
    have hact : v.db.application.activeReleaseId = u.db.application.activeReleaseId :=
      congrArg Core.active hcore
    exact ⟨h.nodup, by rw [hrel]; exact h.ahead, by rw [hact]; exact h.active, h.apart⟩
  exact (ih pending v hv).mono (fun _ w' h' => hwv.trans h') (fun _ _ h => h)

/-- The release is kept, with a warning. -/
theorem prune_kept {rs : List ReleaseId} {u v : World} (hwv : Pruning agent w v)
    (hcore : v.core = u.core) (h : Prunable rs [] u) (message : String)
    (ih : ∀ pending w, Prunable rs pending w →
      Ends (pruneLoop o d agent c rs pending w) (fun _ => Pruning agent w) (fun _ _ => False)) :
    Ends ((do log d .warning message; pruneLoop o d agent c rs [] : M Unit) v)
      (fun _ => Pruning agent w) (fun _ _ => False) := by
  refine Ends.bind (log_spec d .warning message v) (fun _ v' hv' => ?_) (fun _ _ h => h)
  exact prune_next (hwv.trans hv'.pruning) (hv'.core.trans hcore) h ih

/-- The release is deleted with the next commit. -/
theorem Prunable.snoc (h : Prunable (r :: rs) pending w)
    (hact : w.db.application.activeReleaseId ≠ some r) : Prunable rs (pending ++ [r]) w := by
  obtain ⟨hnot, hnodup⟩ := nodup_cons.1 h.nodup
  refine ⟨hnodup, h.tail.ahead, fun r' hr' => ?_, fun r' hr' => ?_⟩
  · rcases mem_append.1 hr' with hr' | hr'
    · exact h.active r' hr'
    · rw [mem_singleton.1 hr']
      exact hact
  · rcases mem_append.1 hr' with hr' | hr'
    · exact h.tail.apart r' hr'
    · rw [mem_singleton.1 hr']
      exact hnot

theorem pruneLoop_spec (rs : List ReleaseId) :
    ∀ (pending : List ReleaseId) (w : World), Prunable rs pending w →
      Ends (pruneLoop o d agent c rs pending w) (fun _ => Pruning agent w) (fun _ _ => False) := by
  induction rs with
  | nil =>
    intro pending w h
    have hflush := (flush_spec agent pending w h.active).1
    exact hflush.trans (calm_commit _).pruning
  | cons r rs ih =>
    intro pending w h
    obtain ⟨rel, hrel⟩ := h.ahead r mem_cons_self
    simp only [pruneLoop, ends_bind, ends_getDb, ends_ite, ends_getRelease hrel]
    refine ⟨fun _ => ih pending w h.tail, fun hact => ⟨fun _ => ?_, fun _ => ?_⟩⟩
    · -- both branches on the image write out the pending deletes first
      obtain ⟨hflush, hrows⟩ := flush_spec agent pending w h.active
      set u := w.setDb (pending.foldl Db.deleteRelease w.db) with hu
      have hrs : ∀ r' ∈ rs, u.db.releases.row r' = w.db.releases.row r' := fun r' hr' =>
        hrows r' fun hp => h.apart r' hp (mem_cons_of_mem _ hr')
      obtain ⟨hnone, hself⟩ := h.flushed hrs hflush.core.active hact
      simp only [flushDeletes, ends_modifyDb, ← hu]
      refine ⟨fun _ => ?_, fun _ => ?_⟩
      · exact (ends_bind _).1 (prune_kept hflush rfl hnone _ ih)
      · rw [ends_attempt]
        refine (submit_spec o agent (.cleanupImage r) _ u).mono ?_ ?_
        · intro row v hv
          obtain ⟨-, hasked⟩ := hv
          have hwv := hflush.trans (hasked.prunes fun _ _ => .answered)
          rw [ends_ite]
          exact ⟨fun _ => prune_next hwv hasked.went.core hself ih,
            fun _ => prune_kept hwv hasked.went.core hnone _ ih⟩
        · intro e v hv
          obtain ⟨error, -, -, hasked⟩ := hv
          exact prune_kept (hflush.trans (hasked.prunes fun _ _ => .sendFailed)) hasked.went.core hnone _ ih
    · exact ih (pending ++ [r]) w (h.snoc hact)

theorem prune_spec (w : World) :
    Ends (pruneOldReleases o d agent c w) (fun _ => Pruning agent w) (fun _ _ => False) := by
  simp only [pruneOldReleases, ends_bind, ends_getDb]
  refine pruneLoop_spec _ [] w ⟨?_, ?_, by simp, by simp⟩
  · exact ((perm_insertionSort _ _).nodup_iff.2 (Table.select_nodup _ _)).sublist
      (drop_sublist _ _)
  · intro r hr
    have hmem : r ∈ w.db.readyReleases :=
      (perm_insertionSort _ _).mem_iff.1 ((drop_sublist _ _).subset hr)
    obtain ⟨rel, hrel, -⟩ := Table.mem_select.1 hmem
    exact ⟨rel, hrel⟩

end Prune

end Healer
