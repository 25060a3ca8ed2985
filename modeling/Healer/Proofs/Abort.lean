import Healer.Proofs.Cutover

/-! How a release switch ends. It reaches a terminal deployment exactly when no stop of
its abort path fails and no send raises: `_stop_instances` asks for RUNNING → FAILED
after a failed stop, which the transition table does not have. -/

namespace Healer

open List Sample

open Prog (Ends)

def AllFine (w : World) : Prop := ∀ e ∈ w.trace, Fine e

section Fine

variable {o : Oracle} {d : DeploymentId} {agent : ServerId} {is : List InstanceId} {w a b : World}
  {e : Entry} {ok : Bool}

theorem AllFine.emit {event : Event} (h : AllFine w) (hallowed : event.allowed = true)
    (hfatal : event.fatal = false) : AllFine (w.emit event) := by
  intro e he
  rw [emit_trace, mem_append, mem_singleton] at he
  rcases he with he | rfl
  · exact h e he
  · exact ⟨hallowed, hfatal⟩

theorem Syncs.fine (h : Syncs ok e) : Fine e := by
  obtain ⟨event, db, routed⟩ := e
  rcases h with h | ⟨payload, h⟩ | h
  · exact fine_background h
  · cases h
    exact ⟨rfl, rfl⟩
  · cases h
    exact ⟨rfl, rfl⟩

/-- Out of DRAINING a stop may end either way. -/
theorem Halts.drain_fine (h : Halts o agent .stopInstance .draining is w true e) : Fine e := by
  cases h with
  | background h => exact fine_background h
  | sendFailed hi hok => cases hok
  | moved hi hcan => exact ⟨hcan rfl, rfl⟩
  | _ => exact ⟨rfl, rfl⟩

theorem Prunes.fine (h : Prunes agent e) : Fine e := by
  cases h with
  | background h => exact fine_background h
  | _ => exact ⟨rfl, rfl⟩

theorem Finishes.fine (h : Finishes o d agent is w e) : Fine e := by
  rcases h with (⟨i, -, h⟩ | h) | h | h
  · exact h.fine rfl
  · exact h.drain_fine
  · exact h.fine
  · exact h.fine rfl

end Fine

section Switch

variable {o : Oracle} {d : DeploymentId} {dep : Deployment} {w : World}

end Switch

/-- Where an instance whose start succeeded is marked STOPPED or FAILED, its stop has been
submitted before. -/
def StopBeforeTerminal (pre : List Entry) (e : Entry) : Prop :=
  ∀ i current target, e.event = .instanceTransition i current target → target.terminal = true →
    (∃ row, Event.answered (.startInstance i) row ∈ pre.map Entry.event ∧ row.ok = true) →
    ∃ agent key payload, Event.submitted agent key (.stopInstance i payload) ∈ pre.map Entry.event

/-- Every instance whose start succeeded is stopped, and before it is marked terminal. -/
structure AbortStops (w : World) : Prop where
  submitted : ∀ i row, Event.answered (.startInstance i) row ∈ w.events → row.ok = true →
    ∃ agent key payload, Event.submitted agent key (.stopInstance i payload) ∈ w.events
  ordered : Trace.Always StopBeforeTerminal w.trace

/-- The loop of the gate so far: all that started is in the list, nothing has been
stopped, and no health gate has failed. -/
structure Unaborted (started : List InstanceId) (w : World) : Prop where
  answered : ∀ i row, Event.answered (.startInstance i) row ∈ w.events → row.ok = true → i ∈ started
  unstopped : ∀ agent key i payload, Event.submitted agent key (.stopInstance i payload) ∉ w.events
  passing : ∀ i, Event.healthGate i false ∉ w.events
  ordered : Trace.Always StopBeforeTerminal w.trace

section Abort

variable {o : Oracle} {L : Site} {d : DeploymentId} {agent : ServerId} {c : HealerYaml}
  {started : List InstanceId} {w w' : World} {i : InstanceId} {inst : Instance} {healthy : Bool}

/-- Entries that mark no instance terminal keep the order. -/
theorem News.ordered {P : Entry → Prop} (h : News P w w')
    (hP : ∀ e, P e → ∀ i current target, e.event = .instanceTransition i current target →
      target.terminal = false)
    (hw : Trace.Always StopBeforeTerminal w.trace) : Trace.Always StopBeforeTerminal w'.trace := by
  refine h.always (fun es e _ he i current target hev hterm => ?_) hw
  rw [hP e he i current target hev] at hterm
  cases hterm

theorem background_ne {x : Entry} (h : x.background) {e : Event} (he : ¬ e.background) : x.event ≠ e := by
  rintro rfl
  exact he h

theorem background_not_moved {e : Entry} (h : e.background) (i : InstanceId)
    (current target : InstanceStatus) : e.event ≠ .instanceTransition i current target :=
  background_ne h id

variable {current target : InstanceStatus} {k : Core}

/-- A status write adds itself and what runs beside it. -/
theorem mem_before_move {e : Event}
    (hmove : Went (Moves i current target) k w w') (he : ¬ e.background)
    (hne : e ≠ .instanceTransition i current target) (hmem : e ∈ w'.events) : e ∈ w.events := by
  rcases hmove.news.cases hmem with hmem | ⟨x, hx | hx, hev⟩
  · exact hmem
  · exact (background_ne hx he hev).elim
  · exact (hne (hev.symm.trans hx)).elim

theorem Launches.nonterminal {e : Entry} (h : Launches o L i healthy e) (j : InstanceId)
    (current target : InstanceStatus) (he : e.event = .instanceTransition j current target) :
    target.terminal = false := by
  cases h with
  | background h => exact (background_not_moved h _ _ _ he).elim
  | starting => cases he; rfl
  | _ => cases he

/-- A replica has been launched; its own start is the only new answer. -/
theorem Unaborted.launched (h : Unaborted started w) (hl : Launched o L i inst healthy w w') :
    (∀ j row, Event.answered (.startInstance j) row ∈ w'.events → row.ok = true →
      j ∈ started ∨ j = i ∧ o.reply (.startInstance i) = .row row) ∧
    (∀ agent key j payload, Event.submitted agent key (.stopInstance j payload) ∉ w'.events) ∧
    (healthy = true → ∀ j, Event.healthGate j false ∉ w'.events) ∧
    Trace.Always StopBeforeTerminal w'.trace := by
  refine ⟨fun j row hmem hok => ?_, fun agent key j payload hmem => ?_, fun hh j hmem => ?_,
    hl.went.news.ordered (fun e he => he.nonterminal) h.ordered⟩
  · rcases hl.went.news.cases hmem with hmem | ⟨x, hx, hev⟩
    · exact .inl (h.answered j row hmem hok)
    · cases hx with
      | background hb => exact (background_ne hb id hev).elim
      | answered hreply => cases hev; exact .inr ⟨rfl, hreply⟩
      | _ => cases hev
  · rcases hl.went.news.cases hmem with hmem | ⟨x, hx, hev⟩
    · exact h.unstopped agent key j payload hmem
    · cases hx with
      | background hb => exact (background_ne hb id hev).elim
      | _ => cases hev
  · rcases hl.went.news.cases hmem with hmem | ⟨x, hx, hev⟩
    · exact h.passing j hmem
    · rw [hh] at hx
      exact hx.passing j hev

/-- A status write adds no command and no verdict. -/
theorem unaborted_moved {started' : List InstanceId}
    (hanswered : ∀ j row, Event.answered (.startInstance j) row ∈ w.events → row.ok = true →
      j ∈ started')
    (hunstopped : ∀ agent key j payload,
      Event.submitted agent key (.stopInstance j payload) ∉ w.events)
    (hpassing : ∀ j, Event.healthGate j false ∉ w.events)
    (hordered : Trace.Always StopBeforeTerminal w.trace)
    (hmove : Went (Moves i current target) k w w') (hterm : target.terminal = true → i ∉ started') :
    Unaborted started' w' := by
  refine ⟨fun j row hmem hok => ?_, fun agent key j payload hmem => ?_, fun j hmem => ?_, ?_⟩
  · exact hanswered j row (mem_before_move hmove id (by simp) hmem) hok
  · exact hunstopped agent key j payload (mem_before_move hmove id (by simp) hmem)
  · exact hpassing j (mem_before_move hmove id (by simp) hmem)
  · refine hmove.news.always (fun es e hes he j cur tgt hev ht hstart => ?_) hordered
    rcases he with he | he
    · exact (background_not_moved he _ _ _ hev).elim
    · -- the instance that is marked terminal did not start
      cases he.symm.trans hev
      obtain ⟨row, hmem, hok⟩ := hstart
      rw [map_append, mem_append] at hmem
      rcases hmem with hmem | hmem
      · exact (hterm ht (hanswered i row hmem hok)).elim
      · obtain ⟨x, hx, hev'⟩ := mem_map.1 hmem
        rcases hes x hx with hb | hm
        · exact (background_ne hb id hev').elim
        · cases hm.symm.trans hev'

/-- The stop loop submits every stop before it marks the instance. -/
theorem stop_ordered {is : List InstanceId} (hnodup : is.Nodup)
    (hrows : ∀ i ∈ is, ∃ inst, w.db.instances.row i = some inst ∧ inst.status = .running)
    (hordered : Trace.Always StopBeforeTerminal w.trace) :
    Ends (stopInstances o d agent c is w)
      (fun _ w' => Halting o agent .abortStopInstance .running is w [] w' ∧
        Trace.Always StopBeforeTerminal w'.trace ∧
        ∀ i ∈ is, ∃ payload, Event.submitted agent (.abortStopInstance i) (.stopInstance i payload) ∈
          w'.events)
      (fun _ _ => True) := by
  refine (Prog.ends_each (I := fun rem w' => Halting o agent .abortStopInstance .running is w rem w' ∧
      Trace.Always StopBeforeTerminal w'.trace ∧ ∀ i ∈ is, i ∉ rem → ∃ payload,
        Event.submitted agent (.abortStopInstance i) (.stopInstance i payload) ∈ w'.events)
    (fun i rem s h => ?_) is w
    ⟨⟨Halted.refl, sweep_start _ hnodup hrows⟩, hordered, fun i hi hn => (hn hi).elim⟩).mono
    (fun _ w' h => ⟨h.1, h.2.1, fun i hi => h.2.2 i hi (by simp)⟩) (fun _ _ h => h)
  obtain ⟨hhalting, hord, hsub⟩ := h
  obtain ⟨inst, hrow, -⟩ := hhalting.sweep.left i mem_cons_self
  refine Ends.bind ((halting_step hhalting).and (stopAndSettle_spec o d agent _ c hrow)) ?_
    (fun _ _ _ => trivial)
  intro b s' h'
  obtain ⟨⟨hhalting', -⟩, u, row, ⟨-, hasked⟩, -, -, hmove⟩ := h'
  have hordu : Trace.Always StopBeforeTerminal u.trace := by
    refine hasked.went.news.ordered (fun e he j cur tgt hev => ?_) hord
    rcases he with he | he | he
    · exact (background_not_moved he _ _ _ hev).elim
    · rw [he] at hev; cases hev
    · rw [he] at hev; cases hev
  refine ⟨hhalting', ?_, fun j hj hrem => ?_⟩
  · refine hmove.news.always (fun es e _ he j cur tgt hev _ _ => ?_) hordu
    rcases he with he | he
    · exact (background_not_moved he _ _ _ hev).elim
    · cases he.symm.trans hev
      refine ⟨agent, .abortStopInstance i, buildStopInstancePayload inst c, ?_⟩
      rw [map_append]
      exact mem_append_left _ hasked.submitted
  · by_cases hji : j = i
    · subst hji
      exact ⟨_, hmove.news.mem hasked.submitted⟩
    · obtain ⟨payload, hmem⟩ := hsub j hj (by simp [hji, hrem])
      exact ⟨payload, hmove.news.mem (hasked.went.news.mem hmem)⟩

/-- How the gate gives up: with everything stopped, or over a failed health gate whose own
instance is never stopped. -/
inductive GaveUp (w : World) : Prop
  | stopped (passing : ∀ i, Event.healthGate i false ∉ w.events) (stops : AbortStops w)
  | unhealthy (i : InstanceId) (row : AgentCommand) (failed : Event.healthGate i false ∈ w.events)
      (answered : Event.answered (.startInstance i) row ∈ w.events) (ok : row.ok = true)
      (unstopped : ∀ agent key payload,
        Event.submitted agent key (.stopInstance i payload) ∉ w.events)

/-- Events of a stop loop that are not the loop's own were there before. -/
theorem Halted.mem_before {is : List InstanceId} {key : InstanceId → CommandKey} {st : InstanceStatus}
    {ok : Bool} (h : Halted o agent key st is ok w w') {e : Event}
    (he : ∀ x, Halts o agent key st is w ok x → x.event ≠ e) (hmem : e ∈ w'.events) :
    e ∈ w.events := by
  rcases h.news.cases hmem with hmem | ⟨x, hx, hev⟩
  · exact hmem
  · exact (he x hx hev).elim

/-- The abort of a gate in which only the listed instances started. -/
theorem Unaborted.abort (h : Unaborted started w) (hnodup : started.Nodup)
    (hrows : ∀ i ∈ started, ∃ inst, w.db.instances.row i = some inst ∧ inst.status = .running) :
    Ends (stopInstances o d agent c started w) (fun _ => GaveUp) (fun _ _ => True) := by
  refine (stop_ordered hnodup hrows h.ordered).mono (fun _ w' h' => ?_) (fun _ _ h => h)
  obtain ⟨hhalting, hordered, hsub⟩ := h'
  refine .stopped (fun i hmem => h.passing i (hhalting.halted.mem_before ?_ hmem))
    ⟨fun i row hmem hok => ?_, hordered⟩
  · intro x hx hev
    cases hx with
    | background hb => exact background_ne hb id hev
    | _ => cases hev
  · have hbefore : Event.answered (.startInstance i) row ∈ w.events := by
      refine hhalting.halted.mem_before (fun x hx hev => ?_) hmem
      cases hx with
      | background hb => exact (background_ne hb id hev).elim
      | _ => cases hev
    obtain ⟨payload, hstop⟩ := hsub i (h.answered i row hbefore hok)
    exact ⟨agent, _, payload, hstop⟩

/-- The abort over a failed health gate leaves its instance alone. -/
theorem unhealthy_abort {row : AgentCommand} (hi : i ∉ started)
    (hfailed : Event.healthGate i false ∈ w.events)
    (hanswered : Event.answered (.startInstance i) row ∈ w.events) (hok : row.ok = true)
    (hunstopped : ∀ agent key payload,
      Event.submitted agent key (.stopInstance i payload) ∉ w.events)
    (hnodup : started.Nodup)
    (hrows : ∀ i ∈ started, ∃ inst, w.db.instances.row i = some inst ∧ inst.status = .running) :
    Ends (stopInstances o d agent c started w) (fun _ => GaveUp) (fun _ _ => True) := by
  refine (halt_each hnodup hrows).mono (fun _ w' h => ?_) (fun _ _ _ => trivial)
  have hnews := h.halted.news
  refine .unhealthy i row (hnews.mem hfailed) (hnews.mem hanswered) hok fun agent' key payload hmem => ?_
  refine hunstopped agent' key payload (h.halted.mem_before (fun x hx hev => ?_) hmem)
  cases hx with
  | background hb => exact background_ne hb id hev
  | stop hj hr => cases hev; exact hi hj
  | _ => cases hev

theorem Unaborted.calm (h : Unaborted started w) (h' : Calm w w') : Unaborted started w' := by
  have hmove : Went (Moves 0 .pending .pending) w.core w w' := h'.mono fun _ => .inl
  exact unaborted_moved h.answered h.unstopped h.passing h.ordered hmove fun ht => by cases ht

/-- A replica whose start was answered without success adds nothing to stop. -/
theorem Unaborted.failed {row : AgentCommand} {current : InstanceStatus} {w₂ : World}
    (h : Unaborted started w) (hl : Launched o L i inst true w w')
    (hreply : o.reply (.startInstance i) = .row row) (hbad : row.ok = false)
    (hmove : Went (Moves i current .failed) k w' w₂) (hi : i ∉ started) : Unaborted started w₂ := by
  obtain ⟨hans, hunst, hpass, hord⟩ := h.launched hl
  refine unaborted_moved (fun j row' hmem hok => ?_) hunst (hpass rfl) hord hmove fun _ => hi
  rcases hans j row' hmem hok with hj | ⟨-, hreply'⟩
  · exact hj
  · rw [hreply] at hreply'
    cases hreply'
    rw [hbad] at hok
    cases hok

/-- A healthy replica joins the list. -/
theorem Unaborted.snoc {current : InstanceStatus} {w₂ : World} (h : Unaborted started w)
    (hl : Launched o L i inst true w w') (hmove : Went (Moves i current .running) k w' w₂) :
    Unaborted (started ++ [i]) w₂ := by
  obtain ⟨hans, hunst, hpass, hord⟩ := h.launched hl
  refine unaborted_moved (fun j row hmem hok => ?_) hunst (hpass rfl) hord hmove fun ht => by cases ht
  rcases hans j row hmem hok with hj | ⟨rfl, -⟩
  · exact mem_append_left _ hj
  · simp

/-- However the loop gives up. -/
theorem gateLoop_gaveUp {w₀ : World} {rel : Release} (hrel : w₀.db.releases.row L.release = some rel)
    (n : ℕ) : ∀ (started : List InstanceId) (w : World), Gating L w₀ started w → Unaborted started w →
      Ends (gateLoop o L n started w) (fun r w' => r = none → GaveUp w') (fun _ _ => True) := by
  induction n with
  | zero => intro started w _ _ hnone; cases hnone
  | succ n ih =>
    intro started w hg h
    refine Ends.bind (launch_spec o L (hg.aside.release.trans hrel)) (fun r w1 h1 => ?_)
      (fun _ _ _ => trivial)
    have hcan : ∀ {inst healthy target}, Launched o L w.db.instances.next inst healthy w w1 →
        canTransition instanceTransitions .starting target = true →
        canTransition instanceTransitions inst.status target = true := by
      intro inst healthy target hl htarget
      rw [hl.starting]
      exact htarget
    cases r with
    | noPort =>
      refine Ends.bind ((h.calm h1).abort hg.nodup fun j hj => ?_) (fun _ _ hgave _ => hgave)
        (fun _ _ h => h)
      have hrow := congrArg (fun k => k.instances.row j) h1.core
      exact (hg.up j hj).running.imp fun inst hinst => ⟨hrow.trans hinst.1, hinst.2⟩
    | startFailed i =>
      obtain ⟨inst, row, hl, hreply, hbad⟩ := h1
      obtain rfl := hl.fresh
      refine Ends.bind (settle_spec hl.row_self (hcan hl rfl)) (fun _ w2 h2 => ?_) (fun _ _ h => h.elim)
      have hfailed := h.failed hl hreply hbad h2.1 (hg.not_mem hl)
      refine Ends.bind (hfailed.abort hg.nodup fun j hj => ?_) (fun _ _ hgave _ => hgave) (fun _ _ h => h)
      rw [hg.row_after hl h2.1 hj]
      exact (hg.up j hj).running
    | unhealthy i =>
      obtain ⟨inst, row, hl, hreply, hok, hanswered, hfailed⟩ := h1
      obtain rfl := hl.fresh
      refine Ends.bind (settle_spec hl.row_self (hcan hl rfl)) (fun _ w2 h2 => ?_) (fun _ _ h => h.elim)
      obtain ⟨hmove, -⟩ := h2
      obtain ⟨-, hunst, -, -⟩ := h.launched hl
      refine Ends.bind (unhealthy_abort (hg.not_mem hl) (hmove.news.mem hfailed)
        (hmove.news.mem hanswered) hok (fun agent key payload hmem => ?_) hg.nodup fun j hj => ?_)
        (fun _ _ hgave _ => hgave) (fun _ _ h => h)
      · exact hunst agent key _ payload (mem_before_move hmove id (by simp) hmem)
      · rw [hg.row_after hl hmove hj]
        exact (hg.up j hj).running
    | healthy i =>
      obtain ⟨inst, row, hl, hreply, hok, hanswered, hgate⟩ := h1
      obtain rfl := hl.fresh
      refine Ends.bind ((hg.snoc hl hreply hok hanswered hgate).and
        (settle_spec hl.row_self (hcan hl rfl))) (fun _ w2 h2 => ?_) (fun _ _ h => h.1.elim)
      obtain ⟨hg2, hmove, -⟩ := h2
      exact ih _ w2 hg2 (h.snoc hl hmove)

end Abort

/-- When the gate gives up, everything it started has been stopped if and only if it did
not give up over a failed health gate. -/
theorem aborted_gate_stops_iff (o : Oracle) (w : World) (d : DeploymentId) (dep : Deployment)
    (c : HealerYaml) (s : ServerId) (portStart portEnd : ℕ)
    (hrel : (w.db.releases.row dep.releaseId).isSome) (htrace : w.trace = [])
    (hnone : (startAndHealthGate o d dep c s portStart portEnd w).1 = .ok none) :
    AbortStops (startAndHealthGate o d dep c s portStart portEnd w).2 ↔
      ∀ i, Event.healthGate i false ∉ (startAndHealthGate o d dep c s portStart portEnd w).2.events := by
  obtain ⟨rel, hrel⟩ := Option.isSome_iff_exists.1 hrel
  have hstart : Unaborted [] w := by
    refine ⟨?_, ?_, ?_, ?_⟩
    · simp [World.events, htrace]
    · simp [World.events, htrace]
    · simp [World.events, htrace]
    · rw [htrace]
      exact Trace.always_nil _
  have hends : Ends (startAndHealthGate o d dep c s portStart portEnd w)
      (fun r w' => r = none → GaveUp w') (fun _ _ => True) := by
    simp only [startAndHealthGate, Prog.ends_bind, ends_getDb]
    exact gateLoop_gaveUp hrel dep.instanceCount [] w (gating_start _ w) hstart
  rcases hr : startAndHealthGate o d dep c s portStart portEnd w with ⟨r, w'⟩
  rw [hr] at hnone
  cases hnone
  cases hends.ok hr rfl with
  | stopped passing stops => exact ⟨fun _ => passing, fun _ => stops⟩
  | unhealthy i row failed answered ok unstopped =>
    refine ⟨fun h => ?_, fun h => (h i failed).elim⟩
    obtain ⟨agent, key, payload, hmem⟩ := h.submitted i row answered ok
    exact (unstopped agent key payload hmem).elim

/-- The first replica of the sample is up when the second does not start; it is stopped. -/
theorem aborted_gate_stops_sample :
    AbortStops (startAndHealthGate Sample.secondStartFails 0 (Sample.deployment 2) (Sample.config none)
      0 8000 8009 (Sample.world none [instanceOf 0 8000 .running] 2)).2 := by
  refine (aborted_gate_stops_iff Sample.secondStartFails
    (Sample.world none [instanceOf 0 8000 .running] 2) 0 (Sample.deployment 2)
    (Sample.config none) 0 8000 8009 rfl rfl (by decide +kernel)).2 ?_
  have hpassed : ((startAndHealthGate Sample.secondStartFails 0 (Sample.deployment 2)
      (Sample.config none) 0 8000 8009
      (Sample.world none [instanceOf 0 8000 .running] 2)).2.events.any Sample.gateFailed) =
        false := by
    decide +kernel
  intro i hmem
  exact any_eq_false.1 hpassed _ hmem rfl

/-- The only replica of the sample starts and never becomes healthy: it is marked FAILED
and no stop is ever submitted. -/
theorem unhealthy_replica_not_stopped :
    (startAndHealthGate neverHealthy 0 (Sample.deployment 1) (Sample.config none) 0 8000 8009
      (Sample.world none [] 1)).1 = .ok none ∧
    ((startAndHealthGate neverHealthy 0 (Sample.deployment 1) (Sample.config none) 0 8000 8009
      (Sample.world none [] 1)).2.db.instances.row 0).map Instance.status = some .failed ∧
    ¬ AbortStops (startAndHealthGate neverHealthy 0 (Sample.deployment 1) (Sample.config none)
      0 8000 8009 (Sample.world none [] 1)).2 := by
  refine ⟨by decide +kernel, by decide +kernel, fun h => ?_⟩
  set w := (startAndHealthGate neverHealthy 0 (Sample.deployment 1) (Sample.config none)
    0 8000 8009 (Sample.world none [] 1)).2 with hw
  have hstarted : w.events.any (Sample.started 0) = true := by
    rw [hw]
    decide +kernel
  have hunstopped : w.events.any (Sample.stops 0) = false := by
    rw [hw]
    decide +kernel
  obtain ⟨e, hmem, he⟩ := any_eq_true.1 hstarted
  unfold Sample.started at he
  split at he
  · rename_i i row
    obtain ⟨hi, hok⟩ := Bool.and_eq_true_iff.1 he
    obtain ⟨agent, key, payload, hstop⟩ := h.submitted i row hmem hok
    exact any_eq_false.1 hunstopped _ hstop hi
  · cases he

end Healer
