import Healer.Sanity.Halt

/-! `_start_and_health_gate`: what the loop has done when it returns the new
instances, when it gives up, and when it raises. Whatever happens, the rows that were
there before are untouched. -/

namespace Healer

open List

open Prog (Ends)

/-- The rows of `t₀` are untouched in `t`, and every other row was made by the deployment
`d` for the release `r`. -/
structure Grown (d : DeploymentId) (r : ReleaseId) (t₀ t : Table Instance) : Prop where
  le : t₀.next ≤ t.next
  old : ∀ i, i < t₀.next → t.row i = t₀.row i
  new : ∀ i inst, t₀.next ≤ i → t.row i = some inst →
    inst.deploymentId = some d ∧ inst.releaseId = some r

section Grown

variable {d : DeploymentId} {r : ReleaseId} {t₀ t : Table Instance}

theorem Grown.refl (d : DeploymentId) (r : ReleaseId) (t : Table Instance) : Grown d r t t := by
  refine ⟨le_rfl, fun _ _ => rfl, fun i inst hi hrow => ?_⟩
  rw [t.row_none i hi] at hrow
  cases hrow

theorem Grown.insert {inst : Instance} (h : Grown d r t₀ t)
    (hinst : inst.deploymentId = some d ∧ inst.releaseId = some r) : Grown d r t₀ (t.insert inst) := by
  refine ⟨h.le.trans (Nat.le_succ _), fun i hi => ?_, fun i inst' hi hrow => ?_⟩
  · rw [Table.insert_row_of_ne _ _ (by have := h.le; omega), h.old i hi]
  · by_cases hn : i = t.next
    · subst hn
      rw [Table.insert_row_self] at hrow
      cases hrow
      exact hinst
    · rw [Table.insert_row_of_ne _ _ hn] at hrow
      exact h.new i inst' hi hrow

theorem Grown.touched {k k' : Core} {S : InstanceId → Prop} (h : Grown d r t₀ k.instances)
    (h' : Touched S k k') (hS : ∀ i, S i → t₀.next ≤ i) : Grown d r t₀ k'.instances := by
  refine ⟨by rw [h'.next]; exact h.le, fun i hi => ?_, fun i inst' hi hrow => ?_⟩
  · rw [h'.other i fun hs => by have := hS i hs; omega, h.old i hi]
  · obtain ⟨inst, hinst, heq⟩ := h'.row i inst' hrow
    rw [heq]
    exact h.new i inst hi hinst

end Grown

/-- Everything since `w₀` happened beside the rows that were there. -/
structure Aside (L : Site) (P : Entry → Prop) (w₀ w : World) : Prop where
  grown : Grown L.deployment L.release w₀.core.instances w.core.instances
  rest : w.core = { w₀.core with instances := w.core.instances }
  news : News P w₀ w
  still : Still w₀ w

section Aside

variable {o : Oracle} {L : Site} {P Q : Entry → Prop} {w₀ w w' : World} {i : InstanceId}
  {inst : Instance} {healthy : Bool}

theorem Aside.refl (L : Site) (P : Entry → Prop) (w : World) : Aside L P w w :=
  ⟨Grown.refl _ _ _, rfl, News.refl P w, Still.refl w⟩

theorem Aside.mono (h : Aside L P w₀ w) (hPQ : ∀ e, P e → Q e) : Aside L Q w₀ w :=
  ⟨h.grown, h.rest, h.news.mono hPQ, h.still⟩

theorem Aside.touched {S : InstanceId → Prop} (h : Aside L P w₀ w) (hcore : Touched S w.core w'.core)
    (hS : ∀ i, S i → w₀.db.instances.next ≤ i) (hnews : News P w w') (hstill : Still w w') :
    Aside L P w₀ w' :=
  ⟨h.grown.touched hcore hS, by rw [hcore.rest, h.rest], h.news.trans hnews, h.still.trans hstill⟩

theorem Aside.calm (h : Aside L P w₀ w) (h' : Calm w w') (hP : ∀ e, e.background → P e) :
    Aside L P w₀ w' :=
  h.touched (S := fun _ => False) (by rw [h'.core]; exact Touched.refl _ _) (fun _ hf => hf.elim)
    (h'.news.mono hP) h'.still

theorem Aside.emit {e : Event} (h : Aside L P w₀ w) (hP : P ⟨e, w.db, w.gateway.routed⟩) :
    Aside L P w₀ (w.emit e) :=
  ⟨h.grown, h.rest, h.news.trans (news_emit hP), h.still.trans fun _ => rfl⟩

theorem Aside.launched (h : Aside L P w₀ w) (h' : Launched o L i inst healthy w w')
    (hP : ∀ e, Launches o L i healthy e → P e) : Aside L P w₀ w' := by
  obtain ⟨a, port, t, hinst⟩ := h'.row
  refine ⟨?_, ?_, h.news.trans (h'.went.news.mono hP), h.still.trans h'.went.still⟩
  · rw [h'.went.core]
    exact h.grown.insert (by rw [hinst]; exact ⟨rfl, rfl⟩)
  · rw [h'.went.core, h.rest]
    rfl

variable {current target : InstanceStatus}

theorem Aside.moved (h : Aside L P w₀ w)
    (hi : w₀.db.instances.next ≤ i)
    (h' : Went (Moves i current target) (w.core.setStatus i target) w w')
    (hP : ∀ e, Moves i current target e → P e) : Aside L P w₀ w' := by
  refine h.touched (S := fun j => j = i) ?_ (fun j hj => hj ▸ hi) (h'.news.mono hP) h'.still
  rw [h'.core]
  exact touched_setStatus (S := fun j => j = i) rfl _

theorem Aside.halted {agent : ServerId} {key : InstanceId → CommandKey} {st : InstanceStatus}
    {is : List InstanceId} {ok : Bool} (h : Aside L P w₀ w) (h' : Halted o agent key st is ok w w')
    (his : ∀ i ∈ is, w₀.db.instances.next ≤ i) (hP : ∀ e, Halts o agent key st is w ok e → P e) :
    Aside L P w₀ w' :=
  h.touched h'.touched his (h'.news.mono hP) h'.still

theorem Aside.release {r : ReleaseId} (h : Aside L P w₀ w) :
    w.db.releases.row r = w₀.db.releases.row r :=
  congrArg (fun k => k.releases.row r) h.rest

end Aside

/-! ## Entries of a gate -/

/-- The entry is neither a write of `active_release_id` nor part of a sync. -/
structure Silent (e : Entry) : Prop where
  plain : ∀ r, e.event ≠ .setActive r
  sync : ∀ payload, e.event ≠ .sync payload
  synced : ∀ ok, e.event ≠ .synced ok

/-- An entry that neither switches nor syncs, and stops nothing that was there in `w₀`. -/
structure Tame (w₀ : World) (e : Entry) : Prop where
  silent : Silent e
  stop : ∀ agent key i payload, e.event = .submitted agent key (.stopInstance i payload) →
    w₀.db.instances.next ≤ i ∧ (w₀.gateway.inFlight = [] → e.routed = w₀.gateway.routed)

/-- What makes a release switch raise: a stop of the abort path that does not succeed, a
probe that raises, a row that the database refuses, and a send that raises where no
`except` catches it. -/
def Event.fatal : Event → Bool
  | .answered (.abortStopInstance _) row => !row.ok
  | .sendFailed (.cleanupImage _) => false
  | .sendFailed _ | .probeRaised _ | .flushFailed => true
  | _ => false

structure Fine (e : Entry) : Prop where
  allowed : e.event.allowed = true
  fatal : e.event.fatal = false

/-- The health gate, where there is one, was passed. -/
def Passing (e : Entry) : Prop := ∀ i, e.event ≠ .healthGate i false

variable {current target : InstanceStatus}

section Entries

variable {o : Oracle} {L : Site} {w₀ w : World} {i : InstanceId} {e : Entry} {healthy ok : Bool} {row : AgentCommand}

theorem silent_background (h : e.background) : Silent e := by
  obtain ⟨event, db, routed⟩ := e
  cases event <;> first | exact False.elim h | exact ⟨by simp, by simp, by simp⟩

theorem tame_background (h : e.background) : Tame w₀ e := by
  have hsilent := silent_background h
  obtain ⟨event, db, routed⟩ := e
  cases event <;> first | exact False.elim h | exact ⟨hsilent, by simp⟩

theorem fine_background (h : e.background) : Fine e := by
  obtain ⟨event, db, routed⟩ := e
  cases event <;> first | exact False.elim h | exact ⟨rfl, rfl⟩

theorem passing_background (h : e.background) : Passing e := by
  obtain ⟨event, db, routed⟩ := e
  cases event <;> first | exact False.elim h | (intro i; simp)

theorem Launches.tame (h : Launches o L i healthy e) : Tame w₀ e := by
  cases h with
  | background h => exact tame_background h
  | _ => exact ⟨⟨by simp, by simp, by simp⟩, by simp⟩

theorem Launches.fine (hreply : o.reply (.startInstance i) = .row row)
    (h : Launches o L i healthy e) : Fine e := by
  cases h with
  | background h => exact fine_background h
  | starting => exact ⟨rfl, rfl⟩
  | sendFailed h => rw [hreply] at h; cases h
  | _ => exact ⟨rfl, rfl⟩

theorem Launches.passing (h : Launches o L i true e) : Passing e := by
  cases h with
  | background h => exact passing_background h
  | _ => intro j; simp

theorem Moves.tame (h : Moves i current target e) : Tame w₀ e := by
  obtain ⟨event, db, routed⟩ := e
  rcases h with h | h
  · exact tame_background h
  · cases h
    exact ⟨⟨by simp, by simp, by simp⟩, by simp⟩

theorem Moves.fine
    (hcan : canTransition instanceTransitions current target = true) (h : Moves i current target e) :
    Fine e := by
  obtain ⟨event, db, routed⟩ := e
  rcases h with h | h
  · exact fine_background h
  · cases h
    exact ⟨hcan, rfl⟩

theorem Moves.passing (h : Moves i current target e) : Passing e := by
  obtain ⟨event, db, routed⟩ := e
  rcases h with h | h
  · exact passing_background h
  · cases h
    intro j
    simp

variable {agent : ServerId} {key : InstanceId → CommandKey} {st : InstanceStatus}
  {is : List InstanceId}

theorem Halts.silent (h : Halts o agent key st is w ok e) : Silent e := by
  cases h with
  | background h => exact silent_background h
  | _ => exact ⟨by simp, by simp, by simp⟩

theorem Halts.tame (hstill : Still w₀ w) (his : ∀ i ∈ is, w₀.db.instances.next ≤ i)
    (h : Halts o agent key st is w ok e) : Tame w₀ e := by
  cases h with
  | background h => exact tame_background h
  | stop hi hr =>
    refine ⟨⟨by simp, by simp, by simp⟩, fun _ _ j _ he => ?_⟩
    cases he
    refine ⟨his _ hi, fun hf => ?_⟩
    rw [hr (hstill.inFlight hf), hstill hf]
  | _ => exact ⟨⟨by simp, by simp, by simp⟩, by simp⟩

/-- Out of RUNNING the only stop outcome the table takes is success. -/
theorem canTransition_running_stop (b : Bool) :
    canTransition instanceTransitions .running (stopStatus b) = b := by
  cases b <;> rfl

theorem canTransition_draining_stop (b : Bool) :
    canTransition instanceTransitions .draining (stopStatus b) = true := by
  cases b <;> rfl

theorem Halts.abort_fine (h : Halts o agent .abortStopInstance .running is w true e) : Fine e := by
  cases h with
  | background h => exact fine_background h
  | stop hi hr => exact ⟨rfl, rfl⟩
  | answered hi hreply hcan =>
    have hok := hcan rfl
    rw [canTransition_running_stop] at hok
    exact ⟨rfl, by simp [Event.fatal, hok]⟩
  | sendFailed hi hok => cases hok
  | moved hi hcan => exact ⟨hcan rfl, rfl⟩

theorem HaltFailed.fatal (h : HaltFailed .abortStopInstance .running is w) :
    ∃ e ∈ w.events, e.fatal = true := by
  obtain ⟨i, -, hsend | ⟨row, hrow, hcan⟩⟩ := h
  · exact ⟨_, hsend, rfl⟩
  · rw [canTransition_running_stop] at hcan
    exact ⟨_, hrow, by simp [Event.fatal, hcan]⟩

end Entries

/-! ## The loop -/

/-- A replica that came up: RUNNING, with a successful start and, where it is `gated`, a
passed health gate. -/
structure Up (gated : Prop) (w : World) (i : InstanceId) : Prop where
  running : ∃ inst, w.db.instances.row i = some inst ∧ inst.status = .running
  started : ∃ row, Event.answered (.startInstance i) row ∈ w.events ∧ row.ok = true
  healthy : gated → Event.healthGate i true ∈ w.events

def Site.gated (L : Site) : Prop := L.healthCheck.isSome ∧ L.host.isSome

/-- The invariant of the loop, and what it returns. -/
structure Gating (L : Site) (w₀ : World) (started : List InstanceId) (w : World) : Prop where
  aside : Aside L (fun e => Tame w₀ e ∧ Fine e ∧ Passing e) w₀ w
  ids : started = List.range' w₀.db.instances.next started.length
  next : w.db.instances.next = w₀.db.instances.next + started.length
  up : ∀ i ∈ started, Up L.gated w i

def GateEnds (L : Site) (w₀ : World) (n : ℕ) : Option (List InstanceId) → World → Prop
  | some new, w => new.length = n ∧ Gating L w₀ new w
  | none, w => Aside L (fun e => Tame w₀ e ∧ Fine e) w₀ w

def GateBroken (L : Site) (w₀ w : World) : Prop :=
  Aside L (Tame w₀) w₀ w ∧ ∃ e ∈ w.events, e.fatal = true

section Loop

variable {o : Oracle} {L : Site} {w₀ w w' : World} {started : List InstanceId} {i : InstanceId}
  {inst : Instance} {healthy : Bool}

theorem gating_start (L : Site) (w : World) : Gating L w [] w :=
  ⟨Aside.refl L _ w, rfl, rfl, by simp⟩

variable {j : InstanceId}

theorem Gating.mem (h : Gating L w₀ started w) (hj : j ∈ started) :
    w₀.db.instances.next ≤ j ∧ j < w.db.instances.next := by
  rw [h.ids, mem_range'_1] at hj
  rw [h.next]
  exact hj

theorem Gating.nodup (h : Gating L w₀ started w) : started.Nodup := by
  rw [h.ids]
  exact nodup_range'

theorem Launched.row_of_ne (h : Launched o L i inst healthy w w')
    (hj : j < w.db.instances.next) : w'.db.instances.row j = w.db.instances.row j := by
  have hcore := congrArg (fun k => k.instances.row j) h.went.core
  exact hcore.trans (Table.insert_row_of_ne _ _ (Nat.ne_of_lt hj))

theorem Launched.starting (h : Launched o L i inst healthy w w') : inst.status = .starting := by
  obtain ⟨a, port, t, rfl⟩ := h.row
  rfl

theorem Gating.not_mem (h : Gating L w₀ started w) (hl : Launched o L i inst healthy w w') :
    i ∉ started := by
  intro hi
  have hlt := (h.mem hi).2
  rw [hl.fresh] at hlt
  exact Nat.lt_irrefl _ hlt

/-- Neither a launch nor the status of its instance touches the replicas that are up. -/
theorem Gating.row_after {P : Entry → Prop} {target : InstanceStatus} {w₂ : World}
    (h : Gating L w₀ started w) (hl : Launched o L i inst healthy w w')
    (hmove : Went P (w'.core.setStatus i target) w' w₂) (hj : j ∈ started) :
    w₂.db.instances.row j = w.db.instances.row j := by
  have hcore := congrArg (fun k => k.instances.row j) hmove.core
  have hne : j ≠ i := by
    rintro rfl
    exact h.not_mem hl hj
  exact (hcore.trans (setStatus_row_of_ne hne _)).trans (hl.row_of_ne (h.mem hj).2)

/-- A replica that came up joins the list. -/
theorem Gating.snoc {row : AgentCommand} (h : Gating L w₀ started w)
    (hl : Launched o L i inst true w w') (hreply : o.reply (.startInstance i) = .row row)
    (hok : row.ok = true) (hanswered : Event.answered (.startInstance i) row ∈ w'.events)
    (hgate : L.healthCheck.isSome → L.host.isSome → Event.healthGate i true ∈ w'.events) :
    Ends (settle i .running w') (fun _ => Gating L w₀ (started ++ [i])) (fun _ _ => False) := by
  have hcan : canTransition instanceTransitions inst.status .running = true := by
    rw [hl.starting]; rfl
  refine (settle_spec hl.row_self hcan).mono (fun _ w2 h2 => ?_) (fun _ _ h => h)
  obtain ⟨hmove, -⟩ := h2
  have hfresh : i = w₀.db.instances.next + started.length := hl.fresh.trans h.next
  have hle : w₀.db.instances.next ≤ i := by rw [hfresh]; exact Nat.le_add_right _ _
  have haside : Aside L (fun e => Tame w₀ e ∧ Fine e ∧ Passing e) w₀ w' :=
    h.aside.launched hl fun e he => ⟨he.tame, he.fine hreply, he.passing⟩
  refine ⟨haside.moved hle hmove fun e he => ⟨he.tame, he.fine hcan, he.passing⟩, ?_, ?_, ?_⟩
  · rw [length_append, length_singleton, List.range'_1_concat, ← h.ids, hfresh]
  · have hnext := congrArg (fun k => k.instances.next) (hmove.core.trans (by rw [hl.went.core]))
    change w2.db.instances.next = w.db.instances.next + 1 at hnext
    rw [hnext, h.next, length_append, length_singleton, Nat.add_assoc]
  · intro j hj
    rcases mem_append.1 hj with hj | hj
    · obtain ⟨hrun, hst, hh⟩ := h.up j hj
      obtain ⟨row', hrow', hok'⟩ := hst
      refine ⟨by rw [h.row_after hl hmove hj]; exact hrun, ⟨row', ?_, hok'⟩, fun hg => ?_⟩
      · exact hmove.news.mem (hl.went.news.mem hrow')
      · exact hmove.news.mem (hl.went.news.mem (hh hg))
    · rw [mem_singleton.1 hj]
      refine ⟨⟨{ inst with status := .running }, ?_, rfl⟩,
        ⟨row, hmove.news.mem hanswered, hok⟩, fun hg => hmove.news.mem (hgate hg.1 hg.2)⟩
      exact instance_of_core hmove.core
        (setStatus_row_self hl.row_self _)

/-- Abort: the instances that are up are stopped. -/
theorem gate_abort (haside : Aside L (fun e => Tame w₀ e ∧ Fine e) w₀ w)
    (hle : ∀ j ∈ started, w₀.db.instances.next ≤ j) (hnodup : started.Nodup)
    (hrows : ∀ j ∈ started, ∃ inst, w.db.instances.row j = some inst ∧ inst.status = .running) :
    Ends (stopInstances o L.deployment L.server L.config started w)
      (fun _ => Aside L (fun e => Tame w₀ e ∧ Fine e) w₀) (fun _ => GateBroken L w₀) := by
  refine (halt_each hnodup hrows).mono ?_ ?_
  · intro _ w' h
    exact haside.halted h.halted hle fun e he => ⟨he.tame haside.still hle, he.abort_fine⟩
  · intro _ w' h
    refine ⟨?_, h.2.fatal⟩
    exact (haside.mono fun _ he => he.1).halted h.1 hle fun e he => he.tame haside.still hle

/-- The replica that did not come up is FAILED, and the others are stopped. -/
theorem gate_fail {row : AgentCommand} (n : ℕ) (h : Gating L w₀ started w)
    (hl : Launched o L i inst healthy w w') (hreply : o.reply (.startInstance i) = .row row) :
    Ends ((do
        settle i .failed
        stopInstances o L.deployment L.server L.config started
        pure none : M (Option (List InstanceId))) w')
      (GateEnds L w₀ n) (fun _ => GateBroken L w₀) := by
  have hcan : canTransition instanceTransitions inst.status .failed = true := by
    rw [hl.starting]; rfl
  have haside : Aside L (fun e => Tame w₀ e ∧ Fine e) w₀ w' :=
    (h.aside.mono fun _ he => ⟨he.1, he.2.1⟩).launched hl fun e he => ⟨he.tame, he.fine hreply⟩
  have hle : w₀.db.instances.next ≤ i := by
    rw [hl.fresh]
    exact h.aside.grown.le
  refine Ends.bind (settle_spec hl.row_self hcan) (fun _ w2 h2 => ?_) (fun _ _ h => h.elim)
  obtain ⟨hmove, -⟩ := h2
  have haside2 := haside.moved hle hmove fun e he => ⟨he.tame, he.fine hcan⟩
  refine Ends.bind (gate_abort haside2 (fun j hj => (h.mem hj).1) h.nodup fun j hj => ?_)
    (fun _ w3 h3 => h3) (fun _ _ h => h)
  rw [h.row_after hl hmove hj]
  exact (h.up j hj).running

theorem gateLoop_spec {rel : Release} (hrel : w₀.db.releases.row L.release = some rel) (n : ℕ) :
    ∀ (started : List InstanceId) (w : World), Gating L w₀ started w →
      Ends (gateLoop o L n started w) (GateEnds L w₀ (started.length + n))
        (fun _ => GateBroken L w₀) := by
  induction n with
  | zero => intro started w h; exact ⟨rfl, h⟩
  | succ n ih =>
    intro started w h
    refine Ends.bind (launch_spec o L (h.aside.release.trans hrel)) (fun r w1 h1 => ?_) ?_
    swap
    · intro e w1 he
      have haside : Aside L (Tame w₀) w₀ w := h.aside.mono fun _ he => he.1
      rcases he with rfl | ⟨i, inst, v, hl, ⟨rfl, hmem⟩ | rfl⟩
      · exact ⟨haside.emit ⟨⟨by simp, by simp, by simp⟩, by simp⟩, .flushFailed, by simp, rfl⟩
      · exact ⟨haside.launched hl fun e he => he.tame, _, hmem, rfl⟩
      · exact ⟨(haside.launched hl fun e he => he.tame).emit ⟨⟨by simp, by simp, by simp⟩, by simp⟩,
          .probeRaised i, by simp, rfl⟩
    cases r with
    | noPort =>
      have haside : Aside L (fun e => Tame w₀ e ∧ Fine e) w₀ w1 :=
        (h.aside.mono fun _ he => ⟨he.1, he.2.1⟩).calm h1
          fun e he => ⟨tame_background he, fine_background he⟩
      refine Ends.bind (gate_abort haside (fun j hj => (h.mem hj).1) h.nodup fun j hj => ?_)
        (fun _ _ h => h) (fun _ _ h => h)
      have hrow := congrArg (fun k => k.instances.row j) h1.core
      exact (h.up j hj).running.imp fun inst hinst => ⟨hrow.trans hinst.1, hinst.2⟩
    | startFailed i =>
      obtain ⟨inst, row, hl, hreply, -⟩ := h1
      exact gate_fail _ h hl hreply
    | unhealthy i =>
      obtain ⟨inst, row, hl, hreply, -⟩ := h1
      exact gate_fail _ h hl hreply
    | healthy i =>
      obtain ⟨inst, row, hl, hreply, hok, hanswered, hgate⟩ := h1
      refine Ends.bind (h.snoc hl hreply hok hanswered hgate) (fun _ w2 h2 => ?_)
        (fun _ _ h => h.elim)
      have hih := ih (started ++ [i]) w2 h2
      rw [length_append, length_singleton, Nat.add_assoc, Nat.add_comm 1] at hih
      exact hih

end Loop

end Healer
