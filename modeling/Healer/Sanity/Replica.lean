import Healer.Sanity.Calls

/-! One replica, from its port to its end: the status writes, the port allocation,
the health gate, `launch` and `stopAndSettle`. -/

namespace Healer

open Prog List

/-! ## Status writes -/

/-- The entry of a requested status change. -/
def Moves (i : InstanceId) (current target : InstanceStatus) (e : Entry) : Prop :=
  e.background ∨ e.event = .instanceTransition i current target

def Core.setStatus (k : Core) (i : InstanceId) (target : InstanceStatus) : Core :=
  { k with instances := k.instances.modify i fun inst => { inst with status := target } }

def Core.insert (k : Core) (inst : Instance) : Core :=
  { k with instances := k.instances.insert inst }

theorem Core.insert_setStatus (k : Core) (inst : Instance) (target : InstanceStatus) :
    (k.insert inst).setStatus k.instances.next target = k.insert { inst with status := target } := by
  simp only [Core.insert, Core.setStatus, Table.insert_modify]

section Transition

variable {i : InstanceId} {inst : Instance} {target : InstanceStatus} {w : World}

theorem transition_spec (hrow : w.db.instances.row i = some inst)
    (hcan : canTransition instanceTransitions inst.status target = true) :
    Ends (transition i target w)
      (fun _ w' => Went (Moves i inst.status target) (w.core.setStatus i target) w w' ∧
        Event.instanceTransition i inst.status target ∈ w'.events)
      (fun _ _ => False) := by
  simp only [transition, ends_bind, ends_getDb, hrow, ends_emit, hcan, if_true, ends_modifyDb]
  exact ⟨⟨rfl, (news_emit (.inr rfl)).trans (news_setDb rfl), fun _ => rfl⟩, by simp⟩

theorem transition_refused (hrow : w.db.instances.row i = some inst)
    (hcan : canTransition instanceTransitions inst.status target = false) :
    Ends (transition i target w) (fun _ _ => False)
      (fun _ w' => Went (Moves i inst.status target) w.core w w' ∧
        Event.instanceTransition i inst.status target ∈ w'.events) := by
  simp only [transition, ends_bind, ends_getDb, hrow, ends_emit, hcan, Bool.false_eq_true,
    if_false, ends_raise]
  exact ⟨went_emit (.inr rfl), by simp⟩

theorem settle_spec (hrow : w.db.instances.row i = some inst)
    (hcan : canTransition instanceTransitions inst.status target = true) :
    Ends (settle i target w)
      (fun _ w' => Went (Moves i inst.status target) (w.core.setStatus i target) w w' ∧
        Event.instanceTransition i inst.status target ∈ w'.events)
      (fun _ _ => False) := by
  refine Ends.bind (transition_spec hrow hcan) (fun _ w1 h1 => ?_) (fun _ _ h => h)
  have hcommit := calm_commit w1
  exact ⟨h1.1.calm hcommit fun _ => .inl, hcommit.news.mem h1.2⟩

theorem settle_refused (hrow : w.db.instances.row i = some inst)
    (hcan : canTransition instanceTransitions inst.status target = false) :
    Ends (settle i target w) (fun _ _ => False)
      (fun _ w' => Went (Moves i inst.status target) w.core w w' ∧
        Event.instanceTransition i inst.status target ∈ w'.events) :=
  Ends.bind (transition_refused hrow hcan) (fun _ _ h => h.elim) (fun _ _ h => h)

end Transition

/-! ## Ports and health -/

/-- The unique index refuses a row on this port: a live row of the application has it, or one of
another application. -/
def World.taken (o : Oracle) (w : World) (s : ServerId) (port : ℕ) : Bool :=
  w.db.portHeld s port || o.foreignPort w.db.instances.next s port

/-- The least free port of a range. -/
structure World.Least (o : Oracle) (w : World) (s : ServerId) (lo hi port : ℕ) : Prop where
  lower : lo ≤ port
  upper : port ≤ hi
  free : w.taken o s port = false
  least : ∀ p, lo ≤ p → p < port → w.taken o s p = true

def World.allocated (w : World) (r : ReleaseId) (s : ServerId) (port : ℕ) : World :=
  w.setDb { w.db with
    instances := w.db.instances.insert (w.db.application.newInstance r s port w.clock) }

section Overlong

variable {o : Oracle} {db : Db} {s : ServerId} {port : ℕ} {ports : List ℕ}

theorem overlong_misfit (h : db.application.misfit port = true) : db.overlong o s (port :: ports) = true := by
  simp [Db.overlong, h]

theorem overlong_taken (h : db.application.misfit port = false)
    (htaken : (db.portHeld s port || o.foreignPort db.instances.next s port) = true) :
    db.overlong o s (port :: ports) = db.overlong o s ports := by
  unfold Db.overlong
  rw [List.find?_cons_of_neg]
  simp [h, htaken]

end Overlong

/-- The database refuses the insert of a row; nothing is written. -/
def InsertRefused (w : World) (e : Exn) (w' : World) : Prop := e = .databaseError ∧ w' = w.emit .flushFailed

theorem tryPorts_spec (o : Oracle) (r : ReleaseId) (s : ServerId) (ports : List ℕ) (w : World) :
    Ends (tryPorts o r s ports w)
      (fun i w' => match i with
        | none => w' = w ∧ ∀ p ∈ ports, w.taken o s p = true
        | some i => i = w.db.instances.next ∧ ∃ before port after, ports = before ++ port :: after ∧
            (∀ p ∈ before, w.taken o s p = true) ∧ w.taken o s port = false ∧
            w' = w.allocated r s port)
      (fun e w' => InsertRefused w e w' ∧ w.db.overlong o s ports = true) := by
  induction ports with
  | nil => exact ⟨rfl, forall_mem_nil _⟩
  | cons port ports ih =>
    simp only [tryPorts, ends_bind, ends_getDb, ends_ite]
    refine ⟨fun hlong => ⟨⟨rfl, rfl⟩, overlong_misfit hlong⟩, fun hfits => ⟨fun htaken => ?_, fun hfree => ?_⟩⟩
    · rw [overlong_taken (Bool.eq_false_iff.2 hfits) htaken]
      refine ih.mono (fun i w' h => ?_) (fun _ _ h => h)
      cases i with
      | none => exact ⟨h.1, forall_mem_cons.2 ⟨htaken, h.2⟩⟩
      | some i =>
        obtain ⟨hi, before, port', after, rfl, hbefore, hport, hw⟩ := h
        exact ⟨hi, port :: before, port', after, rfl, forall_mem_cons.2 ⟨htaken, hbefore⟩, hport, hw⟩
    · exact ⟨rfl, [], port, ports, rfl, forall_mem_nil _, Bool.eq_false_iff.2 hfree, rfl⟩

theorem allocate_least (o : Oracle) (r : ReleaseId) (s : ServerId) (lo hi : ℕ) (w : World) :
    Ends (allocateInstance o r s lo hi w)
      (fun i w' => i = w.db.instances.next ∧ ∃ port, w.Least o s lo hi port ∧ w' = w.allocated r s port)
      (fun e w' => (w' = w ∧ (∃ message, e = .deploymentSetup message) ∧
        ∀ p, lo ≤ p → p ≤ hi → w.taken o s p = true) ∨
        InsertRefused w e w' ∧ w.db.overlong o s (List.range' lo (hi + 1 - lo)) = true) := by
  refine Ends.bind (tryPorts_spec o r s _ w) (fun i w' h => ?_) (fun _ _ h => .inr h)
  cases i with
  | none =>
    refine .inl ⟨h.1, ⟨_, rfl⟩, fun p hlo hhi => h.2 p ?_⟩
    rw [mem_range'_1]
    omega
  | some i =>
    obtain ⟨hi', before, port, after, hsplit, hbefore, hport, hw⟩ := h
    have hmem : ∀ p, p ∈ before ++ port :: after ↔ lo ≤ p ∧ p ≤ hi := by
      intro p
      rw [← hsplit, mem_range'_1]
      omega
    obtain ⟨hlower, hupper⟩ := (hmem port).1 (mem_append_right _ mem_cons_self)
    refine ⟨hi', port, ⟨hlower, hupper, hport, fun p hlo hp => hbefore p ?_⟩, hw⟩
    -- the range ascends, so what comes after the port is above it
    have hsorted : (before ++ port :: after).Pairwise (· < ·) := hsplit ▸ pairwise_lt_range'
    rcases mem_append.1 ((hmem p).2 ⟨hlo, by omega⟩) with h | h
    · exact h
    rcases mem_cons.1 h with rfl | h
    · exact (hp.false).elim
    · have hlt := rel_of_pairwise_cons (pairwise_append.1 hsorted).2.1 h
      omega

theorem allocate_spec (o : Oracle) (r : ReleaseId) (s : ServerId) (lo hi : ℕ) (w : World) :
    Ends (allocateInstance o r s lo hi w)
      (fun i w' => i = w.db.instances.next ∧ ∃ port, w' = w.setDb { w.db with
        instances := w.db.instances.insert (w.db.application.newInstance r s port w.clock) })
      (fun e w' => (w' = w ∧ ∃ message, e = .deploymentSetup message) ∨ InsertRefused w e w') := by
  refine (allocate_least o r s lo hi w).mono (fun i w' h => ?_) fun e w' h => ?_
  · obtain ⟨hi', port, -, hw⟩ := h
    exact ⟨hi', port, hw⟩
  · exact h.imp (fun h => ⟨h.1, h.2.1⟩) And.left

/-- The probe of `i` has raised; before that there was only background. -/
def Raised (i : InstanceId) (w w' : World) : Prop := ∃ v, Calm w v ∧ w' = v.emit (.probeRaised i)

theorem waitLoop_spec (o : Oracle) (i : InstanceId) (host : String) (port n : ℕ) :
    ∀ (hc : HealthCheck) (k successes failures : ℕ) (w : World),
      Ends (waitLoop o hc i host port n k successes failures w) (fun _ => Calm w)
        (fun _ => Raised i w) := by
  induction n with
  | zero => intro hc k successes failures w; exact Calm.refl w
  | succ n ih =>
    intro hc k successes failures w
    simp only [waitLoop, rereadHealthCheck, ends_bind, ends_suspend, ends_read, ends_emit,
      ends_update, ends_commit, ends_ite, ends_pure]
    refine ends_probeOnce (fun answer => ?_) fun _ => ⟨_, calm_suspend o w, rfl⟩
    have h := (calm_suspend o w).then (calm_probe (w.suspend o) i host port
      (if (((w.suspend o).db.healthCheck.getD hc).judge answer) then 0 else failures + 1)
      (((w.suspend o).db.healthCheck.getD hc).judge answer))
    refine ⟨fun _ => h, fun _ => ⟨fun _ => h, fun _ => ?_⟩⟩
    refine (ih _ _ _ _ _).mono (fun _ _ h' => h.then h') ?_
    rintro _ _ ⟨v, hv, rfl⟩
    exact ⟨v, h.then hv, rfl⟩

/-- The entries of a health gate with its verdict. -/
def Gates (i : InstanceId) (healthy : Bool) (e : Entry) : Prop :=
  e.background ∨ e.event = .healthGate i healthy

theorem waitUntilHealthy_spec (o : Oracle) (hc : HealthCheck) (i : InstanceId) (host : String)
    (port : ℕ) (w : World) :
    Ends (waitUntilHealthy o hc i host port w)
      (fun b w' => Went (Gates i b) w.core w w' ∧ Event.healthGate i b ∈ w'.events)
      (fun _ => Raised i w) := by
  simp only [waitUntilHealthy, rereadHealthCheck, ends_bind, ends_read]
  refine (waitLoop_spec o i host port _ _ 0 0 0 w).mono (fun b w1 h1 => ?_) (fun _ _ h => h)
  simp only [ends_emit, ends_pure]
  refine ⟨⟨h1.core, ?_, h1.still⟩, by simp⟩
  exact (h1.news.mono fun _ => .inl).trans (news_emit (.inr rfl))

/-! ## Bringing a replica up -/

/-- What `launch` leaves in the trace about the instance `i`. -/
inductive Launches (o : Oracle) (L : Site) (i : InstanceId) (healthy : Bool) : Entry → Prop
  | background {e : Entry} (h : e.background) : Launches o L i healthy e
  | starting {db routed} : Launches o L i healthy ⟨.instanceTransition i .pending .starting, db, routed⟩
  | start {payload db routed} : Launches o L i healthy
      ⟨.submitted L.server (.startInstance i) (.startInstance i payload), db, routed⟩
  | answered {row db routed} (h : o.reply (.startInstance i) = .row row) :
      Launches o L i healthy ⟨.answered (.startInstance i) row, db, routed⟩
  | sendFailed {error db routed} (h : o.reply (.startInstance i) = .sendFailed error) :
      Launches o L i healthy ⟨.sendFailed (.startInstance i), db, routed⟩
  | gate {db routed} : Launches o L i healthy ⟨.healthGate i healthy, db, routed⟩

/-- `launch` has inserted `inst` under the fresh key `i`. -/
structure Launched (o : Oracle) (L : Site) (i : InstanceId) (inst : Instance) (healthy : Bool)
    (w w' : World) : Prop where
  fresh : i = w.db.instances.next
  row : ∃ (a : Application) (port : ℕ) (t : Time), inst =
    { a.newInstance L.release L.server port t with
      deploymentId := some L.deployment, status := .starting }
  went : Went (Launches o L i healthy) (w.core.insert inst) w w'

def LaunchEnds (o : Oracle) (L : Site) (w : World) : Launch → World → Prop
  | .noPort, w' => Calm w w'
  | .startFailed i, w' => ∃ inst row, Launched o L i inst true w w' ∧
      o.reply (.startInstance i) = .row row ∧ row.ok = false
  | .unhealthy i, w' => ∃ inst row, Launched o L i inst false w w' ∧
      o.reply (.startInstance i) = .row row ∧ row.ok = true ∧
      Event.answered (.startInstance i) row ∈ w'.events ∧ Event.healthGate i false ∈ w'.events
  | .healthy i, w' => ∃ inst row, Launched o L i inst true w w' ∧
      o.reply (.startInstance i) = .row row ∧ row.ok = true ∧
      Event.answered (.startInstance i) row ∈ w'.events ∧
      (L.healthCheck.isSome → L.host.isSome → Event.healthGate i true ∈ w'.events)

/-- How `launch` raises: the insert of the row is refused, or the row is left STARTING by a send or a
probe that raises. -/
def LaunchFails (o : Oracle) (L : Site) (w w' : World) : Prop :=
  w' = w.emit .flushFailed ∨
    ∃ i inst v, Launched o L i inst true w v ∧
      (w' = v ∧ Event.sendFailed (.startInstance i) ∈ v.events ∨ w' = v.emit (.probeRaised i))

section Launched

variable {o : Oracle} {L : Site} {i : InstanceId} {inst : Instance} {healthy : Bool} {a b c : World}

theorem Launched.extend (h : Launched o L i inst healthy a b)
    (h' : Went (Launches o L i healthy) b.core b c) : Launched o L i inst healthy a c :=
  ⟨h.fresh, h.row, h'.core.trans h.went.core, h.went.news.trans h'.news, h.went.still.trans h'.still⟩

theorem Launched.row_self (h : Launched o L i inst healthy a b) :
    b.db.instances.row i = some inst := by
  have hcore := congrArg (fun k => k.instances.row i) h.went.core
  rw [h.fresh] at hcore ⊢
  exact hcore.trans (Table.insert_row_self _ _)

theorem Asked.launches {payload : StartPayload} {reply : Event}
    (h : Asked L.server (.startInstance i) (.startInstance i payload) reply a b)
    (hreply : ∀ db routed, Launches o L i healthy ⟨reply, db, routed⟩) :
    Went (Launches o L i healthy) a.core a b := by
  refine h.went.mono ?_
  rintro ⟨e, db, routed⟩ (hb | he | he)
  · exact .background hb
  · cases he
    exact .start
  · cases he
    exact hreply db routed

end Launched

/-- The new row up to the start command. -/
theorem launched_starting (o : Oracle) (L : Site) (healthy : Bool) (a : Application) (port : ℕ)
    (t : Time) (w : World) :
    Ends ((do
        modifyInstance w.db.instances.next fun inst => { inst with deploymentId := some L.deployment }
        transition w.db.instances.next .starting
        commit : M Unit)
        (w.setDb { w.db with
          instances := w.db.instances.insert (a.newInstance L.release L.server port t) }))
      (fun _ w' => Launched o L w.db.instances.next
        { a.newInstance L.release L.server port t with
          deploymentId := some L.deployment, status := .starting } healthy w w')
      (fun _ _ => False) := by
  set i := w.db.instances.next with hi
  set inst := { a.newInstance L.release L.server port t with deploymentId := some L.deployment }
    with hinst
  simp only [ends_bind, ends_modifyInstance, setDb_db]
  have htable : (w.db.instances.insert (a.newInstance L.release L.server port t)).modify i
      (fun inst => { inst with deploymentId := some L.deployment }) = w.db.instances.insert inst :=
    Table.insert_modify _ _ _
  rw [htable]
  set u := World.setDb _ _ with hu
  have hrow : u.db.instances.row i = some inst := Table.insert_row_self _ _
  have hu' : Went (Launches o L i healthy) u.core w u :=
    ⟨rfl, ⟨⟨[], by simp [hu]⟩, id⟩, fun _ => rfl⟩
  refine (transition_spec hrow (by rfl)).mono (fun _ w1 h1 => ?_) (fun _ _ h => h)
  have hmove : Went (Launches o L i healthy) (u.core.setStatus i .starting) u w1 := by
    refine h1.1.mono ?_
    rintro ⟨e, db, routed⟩ (hb | rfl)
    · exact .background hb
    · exact .starting
  refine ⟨hi, ⟨a, port, t, rfl⟩, ?_⟩
  have hall := (hu'.trans hmove).calm (calm_commit w1) fun _ => .background
  exact ⟨hall.core.trans (Core.insert_setStatus w.core inst .starting), hall.news, hall.still⟩

variable {inst : Instance} {i : InstanceId}

/-- Without a health check or a host the replica counts as healthy. -/
theorem launchEnds_ungated {o : Oracle} {L : Site} {row : AgentCommand}
    {w w' : World} (h : Launched o L i inst true w w') (hreply : o.reply (.startInstance i) = .row row)
    (hok : row.ok = true) (hanswered : Event.answered (.startInstance i) row ∈ w'.events)
    (hnone : L.healthCheck = none ∨ L.host = none) : LaunchEnds o L w (.healthy i) w' := by
  refine ⟨inst, row, h, hreply, hok, hanswered, fun hhc hhost => ?_⟩
  rcases hnone with hnone | hnone
  · simp [hnone] at hhc
  · simp [hnone] at hhost

/-- The health gate of a replica that has started. -/
theorem launch_gated {o : Oracle} {L : Site} {row : AgentCommand}
    {w w' : World} (h : ∀ healthy, Launched o L i inst healthy w w')
    (hreply : o.reply (.startInstance i) = .row row) (hok : row.ok = true)
    (hanswered : Event.answered (.startInstance i) row ∈ w'.events) (hc : HealthCheck) (host : String)
    (port : ℕ) (message : String) :
    Ends ((do
        let healthy ← waitUntilHealthy o hc i host port
        if healthy then pure (.healthy i)
        else do
          log L.deployment .error message
          pure (.unhealthy i) : M Launch) w') (LaunchEnds o L w) (fun _ => LaunchFails o L w) := by
  refine (waitUntilHealthy_spec o hc i host port w').bind ?_ ?_
  swap
  · rintro _ _ ⟨v, hv, rfl⟩
    exact .inr ⟨i, inst, v, (h true).extend (hv.mono fun _ => .background), .inr rfl⟩
  intro healthy u hu
  obtain ⟨hgate, hmem⟩ := hu
  have hlaunched : Launched o L i inst healthy w u := by
    refine (h healthy).extend (hgate.mono ?_)
    rintro ⟨e, db, routed⟩ (hb | rfl)
    · exact .background hb
    · exact .gate
  have hstill := hgate.news.mem hanswered
  cases healthy with
  | true => exact ⟨inst, row, hlaunched, hreply, hok, hstill, fun _ _ => hmem⟩
  | false =>
    refine Ends.bind (log_spec _ _ _ u) (fun _ v hv => ?_) (fun _ _ h => h.elim)
    exact ⟨inst, row, hlaunched.extend (hv.mono fun _ => .background), hreply, hok, hv.news.mem hstill,
      hv.news.mem hmem⟩

theorem launch_spec (o : Oracle) (L : Site) {w : World} {rel : Release}
    (hrel : w.db.releases.row L.release = some rel) :
    Ends (launch o L w) (LaunchEnds o L w) (fun _ => LaunchFails o L w) := by
  unfold launch
  rw [ends_bind, ends_attempt]
  refine (allocate_spec o L.release L.server L.portStart L.portEnd w).mono ?_ ?_
  swap
  · rintro e w' (⟨rfl, message, rfl⟩ | ⟨rfl, rfl⟩)
    · exact Ends.bind (log_spec _ _ _ w') (fun _ _ h => h) (fun _ _ h => h.elim)
    · exact .inl rfl
  rintro i w1 ⟨rfl, port, rfl⟩
  -- the verdict of the gate is not known yet, so the prefix is taken with both
  have hstart := fun healthy => launched_starting o L healthy w.db.application port w.clock w
  set i := w.db.instances.next
  set inst : Instance := { w.db.application.newInstance L.release L.server port w.clock with
    deploymentId := some L.deployment, status := .starting } with hinst
  have hstart := (hstart true).and (hstart false)
  simp only [ends_bind, ends_modifyInstance, ends_commit] at hstart ⊢
  refine hstart.mono (fun _ w1 h2 => ?_) (fun _ _ h => h.1.elim)
  set w2 := w1.emit .commit
  have hrow : w2.db.instances.row i = some inst := by
    have := congrArg (fun k => k.instances.row i) h2.1.went.core
    exact this.trans (Table.insert_row_self _ _)
  have hrel2 : w2.db.releases.row L.release = some rel :=
    (congrArg (fun k => k.releases.row L.release) h2.1.went.core).trans hrel
  simp only [submitStart, ends_bind, ends_getRelease hrel2, ends_getInstance hrow]
  refine (submit_spec o L.server (.startInstance i) _ w2).mono ?_ ?_
  swap
  · rintro e w3 ⟨error, rfl, hreply, hasked⟩
    exact .inr ⟨i, inst, w3, h2.1.extend (hasked.launches fun _ _ => .sendFailed hreply),
      .inl ⟨rfl, hasked.replied⟩⟩
  rintro row w3 ⟨hreply, hasked⟩
  have h3 : ∀ healthy, Launched o L i inst healthy w w3 := by
    intro healthy
    have hasked' : Went (Launches o L i healthy) w2.core w2 w3 :=
      hasked.launches fun _ _ => .answered hreply
    cases healthy
    · exact h2.2.extend hasked'
    · exact h2.1.extend hasked'
  simp only [ends_getInstance (h3 true).row_self]
  refine (persistInstance_spec L.deployment row inst.port w3).mono ?_ (fun _ _ h => h.elim)
  rintro b w4 ⟨rfl, hcalm4⟩
  have h4 : ∀ healthy, Launched o L i inst healthy w w4 := fun healthy =>
    (h3 healthy).extend (hcalm4.mono fun _ => .background)
  have hanswered := hcalm4.news.mem hasked.replied
  rw [ends_ite]
  refine ⟨fun hok => ⟨inst, row, h4 true, hreply, by simpa using hok⟩, fun hok => ?_⟩
  have hok : row.ok = true := by simpa using hok
  rcases hhc : L.healthCheck with _ | hc
  · exact launchEnds_ungated (h4 true) hreply hok hanswered (.inl hhc)
  rcases hhost : L.host with _ | host
  · exact launchEnds_ungated (h4 true) hreply hok hanswered (.inr hhost)
  exact launch_gated h4 hreply hok hanswered hc host inst.port _

/-! ## Taking a replica down -/

/-- The stop command of `i` has been sent from `w` and answered with `row` in `u`. -/
def StopAsked (o : Oracle) (agent : ServerId) (key : CommandKey) (c : HealerYaml) (i : InstanceId)
    (inst : Instance) (row : AgentCommand) (w u : World) : Prop :=
  o.reply key = .row row ∧
    Asked agent key (.stopInstance i (buildStopInstancePayload inst c)) (.answered key row) w u

theorem stopAndSettle_spec (o : Oracle) (d : DeploymentId) (agent : ServerId)
    (key : InstanceId → CommandKey) (c : HealerYaml) {w : World}
    (hrow : w.db.instances.row i = some inst) :
    Ends (stopAndSettle o d agent key c i w)
      (fun ok w' => ∃ u row, StopAsked o agent (key i) c i inst row w u ∧ ok = row.ok ∧
        canTransition instanceTransitions inst.status (stopStatus row.ok) = true ∧
        Went (Moves i inst.status (stopStatus row.ok)) (w.core.setStatus i (stopStatus row.ok)) u w')
      (fun _ w' => Asked agent (key i) (.stopInstance i (buildStopInstancePayload inst c))
          (.sendFailed (key i)) w w' ∨
        ∃ u row, StopAsked o agent (key i) c i inst row w u ∧
          canTransition instanceTransitions inst.status (stopStatus row.ok) = false ∧
          Went (Moves i inst.status (stopStatus row.ok)) w.core u w') := by
  simp only [stopAndSettle, submitStop, ends_bind, ends_getInstance hrow]
  refine (submit_spec o agent (key i) _ w).mono ?_ ?_
  swap
  · rintro e w1 ⟨error, -, -, hasked⟩
    exact .inl hasked
  rintro row w1 ⟨hreply, hasked⟩
  have hrow1 : w1.db.instances.row i = some inst :=
    instance_of_core hasked.went.core hrow
  simp only [ends_getInstance hrow1]
  refine (persistInstance_spec d row inst.port w1).mono ?_ (fun _ _ h => h.elim)
  rintro b w2 ⟨rfl, hcalm⟩
  have hcore2 : w2.core = w.core := hcalm.core.trans hasked.went.core
  have hrow2 : w2.db.instances.row i = some inst :=
    instance_of_core hcore2 hrow
  cases hcan : canTransition instanceTransitions inst.status (stopStatus row.ok) with
  | true =>
    refine (transition_spec hrow2 hcan).mono (fun _ w3 h3 => ?_) (fun _ _ h => h.elim)
    have hmove := (hcalm.went h3.1 fun _ => .inl).calm (calm_commit w3) fun _ => .inl
    rw [hcore2] at hmove
    exact ⟨w1, row, ⟨hreply, hasked⟩, rfl, hcan, hmove⟩
  | false =>
    refine (transition_refused hrow2 hcan).mono (fun _ _ h => h.elim) (fun _ w3 h3 => ?_)
    have hmove := hcalm.went h3.1 fun _ => .inl
    rw [hcore2] at hmove
    exact .inr ⟨w1, row, ⟨hreply, hasked⟩, hcan, hmove⟩

end Healer
