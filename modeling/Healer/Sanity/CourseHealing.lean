import Healer.Sanity.CourseOps
import Healer.Sanity.Opened

/-! The manual actions, self-healing and the first deployment, step by step, and with them every
operation. -/

namespace Healer

open Prog List

/-- The deployment `d` is of a release whose instances are owned and PENDING. -/
def Lodging (G : List Fact → Brief → World → Prop) (F : List Fact) (d : DeploymentId) (w : World) : Prop :=
  ∃ r, G (.lodged r :: F) (.pending r) w ∧ ∀ dep, w.db.deployments.row d = some dep → dep.releaseId = r

/-- The end of `start_deployment`, once the release and the instance are there. -/
def openDeployment (r : ReleaseId) (i : InstanceId) : M DeploymentId := do
  let d ← insertDeployment r 1 .deploy
  modifyInstance i fun inst => { inst with deploymentId := some d }
  transitionDeployment d .inProgress
  commit
  pure d

theorem openDeployment_row {r : ReleaseId} {i : InstanceId} {w : World} :
    Ends (openDeployment r i w)
      (fun d w' => ∀ dep, w'.db.deployments.row d = some dep → dep.releaseId = r) (fun _ _ => True) := by
  set dep : Deployment := ⟨r, .pending, 1, .deploy, none⟩ with hdep
  have hrow : (w.db.deployments.insert dep).row w.db.deployments.next = some dep :=
    Table.insert_row_self _ _
  simp only [openDeployment, insertDeployment, modifyInstance, transitionDeployment, ends_bind,
    ends_getDb, ends_modifyDb, ends_pure, setDb_db, ← hdep, hrow, ends_emit, ends_commit]
  intro dep' hrow'
  change ((w.db.deployments.insert dep).modify w.db.deployments.next _).row _ = _ at hrow'
  rw [Table.modify_row_self, hrow] at hrow'
  cases hrow'
  rfl

/-- `restart_instance` reads the whole row. -/
theorem AgentCommand.ok_of_clean {row : AgentCommand}
    (h : (row.clean && (row.result.map CommandResult.ok).getD false) = true) : row.ok = true := by
  simp only [AgentCommand.clean, Bool.and_eq_true] at h
  simp only [AgentCommand.ok, Bool.and_eq_true, Bool.or_eq_true]
  exact ⟨⟨Or.inl h.1.1, h.1.2⟩, h.2⟩

/-- Whoever answers a manual stop with a succeeded command and no error also has `ok` true in its
result. -/
def Oracle.candid (o : Oracle) (i : InstanceId) : Prop :=
  ∀ row, o.reply (.manualStop i) = .row row → row.clean = true → row.ok = true

theorem submitStop_reply {o : Oracle} {agent : ServerId} {key : CommandKey} {i : InstanceId}
    {c : HealerYaml} (w : World) :
    Ends (submitStop o agent key i c w) (fun row _ => o.reply key = .row row) (fun _ _ => True) := by
  refine Ends.bind ((keeps_getInstance (P := fun _ => True) i).ends (s := w) trivial) ?_
    (fun _ _ _ => trivial)
  intro inst w1 _
  exact (submit_spec o agent key _ w1).mono (fun _ _ h => h.1) (fun _ _ _ => trivial)

namespace Course

variable {o : Oracle} {K : Reading} {G : List Fact → Brief → World → Prop} {F : List Fact} {B : Brief}
  {w : World} {i : InstanceId} {s agent : ServerId} {c : HealerYaml} {r : ReleaseId}
  {d : DeploymentId} {dep : Deployment} {hc : HealthCheck} {host : Option String} (hC : Course o K G)

include hC

/-! ## Manual actions -/

theorem keeps_restartBody (hon : .on i agent ∈ F) : Keeps (G F .nothing) (restartBody o i r agent) := by
  refine hC.keeps_config fun c hconfig => hC.gains_bind (fun _ h => hC.move rfl h) fun _ => ?_
  have howned : Fact.owned i ∈ Fact.owned i :: F := mem_cons_self
  refine hC.leaves_at_home howned (mem_cons_of_mem _ hon) fun hs => keeps_bind hC.keeps_commit
    fun _ => keeps_bind hC.keeps_syncIfDomain fun _ => keeps_of_ends fun w h =>
    (hC.onStart _ _ h howned hs hconfig).bind (fun row w1 h1 => ends_of_state ?_) (fun _ _ h' => h')
  split
  · rename_i hclean
    rw [AgentCommand.ok_of_clean hclean] at h1
    exact hC.leaves_bind (hC.quiet.keeps_setFailureReason i _) (fun _ => leaves_then
      (hC.leaves_confirm .start howned) fun _ => keeps_bind hC.keeps_commit fun _ =>
      hC.keeps_syncIfDomain) w1 h1
  · exact hC.leaves_of_keeps (keeps_bind (hC.quiet.keeps_setFailureReason i _) fun _ =>
      keeps_bind (hC.keeps_of_gains fun _ h => hC.move rfl h) fun _ =>
      keeps_bind hC.keeps_commit fun _ => keeps_raise _) w1 h1

theorem keeps_restartInstance : Keeps (G F .nothing) (restartInstance o i) := by
  refine hC.keeps_instance fun inst => keeps_bind (keeps_requireActionable _ _) fun _ =>
    keeps_bind keeps_getDb fun db => ?_
  cases inst.releaseId.filter fun r => (db.releases.row r).isSome with
  | none => exact keeps_raise _
  | some r =>
    exact keeps_bind (hC.quiet.keeps_acquireForAction _) fun token =>
      keeps_releaseFinally (hC.keeps_restartBody mem_cons_self) (hC.quiet.keeps_release _)

/-- A stop that needs the agent's word for STOPPED has to get it. -/
theorem keeps_stopBody (hon : .on i agent ∈ F)
    (hstop : (∀ F, .owned i ∈ F → Keeps (G F .nothing) (transition i .stopped)) ∨ o.candid i) :
    Keeps (G F .nothing) (stopBody o i agent) := by
  refine hC.keeps_config fun c hconfig => hC.gains_bind (fun _ h => hC.move rfl h) fun _ => ?_
  have howned : Fact.owned i ∈ Fact.owned i :: F := mem_cons_self
  refine hC.leaves_at_home howned (mem_cons_of_mem _ hon) fun hs => keeps_bind hC.keeps_commit
    fun _ => keeps_bind hC.keeps_syncIfDomain fun _ => keeps_of_ends fun w h => ?_
  have hrest : ∀ row : AgentCommand, Keeps (G (.owned i :: F) .nothing) (if row.clean then commit
      else (do
        let reason := row.reason "manual stop failed"
        setFailureReason i (some reason)
        commit
        Prog.raise (.instanceAction reason)) : M Unit) := fun row =>
    keeps_ite (fun _ => hC.keeps_commit) fun _ =>
      keeps_bind (hC.quiet.keeps_setFailureReason i _) fun _ =>
      keeps_bind hC.keeps_commit fun _ => keeps_raise _
  refine ((hC.onStop (.manualStop i) h howned hs hconfig).and (submitStop_reply w)).bind
    (fun row w1 h1 => ends_of_state ?_) (fun _ _ h' => h'.1)
  refine leaves_then (B := .after .stop i row.ok) (fun w' h' => ?_) (fun _ => hrest row) w1 h1.1
  rcases hclean : row.clean with _ | _
  · exact (hC.keeps_of_gains fun _ h => hC.move rfl h) w' (hC.forget h')
  rcases hstop with hstop | hstop
  · exact hstop _ howned w' (hC.forget h')
  · rw [hstop row h1.2 hclean] at h'
    exact hC.leaves_confirm .stop howned w' h'

theorem keeps_stopInstance
    (hstop : (∀ F, .owned i ∈ F → Keeps (G F .nothing) (transition i .stopped)) ∨ o.candid i) :
    Keeps (G F .nothing) (stopInstance o i) :=
  hC.keeps_instance fun _ => keeps_bind (keeps_requireActionable _ _) fun _ =>
    keeps_bind (hC.quiet.keeps_acquireForAction _) fun _ =>
    keeps_releaseFinally (hC.keeps_stopBody mem_cons_self hstop) (hC.quiet.keeps_release _)

/-! ## Self-healing -/

theorem keeps_giveUp {reason : String} : Keeps (G F .nothing) (giveUp i reason) :=
  keeps_bind (hC.quiet.keeps_setFailureReason i _) fun _ =>
    keeps_bind (keeps_getInstance i) fun _ =>
    keeps_bind (keeps_ite (fun _ => keeps_pure _) fun _ =>
      hC.keeps_of_gains fun _ h => hC.move rfl h) fun _ =>
    keeps_bind hC.keeps_commit fun _ => keeps_bind (hC.quiet.keeps_logAudit i _) fun _ =>
    hC.quiet.keeps_notifyAdministrators i _

theorem keeps_startReplacement (howned : .owned i ∈ F) (hs : K.server agent) (hconfig : K.config c)
    (hhost : ∀ name, host = some name → K.host agent name) :
    Keeps (G F .nothing) (startReplacement o hc c agent r host i) := by
  have hlost : ∀ B target reason, target.plain = true →
      Leaves G F B (do settle i target; giveUp i reason : M Unit) := fun B target reason ht =>
    hC.leaves_of_keeps (keeps_bind (hC.keeps_of_gains (hC.gains_settle ht)) fun _ => hC.keeps_giveUp)
  refine keeps_of_ends fun w h => (hC.onStart _ _ h howned hs hconfig).bind
    (fun row w1 h1 => ends_of_state ?_) (fun _ _ h' => h')
  rcases hok : row.ok with _ | _
  · exact hlost _ .failed _ rfl w1 h1
  rw [hok] at h1
  refine hC.leaves_bind (B := .confirmed .start i) (keeps_getInstance i) (fun inst => ?_) w1 h1
  refine hC.leaves_bind ?_ fun healthy => ?_
  · cases host with
    | none => exact keeps_pure _
    | some name => exact hC.keeps_waitUntilHealthy howned hs (hhost name rfl)
  · cases healthy with
    | false => exact hlost _ .unhealthy _ rfl
    | true =>
      exact leaves_then (hC.leaves_settle .start howned) fun _ =>
        keeps_bind (hC.quiet.keeps_logAudit i _) fun _ => hC.keeps_syncIfDomain

theorem keeps_replace (howned : .owned i ∈ F) (hknown : .known r ∈ F) (hs : K.server agent)
    (hconfig : K.config c) (hhost : ∀ name, host = some name → K.host agent name) :
    Keeps (G F .nothing) (replace o hc c agent r host i) := by
  refine keeps_bind keeps_getDb fun db => ?_
  rcases db.application.portRangeStart with _ | lo
  · exact hC.keeps_giveUp
  rcases db.application.portRangeEnd with _ | hi
  · exact hC.keeps_giveUp
  refine hC.keeps_instance fun old => hC.leaves_at_home (mem_cons_of_mem _ howned) mem_cons_self
    fun hold => keeps_of_ends fun w h => ?_
  rw [ends_bind, ends_attempt]
  refine (hC.allocate _ _ h hold (mem_cons_of_mem _ hknown)).mono (fun j w1 h1 => ?_) (fun e w1 h1 => ?_)
  · refine ends_of_state (hC.drop (f := .owned j) (B := .nothing) ?_)
    refine hC.leaves_bind (hC.quiet.keeps_modifyInstance j fun _ => by rfl) (fun _ =>
      leaves_then (fun w' h' => ?_) fun _ => keeps_bind (keeps_getInstance j) fun _ =>
      keeps_bind (hC.quiet.keeps_logAudit i _) fun _ =>
      hC.keeps_startReplacement mem_cons_self hs hconfig hhost) w1 h1
    exact ((hC.begin h' mem_cons_self).bind (fun _ _ h'' => hC.keeps_commit.ends h'')
      (fun _ _ h'' => h'')).state
  · cases e with
    | deploymentSetup exc => exact hC.keeps_giveUp.ends h1
    | _ => exact h1

theorem keeps_restartOrReplace (hon : .on i agent ∈ F) (hknown : .known r ∈ F) (hconfig : K.config c)
    (hhost : ∀ name, host = some name → K.host agent name) :
    Keeps (G F .nothing) (restartOrReplace o hc c agent r host i) := by
  refine hC.gains_bind (hC.gains_settle rfl) fun _ => ?_
  have howned : Fact.owned i ∈ Fact.owned i :: F := mem_cons_self
  refine hC.leaves_at_home howned (mem_cons_of_mem _ hon) fun hs =>
    keeps_bind (hC.quiet.keeps_logAudit i _) fun _ =>
    keeps_bind (keeps_getInstance i) fun inst => keeps_of_ends fun w h =>
    (hC.onStart _ _ h howned hs hconfig).bind (fun row w1 h1 => ends_of_state ?_) (fun _ _ h' => h')
  have hlost : ∀ B, Leaves G (.owned i :: F) B (do
      setFailureReason i (some "restart did not restore a healthy instance")
      settle i .failed
      logAudit i fun inst => .restartFailed inst.healingAttempts
      replace o hc c agent r host i : M Unit) := fun B =>
    hC.leaves_of_keeps (keeps_bind (hC.quiet.keeps_setFailureReason i _) fun _ =>
      keeps_bind (hC.keeps_of_gains (hC.gains_settle rfl)) fun _ =>
      keeps_bind (hC.quiet.keeps_logAudit i _) fun _ =>
      hC.keeps_replace howned (mem_cons_of_mem _ hknown) hs hconfig hhost)
  rcases hok : row.ok with _ | _
  · exact hlost _ w1 h1
  rw [hok] at h1
  rcases host with _ | name
  · exact hlost _ w1 h1
  refine hC.leaves_bind (B := .confirmed .start i) (hC.keeps_waitUntilHealthy howned hs (hhost name rfl))
    (fun healthy => ?_) w1 h1
  cases healthy with
  | false => exact hlost _
  | true =>
    exact leaves_then (hC.leaves_confirm .start howned) fun _ =>
      keeps_bind (hC.quiet.keeps_setFailureReason i _) fun _ =>
      keeps_bind hC.keeps_commit fun _ => keeps_bind (hC.quiet.keeps_logAudit i _) fun _ =>
      hC.keeps_syncIfDomain

/-- The row is read twice: the host belongs to the first reading, the agent to the second. -/
theorem keeps_attemptHealing {connected : Bool} (hon : .on i s ∈ F) (hconfig : K.config c)
    (hhost : ∀ name, host = some name → K.host s name) :
    Keeps (G F .nothing) (attemptHealing o hc c connected host i) := by
  refine hC.keeps_instance fun inst => keeps_bind (keeps_read _) fun hc =>
    keeps_bind (keeps_read _) fun t => keeps_ite (fun _ => hC.keeps_giveUp) fun _ =>
    keeps_ite (fun _ => keeps_pure _) fun _ => keeps_ite (fun _ => hC.keeps_giveUp) fun _ =>
    keeps_bind (hC.quiet.keeps_modifyInstance i fun _ => by rfl) fun _ =>
    keeps_bind hC.keeps_commit fun _ => hC.keeps_db fun w h => ?_
  cases hr : inst.releaseId.filter fun r => (w.db.releases.row r).isSome with
  | none => exact ⟨[], h, hC.keeps_giveUp⟩
  | some r =>
    obtain ⟨rel, hrel⟩ := Option.isSome_iff_exists.1 (Option.filter_eq_some_iff.1 hr).2
    exact ⟨[.known r], hC.found h hrel, hC.keeps_restartOrReplace
      (mem_cons_of_mem _ mem_cons_self) mem_cons_self hconfig fun name hname =>
      hC.reread h (mem_cons_of_mem _ hon) mem_cons_self (hhost name hname)⟩

theorem keeps_handleUnhealthyInstance : Keeps (G F .nothing) (handleUnhealthyInstance o hc i) := by
  refine hC.keeps_config fun c hconfig => hC.keeps_instance fun inst => keeps_read_bind fun w h =>
    keeps_bind (keeps_ite (fun _ => hC.keeps_of_gains (hC.gains_settle rfl)) fun _ =>
      keeps_pure _) fun _ => keeps_bind (hC.quiet.keeps_logAudit i _) fun _ =>
    keeps_bind hC.keeps_syncIfDomain fun _ => ?_
  exact hC.keeps_attemptHealing mem_cons_self hconfig fun name hname => hC.host h hname

theorem keeps_heal : Keeps (G F .nothing) (heal o hc i) := by
  refine keeps_bind (keeps_attempt (hC.quiet.keeps_acquire _)) fun res => ?_
  rcases res with e | token
  · cases e with
    | operationLockHeld message => exact keeps_pure _
    | _ => exact keeps_raise _
  · exact keeps_releaseFinally hC.keeps_handleUnhealthyInstance (hC.quiet.keeps_release _)

theorem keeps_pollAndMaybeHeal : Keeps (G F .nothing) (pollAndMaybeHeal o) := by
  refine keeps_of_ends fun w h => ?_
  simp only [pollAndMaybeHeal, ends_bind, ends_read]
  rcases hqueue : w.monitor with _ | ⟨⟨i, host⟩, rest⟩
  · exact h
  simp only [pollInstance, ends_bind, ends_update, ends_getDb]
  have hpoll := hC.onPoll h hqueue
  change Ends (({ w with monitor := rest } : World).poll o i host) _ _
  generalize ({ w with monitor := rest } : World).poll o i host = res at hpoll ⊢
  obtain ⟨e | due, v⟩ := res
  · exact hpoll
  rcases due with _ | _
  · exact hpoll
  rw [ends_ok]
  dsimp only at hpoll ⊢
  rcases v.db.healthCheck with _ | hc
  · exact hpoll
  · exact hC.keeps_heal.ends hpoll

theorem keeps_healUnhealthy : Keeps (G F .nothing) (healUnhealthy o) := by
  refine keeps_bind keeps_getDb fun db => ?_
  cases db.healthCheck with
  | none => exact keeps_pure _
  | some hc => exact keeps_each fun i _ => hC.keeps_heal

theorem keeps_tickGuard {m : M Unit} (hm : Keeps (G F .nothing) m) : Keeps (G F .nothing) (tickGuard m) := by
  refine keeps_bind (keeps_attempt hm) fun res => ?_
  rcases res with e | u
  · exact keeps_update fun _ h => hC.onDrop h
  · exact keeps_pure _

/-! ## Routes -/

/-- A route: what its setup establishes has to last until the task runs. -/
theorem keeps_underLock {operation : String} {start : M DeploymentId}
    {run : DeploymentId → Time → M Unit} {S : DeploymentId → World → Prop}
    (hstart : ∀ w, G F .nothing w → Ends (start w) S (fun _ => G F .nothing))
    (hwait : ∀ d w, S d w → S d (w.suspend o))
    (hrun : ∀ d token w, S d w → G F .nothing (run d token w).2) :
    Keeps (G F .nothing) (underLock o operation start run) := by
  refine keeps_bind (hC.quiet.keeps_acquire _) fun token => keeps_of_ends fun w h => ?_
  rw [ends_bind, ends_attempt]
  refine (hstart w h).mono (fun d w' h' => ends_of_state (hrun d token _ (hwait d w' h')))
    (fun e w' h' => ?_)
  exact (keeps_bind (keeps_ite (fun _ => hC.quiet.keeps_release _) fun _ =>
    keeps_pure _) fun _ => keeps_raise _).ends h'

/-- A route whose setup leaves nothing to remember. -/
theorem keeps_route {operation : String} {start : M DeploymentId}
    {body : DeploymentId → Deployment → M Unit} (hstart : Keeps (G F .nothing) start)
    (hbody : ∀ d dep, Keeps (G F .nothing) (body d dep)) :
    Keeps (G F .nothing) (underLock o operation start (withDeployment body)) :=
  hC.keeps_underLock (S := fun _ => G F .nothing) (fun _ h => hstart.ends h) (fun _ _ h => hC.onSuspend h)
    fun d token w h => hC.quiet.keeps_withDeployment (hbody d) token w h

/-! ## The first deployment -/

theorem openDeployment_lodging (h : G (.lodged r :: F) (.pending r) w) :
    Ends (openDeployment r i w) (Lodging G F) (fun _ => G F .nothing) := by
  have hkeeps : Keeps (G (.lodged r :: F) (.pending r)) (openDeployment r i) :=
    keeps_bind (hC.quiet.keeps_insertDeployment _ _ _) fun _ =>
      keeps_bind (hC.quiet.keeps_modifyInstance i fun _ => by rfl) fun _ =>
      keeps_bind (hC.quiet.keeps_transitionDeployment _ _) fun _ =>
      keeps_bind hC.quiet.keeps_commit fun _ => keeps_pure _
  exact ((hkeeps.ends h).and openDeployment_row).mono (fun d w' h' => ⟨r, h'.1, h'.2⟩)
    (fun _ _ h' => hC.drop h'.1)

theorem startDeployment_lodging (hS : Shelving G) (hconfig : K.config c) (h : G F .nothing w) :
    Ends (startDeployment o c w) (Lodging G F) (fun _ => G F .nothing) := by
  simp only [startDeployment, ends_bind, ends_getDb, ends_ite, ends_raise]
  refine ⟨fun _ => h, fun _ => ⟨fun _ => h, fun _ => ⟨fun _ => h, fun _ => ?_⟩⟩⟩
  rcases hs : c.serverId with _ | s
  · exact h
  simp only [ends_ite, ends_raise]
  refine ⟨fun _ => h, fun _ => ⟨fun _ => h, fun _ => ⟨fun _ => hC.quiet.onEmit w _ rfl h, fun _ => ?_⟩⟩⟩
  have hrel := hS.onInsert h
  refine Ends.bind (m := insertRelease) (insertRelease_spec w) ?_ (fun _ _ h' => False.elim h')
  rintro r w1 ⟨rfl, rfl⟩
  refine (hC.allocateFirst _ _ hrel (hC.target hconfig hs) (mem_cons_of_mem _ mem_cons_self)).bind
    (fun i w2 h2 => ?_) (fun _ _ h' => hC.drop (hC.drop h'))
  refine hC.openDeployment_lodging (hC.mono h2 fun f hf => ?_)
  simp only [mem_cons] at hf ⊢
  tauto

theorem leaves_deploymentBody (hS : Shelving G) (hlodged : .lodged dep.releaseId ∈ F) :
    Leaves G F (.pending dep.releaseId) (deploymentBody o d dep) := by
  intro w h
  refine Ends.state (P := G F .nothing) ?_
  rw [deploymentBody, ends_bind, ends_getDb]
  rcases w.db.releases.row dep.releaseId with _ | rel
  · exact hC.forget h
  rcases hhead : (w.db.instances.select fun i => i.releaseId == some dep.releaseId).head? with _ | i
  · exact hC.forget h
  obtain ⟨inst, hrow, hr⟩ := Table.mem_select.1 (mem_of_mem_head? hhead)
  refine ends_of_state (hC.drop (hC.leaves_config (fun c hconfig => hC.leaves_instance fun inst => ?_) w
    (hC.pick h hlodged hrow (beq_iff_eq.1 hr))))
  have hmem : Fact.owned i ∈ .on i inst.serverId :: .owned i :: F := mem_cons_of_mem _ mem_cons_self
  have hlost : ∀ B, Leaves G (.on i inst.serverId :: .owned i :: F) B
      (do transition i .failed; transitionDeployment d .failed; commit : M Unit) := fun B =>
    hC.leaves_of_keeps (keeps_bind (hC.keeps_of_gains fun _ h => hC.move rfl h) fun _ =>
      hC.quiet.keeps_close d _)
  refine hC.leaves_at_home hmem mem_cons_self fun hs => ?_
  split
  · exact hC.leaves_of_keeps (keeps_bind (hC.quiet.keeps_addLog _ _ _) fun _ => hC.quiet.keeps_close d _)
  refine hC.leaves_bind (hC.keeps_buildRelease (by simp) fun _ => hS.onRelease _ _ _ _) fun built => ?_
  cases built with
  | false => exact hlost _
  | true =>
    refine leaves_then (fun w h => (hC.begin h hmem).state) fun _ => keeps_bind hC.keeps_commit fun _ =>
      keeps_of_ends fun w1 h1 => (hC.onStart _ _ h1 hmem hs hconfig).bind (fun row w2 h2 => ?_)
      (fun _ _ h' => h')
    have hpersist := (persistAgent_spec d row w2).and
      ((hC.quiet.keeps_persistAgentOutcome d row).ends h2)
    refine hpersist.bind (fun startOk w3 h3 => ?_) (fun _ _ h' => hC.forget h'.2)
    obtain ⟨⟨rfl, -⟩, h3⟩ := h3
    rcases hok : row.ok with _ | _
    · exact ends_of_state (hlost _ w3 h3)
    rw [hok] at h3
    exact ends_of_state (leaves_then (hC.leaves_confirm .start hmem) (fun _ =>
      keeps_bind (hC.quiet.keeps_transitionDeployment d _) fun _ => keeps_bind (hS.onActive _ _) fun _ =>
      keeps_ite (fun _ => hC.keeps_syncGatewayStep) fun _ => keeps_pure _) w3 h3)

theorem lodging_suspend (h : Lodging G F d w) : Lodging G F d (w.suspend o) := by
  obtain ⟨r, hgood, hdep⟩ := h
  refine ⟨r, hC.onSuspend hgood, fun dep hrow => hdep dep ?_⟩
  have hcore := congrArg (fun k => k.deployments.row d) (calm_suspend o w).core
  exact hcore.symm.trans hrow

theorem lodging_run (hS : Shelving G) {token : Time} (h : Lodging G F d w) :
    G F .nothing (runDeployment o d token w).2 := by
  obtain ⟨r, hgood, hdep⟩ := h
  refine Ends.state (P := G F .nothing) ?_
  simp only [runDeployment, withDeployment, ends_bind, ends_getDb]
  cases hrow : w.db.deployments.row d with
  | none => exact hC.drop hgood
  | some dep =>
    obtain rfl := hdep dep hrow
    have hbody := hC.leaves_deploymentBody (d := d) hS mem_cons_self w hgood
    have hunlock := (hC.quiet (F := .lodged dep.releaseId :: F) (B := .nothing)).keeps_release token
    refine ends_releaseFinally.2 ((ends_of_state hbody).mono (fun _ u h' => hC.drop (hunlock u h')) fun _ u h' => ?_)
    exact hC.drop (released_of h' (hunlock u h'))

theorem keeps_deploy (hS : Shelving G) : Keeps (G F .nothing) (deployApplication o) :=
  hC.keeps_config fun _ hconfig => hC.keeps_underLock (fun _ h => hC.startDeployment_lodging hS hconfig h)
    (fun _ _ h => hC.lodging_suspend h) (fun _ _ _ h => hC.lodging_run hS h)

/-! ## Operations -/

theorem keeps_startNewRelease (hS : Shelving G) : Keeps (G F .nothing) startNewRelease :=
  keeps_bind keeps_requireAgent fun _ => keeps_bind keeps_getDb fun _ =>
    keeps_ite (fun _ => keeps_raise _) fun _ =>
    keeps_bind (hC.keeps_insertRelease hS) fun _ => hC.quiet.keeps_openSwitch _ _ _

theorem keeps_run (hS : Shelving G) (hdelete : ∀ F rs, Keeps (G F .nothing) (flushDeletes rs)) {op : Op}
    (hupdate : ∀ c, op = .update c → K.config c)
    (hstop : ∀ i, op = .stop i →
      (∀ F, .owned i ∈ F → Keeps (G F .nothing) (transition i .stopped)) ∨ o.candid i) :
    Keeps (G F .nothing) (op.run o) := by
  cases op with
  | deploy => exact hC.keeps_deploy hS
  | scale target => exact hC.keeps_route (hC.quiet.keeps_startScale _) fun _ _ => hC.keeps_scaleBody
  | release =>
    exact hC.keeps_config fun _ _ =>
      hC.keeps_route (hC.keeps_startNewRelease hS) fun _ _ => hC.keeps_switchBody hS hdelete
  | rollback target =>
    exact hC.keeps_route (hC.quiet.keeps_startRollback _) fun _ _ => hC.keeps_switchBody hS hdelete
  | restart i => exact hC.keeps_restartInstance
  | stop i => exact hC.keeps_stopInstance (hstop i rfl)
  | update c => exact keeps_update fun _ h => hC.onUpdate (hupdate c rfl) h
  | agentSeen s status => exact hC.quiet.keeps_agentSeen s status
  | tickBegin => exact keeps_update fun _ h => hC.onTickBegin h
  | tickPoll => exact hC.keeps_tickGuard hC.keeps_pollAndMaybeHeal
  | tickHeal => exact hC.keeps_tickGuard hC.keeps_healUnhealthy

end Course

end Healer
