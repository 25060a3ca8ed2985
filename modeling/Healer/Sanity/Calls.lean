import Healer.Sanity.World
import Healer.Spec.Release

/-! One specification for each call that the operations are made of. Callers use
these and never unfold the call. -/

namespace Healer

open Prog

section Primitives

variable {α : Type} {w : World} {E : Exn → World → Prop} {Q : Unit → World → Prop} {i : InstanceId}

@[simp] theorem ends_emit {e : Event} :
    Ends (emit e w) Q E ↔ Q () (w.emit e) := Iff.rfl

@[simp] theorem ends_commit :
    Ends (commit w) Q E ↔ Q () (w.emit .commit) := Iff.rfl

@[simp] theorem ends_suspend {o : Oracle} :
    Ends (suspend o w) Q E ↔ Q () (w.suspend o) := Iff.rfl

@[simp] theorem ends_getDb {Q : Db → World → Prop} : Ends (getDb w) Q E ↔ Q w.db w := Iff.rfl

@[simp] theorem ends_modifyDb {f : Db → Db} :
    Ends (modifyDb f w) Q E ↔ Q () (w.setDb (f w.db)) := Iff.rfl

@[simp] theorem ends_now {Q : Time → World → Prop} : Ends (now w) Q E ↔ Q w.clock w := Iff.rfl

@[simp] theorem ends_modifyInstance {f : Instance → Instance}
    : Ends (modifyInstance i f w) Q E ↔
      Q () (w.setDb { w.db with instances := w.db.instances.modify i f }) := Iff.rfl

@[simp] theorem ends_modifyRelease {r : ReleaseId} {f : Release → Release}
    : Ends (modifyRelease r f w) Q E ↔
      Q () (w.setDb { w.db with releases := w.db.releases.modify r f }) := Iff.rfl

theorem ends_getInstance {inst : Instance} {Q : Instance → World → Prop}
    (h : w.db.instances.row i = some inst) : Ends (getInstance i w) Q E ↔ Q inst w := by
  simp [getInstance, h]

theorem ends_getRelease {r : ReleaseId} {rel : Release} {Q : Release → World → Prop}
    (h : w.db.releases.row r = some rel) : Ends (getRelease r w) Q E ↔ Q rel w := by
  simp [getRelease, h]

theorem ends_config {c : HealerYaml} {Q : HealerYaml → World → Prop}
    (h : w.db.application.config = some c) : Ends (configFromApplication w) Q E ↔ Q c w := by
  simp [configFromApplication, h]

theorem ends_probeOnce {o : Oracle} {k : ℕ} {Q : Option ℕ → World → Prop}
    (hQ : ∀ answer, Q answer w) (hE : ∀ error, E (.probeRaised error) (w.emit (.probeRaised i))) :
    Ends (probeOnce o i k w) Q E := by
  unfold probeOnce
  rcases o.probe i k with error | answer
  · exact hE error
  · exact hQ answer

end Primitives

/-! ## The lock at the end of a run -/

def World.unlock (w : World) (token : Time) : World :=
  (w.setDb { w.db with application := w.db.application.release token }).emit .commit

/-- What the `finally` of an operation leaves when `e` is on its way. -/
def World.released (w : World) (token : Time) (e : Exn) : World :=
  if e = .databaseError then w else w.unlock token

section Release

variable {m : M Unit} {token : Time} {w : World} {e : Exn}

theorem released_of {P : World → Prop} (h : P w) (hunlock : P (w.unlock token)) : P (w.released token e) := by
  unfold World.released
  split
  · exact h
  · exact hunlock

theorem ends_releaseFinally {Q : Unit → World → Prop} {E : Exn → World → Prop} :
    Ends (LockService.releaseFinally m token w) Q E ↔
      Ends (m w) (fun _ w' => Q () (w'.unlock token)) (fun e w' => E e (w'.released token e)) := by
  unfold LockService.releaseFinally World.released
  rw [ends_bind, ends_attempt]
  rcases m w with ⟨e | _, w'⟩
  · cases e <;> rfl
  · rfl

theorem keeps_releaseFinally {P : World → Prop} (hm : Keeps P m)
    (hrelease : Keeps P (LockService.release token)) :
    Keeps P (LockService.releaseFinally m token) :=
  keeps_of_ends fun _ hw => ends_releaseFinally.2
    ((hm.ends hw).mono (fun _ _ h => hrelease _ h) fun _ _ h => released_of h (hrelease _ h))

end Release

/-! ## Logs and outcomes -/

theorem addLog_spec (d : DeploymentId) (level : LogLevel) (message : String) (w : World) :
    Ends (addLog d level message w) (fun _ => Calm w) (fun _ _ => False) :=
  calm_setDb rfl rfl

theorem log_spec (d : DeploymentId) (level : LogLevel) (message : String) (w : World) :
    Ends (log d level message w) (fun _ => Calm w) (fun _ _ => False) := by
  refine Ends.bind (addLog_spec d level message w) (fun _ w' h => ?_) (fun _ _ h => h)
  exact h.then (calm_commit w')

theorem persistSteps_spec (d : DeploymentId) (stepTag : String) (steps : List CommandStep) (w : World) :
    Ends (Prog.each (persistStep d stepTag) steps w) (fun _ => Calm w) (fun _ _ => False) := by
  refine ends_each (I := fun _ => Calm w) (fun step _ s h => ?_) steps w (Calm.refl w)
  exact h.then (calm_setDb rfl rfl)

/-- The outcome of a command is the success of its row, whatever is written down. -/
theorem persistOutcome_spec (d : DeploymentId) (tag stepTag : String) {save : M Unit}
    (hsave : ∀ w, Ends (save w) (fun _ => Calm w) (fun _ _ => False)) (c : AgentCommand) (w : World) :
    Ends (persistOutcome d tag stepTag save c w) (fun b w' => b = c.ok ∧ Calm w w')
      (fun _ _ => False) := by
  have hlog : ∀ (message : String), c.ok = false →
      Ends ((do addLog d .error message; save; pure false : M Bool) w)
        (fun b w' => b = c.ok ∧ Calm w w') (fun _ _ => False) := by
    intro message hok
    refine Ends.bind (addLog_spec d .error message w) (fun _ w1 h1 => ?_) (fun _ _ h => h)
    refine Ends.bind (hsave w1) (fun _ w2 h2 => ?_) (fun _ _ h => h)
    exact ⟨hok.symm, h1.then h2⟩
  unfold persistOutcome
  rw [ends_ite]
  refine ⟨fun hst => hlog _ ?_, fun hst => ?_⟩
  · simp only [Bool.not_eq_true', Bool.or_eq_false_iff] at hst
    simp [AgentCommand.ok, hst]
  rw [ends_ite]
  refine ⟨fun herr => hlog _ ?_, fun herr => ?_⟩
  · simp [AgentCommand.ok, herr]
  refine Ends.bind (persistSteps_spec d stepTag _ w) (fun _ w1 h1 => ?_) (fun _ _ h => h)
  refine Ends.bind (hsave w1) (fun _ w2 h2 => ?_) (fun _ _ h => h)
  refine ⟨?_, h1.then h2⟩
  have hst' : (c.status == .succeeded || c.status == .failed) = true := by
    simpa only [Bool.not_eq_true', Bool.not_eq_false] using hst
  simp only [Bool.not_eq_true] at herr
  simp only [AgentCommand.ok, hst', herr, Bool.not_false, Bool.true_and]

theorem persistInstance_spec (d : DeploymentId) (c : AgentCommand) (port : ℕ) (w : World) :
    Ends (persistInstanceCommandOutcome d c port w) (fun b w' => b = c.ok ∧ Calm w w')
      (fun _ _ => False) :=
  persistOutcome_spec d _ _ (fun w => (ends_commit (E := fun _ _ => False)).2 (calm_commit w)) c w

theorem persistAgent_spec (d : DeploymentId) (c : AgentCommand) (w : World) :
    Ends (persistAgentOutcome d c w) (fun b w' => b = c.ok ∧ Calm w w') (fun _ _ => False) :=
  persistOutcome_spec d _ _ (fun w => (ends_pure ()).2 (Calm.refl w)) c w

/-! ## Commands -/

/-- What one command leaves in the trace: its submission with the rows and routes of
`w`, and `reply`. -/
def Asking (agent : ServerId) (key : CommandKey) (command : Command) (reply : Event) (w : World)
    (e : Entry) : Prop :=
  e.background ∨ e = ⟨.submitted agent key command, w.db, w.gateway.routed⟩ ∨ e.event = reply

structure Asked (agent : ServerId) (key : CommandKey) (command : Command) (reply : Event)
    (w w' : World) : Prop where
  went : Went (Asking agent key command reply w) w.core w w'
  submitted : Event.submitted agent key command ∈ w'.events
  replied : reply ∈ w'.events

theorem submit_spec (o : Oracle) (agent : ServerId) (key : CommandKey) (command : Command) (w : World) :
    Ends (submitCommandAndWait o agent key command w)
      (fun row w' => o.reply key = .row row ∧ Asked agent key command (.answered key row) w w')
      (fun e w' => ∃ error, e = .sendFailed key error ∧ o.reply key = .sendFailed error ∧
        Asked agent key command (.sendFailed key) w w') := by
  set u := (w.emit .commit).emit (.submitted agent key command) with hu
  have hcalm : Calm u (u.suspend o) := calm_suspend o u
  have hasked : ∀ reply : Event, Asked agent key command reply w ((u.suspend o).emit reply) := by
    intro reply
    have hsub : Event.submitted agent key command ∈ u.events := by simp [hu]
    have hsent : Went (Asking agent key command reply w) w.core w u := by
      have hcommit := (calm_commit w).news.mono (Q := Asking agent key command reply w) fun _ => .inl
      exact ⟨rfl, hcommit.trans (news_emit (.inr (.inl rfl))), fun _ => rfl⟩
    have hwait := hsent.calm hcalm fun _ he => .inl he
    refine ⟨⟨hwait.core, hwait.news.trans (news_emit (.inr (.inr rfl))), hwait.still⟩, ?_, ?_⟩
    · rw [emit_events]
      exact List.mem_append_left _ (hcalm.news.mem hsub)
    · simp
  simp only [submitCommandAndWait, ends_bind, ends_commit, ends_emit, ends_suspend, ← hu]
  cases hr : o.reply key with
  | row c => exact ⟨rfl, hasked _⟩
  | sendFailed error => exact ⟨error, rfl, rfl, hasked _⟩

end Healer
