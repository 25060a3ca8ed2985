import Healer.Sanity.Quiet
import Healer.Sanity.Steps

/-! Properties of the trace that most entries cannot break. A program keeps such a property when
the entries it adds are among them, whatever else it writes. -/

namespace Healer

open Prog

/-- Neither a status change of an instance, nor a command or its answer, nor a sync. -/
def Event.plain : Event → Bool
  | .instanceTransition _ _ _ | .submitted _ _ _ | .answered _ _ | .sync _ => false
  | _ => true

/-- Every plain entry is in `Q`, and entries in `Q` do not break `P`. -/
structure Deaf (Q : Entry → Prop) (P : World → Prop) : Prop where
  plain : ∀ e : Entry, e.event.plain = true → Q e
  news : ∀ w w', News Q w w' → P w → P w'

namespace Deaf

variable {Q : Entry → Prop} {P : World → Prop} {o : Oracle}

theorem background (hP : Deaf Q P) {e : Entry} (h : e.background) : Q e := by
  refine hP.plain e ?_
  obtain ⟨event, db, routed⟩ := e
  cases event <;> first | rfl | exact False.elim h

theorem calm (hP : Deaf Q P) {w w' : World} (h : Calm w w') (hw : P w) : P w' :=
  hP.news w w' (h.news.mono fun _ => hP.background) hw

/-! ## Writes -/

theorem keeps_emit (hP : Deaf Q P) {e : Event} (he : ∀ db routed, Q ⟨e, db, routed⟩) : Keeps P (emit e) :=
  keeps_update fun w hw => hP.news w _ (news_emit (he _ _)) hw

theorem keeps_commit (hP : Deaf Q P) : Keeps P commit := hP.keeps_emit fun _ _ => hP.plain _ rfl

theorem keeps_modifyDb (hP : Deaf Q P) {f : Db → Db} (hf : ∀ db, (f db).healthCheck = db.healthCheck) :
    Keeps P (modifyDb f) :=
  keeps_update fun w hw => hP.news w _ (news_setDb (hf w.db)) hw

theorem keeps_modifyInstance (hP : Deaf Q P) (i : InstanceId) (f : Instance → Instance) :
    Keeps P (modifyInstance i f) :=
  hP.keeps_modifyDb fun _ => rfl

theorem keeps_transition (hP : Deaf Q P) {i : InstanceId} {target : InstanceStatus}
    (ht : ∀ current db routed, Q ⟨.instanceTransition i current target, db, routed⟩) :
    Keeps P (transition i target) :=
  keeps_transition_of (fun current => hP.keeps_emit (ht current)) (hP.keeps_modifyDb fun _ => rfl)

theorem keeps_transitionDeployment (hP : Deaf Q P) (d : DeploymentId) (target : DeploymentStatus) :
    Keeps P (transitionDeployment d target) := by
  refine keeps_bind (keeps_read _) fun db => ?_
  cases db.deployments.row d with
  | none => exact keeps_raise _
  | some dep =>
    refine keeps_bind (hP.keeps_emit fun _ _ => hP.plain _ rfl) fun _ => ?_
    exact keeps_ite (fun _ => hP.keeps_modifyDb fun _ => rfl) (fun _ => keeps_raise _)

theorem keeps_close (hP : Deaf Q P) (d : DeploymentId) (target : DeploymentStatus) :
    Keeps P (do transitionDeployment d target; commit : M Unit) :=
  keeps_bind (hP.keeps_transitionDeployment d target) fun _ => hP.keeps_commit

/-! ## Calls -/

theorem keeps_log (hP : Deaf Q P) (d : DeploymentId) (level : LogLevel) (message : String) :
    Keeps P (log d level message) :=
  keeps_bind (hP.keeps_modifyDb fun _ => by rfl) fun _ => hP.keeps_commit

theorem keeps_log_close (hP : Deaf Q P) (d : DeploymentId) (message : String) (target : DeploymentStatus) :
    Keeps P (do log d .error message; transitionDeployment d target; commit : M Unit) :=
  keeps_bind (hP.keeps_log d .error message) fun _ => hP.keeps_close d target

theorem keeps_submit (hP : Deaf Q P) {agent : ServerId} {key : CommandKey} {command : Command}
    (hsubmitted : ∀ db routed, Q ⟨.submitted agent key command, db, routed⟩)
    (hanswered : ∀ row db routed, Q ⟨.answered key row, db, routed⟩) :
    Keeps P (submitCommandAndWait o agent key command) :=
  keeps_submit_of hP.keeps_commit (hP.keeps_emit hsubmitted) (fun w hw => hP.calm (calm_suspend o w) hw)
    (fun row => hP.keeps_emit (hanswered row)) (hP.keeps_emit fun _ _ => hP.plain _ rfl)

end Deaf

end Healer
