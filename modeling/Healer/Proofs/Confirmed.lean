import Healer.Sanity.Follows
import Healer.Sanity.Sample

/-! Every pipeline asks the agent before it sets an instance to RUNNING or STOPPED, and all but one
read the whole answer. A manual stop takes a succeeded command for a stopped instance, and a failed step
of the agent is a succeeded command whose result says so. -/

namespace Healer

open Sample

open Prog (Ends Keeps)

def Op.candid (o : Oracle) : Op → Prop
  | .stop i => o.candid i
  | _ => True

theorem keeps_op_follows (o : Oracle) (op : Op) (h : op.candid o) : Keeps World.follows (op.run o) := by
  refine (course_inOrder o).keeps_run (F := []) shelving_inOrder (fun F rs w hw => ?_) (fun _ _ => trivial)
    fun i hop => Or.inr ?_
  · exact InOrder.congr (F := F) (B := .nothing) hw rfl
  · subst hop
    exact h

/-- In every history in which manual stops are answered candidly, an instance is set to RUNNING only
when the last command sent for it is a start that finished without an error and with `ok` true, and to
STOPPED only when it is such a stop. -/
theorem status_follows_agent (es : List (Oracle × Op)) :
    ∀ w : World, (∀ x ∈ es, x.2.candid x.1) → Trace.Always FollowsAgent w.trace →
      Trace.Always FollowsAgent (w.history es).trace := by
  induction es with
  | nil => intro w _ hw; exact hw
  | cons x es ih =>
    intro w hcandid hw
    refine ih _ (fun y hy => hcandid y (List.mem_cons_of_mem _ hy)) ?_
    exact keeps_op_follows x.1 x.2 (hcandid x List.mem_cons_self) w hw

/-- An application is deployed, restarted and stopped. -/
theorem status_follows_agent_sample :
    Trace.Always FollowsAgent (created.history
      [(allWell, .deploy), (allWell, .restart 0), (allWell, .stop 0)]).trace := by
  refine status_follows_agent _ _ (fun x hx => ?_) (Trace.always_nil _)
  simp only [List.mem_cons, List.not_mem_nil, or_false] at hx
  obtain rfl | rfl | rfl := hx
  · exact trivial
  · exact trivial
  · intro row hrow _
    cases hrow
    rfl

/-- The agent finishes a manual stop, but a step of it has failed. -/
def stopStepFails : Oracle := { allWell with reply := fun
  | .manualStop _ => .row { Sample.okRow with result := some ⟨false, [], none, none, none⟩ }
  | _ => .row Sample.okRow }

def Event.confirmsStop : Event → Bool
  | .answered (.manualStop _) row | .answered (.stopInstance _) row
  | .answered (.abortStopInstance _) row => row.ok
  | _ => false

/-- The service may still run, and its instance is STOPPED although no stop was ever confirmed. -/
theorem unconfirmed_stop :
    ((created.history [(allWell, .deploy)]).db.instances.row 0).map (·.status) =
        some .running ∧
      ((created.history [(allWell, .deploy), (stopStepFails, .stop 0)]).db.instances.row 0).map
        (·.status) = some .stopped ∧
      (created.history [(allWell, .deploy), (stopStepFails, .stop 0)]).events.any
        Event.confirmsStop = false := by
  refine ⟨?_, ?_, ?_⟩ <;> decide +kernel

end Healer
