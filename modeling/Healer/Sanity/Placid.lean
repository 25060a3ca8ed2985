import Healer.Sanity.Quiet

/-! Most of what an operation does touches neither the releases nor the active release. Such a
program keeps every property that the other writes and the events cannot break. -/

namespace Healer

open Prog

/-- The releases and which of them is active. -/
structure Shelf where
  releases : Table Release
  active : Option ReleaseId

def Db.shelf (db : Db) : Shelf := ⟨db.releases, db.application.activeReleaseId⟩

def Event.isStop : Event → Bool
  | .submitted _ _ (.stopInstance _ _) => true
  | _ => false

/-- A property which neither a write beside the shelf nor an event other than a stop can break. -/
structure Placid (P : World → Prop) : Prop where
  onSetDb : ∀ w db, db.shelf = w.db.shelf → P w → P (w.setDb db)
  onEmit : ∀ w e, e.isStop = false → P w → P (w.emit e)

namespace Placid

variable {P : World → Prop}

theorem keeps_emit (hP : Placid P) {e : Event} (he : e.isStop = false) : Keeps P (emit e) :=
  keeps_update fun w hw => hP.onEmit w e he hw

theorem quiet (hP : Placid P) : Quiet P where
  onEmit w e he := hP.onEmit w e (by
    cases e with
    | submitted => cases he
    | _ => rfl)
  onWrite w db hdb := hP.onSetDb w db (congrArg (fun q : Outline => Shelf.mk q.releases q.active) hdb)

theorem keeps_commit (hP : Placid P) : Keeps P commit := hP.keeps_emit rfl

theorem keeps_modifyDb (hP : Placid P) {f : Db → Db} (hf : ∀ db, (f db).shelf = db.shelf) :
    Keeps P (modifyDb f) :=
  keeps_update fun w hw => hP.onSetDb w _ (hf w.db) hw

theorem keeps_modifyInstance (hP : Placid P) (i : InstanceId) (f : Instance → Instance) :
    Keeps P (modifyInstance i f) :=
  hP.keeps_modifyDb fun _ => rfl

export Healer (keeps_getInstance keeps_getRelease keeps_configFromApplication keeps_requireActionable)

theorem keeps_transition (hP : Placid P) (i : InstanceId) (target : InstanceStatus) :
    Keeps P (transition i target) :=
  keeps_transition_of (fun _ => hP.keeps_emit rfl) (hP.keeps_modifyInstance i _)

theorem keeps_transitionDeployment (hP : Placid P) : ∀ d target, Keeps P (transitionDeployment d target) :=
  hP.quiet.keeps_transitionDeployment

theorem keeps_close (hP : Placid P) :
    ∀ d target, Keeps P (do transitionDeployment d target; commit : M Unit) :=
  hP.quiet.keeps_close

theorem keeps_addLog (hP : Placid P) : ∀ d level message, Keeps P (addLog d level message) :=
  hP.quiet.keeps_addLog

theorem keeps_log (hP : Placid P) : ∀ d level message, Keeps P (log d level message) := hP.quiet.keeps_log

theorem keeps_persistAgentOutcome (hP : Placid P) : ∀ d row, Keeps P (persistAgentOutcome d row) :=
  hP.quiet.keeps_persistAgentOutcome

theorem keeps_persistInstanceCommandOutcome (hP : Placid P) :
    ∀ d row port, Keeps P (persistInstanceCommandOutcome d row port) :=
  hP.quiet.keeps_persistInstanceCommandOutcome

theorem keeps_acquireForAction (hP : Placid P) : ∀ operation, Keeps P (acquireForAction operation) :=
  hP.quiet.keeps_acquireForAction

theorem keeps_release (hP : Placid P) : ∀ token, Keeps P (LockService.release token) := hP.quiet.keeps_release

end Placid

/-- A property of the shelf and of what the trace shows of it: no event and nothing outside the
rows and the trace can break it. -/
structure Indifferent (P : World → Prop) : Prop extends Placid P where
  onAny : ∀ w e, P w → P (w.emit e)
  onRest : ∀ w w' : World, w'.db = w.db → w'.trace = w.trace → P w → P w'

end Healer
