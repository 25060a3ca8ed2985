import Healer.Sanity.Placid
import Healer.Sanity.Walk

/-! What an operation does beside the releases and the choice of the active one keeps every property
of them. -/

namespace Healer

open Prog

namespace Indifferent

variable {P : World → Prop} {o : Oracle} {d : DeploymentId} {agent : ServerId} {c : HealerYaml}
  {r : ReleaseId} {i : InstanceId} {w : World} {α : Type}

theorem idle (hP : Indifferent P) : Idle P where
  onEmit := hP.onAny
  onRest := hP.onRest
  onWrite w db hdb := hP.onSetDb w db (congrArg (fun q : Track => Shelf.mk q.releases q.active) hdb)

/-- The rows of the instances do not matter to the property. -/
theorem walk (hP : Indifferent P) : Walk o (fun _ _ => True) P where
  toIdle := hP.idle
  found _ := trivial
  known _ _ _ _ _ := trivial
  move hw _ _ _ := hP.onSetDb _ _ rfl hw
  insert hw _ _ := hP.onSetDb _ _ rfl hw

theorem course (hP : Indifferent P) :
    Course o ⟨fun _ => True, fun _ => True, fun _ _ => True⟩ (Underway (fun _ _ => True) P) :=
  course_walk hP.walk

theorem underway {F : List Fact} {w : World} (hw : P w) : Underway (fun _ _ => True) P F .nothing w :=
  ⟨hw, fun _ _ => trivial, trivial⟩

theorem keeps_underway {F : List Fact} {m : M α} (hm : Keeps P m) :
    Keeps (Underway (fun _ _ => True) P F .nothing) m :=
  fun w hw => underway (hm w hw.1)

theorem keeps_of_underway {m : M α} (F : List Fact)
    (hm : Keeps (Underway (fun _ _ => True) P F .nothing) m) : Keeps P m :=
  fun w hw => (hm w (underway hw)).1

/-! ## Calls -/

theorem suspend (hP : Indifferent P) (hw : P w) : P (w.suspend o) := hP.idle.suspend hw

theorem tickBegin (hP : Indifferent P) (hw : P w) : P w.tickBegin := hP.idle.tickBegin hw

theorem update (hP : Indifferent P) (c : HealerYaml) (hw : P w) : P ((Background.update c).run o w) :=
  hP.idle.update c hw

theorem keeps_submit (hP : Indifferent P) :
    ∀ agent key command, Keeps P (submitCommandAndWait o agent key command) :=
  hP.idle.keeps_submit

theorem keeps_submitStart (hP : Indifferent P) :
    ∀ agent key r i c, Keeps P (submitStart o agent key r i c) :=
  hP.idle.keeps_submitStart

theorem keeps_syncGateway (hP : Indifferent P) : Keeps P (syncGateway o) :=
  keeps_of_underway [] hP.course.keeps_syncGateway

theorem keeps_syncGatewayStep (hP : Indifferent P) : Keeps P (syncGatewayStep o d) :=
  keeps_of_underway [] hP.course.keeps_syncGatewayStep

theorem keeps_allocateInstance (hP : Indifferent P) (r : ReleaseId) (s : ServerId) (lo hi : ℕ) :
    Keeps P (allocateInstance o r s lo hi) :=
  keeps_of_ends fun _ hw => (hP.walk.allocate_ends (F := [.known r]) (underway hw)
    List.mem_cons_self).mono (fun _ _ h => h.1.1) (fun _ _ h => h.1)

/-! ## Scale -/

theorem keeps_insertDeployment (hP : Indifferent P) : ∀ r n kind, Keeps P (insertDeployment r n kind) :=
  hP.quiet.keeps_insertDeployment

theorem keeps_scaleBody (hP : Indifferent P) (dep : Deployment) : Keeps P (scaleBody o d dep) :=
  keeps_of_underway [] hP.course.keeps_scaleBody

/-! ## Releases -/

/-- A release is built; what that writes to its row is left to the caller. -/
theorem keeps_buildRelease (hP : Indifferent P) (hr : ∀ f, Keeps P (modifyRelease r f)) :
    Keeps P (buildRelease o d r c agent) :=
  keeps_of_underway [] (hP.course.keeps_buildRelease (by simp) fun f => keeps_underway (hr f))

theorem keeps_fail (hP : Indifferent P)
    (hP' : ∀ r, Keeps P (modifyRelease r fun rel =>
      if rel.status = .ready then rel else { rel with status := .failed })) (reason : String)
    (cleanupRelease : Option ReleaseId) (cleanup : Option (ServerId × HealerYaml × List InstanceId)) :
    Keeps P (fail o d reason cleanupRelease cleanup) := by
  refine keeps_of_underway ((cleanup.map fun q => q.2.2.map Fact.owned).getD [])
    (hP.course.keeps_fail (fun agent c is heq => ?_) fun r _ => keeps_underway (hP' r))
  subst heq
  exact ⟨trivial, trivial, fun i hi => List.mem_map_of_mem hi⟩

theorem keeps_startAndHealthGate (hP : Indifferent P) (dep : Deployment) (s : ServerId) (lo hi : ℕ) :
    Keeps P (startAndHealthGate o d dep c s lo hi) := by
  refine keeps_of_ends fun w hw => ?_
  refine (hP.course.gate_ends (F := [.known dep.releaseId]) trivial trivial List.mem_cons_self
    (underway hw)).mono (fun res _ h => ?_) (fun _ _ h => h.1)
  cases res with
  | none => exact h.1
  | some is => exact h.1

theorem keeps_drainOldRelease (hP : Indifferent P) : Keeps P (drainOldRelease o d agent r c) :=
  keeps_of_underway [] (hP.course.keeps_drainOldRelease trivial trivial)

/-! ## Manual actions and healing -/

theorem keeps_restartInstance (hP : Indifferent P) : Keeps P (restartInstance o i) :=
  keeps_of_underway [] hP.course.keeps_restartInstance

theorem keeps_stopInstance (hP : Indifferent P) : Keeps P (stopInstance o i) :=
  keeps_of_underway [] (hP.course.keeps_stopInstance (Or.inl fun _ _ => keeps_underway (hP.keeps_transition i _)))

theorem keeps_pollAndMaybeHeal (hP : Indifferent P) : Keeps P (pollAndMaybeHeal o) :=
  keeps_of_underway [] hP.course.keeps_pollAndMaybeHeal

theorem keeps_healUnhealthy (hP : Indifferent P) : Keeps P (healUnhealthy o) :=
  keeps_of_underway [] hP.course.keeps_healUnhealthy

theorem keeps_tickGuard (hP : Indifferent P) {m : M Unit} (hm : Keeps P m) : Keeps P (tickGuard m) := by
  refine keeps_bind (keeps_attempt hm) fun outcome => ?_
  cases outcome with
  | ok u => exact keeps_pure ()
  | error e => exact keeps_update fun w hw => hP.onRest w _ (by rfl) (by rfl) hw

/-- A route: what its setup establishes has to last until the task runs. -/
theorem keeps_underLock (hP : Indifferent P) {operation : String} {start : M DeploymentId}
    {run : DeploymentId → Time → M Unit} {S : DeploymentId → World → Prop}
    (hstart : ∀ w, P w → Ends (start w) S (fun _ => P)) (hwait : ∀ d w, S d w → S d (w.suspend o))
    (hrun : ∀ d token w, S d w → P (run d token w).2) : Keeps P (underLock o operation start run) :=
  keeps_of_underway [] (hP.course.keeps_underLock
    (fun w hw => (hstart w hw.1).mono (fun _ _ h => h) (fun _ _ h => underway h)) hwait
    fun d token w hd => underway (hrun d token w hd))

theorem keeps_scaleApplication (hP : Indifferent P) (target : ℕ) : Keeps P (scaleApplication o target) :=
  keeps_of_underway [] (hP.course.keeps_route (keeps_underway (hP.quiet.keeps_startScale target))
    fun _ _ => hP.course.keeps_scaleBody)

end Indifferent

end Healer
