import Healer.Sanity.HomeHealing
import Healer.Sanity.Sample

/-! Commands and probes reach the machine an instance is on, in every history that moves
the application only when it has no live instance. -/

namespace Healer

open List Sample

open Prog (Ends Keeps)

/-- An application as `create_application` leaves it. -/
structure World.Created (w : World) : Prop where
  config : ∀ c, w.db.application.config = some c → c.serverId = w.db.application.serverId
  instances : ∀ i, w.db.instances.row i = none
  trace : w.trace = []
  monitor : w.monitor = []

/-- An update keeps the server and the adapter, or finds no live instance. -/
def Op.safe (w : World) : Op → Prop
  | .update c => c.serverId = w.home.server ∧ w.home.adapter = some c.adapter ∨
      ∀ i inst, w.db.instances.row i = some inst → inst.status.terminal = true
  | _ => True

/-- No update that lands during an operation moves the application, and none between
operations moves it away from a live instance. -/
def World.Unmoved (w : World) : List (Oracle × Op) → Prop
  | [] => True
  | (o, op) :: rest => o.steady w.home ∧ op.safe w ∧ (op.run o w).2.Unmoved rest

section Histories

variable {w : World} {o : Oracle} {op : Op} {c : HealerYaml}

theorem World.Created.housed (h : w.Created) : Housed w.home w := by
  refine ⟨rfl, fun t ht => ?_, fun i inst hrow => ?_, fun x hx => ?_, fun i inst r hrow => ?_, fun q hq => ?_,
    ?_⟩
  · obtain ⟨c, hc, rfl⟩ := Option.map_eq_some_iff.1 ht
    exact h.config c hc
  · rw [h.instances i] at hrow
    cases hrow
  · rw [h.trace] at hx
    exact absurd hx not_mem_nil
  · rw [h.instances i] at hrow
    cases hrow
  · rw [h.monitor] at hq
    exact absurd hq not_mem_nil
  · rw [h.trace]
    exact Trace.always_nil _

/-- Without live instances the application may move anywhere: the hosts stay what they are,
and whatever is started from here on is started at the new place. -/
theorem Housed.move (h : Housed w.home w)
    (hdead : ∀ i inst, w.db.instances.row i = some inst → inst.status.terminal = true) :
    Housed ((Background.update c).run o w).home ((Background.update c).run o w) := by
  have hrun : (Background.update c).run o w = (w.setDb (w.db.updateApplication c)).emit (.updated c) := rfl
  have hstart : ∀ x ∈ ((Background.update c).run o w).trace, ∀ i a, x.event.isStart i a → x ∈ w.trace := by
    intro x hx i a hs
    rw [hrun, emit_trace, mem_append, mem_singleton] at hx
    rcases hx with hx | rfl
    · exact hx
    · exact False.elim hs
  refine ⟨rfl, fun t ht => ?_, fun i inst hrow hst => ?_, fun x hx i a hs => ?_, h.linked, h.queue, ?_⟩
  · cases ht
    rfl
  · rw [hdead i inst hrow] at hst
    cases hst
  · exact h.fresh x (hstart x hx i a hs) i a hs
  · rw [hrun, emit_trace]
    refine Trace.always_snoc.2 ⟨h.safe, ?_, ?_⟩
    · intro agent key cmd i a hev
      cases hev
    · intro i host port healthy hev
      cases hev

theorem Housed.run (h : Housed w.home w) (hsteady : o.steady w.home) (hop : op.steady w.home) :
    Housed (op.run o w).2.home (op.run o w).2 := by
  have hgood : Good w.home [] (op.run o w).2 :=
    keeps_run hsteady hop w ⟨h, fun f hf => absurd hf not_mem_nil⟩
  rw [hgood.housed.home]
  exact hgood.housed

theorem Housed.step (h : Housed w.home w) (hsteady : o.steady w.home) (hop : op.safe w) :
    Housed (op.run o w).2.home (op.run o w).2 := by
  cases op with
  | update c =>
    rcases hop with hsame | hdead
    · exact h.run hsteady hsame
    · exact h.move (o := o) hdead
  | _ => exact h.run hsteady trivial

theorem Housed.history (ops : List (Oracle × Op)) :
    ∀ w : World, Housed w.home w → w.Unmoved ops → Housed (w.history ops).home (w.history ops) := by
  induction ops with
  | nil => intro w h _; exact h
  | cons step rest ih =>
    intro w h hops
    exact ih _ (h.step hops.1 hops.2.1) hops.2.2

end Histories

/-- In every history of a new application in which no update takes the server or the adapter
away from a live instance or a running operation, each command for an instance goes to the
agent of its own server with the adapter it was started with, and each probe to the host of
its own server. -/
theorem commands_reach_own_server (w : World) (ops : List (Oracle × Op)) (hw : w.Created)
    (hops : w.Unmoved ops) : Trace.Always RightPlace (w.history ops).trace :=
  (Housed.history ops w hw.housed hops).safe

/-- The application moves to the other server after its only instance was stopped. -/
theorem commands_reach_own_server_sample :
    createdBeside.Created ∧
      Trace.Always RightPlace (createdBeside.history
        [(allWell, .deploy), (allWell, .stop 0), (allWell, .update Sample.onSpare),
          (allWell, .scale 1)]).trace := by
  have hcreated : createdBeside.Created :=
    ⟨fun c hc => by cases hc; rfl, fun _ => rfl, rfl, rfl⟩
  have hsteady : ∀ H, allWell.steady H := fun H n c hc => absurd hc not_mem_nil
  set w := createdBeside.history [(allWell, .deploy), (allWell, .stop 0)] with hw
  have hdead : ∀ i < w.db.instances.next,
      ((w.db.instances.row i).all fun inst => inst.status.terminal) = true := by decide +kernel
  refine ⟨hcreated, commands_reach_own_server _ _ hcreated
    ⟨hsteady _, trivial, hsteady _, trivial, hsteady _, Or.inr fun i inst hrow => ?_, hsteady _, trivial,
      trivial⟩⟩
  have hi := hdead i (Table.lt_of_row hrow)
  rw [show w.db.instances.row i = some inst from hrow] at hi
  exact hi

section Astray

variable {l : List Entry} {e : Entry} {i : InstanceId} {a : Adapter}

/-- A command that another server's agent gets, or a probe of another server's host. -/
def Entry.astray (e : Entry) : Bool :=
  match e.event with
  | .submitted agent _ cmd => cmd.aim.any fun q =>
      (e.db.instances.row q.1).any fun inst => inst.serverId != agent
  | .probe i host _ _ => (e.db.instances.row i).any fun inst =>
      (e.db.servers inst.serverId).map Server.hostname != some host
  | _ => false

theorem not_rightPlace_of_astray {pre : List Entry} (h : e.astray = true) : ¬ RightPlace pre e := by
  intro hright
  unfold Entry.astray at h
  split at h
  · rename_i agent key cmd hev
    cases haim : cmd.aim with
    | none => simp [haim] at h
    | some q =>
      obtain ⟨⟨inst, hinst, hs⟩, -⟩ := hright.command agent key cmd q.1 q.2 hev haim
      simp [haim, hinst, hs] at h
  · rename_i j host port healthy hev
    obtain ⟨inst, hinst, hhost⟩ := hright.probe j host port healthy hev
    rw [hinst] at h
    simp [hhost] at h
  · cases h

/-- A start of the instance with adapter `a`. -/
def Entry.starts (i : InstanceId) (a : Adapter) (e : Entry) : Bool :=
  match e.event with
  | .submitted _ _ (.startInstance j p) => j == i && p.adapter == a
  | _ => false

/-- A command for the instance with an adapter other than `a`. -/
def Entry.foreign (i : InstanceId) (a : Adapter) (e : Entry) : Bool :=
  match e.event with
  | .submitted _ _ cmd => cmd.aim.any fun q => q.1 == i && q.2 != a
  | _ => false

theorem not_always_of_astray (h : l.any Entry.astray = true) : ¬ Trace.Always RightPlace l := by
  intro hall
  obtain ⟨e, he, hastray⟩ := any_eq_true.1 h
  obtain ⟨pre, post, hl⟩ := append_of_mem he
  exact not_rightPlace_of_astray hastray (hall pre e post hl)

theorem isStart_of_starts (h : e.starts i a = true) : e.event.isStart i a := by
  unfold Entry.starts at h
  split at h
  · rename_i hev
    rw [hev]
    simpa [Event.isStart] using h
  · cases h

/-- The instance is started with adapter `a` among the first `n` entries and addressed with
another one later. -/
theorem not_always_of_foreign (n : ℕ) (hstart : (l.take n).any (Entry.starts i a) = true)
    (hforeign : (l.drop n).any (Entry.foreign i a) = true) : ¬ Trace.Always RightPlace l := by
  intro hall
  obtain ⟨x, hx, hxs⟩ := any_eq_true.1 hstart
  obtain ⟨e, he, hef⟩ := any_eq_true.1 hforeign
  obtain ⟨pre, post, hdrop⟩ := append_of_mem he
  have hl : l = (l.take n ++ pre) ++ e :: post := by
    rw [append_assoc, ← hdrop, take_append_drop]
  have hright := hall _ e post hl
  unfold Entry.foreign at hef
  split at hef
  · rename_i agent key cmd hev
    cases haim : cmd.aim with
    | none => simp [haim] at hef
    | some q =>
      obtain ⟨j, b⟩ := q
      simp only [haim, Option.any_some, Bool.and_eq_true, beq_iff_eq, bne_iff_ne] at hef
      obtain ⟨rfl, hb⟩ := hef
      have heq := (hright.command agent key cmd j b hev haim).2 x (mem_append_left _ hx) a
        (isStart_of_starts hxs)
      exact hb heq.symm
  · cases hef

end Astray

/-- Once an update has moved a running application, scaling down stops an instance of server
0 through the agent of server 1, the monitor probes it at the other host, and a manual stop
goes out with an adapter it was not started with. -/
theorem moved_application_commands_astray :
    ¬ Trace.Always RightPlace (createdBeside.history
        [(allWell, .deploy), (allWell, .scale 2), (allWell, .update Sample.onSpare),
          (allWell, .scale 1)]).trace ∧
      ¬ Trace.Always RightPlace (createdBeside.history
        [(allWell, .deploy), (allWell, .update Sample.onSpare),
          (allWell, .tickBegin), (allWell, .tickPoll)]).trace ∧
      ¬ Trace.Always RightPlace (createdBeside.history
        [(allWell, .deploy), (allWell, .update Sample.onDocker),
          (allWell, .stop 0)]).trace :=
  ⟨not_always_of_astray (by decide +kernel), not_always_of_astray (by decide +kernel),
    not_always_of_foreign (i := 0) (a := .windowsWaitressService) 20 (by decide +kernel)
      (by decide +kernel)⟩

end Healer
