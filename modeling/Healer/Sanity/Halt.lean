import Healer.Sanity.Replica

/-! The stop loops. `_stop_instances`, `_drain_old_release` and `_scale_down` send one
stop command per instance and write STOPPED or FAILED; a loop ends early when a send
raises or when the table refuses the write. -/

namespace Healer

open Prog (Ends)

/-- From `k` to `k'` only statuses differ, and only those of instances in `S`. -/
structure Touched (S : InstanceId → Prop) (k k' : Core) : Prop where
  rest : k' = { k with instances := k'.instances }
  next : k'.instances.next = k.instances.next
  other : ∀ j, ¬ S j → k'.instances.row j = k.instances.row j
  row : ∀ j inst', k'.instances.row j = some inst' →
    ∃ inst, k.instances.row j = some inst ∧ inst' = { inst with status := inst'.status }

section Touched

variable {S T : InstanceId → Prop} {a b c k : Core} {i : InstanceId}

theorem Touched.refl (S : InstanceId → Prop) (k : Core) : Touched S k k :=
  ⟨rfl, rfl, fun _ _ => rfl, fun _ inst h => ⟨inst, h, rfl⟩⟩

theorem Touched.trans (h : Touched S a b) (h' : Touched S b c) : Touched S a c := by
  refine ⟨?_, h'.next.trans h.next, fun j hj => (h'.other j hj).trans (h.other j hj), ?_⟩
  · rw [h'.rest, h.rest]
  · intro j inst'' hrow
    obtain ⟨inst', hrow', heq'⟩ := h'.row j inst'' hrow
    obtain ⟨inst, hinst, heq⟩ := h.row j inst' hrow'
    refine ⟨inst, hinst, ?_⟩
    rw [heq', heq]

theorem touched_setStatus (hi : S i) (target : InstanceStatus) :
    Touched S k (k.setStatus i target) := by
  refine ⟨rfl, rfl, fun j hj => ?_, fun j inst' hrow => ?_⟩
  · exact Table.modify_row_of_ne _ _ fun hij => hj (hij ▸ hi)
  · by_cases hij : j = i
    · subst hij
      simp only [Core.setStatus, Table.modify_row_self, Option.map_eq_some_iff] at hrow
      obtain ⟨inst, hinst, rfl⟩ := hrow
      exact ⟨inst, hinst, rfl⟩
    · simp only [Core.setStatus, Table.modify_row_of_ne _ _ hij] at hrow
      exact ⟨inst', hrow, rfl⟩

theorem setStatus_row_self {inst : Instance} (h : k.instances.row i = some inst)
    (target : InstanceStatus) :
    (k.setStatus i target).instances.row i = some { inst with status := target } := by
  simp [Core.setStatus, h]

theorem setStatus_row_of_ne {i j : InstanceId} (h : j ≠ i) (target : InstanceStatus) :
    (k.setStatus i target).instances.row j = k.instances.row j :=
  Table.modify_row_of_ne _ _ h

end Touched

/-- The rows of a loop over `is` that takes each instance from `st` to a status in `T`,
with `rem` still to come. -/
structure Sweep (st : InstanceStatus) (T : InstanceStatus → Prop) (is rem : List InstanceId)
    (k : Core) : Prop where
  sub : ∀ i ∈ rem, i ∈ is
  nodup : rem.Nodup
  left : ∀ i ∈ rem, ∃ inst, k.instances.row i = some inst ∧ inst.status = st
  done : ∀ i ∈ is, i ∉ rem → ∃ inst, k.instances.row i = some inst ∧ T inst.status

theorem sweep_start {st : InstanceStatus} (T : InstanceStatus → Prop) {is : List InstanceId} {k : Core}
    (hnodup : is.Nodup) (hrows : ∀ i ∈ is, ∃ inst, k.instances.row i = some inst ∧ inst.status = st) :
    Sweep st T is is k :=
  ⟨fun _ h => h, hnodup, hrows, fun _ h hn => (hn h).elim⟩

theorem Sweep.step {i : InstanceId} {st target : InstanceStatus} {T : InstanceStatus → Prop} {is rem : List InstanceId}
    {k : Core} (h : Sweep st T is (i :: rem) k) (ht : T target) :
    Sweep st T is rem (k.setStatus i target) := by
  obtain ⟨inst, hrow, -⟩ := h.left i List.mem_cons_self
  obtain ⟨hnot, hnodup⟩ := List.nodup_cons.1 h.nodup
  refine ⟨fun j hj => h.sub j (List.mem_cons_of_mem _ hj), hnodup, ?_, ?_⟩
  · intro j hj
    have hji : j ≠ i := by
      rintro rfl
      exact hnot hj
    rw [setStatus_row_of_ne hji]
    exact h.left j (List.mem_cons_of_mem _ hj)
  · intro j hj hrem
    by_cases hji : j = i
    · subst hji
      exact ⟨_, setStatus_row_self hrow _, ht⟩
    · rw [setStatus_row_of_ne hji]
      exact h.done j hj (by simp [hji, hrem])

/-- What a stop loop over `is` leaves in the trace. With `ok` every write was allowed
and every send went out. -/
inductive Halts (o : Oracle) (agent : ServerId) (key : InstanceId → CommandKey) (st : InstanceStatus)
    (is : List InstanceId) (w : World) (ok : Bool) : Entry → Prop
  | background {e : Entry} (h : e.background) : Halts o agent key st is w ok e
  | stop {i payload db routed} (hi : i ∈ is)
      (hr : w.gateway.inFlight = [] → routed = w.gateway.routed) :
      Halts o agent key st is w ok ⟨.submitted agent (key i) (.stopInstance i payload), db, routed⟩
  | answered {i row db routed} (hi : i ∈ is) (h : o.reply (key i) = .row row)
      (hcan : ok = true → canTransition instanceTransitions st (stopStatus row.ok) = true) :
      Halts o agent key st is w ok ⟨.answered (key i) row, db, routed⟩
  | sendFailed {i db routed} (hi : i ∈ is) (hok : ok = false) :
      Halts o agent key st is w ok ⟨.sendFailed (key i), db, routed⟩
  | moved {i target db routed} (hi : i ∈ is)
      (hcan : ok = true → canTransition instanceTransitions st target = true) :
      Halts o agent key st is w ok ⟨.instanceTransition i st target, db, routed⟩

/-- Why a stop loop raised. -/
def HaltFailed (key : InstanceId → CommandKey) (st : InstanceStatus) (is : List InstanceId)
    (w : World) : Prop :=
  ∃ i ∈ is, Event.sendFailed (key i) ∈ w.events ∨
    ∃ row, Event.answered (key i) row ∈ w.events ∧
      canTransition instanceTransitions st (stopStatus row.ok) = false

structure Halted (o : Oracle) (agent : ServerId) (key : InstanceId → CommandKey) (st : InstanceStatus)
    (is : List InstanceId) (ok : Bool) (w w' : World) : Prop where
  touched : Touched (· ∈ is) w.core w'.core
  news : News (Halts o agent key st is w ok) w w'
  still : Still w w'

section Halted

variable {o : Oracle} {d : DeploymentId} {agent : ServerId} {key : InstanceId → CommandKey}
  {st : InstanceStatus} {is : List InstanceId} {c : HealerYaml} {w₀ w w' : World} {i : InstanceId}
  {inst : Instance} {ok : Bool}

theorem Halted.refl : Halted o agent key st is ok w w :=
  ⟨Touched.refl _ _, News.refl _ _, Still.refl w⟩

theorem Halts.weaken {e : Entry} (h : Halts o agent key st is w true e) :
    Halts o agent key st is w ok e := by
  cases h with
  | background h => exact .background h
  | stop hi hr => exact .stop hi hr
  | answered hi h hcan => exact .answered hi h fun _ => hcan rfl
  | sendFailed hi hok => cases hok
  | moved hi hcan => exact .moved hi fun _ => hcan rfl

/-- A loop that starts later, with the gateway untouched in between. -/
theorem Halts.base {e : Entry} (hstill : Still w₀ w) (h : Halts o agent key st is w ok e) :
    Halts o agent key st is w₀ ok e := by
  cases h with
  | background h => exact .background h
  | stop hi hr =>
    refine .stop hi fun hf => ?_
    rw [hr (hstill.inFlight hf), hstill hf]
  | answered hi h hcan => exact .answered hi h hcan
  | sendFailed hi hok => exact .sendFailed hi hok
  | moved hi hcan => exact .moved hi hcan

/-- The command of a stop, sent somewhere in the loop. -/
theorem Asked.halts {command : StopPayload} {reply : Event} (hi : i ∈ is) (hstill : Still w₀ w)
    (h : Asked agent (key i) (.stopInstance i command) reply w w')
    (hreply : ∀ db routed, Halts o agent key st is w₀ ok ⟨reply, db, routed⟩) :
    News (Halts o agent key st is w₀ ok) w w' := by
  refine h.went.news.mono ?_
  rintro ⟨e, db, routed⟩ (hb | he | he)
  · exact .background hb
  · cases he
    exact .stop hi fun hf => by rw [hstill hf]
  · cases he
    exact hreply db routed

theorem halt_step (hi : i ∈ is) (hrow : w.db.instances.row i = some inst) (hst : inst.status = st)
    (h : Halted o agent key st is true w₀ w) :
    Ends (stopAndSettle o d agent key c i w)
      (fun b w' => Halted o agent key st is true w₀ w' ∧
        w'.core = w.core.setStatus i (stopStatus b) ∧
        ∃ row, Event.answered (key i) row ∈ w'.events ∧ b = row.ok)
      (fun _ w' => Halted o agent key st is false w₀ w' ∧ HaltFailed key st is w') := by
  subst hst
  refine (stopAndSettle_spec o d agent key c hrow).mono ?_ ?_
  · intro b w' hs
    obtain ⟨u, row, ⟨hreply, hasked⟩, rfl, hcan, hmove⟩ := hs
    refine ⟨⟨?_, ?_, ?_⟩, hmove.core, row, hmove.news.mem hasked.replied, rfl⟩
    · rw [hmove.core]
      exact h.touched.trans (touched_setStatus hi _)
    · refine h.news.trans ((hasked.halts hi h.still fun _ _ => ?_).trans (hmove.news.mono ?_))
      · exact .answered hi hreply fun _ => hcan
      · rintro ⟨e, db, routed⟩ (hb | rfl)
        · exact .background hb
        · exact .moved hi fun _ => hcan
    · exact h.still.trans (hasked.went.still.trans hmove.still)
  · intro e w' hs
    have hnews : News (Halts o agent key inst.status is w₀ false) w₀ w :=
      h.news.mono fun _ => Halts.weaken
    rcases hs with hasked | ⟨u, row, ⟨hreply, hasked⟩, hcan, hmove⟩
    · refine ⟨⟨?_, ?_, h.still.trans hasked.went.still⟩, i, hi, Or.inl hasked.replied⟩
      · rw [hasked.went.core]
        exact h.touched
      · exact hnews.trans (hasked.halts hi h.still fun _ _ => .sendFailed hi rfl)
    · refine ⟨⟨?_, ?_, ?_⟩, i, hi, Or.inr ⟨row, hmove.news.mem hasked.replied, hcan⟩⟩
      · rw [hmove.core]
        exact h.touched
      · refine hnews.trans ((hasked.halts hi h.still fun _ _ => ?_).trans (hmove.news.mono ?_))
        · exact .answered hi hreply (by simp)
        · rintro ⟨e, db, routed⟩ (hb | rfl)
          · exact .background hb
          · exact .moved hi (by simp)
      · exact h.still.trans (hasked.went.still.trans hmove.still)

theorem stopStatus_terminal (ok : Bool) : (stopStatus ok).terminal = true := by
  cases ok <;> rfl

/-- The invariant of a stop loop with `rem` still to stop. -/
structure Halting (o : Oracle) (agent : ServerId) (key : InstanceId → CommandKey) (st : InstanceStatus)
    (is : List InstanceId) (w₀ : World) (rem : List InstanceId) (w : World) : Prop where
  halted : Halted o agent key st is true w₀ w
  sweep : Sweep st (fun s => s.terminal = true) is rem w.core

theorem halting_step {rem : List InstanceId} (h : Halting o agent key st is w₀ (i :: rem) w) :
    Ends (stopAndSettle o d agent key c i w)
      (fun b w' => Halting o agent key st is w₀ rem w' ∧
        ∃ row, Event.answered (key i) row ∈ w'.events ∧ b = row.ok)
      (fun _ w' => Halted o agent key st is false w₀ w' ∧ HaltFailed key st is w') := by
  obtain ⟨inst, hrow, hst⟩ := h.sweep.left i List.mem_cons_self
  refine (halt_step (h.sweep.sub i List.mem_cons_self) hrow hst h.halted).mono ?_ (fun _ _ h => h)
  intro b w' hs
  obtain ⟨hhalted, hcore, hrow'⟩ := hs
  refine ⟨⟨hhalted, ?_⟩, hrow'⟩
  rw [hcore]
  exact h.sweep.step (stopStatus_terminal b)

/-- The loop of `_stop_instances` and `_drain_old_release`. -/
theorem halt_each (hnodup : is.Nodup)
    (hrows : ∀ i ∈ is, ∃ inst, w.db.instances.row i = some inst ∧ inst.status = st) :
    Ends (Prog.each (fun i => do let _ ← stopAndSettle o d agent key c i; pure ()) is w)
      (fun _ w' => Halting o agent key st is w [] w')
      (fun _ w' => Halted o agent key st is false w w' ∧ HaltFailed key st is w') := by
  refine Prog.ends_each (I := Halting o agent key st is w) (fun i rem s h => ?_) is w
    ⟨Halted.refl, sweep_start _ hnodup hrows⟩
  exact Ends.bind (halting_step h) (fun _ _ h' => h'.1) (fun _ _ h' => h')

end Halted

end Healer
