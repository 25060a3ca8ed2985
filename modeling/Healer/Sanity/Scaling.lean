import Healer.Sanity.Switch

/-! The two loops of `run_scale`. A phase that returns has asked for allowed transitions
only and has left every instance it moved in a settled status; one that raises has met a
failed health gate, a send or a probe that raised, a row that the database refused, or an
instance that cannot be drained. -/

namespace Healer

open Prog List Table

/-- The statuses a scale operation is meant to leave its instances in. -/
def InstanceStatus.settled : InstanceStatus → Bool
  | .running | .unhealthy | .stopped | .failed => true
  | _ => false

/-- The outcomes a scale operation raises on. -/
def Event.rough : Event → Bool
  | .healthGate _ healthy => !healthy
  | .sendFailed _ | .probeRaised _ | .flushFailed => true
  | _ => false

structure Even (e : Entry) : Prop where
  allowed : e.event.allowed = true
  rough : e.event.rough = false

def World.settledAt (w : World) (i : InstanceId) : Prop :=
  ∃ inst, w.db.instances.row i = some inst ∧ inst.status.settled = true

/-- The run since `past` was even, and whatever it moved is settled. -/
def Scaled (past : List Entry) (w : World) : Prop :=
  ∃ es, w.trace = past ++ es ∧ (∀ e ∈ es, Even e) ∧
    ∀ i current target, Event.instanceTransition i current target ∈ es.map Entry.event → w.settledAt i

theorem scaled_start (w : World) : Scaled w.trace w := ⟨[], by simp, by simp, by simp⟩

/-- The entry moves instances in `S` only. -/
def MovesIn (S : InstanceId → Prop) (e : Entry) : Prop :=
  ∀ i current target, e.event = .instanceTransition i current target → S i

section Scaled

variable {o : Oracle} {L : Site} {P : Entry → Prop} {S : InstanceId → Prop} {past : List Entry}
  {w w' : World} {i : InstanceId} {e : Entry} {healthy ok : Bool}

/-- A stretch that moves the instances in `S` only and leaves them settled. -/
theorem Scaled.step (h : Scaled past w) (hnews : News P w w') (hP : ∀ e, P e → Even e ∧ MovesIn S e)
    (hother : ∀ j, ¬ S j → w'.core.instances.row j = w.core.instances.row j)
    (hS : ∀ j, S j → w'.settledAt j) : Scaled past w' := by
  obtain ⟨es, hes, heven, hsettled⟩ := h
  obtain ⟨es', hes', hall⟩ := hnews.entries
  refine ⟨es ++ es', by rw [hes', hes, append_assoc], fun e he => ?_, ?_⟩
  · rcases mem_append.1 he with he | he
    · exact heven e he
    · exact (hP e (hall e he)).1
  · intro j current target hmem
    by_cases hj : S j
    · exact hS j hj
    · rw [map_append, mem_append] at hmem
      rcases hmem with hmem | hmem
      · obtain ⟨inst, hrow, hst⟩ := hsettled j current target hmem
        exact ⟨inst, (hother j hj).trans hrow, hst⟩
      · obtain ⟨x, hx, hev⟩ := mem_map.1 hmem
        exact (hj ((hP x (hall x hx)).2 j current target hev)).elim

/-- A stretch that moves no instance. -/
theorem Scaled.still (h : Scaled past w) (hnews : News P w w')
    (hP : ∀ e, P e → Even e ∧ MovesIn (fun _ => False) e)
    (hinst : w'.core.instances = w.core.instances) : Scaled past w' :=
  h.step hnews hP (fun _ _ => by rw [hinst]) fun _ hj => hj.elim

theorem even_background (h : e.background) : Even e ∧ MovesIn S e := by
  obtain ⟨event, db, routed⟩ := e
  cases event <;>
    first | exact False.elim h | exact ⟨⟨rfl, rfl⟩, fun _ _ _ he => by cases he⟩

theorem Scaled.calm (h : Scaled past w) (h' : Calm w w') : Scaled past w' :=
  h.still h'.news (fun _ => even_background) (by rw [h'.core])

theorem Launches.even {row : AgentCommand} (hreply : o.reply (.startInstance i) = .row row)
    (h : Launches o L i true e) : Even e ∧ MovesIn (· = i) e := by
  cases h with
  | background h => exact even_background h
  | starting => exact ⟨⟨rfl, rfl⟩, fun _ _ _ he => by cases he; rfl⟩
  | sendFailed h => rw [hreply] at h; cases h
  | _ => exact ⟨⟨rfl, rfl⟩, fun _ _ _ he => by cases he⟩

variable {current target : InstanceStatus}

theorem Moves.even (hS : S i)
    (hcan : canTransition instanceTransitions current target = true) (h : Moves i current target e) :
    Even e ∧ MovesIn S e := by
  obtain ⟨event, db, routed⟩ := e
  rcases h with h | h
  · exact even_background h
  · cases h
    exact ⟨⟨hcan, rfl⟩, fun _ _ _ he => by cases he; exact hS⟩

theorem Halts.even {agent : ServerId} {is : List InstanceId}
    (h : Halts o agent .stopInstance .draining is w true e) : Even e ∧ MovesIn (· ∈ is) e := by
  cases h with
  | background h => exact even_background h
  | sendFailed hi hok => cases hok
  | moved hi hcan => exact ⟨⟨hcan rfl, rfl⟩, fun _ _ _ he => by cases he; exact hi⟩
  | _ => exact ⟨⟨rfl, rfl⟩, fun _ _ _ he => by cases he⟩

theorem Syncs.even (h : Syncs ok e) : Even e ∧ MovesIn S e := by
  obtain ⟨event, db, routed⟩ := e
  rcases h with h | ⟨payload, h⟩ | h
  · exact even_background h
  · cases h
    exact ⟨⟨rfl, rfl⟩, fun _ _ _ he => by cases he⟩
  · cases h
    exact ⟨⟨rfl, rfl⟩, fun _ _ _ he => by cases he⟩

theorem Closes.even {d : DeploymentId} {target : DeploymentStatus}
    (hcan : canTransition deploymentTransitions .inProgress target = true) (h : Closes d target e) :
    Even e ∧ MovesIn S e := by
  obtain ⟨event, db, routed⟩ := e
  rcases h with h | h
  · exact even_background h
  · cases h
    exact ⟨⟨hcan, rfl⟩, fun _ _ _ he => by cases he⟩

end Scaled

/-! ## Scale up -/

/-- The replicas brought up since `w₀` are rows of the deployment on the site's server. -/
structure Brought (L : Site) (w₀ w : World) : Prop where
  aside : Aside L (fun _ => True) w₀ w
  placed : ∀ i inst, w₀.core.instances.next ≤ i → w.core.instances.row i = some inst →
    inst.serverId = L.server

section Up

variable {o : Oracle} {L : Site} {past : List Entry} {w₀ w w' : World} {i : InstanceId}
  {inst : Instance}

theorem Brought.refl (L : Site) (w : World) : Brought L w w := by
  refine ⟨Aside.refl L _ w, fun i inst hi hrow => ?_⟩
  exact absurd (lt_of_row hrow) (Nat.not_lt.2 hi)

theorem Brought.le (h : Brought L w₀ w) {healthy : Bool} (hl : Launched o L i inst healthy w w') :
    w₀.db.instances.next ≤ i := by
  rw [hl.fresh]
  exact h.aside.grown.le

theorem Brought.same {P : Entry → Prop} (h : Brought L w₀ w) (h' : Went P w.core w w') :
    Brought L w₀ w' := by
  refine ⟨h.aside.touched (S := fun _ => False) ?_ (fun _ hf => hf.elim)
    (h'.news.mono fun _ _ => trivial) h'.still, ?_⟩
  · rw [h'.core]
    exact Touched.refl _ _
  · rw [h'.core]
    exact h.placed

theorem Brought.launched {healthy : Bool} (h : Brought L w₀ w)
    (hl : Launched o L i inst healthy w w') : Brought L w₀ w' := by
  refine ⟨h.aside.launched hl fun _ _ => trivial, fun j inst' hj hrow => ?_⟩
  rw [hl.went.core] at hrow
  by_cases hji : j = w.core.instances.next
  · subst hji
    rw [show (w.core.insert inst).instances.row _ = some inst from insert_row_self _ _] at hrow
    cases hrow
    obtain ⟨a, port, t, rfl⟩ := hl.row
    rfl
  · rw [show (w.core.insert inst).instances.row j = w.core.instances.row j from
      insert_row_of_ne _ _ hji] at hrow
    exact h.placed j inst' hj hrow

theorem Brought.moved {current target : InstanceStatus} (h : Brought L w₀ w)
    (hi : w₀.db.instances.next ≤ i)
    (h' : Went (Moves i current target) (w.core.setStatus i target) w w') : Brought L w₀ w' := by
  refine ⟨h.aside.moved hi h' fun _ _ => trivial, fun j inst' hj hrow => ?_⟩
  rw [h'.core] at hrow
  obtain ⟨inst, hrow', heq⟩ := (touched_setStatus (S := fun _ => True) trivial target).row j inst' hrow
  rw [heq]
  exact h.placed j inst hj hrow'

/-- A launched replica that is settled as RUNNING or FAILED. -/
theorem Scaled.launched {row : AgentCommand} {target : InstanceStatus} (h : Scaled past w)
    (hb : Brought L w₀ w) (hl : Launched o L i inst true w w')
    (hreply : o.reply (.startInstance i) = .row row)
    (hcan : canTransition instanceTransitions .starting target = true)
    (htarget : target.settled = true) :
    Ends (settle i target w') (fun _ w' => Scaled past w' ∧ Brought L w₀ w') (fun _ _ => False) := by
  have hst := hl.starting
  refine (settle_spec hl.row_self (by rw [hst]; exact hcan)).mono (fun _ w2 h2 => ?_) (fun _ _ h => h)
  obtain ⟨hmove, -⟩ := h2
  rw [hst] at hmove
  refine ⟨?_, (hb.launched hl).moved (hb.le hl) hmove⟩
  have hnews : News (fun e => Even e ∧ MovesIn (· = i) e) w w2 :=
    (hl.went.news.mono fun e he => he.even hreply).trans (hmove.news.mono fun e he => he.even rfl hcan)
  refine h.step hnews (fun _ he => he) (fun j hj => ?_) (fun j hj => ?_)
  · rw [hmove.core, setStatus_row_of_ne hj, hl.went.core]
    exact insert_row_of_ne _ _ fun hn => hj (hn.trans hl.fresh.symm)
  · subst hj
    refine ⟨{ inst with status := target }, ?_, htarget⟩
    exact instance_of_core hmove.core
      (setStatus_row_self hl.row_self target)

theorem scaleUp_spec {rel : Release} (hrel : w₀.db.releases.row L.release = some rel) (n : ℕ) :
    ∀ (overallOk : Bool) (w : World), Scaled past w → Brought L w₀ w →
      Ends (scaleUp o L n overallOk w) (fun _ w' => Scaled past w' ∧ Brought L w₀ w')
        (fun _ w' => Brought L w₀ w' ∧ ∃ e ∈ w'.events, e.rough = true) := by
  induction n with
  | zero => intro overallOk w h hb; exact ⟨h, hb⟩
  | succ n ih =>
    intro overallOk w h hb
    refine Ends.bind (launch_spec o L (hb.aside.release.trans hrel)) (fun r w1 h1 => ?_) ?_
    swap
    · intro e w1 he
      have hemit : ∀ (u : World) (e : Event), Went (fun _ => True) u.core u (u.emit e) :=
        fun _ _ => went_emit trivial
      rcases he with rfl | ⟨i, inst, v, hl, ⟨rfl, hmem⟩ | rfl⟩
      · exact ⟨hb.same (hemit w _), .flushFailed, by simp, rfl⟩
      · exact ⟨hb.launched hl, _, hmem, rfl⟩
      · exact ⟨(hb.launched hl).same (hemit v _), .probeRaised i, by simp, rfl⟩
    cases r with
    | noPort => exact ⟨h.calm h1, hb.same h1⟩
    | startFailed i =>
      obtain ⟨inst, row, hl, hreply, -⟩ := h1
      exact Ends.bind (h.launched hb hl hreply rfl rfl) (fun _ w2 h2 => ih _ w2 h2.1 h2.2)
        (fun _ _ h => h.elim)
    | healthy i =>
      obtain ⟨inst, row, hl, hreply, -⟩ := h1
      exact Ends.bind (h.launched hb hl hreply rfl rfl) (fun _ w2 h2 => ih _ w2 h2.1 h2.2)
        (fun _ _ h => h.elim)
    | unhealthy i =>
      -- STARTING → UNHEALTHY is not in the table
      obtain ⟨inst, row, hl, -, -, -, hgate⟩ := h1
      refine Ends.bind (settle_refused hl.row_self (by rw [hl.starting]; rfl)) (fun _ _ h => h.elim) ?_
      intro _ w2 h2
      exact ⟨(hb.launched hl).same h2.1, _, h2.1.news.mem hgate, rfl⟩

end Up

/-! ## Scale down -/

/-- RUNNING or UNHEALTHY, so that DRAINING may follow. -/
def World.drains (w : World) (i : InstanceId) : Prop :=
  ∃ inst, w.db.instances.row i = some inst ∧ (inst.status = .running ∨ inst.status = .unhealthy)

theorem canTransition_to_draining (st : InstanceStatus) :
    canTransition instanceTransitions st .draining = true ↔ st = .running ∨ st = .unhealthy := by
  cases st <;> decide

/-- No instance row was added, and only instance rows changed. -/
structure SameKeys (w w' : World) : Prop where
  rest : w'.core = { w.core with instances := w'.core.instances }
  next : w'.core.instances.next = w.core.instances.next

theorem SameKeys.trans {a b c : World} (h : SameKeys a b) (h' : SameKeys b c) : SameKeys a c :=
  ⟨by rw [h'.rest, h.rest], h'.next.trans h.next⟩

theorem sameKeys_of_core {a b : World} (h : b.core = a.core) : SameKeys a b :=
  ⟨by rw [h], by rw [h]⟩

/-- The first loop of `_scale_down` over `is` with `rem` still to mark. -/
structure Marking (is : List InstanceId) (w : World) (rem : List InstanceId) (w' : World) : Prop where
  keys : SameKeys w w'
  sub : ∀ j ∈ rem, j ∈ is
  nodup : rem.Nodup
  other : ∀ j, j ∉ is → w'.core.instances.row j = w.core.instances.row j
  left : ∀ j ∈ rem, w'.core.instances.row j = w.core.instances.row j
  done : ∀ j ∈ is, j ∉ rem → w.drains j ∧
    ∃ inst, w'.core.instances.row j = some inst ∧ inst.status = .draining
  news : News (fun e => Even e ∧ MovesIn (· ∈ is) e) w w'

section Down

variable {o : Oracle} {d : DeploymentId} {agent : ServerId} {c : HealerYaml} {past : List Entry}
  {is rem : List InstanceId} {w w' : World} {i : InstanceId}

theorem marking_start (hnodup : is.Nodup) : Marking is w is w :=
  ⟨sameKeys_of_core rfl, fun _ h => h, hnodup, fun _ _ => rfl, fun _ _ => rfl,
    fun _ h hn => (hn h).elim, News.refl _ w⟩

/-- One more instance is marked: it drains, and the rest of the rows stand. -/
theorem Marking.step {inst : Instance} (h : Marking is w (i :: rem) w') {v : World}
    (hrow : w.db.instances.row i = some inst)
    (hcan : canTransition instanceTransitions inst.status .draining = true) (hkeys : SameKeys w' v)
    (hne : ∀ j, j ≠ i → v.core.instances.row j = w'.core.instances.row j)
    (hself : ∃ inst, v.core.instances.row i = some inst ∧ inst.status = .draining)
    (hnews : News (fun e => Even e ∧ MovesIn (· ∈ is) e) w' v) : Marking is w rem v := by
  have hi := h.sub i mem_cons_self
  obtain ⟨hnot, hnodup⟩ := nodup_cons.1 h.nodup
  refine ⟨h.keys.trans hkeys, fun j hj => h.sub j (mem_cons_of_mem _ hj), hnodup, fun j hj => ?_,
    fun j hj => ?_, fun j hj hrem => ?_, h.news.trans hnews⟩
  · rw [hne j fun hji => hj (hji ▸ hi)]
    exact h.other j hj
  · rw [hne j fun hji => hnot (hji ▸ hj)]
    exact h.left j (mem_cons_of_mem _ hj)
  · by_cases hji : j = i
    · subst hji
      exact ⟨⟨inst, hrow, (canTransition_to_draining _).1 hcan⟩, hself⟩
    · rw [hne j hji]
      exact h.done j hj (by simp [hji, hrem])

theorem markDraining_step (hrows : ∀ j ∈ is, ∃ inst, w.db.instances.row j = some inst)
    (h : Marking is w (i :: rem) w') :
    Ends (markDraining d i w') (fun _ => Marking is w rem)
      (fun _ v => SameKeys w v ∧ ∃ j ∈ is, ¬ w.drains j) := by
  have hi := h.sub i mem_cons_self
  obtain ⟨inst, hrow⟩ := hrows i hi
  have hrow' : w'.db.instances.row i = some inst := (h.left i mem_cons_self).trans hrow
  simp only [markDraining, ends_bind, ends_modifyInstance]
  set u := w'.setDb { w'.db with
    instances := w'.db.instances.modify i fun inst => { inst with deploymentId := some d } } with hu
  have hkeys : SameKeys w' u := ⟨rfl, rfl⟩
  have hurow : u.db.instances.row i = some { inst with deploymentId := some d } := by
    change (w'.db.instances.modify i _).row i = _
    rw [modify_row_self, hrow']
    rfl
  have hune : ∀ j, j ≠ i → u.core.instances.row j = w'.core.instances.row j :=
    fun j hj => modify_row_of_ne _ _ hj
  cases hcan : canTransition instanceTransitions inst.status .draining with
  | false =>
    refine (transition_refused hurow hcan).mono (fun _ _ h => h.elim) (fun _ v hv => ?_)
    refine ⟨(h.keys.trans hkeys).trans (sameKeys_of_core hv.1.core), i, hi, ?_⟩
    rintro ⟨inst', hinst', hst⟩
    rw [hrow] at hinst'
    cases hinst'
    rw [(canTransition_to_draining _).2 hst] at hcan
    cases hcan
  | true =>
    refine (transition_spec hurow hcan).mono (fun _ v hv => ?_) (fun _ _ h => h.elim)
    obtain ⟨hmove, -⟩ := hv
    have hset : News (fun e => Even e ∧ MovesIn (· ∈ is) e) w' u := news_setDb rfl
    refine h.step hrow hcan (hkeys.trans ⟨by rw [hmove.core]; rfl, by rw [hmove.core]; rfl⟩)
      (fun j hj => ?_) ⟨{ { inst with deploymentId := some d } with status := .draining }, ?_, rfl⟩
      (hset.trans (hmove.news.mono fun e he => he.even hi hcan))
    · rw [hmove.core, setStatus_row_of_ne hj, hune j hj]
    · rw [hmove.core]
      exact setStatus_row_self hurow _

/-- The sync of a scale-down is not acted upon. -/
theorem syncIfDomain_spec (w : World) :
    Ends (syncIfDomain o c w)
      (fun _ w' => w'.core = w.core ∧ News (fun e => ∃ ok, Syncs ok e) w w') (fun _ _ => False) := by
  simp only [syncIfDomain, ends_ite, ends_bind, ends_pure]
  refine ⟨fun _ => ?_, fun _ => ⟨trivial, News.refl _ w⟩⟩
  exact (syncGateway_spec o w).mono
    (fun result w' h => ⟨h.core, h.news.mono fun e he => ⟨result.ok, he⟩⟩) (fun _ _ h => h)

theorem stopDrained_spec {w₀ : World} (rem : List InstanceId) :
    ∀ (overallOk : Bool) (w : World), Halting o agent .stopInstance .draining is w₀ rem w →
      Ends (stopDrained o d agent c rem overallOk w)
        (fun _ => Halting o agent .stopInstance .draining is w₀ [])
        (fun _ w' => Halted o agent .stopInstance .draining is false w₀ w' ∧
          HaltFailed .stopInstance .draining is w') := by
  induction rem with
  | nil => intro overallOk w h; exact h
  | cons i rem ih =>
    intro overallOk w h
    exact Ends.bind (halting_step h) (fun b w' h' => ih _ w' h'.1) (fun _ _ h => h)

theorem HaltFailed.rough (h : HaltFailed .stopInstance .draining is w) :
    ∃ e ∈ w.events, e.rough = true := by
  obtain ⟨i, -, hsend | ⟨row, -, hcan⟩⟩ := h
  · exact ⟨_, hsend, rfl⟩
  · rw [canTransition_draining_stop] at hcan
    cases hcan

theorem settled_of_terminal {st : InstanceStatus} (h : st.terminal = true) : st.settled = true := by
  cases st <;> first | rfl | cases h

theorem Touched.sameKeys {S : InstanceId → Prop} (h : Touched S w.core w'.core) : SameKeys w w' :=
  ⟨h.rest, h.next⟩

/-- The instances of `is` have ended, and the other rows stand. -/
structure TakenOut (is : List InstanceId) (w w' : World) : Prop where
  other : ∀ j, j ∉ is → w'.core.instances.row j = w.core.instances.row j
  done : ∀ j ∈ is, ∃ inst, w'.core.instances.row j = some inst ∧ inst.status.terminal = true

variable {live : List InstanceId}

theorem scaleDown_spec (count : ℕ) (h : Scaled past w)
    (hnodup : (w.db.toDrain live count).Nodup)
    (hrows : ∀ j ∈ w.db.toDrain live count, ∃ inst, w.db.instances.row j = some inst) :
    Ends (scaleDown o d agent c live count w)
      (fun _ w' => (∀ i ∈ w.db.toDrain live count, w.drains i) ∧ Scaled past w' ∧ SameKeys w w' ∧
        TakenOut (w.db.toDrain live count) w w')
      (fun _ w' => SameKeys w w' ∧ ((∃ i ∈ w.db.toDrain live count, ¬ w.drains i) ∨
        ∃ e ∈ w'.events, e.rough = true)) := by
  simp only [scaleDown, ends_bind, ends_getDb]
  set is := w.db.toDrain live count
  refine (ends_each (I := Marking is w) (fun i rem s hs => markDraining_step hrows hs) is w
    (marking_start hnodup)).mono (fun _ w1 h1 => ?_) (fun _ w1 h1 => ⟨h1.1, .inl h1.2⟩)
  simp only [ends_commit, ends_suspend]
  refine (syncIfDomain_spec (w1.emit .commit)).mono (fun _ w2 h2 => ?_) (fun _ _ h => h.elim)
  obtain ⟨hcore2, hnews2⟩ := h2
  have hcalm3 := calm_suspend o w2
  have hcore3 : (w2.suspend o).core = w1.core := hcalm3.core.trans hcore2
  set w3 := w2.suspend o
  have hnews3 : News (fun e => Even e ∧ MovesIn (· ∈ is) e) w w3 := by
    refine (h1.news.trans (news_emit ?_)).trans ((hnews2.mono ?_).trans (hcalm3.news.mono ?_))
    · exact even_background (e := ⟨.commit, _, _⟩) trivial
    · exact fun e he => he.choose_spec.even
    · exact fun e he => even_background he
  have hrows3 : ∀ i ∈ is, ∃ inst, w3.db.instances.row i = some inst ∧ inst.status = .draining := by
    intro i hi
    obtain ⟨inst, hrow, hst⟩ := (h1.done i hi (by simp)).2
    exact ⟨inst, instance_of_core hcore3 hrow, hst⟩
  have hkeys3 := h1.keys.trans (sameKeys_of_core hcore3)
  refine (stopDrained_spec is true w3 ⟨Halted.refl, sweep_start _ hnodup hrows3⟩).mono ?_ ?_
  · intro _ w4 h4
    have hout : TakenOut is w w4 := by
      refine ⟨fun j hj => ?_, fun j hj => h4.sweep.done j hj (by simp)⟩
      rw [h4.halted.touched.other j hj, hcore3]
      exact h1.other j hj
    refine ⟨fun i hi => (h1.done i hi (by simp)).1, ?_, hkeys3.trans h4.halted.touched.sameKeys,
      hout⟩
    refine h.step (hnews3.trans (h4.halted.news.mono fun e he => he.even)) (fun _ he => he)
      hout.other (fun j hj => ?_)
    obtain ⟨inst, hrow, hterm⟩ := hout.done j hj
    exact ⟨inst, hrow, settled_of_terminal hterm⟩
  · intro _ w4 h4
    exact ⟨hkeys3.trans h4.1.touched.sameKeys, .inr h4.2.rough⟩

end Down

/-! ## The run -/

/-- The instances a scale operation to `target` replicas takes down. -/
def World.drainPlan (w : World) (target : ℕ) : List InstanceId :=
  match w.db.application.serverId, w.db.application.portRangeStart, w.db.application.portRangeEnd with
  | some s, some _, some _ =>
    if (w.db.agent s).isNone then []
    else w.db.toDrain w.db.liveInstances (w.db.liveInstances.length - target)
  | _, _, _ => []

/-- From `w` to `w'` the new instances are of the release `r`, on a server that is there. -/
structure Spawned (r : ReleaseId) (w w' : World) : Prop where
  active : w'.core.active = w.core.active
  created : ∀ i inst, w.core.instances.next ≤ i → w'.core.instances.row i = some inst →
    inst.releaseId = some r ∧ (w'.core.servers inst.serverId).isSome

section Run

variable {o : Oracle} {d : DeploymentId} {dep : Deployment} {c : HealerYaml} {r : ReleaseId}
  {past : List Entry} {w w' w'' : World}

theorem SameKeys.spawned (h : SameKeys w w') : Spawned r w w' := by
  refine ⟨by rw [h.rest], fun i inst hi hrow => ?_⟩
  have hlt := lt_of_row hrow
  rw [h.next] at hlt
  exact absurd hlt (Nat.not_lt.2 hi)

theorem Brought.spawned {L : Site} (h : Brought L w w') (hserver : (w.db.servers L.server).isSome) :
    Spawned L.release w w' := by
  refine ⟨by rw [h.aside.rest], fun i inst hi hrow => ⟨(h.aside.grown.new i inst hi hrow).2, ?_⟩⟩
  have hservers : w'.core.servers = w.core.servers := by rw [h.aside.rest]
  rw [h.placed i inst hi hrow, hservers]
  exact hserver

theorem Spawned.same (h : Spawned r w w') (hactive : w''.core.active = w'.core.active)
    (hinst : w''.core.instances = w'.core.instances) (hservers : w''.core.servers = w'.core.servers) :
    Spawned r w w'' := by
  refine ⟨hactive.trans h.active, fun i inst hi hrow => ?_⟩
  rw [hinst] at hrow
  rw [hservers]
  exact h.created i inst hi hrow

/-- How a scale operation ends. -/
structure ScaleEnds (past : List Entry) (d : DeploymentId) (r : ReleaseId) (w w' : World) : Prop where
  scaled : Scaled past w'
  terminal : w'.stands d .succeeded ∨ w'.stands d .failed
  spawned : Spawned r w w'

theorem close_scale (h : Scaled past w') (hspawn : Spawned r w w')
    (hrow : w'.db.deployments.row d = some dep) (hst : dep.status = .inProgress) (ok : Bool) :
    Ends ((do transitionDeployment d (if ok then .succeeded else .failed); commit : M Unit) w')
      (fun _ => ScaleEnds past d r w) (fun _ _ => False) := by
  have hclose : ∀ target, canTransition deploymentTransitions .inProgress target = true →
      Ends ((do transitionDeployment d target; commit : M Unit) w')
        (fun _ w'' => Scaled past w'' ∧ w''.stands d target ∧ Spawned r w w'') (fun _ _ => False) := by
    intro target hcan
    refine (close_spec target hrow hst hcan).mono (fun _ w'' h'' => ?_) (fun _ _ h => h)
    exact ⟨h.still h''.news (fun e he => he.even hcan) h''.instances, h''.status,
      hspawn.same h''.active h''.instances h''.servers⟩
  cases ok with
  | true => exact (hclose .succeeded rfl).mono (fun _ _ h => ⟨h.1, .inl h.2.1, h.2.2⟩) (fun _ _ h => h)
  | false => exact (hclose .failed rfl).mono (fun _ _ h => ⟨h.1, .inr h.2.1, h.2.2⟩) (fun _ _ h => h)

/-- A log line and FAILED. -/
theorem log_close_scale (r : ReleaseId) (message : String) (h : Scaled past w) (hrow : w.db.deployments.row d = some dep)
    (hst : dep.status = .inProgress) :
    Ends ((do log d .error message; transitionDeployment d .failed; commit : M Unit) w)
      (fun _ => ScaleEnds past d r w) (fun _ _ => False) := by
  refine Ends.bind (log_spec d .error message w) (fun _ w' h' => ?_) (fun _ _ h => h)
  have hrow' : w'.db.deployments.row d = some dep :=
    deployment_of_core h'.core hrow
  exact close_scale (h.calm h') (sameKeys_of_core h'.core).spawned hrow' hst false

theorem reportedSync_spec (w : World) :
    Ends (reportedSync o d w)
      (fun _ w' => w'.core = w.core ∧ News (fun e => ∃ ok, Syncs ok e) w w') (fun _ _ => False) := by
  refine Ends.bind (syncGateway_spec o w) (fun result w1 h1 => ?_) (fun _ _ h => h)
  have hnews : News (fun e => ∃ ok, Syncs ok e) w w1 := h1.news.mono fun e he => ⟨_, he⟩
  simp only [ends_ite, ends_pure]
  refine ⟨fun _ => ?_, fun _ => ⟨h1.core, hnews⟩⟩
  refine (log_spec d .error _ w1).mono (fun _ w2 h2 => ?_) (fun _ _ h => h)
  exact ⟨h2.core.trans h1.core, hnews.trans (h2.news.mono fun e he => ⟨true, .inl he⟩)⟩

theorem finishScale_spec (h : Scaled past w') (hspawn : Spawned r w w')
    (hrow : w'.db.deployments.row d = some dep) (hst : dep.status = .inProgress) (ok : Bool) :
    Ends (finishScale o d c ok w') (fun _ => ScaleEnds past d r w) (fun _ _ => False) := by
  have hsync : Ends ((if ok && c.domain.isSome then reportedSync o d else pure () : M Unit) w')
      (fun _ w'' => w''.core = w'.core ∧ News (fun e => ∃ ok, Syncs ok e) w' w'') (fun _ _ => False) := by
    rw [ends_ite]
    exact ⟨fun _ => reportedSync_spec w', fun _ => ⟨rfl, News.refl _ w'⟩⟩
  refine Ends.bind hsync (fun _ w'' h'' => ?_) (fun _ _ h => h)
  obtain ⟨hcore, hnews⟩ := h''
  refine close_scale (h.still hnews (fun e he => he.choose_spec.even) (by rw [hcore]))
    (hspawn.same (by rw [hcore]) (by rw [hcore]) (by rw [hcore])) ?_ hst ok
  exact deployment_of_core hcore hrow

theorem mem_toDrain {live : List InstanceId} {count : ℕ} {i : InstanceId}
    (h : i ∈ w.db.toDrain live count) : i ∈ live :=
  (perm_insertionSort _ _).mem_iff.1 (mem_of_mem_take h)

theorem toDrain_nodup {live : List InstanceId} (h : live.Nodup) (count : ℕ) :
    (w.db.toDrain live count).Nodup :=
  ((perm_insertionSort _ _).nodup_iff.2 h).sublist (take_sublist _ _)

theorem drainPlan_eq_nil {target : ℕ} (h : w.db.liveInstances.length ≤ target) :
    w.drainPlan target = [] := by
  unfold World.drainPlan
  split
  · split
    · rfl
    · simp [Db.toDrain, Nat.sub_eq_zero_of_le h]
  · rfl

/-- The way up. -/
theorem grow_spec {L : Site} {rel : Release} (hrow : w.db.deployments.row d = some dep)
    (hst : dep.status = .inProgress) (hscaled : Scaled past w)
    (hrel : w.db.releases.row L.release = some rel) (hserves : (w.db.servers L.server).isSome) (n : ℕ) :
    Ends ((do let ok ← scaleUp o L n true; finishScale o d c ok : M Unit) w)
      (fun _ => ScaleEnds past d L.release w)
      (fun _ w' => Spawned L.release w w' ∧ ∃ e ∈ w'.events, e.rough = true) := by
  refine Ends.bind (scaleUp_spec hrel n true w hscaled (Brought.refl _ w)) (fun ok w1 h1 => ?_)
    (fun _ w1 h1 => ⟨h1.1.spawned hserves, h1.2⟩)
  have hrow1 : w1.db.deployments.row d = some dep :=
    deployment_of_core h1.2.aside.rest hrow
  exact (finishScale_spec h1.1 (h1.2.spawned hserves) hrow1 hst ok).mono (fun _ _ h => h)
    (fun _ _ h => h.elim)

/-- The way down. -/
theorem shrink_spec (hrow : w.db.deployments.row d = some dep) (hst : dep.status = .inProgress)
    (hscaled : Scaled past w) (s : ServerId) (count : ℕ) :
    Ends ((do let ok ← scaleDown o d s c w.db.liveInstances count; finishScale o d c ok : M Unit) w)
      (fun _ w' => (∀ i ∈ w.db.toDrain w.db.liveInstances count, w.drains i) ∧
        ScaleEnds past d dep.releaseId w w')
      (fun _ w' => Spawned dep.releaseId w w' ∧
        ((∃ i ∈ w.db.toDrain w.db.liveInstances count, ¬ w.drains i) ∨
          ∃ e ∈ w'.events, e.rough = true)) := by
  have hrows : ∀ j ∈ w.db.toDrain w.db.liveInstances count, ∃ inst, w.db.instances.row j = some inst := by
    intro j hj
    obtain ⟨inst, hrow, -⟩ := mem_select.1 (mem_toDrain hj)
    exact ⟨inst, hrow⟩
  refine Ends.bind (scaleDown_spec _ hscaled (toDrain_nodup (select_nodup _ _) _) hrows)
    (fun ok w1 h1 => ?_) (fun _ w1 h1 => ⟨h1.1.spawned, h1.2⟩)
  obtain ⟨hdrains, h1, hkeys, -⟩ := h1
  have hspawn : Spawned dep.releaseId w w1 := hkeys.spawned
  have hrow1 : w1.db.deployments.row d = some dep :=
    deployment_of_core hkeys.rest hrow
  exact (finishScale_spec h1 hspawn hrow1 hst ok).mono (fun _ w' h' => ⟨hdrains, h'⟩)
    (fun _ _ h => h.elim)

/-- A scale operation whose rows are there returns with its plan carried out, or raises
because the plan cannot be or an outcome was rough. -/
theorem scaleBody_spec (hrow : w.db.deployments.row d = some dep) (hst : dep.status = .inProgress)
    (hscaled : Scaled past w) :
    Ends (scaleBody o d dep w)
      (fun _ w' => Spawned dep.releaseId w w' ∧ ((w.db.releases.row dep.releaseId).isSome →
        (∀ i ∈ w.drainPlan dep.instanceCount, w.drains i) ∧ ScaleEnds past d dep.releaseId w w'))
      (fun _ w' => Spawned dep.releaseId w w' ∧ (w.db.application.config.isSome →
        (∃ i ∈ w.drainPlan dep.instanceCount, ¬ w.drains i) ∨ ∃ e ∈ w'.events, e.rough = true)) := by
  have hsame : Spawned dep.releaseId w w := (sameKeys_of_core rfl).spawned
  simp only [scaleBody, ends_bind, ends_getDb]
  rcases hrel : w.db.releases.row dep.releaseId with _ | rel
  · exact ⟨hsame, fun h => by cases h⟩
  -- without a server or a port range nothing is drained
  have hlost : w.drainPlan dep.instanceCount = [] → ∀ message,
      Ends ((do log d .error message; transitionDeployment d .failed; commit : M Unit) w)
        (fun _ w' => Spawned dep.releaseId w w' ∧ ((some rel).isSome →
          (∀ i ∈ w.drainPlan dep.instanceCount, w.drains i) ∧ ScaleEnds past d dep.releaseId w w'))
        (fun _ w' => Spawned dep.releaseId w w' ∧ (w.db.application.config.isSome →
          (∃ i ∈ w.drainPlan dep.instanceCount, ¬ w.drains i) ∨ ∃ e ∈ w'.events, e.rough = true)) := by
    intro hplan message
    refine (log_close_scale dep.releaseId message hscaled hrow hst).mono (fun _ w' h' => ?_) (fun _ _ h => h.elim)
    exact ⟨h'.spawned, fun _ => ⟨by simp [hplan], h'⟩⟩
  rcases hserver : w.db.application.serverId with _ | s
  · exact hlost (by simp [World.drainPlan, hserver]) _
  rcases hlo : w.db.application.portRangeStart with _ | lo
  · exact hlost (by simp [World.drainPlan, hlo]) _
  rcases hhi : w.db.application.portRangeEnd with _ | hi
  · exact hlost (by simp [World.drainPlan, hhi]) _
  rcases hconfig : w.db.application.config with _ | c
  · simp only [ends_bind, configFromApplication, ends_getDb, hconfig]
    exact ⟨hsame, fun h => by cases h⟩
  simp only [ends_bind, ends_config hconfig, ends_ite]
  refine ⟨fun hagent => ?_, fun hagent => ⟨fun hup => ?_, fun hup => ⟨fun hdown => ?_, fun hdown => ?_⟩⟩⟩
  · have h := hlost (by simp [World.drainPlan, hserver, hlo, hhi, hagent])
      "the target server's Agent disappeared before scaling could run"
    rw [hconfig] at h
    simp only [ends_bind] at h
    exact h
  · have hplan := drainPlan_eq_nil (Nat.le_of_lt hup)
    have hserves : (w.db.servers s).isSome := by
      cases hs : w.db.servers s with
      | none => simp [Db.agent, hs] at hagent
      | some server => rfl
    have hgrow := grow_spec (o := o) (c := c) (L := ⟨d, dep.releaseId, c, s, lo, hi, w.db.healthCheck,
      (w.db.servers s).map Server.hostname⟩) hrow hst hscaled hrel hserves
      (dep.instanceCount - w.db.liveInstances.length)
    rw [← ends_bind]
    exact hgrow.mono (fun _ w' h' => ⟨h'.spawned, fun _ => ⟨by simp [hplan], h'⟩⟩)
      (fun _ w' h' => ⟨h'.1, fun _ => .inr h'.2⟩)
  · have hplan : w.drainPlan dep.instanceCount =
        w.db.toDrain w.db.liveInstances (w.db.liveInstances.length - dep.instanceCount) := by
      simp only [World.drainPlan, hserver, hlo, hhi, if_neg hagent]
    rw [hplan]
    have hshrink := shrink_spec (o := o) (c := c) hrow hst hscaled s
      (w.db.liveInstances.length - dep.instanceCount)
    rw [← ends_bind]
    exact hshrink.mono (fun _ w' h' => ⟨h'.2.spawned, fun _ => h'⟩) (fun _ w' h' => ⟨h'.1, fun _ => h'.2⟩)
  · have hplan := drainPlan_eq_nil (w := w) (Nat.le_of_not_lt hdown)
    refine (finishScale_spec hscaled hsame hrow hst true).mono (fun _ w' h' => ?_) (fun _ _ h => h.elim)
    exact ⟨h'.spawned, fun _ => ⟨by simp [hplan], h'⟩⟩

end Run

end Healer
