import Healer.Sanity.Sample
import Healer.Sanity.Walk

/-! The rows of the instances only ever change in three ways: a live row is moved along the table, a
PENDING row is added on a port that no live row holds, and columns beside the server, the port and the
status are written. So a STOPPED or FAILED row stays as it is, although the table would let it start
again, and the applications of a server never share a port between live rows, in whatever order their
operations write. -/

namespace Healer

open List Table Option Sample

open Prog (Ends Keeps)

/-- What an insert of a row would find on a port of a server. -/
abbrev PortIndex := InstanceId → ServerId → ℕ → Bool

def Instance.seat (inst : Instance) : ServerId × ℕ × InstanceStatus :=
  (inst.serverId, inst.port, inst.status)

/-- A row that the partial unique index counts. -/
def Instance.sits (inst : Instance) (s : ServerId) (port : ℕ) : Prop :=
  inst.serverId = s ∧ inst.port = port ∧ inst.status.terminal = false

/-- One write to the rows of an application. `O` tells what the index may hold of the others. -/
inductive RowStep (O : Set PortIndex) (t : Table Instance) : Table Instance → Prop
  | aside {t' : Table Instance} (next : t'.next = t.next)
      (seats : ∀ i, (t'.row i).map Instance.seat = (t.row i).map Instance.seat) : RowStep O t t'
  | move {i : InstanceId} {inst : Instance} (target : InstanceStatus) (row : t.row i = some inst)
      (live : inst.status.terminal = false)
      (can : canTransition instanceTransitions inst.status target = true) :
      RowStep O t (t.modify i fun inst => { inst with status := target })
  | insert (inst : Instance) (pending : inst.status = .pending)
      (free : ∀ i a, t.row i = some a → ¬ a.sits inst.serverId inst.port)
      (unseen : ∃ foreign ∈ O, foreign t.next inst.serverId inst.port = false) : RowStep O t (t.insert inst)

def Writes (O : Set PortIndex) : Table Instance → Table Instance → Prop := Relation.ReflTransGen (RowStep O)

/-! ## One application -/

/-- The row is still there, on its server and port, and a retired one is as it was. -/
def Lasting (t t' : Table Instance) : Prop :=
  ∀ i inst, t.row i = some inst → ∃ inst', t'.row i = some inst' ∧ inst'.serverId = inst.serverId ∧
    inst'.port = inst.port ∧ (inst.status.terminal = true → inst'.status = inst.status)

section Rows

variable {O : Set PortIndex} {t t' t'' : Table Instance} {i : InstanceId} {inst : Instance}

theorem seat_cases (seats : ∀ i, (t'.row i).map Instance.seat = (t.row i).map Instance.seat)
    (hrow : t.row i = some inst) : ∃ inst', t'.row i = some inst' ∧ inst'.seat = inst.seat := by
  have hi := seats i
  rw [hrow, map_some, map_eq_some_iff] at hi
  exact hi

theorem RowStep.lasting (h : RowStep O t t') : Lasting t t' := by
  intro i inst hrow
  cases h with
  | aside next seats =>
    obtain ⟨inst', hrow', heq⟩ := seat_cases seats hrow
    simp only [Instance.seat, Prod.mk.injEq] at heq
    exact ⟨inst', hrow', heq.1, heq.2.1, fun _ => heq.2.2⟩
  | @move j inst' target row live can =>
    by_cases hij : i = j
    · subst hij
      rw [hrow] at row
      cases row
      refine ⟨{ inst with status := target }, by rw [modify_row_self, hrow]; rfl, rfl, rfl, fun hst => ?_⟩
      rw [live] at hst
      cases hst
    · exact ⟨inst, by rw [modify_row_of_ne _ _ hij]; exact hrow, rfl, rfl, fun _ => rfl⟩
  | insert new pending free unseen =>
    have hne : i ≠ t.next := Nat.ne_of_lt (lt_of_row hrow)
    exact ⟨inst, by rw [insert_row_of_ne _ _ hne]; exact hrow, rfl, rfl, fun _ => rfl⟩

theorem Lasting.trans (h : Lasting t t') (h' : Lasting t' t'') : Lasting t t'' := by
  intro i inst hrow
  obtain ⟨a, ha, hserver, hport, hst⟩ := h i inst hrow
  obtain ⟨b, hb, hserver', hport', hst'⟩ := h' i a ha
  refine ⟨b, hb, hserver'.trans hserver, hport'.trans hport, fun hterm => ?_⟩
  have heq := hst hterm
  exact (hst' (by rw [heq]; exact hterm)).trans heq

theorem Writes.lasting (h : Writes O t t') : Lasting t t' := by
  induction h with
  | refl => exact fun i inst hrow => ⟨inst, hrow, rfl, rfl, fun _ => rfl⟩
  | tail _ hstep ih => exact ih.trans hstep.lasting

end Rows

/-! ## Histories -/

/-- The table `t₀` and the tables of a run: at each event and now. -/
def World.tables (t₀ : Table Instance) (w : World) : List (Table Instance) :=
  t₀ :: w.trace.map (fun e => e.db.instances) ++ [w.db.instances]

/-- The releases of the rows have been inserted. -/
def Db.Linked (db : Db) : Prop :=
  ∀ i inst r, db.instances.row i = some inst → inst.releaseId = some r → r < db.releases.next

/-- The tables of the run come one after the other by writes. -/
structure Written (O : Set PortIndex) (t₀ : Table Instance) (w : World) : Prop where
  ordered : (w.tables t₀).Pairwise (Writes O)
  linked : w.db.Linked

section Histories

variable {O : Set PortIndex} {t₀ : Table Instance} {w w' : World} {o : Oracle}

/-- Another table at the end, written from the one that was there. -/
theorem pairwise_concat_of_writes {ts : List (Table Instance)} {t t' : Table Instance}
    (h : (ts ++ [t]).Pairwise (Writes O)) (hwrite : Writes O t t') :
    (ts ++ [t']).Pairwise (Writes O) ∧ (ts ++ [t] ++ [t']).Pairwise (Writes O) := by
  obtain ⟨hts, -, hlast⟩ := pairwise_append.1 h
  have hts' : ∀ a ∈ ts, Writes O a t' := fun a ha => (hlast a ha t (mem_singleton_self t)).trans hwrite
  simp only [pairwise_append, mem_append, mem_singleton, forall_eq, or_imp, forall_and]
  exact ⟨⟨hts, pairwise_singleton _ _, hts'⟩, ⟨hts, pairwise_singleton _ _,
    fun a ha => hlast a ha t (mem_singleton_self t)⟩, pairwise_singleton _ _, hts', hwrite⟩

theorem Written.emit (h : Written O t₀ w) (e : Event) : Written O t₀ (w.emit e) := by
  refine ⟨?_, h.linked⟩
  have htables : (w.emit e).tables t₀ = w.tables t₀ ++ [w.db.instances] := by
    rw [World.tables, World.tables, emit_trace, map_append]
    rfl
  rw [htables]
  exact (pairwise_concat_of_writes h.ordered Relation.ReflTransGen.refl).2

theorem Written.single (h : Written O t₀ w) (htrace : w'.trace = w.trace)
    (hstep : RowStep O w.db.instances w'.db.instances) (hlinked : w'.db.Linked) : Written O t₀ w' := by
  refine ⟨?_, hlinked⟩
  rw [World.tables, htrace]
  exact (pairwise_concat_of_writes h.ordered (Relation.ReflTransGen.single hstep)).1

/-- A write that takes no row away, gives none a release and moves none. -/
theorem Written.aside (h : Written O t₀ w) (htrace : w'.trace = w.trace)
    (hnext : w'.db.instances.next = w.db.instances.next)
    (hseats : ∀ i, (w'.db.instances.row i).map Instance.seat = (w.db.instances.row i).map Instance.seat)
    (hreleases : w.db.releases.next ≤ w'.db.releases.next)
    (hlink : ∀ i inst' r, w'.db.instances.row i = some inst' → inst'.releaseId = some r →
      ∃ inst, w.db.instances.row i = some inst ∧ inst.releaseId = some r) : Written O t₀ w' := by
  refine h.single htrace (.aside hnext hseats) fun i inst' r hrow' hr => ?_
  obtain ⟨inst, hrow, hr⟩ := hlink i inst' r hrow' hr
  exact (h.linked i inst r hrow hr).trans_le hreleases

theorem live_of_move {st target : InstanceStatus} (hcan : canTransition instanceTransitions st target = true)
    (hfrom : target ≠ .starting ∨ st = .pending) : st.terminal = false := by
  revert hcan hfrom
  cases st <;> cases target <;> decide

theorem walk_written (hO : o.foreignPort ∈ O) (t₀ : Table Instance) :
    Walk o (fun r w => r < w.db.releases.next) (Written O t₀) where
  onEmit _ e h := h.emit e
  onRest w w' hdb htrace h := by
    refine h.aside htrace (by rw [hdb]) (fun i => by rw [hdb]) (by rw [hdb]) fun i inst r hrow hr => ?_
    rw [hdb] at hrow
    exact ⟨inst, hrow, hr⟩
  onWrite w db hdb h := by
    refine h.aside rfl (congrArg Track.next hdb) (fun i => ?_) (congrArg (fun q => q.releases.next) hdb).ge
      fun i inst' r hrow' hr => ?_
    · have hi := congrArg (Option.map Prod.snd) (standing_of_track hdb i)
      rw [Option.map_map, Option.map_map] at hi
      exact hi
    · have hi := (standing_of_track hdb i).symm
      rw [show db.instances.row i = some inst' from hrow', map_some] at hi
      obtain ⟨inst, hrow, heq⟩ := map_eq_some_iff.1 hi
      exact ⟨inst, hrow, (congrArg (fun q => q.1) heq).trans hr⟩
  found hrow := lt_of_row hrow
  known _ _ _ hrel h := by rw [hrel]; exact h
  move {w i inst target} h hrow hcan hfrom := by
    refine h.single rfl (.move target hrow (live_of_move hcan hfrom) hcan) fun j inst' r hrow' hr => ?_
    rcases modify_row_cases hrow' with ⟨a, rfl, ha, rfl⟩ | hrow'
    · exact h.linked _ a r ha hr
    · exact h.linked j inst' r hrow' hr
  insert {w r s port} h hknown hfree := by
    simp only [World.taken, Bool.or_eq_false_iff] at hfree
    refine h.single rfl (.insert _ rfl (fun i a hrow hsits => ?_) ⟨_, hO, hfree.2⟩) fun j inst' r' hrow' hr => ?_
    · have hheld : w.db.portHeld s port = true := by
        simp only [Db.portHeld, Bool.not_eq_true', isEmpty_eq_false_iff_exists_mem]
        obtain ⟨hserver, hport, hst⟩ := hsits
        refine ⟨i, mem_select.2 ⟨a, hrow, ?_⟩⟩
        simp only [hserver, hport, hst, Application.newInstance, beq_self_eq_true, Bool.not_false, Bool.and_self]
      rw [hfree.1] at hheld
      cases hheld
    · rcases insert_row_cases hrow' with ⟨-, rfl⟩ | hrow'
      · cases hr
        exact hknown
      · exact h.linked j inst' r' hrow' hr

theorem shelving_written (O : Set PortIndex) (t₀ : Table Instance) :
    Shelving (Underway (fun r w => r < w.db.releases.next) (Written O t₀)) where
  onRelease F B r f w h := by
    refine ⟨h.1.aside rfl rfl (fun _ => rfl) le_rfl fun i inst r hrow hr => ⟨inst, hrow, hr⟩, h.2.1, ?_⟩
    cases B <;> exact h.2.2
  onActive F r := by
    refine Prog.keeps_bind (fun w h => ⟨h.1.emit _, h.2⟩) fun _ =>
      Prog.keeps_bind (fun w h => ⟨?_, h.2⟩) fun _ w h => ⟨h.1.emit _, h.2⟩
    exact h.1.aside rfl rfl (fun _ => rfl) le_rfl fun i inst r hrow hr => ⟨inst, hrow, hr⟩
  onInsert {F w} h := by
    refine ⟨h.1.aside rfl rfl (fun _ => rfl) (Nat.le_succ _) fun i inst r hrow hr => ⟨inst, hrow, hr⟩,
      fun r hr => ?_, fun i inst hrow hr => ?_⟩
    · simp only [mem_cons, reduceCtorEq, Fact.known.injEq, false_or] at hr
      rcases hr with rfl | hr
      · exact Nat.lt_succ_self _
      · exact (h.2.1 r hr).trans (Nat.lt_succ_self _)
    · -- no row can be of the release that is being inserted
      exact absurd (h.1.linked i inst _ hrow hr) (Nat.lt_irrefl _)

theorem keeps_flushDeletes_written (F : List Fact) (pending : List ReleaseId) :
    Keeps (Underway (fun r w => r < w.db.releases.next) (Written O t₀) F .nothing) (flushDeletes pending) := by
  intro w h
  change Underway _ _ F .nothing (w.setDb (pending.foldl Db.deleteRelease w.db))
  induction pending generalizing w with
  | nil => exact h
  | cons r rest ih =>
    refine ih (w.setDb (w.db.deleteRelease r)) ⟨h.1.aside rfl rfl (fun i => ?_) le_rfl ?_, h.2⟩
    · exact (map_map _ _ _).trans rfl
    · intro i inst' r' hrow' hr
      obtain ⟨inst, hrow, rfl⟩ := map_eq_some_iff.1 hrow'
      exact ⟨inst, hrow, (filter_eq_some_iff.1 hr).1⟩

theorem keeps_op_written (hO : o.foreignPort ∈ O) (op : Op) : Keeps (Written O t₀) (op.run o) := by
  have hW := walk_written hO t₀
  intro w hw
  refine ((course_walk hW).keeps_run (F := []) (shelving_written O t₀) keeps_flushDeletes_written
    (fun _ _ => trivial) (fun i _ => Or.inl fun F _ => Prog.keeps_of_ends fun w h => ?_) w
    ⟨hw, fun r hr => absurd hr not_mem_nil, trivial⟩).1
  exact hW.transition_ends h fun _ _ => Or.inl (by decide)

/-- What the unique index holds of other applications, in the operations of a history. -/
def indexes (es : List (Oracle × Op)) : Set PortIndex :=
  { foreign | ∃ x ∈ es, x.1.foreignPort = foreign }

theorem history_written (es : List (Oracle × Op)) :
    ∀ w, (∀ x ∈ es, x.1.foreignPort ∈ O) → Written O t₀ w → Written O t₀ (w.history es) := by
  induction es with
  | nil => intro w _ hw; exact hw
  | cons x es ih =>
    intro w hO hw
    have hx : Written O t₀ (x.2.run x.1 w).2 := keeps_op_written (hO x mem_cons_self) x.2 w hw
    exact ih _ (fun y hy => hO y (mem_cons_of_mem _ hy)) hx

theorem tables_writes (es : List (Oracle × Op)) (w : World) (hlinked : w.db.Linked) (hnew : w.trace = []) :
    ((w.history es).tables w.db.instances).Pairwise (Writes (indexes es)) := by
  refine (history_written es w (fun x hx => Exists.intro x ⟨hx, rfl⟩) ⟨?_, hlinked⟩).ordered
  rw [World.tables, hnew]
  exact pairwise_pair.2 Relation.ReflTransGen.refl

/-- In every history an instance stays on the server and the port it was given, its row is never
deleted, and one that is STOPPED or FAILED at some moment has that status at every later one. -/
theorem retired_for_good (es : List (Oracle × Op)) (w : World) (hlinked : w.db.Linked) (hnew : w.trace = []) :
    ((w.history es).tables w.db.instances).Pairwise Lasting :=
  (tables_writes es w hlinked hnew).imp Writes.lasting

theorem created_linked : created.db.Linked := by
  intro i inst r hrow _
  cases hrow

/-- An application is deployed, its first instance is stopped, and it is scaled up. -/
theorem retired_for_good_sample :
    ((created.history [(allWell, .deploy), (allWell, .stop 0),
      (allWell, .scale 3)]).tables created.db.instances).Pairwise Lasting :=
  retired_for_good _ created created_linked rfl

end Histories

/-! ## Several applications -/

section Fleet

variable {A : Type*} [DecidableEq A]

/-- No two live rows are on one port of a server. -/
def Exclusive (T : A → Table Instance) : Prop :=
  ∀ s port a b i j x y, (T a).row i = some x → (T b).row j = some y → x.sits s port → y.sits s port →
    a = b ∧ i = j

/-- One application writes. The index answers it with the live rows of the others as they are. -/
inductive FleetStep (O : A → Set PortIndex) (T : A → Table Instance) :
    (A → Table Instance) → Prop
  | write (a : A) {t' : Table Instance} (foreign : PortIndex) (index : foreign ∈ O a)
      (honest : ∀ b j y s port, b ≠ a → (T b).row j = some y → y.sits s port →
        foreign (T a).next s port = true)
      (step : RowStep {foreign} (T a) t') : FleetStep O T (Function.update T a t')

/-- A live row was live where it is, or it has just been put where nothing is. -/
theorem RowStep.sits_cases {foreign : PortIndex} {t t' : Table Instance}
    (h : RowStep {foreign} t t') {i : InstanceId} {inst' : Instance} {s : ServerId} {port : ℕ}
    (hrow : t'.row i = some inst') (hsits : inst'.sits s port) :
    (∃ inst, t.row i = some inst ∧ inst.sits s port) ∨
      i = t.next ∧ foreign t.next s port = false ∧ ∀ j x, t.row j = some x → ¬ x.sits s port := by
  cases h with
  | aside next seats =>
    obtain ⟨inst, hrow', heq⟩ := seat_cases (fun i => (seats i).symm) hrow
    simp only [Instance.seat, Prod.mk.injEq] at heq
    exact .inl ⟨inst, hrow', by rw [Instance.sits, heq.1, heq.2.1, heq.2.2]; exact hsits⟩
  | move target row live can =>
    rcases modify_row_cases hrow with ⟨a, rfl, ha, rfl⟩ | hrow
    · rw [row] at ha
      cases ha
      exact .inl ⟨_, row, hsits.1, hsits.2.1, live⟩
    · exact .inl ⟨inst', hrow, hsits⟩
  | insert inst pending free unseen =>
    rcases insert_row_cases hrow with ⟨rfl, rfl⟩ | hrow
    · obtain ⟨rfl, rfl, -⟩ := hsits
      obtain ⟨_, rfl, hunseen⟩ := unseen
      exact .inr ⟨rfl, hunseen, free⟩
    · exact .inl ⟨inst', hrow, hsits⟩

variable {O : A → Set PortIndex} {T T' : A → Table Instance}

/-- Of the whole fleet only one row can be on a port that it was not on before, and then none was. -/
theorem FleetStep.sits_cases (h : FleetStep O T T') : ∃ a, ∀ s port b j y, (T' b).row j = some y → y.sits s port →
    (∃ y', (T b).row j = some y' ∧ y'.sits s port) ∨
      (b = a ∧ j = (T a).next) ∧ ∀ c k z, (T c).row k = some z → ¬ z.sits s port := by
  obtain ⟨a, foreign, index, honest, step⟩ := h
  refine ⟨a, fun s port b j y hrow hsits => ?_⟩
  by_cases hb : b = a
  · subst hb
    rw [Function.update_self] at hrow
    rcases step.sits_cases hrow hsits with hold | ⟨hj, hunseen, hfree⟩
    · exact .inl hold
    · refine .inr ⟨⟨rfl, hj⟩, fun c k z hz hzsits => ?_⟩
      by_cases hc : c = b
      · subst hc
        exact hfree k z hz hzsits
      · rw [honest c k z s port hc hz hzsits] at hunseen
        cases hunseen
  · rw [Function.update_of_ne hb] at hrow
    exact .inl ⟨y, hrow, hsits⟩

theorem FleetStep.exclusive (h : FleetStep O T T') (hT : Exclusive T) : Exclusive T' := by
  obtain ⟨a, hcases⟩ := h.sits_cases
  intro s port b c i j x y hx hy hxsits hysits
  rcases hcases s port b i x hx hxsits with ⟨x', hx', hxsits'⟩ | ⟨⟨rfl, rfl⟩, hnone⟩
  · rcases hcases s port c j y hy hysits with ⟨y', hy', hysits'⟩ | ⟨-, hnone⟩
    · exact hT s port b c i j x' y' hx' hy' hxsits' hysits'
    · exact absurd hxsits' (hnone b i x' hx')
  · rcases hcases s port c j y hy hysits with ⟨y', hy', hysits'⟩ | ⟨⟨rfl, rfl⟩, -⟩
    · exact absurd hysits' (hnone c j y' hy')
    · exact ⟨rfl, rfl⟩

/-- Each application's history takes its table from one moment to the next by writes, and in whatever
order the applications' writes fall, live instances never share a port of a server. -/
theorem live_ports_exclusive (w : A → World) (es : A → List (Oracle × Op)) (hlinked : ∀ a, (w a).db.Linked)
    (hnew : ∀ a, (w a).trace = []) (hstart : Exclusive fun a => (w a).db.instances) :
    (∀ a, (((w a).history (es a)).tables (w a).db.instances).Pairwise (Writes (indexes (es a)))) ∧
      ∀ T, Relation.ReflTransGen (FleetStep fun a => indexes (es a)) (fun a => (w a).db.instances) T →
        Exclusive T := by
  refine ⟨fun a => tables_writes (es a) (w a) (hlinked a) (hnew a), fun T hT => ?_⟩
  induction hT with
  | refl => exact hstart
  | tail _ hstep ih => exact hstep.exclusive ih

/-- Two applications are deployed beside each other. -/
theorem live_ports_exclusive_sample :
    (∀ _ : Bool, ((created.history [(allWell, .deploy)]).tables created.db.instances).Pairwise
      (Writes (indexes [(allWell, .deploy)]))) ∧
    ∀ T, Relation.ReflTransGen (FleetStep fun _ : Bool => indexes [(allWell, .deploy)])
      (fun _ => created.db.instances) T → Exclusive T := by
  refine live_ports_exclusive (fun _ => created) (fun _ => [(allWell, .deploy)])
    (fun _ => created_linked) (fun _ => rfl) ?_
  intro s port a b i j x y hx
  cases hx

end Fleet

end Healer
