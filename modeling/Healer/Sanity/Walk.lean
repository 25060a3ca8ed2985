import Healer.Sanity.CourseHealing

/-! How an operation goes through the rows of the instances. Between two writes to them nothing
happens that a property of the rows, the releases and the trace would notice; the writes are moves
along the table out of a live status, and inserts of PENDING rows on a free port. -/

namespace Healer

open Prog

/-- The releases, which of them is active, and the rows of the instances. -/
structure Track where
  releases : Table Release
  active : Option ReleaseId
  next : ℕ
  standing : InstanceId → Option (Option ReleaseId × ServerId × ℕ × InstanceStatus)

def Db.track (db : Db) : Track :=
  ⟨db.releases, db.application.activeReleaseId, db.instances.next,
    fun i => (db.instances.row i).map Instance.standing⟩

theorem track_of_outline {db db' : Db} (h : db'.outline = db.outline) : db'.track = db.track :=
  congrArg (fun q : Outline => Track.mk q.releases q.active q.next q.standing) h

/-- A property that nothing but a write to these can break. -/
structure Idle (P : World → Prop) : Prop where
  onEmit : ∀ w e, P w → P (w.emit e)
  onRest : ∀ w w' : World, w'.db = w.db → w'.trace = w.trace → P w → P w'
  onWrite : ∀ w db, db.track = w.db.track → P w → P (w.setDb db)

namespace Idle

variable {P : World → Prop} {o : Oracle} {w : World}

theorem quiet (hP : Idle P) : Quiet P :=
  ⟨fun w e _ => hP.onEmit w e, fun w db h => hP.onWrite w db (track_of_outline h)⟩

theorem tickBegin (hP : Idle P) (hw : P w) : P w.tickBegin := by
  unfold World.tickBegin
  split
  · exact hP.onRest w _ rfl rfl hw
  · exact hw

theorem poll (hP : Idle P) (i : InstanceId) (host : String) (hw : P w) : P (w.poll o i host).2 := by
  unfold World.poll
  split
  · dsimp only
    split
    · exact hw
    · split
      · exact hP.onRest w _ rfl rfl hw
      · exact hP.onEmit _ _ (hP.onWrite _ _ rfl (hP.onEmit _ _ hw))
  · exact hw

theorem pollNext (hP : Idle P) (hw : P w) : P (w.pollNext o) := by
  unfold World.pollNext
  split
  · exact hw
  · exact hP.poll _ _ (hP.onRest w _ rfl rfl hw)

theorem update (hP : Idle P) (c : HealerYaml) (hw : P w) : P ((Background.update c).run o w) :=
  hP.onEmit _ _ (hP.onWrite w (w.db.updateApplication c) rfl hw)

theorem suspend (hP : Idle P) (hw : P w) : P (w.suspend o) := by
  refine keeps_suspend_of (fun _ b _ w hw => ?_) (fun w w' hdb htrace _ => hP.onRest w w' hdb htrace) w hw
  cases b with
  | update c => exact hP.update c hw
  | tickBegin => exact hP.tickBegin hw
  | pollNext => exact hP.pollNext hw

theorem keeps_submit (hP : Idle P) (agent : ServerId) (key : CommandKey) (command : Command) :
    Keeps P (submitCommandAndWait o agent key command) :=
  have hemit : ∀ e, Keeps P (emit e) := fun e w => hP.onEmit w e
  keeps_submit_of (hemit _) (hemit _) (fun _ hw => hP.suspend hw) (fun _ => hemit _) (hemit _)

theorem keeps_submitStart (hP : Idle P) (agent : ServerId) (key : CommandKey) (r : ReleaseId)
    (i : InstanceId) (c : HealerYaml) : Keeps P (submitStart o agent key r i c) :=
  keeps_bind (keeps_getRelease r) fun _ =>
    keeps_bind (keeps_getInstance i) fun _ => hP.keeps_submit _ _ _

theorem keeps_submitStop (hP : Idle P) (agent : ServerId) (key : CommandKey) (i : InstanceId)
    (c : HealerYaml) : Keeps P (submitStop o agent key i c) :=
  keeps_bind (keeps_getInstance i) fun _ => hP.keeps_submit _ _ _

theorem and {Q : World → Prop} (hP : Idle P) (hQ : Idle Q) : Idle fun w => P w ∧ Q w where
  onEmit w e h := ⟨hP.onEmit w e h.1, hQ.onEmit w e h.2⟩
  onRest w w' hdb htrace h := ⟨hP.onRest w w' hdb htrace h.1, hQ.onRest w w' hdb htrace h.2⟩
  onWrite w db hdb h := ⟨hP.onWrite w db hdb h.1, hQ.onWrite w db hdb h.2⟩

end Idle

/-! ## Walks -/

def World.setStatus (w : World) (i : InstanceId) (target : InstanceStatus) : World :=
  w.setDb { w.db with instances := w.db.instances.modify i fun inst => { inst with status := target } }

/-- A property of the rows that survives the writes to them. `N` tells what is known of a release
whose row has been read: nothing but a write to the releases changes that. -/
structure Walk (o : Oracle) (N : ReleaseId → World → Prop) (P : World → Prop) : Prop extends Idle P where
  found : ∀ {w r rel}, w.db.releases.row r = some rel → N r w
  known : ∀ (w w' : World) r, w'.db.releases = w.db.releases → N r w → N r w'
  move : ∀ {w i inst target}, P w → w.db.instances.row i = some inst →
    canTransition instanceTransitions inst.status target = true →
    (target ≠ .starting ∨ inst.status = .pending) → P (w.setStatus i target)
  insert : ∀ {w r s port}, P w → N r w → w.taken o s port = false → P (w.allocated r s port)

/-- What the rows show of a brief fact. -/
def Brief.shown : Brief → World → Prop
  | .fresh i, w => ∃ inst, w.db.instances.row i = some inst ∧ inst.status = .pending
  | .pending r, w => ∀ i inst, w.db.instances.row i = some inst → inst.releaseId = some r → inst.status = .pending
  | _, _ => True

/-- The state of a walk. -/
def Underway (N : ReleaseId → World → Prop) (P : World → Prop) (F : List Fact) (B : Brief) (w : World) : Prop :=
  P w ∧ (∀ r, .known r ∈ F → N r w) ∧ B.shown w

section Walk

variable {o : Oracle} {N : ReleaseId → World → Prop} {P : World → Prop} {F : List Fact} {B : Brief}
  {w : World} {i : InstanceId} {r : ReleaseId} {target : InstanceStatus}

theorem standing_of_track {w : World} {db : Db} (h : db.track = w.db.track) (i : InstanceId) :
    (db.instances.row i).map Instance.standing = (w.db.instances.row i).map Instance.standing :=
  congrFun (congrArg Track.standing h) i

theorem idle_shown (B : Brief) : Idle B.shown := by
  cases B with
  | nothing | confirmed => exact ⟨fun _ _ _ => trivial, fun _ _ _ _ _ => trivial, fun _ _ _ _ => trivial⟩
  | fresh i =>
    refine ⟨fun _ _ h => h, fun w w' hdb _ h => ?_, fun w db hdb h => ?_⟩
    · rw [Brief.shown, hdb]
      exact h
    · obtain ⟨inst, hrow, hst⟩ := h
      have hi := standing_of_track hdb i
      rw [hrow, Option.map_some, Option.map_eq_some_iff] at hi
      obtain ⟨inst', hrow', heq⟩ := hi
      exact ⟨inst', hrow', (congrArg (fun q => q.2.2.2) heq).trans hst⟩
  | pending r =>
    refine ⟨fun _ _ h => h, fun w w' hdb _ h => ?_, fun w db hdb h i inst' hrow' hr => ?_⟩
    · rw [Brief.shown, hdb]
      exact h
    · have hi := (standing_of_track hdb i).symm
      rw [show db.instances.row i = some inst' from hrow', Option.map_some, Option.map_eq_some_iff] at hi
      obtain ⟨inst, hrow, heq⟩ := hi
      exact (congrArg (fun q => q.2.2.2) heq).symm.trans
        (h i inst hrow ((congrArg (fun q => q.1) heq).trans hr))

theorem idle_known (hN : ∀ (w w' : World) r, w'.db.releases = w.db.releases → N r w → N r w')
    (F : List Fact) : Idle fun w => ∀ r, .known r ∈ F → N r w where
  onEmit w _ h r hr := hN w _ r rfl (h r hr)
  onRest w w' hdb _ h r hr := hN w w' r (congrArg Db.releases hdb) (h r hr)
  onWrite w _ hdb h r hr := hN w _ r (congrArg Track.releases hdb) (h r hr)

theorem Walk.idle (hW : Walk o N P) (F : List Fact) (B : Brief) : Idle (Underway N P F B) :=
  hW.toIdle.and ((idle_known hW.known F).and (idle_shown B))

/-- The write of a status, when the table allows it. -/
theorem Walk.transition_ends (hW : Walk o N P) (h : Underway N P F B w)
    (hfrom : ∀ inst, w.db.instances.row i = some inst → target ≠ .starting ∨ inst.status = .pending) :
    Ends (transition i target w) (fun _ => Underway N P F .nothing) (fun _ => Underway N P F .nothing) := by
  simp only [transition, ends_bind, ends_getDb]
  cases hrow : w.db.instances.row i with
  | none => exact ⟨h.1, h.2.1, trivial⟩
  | some inst =>
    have h' : Underway N P F .nothing (w.emit (.instanceTransition i inst.status target)) :=
      (hW.idle F .nothing).onEmit w _ ⟨h.1, h.2.1, trivial⟩
    simp only [ends_bind, ends_emit, ends_ite, ends_modifyDb, ends_raise]
    refine ⟨fun hcan => ⟨hW.move h'.1 hrow hcan (hfrom inst hrow), fun r hr => ?_, trivial⟩, fun _ => h'⟩
    exact hW.known (w.emit (.instanceTransition i inst.status target)) _ r rfl (h'.2.1 r hr)

theorem Walk.allocate_ends (hW : Walk o N P) {s : ServerId} {lo hi : ℕ} (h : Underway N P F B w)
    (hknown : .known r ∈ F) :
    Ends (allocateInstance o r s lo hi w)
      (fun i w' => Underway N P (.owned i :: F) .nothing w' ∧ i = w.db.instances.next ∧
        ∃ port, w' = w.allocated r s port)
      (fun _ => Underway N P F .nothing) := by
  refine (allocate_least o r s lo hi w).mono (fun i w' h' => ?_) (fun e w' h' => ?_)
  · obtain ⟨hi, port, hport, rfl⟩ := h'
    refine ⟨⟨hW.insert h.1 (h.2.1 r hknown) hport.free, fun r' hr' => ?_, trivial⟩, hi, port, rfl⟩
    refine hW.known w _ r' rfl (h.2.1 r' ?_)
    simpa using hr'
  · obtain ⟨rfl, -⟩ | ⟨⟨-, rfl⟩, -⟩ := h'
    · exact ⟨h.1, h.2.1, trivial⟩
    · exact (hW.idle F .nothing).onEmit w _ ⟨h.1, h.2.1, trivial⟩

theorem underway_after {k : Errand} {ok : Bool} (h : Underway N P F .nothing w) :
    Underway N P F (.after k i ok) w := by
  cases ok with
  | true => exact ⟨h.1, h.2.1, trivial⟩
  | false => exact h

theorem known_cons {f : Fact} (hf : ∀ r, f ≠ .known r) (h : ∀ r, .known r ∈ F → N r w) :
    ∀ r, .known r ∈ f :: F → N r w := by
  intro r hr
  rcases List.mem_cons.1 hr with heq | hr
  · exact absurd heq.symm (hf r)
  · exact h r hr

theorem course_walk (hW : Walk o N P) :
    Course o ⟨fun _ => True, fun _ => True, fun _ _ => True⟩ (Underway N P) where
  quiet {F B} := (hW.idle F B).quiet
  mono h hF := ⟨h.1, fun r hr => h.2.1 r (hF hr), h.2.2⟩
  forget h := ⟨h.1, h.2.1, trivial⟩
  server _ _ := trivial
  config _ _ := trivial
  host _ _ := trivial
  target _ _ := trivial
  seen h _ := ⟨h.1, known_cons (fun _ heq => by cases heq) h.2.1, h.2.2⟩
  found {F B w r rel} h hrow := by
    refine ⟨h.1, fun r' hr' => ?_, h.2.2⟩
    rcases List.mem_cons.1 hr' with heq | hr'
    · cases heq
      exact hW.found hrow
    · exact h.2.1 r' hr'
  home _ _ _ := trivial
  reread _ _ _ _ := trivial
  onSuspend {F B w} h := (hW.idle F B).suspend h
  onDeliver {F B w} _ _ h := (hW.idle F B).onRest w _ rfl rfl h
  onProbe {F B w _ _ _} _ _ h _ _ _ := (hW.idle F B).onEmit w _ h
  onAsk {F B} _ _ _ _ _ := (hW.idle F B).keeps_submit _ _ _
  onStart {F w i agent c} key r h _ _ _ := (((hW.idle F .nothing).keeps_submitStart agent key r i c).ends h).mono
    (fun _ _ h' => underway_after h') (fun _ _ h' => h')
  onStop {F w i agent c} key h _ _ _ := (((hW.idle F .nothing).keeps_submitStop agent key i c).ends h).mono
    (fun _ _ h' => underway_after h') (fun _ _ h' => h')
  move {F w i target} ht h := (hW.transition_ends h fun _ _ => Or.inl (by rintro rfl; cases ht)).mono
    (fun _ _ h' => ⟨h'.1, known_cons (fun _ heq => by cases heq) h'.2.1, trivial⟩) (fun _ _ h' => h')
  begin {F w i} h _ := by
    refine hW.transition_ends h fun inst hrow => Or.inr ?_
    obtain ⟨inst', hrow', hst⟩ := h.2.2
    rw [hrow] at hrow'
    cases hrow'
    exact hst
  confirm {F w k i} h _ := hW.transition_ends h fun _ _ => Or.inl (by cases k <;> decide)
  allocate {F w r s} lo hi h _ hknown := by
    refine (hW.allocate_ends h hknown).mono (fun i w' h' => ?_) (fun _ _ h' => h')
    obtain ⟨h', rfl, port, rfl⟩ := h'
    exact ⟨h'.1, h'.2.1, _, Table.insert_row_self _ _, rfl⟩
  allocateFirst {F w r s} lo hi h _ hknown := by
    refine (hW.allocate_ends h hknown).mono (fun i w' h' => ?_) (fun _ _ h' => h')
    obtain ⟨h', rfl, port, rfl⟩ := h'
    refine ⟨h'.1, h'.2.1, fun j inst hrow hr => ?_⟩
    rcases Table.insert_row_cases hrow with ⟨-, rfl⟩ | hrow
    · rfl
    · exact h.2.2 j inst hrow hr
  pick {F w r i inst} h _ hrow hr :=
    ⟨h.1, known_cons (fun _ heq => by cases heq) h.2.1, inst, hrow, h.2.2 i inst hrow hr⟩
  onTickBegin {F w} h := (hW.idle F .nothing).tickBegin h
  onPoll {F w i host rest} h _ := (hW.idle F .nothing).poll i host ((hW.idle F .nothing).onRest w _ rfl rfl h)
  onDrop {F w} h := (hW.idle F .nothing).onRest w _ rfl rfl h
  onUpdate {F w c} _ h := (hW.idle F .nothing).update c h

end Walk

end Healer
