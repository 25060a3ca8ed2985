import Healer.Sanity.Opened
import Healer.Sanity.PlacidOps
import Healer.Sanity.Sample

/-! The active release is always one of the READY releases. Releases change hands in four
operations and are deleted in one, and by the time a run deletes releases its own is the active
one. -/

namespace Healer

open Prog List Table

/-! ## The shelf -/

namespace Shelf

variable {s : Shelf} {r r' : ReleaseId}

/-- The release is there and READY. -/
def Ready (s : Shelf) (r : ReleaseId) : Prop :=
  ∃ rel, s.releases.row r = some rel ∧ rel.status = .ready

/-- The active release, if there is one, is there and READY. -/
def Sound (s : Shelf) : Prop := ∀ r, s.active = some r → s.Ready r

theorem Ready.insert (h : s.Ready r) (rel : Release) :
    Shelf.Ready { s with releases := s.releases.insert rel } r := by
  obtain ⟨rel', hrow, hst⟩ := h
  have hne : r ≠ s.releases.next := (lt_of_row hrow).ne
  exact ⟨rel', (insert_row_of_ne _ _ hne).trans hrow, hst⟩

theorem Ready.modify (h : s.Ready r) {f : Release → Release}
    (hf : r = r' → ∀ rel, rel.status = .ready → (f rel).status = .ready) :
    Shelf.Ready { s with releases := s.releases.modify r' f } r := by
  obtain ⟨rel, hrow, hst⟩ := h
  by_cases hr : r = r'
  · subst hr
    refine ⟨f rel, ?_, hf rfl rel hst⟩
    rw [modify_row_self, hrow]
    rfl
  · exact ⟨rel, (modify_row_of_ne _ _ hr).trans hrow, hst⟩

theorem Ready.erase (h : s.Ready r) (hr : r ≠ r') :
    Shelf.Ready { s with releases := s.releases.erase r' } r := by
  obtain ⟨rel, hrow, hst⟩ := h
  exact ⟨rel, (if_neg hr).trans hrow, hst⟩

theorem Sound.insert (h : s.Sound) (rel : Release) :
    Shelf.Sound { s with releases := s.releases.insert rel } :=
  fun r hr => (h r hr).insert rel

/-- The new release is not the active one. -/
theorem Sound.next (h : s.Sound) : s.active ≠ some s.releases.next := by
  intro hnext
  obtain ⟨rel, hrow, -⟩ := h _ hnext
  exact (lt_of_row hrow).false

theorem Sound.modify (h : s.Sound) {f : Release → Release}
    (hf : s.active = some r → ∀ rel, rel.status = .ready → (f rel).status = .ready) :
    Shelf.Sound { s with releases := s.releases.modify r f } := by
  intro a ha
  refine (h a ha).modify ?_
  intro har
  subst har
  exact hf ha

theorem Sound.erase (h : s.Sound) (hr : s.active ≠ some r) :
    Shelf.Sound { s with releases := s.releases.erase r } := by
  intro a ha
  refine (h a ha).erase ?_
  intro har
  subst har
  exact hr ha

end Shelf

theorem shelf_deleteRelease {db : Db} {r : ReleaseId} (hr : db.shelf.active ≠ some r) :
    (db.deleteRelease r).shelf = { db.shelf with releases := db.shelf.releases.erase r } := by
  have hactive : db.application.activeReleaseId.filter (· != r) = db.application.activeReleaseId := by
    cases ha : db.application.activeReleaseId with
    | none => rfl
    | some a =>
      have hne : a ≠ r := by
        intro har
        subst har
        exact hr ha
      simp [Option.filter, hne]
  simp only [Db.shelf, Db.deleteRelease, hactive]

/-- The shelf at each event of the run so far, and as it is now. -/
def World.shelves (w : World) : List Shelf := w.trace.map (fun e => e.db.shelf) ++ [w.db.shelf]

/-- Every shelf of the run is sound, and once a release is active some release is. -/
structure Founded (w : World) : Prop where
  sound : ∀ s ∈ w.shelves, s.Sound
  lasting : w.shelves.Pairwise fun s s' => s.active.isSome → s'.active.isSome

namespace Founded

variable {w : World} {db : Db}

theorem now (h : Founded w) : w.db.shelf.Sound := h.sound _ (by simp [World.shelves])

theorem emit (h : Founded w) (e : Event) : Founded (w.emit e) := by
  have hshelves : (w.emit e).shelves = w.shelves ++ [w.db.shelf] := by
    simp [World.shelves, World.emit]
  constructor
  · intro s hs
    rw [hshelves, mem_append, mem_singleton] at hs
    obtain hs | rfl := hs
    · exact h.sound s hs
    · exact h.now
  · have hlast := h.lasting
    rw [hshelves]
    simp only [World.shelves, pairwise_append, mem_append, mem_singleton] at hlast ⊢
    refine ⟨hlast, pairwise_singleton _ _, ?_⟩
    rintro s (hs | rfl) s' rfl
    · exact hlast.2.2 s hs _ rfl
    · exact id

theorem setDb (h : Founded w) (hsound : db.shelf.Sound)
    (hset : w.db.shelf.active.isSome → db.shelf.active.isSome) : Founded (w.setDb db) := by
  have hlast := h.lasting
  have hpast := h.sound
  simp only [World.shelves, mem_append, mem_singleton] at hpast
  simp only [World.shelves, pairwise_append, mem_singleton] at hlast
  constructor
  · intro s hs
    obtain hs | hs := mem_append.1 hs
    · exact hpast s (.inl hs)
    · rw [mem_singleton.1 hs]
      exact hsound
  · refine pairwise_append.2 ⟨hlast.1, pairwise_singleton _ _, ?_⟩
    intro s hs s' hs'
    rw [mem_singleton.1 hs']
    exact hset ∘ hlast.2.2 s hs _ rfl

end Founded

/-- A founded run with a shelf as `Q` says. -/
structure On (Q : Shelf → Prop) (w : World) : Prop where
  founded : Founded w
  shelf : Q w.db.shelf

theorem Founded.on {w : World} (h : Founded w) : On (fun _ => True) w := ⟨h, trivial⟩

theorem indifferent_on (Q : Shelf → Prop) : Indifferent (On Q) where
  onSetDb w db hshelf h := by
    refine ⟨h.founded.setDb ?_ ?_, ?_⟩
    · rw [hshelf]
      exact h.founded.now
    · rw [hshelf]
      exact id
    · rw [setDb_db, hshelf]
      exact h.shelf
  onEmit _ e _ h := ⟨h.founded.emit e, h.shelf⟩
  onAny _ e h := ⟨h.founded.emit e, h.shelf⟩
  onRest w w' hdb htrace h := by
    have hshelves : w'.shelves = w.shelves := by simp only [World.shelves, hdb, htrace]
    refine ⟨⟨?_, ?_⟩, ?_⟩
    · rw [hshelves]
      exact h.founded.sound
    · rw [hshelves]
      exact h.founded.lasting
    · rw [hdb]
      exact h.shelf

theorem indifferent_founded : Indifferent Founded where
  onSetDb w db hshelf h := ((indifferent_on _).onSetDb w db hshelf h.on).founded
  onEmit _ e _ h := h.emit e
  onAny _ e h := h.emit e
  onRest w w' hdb htrace h := ((indifferent_on _).onRest w w' hdb htrace h.on).founded

/-! ## Writes to the shelf -/

section Writes

variable {w : World} {r : ReleaseId} {a x : Option ReleaseId} {f : Release → Release}

/-- The release is there, and `a` is active. -/
def Shelf.Holds (a : Option ReleaseId) (r : ReleaseId) (s : Shelf) : Prop :=
  s.active = a ∧ (s.releases.row r).isSome

theorem keeps_modifyRelease_inactive (ha : a ≠ some r) (f : Release → Release) :
    Keeps (On (Shelf.Holds a r)) (modifyRelease r f) := by
  intro w hw
  have hinactive : w.db.shelf.active ≠ some r := by
    rw [hw.shelf.1]
    exact ha
  refine ⟨hw.founded.setDb (hw.founded.now.modify fun h => (hinactive h).elim) id, hw.shelf.1, ?_⟩
  change ((w.db.releases.modify r f).row r).isSome
  rw [modify_row_self, Option.isSome_map]
  exact hw.shelf.2

/-- `_fail` marks a release FAILED unless it is READY. -/
theorem founded_keeps_failRelease (r : ReleaseId) :
    Keeps Founded (modifyRelease r fun rel =>
      if rel.status = .ready then rel else { rel with status := .failed }) := by
  intro w hw
  refine hw.setDb (hw.now.modify fun _ rel hst => ?_) id
  rw [if_pos hst]
  exact hst

theorem founded_keeps_fail {o : Oracle} {d : DeploymentId} (reason : String)
    (cleanupRelease : Option ReleaseId) (cleanup : Option (ServerId × HealerYaml × List InstanceId)) :
    Keeps Founded (fail o d reason cleanupRelease cleanup) :=
  indifferent_founded.keeps_fail founded_keeps_failRelease reason cleanupRelease cleanup

theorem setActive_founded (hw : Founded w) (hready : ∀ r, x = some r → w.db.shelf.Ready r)
    (hset : w.db.shelf.active.isSome → x.isSome) :
    Ends (setActive x w) (fun _ v => Founded v ∧ v.db.shelf = { w.db.shelf with active := x })
      (fun _ _ => False) := by
  have hwrite : Founded ((w.emit (.setActive x)).setDb { w.db with
      application := { w.db.application with activeReleaseId := x } }) :=
    (hw.emit (.setActive x)).setDb hready hset
  exact ⟨hwrite.emit .commit, rfl⟩

theorem insertRelease_founded (hw : Founded w) :
    Ends (insertRelease w)
      (fun r v => On (Shelf.Holds w.db.shelf.active r) v ∧ w.db.shelf.active ≠ some r)
      (fun _ _ => False) := by
  refine (insertRelease_spec w).mono (fun r v h => ?_) fun _ _ h => h
  obtain ⟨rfl, rfl⟩ := h
  refine ⟨⟨hw.setDb (hw.now.insert _) id, rfl, ?_⟩, hw.now.next⟩
  change ((w.db.releases.insert (newRelease w.clock)).row w.db.releases.next).isSome
  rw [insert_row_self]
  rfl

/-- A build that succeeds leaves its release READY. -/
theorem buildRelease_ready {o : Oracle} {d : DeploymentId} {c : HealerYaml} {agent : ServerId}
    (ha : a ≠ some r) (hw : On (Shelf.Holds a r) w) :
    Ends (buildRelease o d r c agent w)
      (fun ok v => On (Shelf.Holds a r) v ∧ (ok = true → v.db.shelf.Ready r)) (fun _ => Founded) := by
  have hP := indifferent_on (Shelf.Holds a r)
  have hmodify := keeps_modifyRelease_inactive ha
  have hlost : ∀ (e : Exn) v, On (Shelf.Holds a r) v → Founded v := fun _ _ h => h.founded
  refine ((hmodify _).ends hw).bind (fun _ w1 h1 => ?_) hlost
  refine (hP.keeps_commit.ends h1).bind (fun _ w2 h2 => ?_) hlost
  refine ((Placid.keeps_getRelease r).ends h2).bind (fun rel w3 h3 => ?_) hlost
  rw [ends_bind, ends_getDb]
  refine ((hP.keeps_submit _ _ _).ends h3).bind (fun row w4 h4 => ?_) hlost
  refine ((hP.keeps_persistAgentOutcome d row).ends h4).bind (fun ok w5 h5 => ?_) hlost
  have hwritten := hP.keeps_commit _ (hmodify (fun rel => if ok then rel.built row
    else { rel with status := .failed }) w5 h5)
  refine ⟨hwritten, fun hok => ?_⟩
  obtain ⟨rel', hrow⟩ := Option.isSome_iff_exists.1 h5.shelf.2
  refine ⟨rel'.built row, ?_, rfl⟩
  change (w5.db.releases.modify r fun rel => if ok then rel.built row
    else { rel with status := .failed }).row r = _
  rw [modify_row_self, show w5.db.releases.row r = some rel' from hrow, Option.map_some, if_pos hok]

end Writes

/-! ## Pruning -/

/-- A property of runs in which `r` is active, which no deletion of another release can break. -/
structure Sparing (r : ReleaseId) (P : World → Prop) : Prop extends Indifferent P where
  active : ∀ w, P w → w.db.shelf.active = some r
  onDelete : ∀ w r', r' ≠ r → P w → P (w.setDb (w.db.deleteRelease r'))

namespace Sparing

variable {r : ReleaseId} {P : World → Prop} {o : Oracle} {d : DeploymentId} {agent : ServerId}
  {c : HealerYaml}

theorem keeps_flushDeletes (hP : Sparing r P) {pending : List ReleaseId} (hr : r ∉ pending) :
    Keeps P (flushDeletes pending) := by
  intro w hw
  change P (w.setDb (pending.foldl Db.deleteRelease w.db))
  induction pending generalizing w with
  | nil => exact hw
  | cons r' pending ih =>
    rw [mem_cons, not_or] at hr
    exact ih hr.2 (w.setDb (w.db.deleteRelease r')) (hP.onDelete w r' (Ne.symm hr.1) hw)

/-- The loop never puts the active release on its list. -/
theorem keeps_pruneLoop (hP : Sparing r P) (rs : List ReleaseId) :
    ∀ pending, r ∉ pending → Keeps P (pruneLoop o d agent c rs pending) := by
  induction rs with
  | nil =>
    intro pending hr
    exact keeps_bind (hP.keeps_flushDeletes hr) fun _ => hP.keeps_commit
  | cons r' rs ih =>
    intro pending hr
    have hkept : ∀ message, Keeps P (do log d .warning message; pruneLoop o d agent c rs [] : M Unit) :=
      fun message => keeps_bind (hP.keeps_log _ _ _) fun _ => ih [] not_mem_nil
    have hflush := hP.keeps_flushDeletes hr
    refine keeps_read_bind fun w hw => keeps_ite (fun _ => ih pending hr) fun hinactive => ?_
    have hne : r ≠ r' := by
      intro heq
      subst heq
      exact hinactive (hP.active w hw)
    refine keeps_bind (Placid.keeps_getRelease r') fun rel => keeps_ite (fun _ => ?_) fun _ => ?_
    · refine keeps_ite (fun _ => keeps_bind hflush fun _ => hkept _) fun _ => ?_
      refine keeps_bind hflush fun _ =>
        keeps_bind (keeps_attempt (hP.keeps_submit _ _ _)) fun reply => ?_
      cases reply with
      | ok row => exact keeps_ite (fun _ => ih [r'] (by simpa using hne)) fun _ => hkept _
      | error e => exact hkept _
    · exact ih (pending ++ [r']) (by simp [hr, hne])

theorem keeps_finishSwitch (hP : Sparing r P) (old : Option ReleaseId) :
    Keeps P (finishSwitch o d agent c old) := by
  refine keeps_bind ?_ fun _ => keeps_bind ?_ fun _ => hP.keeps_close d _
  · cases old with
    | none => exact keeps_pure ()
    | some r' => exact hP.keeps_drainOldRelease
  · exact keeps_bind (keeps_read _) fun _ => hP.keeps_pruneLoop _ [] not_mem_nil

end Sparing

/-- The release `r` is active and READY. -/
def Shelf.Shows (r : ReleaseId) (s : Shelf) : Prop := s.active = some r ∧ s.Ready r

theorem sparing_on (r : ReleaseId) : Sparing r (On (Shelf.Shows r)) where
  toIndifferent := indifferent_on _
  active _ h := h.shelf.1
  onDelete w r' hr' h := by
    have hinactive : w.db.shelf.active ≠ some r' := by
      rw [h.shelf.1]
      simpa using hr'.symm
    have hshelf := shelf_deleteRelease hinactive
    refine ⟨h.founded.setDb ?_ ?_, ?_⟩
    · rw [hshelf]
      exact h.founded.now.erase hinactive
    · rw [hshelf]
      exact id
    · rw [setDb_db, hshelf]
      exact ⟨h.shelf.1, h.shelf.2.erase hr'.symm⟩

/-! ## Runs -/

section Runs

variable {o : Oracle} {w : World} {d : DeploymentId} {dep : Deployment} {r : ReleaseId} {c : HealerYaml}
  {agent s : ServerId}

/-- The release `r` can be switched to, and there is something to switch back to. -/
def Shelf.Switchable (r : ReleaseId) (s : Shelf) : Prop := s.active.isSome ∧ s.Ready r

theorem switchTo_founded (new : List InstanceId) (hw : On (Shelf.Switchable r) w) :
    Ends (switchTo o d r agent c new w) (fun _ => Founded) (fun _ => Founded) := by
  obtain ⟨hfounded, hsome, hready⟩ := hw
  rw [switchTo, ends_bind, ends_read]
  set old := w.db.application.activeReleaseId with hold
  have hset := setActive_founded (x := some r) hfounded (fun _ h => Option.some.inj h ▸ hready) fun _ => rfl
  refine hset.bind (fun _ v hv => ?_) fun _ _ h => h.elim
  obtain ⟨hv, hshelf⟩ := hv
  have hshows : On (Shelf.Shows r) v := by
    refine ⟨hv, ?_⟩
    rw [hshelf]
    exact ⟨rfl, hready⟩
  have hfinish : ∀ v, On (Shelf.Shows r) v →
      Ends (finishSwitch o d agent c old v) (fun _ => Founded) (fun _ => Founded) :=
    fun v hv => (((sparing_on r).keeps_finishSwitch old).ends hv).mono (fun _ _ h => h.founded)
      fun _ _ h => h.founded
  rw [ends_ite]
  refine ⟨fun _ => ?_, fun _ => hfinish v hshows⟩
  -- the old release is as it was when the sync is answered
  have hP := indifferent_on fun s => s.Shows r ∧ s.releases = w.db.shelf.releases
  have hback : On (fun s => s.Shows r ∧ s.releases = w.db.shelf.releases) v :=
    ⟨hv, hshows.shelf, by rw [hshelf]⟩
  refine (hP.keeps_syncGateway.ends hback).bind (fun result u hu => ?_) fun _ _ h => h.founded
  rw [ends_ite]
  refine ⟨fun _ => hfinish u ⟨hu.founded, hu.shelf.1⟩, fun _ => ?_⟩
  have hundo : ∀ r, old = some r → u.db.shelf.Ready r := by
    intro r hr
    obtain ⟨rel, hrow, hst⟩ := hfounded.now r hr
    exact ⟨rel, by rw [hu.shelf.2]; exact hrow, hst⟩
  refine (setActive_founded hu.founded hundo fun _ => hsome).bind (fun _ x hx => ?_) fun _ _ h => h.elim
  exact (founded_keeps_fail _ _ _).ends hx.1

theorem gateAndSwitch_founded {lo hi : ℕ} (hw : On (Shelf.Switchable dep.releaseId) w) :
    Ends (gateAndSwitch o d dep c s lo hi w) (fun _ => Founded) (fun _ => Founded) := by
  have hP := indifferent_on (Shelf.Switchable dep.releaseId)
  refine ((hP.keeps_startAndHealthGate dep s lo hi).ends hw).bind (fun started v hv => ?_)
    fun _ _ h => h.founded
  cases started with
  | none => exact (founded_keeps_fail _ _ _).ends hv.founded
  | some new => exact switchTo_founded new hv

/-- What a switch finds: some release is active, and its own is yet to be built or READY. -/
structure Shelf.Before (dep : Deployment) (s : Shelf) : Prop where
  active : s.active.isSome
  build : dep.kind = .blueGreen → s.active ≠ some dep.releaseId
  built : dep.kind ≠ .blueGreen → s.Ready dep.releaseId

/-- Built by the run or READY before it, the release can be switched to. -/
theorem built_switchable {v : World} (hbefore : w.db.shelf.Before dep)
    (hrel : (w.db.releases.row dep.releaseId).isSome) (hv : On (fun s => s = w.db.shelf) v) :
    Ends ((if dep.kind = .blueGreen then buildRelease o d dep.releaseId c s else pure true) v)
      (fun ok u => Founded u ∧ (ok = true → u.db.shelf.Switchable dep.releaseId)) (fun _ => Founded) := by
  rw [ends_ite]
  constructor
  · intro hkind
    have hholds : On (Shelf.Holds w.db.shelf.active dep.releaseId) v := by
      refine ⟨hv.founded, ?_⟩
      rw [hv.shelf]
      exact ⟨rfl, hrel⟩
    refine (buildRelease_ready (hbefore.build hkind) hholds).mono (fun ok u hu => ?_) fun _ _ h => h
    refine ⟨hu.1.founded, fun hok => ⟨?_, hu.2 hok⟩⟩
    rw [hu.1.shelf.1]
    exact hbefore.active
  · intro hkind
    refine ⟨hv.founded, fun _ => ?_⟩
    rw [hv.shelf]
    exact ⟨hbefore.active, hbefore.built hkind⟩

theorem switchBody_founded (hw : On (Shelf.Before dep) w) :
    Ends (switchBody o d dep w) (fun _ => Founded) (fun _ => Founded) := by
  have hfail : ∀ reason cleanupRelease v, Founded v →
      Ends (fail o d reason cleanupRelease none v) (fun _ => Founded) (fun _ => Founded) :=
    fun reason cleanupRelease v hv => (founded_keeps_fail reason cleanupRelease none).ends hv
  obtain ⟨hfounded, hbefore⟩ := hw
  rw [switchBody, ends_bind, ends_getDb]
  rcases hrel : w.db.releases.row dep.releaseId with _ | rel
  · exact hfounded
  rcases w.db.application.serverId with _ | s
  · exact hfail _ none w hfounded
  rcases w.db.application.portRangeStart with _ | lo
  · exact hfail _ none w hfounded
  rcases w.db.application.portRangeEnd with _ | hi
  · exact hfail _ none w hfounded
  refine (Keeps.ends Placid.keeps_configFromApplication ⟨hfounded, rfl⟩).bind
    (fun c v (hv : On (fun s => s = w.db.shelf) v) => ?_) fun _ _ h => h.founded
  rw [ends_ite]
  refine ⟨fun _ => hfail _ none v hv.founded, fun _ => ?_⟩
  refine (built_switchable hbefore (by simp [hrel]) hv).bind (fun ok u hu => ?_) fun _ _ h => h
  cases ok with
  | false => exact hfail "release build failed" (some dep.releaseId) u hu.1
  | true => exact gateAndSwitch_founded ⟨hu.1, hu.2 rfl⟩

theorem keeps_setActive_ready : Keeps (On fun s => s.Ready r) (setActive (some r)) := by
  refine keeps_of_ends fun w hw => ?_
  have hset := setActive_founded (x := some r) hw.founded (fun _ h => Option.some.inj h ▸ hw.shelf)
    fun _ => rfl
  refine hset.mono (fun _ v hv => ⟨hv.1, ?_⟩) fun _ _ h => h.elim
  rw [hv.2]
  exact hw.shelf

theorem deploymentBody_founded (hw : On (fun s => s.active = none) w) :
    Ends (deploymentBody o d dep w) (fun _ => Founded) (fun _ => Founded) := by
  rw [deploymentBody, ends_bind, ends_getDb]
  rcases hrel : w.db.releases.row dep.releaseId with _ | rel
  · exact hw.founded
  rcases (w.db.instances.select fun i => i.releaseId == some dep.releaseId).head? with _ | i
  · exact hw.founded
  have hF := indifferent_founded
  have hlost : ∀ v, Founded v → Ends ((do transition i .failed; transitionDeployment d .failed; commit :
      M Unit) v) (fun _ => Founded) (fun _ => Founded) := fun v hv =>
    (keeps_bind (hF.keeps_transition i _) fun _ => hF.keeps_close d _).ends hv
  have hholds : On (Shelf.Holds none dep.releaseId) w :=
    ⟨hw.founded, hw.shelf, by simp [Db.shelf, hrel]⟩
  refine (Keeps.ends Placid.keeps_configFromApplication hholds).bind (fun c v hv => ?_)
    fun _ _ h => h.founded
  refine (Keeps.ends (Placid.keeps_getInstance i) hv).bind (fun inst u hu => ?_) fun _ _ h => h.founded
  rw [ends_ite]
  constructor
  · intro _
    exact (keeps_bind (hF.keeps_addLog _ _ _) fun _ => hF.keeps_close d _).ends hu.founded
  intro _
  refine (buildRelease_ready (by simp) hu).bind (fun ok x hx => ?_) fun _ _ h => h
  cases ok with
  | false => exact hlost x hx.1.founded
  | true =>
    -- the release is READY from here on, so it may become active at any time
    have hP := indifferent_on fun s => s.Ready dep.releaseId
    refine (Keeps.ends (P := On fun s => s.Ready dep.releaseId) ?_ ⟨hx.1.founded, hx.2 rfl⟩).mono
      (fun _ _ h => h.founded) fun _ _ h => h.founded
    refine keeps_bind (hP.keeps_transition i _) fun _ => keeps_bind hP.keeps_commit fun _ =>
      keeps_bind (hP.keeps_submitStart _ _ _ _ _) fun row =>
      keeps_bind (hP.keeps_persistAgentOutcome d row) fun startOk =>
      keeps_ite (fun _ => ?_) fun _ => ?_
    · exact keeps_bind (hP.keeps_transition i _) fun _ =>
        keeps_bind (hP.keeps_transitionDeployment d _) fun _ =>
        keeps_bind keeps_setActive_ready fun _ =>
        keeps_ite (fun _ => hP.keeps_syncGatewayStep) fun _ => keeps_pure ()
    · exact keeps_bind (hP.keeps_transition i _) fun _ => hP.keeps_close d _

variable {body : DeploymentId → Deployment → M Unit}

/-- The lock is given back whatever the body did. -/
theorem withDeployment_founded (token : Time)
    (hw : Founded w) (hbody : ∀ dep, w.db.deployments.row d = some dep →
      Ends (body d dep w) (fun _ => Founded) (fun _ => Founded)) :
    Founded (withDeployment body d token w).2 := by
  refine Ends.state ?_
  rw [withDeployment, ends_bind, ends_getDb]
  cases hrow : w.db.deployments.row d with
  | none => exact hw
  | some dep =>
    have hrelease := indifferent_founded.keeps_release token
    exact ends_releaseFinally.2
      ((hbody dep hrow).mono (fun _ _ h => hrelease _ h) fun _ _ h => released_of h (hrelease _ h))

/-! ## Setups -/

theorem startDeployment_founded (hw : Founded w) :
    Ends (startDeployment o c w) (fun _ => On fun s => s.active = none) (fun _ => Founded) := by
  simp only [startDeployment, ends_bind, ends_getDb, ends_ite, ends_raise]
  refine ⟨fun _ => hw, fun hnone => ⟨fun _ => hw, fun _ => ⟨fun _ => hw, fun _ => ?_⟩⟩⟩
  rcases c.serverId with _ | s
  · exact hw
  simp only [ends_ite, ends_raise]
  refine ⟨fun _ => hw, fun _ => ⟨fun _ => hw, fun _ => ⟨fun _ => indifferent_founded.onAny _ _ hw, fun _ => ?_⟩⟩⟩
  have hactive : w.db.shelf.active = none := Option.not_isSome_iff_eq_none.1 hnone
  have hP := indifferent_on fun s => s.active = none
  refine (insertRelease_founded hw).bind (fun r v hv => ?_) fun _ _ h => h.elim
  have hv' : On (fun s => s.active = none) v := ⟨hv.1.founded, hv.1.shelf.1.trans hactive⟩
  refine (Keeps.ends (P := On fun s => s.active = none) ?_ hv').mono (fun _ _ h => h)
    fun _ _ h => h.founded
  exact keeps_bind (hP.keeps_allocateInstance _ _ _ _) fun i =>
    keeps_bind (hP.keeps_insertDeployment _ _ _) fun d =>
    keeps_bind (hP.keeps_modifyInstance i _) fun _ =>
    keeps_bind (hP.keeps_transitionDeployment d _) fun _ =>
    keeps_bind hP.keeps_commit fun _ => keeps_pure d

/-- The deployment `d` is ready to be run as a switch. -/
structure Switching (d : DeploymentId) (w : World) : Prop where
  founded : Founded w
  before : ∀ dep, w.db.deployments.row d = some dep → w.db.shelf.Before dep

theorem openSwitch_row (n : ℕ) (kind : DeploymentKind) (w : World) :
    Ends (openSwitch r n kind w)
      (fun d v => ∀ dep, v.db.deployments.row d = some dep → dep.releaseId = r ∧ dep.kind = kind)
      (fun _ _ => True) := by
  refine (openSwitch_spec r n kind w).mono ?_ fun _ _ h => h.elim
  rintro d v ⟨rfl, hdb⟩ dep hrow
  rw [hdb] at hrow
  cases (insert_row_self _ _).symm.trans hrow
  exact ⟨rfl, rfl⟩

theorem openSwitch_switching (n : ℕ) (kind : DeploymentKind) (hw : Founded w)
    (hactive : w.db.shelf.active.isSome) (hbuild : kind = .blueGreen → w.db.shelf.active ≠ some r)
    (hbuilt : kind ≠ .blueGreen → w.db.shelf.Ready r) :
    Ends (openSwitch r n kind w) Switching (fun _ => Founded) := by
  have hP := indifferent_on fun s => s = w.db.shelf
  have hkeeps : Keeps (On fun s => s = w.db.shelf) (openSwitch r n kind) :=
    keeps_bind (hP.keeps_insertDeployment _ _ _) fun d =>
      keeps_bind (hP.keeps_transitionDeployment d _) fun _ =>
      keeps_bind hP.keeps_commit fun _ => keeps_pure d
  refine ((hkeeps.ends ⟨hw, rfl⟩).and (openSwitch_row n kind w)).mono (fun d v hv => ?_)
    fun _ _ h => h.1.founded
  refine ⟨hv.1.founded, fun dep hrow => ?_⟩
  obtain ⟨rfl, rfl⟩ := hv.2 dep hrow
  rw [hv.1.shelf]
  exact ⟨hactive, hbuild, hbuilt⟩

theorem startNewRelease_switching (hw : Founded w) :
    Ends (startNewRelease w) Switching (fun _ => Founded) := by
  refine (requireAgent_spec w).bind (fun _ v hv => ?_) fun _ v hv => hv.1 ▸ hw
  obtain ⟨rfl, hready⟩ := hv
  have hactive := hready.active
  rw [ends_bind, ends_getDb, ends_ite]
  refine ⟨fun _ => hw, fun _ => ?_⟩
  refine (insertRelease_founded hw).bind (fun r u hu => ?_) fun _ _ h => h.elim
  refine openSwitch_switching _ _ hu.1.founded ?_ (fun _ => ?_) fun hkind => absurd rfl hkind
  · rw [hu.1.shelf.1]
    exact hactive
  · rw [hu.1.shelf.1]
    exact hu.2

theorem startRollback_switching (hw : Founded w) :
    Ends (startRollback r w) Switching (fun _ => Founded) := by
  refine (requireAgent_spec w).bind (fun _ v hv => ?_) fun _ v hv => hv.1 ▸ hw
  obtain ⟨rfl, hready⟩ := hv
  have hactive := hready.active
  rw [ends_bind, ends_getDb]
  rcases hrel : v.db.releases.row r with _ | rel
  · exact hw
  rw [ends_ite]
  refine ⟨fun _ => hw, fun _ => ?_⟩
  refine (Keeps.ends Placid.keeps_configFromApplication ⟨hw, rfl⟩).bind
    (fun c u (hu : On (fun s => s = v.db.shelf) u) => ?_) fun _ _ h => h.founded
  rw [ends_ite]
  refine ⟨fun _ => hu.founded, fun hready => ?_⟩
  have hst : rel.status = .ready := by
    by_contra h
    exact hready (Or.inl h)
  refine openSwitch_switching _ _ hu.founded ?_ (fun hkind => by cases hkind) fun _ => ?_
  · rw [hu.shelf]
    exact hactive
  · rw [hu.shelf]
    exact ⟨rel, hrel, hst⟩

end Runs

/-! ## Operations -/

section Ops

variable {o : Oracle} {w : World} {d : DeploymentId}

theorem Switching.suspend (h : Switching d w) : Switching d (w.suspend o) := by
  have hsame := (indifferent_on fun s => s = w.db.shelf).suspend (o := o) ⟨h.founded, rfl⟩
  refine ⟨hsame.founded, fun dep hrow => ?_⟩
  have hcore := congrArg (fun k => k.deployments.row d) (calm_suspend o w).core
  rw [hsame.shelf]
  exact h.before dep (hcore.symm.trans hrow)

theorem Switching.run (h : Switching d w) (token : Time) : Founded (runReleaseSwitch o d token w).2 :=
  withDeployment_founded token h.founded fun dep hrow => switchBody_founded ⟨h.founded, h.before dep hrow⟩

theorem founded_keeps_run (op : Op) : Keeps Founded (op.run o) := by
  have hF := indifferent_founded
  cases op with
  | deploy =>
    refine keeps_bind Placid.keeps_configFromApplication fun c => ?_
    exact hF.keeps_underLock (fun _ hw => startDeployment_founded hw)
      (fun _ _ hw => (indifferent_on _).suspend hw)
      fun _ token _ hw => withDeployment_founded token hw.founded fun _ _ => deploymentBody_founded hw
  | scale target => exact hF.keeps_scaleApplication target
  | release =>
    refine keeps_bind Placid.keeps_configFromApplication fun _ => ?_
    exact hF.keeps_underLock (fun _ hw => startNewRelease_switching hw) (fun _ _ hw => hw.suspend)
      fun _ token _ hw => hw.run token
  | rollback target =>
    exact hF.keeps_underLock (fun _ hw => startRollback_switching hw) (fun _ _ hw => hw.suspend)
      fun _ token _ hw => hw.run token
  | restart i => exact hF.keeps_restartInstance
  | stop i => exact hF.keeps_stopInstance
  | update c => exact keeps_update fun _ hw => hF.update c hw
  | agentSeen s status => exact hF.keeps_modifyDb fun _ => rfl
  | tickBegin => exact keeps_update fun _ hw => hF.tickBegin hw
  | tickPoll => exact hF.keeps_tickGuard hF.keeps_pollAndMaybeHeal
  | tickHeal => exact hF.keeps_tickGuard hF.keeps_healUnhealthy

theorem Founded.history (ops : List (Oracle × Op)) : ∀ w : World, Founded w → Founded (w.history ops) := by
  induction ops with
  | nil => intro w h; exact h
  | cons step rest ih => intro w h; exact ih _ (founded_keeps_run step.2 w h)

end Ops

/-! ## The release of a run -/

section Own

variable {o : Oracle} {w : World} {d : DeploymentId} {dep : Deployment} {r : ReleaseId} {c : HealerYaml}
  {agent s : ServerId}

/-- The release is there. -/
def Shelf.Has (r : ReleaseId) (s : Shelf) : Prop := (s.releases.row r).isSome

theorem indifferent_shelf (Q : Shelf → Prop) : Indifferent fun w => Q w.db.shelf where
  onSetDb w db hshelf h := by
    rw [setDb_db, hshelf]
    exact h
  onEmit _ _ _ h := h
  onAny _ _ h := h
  onRest w w' hdb _ h := by
    rw [hdb]
    exact h

theorem sparing_has (r : ReleaseId) :
    Sparing r fun w => w.db.shelf.active = some r ∧ w.db.shelf.Has r where
  toIndifferent := indifferent_shelf fun s => s.active = some r ∧ s.Has r
  active _ h := h.1
  onDelete w r' hr' h := by
    have hinactive : w.db.shelf.active ≠ some r' := by
      rw [h.1]
      simpa using hr'.symm
    rw [setDb_db, shelf_deleteRelease hinactive]
    refine ⟨h.1, ?_⟩
    change ((w.db.releases.erase r').row r).isSome
    rw [show (w.db.releases.erase r').row r = w.db.releases.row r from if_neg hr'.symm]
    exact h.2

theorem has_keeps_modifyRelease (r' : ReleaseId) (f : Release → Release) :
    Keeps (fun w => w.db.shelf.Has r) (modifyRelease r' f) := by
  intro w hw
  change ((w.db.releases.modify r' f).row r).isSome
  rw [modify_row]
  split
  · rw [Option.isSome_map]
    exact hw
  · exact hw

theorem has_keeps_setActive (x : Option ReleaseId) :
    Keeps (fun w => w.db.shelf.Has r) (setActive x) :=
  fun _ hw => hw

theorem has_keeps_fail (reason : String) (cleanupRelease : Option ReleaseId)
    (cleanup : Option (ServerId × HealerYaml × List InstanceId)) :
    Keeps (fun w => w.db.shelf.Has r) (fail o d reason cleanupRelease cleanup) :=
  (indifferent_shelf (Shelf.Has r)).keeps_fail (fun r' => has_keeps_modifyRelease r' _) reason
    cleanupRelease cleanup

/-- Pruning comes after the switch, when the run's own release is the active one. -/
theorem has_keeps_switchTo (new : List InstanceId) :
    Keeps (fun w => w.db.shelf.Has r) (switchTo o d r agent c new) := by
  have hP := (sparing_has r).toIndifferent
  refine keeps_of_ends fun w hw => ?_
  rw [switchTo, ends_bind, ends_read]
  set old := w.db.application.activeReleaseId
  have hfinish : ∀ v : World, v.db.shelf.active = some r ∧ v.db.shelf.Has r →
      Ends (finishSwitch o d agent c old v) (fun _ v => v.db.shelf.Has r) (fun _ v => v.db.shelf.Has r) :=
    fun v hv => (((sparing_has r).keeps_finishSwitch old).ends hv).mono (fun _ _ h => h.2)
      fun _ _ h => h.2
  have hset : Ends (setActive (some r) w) (fun _ v => v.db.shelf.active = some r ∧ v.db.shelf.Has r)
      (fun _ v => v.db.shelf.Has r) := ⟨rfl, hw⟩
  refine hset.bind (fun _ v hv => ?_) fun _ _ h => h
  rw [ends_ite]
  refine ⟨fun _ => ?_, fun _ => hfinish v hv⟩
  refine (hP.keeps_syncGateway.ends hv).bind (fun result u hu => ?_) fun _ _ h => h.2
  rw [ends_ite]
  refine ⟨fun _ => hfinish u hu, fun _ => ?_⟩
  exact (keeps_bind (has_keeps_setActive old) fun _ => has_keeps_fail _ _ _).ends hu.2

theorem has_keeps_switchBody :
    Keeps (fun w => w.db.shelf.Has dep.releaseId) (switchBody o d dep) := by
  have hP := indifferent_shelf (Shelf.Has dep.releaseId)
  refine keeps_bind (keeps_read _) fun db => ?_
  dsimp only
  rcases db.releases.row dep.releaseId with _ | rel
  · exact keeps_pure ()
  rcases db.application.serverId with _ | s
  · exact has_keeps_fail _ _ _
  rcases db.application.portRangeStart with _ | lo
  · exact has_keeps_fail _ _ _
  rcases db.application.portRangeEnd with _ | hi
  · exact has_keeps_fail _ _ _
  refine keeps_bind Placid.keeps_configFromApplication fun c =>
    keeps_ite (fun _ => has_keeps_fail _ _ _) fun _ =>
    keeps_bind (keeps_ite (fun _ => hP.keeps_buildRelease (has_keeps_modifyRelease _))
      fun _ => keeps_pure true) fun built =>
    keeps_ite (fun _ => has_keeps_fail _ _ _) fun _ =>
    keeps_bind (hP.keeps_startAndHealthGate dep s lo hi) fun started => ?_
  cases started with
  | none => exact has_keeps_fail _ _ _
  | some new => exact has_keeps_switchTo new

theorem has_keeps_deploymentBody :
    Keeps (fun w => w.db.shelf.Has r) (deploymentBody o d dep) := by
  have hP := indifferent_shelf (Shelf.Has r)
  refine keeps_bind (keeps_read _) fun db => ?_
  dsimp only
  rcases db.releases.row dep.releaseId with _ | rel
  · exact keeps_pure ()
  rcases (db.instances.select fun i => i.releaseId == some dep.releaseId).head? with _ | i
  · exact keeps_pure ()
  have hlost : Keeps (fun w => w.db.shelf.Has r)
      (do transition i .failed; transitionDeployment d .failed; commit : M Unit) :=
    keeps_bind (hP.keeps_transition i _) fun _ => hP.keeps_close d _
  refine keeps_bind Placid.keeps_configFromApplication fun c =>
    keeps_bind (Placid.keeps_getInstance i) fun inst =>
    keeps_ite (fun _ => keeps_bind (hP.keeps_addLog _ _ _) fun _ => hP.keeps_close d _) fun _ =>
    keeps_bind (hP.keeps_buildRelease (has_keeps_modifyRelease _)) fun deployOk =>
    keeps_ite (fun _ => hlost) fun _ => keeps_bind (hP.keeps_transition i _) fun _ =>
    keeps_bind hP.keeps_commit fun _ => keeps_bind (hP.keeps_submitStart _ _ _ _ _) fun row =>
    keeps_bind (hP.keeps_persistAgentOutcome d row) fun startOk =>
    keeps_ite (fun _ => ?_) fun _ => hlost
  exact keeps_bind (hP.keeps_transition i _) fun _ =>
    keeps_bind (hP.keeps_transitionDeployment d _) fun _ =>
    keeps_bind (has_keeps_setActive _) fun _ =>
    keeps_ite (fun _ => hP.keeps_syncGatewayStep) fun _ => keeps_pure ()

/-- A body that keeps its own release does so under the lock as well. -/
theorem has_withDeployment {body : DeploymentId → Deployment → M Unit} (token : Time)
    (hrow : w.db.deployments.row d = some dep) (hw : w.db.shelf.Has dep.releaseId)
    (hbody : Keeps (fun w => w.db.shelf.Has dep.releaseId) (body d dep)) :
    (withDeployment body d token w).2.db.shelf.Has dep.releaseId := by
  have hrelease := (indifferent_shelf (Shelf.Has dep.releaseId)).keeps_release token
  refine Ends.state (P := fun v : World => v.db.shelf.Has dep.releaseId) ?_
  rw [withDeployment, ends_bind, ends_getDb, hrow]
  exact (keeps_releaseFinally hbody hrelease).ends hw

end Own

/-- In every history, at every event and between the operations, the active release is none or a
READY release that is there, and once there is one there always is. The start may be any state of
that kind, so also one that a crash has left behind. And whatever the state it starts from, no run
deletes the release of its own deployment. -/
theorem active_release_real (w : World) (ops : List (Oracle × Op)) (hsound : w.db.shelf.Sound)
    (htrace : w.trace = []) :
    (∀ s ∈ (w.history ops).shelves, s.Sound) ∧
    ((w.history ops).shelves.Pairwise fun s s' => s.active.isSome → s'.active.isSome) ∧
    ∀ (o : Oracle) (v : World) (d : DeploymentId) (token : Time) (dep : Deployment),
      v.db.deployments.row d = some dep → v.db.shelf.Has dep.releaseId →
      ∀ run ∈ [runDeployment o, runReleaseSwitch o, runScale o],
        (run d token v).2.db.shelf.Has dep.releaseId := by
  have hstart : Founded w := by
    have hshelves : w.shelves = [w.db.shelf] := by simp [World.shelves, htrace]
    constructor
    · intro s hs
      rw [hshelves, mem_singleton] at hs
      rw [hs]
      exact hsound
    · rw [hshelves]
      exact pairwise_singleton _ _
  have hend := hstart.history ops
  refine ⟨hend.sound, hend.lasting, ?_⟩
  intro o v d token dep hrow hv run hrun
  simp only [mem_cons, not_mem_nil, or_false] at hrun
  obtain rfl | rfl | rfl := hrun
  · exact has_withDeployment token hrow hv has_keeps_deploymentBody
  · exact has_withDeployment token hrow hv has_keeps_switchBody
  · exact has_withDeployment token hrow hv ((indifferent_shelf _).keeps_scaleBody dep)

namespace Sample

/-- A new application that keeps one release. -/
def frugal : World :=
  created.setDb { created.db with
    application := { created.db.application with releaseRetentionCount := 1 } }

/-- A deployment, a new release and a scale-up, with time passing. -/
def turnover : List (Oracle × Op) :=
  [(slowly allWell, .deploy), (slowly allWell, .release), (slowly allWell, .scale 2)]

end Sample

/-- The second release replaces the first, which is then pruned. -/
theorem active_release_real_pruned :
    (Sample.frugal.history Sample.turnover).db.application.activeReleaseId = some 1 ∧
      ((Sample.frugal.history Sample.turnover).db.releases.row 0).isNone ∧
      ∀ s ∈ (Sample.frugal.history Sample.turnover).shelves, s.Sound := by
  refine ⟨by decide +kernel, by decide +kernel, ?_⟩
  exact (active_release_real Sample.frugal Sample.turnover (fun r hr => by cases hr) rfl).1

end Healer
