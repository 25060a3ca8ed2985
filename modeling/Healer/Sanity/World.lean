import Healer.Lib.Trace
import Healer.Spec.World

/-! The part of a world that operations decide on, and what the primitives do to it.
The rest of the process may run at every `await`; it never touches this part, so a
suspension is invisible in `core` and shows in the trace as background events only. -/

namespace Healer

open List

def Db.HasStatus (db : Db) (p : InstanceStatus → Bool) (i : InstanceId) : Prop :=
  ∃ inst, db.instances.row i = some inst ∧ p inst.status = true

structure Core where
  instances : Table Instance
  releases : Table Release
  deployments : Table Deployment
  servers : ServerId → Option Server
  active : Option ReleaseId
  lock : Option String × Option Time

def World.core (w : World) : Core :=
  ⟨w.db.instances, w.db.releases, w.db.deployments, w.db.servers, w.db.application.activeReleaseId,
    (w.db.application.operationLock, w.db.application.operationLockAcquiredAt)⟩

section Rows

variable {w : World} {k : Core}

theorem instance_of_core {i : InstanceId} {x : Option Instance} (h : w.core = k) (hrow : k.instances.row i = x) :
    w.db.instances.row i = x :=
  (congrArg (fun k => k.instances.row i) h).trans hrow

theorem deployment_of_core {d : DeploymentId} {x : Option Deployment} (h : w.core = k)
    (hrow : k.deployments.row d = x) : w.db.deployments.row d = x :=
  (congrArg (fun k => k.deployments.row d) h).trans hrow

end Rows

def World.events (w : World) : List Event := w.trace.map Entry.event

/-- What a suspension can leave in the trace. -/
def Event.background : Event → Prop
  | .commit | .updated _ | .probe _ _ _ _ => True
  | _ => False

def Entry.background (e : Entry) : Prop := e.event.background

/-- A recorded status change is one of the tables'. -/
def Event.allowed : Event → Bool
  | .instanceTransition _ current target => canTransition instanceTransitions current target
  | .deploymentTransition _ current target => canTransition deploymentTransitions current target
  | _ => true

/-- From `w` to `w'` only entries in `P` were recorded, and no health check went away. -/
structure News (P : Entry → Prop) (w w' : World) : Prop where
  entries : ∃ es : List Entry, w'.trace = w.trace ++ es ∧ ∀ e ∈ es, P e
  health : w.db.healthCheck.isSome → w'.db.healthCheck.isSome

variable {e : Event} {P : Entry → Prop} {w : World}

section News

variable {Q : Entry → Prop} {a b c : World}

theorem News.refl (P : Entry → Prop) (w : World) : News P w w := ⟨⟨[], by simp⟩, id⟩

theorem News.trans (h : News P a b) (h' : News P b c) : News P a c := by
  obtain ⟨es, he, hP⟩ := h.entries
  obtain ⟨es', he', hP'⟩ := h'.entries
  refine ⟨⟨es ++ es', by rw [he', he, append_assoc], ?_⟩, h'.health ∘ h.health⟩
  intro e hm
  rcases mem_append.1 hm with hm | hm
  · exact hP e hm
  · exact hP' e hm

theorem News.mono (h : News P a b) (hPQ : ∀ e, P e → Q e) : News Q a b := by
  obtain ⟨es, he, hP⟩ := h.entries
  exact ⟨⟨es, he, fun e hm => hPQ e (hP e hm)⟩, h.health⟩

theorem News.mem (h : News P a b) (he : e ∈ a.events) : e ∈ b.events := by
  obtain ⟨es, hes, -⟩ := h.entries
  simp only [World.events, hes, map_append, mem_append]
  exact Or.inl he

theorem News.cases (h : News P a b) (he : e ∈ b.events) :
    e ∈ a.events ∨ ∃ x, P x ∧ x.event = e := by
  obtain ⟨es, hes, hP⟩ := h.entries
  simp only [World.events, hes, map_append, mem_append, mem_map] at he
  rcases he with he | ⟨x, hx, rfl⟩
  · exact Or.inl (by simpa [World.events] using he)
  · exact Or.inr ⟨x, hP x hx, rfl⟩

/-- A run stays safe when the news is, whatever news came before it. -/
theorem News.always {φ : List Entry → Entry → Prop} (h : News P a b)
    (hφ : ∀ es e, (∀ x ∈ es, P x) → P e → φ (a.trace ++ es) e) (ha : Trace.Always φ a.trace) :
    Trace.Always φ b.trace := by
  obtain ⟨es, he, hP⟩ := h.entries
  rw [he]
  refine ha.append fun pre e post hes => hφ pre e (fun x hx => hP x ?_) (hP e ?_)
  · simp [hes, hx]
  · simp [hes]

end News

section Primitives

variable (w : World) (e : Event) (db : Db)

@[simp] theorem emit_db : (w.emit e).db = w.db := rfl
@[simp] theorem emit_trace : (w.emit e).trace = w.trace ++ [⟨e, w.db, w.gateway.routed⟩] := rfl
@[simp] theorem emit_events : (w.emit e).events = w.events ++ [e] := by simp [World.events]
@[simp] theorem setDb_db : (w.setDb db).db = db := rfl
@[simp] theorem setDb_trace : (w.setDb db).trace = w.trace := rfl
@[simp] theorem setDb_events : (w.setDb db).events = w.events := rfl

end Primitives

theorem news_emit (h : P ⟨e, w.db, w.gateway.routed⟩) :
    News P w (w.emit e) :=
  ⟨⟨[⟨e, w.db, w.gateway.routed⟩], rfl, by simpa using h⟩, id⟩

theorem news_setDb {db : Db}
    (h : db.healthCheck = w.db.healthCheck) : News P w (w.setDb db) :=
  ⟨⟨[], by simp⟩, fun hs => by simpa [h] using hs⟩

/-- With no request in flight, the gateway keeps what it has loaded. -/
def Still (w w' : World) : Prop := w.gateway.inFlight = [] → w'.gateway = w.gateway

theorem Still.refl (w : World) : Still w w := fun _ => rfl

variable {a b c : World}

theorem Still.trans (h : Still a b) (h' : Still b c) : Still a c := by
  intro ha
  rw [h' (by rw [h ha, ha]), h ha]

theorem Still.inFlight {a b : World} (h : Still a b) (ha : a.gateway.inFlight = []) :
    b.gateway.inFlight = [] := by
  rw [h ha, ha]

/-- A stretch of a run that issues no gateway sync and ends in the core `k`. -/
structure Went (P : Entry → Prop) (k : Core) (w w' : World) : Prop where
  core : w'.core = k
  news : News P w w'
  still : Still w w'

theorem Went.trans {k k' : Core} (h : Went P k a b)
    (h' : Went P k' b c) : Went P k' a c :=
  ⟨h'.core, h.news.trans h'.news, h.still.trans h'.still⟩

theorem Went.mono {P Q : Entry → Prop} {k : Core} {a b : World} (h : Went P k a b)
    (hPQ : ∀ e, P e → Q e) : Went Q k a b :=
  ⟨h.core, h.news.mono hPQ, h.still⟩

theorem went_emit (h : P ⟨e, w.db, w.gateway.routed⟩) :
    Went P w.core w (w.emit e) :=
  ⟨rfl, news_emit h, fun _ => rfl⟩

theorem went_setDb {db : Db}
    (h : db.healthCheck = w.db.healthCheck) : Went P (w.setDb db).core w (w.setDb db) :=
  ⟨rfl, news_setDb h, fun _ => rfl⟩

/-- Nothing but the trace and background rows differs. -/
abbrev Calm (w w' : World) : Prop := Went Entry.background w.core w w'

theorem Calm.refl (w : World) : Calm w w := ⟨rfl, News.refl _ w, Still.refl w⟩

theorem Calm.then (h : Calm a b) (h' : Calm b c) : Calm a c :=
  ⟨h'.core.trans h.core, h.news.trans h'.news, h.still.trans h'.still⟩

/-- A calm stretch before or after another one changes nothing about it. -/
theorem Went.calm {k : Core} (h : Went P k a b) (h' : Calm b c)
    (hP : ∀ e, e.background → P e) : Went P k a c :=
  ⟨h'.core.trans h.core, h.news.trans (h'.news.mono hP), h.still.trans h'.still⟩

theorem Calm.went {k : Core} (h : Calm a b) (h' : Went P k b c)
    (hP : ∀ e, e.background → P e) : Went P k a c :=
  ⟨h'.core, (h.news.mono hP).trans h'.news, h.still.trans h'.still⟩

theorem calm_commit (w : World) : Calm w (w.emit .commit) := went_emit trivial

theorem calm_setDb {db : Db} (hcore : (w.setDb db).core = w.core)
    (hh : db.healthCheck = w.db.healthCheck) : Calm w (w.setDb db) :=
  ⟨hcore, news_setDb hh, fun _ => rfl⟩

theorem calm_probe (w : World) (i : InstanceId) (host : String) (port failures : ℕ) (healthy : Bool) :
    Calm w (((w.emit (.probe i host port healthy)).recordResult i healthy failures).emit .commit) := by
  have hprobe : Calm w (w.emit (.probe i host port healthy)) := went_emit trivial
  have hrecord : Calm (w.emit (.probe i host port healthy))
      ((w.emit (.probe i host port healthy)).recordResult i healthy failures) := calm_setDb rfl rfl
  exact (hprobe.then hrecord).then (calm_commit _)

theorem calm_poll (o : Oracle) (w : World) (i : InstanceId) (host : String) :
    Calm w (w.poll o i host).2 := by
  unfold World.poll
  split
  · dsimp only
    split
    · exact Calm.refl w
    · split
      · exact ⟨rfl, ⟨⟨[], by simp⟩, id⟩, fun _ => rfl⟩
      · exact calm_probe w i host _ _ _
  · exact Calm.refl w

theorem calm_background (o : Oracle) (w : World) (b : Background) : Calm w (b.run o w) := by
  cases b with
  | update c =>
    have hset : Calm w (w.setDb (w.db.updateApplication c)) :=
      ⟨rfl, ⟨⟨[], by simp⟩, fun _ => rfl⟩, fun _ => rfl⟩
    exact hset.then (went_emit trivial)
  | tickBegin =>
    simp only [Background.run, World.tickBegin]
    split
    · exact ⟨rfl, ⟨⟨[], by simp⟩, id⟩, fun _ => rfl⟩
    · exact Calm.refl w
  | pollNext =>
    simp only [Background.run, World.pollNext]
    split
    · exact Calm.refl w
    · rename_i i host rest _
      have h := calm_poll o { w with monitor := rest } i host
      exact ⟨h.core, ⟨h.news.entries, h.news.health⟩, h.still⟩

theorem calm_backgrounds (o : Oracle) (bs : List Background) (w : World) :
    Calm w (bs.foldl (Background.run o) w) := by
  induction bs generalizing w with
  | nil => exact Calm.refl w
  | cons b bs ih => exact (calm_background o w b).then (ih _)

theorem calm_suspend (o : Oracle) (w : World) : Calm w (w.suspend o) := by
  have h := calm_backgrounds o (o.during w.awaits) w
  refine ⟨h.core, ⟨h.news.entries, h.news.health⟩, fun hw => ?_⟩
  have hg := h.still hw
  simp only [World.suspend, hg, Gateway.pass, hw, filter_nil, map_nil, foldl_nil]
  rw [← hw]

/-- What no background task touches, beside the rows of `Core`. -/
def World.fixed (w : World) : Gateway × ℕ × String := (w.gateway, w.syncs, w.db.application.slug)

theorem background_fixed (o : Oracle) (w : World) (b : Background) : (b.run o w).fixed = w.fixed := by
  cases b with
  | update c => rfl
  | tickBegin =>
    simp only [Background.run, World.tickBegin]
    split <;> rfl
  | pollNext =>
    simp only [Background.run, World.pollNext]
    split
    · rfl
    · simp only [World.poll]
      split
      · split
        · rfl
        · split <;> rfl
      · rfl

theorem backgrounds_fixed (o : Oracle) (bs : List Background) (w : World) :
    (bs.foldl (Background.run o) w).fixed = w.fixed := by
  induction bs generalizing w with
  | nil => rfl
  | cons b bs ih => exact (ih _).trans (background_fixed o w b)

end Healer
