import Healer.Sanity.CourseHealing
import Healer.Sanity.Deaf

/-! What an agent has confirmed about an instance when its row is set to RUNNING or STOPPED, along
first deployments, scale operations, release switches and rollbacks. -/

namespace Healer

open Prog

/-- A command sent for an instance, with its row once `submit_command_and_wait` has returned it. -/
structure Sent where
  errand : Errand
  key : CommandKey
  row : Option AgentCommand

/-- The last command sent for `i`, brought up to date by one more entry. -/
def Sent.next (i : InstanceId) (last : Option Sent) (e : Entry) : Option Sent :=
  match e.event with
  | .submitted _ key command =>
    match command.errand with
    | some (k, j) => if j = i then some ⟨k, key, none⟩ else last
    | none => last
  | .answered key row => last.map fun sent => if sent.key = key then { sent with row := some row } else sent
  | _ => last

def lastSent (i : InstanceId) (es : List Entry) : Option Sent := es.foldl (Sent.next i) none

/-- The last command sent for `i` is of this kind, and it finished without an error and with a
result whose `ok` is true. -/
def Confirmed (k : Errand) (i : InstanceId) (es : List Entry) : Prop :=
  ∃ key row, lastSent i es = some ⟨k, key, some row⟩ ∧ row.ok = true

/-- An instance is set to RUNNING or STOPPED only when the agent has just confirmed it. -/
def FollowsAgent (past : List Entry) (e : Entry) : Prop :=
  ∀ k i current, e.event = .instanceTransition i current (Errand.status k) → Confirmed k i past

/-- The run so far. -/
def World.follows (w : World) : Prop := Trace.Always FollowsAgent w.trace

/-! ## Entries that do not matter -/

def Entry.tame (e : Entry) : Prop := ∀ k i current, e.event ≠ .instanceTransition i current (Errand.status k)

/-- Tame, and neither a command nor an answer. -/
structure Entry.Mute (e : Entry) : Prop where
  tame : e.tame
  sent : ∀ i last, Sent.next i last e = last

theorem tame_of_plain {e : Entry} (h : e.event.plain = true) : e.tame := by
  intro k i current he
  rw [he] at h
  cases h

theorem mute_of_plain {e : Entry} (h : e.event.plain = true) : e.Mute := by
  refine ⟨tame_of_plain h, fun i last => ?_⟩
  obtain ⟨event, db, routed⟩ := e
  cases event <;> first | rfl | cases h

variable {i : InstanceId}

theorem tame_transition {target : InstanceStatus}
    (h : target ≠ .running ∧ target ≠ .stopped) :
    ∀ current db routed, Entry.tame ⟨.instanceTransition i current target, db, routed⟩ := by
  intro current db routed k j current' he
  cases he
  cases k with
  | start => exact h.1 rfl
  | stop => exact h.2 rfl

theorem lastSent_snoc (i : InstanceId) (es : List Entry) (e : Entry) :
    lastSent i (es ++ [e]) = Sent.next i (lastSent i es) e := by
  rw [lastSent, List.foldl_append]
  rfl

theorem lastSent_append {es es' : List Entry} (h : ∀ e ∈ es', e.Mute) :
    lastSent i (es ++ es') = lastSent i es := by
  induction es' using List.reverseRecOn with
  | nil => rw [List.append_nil]
  | append_singleton es' e ih =>
    rw [← List.append_assoc, lastSent_snoc, (h e (by simp)).sent]
    exact ih fun x hx => h x (by simp [hx])

theorem lastSent_news {w w' : World} (h : News Entry.Mute w w') :
    lastSent i w'.trace = lastSent i w.trace := by
  obtain ⟨es, hes, hmute⟩ := h.entries
  rw [hes, lastSent_append hmute]

theorem deaf_follows : Deaf Entry.tame World.follows := by
  refine ⟨fun e => tame_of_plain, fun w w' hnews hw => hnews.always (fun es e _ he => ?_) hw⟩
  exact fun k i current hev => (he k i current hev).elim

/-- The run is in order and, if `b` holds, the agent has just confirmed the errand. -/
structure Vouched (k : Errand) (i : InstanceId) (b : Bool) (w : World) : Prop where
  follows : w.follows
  confirmed : b = true → Confirmed k i w.trace

theorem deaf_vouched (k : Errand) (i : InstanceId) (b : Bool) : Deaf Entry.Mute (Vouched k i b) := by
  refine ⟨fun e => mute_of_plain, fun w w' hnews hw => ⟨?_, fun hb => ?_⟩⟩
  · exact deaf_follows.news w w' (hnews.mono fun e he => he.tame) hw.follows
  · obtain ⟨key, row, hlast, hok⟩ := hw.confirmed hb
    exact ⟨key, row, (lastSent_news hnews).trans hlast, hok⟩

/-! ## Commands and confirmed changes -/

section Steps

variable {o : Oracle} {k : Errand} {agent : ServerId} {key : CommandKey}
  {command : Command} {r : ReleaseId} {c : HealerYaml} {w : World}

theorem follows_emit {e : Event} (he : ∀ db routed, Entry.tame ⟨e, db, routed⟩) (hw : w.follows) :
    (w.emit e).follows :=
  deaf_follows.news w _ (news_emit (he _ _)) hw

/-- A command for an instance: what comes back is what the instance's last command has brought. -/
theorem submit_vouched (herrand : command.errand = some (k, i)) (hw : w.follows) :
    Ends (submitCommandAndWait o agent key command w) (fun row => Vouched k i row.ok)
      (fun _ => World.follows) := by
  set u := (w.emit .commit).emit (.submitted agent key command) with hu
  have hfollows : (u.suspend o).follows := by
    refine deaf_follows.calm (calm_suspend o u) (follows_emit (fun _ _ _ _ _ he => by cases he) ?_)
    exact deaf_follows.calm (calm_commit w) hw
  have hsent : lastSent i (u.suspend o).trace = some ⟨k, key, none⟩ := by
    have hmute := (calm_suspend o u).news.mono fun e => (deaf_vouched k i false).background
    rw [lastSent_news hmute, hu, emit_trace, lastSent_snoc]
    simp [Sent.next, herrand]
  simp only [submitCommandAndWait, ends_bind, ends_commit, ends_emit, ends_suspend, ← hu]
  cases o.reply key with
  | row row =>
    refine ⟨follows_emit (fun _ _ _ _ _ he => by cases he) hfollows, fun hok => ⟨key, row, ?_, hok⟩⟩
    rw [emit_trace, lastSent_snoc, hsent]
    simp [Sent.next]
  | sendFailed error => exact follows_emit (fun _ _ _ _ _ he => by cases he) hfollows

theorem submitStart_vouched (hw : w.follows) :
    Ends (submitStart o agent key r i c w) (fun row => Vouched .start i row.ok) (fun _ => World.follows) :=
  Ends.bind ((keeps_getRelease r).ends hw) (fun _ _ h1 =>
    Ends.bind ((keeps_getInstance i).ends h1) (fun _ _ h2 => submit_vouched rfl h2)
      (fun _ _ h => h)) (fun _ _ h => h)

theorem submitStop_vouched (hw : w.follows) :
    Ends (submitStop o agent key i c w) (fun row => Vouched .stop i row.ok) (fun _ => World.follows) :=
  Ends.bind ((keeps_getInstance i).ends hw) (fun _ _ h1 => submit_vouched rfl h1) (fun _ _ h => h)

/-- The status change that the agent has confirmed. -/
theorem transition_vouched (h : Vouched k i true w) :
    Ends (transition i k.status w) (fun _ => World.follows) (fun _ => World.follows) := by
  simp only [transition, ends_bind, ends_getDb]
  cases hrow : w.db.instances.row i with
  | none => exact h.follows
  | some inst =>
    have hemit : (w.emit (.instanceTransition i inst.status k.status)).follows := by
      refine Trace.always_snoc.2 ⟨h.follows, fun k' j current he => ?_⟩
      have hk : k' = k := by
        cases k <;> cases k' <;> first | rfl | cases he
      cases hk
      cases he
      exact h.confirmed rfl
    simp only [ends_bind, ends_emit, ends_ite, ends_modifyDb, ends_raise]
    exact ⟨fun _ => hemit, fun _ => hemit⟩

end Steps

/-! ## Operations -/

/-- The run is in order, and what has just been confirmed is in the trace. -/
def InOrder (_ : List Fact) : Brief → World → Prop
  | .confirmed k i => Vouched k i true
  | _ => World.follows

section Operations

variable {o : Oracle} {F : List Fact} {B : Brief} {k : Errand} {w w' : World}

theorem deaf_inOrder (F : List Fact) (B : Brief) : Deaf Entry.Mute (InOrder F B) := by
  have hfollows : Deaf Entry.Mute World.follows :=
    ⟨fun _ => mute_of_plain, fun w w' hnews => deaf_follows.news w w' (hnews.mono fun _ he => he.tame)⟩
  cases B with
  | confirmed k i => exact deaf_vouched k i true
  | nothing | fresh | pending => exact hfollows

theorem InOrder.follows (h : InOrder F B w) : w.follows := by
  cases B with
  | confirmed k i => exact Vouched.follows h
  | nothing | fresh | pending => exact h

theorem InOrder.congr (h : InOrder F B w) (htrace : w'.trace = w.trace) : InOrder F B w' := by
  have hfollows : w'.follows := by
    rw [World.follows, htrace]
    exact h.follows
  cases B with
  | confirmed k i => exact ⟨hfollows, fun hb => htrace ▸ Vouched.confirmed h hb⟩
  | nothing | fresh | pending => exact hfollows

theorem InOrder.emit {e : Event} (h : InOrder F B w) (he : ∀ db routed, Entry.Mute ⟨e, db, routed⟩) :
    InOrder F B (w.emit e) :=
  (deaf_inOrder F B).news w _ (news_emit (he _ _)) h

theorem mute_of_quiet {e : Event} (he : e.quiet = true) (db : Db) (routed : List InstanceId) :
    Entry.Mute ⟨e, db, routed⟩ := by
  cases e with
  | sync payload =>
    refine ⟨fun _ _ _ h => ?_, fun _ _ => rfl⟩
    cases h
  | instanceTransition | submitted | answered | probe => cases he
  | _ => exact mute_of_plain rfl

theorem Vouched.inOrder {ok : Bool} (h : Vouched k i ok w) : InOrder F (.after k i ok) w := by
  cases ok with
  | true => exact h
  | false => exact h.follows

theorem keeps_tame_transition {target : InstanceStatus} (ht : target ≠ .running ∧ target ≠ .stopped) :
    Keeps World.follows (transition i target) :=
  deaf_follows.keeps_transition (tame_transition ht)

theorem allocate_follows {r : ReleaseId} {s : ServerId} {lo hi : ℕ} (hw : w.follows) :
    Ends (allocateInstance o r s lo hi w) (fun _ => World.follows) (fun _ => World.follows) := by
  refine (allocate_spec o r s lo hi w).mono (fun i w' h => ?_) fun e w' h => ?_
  · obtain ⟨-, port, rfl⟩ := h
    exact hw
  · obtain ⟨rfl, -⟩ | ⟨-, rfl⟩ := h
    · exact hw
    · exact InOrder.emit (F := []) (B := .nothing) hw (mute_of_quiet rfl)

theorem course_inOrder (o : Oracle) :
    Course o ⟨fun _ => True, fun _ => True, fun _ _ => True⟩ InOrder where
  quiet := ⟨fun _ _ he h => h.emit (mute_of_quiet he), fun _ _ _ h => h.congr rfl⟩
  mono h _ := h.congr rfl
  forget h := h.follows
  server _ _ := trivial
  config _ _ := trivial
  host _ _ := trivial
  target _ _ := trivial
  seen h _ := h.congr rfl
  found h _ := h.congr rfl
  home _ _ _ := trivial
  reread _ _ _ _ := trivial
  onSuspend h := (deaf_inOrder _ _).calm (calm_suspend o _) h
  onDeliver _ _ h := h.congr rfl
  onProbe _ _ h _ _ _ := h.emit fun _ _ => mute_of_plain rfl
  onAsk {F B} agent key command _ hB := by
    have hask : Keeps World.follows (submitCommandAndWait o agent key command) :=
      deaf_follows.keeps_submit (fun _ _ _ _ _ h => by cases h) (fun _ _ _ _ _ _ h => by cases h)
    cases B with
    | confirmed k i => exact absurd rfl (hB k i)
    | nothing | fresh | pending => exact hask
  onStart _ _ h _ _ _ := (submitStart_vouched h).mono (fun _ _ h' => h'.inOrder) (fun _ _ h' => h')
  onStop _ h _ _ _ := (submitStop_vouched h).mono (fun _ _ h' => h'.inOrder) (fun _ _ h' => h')
  move {F w i target} ht h := by
    refine (keeps_tame_transition ⟨?_, ?_⟩).ends h <;> rintro rfl <;> cases ht
  begin h _ := (keeps_tame_transition (by decide)).ends h
  confirm h _ := transition_vouched h
  allocate _ _ h _ _ := allocate_follows h
  allocateFirst _ _ h _ _ := allocate_follows h
  pick h _ _ _ := h
  onTickBegin h := deaf_follows.calm (calm_background o _ .tickBegin) h
  onPoll {F w i host rest} h _ :=
    deaf_follows.calm (calm_poll o { w with monitor := rest } i host) h
  onDrop h := h
  onUpdate _ h := deaf_follows.calm (calm_background o _ (.update _)) h

theorem shelving_inOrder : Shelving InOrder where
  onRelease _ _ _ _ _ h := InOrder.congr h rfl
  onActive F r := keeps_bind (fun _ h => InOrder.emit h (mute_of_quiet rfl)) fun _ =>
    keeps_bind (fun _ h => InOrder.congr h (by rfl)) fun _ =>
    fun _ h => InOrder.emit h (mute_of_quiet rfl)
  onInsert h := h

end Operations

end Healer
