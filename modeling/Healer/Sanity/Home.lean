import Healer.Sanity.Course

/-! Where instances live. As long as an application keeps its server and its adapter, its
live instances are all on that server and were started with that adapter; what the code
takes from the application row and what it takes from the instance row then agree. -/

namespace Healer

open Table

open Prog (Ends Keeps)

/-- What places an instance: the application's server, the adapter and the server of its
stored config, and the servers' hostnames. -/
structure Home where
  server : Option ServerId
  adapter : Option Adapter
  target : Option (Option ServerId)
  hostname : ServerId → Option String

def World.home (w : World) : Home :=
  ⟨w.db.application.serverId, w.db.application.config.map HealerYaml.adapter,
    w.db.application.config.map HealerYaml.serverId, fun s => (w.db.servers s).map Server.hostname⟩

/-- The instance a command is for, and the adapter in its payload. -/
def Command.aim : Command → Option (InstanceId × Adapter)
  | .startInstance i p => some (i, p.adapter)
  | .stopInstance i p => some (i, p.adapter)
  | _ => none

def Event.isStart (i : InstanceId) (a : Adapter) : Event → Prop
  | .submitted _ _ (.startInstance j p) => j = i ∧ p.adapter = a
  | _ => False

/-- Commands go to the agent of the instance's own server with the adapter it was started
with, and probes to the host of its own server. -/
structure RightPlace (pre : List Entry) (e : Entry) : Prop where
  command : ∀ agent key cmd i a, e.event = .submitted agent key cmd → cmd.aim = some (i, a) →
    (∃ inst, e.db.instances.row i = some inst ∧ inst.serverId = agent) ∧
      ∀ x ∈ pre, ∀ a', x.event.isStart i a' → a' = a
  probe : ∀ i host port healthy, e.event = .probe i host port healthy →
    ∃ inst, e.db.instances.row i = some inst ∧
      (e.db.servers inst.serverId).map Server.hostname = some host

/-- The instance is on the application's server and was started with its adapter. -/
structure Owned (H : Home) (w : World) (i : InstanceId) : Prop where
  row : ∃ inst, w.db.instances.row i = some inst ∧ H.server = some inst.serverId
  adapter : ∀ x ∈ w.trace, ∀ a, x.event.isStart i a → H.adapter = some a

/-- The invariant of an application at home in `H`. -/
structure Housed (H : Home) (w : World) : Prop where
  home : w.home = H
  target : ∀ t, H.target = some t → t = H.server
  live : ∀ i inst, w.db.instances.row i = some inst → inst.status.terminal = false → Owned H w i
  fresh : ∀ x ∈ w.trace, ∀ i a, x.event.isStart i a → i < w.db.instances.next
  linked : ∀ i inst r, w.db.instances.row i = some inst → inst.releaseId = some r →
    r < w.db.releases.next
  queue : ∀ q ∈ w.monitor, ∃ inst, w.db.instances.row q.1 = some inst ∧
    H.hostname inst.serverId = some q.2
  safe : Trace.Always RightPlace w.trace

def Fact.holds (H : Home) (w : World) : Fact → Prop
  | .owned i => Owned H w i
  | .on i s => ∃ inst, w.db.instances.row i = some inst ∧ inst.serverId = s
  | .known r => r < w.db.releases.next
  | .lodged r => ∀ i inst, w.db.instances.row i = some inst → inst.releaseId = some r → Owned H w i

structure Good (H : Home) (F : List Fact) (w : World) : Prop where
  housed : Housed H w
  facts : ∀ f ∈ F, f.holds H w

/-- Instances stay on their servers, new starts use the adapter of `H`, and an instance of
a release was of that release before or is owned. -/
structure Carried (H : Home) (w w' : World) : Prop where
  rows : ∀ i inst, w.db.instances.row i = some inst →
    ∃ inst', w'.db.instances.row i = some inst' ∧ inst'.serverId = inst.serverId
  starts : ∀ x ∈ w'.trace, ∀ i a, x.event.isStart i a → x ∈ w.trace ∨ H.adapter = some a
  releases : w.db.releases.next ≤ w'.db.releases.next
  links : ∀ i inst' r, w'.db.instances.row i = some inst' → inst'.releaseId = some r →
    (∃ inst, w.db.instances.row i = some inst ∧ inst.releaseId = some r) ∨ Owned H w' i

section Facts

variable {H : Home} {F F' : List Fact} {f : Fact} {w w' : World} {i : InstanceId} {s : ServerId}

theorem Owned.carried (h : Owned H w i) (hc : Carried H w w') : Owned H w' i := by
  obtain ⟨inst, hrow, hs⟩ := h.row
  obtain ⟨inst', hrow', heq⟩ := hc.rows i inst hrow
  refine ⟨⟨inst', hrow', by rw [heq]; exact hs⟩, fun x hx a hstart => ?_⟩
  rcases hc.starts x hx i a hstart with hx | ha
  · exact h.adapter x hx a hstart
  · exact ha

theorem Fact.carried (h : f.holds H w) (hc : Carried H w w') : f.holds H w' := by
  cases f with
  | owned i => exact Owned.carried h hc
  | on i s =>
    obtain ⟨inst, hrow, hs⟩ := h
    obtain ⟨inst', hrow', heq⟩ := hc.rows i inst hrow
    exact ⟨inst', hrow', heq.trans hs⟩
  | known r => exact Nat.lt_of_lt_of_le h hc.releases
  | lodged r =>
    intro i inst' hrow' hr
    rcases hc.links i inst' r hrow' hr with ⟨inst, hrow, hr⟩ | ho
    · exact Owned.carried (h i inst hrow hr) hc
    · exact ho

theorem Good.step (h : Good H F w) (hhoused : Housed H w') (hc : Carried H w w') : Good H F w' :=
  ⟨hhoused, fun f hf => Fact.carried (h.facts f hf) hc⟩

theorem Good.cons (h : Good H F w) (hf : f.holds H w) : Good H (f :: F) w :=
  ⟨h.housed, fun g hg => by
    rcases List.mem_cons.1 hg with rfl | hg
    · exact hf
    · exact h.facts g hg⟩

theorem Good.mono (h : Good H F w) (hF : F' ⊆ F) : Good H F' w := ⟨h.housed, fun f hf => h.facts f (hF hf)⟩

/-- The server of an owned instance is the application's. -/
theorem Good.server_eq (h : Good H F w) (howned : .owned i ∈ F) (hon : .on i s ∈ F) :
    H.server = some s := by
  obtain ⟨inst, hrow, hs⟩ := (h.facts _ howned : Owned H w i).row
  obtain ⟨inst', hrow', rfl⟩ := (h.facts _ hon : Fact.holds H w (.on i s))
  rw [hrow] at hrow'
  cases hrow'
  exact hs

end Facts

/-! ## The primitives -/

section Primitives

variable {H : Home} {F : List Fact} {w w' : World} {e : Event} {db : Db} {i : InstanceId}

/-- The invariant is about the rows, the trace and the monitor's queue. -/
theorem Good.requeue (h : Good H F w) (hdb : w'.db = w.db) (htrace : w'.trace = w.trace)
    (hq : ∀ q ∈ w'.monitor, ∃ inst, w.db.instances.row q.1 = some inst ∧
      H.hostname inst.serverId = some q.2) : Good H F w' := by
  have hc : Carried H w w' := by
    refine ⟨fun i inst hrow => ⟨inst, by rw [hdb]; exact hrow, rfl⟩, fun x hx _ _ _ => ?_, by rw [hdb],
      fun i inst r hrow hr => .inl ⟨inst, by rw [hdb] at hrow; exact hrow, hr⟩⟩
    rw [htrace] at hx
    exact .inl hx
  have hh := h.housed
  refine h.step ⟨?_, hh.target, fun i inst hrow hst => ?_, ?_, ?_, ?_, ?_⟩ hc
  · rw [← hh.home]
    unfold World.home
    rw [hdb]
  · rw [hdb] at hrow
    exact (hh.live i inst hrow hst).carried hc
  · rw [htrace, hdb]
    exact hh.fresh
  · rw [hdb]
    exact hh.linked
  · rw [hdb]
    exact hq
  · rw [htrace]
    exact hh.safe

theorem Good.congr (h : Good H F w) (hdb : w'.db = w.db) (htrace : w'.trace = w.trace)
    (hqueue : w'.monitor = w.monitor) : Good H F w' :=
  h.requeue hdb htrace (hqueue ▸ h.housed.queue)

theorem Good.emit (h : Good H F w) (hright : RightPlace w.trace ⟨e, w.db, w.gateway.routed⟩)
    (hstart : ∀ i a, e.isStart i a → H.adapter = some a ∧ i < w.db.instances.next) :
    Good H F (w.emit e) := by
  have hc : Carried H w (w.emit e) := by
    refine ⟨fun i inst hrow => ⟨inst, hrow, rfl⟩, fun x hx i a hs => ?_, le_rfl,
      fun i inst r hrow hr => .inl ⟨inst, hrow, hr⟩⟩
    rw [emit_trace, List.mem_append, List.mem_singleton] at hx
    rcases hx with hx | rfl
    · exact .inl hx
    · exact .inr (hstart i a hs).1
  have hh := h.housed
  refine h.step ⟨hh.home, hh.target, fun i inst hrow hst => (hh.live i inst hrow hst).carried hc, ?_,
    hh.linked, hh.queue, Trace.always_snoc.2 ⟨hh.safe, hright⟩⟩ hc
  intro x hx i a hs
  rw [emit_trace, List.mem_append, List.mem_singleton] at hx
  rcases hx with hx | rfl
  · exact hh.fresh x hx i a hs
  · exact (hstart i a hs).2

/-- Neither a command for an instance nor a probe. -/
def Event.aimless : Event → Prop
  | .submitted _ _ cmd => cmd.aim = none
  | .probe _ _ _ _ => False
  | _ => True

theorem Good.emit_aimless (h : Good H F w) (he : e.aimless) : Good H F (w.emit e) := by
  refine h.emit ⟨?_, ?_⟩ ?_
  · intro agent key cmd i a hev haim
    cases hev
    rw [show cmd.aim = none from he] at haim
    cases haim
  · intro i host port healthy hev
    cases hev
    exact False.elim he
  · intro i a hs
    cases e with
    | submitted agent key cmd =>
      cases cmd with
      | startInstance j p => cases he
      | _ => exact False.elim hs
    | _ => exact False.elim hs

/-- A command for an owned instance, sent to the application's agent. -/
theorem Good.emit_command {agent : ServerId} {key : CommandKey} {cmd : Command} {a : Adapter}
    (h : Good H F w) (howned : .owned i ∈ F) (haim : cmd.aim = some (i, a))
    (hagent : H.server = some agent) (ha : H.adapter = some a) :
    Good H F (w.emit (.submitted agent key cmd)) := by
  have ho : Owned H w i := h.facts _ howned
  obtain ⟨inst, hrow, hs⟩ := ho.row
  refine h.emit ⟨?_, ?_⟩ ?_
  · intro agent' key' cmd' j a' hev haim'
    cases hev
    rw [haim] at haim'
    cases haim'
    refine ⟨⟨inst, hrow, Option.some.inj (hs.symm.trans hagent)⟩, fun x hx a' hstart => ?_⟩
    exact Option.some.inj ((ho.adapter x hx a' hstart).symm.trans ha)
  · intro j host port healthy hev
    cases hev
  · intro j a' hstart
    cases cmd with
    | startInstance k p =>
      cases haim
      obtain ⟨rfl, rfl⟩ := hstart
      exact ⟨ha, lt_of_row hrow⟩
    | _ => exact False.elim hstart

theorem Good.emit_probe {host : String} {port : ℕ} {healthy : Bool} {inst : Instance}
    (h : Good H F w) (hrow : w.db.instances.row i = some inst)
    (hhost : H.hostname inst.serverId = some host) : Good H F (w.emit (.probe i host port healthy)) := by
  refine h.emit ⟨?_, ?_⟩ (fun _ _ hs => False.elim hs)
  · intro agent key cmd j a hev
    cases hev
  · intro j host' port' healthy' hev
    cases hev
    refine ⟨inst, hrow, ?_⟩
    rw [← h.housed.home] at hhost
    exact hhost

/-- A write that keeps the instances, each on its server and with no new release; a row that comes
back to life is owned. -/
theorem Good.setDb (h : Good H F w) (hhome : (w.setDb db).home = H)
    (hnext : db.instances.next = w.db.instances.next) (hrel : w.db.releases.next ≤ db.releases.next)
    (hforth : ∀ i inst, w.db.instances.row i = some inst →
      ∃ inst', db.instances.row i = some inst' ∧ inst'.serverId = inst.serverId)
    (hback : ∀ i inst', db.instances.row i = some inst' → ∃ inst, w.db.instances.row i = some inst ∧
      (∀ r, inst'.releaseId = some r → inst.releaseId = some r) ∧
      (inst'.status.terminal = false → inst.status.terminal = false ∨ Owned H w i)) :
    Good H F (w.setDb db) := by
  have hc : Carried H w (w.setDb db) := by
    refine ⟨hforth, fun x hx _ _ _ => .inl hx, hrel, fun i inst' r hrow' hr => ?_⟩
    obtain ⟨inst, hrow, hlink, -⟩ := hback i inst' hrow'
    exact .inl ⟨inst, hrow, hlink r hr⟩
  have hh := h.housed
  refine h.step ⟨hhome, hh.target, ?_, ?_, ?_, ?_, hh.safe⟩ hc
  · intro i inst' hrow' hst
    obtain ⟨inst, hrow, -, hlive⟩ := hback i inst' hrow'
    rcases hlive hst with hst | ho
    · exact (hh.live i inst hrow hst).carried hc
    · exact ho.carried hc
  · intro x hx i a hs
    rw [setDb_db, hnext]
    exact hh.fresh x hx i a hs
  · intro i inst' r hrow' hr
    obtain ⟨inst, hrow, hlink, -⟩ := hback i inst' hrow'
    exact Nat.lt_of_lt_of_le (hh.linked i inst r hrow (hlink r hr)) hrel
  · intro q hq
    obtain ⟨inst, hrow, hhost⟩ := hh.queue q hq
    obtain ⟨inst', hrow', heq⟩ := hc.rows q.1 inst hrow
    exact ⟨inst', hrow', by rw [heq]; exact hhost⟩

/-- A write that leaves the instances alone. -/
theorem Good.setDb_same (h : Good H F w) (hhome : (w.setDb db).home = H)
    (hinst : db.instances = w.db.instances) (hrel : w.db.releases.next ≤ db.releases.next) :
    Good H F (w.setDb db) := by
  refine h.setDb hhome (by rw [hinst]) hrel (fun i inst hrow => ⟨inst, by rw [hinst]; exact hrow, rfl⟩)
    fun i inst hrow => ⟨inst, by rw [← hinst]; exact hrow, fun _ hr => hr, .inl⟩

/-- Bookkeeping. -/
theorem Good.outline (h : Good H F w) (hdb : db.outline = w.db.outline) : Good H F (w.setDb db) := by
  have hstanding : ∀ i, (db.instances.row i).map Instance.standing =
      (w.db.instances.row i).map Instance.standing := fun i => congrFun (congrArg Outline.standing hdb) i
  refine h.setDb ?_ (congrArg Outline.next hdb) (congrArg (fun q => q.releases.next) hdb).ge
    (fun i inst hrow => ?_) (fun i inst' hrow' => ?_)
  · rw [← h.housed.home]
    have hhost := congrArg Outline.hostname hdb
    have hserver := congrArg Outline.server hdb
    have hconfig := congrArg Outline.config hdb
    simp only [Db.outline] at hhost hserver hconfig
    simp only [World.home, setDb_db, hhost, hserver, hconfig]
  · have hi := hstanding i
    rw [hrow, Option.map_some, Option.map_eq_some_iff] at hi
    obtain ⟨inst', hrow', heq⟩ := hi
    exact ⟨inst', hrow', congrArg (fun q => q.2.1) heq⟩
  · have hi := (hstanding i).symm
    rw [hrow', Option.map_some, Option.map_eq_some_iff] at hi
    obtain ⟨inst, hrow, heq⟩ := hi
    have hr : inst.releaseId = inst'.releaseId := congrArg (fun q => q.1) heq
    have hst : inst.status = inst'.status := congrArg (fun q => q.2.2.2) heq
    exact ⟨inst, hrow, fun r h => hr.trans h, fun h => .inl (hst ▸ h)⟩

/-- A status write to an owned instance. -/
theorem Good.setStatus (h : Good H F w) (howned : Owned H w i) (target : InstanceStatus) :
    Good H F (w.setDb { w.db with
      instances := w.db.instances.modify i fun inst => { inst with status := target } }) := by
  refine h.setDb h.housed.home rfl le_rfl (fun j inst hrow => ?_) (fun j inst' hrow' => ?_)
  · refine ⟨if j = i then { inst with status := target } else inst, ?_, by split <;> rfl⟩
    change (w.db.instances.modify i _).row j = _
    rw [modify_row, hrow]
    split <;> rfl
  · rcases modify_row_cases hrow' with ⟨inst, rfl, hrow, rfl⟩ | hrow
    · exact ⟨inst, hrow, fun _ hr => hr, fun _ => .inr howned⟩
    · exact ⟨inst', hrow, fun _ hr => hr, .inl⟩

/-- A new instance on the application's server. -/
theorem Good.insert {inst : Instance} (h : Good H F w) (hserver : H.server = some inst.serverId)
    (hlink : ∀ r, inst.releaseId = some r → r < w.db.releases.next) :
    Good H (.owned w.db.instances.next :: F)
      (w.setDb { w.db with instances := w.db.instances.insert inst }) := by
  set v := w.setDb { w.db with instances := w.db.instances.insert inst } with hv
  have hold : ∀ i a, w.db.instances.row i = some a → v.db.instances.row i = some a := by
    intro i a hrow
    have hlt := lt_of_row hrow
    exact (insert_row_of_ne _ _ (Nat.ne_of_lt hlt)).trans hrow
  have hh := h.housed
  have hnew : Owned H v w.db.instances.next := by
    refine ⟨⟨inst, insert_row_self _ _, hserver⟩, fun x hx a hs => ?_⟩
    exact absurd (hh.fresh x hx _ a hs) (Nat.lt_irrefl _)
  have hcases : ∀ i a, v.db.instances.row i = some a →
      i = w.db.instances.next ∧ a = inst ∨ w.db.instances.row i = some a :=
    fun i a hrow => insert_row_cases hrow
  have hc : Carried H w v := by
    refine ⟨fun i a hrow => ⟨a, hold i a hrow, rfl⟩, fun x hx _ _ _ => .inl hx, le_rfl,
      fun i a r hrow hr => ?_⟩
    rcases hcases i a hrow with ⟨rfl, -⟩ | hrow
    · exact .inr hnew
    · exact .inl ⟨a, hrow, hr⟩
  have hhoused : Housed H v := by
    refine ⟨hh.home, hh.target, fun i a hrow hst => ?_, fun x hx i a hs => ?_, fun i a r hrow hr => ?_,
      fun q hq => ?_, hh.safe⟩
    · rcases hcases i a hrow with ⟨rfl, -⟩ | hrow
      · exact hnew
      · exact (hh.live i a hrow hst).carried hc
    · exact Nat.lt_succ_of_lt (hh.fresh x hx i a hs)
    · rcases hcases i a hrow with ⟨-, rfl⟩ | hrow
      · exact hlink r hr
      · exact hh.linked i a r hrow hr
    · obtain ⟨a, hrow, hhost⟩ := hh.queue q hq
      exact ⟨a, hold q.1 a hrow, hhost⟩
  exact (h.step hhoused hc).cons hnew

end Primitives

end Healer
