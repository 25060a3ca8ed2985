import Healer.Sanity.Home

/-! Every step an operation is made of keeps the instances at home, as long as the updates
that land beside it change neither the server nor the adapter. -/

namespace Healer

open Prog

/-- No update that lands while an operation is suspended moves the application. -/
def Oracle.steady (o : Oracle) (H : Home) : Prop :=
  ∀ n c, Background.update c ∈ o.during n → c.serverId = H.server ∧ H.adapter = some c.adapter

section World

variable {H : Home} {F : List Fact} {o : Oracle} {w : World} {i : InstanceId} {host : String}

theorem Good.tickBegin (h : Good H F w) : Good H F w.tickBegin := by
  have hh := h.housed
  unfold World.tickBegin
  split
  · rename_i hc server _ hserver
    refine h.requeue rfl rfl fun q hq => ?_
    obtain ⟨i, hi, rfl⟩ := List.mem_map.1 hq
    obtain ⟨inst, hrow, hst⟩ := Table.mem_select.1 hi
    -- a RUNNING instance is live, so it is on the application's server
    have hlive : inst.status.terminal = false := by
      rw [beq_iff_eq.1 hst]
      rfl
    obtain ⟨inst', hrow', hs⟩ := (hh.live i inst hrow hlive).row
    rw [hrow] at hrow'
    cases hrow'
    refine ⟨inst, hrow, ?_⟩
    have hhome : w.db.application.serverId = H.server := by rw [← hh.home]; rfl
    rw [hhome, hs] at hserver
    rw [← hh.home]
    change (w.db.servers inst.serverId).map Server.hostname = _
    rw [show w.db.servers inst.serverId = some server from hserver]
    rfl
  · exact h

theorem Good.recordResult (h : Good H F w) {healthy : Bool} {failures : ℕ} :
    Good H F (w.recordResult i healthy failures) :=
  h.setDb_same h.housed.home rfl le_rfl

theorem Good.poll {inst : Instance} (h : Good H F w) (hrow : w.db.instances.row i = some inst)
    (hhost : H.hostname inst.serverId = some host) : Good H F (w.poll o i host).2 := by
  unfold World.poll
  split
  · dsimp only
    split
    · exact h
    · split
      · exact h.requeue rfl rfl (List.forall_mem_nil _)
      · exact (h.emit_probe hrow hhost).recordResult.emit_aimless trivial
  · exact h

theorem Good.pollFirst {host : String} {rest : List (InstanceId × String)} (h : Good H F w)
    (hqueue : w.monitor = (i, host) :: rest) :
    Good H F (({ w with monitor := rest } : World).poll o i host).2 := by
  have hq := h.housed.queue
  rw [hqueue] at hq
  obtain ⟨inst, hrow, hhost⟩ := hq _ List.mem_cons_self
  have hrest : Good H F { w with monitor := rest } := h.requeue rfl rfl fun q' hq' => hq q' (List.mem_cons_of_mem _ hq')
  exact hrest.poll hrow hhost

theorem Good.pollNext (h : Good H F w) : Good H F (w.pollNext o) := by
  unfold World.pollNext
  split
  · exact h
  · rename_i hqueue
    exact h.pollFirst hqueue

theorem Good.server (h : Good H F w) : w.db.application.serverId = H.server := by
  rw [← h.housed.home]
  rfl

variable {c : HealerYaml}

theorem Good.adapter (h : Good H F w) (hc : w.db.application.config = some c) :
    H.adapter = some c.adapter := by
  rw [← h.housed.home]
  simp [World.home, hc]

theorem Good.target (h : Good H F w) (hc : w.db.application.config = some c) :
    c.serverId = H.server := by
  refine h.housed.target _ ?_
  rw [← h.housed.home]
  simp [World.home, hc]

theorem Good.hostname (h : Good H F w) (s : ServerId) :
    (w.db.servers s).map Server.hostname = H.hostname s := by
  rw [← h.housed.home]
  rfl

theorem Good.update (h : Good H F w) (hserver : c.serverId = H.server)
    (hadapter : H.adapter = some c.adapter) : Good H F ((Background.update c).run o w) := by
  refine Good.emit_aimless (e := .updated c) (h.setDb_same ?_ rfl le_rfl) trivial
  -- the adapter is known, so there is a config, and its server is the application's
  obtain ⟨c₀, hc₀⟩ : ∃ c₀, w.db.application.config = some c₀ := by
    cases hc : w.db.application.config with
    | none =>
      rw [← h.housed.home] at hadapter
      simp [World.home, hc] at hadapter
    | some c₀ => exact ⟨c₀, rfl⟩
  have htarget := h.target hc₀
  rw [← h.housed.home] at hserver hadapter htarget ⊢
  simp only [World.home, hc₀, Option.map_some] at hserver hadapter htarget ⊢
  change Home.mk c.serverId (some c.adapter) (some c.serverId) _ = _
  rw [htarget, hserver, ← hadapter]
  rfl

theorem Good.suspend (h : Good H F w) (hsteady : o.steady H) : Good H F (w.suspend o) := by
  refine keeps_suspend_of (fun n b hb w h => ?_) (fun _ _ hdb htrace hqueue h => h.congr hdb htrace hqueue) w h
  cases b with
  | update c => exact h.update (hsteady n c hb).1 (hsteady n c hb).2
  | tickBegin => exact h.tickBegin
  | pollNext => exact h.pollNext

end World

/-! ## Steps -/

section Steps

variable {H : Home} {F : List Fact} {o : Oracle} {w : World} {i : InstanceId} {s agent : ServerId}
  {r : ReleaseId} {c : HealerYaml} {key : CommandKey} {target : InstanceStatus}

/-- The shared end of every command: its submission is all that has to be checked. -/
theorem keeps_submit {cmd : Command} (hsteady : o.steady H)
    (hcmd : ∀ w, Good H F w → Good H F (w.emit (.submitted agent key cmd))) :
    Keeps (Good H F) (submitCommandAndWait o agent key cmd) :=
  have hemit : ∀ e : Event, e.aimless → Keeps (Good H F) (emit e) := fun _ he _ h => h.emit_aimless he
  keeps_submit_of (hemit _ trivial) (keeps_update hcmd) (fun _ h => h.suspend hsteady)
    (fun _ => hemit _ trivial) (hemit _ trivial)

theorem keeps_submitStart (hsteady : o.steady H) (howned : .owned i ∈ F)
    (hagent : H.server = some agent) (hadapter : H.adapter = some c.adapter) :
    Keeps (Good H F) (submitStart o agent key r i c) :=
  keeps_bind (keeps_getRelease r) fun _ => keeps_bind (keeps_getInstance i) fun _ =>
    keeps_submit hsteady fun _ h => h.emit_command howned rfl hagent hadapter

theorem keeps_submitStop (hsteady : o.steady H) (howned : .owned i ∈ F)
    (hagent : H.server = some agent) (hadapter : H.adapter = some c.adapter) :
    Keeps (Good H F) (submitStop o agent key i c) :=
  keeps_bind (keeps_getInstance i) fun _ =>
    keeps_submit hsteady fun _ h => h.emit_command howned rfl hagent hadapter

/-- Out of STOPPED and FAILED the table leads to STARTING only. -/
theorem nonterminal_of_transition {st : InstanceStatus} (ht : target ≠ .starting)
    (h : canTransition instanceTransitions st target = true) : st.terminal = false := by
  cases st <;> first | rfl | (cases target <;> first | exact absurd rfl ht | cases h)

/-- A status write that the table allows shows that the instance is owned. -/
theorem gains_transition (ht : target ≠ .starting) (h : Good H F w) :
    Ends (transition i target w) (fun _ => Good H (.owned i :: F)) (fun _ => Good H F) := by
  simp only [transition, ends_bind, ends_getDb]
  cases hrow : w.db.instances.row i with
  | none => exact h
  | some inst =>
    simp only [ends_bind, ends_emit, ends_ite, ends_modifyDb, ends_raise]
    refine ⟨fun hcan => ?_, fun _ => h.emit_aimless trivial⟩
    have ho := h.housed.live i inst hrow (nonterminal_of_transition ht hcan)
    have h' := (h.cons (f := .owned i) ho).emit_aimless
      (e := .instanceTransition i inst.status target) trivial
    exact h'.setStatus (h'.facts _ List.mem_cons_self) target

theorem keeps_transition (howned : .owned i ∈ F) : Keeps (Good H F) (transition i target) :=
  keeps_transition_of (fun _ _ h => h.emit_aimless trivial) fun _ h => h.setStatus (h.facts _ howned) target

theorem allocate_good {lo hi : ℕ} (hserver : H.server = some s) (hknown : .known r ∈ F)
    (h : Good H F w) :
    Ends (allocateInstance o r s lo hi w) (fun i => Good H (.owned i :: F)) (fun _ => Good H F) := by
  refine (allocate_spec o r s lo hi w).mono ?_ ?_
  · intro i w' h'
    obtain ⟨rfl, port, rfl⟩ := h'
    refine h.insert hserver fun r' hr' => ?_
    cases hr'
    exact h.facts _ hknown
  · rintro e w' (⟨rfl, -⟩ | ⟨-, rfl⟩)
    · exact h
    · exact h.emit_aimless trivial

theorem Good.emit_probe_owned {host : String} {port : ℕ} {healthy : Bool} (h : Good H F w)
    (howned : .owned i ∈ F) (hserver : H.server = some s) (hhost : H.hostname s = some host) :
    Good H F (w.emit (.probe i host port healthy)) := by
  obtain ⟨inst, hrow, hs⟩ := (h.facts _ howned : Owned H w i).row
  rw [hserver] at hs
  cases hs
  exact h.emit_probe hrow hhost

/-- The row is read twice: the host belongs to the first reading, the agent to the second. -/
theorem Good.on_unique {s' : ServerId} (h : Good H F w) (hon : .on i s ∈ F) (hon' : .on i s' ∈ F) :
    s = s' := by
  obtain ⟨inst, hrow, rfl⟩ := (h.facts _ hon : Fact.holds H w (.on i s))
  obtain ⟨inst', hrow', rfl⟩ := (h.facts _ hon' : Fact.holds H w (.on i s'))
  rw [hrow] at hrow'
  cases hrow'
  rfl

theorem aimless_of_quiet {e : Event} (he : e.quiet = true) : e.aimless := by
  cases e with
  | submitted | probe => cases he
  | _ => trivial

end Steps

end Healer
