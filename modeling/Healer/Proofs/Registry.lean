import Healer.Lib.Runs
import Healer.Lib.Turns
import Healer.Spec.Sockets

/-! The registry of live sockets while an agent's connections do not overlap. The stage of the
one handler that is at work then says what the registry and the agent row hold; a second handler
of the same agent breaks this, whichever of the two is slow. -/

namespace Healer

open Function Table

namespace Sockets

variable {s b : Sockets} {g j : AgentId} {k : ℕ} {p : HandlerStage} {x : Handler} {f : Handler → Handler}

/-- The handlers as tasks that take turns at their agents. -/
def roles : Roles Handler AgentId HandlerStage := ⟨Handler.agent, Handler.stage, .done⟩

/-- What the registry and the row hold while handler `k` is at its stage. -/
def Fits (s : Sockets) (g : AgentId) (k : ℕ) : HandlerStage → Prop
  | .accept | .done => s.connections g = none ∧ s.status g ≠ .connected
  | .mark => s.connections g = some k ∧ s.status g ≠ .connected ∧ k ∈ s.registered
  | .serve | .unregister => s.connections g = some k ∧ s.status g = .connected ∧ k ∈ s.registered
  | .clear => s.connections g = none ∧ s.status g = .connected

structure Holds (s : Sockets) (g : AgentId) (k : ℕ) (p : HandlerStage) : Prop where
  turn : roles.Turn s.handlers g k p
  fits : s.Fits g k p

/-- A handler that has yet to mark its agent did not find it connected, and one that is past its
loop has a closed socket. -/
structure Honest (x : Handler) : Prop where
  fresh : x.stage = .accept ∨ x.stage = .mark → x.loaded ≠ .connected
  closed : x.stage = .unregister ∨ x.stage = .clear ∨ x.stage = .done → x.live = false

structure Inv (s : Sockets) : Prop where
  held : ∀ g, ∃ k p, s.Holds g k p
  honest : ∀ k x, s.handlers.row k = some x → Honest x

theorem start_inv : start.Inv :=
  ⟨fun _ => ⟨0, .done, ⟨fun l x hl => (by cases hl), fun hp => absurd rfl hp⟩, rfl, nofun⟩,
    fun k x hk => by cases hk⟩

/-- The two states differ at most in what they hold of agent `g`. -/
structure Apart (s b : Sockets) (g : AgentId) : Prop where
  handlers : b.handlers = s.handlers
  connections : ∀ j, j ≠ g → b.connections j = s.connections j
  status : ∀ j, j ≠ g → b.status j = s.status j
  registered : ∀ l ∈ s.registered, l ∈ b.registered

theorem apart_refl (s : Sockets) (g : AgentId) : Apart s s g :=
  ⟨rfl, fun _ _ => rfl, fun _ _ => rfl, fun _ hl => hl⟩

theorem Apart.fits (h : Apart s b g) (hj : j ≠ g) (hf : s.Fits j k p) : b.Fits j k p := by
  cases p <;> simp only [Fits, h.connections j hj, h.status j hj] at hf ⊢
  · exact hf
  · exact ⟨hf.1, hf.2.1, h.registered k hf.2.2⟩
  · exact ⟨hf.1, hf.2.1, h.registered k hf.2.2⟩
  · exact ⟨hf.1, hf.2.1, h.registered k hf.2.2⟩
  · exact hf
  · exact hf

theorem Inv.set_honest (h : s.Inv) (hk : s.handlers.row k = some x) (hx : Honest (f x)) :
    ∀ l y, (s.set k f).handlers.row l = some y → Honest y := by
  intro l y hl
  by_cases hlk : l = k
  · subst hlk
    simp only [Sockets.set, modify_row_self, hk] at hl
    cases hl
    exact hx
  · simp only [Sockets.set, modify_row_of_ne _ _ hlk] at hl
    exact h.honest l y hl

theorem Inv.fits (h : s.Inv) (hk : s.handlers.row k = some x) (hin : x.stage ≠ .done) :
    s.Fits x.agent k x.stage := by
  obtain ⟨m, q, hm⟩ := h.held x.agent
  obtain ⟨rfl, rfl⟩ := hm.turn.holder hk rfl hin
  exact hm.fits

/-- The handler at work goes on to its next stage. -/
theorem Inv.move (h : s.Inv) (hk : s.handlers.row k = some x) (hin : x.stage ≠ .done)
    (hab : Apart s b x.agent) (hagent : (f x).agent = x.agent) (hx : Honest (f x))
    (hfits : s.Fits x.agent k x.stage → b.Fits x.agent k (f x).stage) : (b.set k f).Inv := by
  have hset : (b.set k f).handlers = (s.set k f).handlers := by rw [set, hab.handlers]; rfl
  refine ⟨fun j => ?_, fun l y hl => h.set_honest hk hx l y (hset ▸ hl)⟩
  by_cases hj : j = x.agent
  · subst hj
    obtain ⟨m, q, hm⟩ := h.held x.agent
    obtain ⟨rfl, rfl⟩ := hm.turn.holder hk rfl hin
    exact ⟨k, (f x).stage, hset ▸ hm.turn.move hk f hagent, hfits hm.fits⟩
  · obtain ⟨m, q, hm⟩ := h.held j
    exact ⟨m, q, hset ▸ hm.turn.aside hk hagent fun hi => absurd hi.symm hj, hab.fits hj hm.fits⟩

/-- No handler of the agent is at work when another starts, and none ends without its cleanup:
`deliver_pending_commands` does not raise, and no flush or commit of a receive loop fails. -/
def alone (s : Sockets) : SocketEvent → Bool
  | .connect g => (s.handlers.select fun h => h.agent == g && h.stage != .done).isEmpty
  | .fail k => (s.handlers.row k).all fun h => h.stage != .serve
  | _ => true

theorem Inv.connect (h : s.Inv) (g : AgentId) (ha : s.alone (.connect g) = true) :
    (s.step (.connect g)).Inv := by
  have hidle : ∀ l y, s.handlers.row l = some y → y.agent = g → y.stage = .done := by
    intro l y hl hg
    simpa [hg] using select_eq_nil.1 (List.isEmpty_iff.1 ha) l y hl
  obtain ⟨m, q, hm⟩ := h.held g
  obtain rfl : q = .done := hm.turn.eq_idle hidle
  refine ⟨fun j => ?_, fun l y hl => ?_⟩
  · by_cases hj : j = g
    · subst hj
      exact ⟨s.handlers.next, .accept, hm.turn.insert_holder rfl, hm.fits⟩
    · obtain ⟨n, r, hn⟩ := h.held j
      exact ⟨n, r, hn.turn.insert fun hi => absurd hi.symm hj, hn.fits⟩
  · by_cases hnew : l = s.handlers.next
    · subst hnew
      simp only [step, insert_row_self, Option.some.injEq] at hl
      subst hl
      exact ⟨fun _ => hm.fits.2, by simp⟩
    · simp only [step, insert_row_of_ne _ _ hnew] at hl
      exact h.honest l y hl

/-- A step of handler `k` from `stage` keeps the invariant if it does so when it is taken. -/
theorem Inv.atStage (h : s.Inv) {stage : HandlerStage} {F : Handler → Sockets}
    (hF : ∀ x, s.handlers.row k = some x → x.stage = stage → (F x).Inv) :
    (s.atStage k stage F).Inv := by
  unfold Sockets.atStage
  cases hk : s.handlers.row k with
  | none => exact h
  | some x =>
    dsimp only
    split
    · rename_i hx
      exact hF x hk hx
    · exact h

theorem Inv.drop (h : s.Inv) (k : ℕ) : (s.step (.drop k)).Inv := by
  simp only [Sockets.step]
  cases hk : s.handlers.row k with
  | none =>
    have hsame : s.set k (fun x => { x with live := false }) = s := by
      rw [Sockets.set, modify_of_none _ hk]
    rw [hsame]
    exact h
  | some x =>
    refine ⟨fun j => ?_, h.set_honest hk ⟨(h.honest k x hk).fresh, fun _ => rfl⟩⟩
    obtain ⟨m, q, hm⟩ := h.held j
    exact ⟨m, q, hm.turn.aside hk rfl fun _ => rfl, hm.fits⟩

theorem Inv.step (h : s.Inv) (e : SocketEvent) (he : s.alone e = true) : (s.step e).Inv := by
  cases e with
  | connect g => exact h.connect g he
  | register k =>
    refine h.atStage fun x hk hx => ?_
    refine h.move (b := { s with connections := _, registered := _ }) hk (by simp [hx]) ?_ rfl ?_ ?_
    · exact ⟨rfl, fun j hj => update_of_ne hj .., fun _ _ => rfl, fun l hl => List.mem_cons_of_mem k hl⟩
    · exact ⟨fun _ => (h.honest k x hk).fresh (.inl hx), by simp⟩
    · rw [hx]
      intro hf
      exact ⟨update_self .., hf.2, List.mem_cons_self⟩
  | mark k =>
    refine h.atStage fun x hk hx => ?_
    have hloaded := (h.honest k x hk).fresh (.inr hx)
    rw [Sockets.assign, if_neg hloaded]
    refine h.move hk (by simp [hx]) ?_ rfl ⟨by simp, by simp⟩ ?_
    · exact ⟨rfl, fun _ _ => rfl, fun j hj => update_of_ne hj .., fun _ hl => hl⟩
    · rw [hx]
      intro hf
      exact ⟨hf.1, update_self .., hf.2.2⟩
  | drop k => exact h.drop k
  | leave k =>
    refine h.atStage fun x hk hx => ?_
    refine h.move hk (by simp [hx]) (apart_refl s _) rfl ⟨by simp, by simp⟩ ?_
    rw [hx]
    exact id
  | fail k =>
    refine h.atStage fun x hk hx => ?_
    simp [alone, hk, hx] at he
  | unregister k =>
    refine h.atStage fun x hk hx => ?_
    refine h.move (b := { s with connections := _ }) hk (by simp [hx]) ?_ rfl ?_ ?_
    · exact ⟨rfl, fun j hj => update_of_ne hj .., fun _ _ => rfl, fun _ hl => hl⟩
    · exact ⟨by simp, fun _ => (h.honest k x hk).closed (.inl hx)⟩
    · rw [hx]
      intro hf
      exact ⟨update_self .., hf.2.1⟩
  | clear k =>
    refine h.atStage fun x hk hx => ?_
    refine h.move (b := { s with status := _ }) hk (by simp [hx]) ?_ rfl ?_ ?_
    · exact ⟨rfl, fun _ _ => rfl, fun j hj => update_of_ne hj .., fun _ hl => hl⟩
    · exact ⟨by simp, fun _ => (h.honest k x hk).closed (.inr (.inl hx))⟩
    · rw [hx]
      intro hf
      have hst : Function.update s.status x.agent .disconnected x.agent = .disconnected :=
        update_self ..
      exact ⟨hf.1, fun hc => absurd (hst.symm.trans hc) nofun⟩

theorem newest_eq_none (h : ∀ l y, s.handlers.row l = some y → y.agent = g → y.live = false) :
    s.newest g = none := by
  refine List.find?_eq_none.2 fun l _ hl => ?_
  obtain ⟨y, hy, hlive⟩ := (Option.any_eq_true _ _).1 hl
  simp only [Bool.and_eq_true, beq_iff_eq] at hlive
  rw [h l y hy hlive.1] at hlive
  exact absurd hlive.2 nofun

theorem newest_eq_some (hk : s.handlers.row k = some x) (hg : x.agent = g) (hlive : x.live = true)
    (hreg : k ∈ s.registered)
    (hothers : ∀ l y, s.handlers.row l = some y → y.agent = g → l ≠ k → y.live = false) :
    s.newest g = some k := by
  have hsome : (s.newest g).isSome = true :=
    List.find?_isSome.2 ⟨k, hreg, by simp [hk, hg, hlive]⟩
  obtain ⟨l, hl⟩ := Option.isSome_iff_exists.1 hsome
  have hany := List.find?_some (show s.registered.find? _ = some l from hl)
  obtain ⟨y, hy, hprop⟩ := (Option.any_eq_true _ _).1 hany
  simp only [Bool.and_eq_true, beq_iff_eq] at hprop
  by_cases hlk : l = k
  · rw [hl, hlk]
  · rw [hothers l y hy hprop.1 hlk] at hprop
    exact absurd hprop.2 nofun

theorem Quiescent.stage (hq : s.Quiescent) (hk : s.handlers.row k = some x) :
    x.stage = .done ∨ x.stage = .serve ∧ x.live = true := by
  have := select_eq_nil.1 hq k x hk
  rw [or_iff_not_imp_left]
  simpa using this

theorem Inv.remembers (h : s.Inv) (hq : s.Quiescent) (g : AgentId) : s.Remembers g := by
  obtain ⟨k, p, hk⟩ := h.held g
  by_cases hp : p = .done
  · subst hp
    have hnone : s.newest g = none := by
      apply newest_eq_none
      intro l y hl hg
      have hst := hk.turn.phases l y hl hg
      exact (h.honest l y hl).closed (.inr (.inr (hst.trans (ite_self _))))
    exact ⟨hk.fits.1.trans hnone.symm, iff_of_false hk.fits.2 (by simp [hnone])⟩
  · obtain ⟨x, hx, hg⟩ := hk.turn.known hp
    have hstage : x.stage = p := (hk.turn.phases k x hx hg).trans (if_pos rfl)
    obtain ⟨hserve, hlive⟩ : p = .serve ∧ x.live = true := by
      rcases hq.stage hx with hdone | ⟨hserve, hlive⟩
      · exact absurd (hstage.symm.trans hdone) hp
      · exact ⟨hstage.symm.trans hserve, hlive⟩
    subst hserve
    have hnewest : s.newest g = some k := by
      refine newest_eq_some hx hg hlive hk.fits.2.2 fun l y hl hgl hlk => ?_
      exact (h.honest l y hl).closed (.inr (.inr (hk.turn.others hl hgl hlk)))
    exact ⟨hk.fits.1.trans hnewest.symm, iff_of_true hk.fits.2.1 (by simp [hnewest])⟩

end Sockets

/-- If an agent's connections do not overlap and each ends with its cleanup, then in every
quiescent state the registry and the agent row know exactly the open socket. -/
theorem live_socket_remembered (es : List SocketEvent)
    (hes : Runs.Along Sockets.step (fun s e => s.alone e = true) Sockets.start es)
    (hq : (Runs.run Sockets.step Sockets.start es).Quiescent) (g : AgentId) :
    (Runs.run Sockets.step Sockets.start es).Remembers g :=
  (Runs.invariant (fun _ e h he => h.step e he) es _ Sockets.start_inv hes).remembers hq g

/-- An agent whose first connection was cleaned up before it came back. -/
theorem live_socket_remembered_reconnect :
    (Runs.run Sockets.step Sockets.start
      [.connect 7, .register 0, .mark 0, .drop 0, .leave 0, .unregister 0, .clear 0, .connect 7,
        .register 1, .mark 1]).Remembers 7 :=
  live_socket_remembered _ (by decide +kernel) (by decide +kernel) 7

/-- The first socket is dead, the agent is back, and only then does the first handler notice. -/
def Sockets.lateCleanup : Sockets :=
  Runs.run Sockets.step Sockets.start
    [.connect 7, .register 0, .mark 0, .drop 0, .connect 7, .register 1, .mark 1, .leave 0,
      .unregister 0, .clear 0]

/-- The first handler's cleanup comes between the second one's load of the row and its mark. -/
def Sockets.staleLoad : Sockets :=
  Runs.run Sockets.step Sockets.start
    [.connect 7, .register 0, .mark 0, .drop 0, .connect 7, .leave 0, .unregister 0, .clear 0,
      .register 1, .mark 1]

/-- A late cleanup forgets the newer socket; one that comes a little earlier leaves the agent
marked as disconnected. -/
theorem late_cleanup_forgets_socket :
    (Sockets.lateCleanup.Quiescent ∧ Sockets.lateCleanup.newest 7 = some 1 ∧
      Sockets.lateCleanup.connections 7 = none ∧ Sockets.lateCleanup.status 7 = .disconnected) ∧
    Sockets.staleLoad.Quiescent ∧ Sockets.staleLoad.newest 7 = some 1 ∧
      Sockets.staleLoad.connections 7 = some 1 ∧ Sockets.staleLoad.status 7 = .disconnected := by
  decide +kernel

end Healer
