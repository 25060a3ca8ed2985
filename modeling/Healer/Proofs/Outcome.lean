import Healer.Lib.Runs
import Healer.Sanity.Agent
import Healer.Spec.Link

/-! Where the outcome of an executed command is. The journal has the completion before the event
is sent, and the event can go only to the connection the command came on, so the outcome is lost
with that connection, or with the process, until the Control Plane has received it. -/

namespace Healer

open List Table Agent

/-- From the acknowledgement to the terminal event. -/
def Stage.executing : Stage → Bool
  | .recordRunning | .sendRunning | .dispatch | .dispatching | .recordCompleted _ | .report _ => true
  | _ => false

/-- The completion is recorded and the terminal event not sent. -/
def Stage.reporting : Stage → Bool
  | .report _ => true
  | _ => false

namespace Link

variable {ι : Type} [DecidableEq ι] {s : Link ι} {i : ι} {conn : ConnId} {k : ℕ} {st : Stage}
  {d : Delivered ι} {ok : Bool}

/-- A connection goes only when no command that came on it is being executed and no terminal
event is on it, the Agent stops only when no outcome is unsent or on the wire, and a terminal
event is sent without an error. -/
def settled (s : Link ι) : LinkEvent ι → Bool
  | .drop conn =>
    (s.agent.deliveries.select fun d => d.conn == conn && d.stage.executing).isEmpty &&
      s.wire.all fun m => m.conn != conn || !m.report.closes
  | .restart =>
    (s.agent.deliveries.select fun d => d.stage.reporting).isEmpty &&
      s.wire.all fun m => !m.report.closes
  | .advance k ok => (s.agent.deliveries.row k).all fun d => !d.stage.reporting || ok
  | _ => true

structure Inv (s : Link ι) : Prop where
  /-- A command that is being executed came on a connection that is live. -/
  bound : ∀ k d, s.agent.deliveries.row k = some d → d.stage.executing = true → s.live d.conn = true
  recoverable : s.Recoverable

omit [DecidableEq ι] in
theorem start_inv : (start : Link ι).Inv := ⟨fun k d hd => (by cases hd), fun i hi => (by cases hi)⟩

theorem Inv.connect (h : s.Inv) : (s.step .connect).Inv := by
  have hlive : ∀ c, s.live c = true → Function.update s.live s.conns true c = true := by
    intro c hc
    by_cases hn : c = s.conns
    · rw [hn, Function.update_self]
    · rw [Function.update_of_ne hn, hc]
  refine ⟨fun k d hd hex => hlive _ (h.bound k d hd hex), fun i hi => ?_⟩
  rcases h.recoverable i hi with hr | ⟨m, hm, hmi, hcl, hmc⟩ | ⟨k, conn, o, hk, hc⟩
  · exact .inl hr
  · exact .inr (.inl ⟨m, hm, hmi, hcl, hlive _ hmc⟩)
  · exact .inr (.inr ⟨k, conn, o, hk, hlive _ hc⟩)

theorem Inv.drop (h : s.Inv) (conn : ConnId) (hs : s.settled (.drop conn) = true) :
    (s.step (.drop conn)).Inv := by
  simp only [settled, Bool.and_eq_true, all_eq_true] at hs
  obtain ⟨hex, hwire⟩ := hs
  have hother : ∀ k d, s.agent.deliveries.row k = some d → d.stage.executing = true → d.conn ≠ conn := by
    intro k d hd hst hc
    have := select_eq_nil.1 (isEmpty_iff.1 hex) k d hd
    simp [hc, hst] at this
  have hlive : ∀ c, c ≠ conn → s.live c = true → Function.update s.live conn false c = true := by
    intro c hc hlive
    rw [Function.update_of_ne hc, hlive]
  refine ⟨fun k d hd hst => hlive _ (hother k d hd hst) (h.bound k d hd hst), fun i hi => ?_⟩
  rcases h.recoverable i hi with hr | ⟨m, hm, hmi, hcl, hmc⟩ | ⟨k, c, o, hk, hc⟩
  · exact .inl hr
  · have hne : m.conn ≠ conn := by
      have := hwire m hm
      simpa [hcl] using this
    refine .inr (.inl ⟨m, mem_filter.2 ⟨hm, by simpa using hne⟩, hmi, hcl, hlive _ hne hmc⟩)
  · exact .inr (.inr ⟨k, c, o, hk, hlive _ (hother k _ hk rfl) hc⟩)

theorem Inv.restart (h : s.Inv) (hs : s.settled .restart = true) : (s.step .restart).Inv := by
  simp only [settled, Bool.and_eq_true, all_eq_true] at hs
  obtain ⟨hrep, hwire⟩ := hs
  refine ⟨fun k d hd => (by cases hd), fun i hi => ?_⟩
  rcases h.recoverable i hi with hr | ⟨m, hm, -, hcl, -⟩ | ⟨k, c, o, hk, -⟩
  · exact .inl hr
  · have := hwire m hm
    simp [hcl] at this
  · exact absurd (select_eq_nil.1 (isEmpty_iff.1 hrep) k _ hk) nofun

theorem Inv.deliver (h : s.Inv) (i : ι) (conn : ConnId) : (s.step (.deliver i conn)).Inv := by
  simp only [step]
  split
  · have hrow : ∀ k d, s.agent.deliveries.row k = some d →
        (s.agent.step (.deliver i conn)).deliveries.row k = some d := by
      intro k d hd
      have := lt_of_row hd
      simp only [Agent.step]
      rw [insert_row_of_ne _ _ (by omega), hd]
    refine ⟨fun k d hd hst => ?_, fun j hj => ?_⟩
    · by_cases hk : k = s.agent.deliveries.next
      · subst hk
        simp only [Agent.step, insert_row_self, Option.some.injEq] at hd
        subst hd
        cases hst
      · simp only [Agent.step, insert_row_of_ne _ _ hk] at hd
        exact h.bound k d hd hst
    · rcases h.recoverable j hj with hr | hw | ⟨k, c, o, hk, hc⟩
      · exact .inl hr
      · exact .inr (.inl hw)
      · exact .inr (.inr ⟨k, c, o, hrow k _ hk, hc⟩)
  · exact h

omit [DecidableEq ι] in
/-- A goroutine starts to execute only after its acknowledgement went out. -/
theorem executing_of_next {a : Agent ι} (h : (a.nextStage i ok st).executing = true) :
    st.executing = true ∨ st = .acknowledge ∧ ok = true := by
  cases st with
  | check =>
    simp only [Agent.nextStage] at h
    split at h <;> cases h
  | enter =>
    simp only [Agent.nextStage] at h
    split at h <;> cases h
  | recordReceived =>
    simp only [Agent.nextStage] at h
    split at h <;> cases h
  | acknowledge =>
    simp only [Agent.nextStage] at h
    split at h
    · exact .inr ⟨rfl, ‹_›⟩
    · cases h
  | abandon => cases h
  | leave => cases h
  | done => cases h
  | _ => exact .inl rfl

section Advance

variable (hd : s.agent.deliveries.row k = some ⟨i, conn, st⟩)
include hd

theorem Inv.advance_bound (h : s.Inv) (l : ℕ) (e : Delivered ι)
    (he : (s.agent.move k i (s.sendOk ⟨i, conn, st⟩ ok) st).deliveries.row l = some e)
    (hex : e.stage.executing = true) : s.live e.conn = true := by
  rw [move_row hd] at he
  split at he
  · cases he
    rcases executing_of_next hex with hst | ⟨rfl, hok⟩
    · exact h.bound k ⟨i, conn, st⟩ hd hst
    · -- the acknowledgement went out, so the connection is live
      simp only [sendOk, Stage.report?, Option.isSome_some, if_true, Bool.and_eq_true] at hok
      exact hok.2
  · exact h.bound l e he hex

/-- Whoever was about to send a terminal event sends it. -/
theorem advance_accounted (hs : st.reporting = true → ok = true) {j : ι} (hj : s.Accounted j) :
    (s.step (.advance k ok)).Accounted j := by
  simp only [step, hd]
  rcases hj with hr | ⟨m, hm, hmi, hcl, hmc⟩ | ⟨l, c, o, hl, hc⟩
  · exact .inl hr
  · exact .inr (.inl ⟨m, mem_append_left _ hm, hmi, hcl, hmc⟩)
  · by_cases hlk : l = k
    · subst hlk
      obtain ⟨rfl, rfl, rfl⟩ : i = j ∧ conn = c ∧ st = .report o := by simpa [hd] using hl
      have hok : s.sendOk ⟨i, conn, .report o⟩ ok = true := by simp [sendOk, Stage.report?, hs rfl, hc]
      refine .inr (.inl ⟨⟨conn, i, .terminal o⟩, mem_append_right _ ?_, rfl, rfl, hc⟩)
      simp [posted, hok, Stage.report?]
    · refine .inr (.inr ⟨l, c, o, ?_, hc⟩)
      simp only [Agent.step, hd]
      rw [move_row hd, if_neg hlk, hl]

theorem Inv.advance (h : s.Inv) (hs : s.settled (.advance k ok) = true) : (s.step (.advance k ok)).Inv := by
  have hsend : st.reporting = true → ok = true := by
    intro hst
    simpa [settled, hd, hst] using hs
  refine ⟨?_, fun j hj => ?_⟩
  · simp only [step, hd, Agent.step]
    exact fun l e he hex => h.advance_bound hd l e he hex
  · by_cases hold : s.agent.journal j = some .completed
    · exact advance_accounted hd hsend (h.recoverable j hold)
    · -- the completion was recorded by this step, so the event is the next to be sent
      simp only [step, hd, Agent.step] at hj ⊢
      obtain ⟨o, rfl, rfl⟩ := completed_of_move hj hold
      refine .inr (.inr ⟨k, conn, o, ?_, h.bound k _ hd rfl⟩)
      dsimp only
      rw [move_row hd, if_pos rfl]
      rfl

end Advance

theorem Inv.finish (h : s.Inv) (k : ℕ) (o : Outcome) : (s.step (.finish k o)).Inv := by
  refine ⟨fun l e he hex => ?_, fun j hj => ?_⟩
  · simp only [step, finish_row] at he
    obtain ⟨d, hd, rfl⟩ := Option.map_eq_some_iff.1 he
    rw [finished_conn]
    refine h.bound l d hd ?_
    by_contra hst
    -- only a goroutine inside `Dispatch` moves, and it was executing already
    unfold Agent.finished at hex
    split at hex
    · rename_i hmove
      rw [hmove.2] at hst
      exact hst rfl
    · exact hst hex
  · simp only [step, step_finish_journal] at hj
    rcases h.recoverable j hj with hr | hw | ⟨l, c, o', hl, hc⟩
    · exact .inl hr
    · exact .inr (.inl hw)
    · refine .inr (.inr ⟨l, c, o', ?_, hc⟩)
      simp only [step, finish_row, hl]
      simp [Agent.finished]

theorem Inv.receive (h : s.Inv) (n : ℕ) : (s.step (.receive n)).Inv := by
  simp only [step]
  cases hn : s.wire[n]? with
  | none => exact h
  | some m =>
    refine ⟨h.bound, fun i hi => ?_⟩
    have hmono : i ∈ s.received → i ∈ if m.report.closes then m.commandID :: s.received else s.received := by
      intro hr
      split
      · exact mem_cons_of_mem _ hr
      · exact hr
    rcases h.recoverable i hi with hr | ⟨m', hm', hmi, hcl, hmc⟩ | hrep
    · exact .inl (hmono hr)
    · by_cases hmem : m' ∈ s.wire.eraseIdx n
      · exact .inr (.inl ⟨m', hmem, hmi, hcl, hmc⟩)
      · -- the event taken off the wire is the one that accounted for the command
        obtain ⟨l, hl⟩ := mem_iff_getElem?.1 hm'
        have hln : l = n := by
          by_contra hne
          exact hmem (mem_eraseIdx_iff_getElem?.2 ⟨l, hne, hl⟩)
        obtain rfl : m' = m := Option.some.inj (hl.symm.trans (hln ▸ hn))
        refine .inl ?_
        simp [hcl, hmi]
    · exact .inr (.inr hrep)

theorem Inv.step (h : s.Inv) (e : LinkEvent ι) (he : s.settled e = true) : (s.step e).Inv := by
  cases e with
  | connect => exact h.connect
  | drop conn => exact h.drop conn he
  | restart => exact h.restart he
  | deliver i conn => exact h.deliver i conn
  | advance k ok =>
    cases hd : s.agent.deliveries.row k with
    | none => simpa only [Link.step, hd] using h
    | some d => exact h.advance hd he
  | finish k o => exact h.finish k o
  | receive n => exact h.receive n

end Link

/-- Over every run of Agent and Control Plane in which connections and the Agent go only when no
outcome depends on them, every command that the journal marks completed has its terminal event
received, on its way, or still to be sent. -/
theorem outcome_recoverable {ι : Type} [DecidableEq ι] (es : List (LinkEvent ι))
    (hes : Runs.Along Link.step (fun s e => s.settled e = true) Link.start es) :
    (Runs.run Link.step Link.start es).Recoverable :=
  (Runs.invariant (fun _ e h he => h.step e he) es _ Link.start_inv hes).recoverable

/-- A command is delivered on the first connection and run to the return of `Dispatch`. -/
def LinkEvent.executed : List (LinkEvent ℕ) :=
  [.connect, .deliver 7 0] ++ List.replicate 7 (.advance 0 true) ++ [.finish 0 .succeeded]

/-- The connection is replaced after the terminal event is received, and the Agent restarts. -/
theorem outcome_recoverable_reconnect :
    (Runs.run Link.step Link.start (LinkEvent.executed ++ [.advance 0 true, .advance 0 true, .receive 2,
      .drop 0, .connect, .deliver 7 1, .advance 1 true, .restart])).Recoverable :=
  outcome_recoverable _ (by decide +kernel)

/-- The connection drops while the command runs; the Agent records the completion and reconnects,
and the redelivery is ignored. -/
def Link.droppedWhileRunning : Link ℕ :=
  Runs.run Link.step Link.start (LinkEvent.executed ++ [.drop 0, .advance 0 true, .advance 0 true,
    .advance 0 true, .connect, .deliver 7 1, .advance 1 true])

/-- The journal has the completion, and nobody has, or will send, the outcome. -/
theorem outcome_lost_with_connection :
    Link.droppedWhileRunning.agent.journal 7 = some .completed ∧ ¬ Link.droppedWhileRunning.Recoverable := by
  have hjournal : Link.droppedWhileRunning.agent.journal 7 = some .completed := by decide +kernel
  have hwire : Link.droppedWhileRunning.wire.length = 0 := by decide +kernel
  have hdone : (Link.droppedWhileRunning.agent.deliveries.select fun d => d.stage != .done) = [] := by
    decide +kernel
  refine ⟨hjournal, fun h => ?_⟩
  rcases h 7 hjournal with hr | ⟨m, hm, -⟩ | ⟨k, conn, o, hk, -⟩
  · exact absurd hr (by decide +kernel)
  · rw [length_eq_zero_iff.1 hwire] at hm
    cases hm
  · exact absurd (select_eq_nil.1 hdone k _ hk) nofun

end Healer
