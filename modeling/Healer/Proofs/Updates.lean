import Healer.Lib.Runs
import Healer.Spec.CommandTasks

/-! A conforming agent's events against the tasks that send its command. The status is behind
the agent from the moment the command is on the wire until the sender has committed `SENT`, so
an event handled in between is refused, and a sender that is late takes the status back. -/

namespace Healer

namespace CommandTasks

variable {s : CommandTasks} {k l : ℕ} {x : Sender} {e : TaskEvent}

/-- No task is between loading the row and committing `SENT`. -/
def idle (s : CommandTasks) : Bool := (s.senders.select (· != .done)).isEmpty

theorem idle_iff : s.idle = true ↔ ∀ k x, s.senders.row k = some x → x = .done := by
  simp [idle, Table.select_eq_nil]

/-- Events are handled while no sender is at work, and no sender fails once the command is out. -/
def orderly (s : CommandTasks) : TaskEvent → Bool
  | .handle => s.idle
  | .abort k => s.senders.row k != some .sent && s.senders.row k != some .flushed
  | _ => true

theorem script_isChain (answer : Outcome) : (script answer).IsChain CommandStatus.Edge := by
  cases answer <;> decide

/-- Only the last event of the script is terminal. -/
theorem script_closed {answer : Outcome} {l l' : List CommandStatus} {t : CommandStatus}
    (h : l ++ l' = script answer) (ht : t ∈ l) (hclosed : t.closed = true) : l.getLast? = some t := by
  have hopen : (script answer).Pairwise fun a _ => a.closed = false := by cases answer <;> decide
  obtain ⟨before, after, rfl⟩ := List.append_of_mem ht
  rcases after with _ | ⟨b, after⟩
  · simp
  · rw [← h, List.append_assoc, List.pairwise_append] at hopen
    have hfalse := (List.pairwise_cons.1 hopen.2.1).1 b (by simp)
    rw [hclosed] at hfalse
    cases hfalse

structure Inv (s : CommandTasks) : Prop where
  refused : s.refused = []
  script : s.reached = true → s.accepted ++ s.outbox = script s.answer
  silent : s.reached = false → s.accepted = [] ∧ s.outbox = []
  /-- Until an event is taken the row is `PENDING` or `SENT`; from then on no task touches it. -/
  stands : s.accepted = [] ∧ (s.status = .pending ∨ s.status = .sent) ∨
    s.accepted.getLast? = some s.status ∧ s.idle = true
  /-- If the agent has the command, the row is not `PENDING` or will soon not be. -/
  marked : s.reached = true → s.status = .pending →
    ∃ k, s.senders.row k = some .sent ∨ s.senders.row k = some .flushed

theorem start_inv (answer : Outcome) : (start answer).Inv :=
  ⟨rfl, nofun, fun _ => ⟨rfl, rfl⟩, .inl ⟨rfl, .inl rfl⟩, nofun⟩

theorem goto_row (s : CommandTasks) (k l : ℕ) (x : Sender) :
    (s.goto k x).senders.row l = if l = k then (s.senders.row l).map fun _ => x else s.senders.row l :=
  rfl

theorem goto_row_self (h : s.senders.row k = some x) (y : Sender) :
    (s.goto k y).senders.row k = some y := by
  simp [goto_row, h]

theorem idle_goto_done (h : s.idle = true) : (s.goto k .done).idle = true := by
  rw [idle_iff] at h ⊢
  intro l y hl
  rw [goto_row] at hl
  split at hl
  · obtain ⟨z, -, rfl⟩ := Option.map_eq_some_iff.1 hl
    rfl
  · exact h l y hl

theorem not_idle (h : s.senders.row k = some x) (hx : x ≠ .done) : s.idle = false := by
  by_contra hidle
  exact hx (idle_iff.1 (by simpa using hidle) k x h)

/-- While a sender is at work no event has been taken. -/
theorem Inv.fresh (h : s.Inv) (hk : s.senders.row k = some x) (hx : x ≠ .done) :
    s.accepted = [] ∧ (s.status = .pending ∨ s.status = .sent) := by
  rcases h.stands with hst | ⟨-, hidle⟩
  · exact hst
  · rw [not_idle hk hx] at hidle
    cases hidle

/-- A sender moves on to a stage in which the command is out. -/
theorem Inv.goto_out (h : s.Inv) (hk : s.senders.row k = some x) (hx : x ≠ .done) {y : Sender}
    (hy : y = .sent ∨ y = .flushed) : (s.goto k y).Inv := by
  refine ⟨h.refused, h.script, h.silent, .inl (h.fresh hk hx), fun _ _ => ⟨k, ?_⟩⟩
  rw [goto_row_self hk]
  rcases hy with rfl | rfl
  · exact .inl rfl
  · exact .inr rfl

theorem Inv.load (h : s.Inv) : (s.step .load).Inv := by
  simp only [step]
  split
  · rename_i hp
    have hnew : s.accepted = [] := by
      rcases h.stands with ⟨hacc, -⟩ | ⟨hlast, -⟩
      · exact hacc
      · -- a row that has taken an event is not pending
        cases hr : s.reached with
        | false => exact (h.silent hr).1
        | true =>
          have hmem : CommandStatus.pending ∈ s.accepted ++ s.outbox :=
            List.mem_append_left _ (List.mem_of_getLast? (hp ▸ hlast))
          rw [h.script hr] at hmem
          cases ha : s.answer <;> simp [CommandTasks.script, ha, Outcome.status] at hmem
    refine ⟨h.refused, h.script, h.silent, .inl ⟨hnew, .inl hp⟩, fun hr _ => ?_⟩
    obtain ⟨k, hk⟩ := h.marked hr hp
    refine ⟨k, ?_⟩
    have hne : k ≠ s.senders.next := by
      rintro rfl
      rw [s.senders.row_none _ le_rfl] at hk
      simp at hk
    dsimp only
    rw [Table.insert_row_of_ne _ _ hne]
    exact hk
  · exact h

theorem Inv.arrive (h : s.Inv) (hfresh : s.accepted = []) (hst : s.status = .pending ∨ s.status = .sent)
    (hk : s.senders.row k = some .loaded) : (s.arrive.goto k .sent).Inv := by
  unfold CommandTasks.arrive
  split
  · exact h.goto_out hk nofun (.inl rfl)
  · refine ⟨h.refused, fun _ => ?_, nofun, .inl ⟨hfresh, hst⟩, fun _ _ => ⟨k, .inl ?_⟩⟩
    · change s.accepted ++ CommandTasks.script s.answer = _
      rw [hfresh]
      rfl
    · exact goto_row_self hk .sent

theorem Inv.transmit (h : s.Inv) (k : ℕ) (arrives : Bool) : (s.step (.transmit k arrives)).Inv := by
  simp only [step]
  split
  · rename_i hk
    obtain ⟨hfresh, hst⟩ := h.fresh hk nofun
    split
    · exact h.arrive hfresh hst hk
    · exact h.goto_out hk nofun (.inl rfl)
  · exact h

theorem Inv.flush (h : s.Inv) (k : ℕ) : (s.step (.flush k)).Inv := by
  simp only [step]
  split
  · rename_i hk
    exact h.goto_out hk nofun (.inr rfl)
  · exact h

theorem Inv.commit (h : s.Inv) (k : ℕ) : (s.step (.commit k)).Inv := by
  simp only [step]
  split
  · rename_i hk
    exact ⟨h.refused, h.script, h.silent, .inl ⟨(h.fresh hk nofun).1, .inr rfl⟩, nofun⟩
  · exact h

theorem Inv.abort (h : s.Inv) (ho : s.orderly (.abort k) = true) : (s.step (.abort k)).Inv := by
  simp only [orderly, Bool.and_eq_true, bne_iff_ne, ne_eq] at ho
  refine ⟨h.refused, h.script, h.silent, ?_, fun hr hp => ?_⟩
  · rcases h.stands with hst | ⟨hlast, hidle⟩
    · exact .inl hst
    · exact .inr ⟨hlast, idle_goto_done hidle⟩
  · obtain ⟨l, hl⟩ := h.marked hr hp
    have hlk : l ≠ k := by
      rintro rfl
      rcases hl with hl | hl
      · exact ho.1 hl
      · exact ho.2 hl
    refine ⟨l, ?_⟩
    have hrow : (s.step (.abort k)).senders.row l = s.senders.row l := by
      rw [step, goto_row, if_neg hlk]
    rw [hrow]
    exact hl

theorem Inv.reached_of_outbox (h : s.Inv) {c : CommandStatus} {rest : List CommandStatus}
    (hout : s.outbox = c :: rest) : s.reached = true := by
  by_contra hr
  rw [(h.silent (by simpa using hr)).2] at hout
  cases hout

/-- With no sender at work, the agent's next event is an edge from the status of the row. -/
theorem Inv.next_edge (h : s.Inv) (hidle : s.idle = true) {c : CommandStatus} {rest : List CommandStatus}
    (hout : s.outbox = c :: rest) : canTransition agentCommandTransitions s.status c = true := by
  have hr := h.reached_of_outbox hout
  have hscript := h.script hr
  rw [hout, CommandTasks.script] at hscript
  rcases h.stands with ⟨hacc, hst⟩ | ⟨hlast, -⟩
  · have hsent : s.status = .sent := by
      rcases hst with hp | hs
      · obtain ⟨k, hk⟩ := h.marked hr hp
        rcases hk with hk | hk
        · exact absurd (idle_iff.1 hidle k _ hk) nofun
        · exact absurd (idle_iff.1 hidle k _ hk) nofun
      · exact hs
    rw [hacc] at hscript
    obtain ⟨rfl, -⟩ := List.cons.inj hscript
    rw [hsent]
    rfl
  · -- the last event taken stands right before the next one in the script
    have hchain := script_isChain s.answer
    rw [CommandTasks.script, ← hscript, List.isChain_append] at hchain
    exact hchain.2.2 _ hlast c rfl

theorem Inv.handle (h : s.Inv) (ho : s.orderly .handle = true) : (s.step .handle).Inv := by
  simp only [step]
  cases hout : s.outbox with
  | nil => exact h
  | cons c rest =>
    have hr := h.reached_of_outbox hout
    have hscript := h.script hr
    rw [hout] at hscript
    dsimp only
    rw [if_pos (h.next_edge ho hout)]
    refine ⟨h.refused, fun _ => ?_, fun hr' => ?_, .inr ⟨by simp, ho⟩, fun _ hp => ?_⟩
    · simpa using hscript
    · exact absurd (hr.symm.trans hr') nofun
    · -- the agent never reports `PENDING`
      have hmem : CommandStatus.pending ∈ CommandTasks.script s.answer := by
        rw [← hscript, ← show c = .pending from hp]
        simp
      cases ha : s.answer <;> simp [CommandTasks.script, ha, Outcome.status] at hmem

theorem Inv.step (h : s.Inv) (e : TaskEvent) (he : s.orderly e = true) : (s.step e).Inv := by
  cases e with
  | load => exact h.load
  | transmit k arrives => exact h.transmit k arrives
  | flush k => exact h.flush k
  | commit k => exact h.commit k
  | abort k => exact h.abort he
  | handle => exact h.handle he
  | resume => exact ⟨h.refused, h.script, h.silent, h.stands, h.marked⟩

theorem Inv.forward (h : s.Inv) (e : TaskEvent) (he : s.orderly e = true) :
    Relation.ReflTransGen CommandStatus.Edge s.status (s.step e).status := by
  cases e with
  | load =>
    simp only [CommandTasks.step]
    split <;> exact .refl
  | transmit k arrives =>
    simp only [CommandTasks.step, CommandTasks.arrive]
    split_ifs <;> exact .refl
  | flush k =>
    simp only [CommandTasks.step]
    split <;> exact .refl
  | commit k =>
    simp only [CommandTasks.step]
    split
    · rename_i hk
      rcases (h.fresh hk nofun).2 with hp | hs
      · rw [hp]
        exact .single rfl
      · rw [hs]
    · exact .refl
  | abort k => exact .refl
  | handle =>
    simp only [CommandTasks.step]
    cases hout : s.outbox with
    | nil => exact .refl
    | cons c rest =>
      have hedge := h.next_edge he hout
      dsimp only
      rw [if_pos hedge]
      exact .single hedge
  | resume => exact .refl

/-- Once the terminal event is taken, it is what the row says. -/
theorem Inv.closed (h : s.Inv) {t : CommandStatus} (ht : t ∈ s.accepted) (hclosed : t.closed = true) :
    s.status = t := by
  have hr : s.reached = true := by
    by_contra hr
    rw [(h.silent (by simpa using hr)).1] at ht
    cases ht
  have hscript := h.script hr
  rcases h.stands with ⟨hacc, -⟩ | ⟨hlast, -⟩
  · rw [hacc] at ht
    cases ht
  · rw [script_closed hscript ht hclosed] at hlast
    exact (Option.some.inj hlast).symm

theorem Inv.kept (h : s.Inv) (e : TaskEvent) (he : s.orderly e = true) : s.Kept e := by
  refine ⟨(h.step e he).refused.trans h.refused.symm, h.forward e he, ?_⟩
  rintro rfl t ht hclosed
  rw [CommandTasks.step, h.closed ht hclosed]

end CommandTasks

/-- In every interleaving whose events are handled while no task is between loading the command
and committing it as sent, and in which no such task fails after it has sent, the agent's events
are all taken, the status moves along the table, and a wait ends with the terminal status. -/
theorem conforming_updates_kept (answer : Outcome) (es : List TaskEvent)
    (hes : Runs.Along CommandTasks.step (fun s e => s.orderly e = true) (CommandTasks.start answer) es) :
    Runs.Along CommandTasks.step CommandTasks.Kept (CommandTasks.start answer) es :=
  Runs.along (fun _ e h he => h.step e he) (fun _ e h he => h.kept e he) es _
    (CommandTasks.start_inv answer) hes

/-- Two tasks send the command before either commits, and the agent answers afterwards. -/
theorem conforming_updates_kept_twice :
    Runs.Along CommandTasks.step CommandTasks.Kept (CommandTasks.start .succeeded)
      [.load, .transmit 0 true, .load, .flush 0, .commit 0, .transmit 1 true, .flush 1, .commit 1,
        .handle, .handle, .handle, .resume] :=
  conforming_updates_kept .succeeded _ (by decide +kernel)

/-- The agent acknowledges while `submit_command` still awaits `send_json`: the row is `PENDING`
and the event is refused. If a reconnect lists the command in that time and sends it again later,
the status goes back from `ACKNOWLEDGED` to `SENT`. -/
theorem early_acknowledgement_refused :
    (Runs.run CommandTasks.step (CommandTasks.start .succeeded)
      [.load, .transmit 0 true, .handle]).refused = [.acknowledged] ∧
    (Runs.run CommandTasks.step (CommandTasks.start .succeeded)
      [.load, .transmit 0 true, .load, .flush 0, .commit 0, .handle]).status = .acknowledged ∧
    (Runs.run CommandTasks.step (CommandTasks.start .succeeded)
      [.load, .transmit 0 true, .load, .flush 0, .commit 0, .handle, .transmit 1 true, .flush 1,
        .commit 1]).status = .sent := by
  decide +kernel

end Healer
