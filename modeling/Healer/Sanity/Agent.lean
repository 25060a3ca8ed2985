import Healer.Spec.Agent

/-! What one step of a goroutine does, field by field: its next stage, the entry it records and
the command it calls for. -/

namespace Healer

/-- The status a goroutine at this stage records. -/
def Stage.records? : Stage → Option JournalStatus
  | .recordReceived => some .received
  | .recordRunning => some .running
  | .recordCompleted _ => some .completed
  | _ => none

namespace Agent

variable {ι : Type} [DecidableEq ι] {a : Agent ι} {i : ι} {conn : ConnId} {k l : ℕ} {st : Stage}

def nextStage (a : Agent ι) (i : ι) (ok : Bool) : Stage → Stage
  | .check => if a.journal.isCompleted i then .done else .enter
  | .enter => if a.inFlight i then .done else .recordReceived
  | .recordReceived => if ok then .acknowledge else .abandon
  | .acknowledge => if ok then .recordRunning else .abandon
  | .recordRunning => .sendRunning
  | .sendRunning => .dispatch
  | .dispatch => .dispatching
  | .dispatching => .dispatching
  | .recordCompleted o => .report o
  | .report _ => .leave
  | .abandon | .leave | .done => .done

omit [DecidableEq ι] in
theorem goto_row (hd : a.deliveries.row k = some ⟨i, conn, st⟩) (next : Stage) :
    (a.goto k next).deliveries.row l = if l = k then some ⟨i, conn, next⟩ else a.deliveries.row l := by
  by_cases hlk : l = k
  · subst hlk
    simp [goto, hd]
  · simp [goto, Table.modify_row_of_ne _ _ hlk, hlk]

omit [DecidableEq ι] in
/-- A goroutine that stays where it is. -/
theorem row_self (hd : a.deliveries.row k = some ⟨i, conn, st⟩) :
    a.deliveries.row l = if l = k then some ⟨i, conn, st⟩ else a.deliveries.row l := by
  by_cases hlk : l = k
  · rw [if_pos hlk, hlk, hd]
  · rw [if_neg hlk]

theorem move_row (hd : a.deliveries.row k = some ⟨i, conn, st⟩) (ok : Bool) (l : ℕ) :
    (a.move k i ok st).deliveries.row l =
      if l = k then some ⟨i, conn, a.nextStage i ok st⟩ else a.deliveries.row l := by
  cases st with
  | dispatching => exact row_self hd
  | done => exact row_self hd
  | enter =>
    simp only [move, nextStage]
    split
    · exact goto_row hd _
    · exact goto_row (a := a.hold i) hd _
  | recordReceived =>
    simp only [move, nextStage]
    split
    · exact goto_row (a := a.record i .received) hd _
    · exact goto_row hd _
  | recordRunning =>
    simp only [move, nextStage]
    split
    · exact goto_row (a := a.record i .running) hd _
    · exact goto_row hd _
  | recordCompleted o =>
    simp only [move, nextStage]
    split
    · exact goto_row (a := a.record i .completed) hd _
    · exact goto_row hd _
  | abandon => exact goto_row (a := a.release i) hd _
  | leave => exact goto_row (a := a.release i) hd _
  | dispatch => exact goto_row (a := a.call i) hd _
  | check => exact goto_row hd _
  | acknowledge => exact goto_row hd _
  | sendRunning => exact goto_row hd _
  | report o => exact goto_row hd _

theorem move_journal (a : Agent ι) (k : ℕ) (i : ι) (ok : Bool) (st : Stage) :
    (a.move k i ok st).journal =
      if ok then st.records?.elim a.journal (a.journal.set i) else a.journal := by
  cases st <;> simp [move, apply_ite Agent.journal, goto, hold, Agent.release, record, call, Stage.records?]

/-- A completion that was not there before is the one the goroutine recorded. -/
theorem completed_of_move {j : ι} {ok : Bool} (h : (a.move k i ok st).journal j = some .completed)
    (hold : a.journal j ≠ some .completed) : ∃ o, st = .recordCompleted o ∧ j = i := by
  rw [move_journal] at h
  split at h
  · by_cases hji : j = i
    · subst hji
      cases st with
      | recordCompleted o => exact ⟨o, rfl, rfl⟩
      | recordReceived => simp [Stage.records?] at h
      | recordRunning => simp [Stage.records?] at h
      | _ => exact absurd h hold
    · cases hrec : st.records? with
      | none =>
        rw [hrec] at h
        exact absurd h hold
      | some status =>
        rw [hrec, Option.elim_some, Entries.set_of_ne _ _ hji] at h
        exact absurd h hold
  · exact absurd h hold

theorem move_dispatched (a : Agent ι) (k : ℕ) (i : ι) (ok : Bool) (st : Stage) :
    (a.move k i ok st).dispatched =
      if st = .dispatch then a.dispatched ++ [i] else a.dispatched := by
  cases st <;> simp [move, apply_ite Agent.dispatched, goto, hold, Agent.release, record, call]

omit [DecidableEq ι] in
theorem finish_dispatched (a : Agent ι) (k : ℕ) (o : Outcome) (st : Stage) :
    (a.finish k o st).dispatched = a.dispatched := by
  cases st <;> rfl

/-- What the return of `Dispatch` to goroutine `k` does to goroutine `l`. -/
def finished (k l : ℕ) (o : Outcome) (d : Delivered ι) : Delivered ι :=
  if l = k ∧ d.stage = .dispatching then { d with stage := .recordCompleted o } else d

omit [DecidableEq ι] in
theorem finished_conn (k l : ℕ) (o : Outcome) (d : Delivered ι) : (finished k l o d).conn = d.conn := by
  unfold finished
  split <;> rfl

theorem finish_row (a : Agent ι) (k : ℕ) (o : Outcome) (l : ℕ) :
    (a.step (.finish k o)).deliveries.row l = (a.deliveries.row l).map (finished k l o) := by
  simp only [step]
  by_cases hlk : l = k
  · subst hlk
    cases hd : a.deliveries.row l with
    | none => exact hd
    | some d =>
      obtain ⟨i, conn, st⟩ := d
      cases st <;> simp [Agent.finish, goto, hd, finished]
  · have hid : finished k l o = (id : Delivered ι → Delivered ι) :=
      funext fun d => if_neg fun h => hlk h.1
    rw [hid, Option.map_id, id]
    cases a.deliveries.row k with
    | none => rfl
    | some d =>
      cases hst : d.stage <;> simp [Agent.finish, goto, hst, Table.modify_row_of_ne _ _ hlk]

theorem step_finish_journal (a : Agent ι) (k : ℕ) (o : Outcome) :
    (a.step (.finish k o)).journal = a.journal := by
  simp only [step]
  cases a.deliveries.row k with
  | none => rfl
  | some d => cases hst : d.stage <;> simp [Agent.finish, hst, goto]

end Agent

end Healer
