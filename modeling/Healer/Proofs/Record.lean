import Healer.Sanity.Commands

/-! The record of a command over whole histories: its status moves along the edges of
`AGENT_COMMAND_TRANSITIONS`, its event rows tell how, and it is frozen once it is closed. -/

namespace Healer

open Relation Table

variable {ρ : Type}

/-- A status without an edge out of it. -/
def CommandStatus.final : CommandStatus → Bool
  | .succeeded | .failed | .timedOut | .expired => true
  | _ => false

theorem CommandStatus.Edge.not_final {a b : CommandStatus} (h : a.Edge b) : a.final = false := by
  revert h
  cases a <;> cases b <;> decide

theorem CommandStatus.Edge.ne_pending {a b : CommandStatus} (h : a.Edge b) : b ≠ .pending := by
  revert h
  cases a <;> cases b <;> decide

/-- The statuses of the event rows of a command, in the order of insertion. -/
def AgentDb.told (db : AgentDb ρ) (i : CommandId) : List CommandStatus :=
  (db.eventsOf i).map CommandEventRow.status

/-- What becomes of the commands between two moments of a history. -/
structure AgentDb.Follows (db db' : AgentDb ρ) : Prop where
  /-- A command stays, with its agent, and its status follows edges. -/
  path : ∀ i r, db.commands.row i = some r → ∃ r', db'.commands.row i = some r' ∧
    r'.agentId = r.agentId ∧ ReflTransGen CommandStatus.Edge r.status r'.status
  /-- A new one starts as `PENDING`. -/
  created : ∀ i r', db.commands.row i = none → db'.commands.row i = some r' →
    ReflTransGen CommandStatus.Edge .pending r'.status
  /-- One that is closed keeps its row and its event rows. -/
  frozen : ∀ i r, db.commands.row i = some r → r.status.final = true →
    db'.commands.row i = some r ∧ db'.eventsOf i = db.eventsOf i

/-- The event rows of every command are a path that ends in its status. -/
structure AgentDb.WellTold (db : AgentDb ρ) : Prop where
  chain : ∀ i, (db.told i).IsChain CommandStatus.Edge
  last : ∀ i r, db.commands.row i = some r →
    db.told i = [] ∧ (r.status = .pending ∨ r.status = .sent) ∨
      (db.told i).getLast? = some r.status ∧ r.status ≠ .pending
  unborn : ∀ i, db.commands.row i = none → db.told i = []

theorem AgentDb.Follows.refl (db : AgentDb ρ) : db.Follows db where
  path i r hrow := ⟨r, hrow, rfl, .refl⟩
  created i r' hnone hrow := by rw [hnone] at hrow; cases hrow
  frozen i r hrow _ := ⟨hrow, rfl⟩

theorem AgentDb.Follows.trans {a b c : AgentDb ρ} (hab : a.Follows b) (hbc : b.Follows c) :
    a.Follows c where
  path i r hrow := by
    obtain ⟨r', hrow', hg, hpath⟩ := hab.path i r hrow
    obtain ⟨r'', hrow'', hg', hpath'⟩ := hbc.path i r' hrow'
    exact ⟨r'', hrow'', hg'.trans hg, hpath.trans hpath'⟩
  created i r'' hnone hrow'' := by
    cases hb : b.commands.row i with
    | none => exact hbc.created i r'' hb hrow''
    | some r' =>
      obtain ⟨x, hx, -, hpath⟩ := hbc.path i r' hb
      rw [hrow''] at hx
      cases hx
      exact (hab.created i r' hnone hb).trans hpath
  frozen i r hrow hfinal := by
    obtain ⟨hrow', hev⟩ := hab.frozen i r hrow hfinal
    obtain ⟨hrow'', hev'⟩ := hbc.frozen i r hrow' hfinal
    exact ⟨hrow'', hev'.trans hev⟩

section Rows

variable {db : AgentDb ρ} {i j : CommandId} {r : CommandRow ρ} {e : CommandEventRow ρ}

theorem eventsOf_addEvent_self (he : e.commandId = i) :
    (db.addEvent e).eventsOf i = db.eventsOf i ++ [e] := by
  simp [AgentDb.eventsOf, List.filter_append, he]

theorem eventsOf_addEvent_of_ne (he : e.commandId ≠ i) :
    (db.addEvent e).eventsOf i = db.eventsOf i := by
  simp [AgentDb.eventsOf, List.filter_append, he]

end Rows

variable {f : CommandRow ρ → CommandRow ρ} {db db' : AgentDb ρ}

/-- A change of one row along an edge. -/
theorem AgentDb.Follows.of_edge {i : CommandId} {r : CommandRow ρ}
    (hrow : db.commands.row i = some r)
    (hc : db'.commands = db.commands.modify i f) (hev : ∀ j, j ≠ i → db'.eventsOf j = db.eventsOf j)
    (hg : (f r).agentId = r.agentId) (hedge : r.status.Edge (f r).status) : db.Follows db' := by
  have hself : db'.commands.row i = some (f r) := by
    rw [hc, modify_row_self, hrow, Option.map_some]
  have hother : ∀ j, j ≠ i → db'.commands.row j = db.commands.row j := by
    intro j hj
    rw [hc, modify_row_of_ne _ _ hj]
  constructor
  · intro j r' hrow'
    by_cases hj : j = i
    · subst hj
      rw [hrow] at hrow'
      cases hrow'
      exact ⟨f r, hself, hg, .single hedge⟩
    · exact ⟨r', (hother j hj).trans hrow', rfl, .refl⟩
  · intro j r' hnone hrow'
    have hj : j ≠ i := by
      rintro rfl
      rw [hrow] at hnone
      cases hnone
    rw [hother j hj, hnone] at hrow'
    cases hrow'
  · intro j r' hrow' hfinal
    have hj : j ≠ i := by
      rintro rfl
      rw [hrow] at hrow'
      cases hrow'
      rw [hedge.not_final] at hfinal
      cases hfinal
    exact ⟨(hother j hj).trans hrow', hev j hj⟩

theorem AgentDb.Follows.of_insert (db : AgentDb ρ) {new : CommandRow ρ} (hnew : new.status = .pending) :
    db.Follows { db with commands := db.commands.insert new } := by
  have hold : ∀ i r, db.commands.row i = some r → (db.commands.insert new).row i = some r := by
    intro i r hrow
    rw [insert_row_of_ne _ _ (lt_of_row hrow).ne, hrow]
  constructor
  · intro i r hrow
    exact ⟨r, hold i r hrow, rfl, .refl⟩
  · intro i r' hnone hrow
    by_cases hi : i = db.commands.next
    · subst hi
      have : new = r' := Option.some.inj ((insert_row_self _ _).symm.trans hrow)
      rw [← this, hnew]
    · rw [insert_row_of_ne _ _ hi, hnone] at hrow
      cases hrow
  · intro i r hrow _
    exact ⟨hold i r hrow, rfl⟩

theorem AgentDb.Write.follows (h : db.Write db') : db.Follows db' := by
  cases h with
  | insert new hnew => exact .of_insert db hnew
  | sent hrow hr =>
    have hedge : CommandStatus.Edge .pending .sent := by decide
    exact .of_edge hrow rfl (fun _ _ => rfl) rfl (hr ▸ hedge)
  | noted hrow he hedge hf hg =>
    refine .of_edge hrow rfl ?_ hg (hf ▸ hedge)
    intro j hj
    exact eventsOf_addEvent_of_ne fun h => hj (h.symm.trans he)
  | rest hc he =>
    have hev : ∀ i, db'.eventsOf i = db.eventsOf i := by
      intro i
      rw [AgentDb.eventsOf, he]
      rfl
    constructor
    · intro i r hrow
      exact ⟨r, hc ▸ hrow, rfl, .refl⟩
    · intro i r' hnone hrow
      rw [hc, hnone] at hrow
      cases hrow
    · intro i r hrow _
      exact ⟨hc ▸ hrow, hev i⟩

theorem AgentDb.Writes.follows (h : db.Writes db') : db.Follows db' := by
  induction h with
  | refl => exact .refl db
  | tail _ hwrite ih => exact ih.trans hwrite.follows

variable {e : CommandEventRow ρ}

section WellTold

variable {i j : CommandId} {r : CommandRow ρ}

theorem told_addEvent_self (he : e.commandId = i) :
    (db.addEvent e).told i = db.told i ++ [e.status] := by
  rw [AgentDb.told, eventsOf_addEvent_self he, List.map_append]
  rfl

theorem told_addEvent_of_ne (he : e.commandId ≠ i) :
    (db.addEvent e).told i = db.told i := by
  rw [AgentDb.told, eventsOf_addEvent_of_ne he]
  rfl

/-- An event that follows the current status prolongs the path. -/
theorem AgentDb.WellTold.chain_append (h : db.WellTold) (hrow : db.commands.row i = some r)
    {target : CommandStatus} (hedge : r.status.Edge target) :
    (db.told i ++ [target]).IsChain CommandStatus.Edge := by
  rw [List.isChain_append]
  refine ⟨h.chain i, List.isChain_singleton _, ?_⟩
  intro x hx y hy
  cases hy
  obtain ⟨hnil, -⟩ | ⟨hlast, -⟩ := h.last i r hrow
  · rw [hnil] at hx
    cases hx
  · rw [hlast] at hx
    cases hx
    exact hedge

theorem AgentDb.WellTold.of_insert (h : db.WellTold) {new : CommandRow ρ} (hnew : new.status = .pending) :
    AgentDb.WellTold { db with commands := db.commands.insert new } := by
  constructor
  · exact h.chain
  · intro i r hrow
    by_cases hi : i = db.commands.next
    · subst hi
      have : new = r := Option.some.inj ((insert_row_self _ _).symm.trans hrow)
      left
      exact ⟨h.unborn _ (db.commands.row_none _ le_rfl), .inl (this ▸ hnew)⟩
    · rw [insert_row_of_ne _ _ hi] at hrow
      exact h.last i r hrow
  · intro i hnone
    by_cases hi : i = db.commands.next
    · subst hi
      rw [insert_row_self] at hnone
      cases hnone
    · rw [insert_row_of_ne _ _ hi] at hnone
      exact h.unborn i hnone

theorem modify_row_none
    (h : (db.commands.modify i f).row j = none) : db.commands.row j = none := by
  rw [modify_row] at h
  split_ifs at h with hj
  · exact Option.map_eq_none_iff.1 h
  · exact h

theorem AgentDb.WellTold.of_sent (h : db.WellTold) (hrow : db.commands.row i = some r)
    (hr : r.status = .pending) :
    AgentDb.WellTold (db.setCommand i fun r => { r with status := .sent }) := by
  constructor
  · exact h.chain
  · intro j r' hrow'
    by_cases hj : j = i
    · subst hj
      rw [setCommand_commands, modify_row_self, hrow] at hrow'
      cases hrow'
      -- a pending command has no event row yet
      obtain ⟨hnil, -⟩ | ⟨-, hne⟩ := h.last j r hrow
      · exact .inl ⟨hnil, .inr rfl⟩
      · exact absurd hr hne
    · rw [setCommand_commands, modify_row_of_ne _ _ hj] at hrow'
      exact h.last j r' hrow'
  · intro j hnone
    exact h.unborn j (modify_row_none hnone)

theorem AgentDb.WellTold.of_noted (h : db.WellTold) (hrow : db.commands.row i = some r)
    (he : e.commandId = i)
    (hedge : r.status.Edge e.status) (hf : (f r).status = e.status) :
    AgentDb.WellTold ((db.setCommand i f).addEvent e) := by
  have hself : ((db.setCommand i f).addEvent e).told i = db.told i ++ [e.status] :=
    told_addEvent_self he
  have hother : ∀ j, j ≠ i → ((db.setCommand i f).addEvent e).told j = db.told j := by
    intro j hj
    exact told_addEvent_of_ne fun hej => hj (hej.symm.trans he)
  constructor
  · intro j
    by_cases hj : j = i
    · subst hj
      rw [hself]
      exact h.chain_append hrow hedge
    · rw [hother j hj]
      exact h.chain j
  · intro j r' hrow'
    by_cases hj : j = i
    · subst hj
      rw [addEvent_commands, setCommand_commands, modify_row_self, hrow] at hrow'
      cases hrow'
      right
      rw [hself, List.getLast?_concat, hf]
      exact ⟨rfl, hedge.ne_pending⟩
    · rw [addEvent_commands, setCommand_commands, modify_row_of_ne _ _ hj] at hrow'
      rw [hother j hj]
      exact h.last j r' hrow'
  · intro j hnone
    have hdb : db.commands.row j = none := modify_row_none hnone
    have hj : j ≠ i := by
      rintro rfl
      rw [hrow] at hdb
      cases hdb
    rw [hother j hj]
    exact h.unborn j hdb

theorem AgentDb.WellTold.of_rest {db' : AgentDb ρ} (h : db.WellTold) (hc : db'.commands = db.commands)
    (he : db'.events = db.events) : db'.WellTold := by
  have htold : ∀ i, db'.told i = db.told i := by
    intro i
    rw [AgentDb.told, AgentDb.eventsOf, he]
    rfl
  constructor
  · intro i
    rw [htold]
    exact h.chain i
  · intro i r hrow
    rw [htold]
    exact h.last i r (hc ▸ hrow)
  · intro i hnone
    rw [htold]
    exact h.unborn i (hc ▸ hnone)

theorem AgentDb.WellTold.writes {db' : AgentDb ρ} (h : db.WellTold) (hw : db.Writes db') :
    db'.WellTold := by
  induction hw with
  | refl => exact h
  | tail _ hwrite ih =>
    cases hwrite with
    | insert new hnew => exact ih.of_insert hnew
    | sent hrow hr => exact ih.of_sent hrow hr
    | noted hrow he hedge hf _ => exact ih.of_noted hrow he hedge hf
    | rest hc he => exact ih.of_rest hc he

theorem wellTold_start (agents : AgentId → AgentRow) : (AgentDb.start agents : AgentDb ρ).WellTold where
  chain _ := List.isChain_nil
  last i r hrow := by cases hrow
  unborn _ _ := rfl

end WellTold

theorem run_writes (cols : Columns ρ) (ops : List (CommandOp ρ)) :
    ∀ db : AgentDb ρ, db.Writes (Runs.run (CommandOp.step cols) db ops) := by
  induction ops with
  | nil => intro db; exact .refl
  | cons op ops ih =>
    intro db
    exact (op.step_writes cols).trans (ih _)

/-- At every moment of every history the event rows of a command are a path that ends in its
status, and from any moment to any later one its status follows edges, with its row and its event
rows frozen once it is closed. A message changes only commands of its own agent. -/
theorem command_record_faithful (cols : Columns ρ) (agents : AgentId → AgentRow)
    (past future : List (CommandOp ρ)) :
    let db := Runs.run (CommandOp.step cols) (.start agents) past
    db.Follows (Runs.run (CommandOp.step cols) db future) ∧
      (∀ i r, db.commands.row i = some r →
        (db.told i).IsChain CommandStatus.Edge ∧
          (r.status ≠ .pending → r.status ≠ .sent → (db.told i).getLast? = some r.status) ∧
          ∀ g now m, r.agentId ≠ g →
            ((CommandOp.message g now m).step cols db).commands.row i = some r) := by
  intro db
  have htold : db.WellTold := (wellTold_start agents).writes (run_writes cols past _)
  refine ⟨(run_writes cols future db).follows, ?_⟩
  intro i r hrow
  refine ⟨htold.chain i, ?_, ?_⟩
  · intro hpending hsent
    obtain ⟨-, hstatus⟩ | ⟨hlast, -⟩ := htold.last i r hrow
    · exact absurd hstatus (not_or.2 ⟨hpending, hsent⟩)
    · exact hlast
  · intro g now m hg
    exact handleMessage_foreign m hrow hg

end Healer
