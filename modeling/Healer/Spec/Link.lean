import Healer.Spec.Agent

/-! The Agent and the Control Plane across connections (`agent/internal/transport`). `send` is
bound to one connection: it fails once that connection is gone, and what is on the wire is lost
with it. A restart keeps the journal and nothing else. -/

namespace Healer

/-- The `agent.command_event` messages. -/
inductive Report
  | acknowledged | running | terminal (outcome : Outcome)
  deriving DecidableEq, Repr

def Report.closes : Report → Bool
  | .terminal _ => true
  | _ => false

structure EventMessage (ι : Type) where
  conn : ConnId
  commandID : ι
  report : Report

/-- What a goroutine at this stage sends. -/
def Stage.report? : Stage → Option Report
  | .acknowledge => some .acknowledged
  | .sendRunning => some .running
  | .report o => some (.terminal o)
  | _ => none

structure Link (ι : Type) where
  agent : Agent ι
  /-- The number of connections opened so far; each is named by its number. -/
  conns : ℕ
  live : ConnId → Bool
  /-- The events sent and neither received nor lost. -/
  wire : List (EventMessage ι)
  /-- The commands whose terminal event the Control Plane has received. -/
  received : List ι

inductive LinkEvent (ι : Type)
  | connect
  | drop (conn : ConnId)
  /-- The Agent crashes, or is stopped, and starts again. -/
  | restart
  /-- The Control Plane's `control.command` arrives, for the first time or again. -/
  | deliver (commandID : ι) (conn : ConnId)
  | advance (k : ℕ) (ok : Bool)
  | finish (k : ℕ) (outcome : Outcome)
  /-- The Control Plane receives the `n`-th event on the wire. -/
  | receive (n : ℕ)

namespace Link

variable {ι : Type} [DecidableEq ι]

def start : Link ι := ⟨Agent.start Entries.empty, 0, fun _ => false, [], []⟩

/-- A `send` succeeds on a live connection at most. -/
def sendOk (s : Link ι) (d : Delivered ι) (ok : Bool) : Bool :=
  if d.stage.report?.isSome then ok && s.live d.conn else ok

def posted (s : Link ι) (d : Delivered ι) (ok : Bool) : List (EventMessage ι) :=
  if s.sendOk d ok then (d.stage.report?.map fun r => ⟨d.conn, d.commandID, r⟩).toList else []

def step (s : Link ι) : LinkEvent ι → Link ι
  | .connect => { s with conns := s.conns + 1, live := Function.update s.live s.conns true }
  | .drop conn =>
    { s with
      live := Function.update s.live conn false
      wire := s.wire.filter fun m => m.conn != conn }
  | .restart => { s with agent := Agent.start s.agent.journal, live := fun _ => false, wire := [] }
  | .deliver i conn => if s.live conn then { s with agent := s.agent.step (.deliver i conn) } else s
  | .advance k ok =>
    match s.agent.deliveries.row k with
    | none => s
    | some d =>
      { s with
        agent := s.agent.step (.advance k (s.sendOk d ok))
        wire := s.wire ++ s.posted d ok }
  | .finish k outcome => { s with agent := s.agent.step (.finish k outcome) }
  | .receive n =>
    match s.wire[n]? with
    | none => s
    | some m =>
      { s with
        wire := s.wire.eraseIdx n
        received := if m.report.closes then m.commandID :: s.received else s.received }

/-- The terminal event of a command has been received, is on its way on a live connection, or
is still to be sent on one. -/
def Accounted (s : Link ι) (i : ι) : Prop :=
  i ∈ s.received ∨ (∃ m ∈ s.wire, m.commandID = i ∧ m.report.closes = true ∧ s.live m.conn = true) ∨
    ∃ k conn o, s.agent.deliveries.row k = some ⟨i, conn, .report o⟩ ∧ s.live conn = true

/-- No command that the journal marks completed has an outcome that nobody will learn. -/
def Recoverable (s : Link ι) : Prop :=
  ∀ i, s.agent.journal i = some .completed → s.Accounted i

end Link

end Healer
