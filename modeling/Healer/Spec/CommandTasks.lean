import Healer.Spec.Agent
import Healer.Spec.StateMachines

/-! One command in `command_service`, as tasks that interleave at their awaits. Each task has a
session of its own: it acts on the status it has loaded, and what it writes is seen by others
once it commits. `submit_command` and `deliver_pending_commands` send alike, the first with its
commit right after its flush, the second after the rest of its loop. -/

namespace Healer

/-- A task that has loaded the row as `PENDING` and sends the command. -/
inductive Sender
  /-- Before `await websocket.send_json`. -/
  | loaded
  /-- The command is out and `repo.transition` still to come. -/
  | sent
  /-- `status = SENT` is flushed and not committed. -/
  | flushed
  | done
  deriving DecidableEq, Repr

def Outcome.status : Outcome → CommandStatus
  | .succeeded => .succeeded
  | .failed => .failed
  | .timedOut => .timedOut

/-- `TERMINAL_STATUSES`. -/
def CommandStatus.closed : CommandStatus → Bool
  | .succeeded | .failed | .timedOut => true
  | _ => false

structure CommandTasks where
  /-- The committed status. -/
  status : CommandStatus
  senders : Table Sender
  /-- The terminal status the agent will report. -/
  answer : Outcome
  /-- The agent has received the command. -/
  reached : Bool
  /-- The agent's events that the receive loop has still to handle. -/
  outbox : List CommandStatus
  /-- The events `record_event` has taken, and those it has raised on. -/
  accepted : List CommandStatus
  refused : List CommandStatus
  /-- The statuses `submit_command_and_wait` has returned. -/
  returned : List CommandStatus

inductive TaskEvent
  /-- `submit_command` loads the row it has committed, or `deliver_pending_commands` lists the
  pending ones. -/
  | load
  /-- `send_json` of sender `k` puts the command on the wire; it arrives or is lost. -/
  | transmit (k : ℕ) (arrives : Bool)
  | flush (k : ℕ)
  | commit (k : ℕ)
  /-- The task of sender `k` fails and its session is rolled back. -/
  | abort (k : ℕ)
  /-- The receive loop handles the agent's next event. -/
  | handle
  /-- `submit_command_and_wait` was signalled or timed out, or need not wait: it reads the row
  and returns. -/
  | resume
  deriving DecidableEq

namespace CommandTasks

def start (answer : Outcome) : CommandTasks := ⟨.pending, Table.empty, answer, false, [], [], [], []⟩

/-- What a conforming agent reports for a command it receives. -/
def script (answer : Outcome) : List CommandStatus := [.acknowledged, .running, answer.status]

def goto (s : CommandTasks) (k : ℕ) (sender : Sender) : CommandTasks :=
  { s with senders := s.senders.modify k fun _ => sender }

/-- The agent answers the first delivery and ignores the others. -/
def arrive (s : CommandTasks) : CommandTasks :=
  if s.reached then s else { s with reached := true, outbox := script s.answer }

def step (s : CommandTasks) : TaskEvent → CommandTasks
  | .load => if s.status = .pending then { s with senders := s.senders.insert .loaded } else s
  | .transmit k arrives =>
    if s.senders.row k = some .loaded then
      if arrives then s.arrive.goto k .sent else s.goto k .sent
    else s
  | .flush k => if s.senders.row k = some .sent then s.goto k .flushed else s
  | .commit k =>
    -- the loaded status was `PENDING`, so the transition was allowed whatever the row says now
    if s.senders.row k = some .flushed then { s.goto k .done with status := .sent } else s
  | .abort k => s.goto k .done
  | .handle =>
    match s.outbox with
    | [] => s
    | e :: rest =>
      if canTransition agentCommandTransitions s.status e then
        { s with status := e, outbox := rest, accepted := s.accepted ++ [e] }
      else { s with outbox := rest, refused := s.refused ++ [e] }
  | .resume => { s with returned := s.returned ++ [s.status] }

/-- The event handled is taken, the status moves along the table if at all, and a wait that
ends after the terminal event was taken returns that status. -/
def Kept (s : CommandTasks) (e : TaskEvent) : Prop :=
  (s.step e).refused = s.refused ∧
    Relation.ReflTransGen CommandStatus.Edge s.status (s.step e).status ∧
      (e = .resume → ∀ t ∈ s.accepted, t.closed = true → (s.step e).returned = s.returned ++ [t])

end CommandTasks

end Healer
