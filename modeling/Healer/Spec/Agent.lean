import Healer.Lib.Table
import Healer.Spec.Journal

/-! `agent/internal/core`: `handleMessage` and `execute` as goroutines that interleave. A
delivery is followed from `handleMessage` into the goroutine that it starts; each of its steps
is one call on the journal, one `inFlightMu` section, one `send` or one side of `Dispatch`. -/

namespace Healer

abbrev ConnId := ℕ

/-- The terminal event statuses of the protocol. -/
inductive Outcome
  | succeeded | failed | timedOut
  deriving DecidableEq, Repr

/-- What the goroutine of a delivery does next. -/
inductive Stage
  /-- `Journal.IsCompleted`. -/
  | check
  /-- The section that looks the command up in `inFlight` and adds it. -/
  | enter
  /-- `Journal.Record(received)`. -/
  | recordReceived
  /-- `send(acknowledged)`. -/
  | acknowledge
  /-- `delete(inFlight)` before `handleMessage` returns an error. -/
  | abandon
  /-- `Journal.Record(running)`, the first call of `execute`. -/
  | recordRunning
  /-- `send(running)`. -/
  | sendRunning
  /-- The call of `Dispatcher.Dispatch`. -/
  | dispatch
  /-- Inside `Dispatch`. -/
  | dispatching
  /-- `Journal.Record(completed)`. -/
  | recordCompleted (outcome : Outcome)
  /-- `send` of the terminal event. -/
  | report (outcome : Outcome)
  /-- The deferred `delete(inFlight)`. -/
  | leave
  | done
  deriving DecidableEq, Repr

/-- A delivery of a command; `conn` is the connection its `send` is bound to. -/
structure Delivered (ι : Type) where
  commandID : ι
  conn : ConnId
  stage : Stage

structure Agent (ι : Type) where
  /-- The entries of `opts.Journal`. -/
  journal : Entries ι
  inFlight : ι → Bool
  deliveries : Table (Delivered ι)
  /-- The calls of `Dispatch`, in order. -/
  dispatched : List ι

inductive AgentEvent (ι : Type)
  /-- `handleMessage` is called with a `control.command`. -/
  | deliver (commandID : ι) (conn : ConnId)
  /-- Goroutine `k` takes its next step; `ok` says whether a `Record` or `send` returned `nil`. -/
  | advance (k : ℕ) (ok : Bool)
  /-- `Dispatch` returns to goroutine `k`, which then has its terminal status. -/
  | finish (k : ℕ) (outcome : Outcome)
  deriving DecidableEq

namespace Agent

variable {ι : Type} [DecidableEq ι]

/-- A process that has just opened its journal. -/
def start (journal : Entries ι) : Agent ι := ⟨journal, fun _ => false, Table.empty, []⟩

def goto (a : Agent ι) (k : ℕ) (stage : Stage) : Agent ι :=
  { a with deliveries := a.deliveries.modify k fun d => { d with stage := stage } }

def hold (a : Agent ι) (i : ι) : Agent ι := { a with inFlight := Function.update a.inFlight i true }

def release (a : Agent ι) (i : ι) : Agent ι := { a with inFlight := Function.update a.inFlight i false }

def record (a : Agent ι) (i : ι) (status : JournalStatus) : Agent ι :=
  { a with journal := a.journal.set i status }

def call (a : Agent ι) (i : ι) : Agent ι := { a with dispatched := a.dispatched ++ [i] }

/-- One step of goroutine `k`. A `Record` that fails leaves the entries alone; only the first
two calls that can fail stop the delivery. -/
def move (a : Agent ι) (k : ℕ) (i : ι) (ok : Bool) : Stage → Agent ι
  | .check => a.goto k (if a.journal.isCompleted i then .done else .enter)
  | .enter => if a.inFlight i then a.goto k .done else (a.hold i).goto k .recordReceived
  | .recordReceived => if ok then (a.record i .received).goto k .acknowledge else a.goto k .abandon
  | .acknowledge => a.goto k (if ok then .recordRunning else .abandon)
  | .abandon => (a.release i).goto k .done
  | .recordRunning => (if ok then a.record i .running else a).goto k .sendRunning
  | .sendRunning => a.goto k .dispatch
  | .dispatch => (a.call i).goto k .dispatching
  | .dispatching => a
  | .recordCompleted o => (if ok then a.record i .completed else a).goto k (.report o)
  | .report _ => a.goto k .leave
  | .leave => (a.release i).goto k .done
  | .done => a

def finish (a : Agent ι) (k : ℕ) (outcome : Outcome) : Stage → Agent ι
  | .dispatching => a.goto k (.recordCompleted outcome)
  | _ => a

def step (a : Agent ι) : AgentEvent ι → Agent ι
  | .deliver i conn => { a with deliveries := a.deliveries.insert ⟨i, conn, .check⟩ }
  | .advance k ok =>
    match a.deliveries.row k with
    | none => a
    | some d => a.move k d.commandID ok d.stage
  | .finish k outcome =>
    match a.deliveries.row k with
    | none => a
    | some d => a.finish k outcome d.stage

end Agent

end Healer
