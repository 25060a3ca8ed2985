import Healer.Lib.Runs

/-! `agent/internal/journal`: the Agent's append-only record of command states, one JSON
object a line. `encoding/json` is a parameter; what the journal needs of it is `Lawful`. -/

namespace Healer

inductive JournalStatus
  | received | running | completed
  deriving DecidableEq, Repr

/-- `Journal.entries`, the map that `IsCompleted` and `Record` read and write. -/
def Entries (ι : Type) := ι → Option JournalStatus

namespace Entries

variable {ι : Type} [DecidableEq ι]

def empty : Entries ι := fun _ => none

def isCompleted (m : Entries ι) (commandID : ι) : Bool := m commandID == some .completed

def set (m : Entries ι) (commandID : ι) (status : JournalStatus) : Entries ι :=
  Function.update m commandID (some status)

@[simp] theorem set_self (m : Entries ι) (i : ι) (st : JournalStatus) : m.set i st i = some st :=
  Function.update_self ..

theorem set_of_ne (m : Entries ι) {i j : ι} (st : JournalStatus) (h : j ≠ i) : m.set i st j = m j :=
  Function.update_of_ne h ..

omit [DecidableEq ι] in
theorem isCompleted_iff {m : Entries ι} {i : ι} : m.isCompleted i = true ↔ m i = some .completed := by
  simp [isCompleted]

end Entries

structure JournalEntry (ι τ : Type) where
  commandID : ι
  status : JournalStatus
  recordedAt : τ
  deriving DecidableEq

def newline : UInt8 := 10

def carriageReturn : UInt8 := 13

/-- The buffer limit `replay` gives its scanner, 1 MiB. A line that fills it is
`bufio.ErrTooLong`. -/
def maxLine : ℕ := 1024 * 1024

/-- `json.Marshal` and `json.Unmarshal` on one `entry`. -/
structure Json (ι τ : Type) where
  marshal : JournalEntry ι τ → List UInt8
  unmarshal : List UInt8 → Option (JournalEntry ι τ)

/-- The start of an entry's text, at least one byte of it. -/
def Json.Fragment {ι τ : Type} (c : Json ι τ) (f : List UInt8) : Prop :=
  f ≠ [] ∧ ∃ e, f <+: c.marshal e

/-- An entry is written on one line and read back, no proper start of it is a JSON object,
and neither are two or more entries, or starts of entries, one after the other. -/
structure Json.Lawful {ι τ : Type} (c : Json ι τ) : Prop where
  nonempty : ∀ e, c.marshal e ≠ []
  no_newline : ∀ e, newline ∉ c.marshal e
  no_carriageReturn : ∀ e, carriageReturn ∉ c.marshal e
  unmarshal_marshal : ∀ e, c.unmarshal (c.marshal e) = some e
  torn : ∀ e f, f <+: c.marshal e → f ≠ c.marshal e → c.unmarshal f = none
  joined : ∀ fs : List (List UInt8), (∀ f ∈ fs, c.Fragment f) → 2 ≤ fs.length →
    c.unmarshal fs.flatten = none

section Open

variable {ι τ : Type} [DecidableEq ι] (c : Json ι τ)

/-- `bufio.ScanLines` drops one carriage return at the end of a line. -/
def dropCR (line : List UInt8) : List UInt8 :=
  if line.getLast? = some carriageReturn then line.dropLast else line

/-- The body of `replay`'s loop: empty and unreadable lines are passed over. -/
def replayLine (m : Entries ι) (line : List UInt8) : Entries ι :=
  if dropCR line = [] then m
  else
    match c.unmarshal (dropCR line) with
    | none => m
    | some e => m.set e.commandID e.status

def replayLines (lines : List (List UInt8)) : Entries ι := lines.foldl (replayLine c) Entries.empty

/-- `replay`, and with it `Open`: fails on a line that does not fit the scanner's buffer. -/
def replay (file : List UInt8) : Option (Entries ι) :=
  if (file.splitOn newline).all fun line => decide (line.length < maxLine) then
    some (replayLines c (file.splitOn newline))
  else none

end Open

/-- The journal file, the process that has it open, and what the file ought to know. -/
structure JournalRun (ι : Type) where
  file : List UInt8
  /-- `Journal.entries` of the running Agent, if one runs. -/
  opened : Option (Entries ι)
  /-- The last status of each command whose `Record` returned `nil`. -/
  returned : Entries ι
  /-- The commands that some `Record` began to write as completed. -/
  begun : List ι

inductive JournalEvent (ι τ : Type)
  | open
  /-- A `Record` that returns `nil`. -/
  | record (e : JournalEntry ι τ)
  /-- A `Record` that returns an error with `n` bytes of its line in the file. -/
  | fail (e : JournalEntry ι τ) (n : ℕ)
  /-- A crash during a `Record`, with `n` bytes of its line in the file. -/
  | crash (e : JournalEntry ι τ) (n : ℕ)
  /-- A crash, or `Close`, outside `Record`. -/
  | stop

namespace JournalRun

variable {ι τ : Type} [DecidableEq ι]

def fresh : JournalRun ι := ⟨[], none, Entries.empty, []⟩

/-- `data` in `Record`: the entry with its newline. -/
def line (c : Json ι τ) (e : JournalEntry ι τ) : List UInt8 := c.marshal e ++ [newline]

/-- The bytes of a `Record` that reach the file, at its end since it is opened `O_APPEND`. -/
def append (s : JournalRun ι) (e : JournalEntry ι τ) (data : List UInt8) : JournalRun ι :=
  { s with
    file := s.file ++ data
    begun := if e.status = .completed then e.commandID :: s.begun else s.begun }

def step (c : Json ι τ) (s : JournalRun ι) : JournalEvent ι τ → JournalRun ι
  | .open => { s with opened := replay c s.file }
  | .record e =>
    match s.opened with
    | none => s
    | some m =>
      { s.append e (line c e) with
        opened := some (m.set e.commandID e.status)
        returned := s.returned.set e.commandID e.status }
  | .fail e n => if s.opened.isSome then s.append e ((line c e).take n) else s
  | .crash e n =>
    if s.opened.isSome then { s.append e ((line c e).take n) with opened := none } else s
  | .stop => { s with opened := none }

/-- What a journal with these entries reports: every command whose last `Record` to return
`nil` was of its completion, and no command of which none was begun. -/
def Reports (s : JournalRun ι) (m : Entries ι) : Prop :=
  (∀ i, s.returned i = some .completed → m.isCompleted i = true) ∧
    ∀ i, i ∉ s.begun → m.isCompleted i = false

/-- The file can be opened and reports so, as does the journal that is open. -/
def Durable (c : Json ι τ) (s : JournalRun ι) : Prop :=
  (∃ m, replay c s.file = some m ∧ s.Reports m) ∧ ∀ m, s.opened = some m → s.Reports m

/-- The line the next `Record` goes on with; empty after a newline. -/
def lastLine (s : JournalRun ι) : List UInt8 := ((s.file.splitOn newline).getLast?).getD []

end JournalRun

end Healer
