import Healer.Spec.World

/-! `lock_service`: the per-application operation lock. Each function is one
conditional `UPDATE` of the application row. -/

namespace Healer

/-- `STALE_LOCK_AFTER`, twenty minutes. -/
def staleLockAfter : Time := 20 * 60 * 1000000

/-- The `WHERE` clause of `acquire`. A comparison with `NULL` is not true. -/
def Application.lockFree (a : Application) (now : Time) : Bool :=
  a.operationLock.isNone || a.operationLockAcquiredAt.any fun t => t < now - staleLockAfter

def Application.acquire (a : Application) (operation : String) (now : Time) : Option Application :=
  if a.lockFree now then
    some { a with operationLock := some operation, operationLockAcquiredAt := some now }
  else none

def Application.release (a : Application) (acquiredAt : Time) : Application :=
  if a.operationLockAcquiredAt = some acquiredAt then
    { a with operationLock := none, operationLockAcquiredAt := none }
  else a

def Application.forceRelease (a : Application) : Application :=
  { a with operationLock := none, operationLockAcquiredAt := none }

namespace LockService

/-- `repr` of the operation that holds the lock. -/
def heldAs : Option String → String
  | some operation => s!"'{operation}'"
  | none => "None"

/-- `lock_service.acquire`: the time written is the token. -/
def acquire (operation : String) : M Time := do
  let t ← now
  let db ← getDb
  match db.application.acquire operation t with
  | some a => do
    modifyDb fun db => { db with application := a }
    commit
    pure t
  | none => do
    commit
    let held := heldAs db.application.operationLock
    Prog.raise (.operationLockHeld s!"a {held} operation is already in progress for this application")

/-- `lock_service.release`. -/
def release (acquiredAt : Time) : M Unit := do
  modifyDb fun db => { db with application := db.application.release acquiredAt }
  commit

/-- `try: m finally: lock_service.release(..)`. When `m` ends with a failed flush the `UPDATE` of
`release` raises too (`PendingRollbackError`), and the lock stays. -/
def releaseFinally (m : M Unit) (acquiredAt : Time) : M Unit := do
  match ← Prog.attempt m with
  | .ok _ => release acquiredAt
  | .error .databaseError => Prog.raise .databaseError
  | .error e => do
    release acquiredAt
    Prog.raise e

end LockService

/-! ## Interleavings

Any number of operations on one application, each of them identified by some `x`. -/

inductive LockEvent (ι : Type)
  | acquire (x : ι) (operation : String) (now : Time)
  | release (x : ι) (now : Time)
  | forceRelease (now : Time)
  /-- The process that runs the operation is gone. -/
  | crash (x : ι)

def LockEvent.time {ι : Type} : LockEvent ι → Option Time
  | .acquire _ _ now | .release _ now | .forceRelease now => some now
  | .crash _ => none

structure LockRun (ι : Type) where
  application : Application
  clock : Time
  /-- What `acquire` returned to the operations that live and have not released yet. -/
  token : ι → Option Time
  /-- The last operation whose `acquire` succeeded, and when. -/
  last : Option (ι × Time)

namespace LockRun

variable {ι : Type} [DecidableEq ι]

def start (a : Application) (now : Time) : LockRun ι := ⟨a, now, fun _ => none, none⟩

def step (s : LockRun ι) : LockEvent ι → LockRun ι
  | .acquire x operation now =>
    match s.application.acquire operation now with
    | some a => ⟨a, now, Function.update s.token x (some now), some (x, now)⟩
    | none => { s with clock := now }
  | .release x now =>
    match s.token x with
    | some t =>
      { s with
        application := s.application.release t
        clock := now
        token := Function.update s.token x none }
    | none => { s with clock := now }
  | .forceRelease now => { s with application := s.application.forceRelease, clock := now }
  | .crash x => { s with token := Function.update s.token x none }

def run (s : LockRun ι) (es : List (LockEvent ι)) : LockRun ι := es.foldl step s

/-- Clock readings do not decrease, an operation releases what it acquired at most once, and
`force_release` is for a holder that is gone. -/
def Allowed (s : LockRun ι) : LockEvent ι → Prop
  | .acquire x _ now => s.clock ≤ now ∧ s.token x = none
  | .release x now => s.clock ≤ now ∧ (s.token x).isSome
  | .forceRelease now => s.clock ≤ now ∧ ∀ x t, s.last = some (x, t) → s.token x = none
  | .crash _ => True

/-- No operation has gone on for longer than `STALE_LOCK_AFTER` without its release. -/
def InTime (s : LockRun ι) (e : LockEvent ι) : Prop :=
  ∀ now, e.time = some now → ∀ x t, s.token x = some t → now ≤ t + staleLockAfter

/-- `P` holds of each event and the state before it. -/
def Throughout (P : LockRun ι → LockEvent ι → Prop) (s : LockRun ι) : List (LockEvent ι) → Prop
  | [] => True
  | e :: es => P s e ∧ (s.step e).Throughout P es

end LockRun

end Healer
