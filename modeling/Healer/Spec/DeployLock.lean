import Healer.Spec.DeployFiles
import Healer.Spec.World

/-! The `migrate` step of `deployWindowsRelease` and `acquireDeployLock`: executions of one application in one agent
process. The existence of the file `deploy.lock` is the lock; it is removed by a deferred call of the process that made
it, and nothing looks at it when the agent starts. The steps before `migrate` matter here because `shared_dirs` makes
and clears paths that the payload names. -/

namespace Healer

/-- `deployLockTimeout`, thirty seconds. -/
def deployLockTimeout : Time := 30 * 1000000

/-- The calls of `linkSharedDirs` on the path of a link: `os.MkdirAll` of its directory, `os.RemoveAll`, `os.Symlink`. -/
inductive LinkCall
  | mkdir
  | clear
  | link
  deriving DecidableEq

inductive DeployPhase
  /-- Before `migrate`: the links that `shared_dirs` still has to make, and the next call on the first of them. -/
  | sharing (links : List (List String)) (next : LinkCall)
  /-- In `acquireDeployLock`. -/
  | waiting (deadline : Time)
  /-- From the creation of the lock to the deferred call. -/
  | migrating
  | ended (result : Except String String)
  deriving DecidableEq

structure DeployLock (ι : Type) where
  /-- There is a file, a directory or a link `deploy.lock`. -/
  lock : Bool
  runs : ι → Option DeployPhase

inductive DeployEvent (ι : Type)
  | begin (x : ι) (p : DeployPayload) (w : DeployWindows)
  /-- The calls on the next shared directory; `error` is for a link whose place is taken. -/
  | mkdir (x : ι)
  | clear (x : ι)
  | link (x : ι) (error : String)
  /-- A step before `migrate` fails, perhaps with its last call half done, and the others are skipped. -/
  | fail (x : ι) (error : String)
  /-- The step `migrate` begins; `os.MkdirAll` may fail. -/
  | enter (x : ι) (now : Time) (error : Option String)
  /-- One turn of the loop; `os.OpenFile` may fail for another reason than that the file exists. -/
  | attempt (x : ι) (now : Time) (error : Option String)
  /-- The context is done while the loop sleeps. -/
  | cancel (x : ι) (error : String)
  /-- `manage.py migrate` has ended, and the deferred `os.Remove` has or has not removed the file. -/
  | finish (x : ι) (result : Except String String) (removed : Bool)
  /-- The agent process ends. -/
  | crash

namespace DeployLock

variable {ι : Type} [DecidableEq ι] (os : AgentOs) (dataDir : List String) (slug : String)

def start : DeployLock ι := ⟨false, fun _ => none⟩

def path : List String := dataDir ++ ["apps", slug, "deploy.lock"]

def place : List String := os.keys (path dataDir slug)

def move (s : DeployLock ι) (x : ι) (phase : DeployPhase) : DeployLock ι :=
  { s with runs := Function.update s.runs x (some phase) }

def busy : String := "another deployment is already in progress for this application"

/-- An event that does not fit the execution's phase changes nothing. -/
def step (s : DeployLock ι) : DeployEvent ι → DeployLock ι
  | .begin x p w =>
    if p.appSlug = slug ∧ s.runs x = none then
      let links := (w.links.filter fun link => !isBlank link.1).map fun link =>
        os.join (p.releaseDir dataDir) (os.clean link.1)
      s.move x (.sharing (links.map os.keys) .mkdir)
    else s
  | .mkdir x =>
    match s.runs x with
    | some (.sharing (q :: qs) .mkdir) =>
      { s with lock := s.lock || decide (place os dataDir slug <+: q.dropLast) }.move x (.sharing (q :: qs) .clear)
    | _ => s
  | .clear x =>
    match s.runs x with
    | some (.sharing (q :: qs) .clear) =>
      { s with lock := s.lock && !decide (q <+: place os dataDir slug) }.move x (.sharing (q :: qs) .link)
    | _ => s
  | .link x error =>
    match s.runs x with
    | some (.sharing (q :: qs) .link) =>
      if q ≠ place os dataDir slug then s.move x (.sharing qs .mkdir)
      else if s.lock then s.move x (.ended (.error error))
      else { s with lock := true }.move x (.sharing qs .mkdir)
    | _ => s
  | .fail x error =>
    match s.runs x with
    | some (.sharing _ _) => s.move x (.ended (.error error))
    | _ => s
  | .enter x now error =>
    match s.runs x with
    | some (.sharing [] _) =>
      match error with
      | some e =>
        let dirText := os.absoluteText (path dataDir slug).dropLast
        s.move x (.ended (.error s!"create {dirText}: {e}"))
      | none => s.move x (.waiting (now + deployLockTimeout))
    | _ => s
  | .attempt x now error =>
    match s.runs x with
    | some (.waiting deadline) =>
      match error with
      | some e =>
        let lockText := os.absoluteText (path dataDir slug)
        s.move x (.ended (.error s!"acquire deployment lock {lockText}: {e}"))
      | none =>
        if !s.lock then { s with lock := true }.move x .migrating
        else if deadline < now then s.move x (.ended (.error busy))
        else s
    | _ => s
  | .cancel x error =>
    match s.runs x with
    | some (.waiting _) => s.move x (.ended (.error error))
    | _ => s
  | .finish x result removed =>
    match s.runs x with
    | some .migrating => { s with lock := s.lock && !removed }.move x (.ended result)
    | _ => s
  | .crash => { s with runs := fun _ => none }

end DeployLock

end Healer
