import Healer.Lib.Runs
import Healer.Spec.Handlers

/-! What the calls of the handlers leave on a Windows host: the launch specs on its disk and the services
that are registered, with the arguments the service manager starts them with. One command after another is
served on the same host. -/

namespace Healer

structure Installation where
  files : String → Option LaunchFile
  /-- The arguments of each registered service. -/
  services : String → Option (List String)

namespace Installation

def empty : Installation := ⟨fun _ => none, fun _ => none⟩

def write (s : Installation) (path : String) (spec : Option LaunchFile) : Installation :=
  { s with files := Function.update s.files path spec }

def register (s : Installation) (name : String) (args : List String) : Installation :=
  { s with services := Function.update s.services name (some args) }

def remove (s : Installation) (name : String) : Installation :=
  { s with services := Function.update s.services name none }

end Installation

/-- A call that was answered after `log`. What a failed write leaves in the file is not known. -/
def Host.apply (host : Host) (log : HostLog) (s : Installation) : HostCall → Installation
  | .writeFile path spec => s.write path (if (host.write log (.writeFile path spec)).isNone then some spec else none)
  | .scm (.create name displayName description exePath args account) =>
    if (host.scm log (.create name displayName description exePath args account)).isOk then s.register name args else s
  | .scm (.delete name) => if (host.scm log (.delete name)).isOk then s.remove name else s
  | _ => s

def Host.applyAll (host : Host) : (log : HostLog) → Installation → HostLog → Installation
  | _, s, [] => s
  | log, s, c :: cs => host.applyAll (log ++ [c]) (host.apply log s c) cs

/-- What is installed after the calls of `log`. -/
def Host.installed (host : Host) (log : HostLog) : Installation := host.applyAll [] Installation.empty log

/-! ## Commands in sequence -/

/-- The host, and the payload that each service was last started with. -/
structure Fleet where
  log : HostLog
  own : String → Option StartInstancePayload

def Fleet.start : Fleet := ⟨[], fun _ => none⟩

/-- A command with the context it is given. -/
structure Order where
  ctx : Context
  command : InstanceCommand

namespace Order

/-- `result["ok"]`, of a handler that returns no error. -/
def succeeds (host : Host) (f : Fleet) (o : Order) : Bool :=
  match (dispatchInstance host o.ctx o.command f.log).1 with
  | .ok result => result.ok
  | .error _ => false

/-- Any adapter but `linux-docker` is served by services. -/
def onServices (o : Order) : Bool :=
  match o.command with
  | .start (.ok payload) => payload.adapter != "linux-docker"
  | .stop (.ok payload) => payload.adapter != "linux-docker"
  | _ => true

/-- The payload of a `start_instance`. -/
def payload (o : Order) : Option StartInstancePayload :=
  match o.command with
  | .start (.ok payload) => some payload
  | _ => none

end Order

def Fleet.serve (host : Host) (f : Fleet) (o : Order) : Fleet where
  log := (dispatchInstance host o.ctx o.command f.log).2
  own :=
    match o.payload with
    | some payload => Function.update f.own payload.serviceName (some payload)
    | none => f.own

end Healer
