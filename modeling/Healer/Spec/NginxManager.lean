import Healer.Lib.Runs
import Healer.Lib.Scan
import Healer.Lib.Table
import Healer.Spec.Patterns

/-! The Gateway Manager: the schema of a `/reload` request (`app/api/routes/gateway.py`), the text
rendered from `app.conf.j2`, and `nginx_manager.apply` with any number of calls at once. -/

namespace Healer.Nginx

/-- `DomainSpec.hostname`. -/
def hostnameField (s : String) : Bool :=
  1 ≤ s.length && s.length ≤ 255 && patternMatches hostnameRe s

/-- `DomainSpec.cert_path` and `key_path`. -/
def pathField (s : String) : Bool :=
  1 ≤ s.length && s.length ≤ 1000 && patternMatches unixPathRe s && !hasTraversal s

/-- `UpstreamTarget.host`. -/
def hostField (s : String) : Bool :=
  1 ≤ s.length && s.length ≤ 255 && patternMatches hostRe s

structure DomainSpec where
  hostname : String
  certPath : String
  keyPath : String
  hostname_ok : hostnameField hostname = true
  certPath_ok : pathField certPath = true
  keyPath_ok : pathField keyPath = true

structure UpstreamTarget where
  host : String
  port : ℕ
  host_ok : hostField host = true
  port_ok : 1 ≤ port ∧ port ≤ 65535

structure ReloadRequest where
  appSlug : String
  domains : List DomainSpec
  upstreams : List UpstreamTarget
  slug_ok : 1 ≤ appSlug.length ∧ appSlug.length ≤ 63

/-- A name that `managed_dir / name` would not keep in the managed directory. -/
def escapes (name : String) : Bool := name.toList.contains '/' || name == "." || name == ".."

/-- `_managed_path`: the name of the file in the managed directory, or `InvalidAppSlug`. -/
def managedPath (slug : String) : Option String :=
  if !reMatch slugRe slug then none
  else if escapes (slug ++ ".conf") then none
  else some (slug ++ ".conf")

/-- The name of the upstream block: `healer_` and the slug with `-` replaced by `_`. -/
def upstreamName (slug : String) : String :=
  "healer_" ++ String.ofList (slug.toList.map fun c => if c = '-' then '_' else c)

/-! ## app.conf.j2 -/

def upstreamLine (u : UpstreamTarget) : String :=
  "    server " ++ (u.host ++ ":" ++ toString u.port) ++ ";" ++ "\n"

/-- The two server blocks of a domain, line by line: the redirect and the proxy. -/
def domainLines (name : String) (d : DomainSpec) : List String :=
  ["server \x7b\n",
    "    listen 80;\n",
    "    server_name " ++ d.hostname ++ ";" ++ "\n",
    "    return 301 https://$host$request_uri;\n",
    "\x7d\n",
    "\n",
    "server \x7b\n",
    "    listen 443 ssl;\n",
    "    server_name " ++ d.hostname ++ ";" ++ "\n",
    "\n",
    "    ssl_certificate     " ++ d.certPath ++ ";" ++ "\n",
    "    ssl_certificate_key " ++ d.keyPath ++ ";" ++ "\n",
    "\n",
    "    location / \x7b\n",
    "        proxy_pass http://" ++ name ++ ";" ++ "\n",
    "        proxy_http_version 1.1;\n",
    "        proxy_set_header Connection \"\";\n",
    "        proxy_set_header Host $host;\n",
    "        proxy_set_header X-Real-IP $remote_addr;\n",
    "        proxy_set_header X-Forwarded-For $proxy_add_x_forwarded_for;\n",
    "        proxy_set_header X-Forwarded-Proto $scheme;\n",
    "    \x7d\n",
    "\x7d\n"]

def confTemplate (name : String) (domains : List DomainSpec) (upstreams : List UpstreamTarget) :
    List String :=
  ["upstream " ++ name ++ " " ++ "\x7b\n",
    "    least_conn;\n"] ++
  upstreams.map upstreamLine ++
  ["    keepalive 32;\n",
    "\x7d\n",
    "\n"] ++
  domains.flatMap (domainLines name)

/-- `render`: nothing for an application without a domain or an upstream. -/
def render (r : ReloadRequest) : Option String :=
  if r.domains.isEmpty || r.upstreams.isEmpty then none
  else some (String.join (confTemplate (upstreamName r.appSlug) r.domains r.upstreams))

/-! ## apply -/

/-- The files of the managed directory by name. -/
abbrev Directory := String → Option String

/-- What nginx includes: `*.conf`. -/
def Directory.confs (files : Directory) : Directory := fun name =>
  if ".conf".toList.isSuffixOf name.toList then files name else none

/-- `read_text` turns every line end into a newline; `cr` says that the last letter was a carriage
return. The texts are ASCII. -/
def universalNewlines : (cr : Bool) → List Char → List Char
  | _, [] => []
  | cr, c :: cs =>
    if c = '\r' then '\n' :: universalNewlines true cs
    else if cr && c == '\n' then universalNewlines false cs
    else c :: universalNewlines false cs

def readText (text : String) : String := String.ofList (universalNewlines false text.toList)

structure Answer where
  ok : Bool
  detail : String

structure ReloadOutcome where
  ok : Bool
  message : String

/-- Why `_write_or_remove` is called: for the new text, after a failed `nginx -t`, or after a failed
reload. -/
inductive Writing
  | activate
  | rejected (detail : String)
  | notReloaded (detail : String)

/-- What a call does next. The lock is held from `reading` on. -/
inductive Stage
  | waiting
  | reading
  | writing (why : Writing)
  | replacing (why : Writing)
  | validating
  | reloading
  | revalidating (detail : String)
  | done (outcome : ReloadOutcome)
  | refused

structure Call where
  request : ReloadRequest
  path : String
  previous : Option String
  stage : Stage
  /-- The directory when the call got the lock. -/
  before : Directory

namespace Call

def tmpPath (c : Call) : String := c.path ++ ".tmp"

/-- The text to leave in the file, if any. -/
def target (c : Call) : Writing → Option String
  | .activate => render c.request
  | .rejected _ | .notReloaded _ => c.previous

/-- Where a call goes on once its file is written or removed. -/
def written : Writing → Stage
  | .activate => .validating
  | .rejected detail => .done ⟨false,
      s!"nginx -t rejected the new configuration, restored the previous one: {detail}"⟩
  | .notReloaded detail => .revalidating detail

/-- The last lines of `apply`. -/
def activated (c : Call) : ReloadOutcome :=
  if (render c.request).isNone then ⟨true, "no active domain/healthy upstream — routing removed"⟩
  else ⟨true, "activated and reloaded"⟩

def notReloaded (detail : String) : ReloadOutcome :=
  ⟨false, s!"nginx -s reload failed, restored the previous configuration: {detail}"⟩

end Call

/-- The managed directory, what nginx has loaded, the holder of `_apply_lock`, and the calls. -/
structure Manager where
  files : Directory
  loaded : Directory
  lock : Option ℕ
  calls : Table Call

inductive ManagerEvent
  | request (r : ReloadRequest)
  /-- A call goes on by one step; `answer` is what nginx returns if the step runs it. -/
  | step (k : ℕ) (answer : Answer)

namespace Manager

/-- The call goes on to `stage`; with its last step it gives the lock back. -/
def goto (m : Manager) (k : ℕ) (stage : Stage) : Manager :=
  { m with
    calls := m.calls.modify k fun c => { c with stage := stage }
    lock := match stage with
      | .done _ | .refused => none
      | _ => m.lock }

def setFile (m : Manager) (name : String) (text : Option String) : Manager :=
  { m with files := Function.update m.files name text }

/-- `with _apply_lock`: a call that finds the lock taken stays where it is. -/
def enter (m : Manager) (k : ℕ) : Manager :=
  if m.lock.isSome then m
  else
    { m with
      calls := m.calls.modify k fun c => { c with stage := .reading, before := m.files }
      lock := some k }

/-- `_managed_path`, `path.exists()` and `path.read_text()`. -/
def read (m : Manager) (k : ℕ) (c : Call) : Manager :=
  match managedPath c.request.appSlug with
  | none => m.goto k .refused
  | some path =>
    { m with calls := m.calls.modify k fun c =>
      { c with path := path, previous := (m.files path).map readText, stage := .writing .activate } }

/-- `_write_or_remove` up to the temporary file. -/
def write (m : Manager) (k : ℕ) (c : Call) (why : Writing) : Manager :=
  match c.target why with
  | none => (m.setFile c.path none).goto k (Call.written why)
  | some text => (m.setFile c.tmpPath (some text)).goto k (.replacing why)

/-- `os.replace`. -/
def replace (m : Manager) (k : ℕ) (c : Call) (why : Writing) : Manager :=
  ((m.setFile c.path (m.files c.tmpPath)).setFile c.tmpPath none).goto k (Call.written why)

def advance (m : Manager) (k : ℕ) (c : Call) (answer : Answer) : Manager :=
  match c.stage with
  | .waiting => m.enter k
  | .reading => m.read k c
  | .writing why => m.write k c why
  | .replacing why => m.replace k c why
  | .validating =>
    m.goto k (if answer.ok then .reloading else .writing (.rejected answer.detail))
  | .reloading =>
    -- a reload that succeeds loads the whole directory
    if answer.ok then { m with loaded := m.files.confs }.goto k (.done c.activated)
    else m.goto k (.writing (.notReloaded answer.detail))
  | .revalidating detail => m.goto k (.done (Call.notReloaded detail))
  | .done _ | .refused => m

def step (m : Manager) : ManagerEvent → Manager
  | .request r =>
    { m with calls := m.calls.insert ⟨r, "", none, .waiting, fun _ => none⟩ }
  | .step k answer =>
    match m.calls.row k with
    | some c => m.advance k c answer
    | none => m

end Manager

end Healer.Nginx
