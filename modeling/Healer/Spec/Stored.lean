import Healer.Lib.Runs
import Healer.Lib.Table
import Healer.Spec.Gateway
import Healer.Spec.NginxManager
import Mathlib.Data.List.DropRight

/-! The rows that reach the Gateway Manager and everything that writes them: `create_application` and
`update_application` (`app/services/application_service.py`), `POST /servers`, and `update_row` of the
database editor (`app/services/db_admin_service.py`). -/

namespace Healer

open Nginx (DomainSpec UpstreamTarget ReloadRequest hostnameField pathField hostField)

structure DomainRow where
  applicationId : ℕ
  hostname : String
  certPath : Option String
  keyPath : Option String

/-- What the payload takes from a RUNNING instance. -/
structure Running where
  instanceId : InstanceId
  serverId : ServerId
  port : ℕ

/-- The columns that `_build_reload_payload` reads: `applications.slug`, the domains, `servers.hostname`. -/
structure Store where
  slugs : Table String
  domains : Table DomainRow
  servers : Table String

namespace Store

def empty : Store := ⟨Table.empty, Table.empty, Table.empty⟩

/-- A unique column: is `value` in another row than `but`? -/
def taken (t : Table String) (but : Option ℕ) (value : String) : Bool :=
  (t.select fun v => v == value).any fun k => some k != but

def domainTaken (s : Store) (but : Option ℕ) (hostname : String) : Bool :=
  (s.domains.select fun d => d.hostname == hostname).any fun k => some k != but

/-- The domains of an application, oldest first. -/
def domainsOf (s : Store) (a : ℕ) : List DomainConfig :=
  (s.domains.select fun d => d.applicationId == a).filterMap fun k =>
    (s.domains.row k).map fun d => ⟨d.hostname, d.certPath, d.keyPath⟩

/-- `_build_reload_payload` of application `a`, whose slug is given, for a set of RUNNING instances. -/
def payload (s : Store) (a : ℕ) (slug : String) (running : List Running) : ReloadPayload where
  appSlug := slug
  domains := (s.domainsOf a).filter fun d => truthy d.certPath && truthy d.keyPath
  upstreams := running.filterMap fun r => (s.servers.row r.serverId).map fun host => ⟨r.instanceId, host, r.port⟩

end Store

/-! ## The Gateway Manager's schema -/

def DomainConfig.validate (d : DomainConfig) : Option DomainSpec :=
  match d.certPath, d.keyPath with
  | some cert, some key =>
    if h : hostnameField d.hostname = true ∧ pathField cert = true ∧ pathField key = true then
      some ⟨d.hostname, cert, key, h.1, h.2.1, h.2.2⟩
    else none
  | _, _ => none

def Upstream.validate (u : Upstream) : Option UpstreamTarget :=
  if h : hostField u.host = true ∧ 1 ≤ u.port ∧ u.port ≤ 65535 then some ⟨u.host, u.port, h.1, h.2⟩ else none

/-- `ReloadRequest` as the framework makes it of the body; `none` is a 422. -/
def ReloadPayload.validate (p : ReloadPayload) : Option ReloadRequest := do
  let domains ← p.domains.mapM DomainConfig.validate
  let upstreams ← p.upstreams.mapM Upstream.validate
  if h : 1 ≤ p.appSlug.length ∧ p.appSlug.length ≤ 63 then pure ⟨p.appSlug, domains, upstreams, h⟩ else none

/-- The body is a `ReloadRequest`, and `_managed_path` has a file for it. -/
def ReloadPayload.accepted (p : ReloadPayload) : Bool :=
  (p.validate.bind fun r => Nginx.managedPath r.appSlug).isSome

/-! ## create_application and update_application -/

/-- `re.sub(r"[^a-z0-9]+", "-", text)`; `gap` says that the last letter was replaced. -/
def collapse : (gap : Bool) → List Char → List Char
  | _, [] => []
  | gap, c :: cs =>
    if slugLetters.contains c then c :: collapse false cs
    else if gap then collapse true cs
    else '-' :: collapse true cs

/-- `_slugify`; `lower` is `str.lower`. -/
def slugify (lower : String → String) (name : String) : String :=
  let slug := ((collapse false (lower name).toList).dropWhile (· == '-')).rdropWhile (· == '-')
  if slug.isEmpty then "app" else String.ofList slug

/-- The loop of `_unique_slug`. -/
def uniqueSlugLoop (used : String → Bool) (base : String) : (fuel : ℕ) → (slug : String) → (suffix : ℕ) → Option String
  | 0, _, _ => none
  | fuel + 1, slug, suffix =>
    if used slug then uniqueSlugLoop used base fuel (base ++ "-" ++ toString suffix) (suffix + 1) else some slug

/-- `_unique_slug`. There are fewer slugs than turns. -/
def Store.uniqueSlug (s : Store) (base : String) : Option String :=
  uniqueSlugLoop (Store.taken s.slugs none) base (s.slugs.next + 1) base 2

/-- The `domain` section of a healer.yaml (`DomainConfig` in `app/schemas/healer_yaml.py`). -/
structure DomainSection where
  hostname : String
  certPath : Option String
  keyPath : Option String
  hostname_ok : hostnameField hostname = true
  certPath_ok : ∀ v, certPath = some v → v.length ≤ 1000 ∧ patternMatches unixPathRe v = true ∧ hasTraversal v = false
  keyPath_ok : ∀ v, keyPath = some v → v.length ≤ 1000 ∧ patternMatches unixPathRe v = true ∧ hasTraversal v = false

/-- Why a write is undone. -/
inductive Refusal
  /-- `DBAdminError`. -/
  | dbAdmin (message : String)
  | notFound (detail : String)
  | conflict (detail : String)
  /-- The body does not pass the request's schema. -/
  | schema
  /-- A length, a null, a foreign key or a unique constraint of the database. -/
  | integrity

/-- A `String(255)` column. -/
def fitsColumn (value : String) : Bool := value.length ≤ 255

/-- `_sync_related_rows`, the domain. -/
def Store.syncDomain (s : Store) (a : ℕ) : Option DomainSection → Except Refusal Store
  | none => .ok s
  | some d =>
    match s.domains.first fun row => row.applicationId == a with
    | none =>
      if s.domainTaken none d.hostname then .error .integrity
      else .ok { s with domains := s.domains.insert ⟨a, d.hostname, d.certPath, d.keyPath⟩ }
    | some (k, _) =>
      if s.domainTaken (some k) d.hostname then .error .integrity
      else .ok { s with domains := s.domains.modify k fun row =>
        { row with hostname := d.hostname, certPath := d.certPath, keyPath := d.keyPath } }

def Store.createApplication (lower : String → String) (s : Store) (name : String) (domain : Option DomainSection) :
    Except Refusal Store :=
  match s.uniqueSlug (slugify lower name) with
  | some slug =>
    if fitsColumn slug then Store.syncDomain { s with slugs := s.slugs.insert slug } s.slugs.next domain
    else .error .integrity
  | none => .error .integrity

/-- The slug does not follow the name. -/
def Store.updateApplication (s : Store) (a : ℕ) (domain : Option DomainSection) : Except Refusal Store :=
  match s.slugs.row a with
  | none => .error (.notFound "application not found")
  | some _ => s.syncDomain a domain

/-! ## POST /servers -/

def Store.createServer (s : Store) (hostname : String) : Except Refusal Store :=
  if !(1 ≤ hostname.length && hostname.length ≤ 255) then .error .schema
  else if Store.taken s.servers none hostname then .error (.conflict "hostname already registered")
  else .ok { s with servers := s.servers.insert hostname }

/-! ## The database editor -/

/-- `_validate_hostname`. -/
def validateHostname (value : String) : Except String String :=
  if reMatch hostnameRe value then .ok value
  else .error "must be a valid DNS hostname (e.g. app.example.com)"

/-- `_validate_optional_unix_path`. -/
def validateOptionalUnixPath (value : String) : Except String String :=
  if value == "" then .ok value
  else if !reMatch unixPathRe value then
    .error "must be an absolute path using only letters, digits, '.', '_', '-', '/'"
  else if hasTraversal value then .error "must not contain '..' segments"
  else .ok value

/-- What an edit says about a column: nothing, `null`, or a text. -/
inductive Change
  | kept
  | null
  | text (value : String)

/-- The column after the edit, if the edit is allowed. -/
def Change.on (old : String) : Change → String
  | .text value => value
  | _ => old

/-- The same for a column that may be null: an empty text is null. -/
def Change.onOptional (old : Option String) : Change → Option String
  | .kept => old
  | .null => none
  | .text value => if value == "" then none else some value

/-- `update_row` on a column of kind `text`, which holds at most 255 characters. -/
def editText (key : String) (validator : String → Except String String) (old : String) :
    Change → Except Refusal String
  | .kept => .ok old
  | .null => .error .integrity
  | .text value =>
    match validator value with
    | .ok value => if fitsColumn value then .ok value else .error .integrity
    | .error message => .error (.dbAdmin (key ++ ": " ++ message))

/-- `update_row` on a column of kind `optional_text`. -/
def editOptionalText (key : String) (validator : String → Except String String) (old : Option String) :
    Change → Except Refusal (Option String)
  | .kept => .ok old
  | .null => .ok none
  | .text value =>
    if value == "" then .ok none
    else
      match validator value with
      | .ok value => .ok (some value)
      | .error message => .error (.dbAdmin (key ++ ": " ++ message))

/-- `applications.slug` has no validator. -/
def Store.editSlug (s : Store) (a : ℕ) (change : Change) : Except Refusal Store :=
  match s.slugs.row a with
  | none => .error (.dbAdmin ("no row in 'applications' with id='" ++ toString a ++ "'"))
  | some old => do
    let slug ← editText "slug" .ok old change
    if Store.taken s.slugs (some a) slug then .error .integrity
    else .ok { s with slugs := s.slugs.modify a fun _ => slug }

def Store.editServer (s : Store) (k : ℕ) (change : Change) : Except Refusal Store :=
  match s.servers.row k with
  | none => .error (.dbAdmin ("no row in 'servers' with id='" ++ toString k ++ "'"))
  | some old => do
    let hostname ← editText "hostname" validateHostname old change
    if Store.taken s.servers (some k) hostname then .error .integrity
    else .ok { s with servers := s.servers.modify k fun _ => hostname }

structure DomainEdit where
  applicationId : Option ℕ
  hostname : Change
  certPath : Change
  keyPath : Change

def Store.editDomain (s : Store) (k : ℕ) (e : DomainEdit) : Except Refusal Store :=
  match s.domains.row k with
  | none => .error (.dbAdmin ("no row in 'domains' with id='" ++ toString k ++ "'"))
  | some old => do
    let hostname ← editText "hostname" validateHostname old.hostname e.hostname
    let certPath ← editOptionalText "cert_path" validateOptionalUnixPath old.certPath e.certPath
    let keyPath ← editOptionalText "key_path" validateOptionalUnixPath old.keyPath e.keyPath
    let a := e.applicationId.getD old.applicationId
    if (s.slugs.row a).isNone then .error .integrity
    else if s.domainTaken (some k) hostname then .error .integrity
    else .ok { s with domains := s.domains.modify k fun _ => ⟨a, hostname, certPath, keyPath⟩ }

/-! ## Any number of writes -/

inductive Write
  | createApplication (name : String) (domain : Option DomainSection)
  | updateApplication (a : ℕ) (domain : Option DomainSection)
  | createServer (hostname : String)
  | editSlug (a : ℕ) (change : Change)
  | editServer (k : ℕ) (change : Change)
  | editDomain (k : ℕ) (e : DomainEdit)

def Write.run (lower : String → String) (s : Store) : Write → Except Refusal Store
  | .createApplication name domain => s.createApplication lower name domain
  | .updateApplication a domain => s.updateApplication a domain
  | .createServer hostname => s.createServer hostname
  | .editSlug a change => s.editSlug a change
  | .editServer k change => s.editServer k change
  | .editDomain k e => s.editDomain k e

/-- A refused write is rolled back. -/
def Store.write (lower : String → String) (s : Store) (w : Write) : Store :=
  match w.run lower s with
  | .ok s' => s'
  | .error _ => s

end Healer
