import Healer.Spec.Application
import Healer.Spec.Stored

/-! `application_service`: the configuration of every application, and the Source, HealthCheck and Domain
rows that `_sync_related_rows` makes of it. The application's other columns and the slug are in
`Spec/Application` and `Spec/Stored`. -/

namespace Healer

/-- The validators of `DomainConfig`. -/
structure DomainConfig.Valid (d : DomainConfig) : Prop where
  hostname_ok : Nginx.hostnameField d.hostname = true
  certPath_ok : ∀ v, d.certPath = some v → v.length ≤ 1000 ∧ patternMatches unixPathRe v = true ∧ hasTraversal v = false
  keyPath_ok : ∀ v, d.keyPath = some v → v.length ≤ 1000 ∧ patternMatches unixPathRe v = true ∧ hasTraversal v = false

def DomainConfig.toSection (d : DomainConfig) (h : d.Valid) : DomainSection :=
  ⟨d.hostname, d.certPath, d.keyPath, h.hostname_ok, h.certPath_ok, h.keyPath_ok⟩

/-- A `HealerYamlV1` with `health.path`, and with the validators of what the related rows take from it. -/
structure Descriptor extends HealerYaml where
  healthPath : String
  name_ok : 1 ≤ name.length ∧ name.length ≤ 255
  location_ok : 1 ≤ source.location.length ∧ source.location.length ≤ 2000
  ref_ok : ∀ r, source.ref = some r → r.length ≤ 255
  healthPath_ok : (1 ≤ healthPath.length ∧ healthPath.length ≤ 500) ∧ healthPath.toList.head? = some '/'
  domain_ok : ∀ d, domain = some d → d.Valid
  windows_source : adapter = .windowsWaitressService → source.type = .folder ∨ source.type = .git
  linux_source : adapter = .linuxDocker → source.type = .dockerfile ∨ source.type = .image ∧ truthy source.ref = false

def Descriptor.domainSection (c : Descriptor) : Option DomainSection :=
  c.domain.pmap DomainConfig.toSection c.domain_ok

structure SourceRow where
  applicationId : ℕ
  source : SourceConfig

inductive HealthCheckType
  | http | tcp
  deriving DecidableEq

/-- What a HealthCheck row says; `settings` are the columns other than `check_type` and `path`. -/
structure Probe where
  checkType : HealthCheckType
  path : Option String
  settings : HealthCheck

structure HealthCheckRow where
  applicationId : ℕ
  probe : Probe

/-- The defaults of the columns. -/
def HealthCheck.fresh : HealthCheck := ⟨10, 5, 2, 3, none, 3, 30⟩

/-- The columns that `_sync_related_rows` writes into a HealthCheck. -/
def Probe.sync (p : Probe) (c : Descriptor) : Probe :=
  { p with path := some c.healthPath, settings := HealthCheck.sync (some p.settings) c.health }

structure Related where
  store : Store
  /-- `applications.config`. -/
  configs : ℕ → Option Descriptor
  sources : Table SourceRow
  healthChecks : Table HealthCheckRow

namespace Related

def empty : Related := ⟨Store.empty, fun _ => none, Table.empty, Table.empty⟩

/-- `_sync_related_rows`, the Source: all its columns are written. -/
def syncSource (t : Table SourceRow) (a : ℕ) (c : Descriptor) : Table SourceRow :=
  t.upsert (fun row => row.applicationId == a) ⟨a, c.source⟩ fun row => { row with source := c.source }

/-- `_sync_related_rows`, the HealthCheck. -/
def syncHealthCheck (t : Table HealthCheckRow) (a : ℕ) (c : Descriptor) : Table HealthCheckRow :=
  t.upsert (fun row => row.applicationId == a) ⟨a, .http, none, HealthCheck.fresh⟩ fun row =>
    { row with probe := row.probe.sync c }

/-- The rest of a write of `c`, once the slug and the Domain are in `store`. `health_checks.path` is a
`String(255)`; the schema lets a longer path pass. -/
def put (r : Related) (store : Store) (a : ℕ) (c : Descriptor) : Except Refusal Related :=
  if fitsColumn c.healthPath then
    .ok { store := store
          configs := Function.update r.configs a (some c)
          sources := syncSource r.sources a c
          healthChecks := syncHealthCheck r.healthChecks a c }
  else .error .integrity

def createApplication (lower : String → String) (r : Related) (c : Descriptor) : Except Refusal Related := do
  let store ← r.store.createApplication lower c.name c.domainSection
  r.put store r.store.slugs.next c

def updateApplication (r : Related) (a : ℕ) (c : Descriptor) : Except Refusal Related := do
  let store ← r.store.updateApplication a c.domainSection
  r.put store a c

end Related

/-! ## Any number of writes -/

inductive AppWrite
  | create (c : Descriptor)
  | update (a : ℕ) (c : Descriptor)

def AppWrite.config : AppWrite → Descriptor
  | .create c => c
  | .update _ c => c

/-- The application that is given the configuration. -/
def AppWrite.application (r : Related) : AppWrite → ℕ
  | .create _ => r.store.slugs.next
  | .update a _ => a

def AppWrite.run (lower : String → String) (r : Related) : AppWrite → Except Refusal Related
  | .create c => r.createApplication lower c
  | .update a c => r.updateApplication a c

/-- The database, and the configurations each application was given, oldest first: that of
`create_application`, then those of the accepted updates. -/
structure Register where
  db : Related
  given : ℕ → List Descriptor

namespace Register

def empty : Register := ⟨Related.empty, fun _ => []⟩

/-- A refused write is rolled back. -/
def write (lower : String → String) (g : Register) (w : AppWrite) : Register :=
  match w.run lower g.db with
  | .error _ => g
  | .ok db =>
    let a := w.application g.db
    ⟨db, Function.update g.given a (g.given a ++ [w.config])⟩

def after (lower : String → String) (ws : List AppWrite) : Register := Runs.run (write lower) empty ws

end Register

/-! ## The rows of one application -/

/-- The rows of one application without their keys, oldest first. The Domains are those that
`_build_reload_payload` selects. -/
structure Rows where
  sources : List SourceConfig
  probes : List Probe
  domains : List DomainConfig

def Related.rowsOf (r : Related) (a : ℕ) : Rows where
  sources := (r.sources.rows fun row => row.applicationId == a).map SourceRow.source
  probes := (r.healthChecks.rows fun row => row.applicationId == a).map HealthCheckRow.probe
  domains := r.store.domainsOf a

end Healer
