import Healer.Sanity.Opened

/-! A small application to evaluate the model on: one server with a connected agent, a
READY release, and a deployment that is to build the next one. -/

namespace Healer.Sample

def config (domain : Option DomainConfig) : HealerYaml where
  name := "shop"
  adapter := .windowsWaitressService
  serverId := some 0
  source := ⟨.folder, "src", none⟩
  windows := some ⟨"app.wsgi"⟩
  linux := none
  health := ⟨10, 5, 1, 1, by decide, by decide, by decide, by decide⟩
  ports := ⟨8000, 8009, by decide, by decide, by decide⟩
  replicas := ⟨1, 5, by decide, by decide⟩
  domain := domain
  replicas_fit := by decide
  windows_section _ := rfl
  linux_section h := by cases h

def shopDomain : DomainConfig := ⟨"shop.example", some "/ssl/shop.crt", some "/ssl/shop.key"⟩

def release (status : ReleaseStatus) (createdAt : Time) : Release :=
  ⟨"v", status, some "dir", some "python", none, createdAt⟩

def instanceOf (r : ReleaseId) (port : ℕ) (status : InstanceStatus) : Instance :=
  ⟨some r, 0, port, status, "shop", none, 0, none, none, 0⟩

def table {α : Type} (rows : List α) : Table α := rows.foldl Table.insert Table.empty

/-- The rows with release 0 active, release 1 to be switched to by deployment 0. -/
def db (domain : Option DomainConfig) (instances : List Instance) (n : ℕ) : Db where
  application :=
    { name := "shop", slug := "shop", serverId := some 0, config := some (config domain)
      portRangeStart := some 8000, portRangeEnd := some 8009, minReplicas := 1, maxReplicas := 5
      desiredReplicas := n, operationLock := some "deploy", operationLockAcquiredAt := some 0
      activeReleaseId := some 0, releaseRetentionCount := 5 }
  source := some ⟨.folder, "src", none⟩
  domains := domain.toList
  healthCheck := some ⟨10, 5, 1, 1, none, 3, 30⟩
  results := []
  servers s := if s = 0 then some ⟨"host", some .connected⟩ else none
  releases := table [release .ready 0, release .pending 1]
  instances := table instances
  deployments := table [⟨1, .inProgress, n, .blueGreen, none⟩]
  steps := []
  logs := []
  notifications := []
  audits := []

def world (domain : Option DomainConfig) (instances : List Instance) (n : ℕ) : World :=
  ⟨db domain instances n, ⟨none, []⟩, [], 0, 0, 0, []⟩

/-- Deployment 0 scales the active release to `target` replicas. -/
def scaling (instances : List Instance) (target : ℕ) : World :=
  (world none instances target).setDb { db none instances target with
    deployments := table [⟨0, .inProgress, target, .deploy, none⟩] }

/-- An application that has just been created. -/
def created : World :=
  (world none [] 1).setDb { db none [] 1 with
    application := { (db none [] 1).application with
      operationLock := none, operationLockAcquiredAt := none, activeReleaseId := none }
    releases := Table.empty
    deployments := Table.empty }

/-- The same with a second server, which the config does not name yet. -/
def createdBeside : World :=
  created.setDb { created.db with
    servers := fun s =>
      if s = 0 then some ⟨"host", some .connected⟩
      else if s = 1 then some ⟨"spare", some .connected⟩ else none }

def onSpare : HealerYaml := { config none with serverId := some 1 }

def onDocker : HealerYaml :=
  { config none with
    adapter := .linuxDocker
    source := ⟨.dockerfile, "src", none⟩
    linux := some ⟨80⟩
    windows_section := fun h => by cases h
    linux_section := fun _ => rfl }

def okRow : AgentCommand := ⟨.succeeded, none, some ⟨true, [], none, none, none⟩⟩

def failedRow : AgentCommand := ⟨.failed, none, some ⟨false, [], none, none, none⟩⟩

/-- Every command succeeds, every probe answers 200, every sync is accepted. -/
def allWell : Oracle where
  reply _ := .row okRow
  probe _ _ := .ok (some 200)
  poll _ _ := .ok (some 200)
  foreignPort _ _ _ := false
  foreignImage _ := false
  delivery _ := .answered true ""
  during _ := []
  elapsed _ := 0

/-- As `oracle`, with time passing at every suspension. -/
def slowly (oracle : Oracle) : Oracle := { oracle with elapsed := fun _ => 1 }

/-- The second of two new instances does not start. -/
def secondStartFails : Oracle := { allWell with reply := fun
  | .startInstance 2 => .row failedRow
  | _ => .row okRow }

/-- No new instance answers its probes. -/
def neverHealthy : Oracle := { allWell with probe := fun _ _ => .ok none }

/-- The Gateway Manager answers that it kept the old configuration. -/
def refusing : Oracle := { allWell with delivery := fun _ => .answered false "nginx -t failed" }

def gateFailed : Event → Bool
  | .healthGate _ healthy => !healthy
  | _ => false

def refused : Event → Bool
  | .synced ok => !ok
  | _ => false

def started (i : InstanceId) : Event → Bool
  | .answered (.startInstance j) row => j == i && row.ok
  | _ => false

def stops (i : InstanceId) : Event → Bool
  | .submitted _ _ (.stopInstance j _) => j == i
  | _ => false

theorem table_row_mem {α : Type} (rows : List α) :
    ∀ i a, (table rows).row i = some a → a ∈ rows := by
  induction rows using List.reverseRecOn with
  | nil => intro i a h; cases h
  | append_singleton rows b ih =>
    intro i a h
    rw [table, List.foldl_append] at h
    change ((table rows).insert b).row i = some a at h
    by_cases hi : i = (table rows).next
    · rw [hi, Table.insert_row_self] at h
      cases h
      simp
    · rw [Table.insert_row_of_ne _ _ hi] at h
      exact List.mem_append_left _ (ih i a h)

def deployment (n : ℕ) : Deployment := ⟨1, .inProgress, n, .blueGreen, none⟩

/-- The sample is as `start_new_release` leaves it. -/
theorem opened (domain : Option DomainConfig) (instances : List Instance) (n : ℕ)
    (h : ∀ inst ∈ instances, inst.deploymentId ≠ some 0) :
    Opened 0 (deployment n) (world domain instances n) :=
  ⟨rfl, rfl, ⟨release .pending 1, rfl, fun hk => absurd rfl hk⟩, by
    simp [world, db, deployment], fun i inst hrow => h inst (table_row_mem _ i inst hrow)⟩

end Healer.Sample
