import Mathlib.Data.List.Sort
import Mathlib.Tactic

/-! The table browser: `list_rows` and `get_row` of `app/services/db_admin_service.py`, over the tables of
`Base.metadata`, with the redaction of `app/domain/db_admin_registry.py` and `app/schemas/commands.py`. Rows are
filtered, sorted and counted by PostgreSQL, and redacted afterwards. -/

namespace Healer.DbAdmin

inductive Json
  | null
  | bool (b : Bool)
  | num (text : String)
  | str (s : String)
  | arr (items : List Json)
  | obj (fields : List (String × Json))

/-- A value as `_row_to_dict` returns it; all but JSON is given by its text. -/
inductive Value
  | scalar (s : String)
  | json (j : Json)

/-- The values of a row by column; `none` is NULL. -/
abbrev Row := String → Option Value

/-! ## The schema -/

structure TableSchema where
  name : String
  columns : List String
  primaryKey : List String

/-- A model with `UUIDPrimaryKeyMixin`. -/
def keyed (name : String) (columns : List String) : TableSchema := ⟨name, "id" :: columns, ["id"]⟩

/-- A model with `UUIDPrimaryKeyMixin` and `TimestampMixin`. -/
def stamped (name : String) (columns : List String) : TableSchema :=
  keyed name (columns ++ ["created_at", "updated_at"])

/-- `Base.metadata.tables`. -/
def tables : List TableSchema :=
  [stamped "agents" ["server_id", "agent_version", "status", "last_seen_at", "credential_hash", "capabilities"],
    stamped "agent_connections" ["agent_id", "connected_at", "disconnected_at", "remote_addr"],
    stamped "agent_commands" ["agent_id", "command_type", "payload", "idempotency_key", "status", "correlation_id",
      "expires_at", "result", "error"],
    keyed "agent_command_events" ["command_id", "status", "detail", "occurred_at", "created_at"],
    stamped "agent_events" ["agent_id", "event_type", "payload", "occurred_at"],
    stamped "applications" ["name", "slug", "adapter_type", "server_id", "config", "port_range_start",
      "port_range_end", "min_replicas", "max_replicas", "desired_replicas", "operation_lock",
      "operation_lock_acquired_at", "active_release_id", "release_retention_count"],
    stamped "sources" ["application_id", "source_type", "location", "ref"],
    stamped "configurations" ["application_id", "key", "value"],
    stamped "releases" ["application_id", "source_id", "ref", "status", "release_dir", "venv_python", "image_ref"],
    stamped "instances" ["application_id", "release_id", "server_id", "port", "status", "service_name",
      "deployment_id", "healing_attempts", "last_healing_attempt_at", "failure_reason"],
    keyed "audit_logs" ["actor_id", "action", "target_type", "target_id", "detail", "occurred_at"],
    stamped "deployments" ["application_id", "release_id", "status", "instance_count", "zero_downtime", "kind",
      "failure_reason", "created_by"],
    stamped "deployment_steps" ["deployment_id", "name", "status", "started_at", "finished_at"],
    keyed "deployment_logs" ["deployment_id", "step_id", "level", "message", "created_at"],
    stamped "domains" ["application_id", "hostname", "cert_path", "key_path"],
    stamped "upstream_groups" ["application_id", "domain_id", "name"],
    keyed "upstream_instances" ["upstream_group_id", "instance_id", "weight"],
    stamped "health_checks" ["application_id", "check_type", "path", "interval_seconds", "timeout_seconds",
      "healthy_threshold", "unhealthy_threshold", "expected_status", "max_restart_attempts",
      "restart_cooldown_seconds"],
    keyed "health_check_results" ["health_check_id", "instance_id", "healthy", "detail", "consecutive_failures",
      "response_time_ms", "checked_at"],
    keyed "metrics_snapshots" ["server_id", "cpu_percent", "memory_percent", "disk_percent", "recorded_at"],
    keyed "notifications" ["user_id", "notification_type", "message", "read_at", "created_at"],
    stamped "secret_records" ["application_id", "key", "encrypted_value"],
    stamped "servers" ["name", "hostname", "os", "status"],
    stamped "enrollment_tokens" ["server_id", "token_hash", "expires_at", "used_at", "revoked_at"],
    stamped "users" ["email", "password_hash", "is_active"],
    stamped "roles" ["name"],
    ⟨"user_roles", ["user_id", "role_id", "created_at"], ["user_id", "role_id"]⟩,
    stamped "refresh_sessions" ["user_id", "token_hash", "expires_at", "revoked_at"]]

def globalSensitiveColumns : List String := ["password_hash", "credential_hash", "token_hash", "encrypted_value"]

/-- `JSON_REDACT_COLUMNS` -/
def jsonRedactColumns (table : String) : List String :=
  if table = "agent_commands" then ["payload", "result"] else []

/-! ## Redaction -/

/-- An `env` dict with its values masked; `redacted` is what becomes of any other value. -/
def maskEnv (key : String) (value redacted : Json) : Json :=
  if key = "env" then
    match value with
    | .obj inner => .obj (inner.map fun f => (f.1, .str "[REDACTED]"))
    | _ => redacted
  else redacted

mutual

/-- `_redact` -/
def redact : Json → Json
  | .obj fields => .obj (redactFields fields)
  | .arr items => .arr (redactItems items)
  | .null => .null
  | .bool b => .bool b
  | .num text => .num text
  | .str s => .str s

def redactFields : List (String × Json) → List (String × Json)
  | [] => []
  | (key, value) :: fields => (key, maskEnv key value (redact value)) :: redactFields fields

def redactItems : List Json → List Json
  | [] => []
  | item :: items => redact item :: redactItems items

end

def Value.redact : Value → Value
  | .scalar s => .scalar s
  | .json j => .json (DbAdmin.redact j)

def redactColumn (table column : String) (value : Option Value) : Option Value :=
  if column ∈ globalSensitiveColumns then value.map fun _ => .scalar "[REDACTED]"
  else if column ∈ jsonRedactColumns table then value.map Value.redact
  else value

/-- `_redact_row` of `_row_to_dict`. -/
def redactRow (table : TableSchema) (row : Row) : List (String × Option Value) :=
  table.columns.map fun c => (c, redactColumn table.name c (row c))

/-! ## Queries -/

/-- What the service leaves to PostgreSQL and `str`. -/
structure Env where
  strip : String → String
  repr : String → String
  /-- The case mapping of `ILIKE`. -/
  fold : Char → Char
  /-- `CAST(column AS TEXT)` -/
  castText : String → String → Value → String
  /-- The order of a column's type. -/
  le : String → String → Value → Value → Bool
  le_refl : ∀ table column v, le table column v v = true
  /-- The primary key equals the parameter. -/
  keyIs : Value → String → Bool

def replaceChar (c : Char) (by_ : List Char) (s : List Char) : List Char :=
  s.flatMap fun d => if d = c then by_ else [d]

/-- `_escape_like` -/
def escapeLike (term : List Char) : List Char :=
  replaceChar '_' ['\\', '_'] (replaceChar '%' ['\\', '%'] (replaceChar '\\' ['\\', '\\'] term))

/-- `text ILIKE pattern ESCAPE '\'` -/
def ilike (fold : Char → Char) : List Char → List Char → Bool
  | [], text => text.isEmpty
  | '%' :: pattern, text => text.tails.any (ilike fold pattern)
  | '_' :: pattern, text =>
    match text with
    | [] => false
    | _ :: text => ilike fold pattern text
  | '\\' :: c :: pattern, text =>
    match text with
    | [] => false
    | d :: text => fold c == fold d && ilike fold pattern text
  | c :: pattern, text =>
    match text with
    | [] => false
    | d :: text => fold c == fold d && ilike fold pattern text

structure Query where
  search : Option String
  sortBy : Option String
  sortDir : String

variable (env : Env)

/-- `_search_condition`: a NULL column does not match. -/
def searchCondition (table : TableSchema) (search : String) (row : Row) : Bool :=
  table.columns.any fun c => c ∉ globalSensitiveColumns && (row c).any fun v =>
    ilike env.fold (['%'] ++ escapeLike search.toList ++ ['%']) (env.castText table.name c v).toList

/-- The rows that the `WHERE` clause selects. -/
def selects (table : TableSchema) (q : Query) (row : Row) : Bool :=
  let search := env.strip (q.search.getD "")
  search == "" || searchCondition env table search row

/-- The column of the `ORDER BY` clause, and whether it is descending. -/
def orderColumn (table : TableSchema) (q : Query) : Option (String × Bool) :=
  match (q.sortBy.filter (· != "")).bind fun c => table.columns.find? (· == c) with
  | some c => some (c, q.sortDir == "desc")
  | none =>
    if "created_at" ∈ table.columns then some ("created_at", true) else table.primaryKey.head?.map (·, true)

/-- Ascending order, in which NULL comes last. -/
def nullsLast (le : Value → Value → Bool) : Option Value → Option Value → Bool
  | _, none => true
  | none, some _ => false
  | some v, some w => le v w

/-- `a` may stand before `b`. -/
def before (table : TableSchema) (order : Option (String × Bool)) (a b : Row) : Bool :=
  match order with
  | none => true
  | some (c, true) => nullsLast (env.le table.name c) (b c) (a c)
  | some (c, false) => nullsLast (env.le table.name c) (a c) (b c)

/-- `get_table` -/
def getTable (tableName : String) : Except String TableSchema :=
  match tables.find? (·.name == tableName) with
  | none =>
    let name := env.repr tableName
    .error s!"unknown table {name}"
  | some table => .ok table

/-- The rows of every table, in the order in which ties are broken. -/
abbrev Db := String → List Row

def clamp (limit : ℤ) : ℕ := (max 1 (min (if limit = 0 then 50 else limit) 200)).toNat

/-- The rows of a query before `LIMIT` and `OFFSET`. -/
def queried (table : TableSchema) (q : Query) (rows : List Row) : List Row :=
  (rows.filter (selects env table q)).insertionSort fun a b => before env table (orderColumn table q) a b = true

def listRows (db : Db) (tableName : String) (limit offset : ℤ) (q : Query) :
    Except String (List (List (String × Option Value)) × ℕ) := do
  let table ← getTable env tableName
  let page := ((queried env table q (db tableName)).drop offset.toNat).take (clamp limit)
  return (page.map (redactRow table), ((db tableName).filter (selects env table q)).length)

/-- `get_row` once its table is known. -/
def fetchRow (table : TableSchema) (rows : List Row) (tableName rowId : String) :
    Except String (List (String × Option Value)) :=
  match table.primaryKey with
  | [pk] =>
    match rows.find? fun row => (row pk).any (env.keyIs · rowId) with
    | none =>
      let name := env.repr tableName
      let id := env.repr rowId
      .error s!"no row in {name} with {pk}={id}"
    | some row => .ok (redactRow table row)
  | _ =>
    let name := env.repr tableName
    .error s!"{name} has a composite primary key and can't be fetched/edited/deleted by id"

def getRow (db : Db) (tableName rowId : String) : Except String (List (String × Option Value)) := do
  let table ← getTable env tableName
  fetchRow env table (db tableName) tableName rowId

end Healer.DbAdmin
