import Healer.Spec.Rows

/-! `application_service.update_application`: the only writer of an application's
configuration. It takes no lock, so it may run between any two steps of a deploy,
scale or release. -/

namespace Healer

/-- `_sync_related_rows` for the health check: a new row takes the column defaults. -/
def HealthCheck.sync (hc : Option HealthCheck) (c : HealthConfig) : HealthCheck :=
  { intervalSeconds := c.intervalSeconds
    timeoutSeconds := c.timeoutSeconds
    healthyThreshold := c.healthyThreshold
    unhealthyThreshold := c.unhealthyThreshold
    expectedStatus := hc.bind HealthCheck.expectedStatus
    maxRestartAttempts := (hc.map HealthCheck.maxRestartAttempts).getD 3
    restartCooldownSeconds := (hc.map HealthCheck.restartCooldownSeconds).getD 30 }

/-- `_sync_related_rows` for the domain: the first row is overwritten, and a config
without a domain leaves the rows alone. -/
def syncDomains (domains : List DomainConfig) : Option DomainConfig → List DomainConfig
  | none => domains
  | some d => d :: domains.tail

def Db.syncRelatedRows (db : Db) (c : HealerYaml) : Db :=
  { db with
    source := some c.source
    healthCheck := some (HealthCheck.sync db.healthCheck c.health)
    domains := syncDomains db.domains c.domain }

def Application.update (a : Application) (c : HealerYaml) : Application :=
  { a with
    name := c.name
    serverId := c.serverId
    config := some c
    portRangeStart := some c.ports.start
    portRangeEnd := some c.ports.stop
    minReplicas := c.replicas.min
    maxReplicas := c.replicas.max
    desiredReplicas := min (max a.desiredReplicas c.replicas.min) c.replicas.max }

def Db.updateApplication (db : Db) (c : HealerYaml) : Db :=
  { db with application := db.application.update c }.syncRelatedRows c

end Healer
