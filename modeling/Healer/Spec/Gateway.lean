import Healer.Spec.World

/-! `gateway_service`: the payload is built from the rows at the time of the sync,
and the outcome is whatever the Gateway Manager's reply says, or a failure when no
reply arrives in time. -/

namespace Healer

/-- The instances `_build_reload_payload` selects: RUNNING, and of the active release
once there is one. -/
def Db.routable (db : Db) : List InstanceId :=
  db.instances.select fun i =>
    i.status == .running &&
      match db.application.activeReleaseId with
      | none => true
      | some r => i.releaseId == some r

def Db.upstream (db : Db) (i : InstanceId) : Option Upstream := do
  let inst ← db.instances.row i
  let server ← db.servers inst.serverId
  pure ⟨i, server.hostname, inst.port⟩

/-- `_build_reload_payload`. -/
def Db.reloadPayload (db : Db) : ReloadPayload where
  appSlug := db.application.slug
  domains := db.domains.filter fun d => truthy d.certPath && truthy d.keyPath
  upstreams := db.routable.filterMap db.upstream

/-- `GatewaySyncResult.message`: the source takes a 422's `detail` for a text, but it is a list. -/
inductive SyncMessage
  | text (message : String)
  | list (str : String)

/-- What an f-string makes of it. -/
def SyncMessage.str : SyncMessage → String
  | .text message => message
  | .list str => str

structure GatewaySyncResult where
  ok : Bool
  message : SyncMessage

/-- What the caller of `sync_gateway` is told. -/
def Delivery.result : Delivery → GatewaySyncResult
  | .answered ok message => ⟨ok, .text message⟩
  | .unprocessable detail => ⟨false, .list detail⟩
  | .timedOut error _ => ⟨false, .text s!"could not reach the Gateway Manager: {error}"⟩

/-- What the Gateway Manager does with the request: apply it now, keep it for later,
or never act on it. -/
def Gateway.receive (g : Gateway) (p : ReloadPayload) : Delivery → Gateway
  | .answered true _ => g.apply p
  | .answered false _ | .unprocessable _ => g
  | .timedOut _ none => g
  | .timedOut _ (some 0) => g.apply p
  | .timedOut _ (some (n + 1)) => { g with inFlight := g.inFlight ++ [(n, p)] }

/-- `gateway_service.sync_gateway`, without its audit row. -/
def syncGateway (o : Oracle) : M GatewaySyncResult := do
  let payload ← Prog.read fun w => w.db.reloadPayload
  let delivery ← Prog.read fun w => o.delivery w.syncs
  emit (.sync payload)
  Prog.update fun w =>
    { w with gateway := w.gateway.receive payload delivery, syncs := w.syncs + 1 }
  suspend o
  emit (.synced delivery.result.ok)
  commit
  pure delivery.result

end Healer
