import Healer.Proofs.Cutover

/-! Which instances the gateway routes to while a release switch stops others. The
control plane undoes a switch whenever it is not told of a success, so it may stop
instances that the gateway has just started to route to. With faithful deliveries it
never does. -/

namespace Healer

open Sample

open Prog (Ends)

/-- A stop is submitted only for an instance the gateway does not route to. -/
def StopsUnrouted (e : Entry) : Prop :=
  ∀ agent key i payload, e.event = .submitted agent key (.stopInstance i payload) → i ∉ e.routed

/-- No stop so far has hit an instance that was routed to. -/
def World.Unhurt (w : World) : Prop := ∀ e ∈ w.trace, StopsUnrouted e

theorem News.unhurt {P : Entry → Prop} {a b : World} (h : News P a b) (hP : ∀ e, P e → StopsUnrouted e)
    (ha : a.Unhurt) : b.Unhurt := by
  intro e he
  obtain ⟨es, hes, hPs⟩ := h.entries
  rw [hes, List.mem_append] at he
  exact he.elim (ha e) fun he => hP e (hPs e he)

section Routing

variable {o : Oracle} {d : DeploymentId} {dep : Deployment} {s : ServerId} {c : HealerYaml}
  {new : List InstanceId} {w v u : World} {e : Entry} {i : InstanceId}

theorem not_stop_background (h : e.background) (agent : ServerId) (key : CommandKey) (i : InstanceId)
    (payload : StopPayload) : e.event ≠ .submitted agent key (.stopInstance i payload) := by
  obtain ⟨event, db, routed⟩ := e
  cases event <;> first | exact False.elim h | simp

theorem Entry.background.stopsUnrouted (h : e.background) : StopsUnrouted e :=
  fun agent key i payload he => (not_stop_background h agent key i payload he).elim

theorem Syncs.stopsUnrouted {ok : Bool} (h : Syncs ok e) : StopsUnrouted e := by
  intro agent key i payload he
  rcases h with h | ⟨p, h⟩ | h
  · exact (not_stop_background h _ _ _ _ he).elim
  · rw [h] at he; cases he
  · rw [h] at he; cases he

theorem Closes.stopsUnrouted {target : DeploymentStatus} (h : Closes d target e) :
    StopsUnrouted e := by
  intro agent key i payload he
  rcases h with h | h
  · exact (not_stop_background h _ _ _ _ he).elim
  · rw [h] at he; cases he

theorem Tame.stopsUnrouted (hflight : w.gateway.inFlight = [])
    (hknown : ∀ i ∈ w.gateway.routed, i < w.db.instances.next) (h : Tame w e) : StopsUnrouted e := by
  intro agent key i payload he hmem
  obtain ⟨hle, hrouted⟩ := h.stop agent key i payload he
  rw [hrouted hflight] at hmem
  exact absurd (hknown i hmem) (Nat.not_lt.2 hle)

variable {is : List InstanceId} {agent : ServerId}

theorem Halts.stopsUnrouted {key : InstanceId → CommandKey} {st : InstanceStatus}
    {ok : Bool} (hflight : w.gateway.inFlight = [])
    (hout : ∀ i ∈ is, i ∉ w.gateway.routed) (h : Halts o agent key st is w ok e) :
    StopsUnrouted e := by
  intro agent' key' i payload he
  cases h with
  | background h => exact (not_stop_background h _ _ _ _ he).elim
  | stop hi hr =>
    cases he
    rw [hr hflight]
    exact hout _ hi
  | _ => cases he

theorem Drains.stopsUnrouted {ok : Bool}
    (hflight : w.gateway.inFlight = []) (hout : ∀ i ∈ is, i ∉ w.gateway.routed)
    (h : Drains o agent is w ok e) : StopsUnrouted e := by
  rcases h with ⟨i, -, h | h⟩ | h
  · exact fun _ _ _ _ he => (not_stop_background h _ _ _ _ he).elim
  · intro agent key j payload he
    rw [h] at he
    cases he
  · exact h.stopsUnrouted hflight hout

theorem Finishes.stopsUnrouted
    (hflight : w.gateway.inFlight = []) (hout : ∀ i ∈ is, i ∉ w.gateway.routed)
    (h : Finishes o d agent is w e) : StopsUnrouted e := by
  rcases h with h | h | h
  · exact h.stopsUnrouted hflight hout
  · intro agent' key i payload he
    cases h with
    | background h => exact (not_stop_background h _ _ _ _ he).elim
    | _ => cases he
  · exact h.stopsUnrouted

/-- The instances a reload payload is built from. -/
theorem mem_reloadPayload {db : Db} {up : Upstream} (h : up ∈ db.reloadPayload.upstreams) :
    ∃ inst, db.instances.row up.instanceId = some inst ∧ inst.status = .running ∧
      ∀ r, db.application.activeReleaseId = some r → inst.releaseId = some r := by
  obtain ⟨j, hj, hjup⟩ := List.mem_filterMap.1 h
  obtain ⟨inst, hrow, hp⟩ := Table.mem_select.1 hj
  have hid : up.instanceId = j := by
    simp only [Db.upstream, hrow, Option.bind_eq_bind, Option.bind_some, Option.bind_eq_some_iff] at hjup
    obtain ⟨server, -, hup⟩ := hjup
    cases hup
    rfl
  simp only [Bool.and_eq_true, beq_iff_eq] at hp
  refine ⟨inst, by rw [hid, hrow], hp.1, fun r hr => ?_⟩
  have hrel := hp.2
  rw [hr] at hrel
  exact beq_iff_eq.1 hrel

end Routing

end Healer
