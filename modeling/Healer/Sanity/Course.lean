import Healer.Sanity.Quiet
import Healer.Sanity.Replica

/-! The course an operation takes, said once for every property of it. Below are the steps operations
are made of, each with what the code knows when it takes it; a property that survives the steps
survives the operations. What an operation has learnt is carried along as facts that last, and as one
brief fact that the next step uses up. -/

namespace Healer

open Prog

/-- The two commands an agent gets for an instance. -/
inductive Errand
  | start
  | stop
  deriving DecidableEq

/-- The status that a confirmed errand leads to. -/
def Errand.status : Errand → InstanceStatus
  | .start => .running
  | .stop => .stopped

def Command.errand : Command → Option (Errand × InstanceId)
  | .startInstance i _ => some (.start, i)
  | .stopInstance i _ => some (.stop, i)
  | _ => none

/-- What an operation may rely on once it knows it. -/
inductive Fact
  | owned (i : InstanceId)
  | on (i : InstanceId) (s : ServerId)
  | known (r : ReleaseId)
  /-- Every instance of the release is owned. -/
  | lodged (r : ReleaseId)

/-- What an operation may rely on until its next step with the instance. -/
inductive Brief
  | nothing
  /-- The row is PENDING. -/
  | fresh (i : InstanceId)
  /-- The rows of the release are PENDING. -/
  | pending (r : ReleaseId)
  /-- The agent has confirmed the last command. -/
  | confirmed (k : Errand) (i : InstanceId)

/-- What the outcome of a command is worth. -/
def Brief.after (k : Errand) (i : InstanceId) (ok : Bool) : Brief :=
  if ok then .confirmed k i else .nothing

/-- What an operation takes from the rows of the application and of the servers. -/
structure Reading where
  server : ServerId → Prop
  config : HealerYaml → Prop
  host : ServerId → String → Prop

/-- The statuses that are set without an agent's word, on an instance that is in use. -/
def InstanceStatus.plain : InstanceStatus → Bool
  | .starting | .running | .stopped => false
  | _ => true

structure Course (o : Oracle) (K : Reading) (G : List Fact → Brief → World → Prop) : Prop where
  quiet : ∀ {F B}, Quiet (G F B)
  mono : ∀ {F F' B w}, G F B w → F' ⊆ F → G F' B w
  forget : ∀ {F B w}, G F B w → G F .nothing w
  server : ∀ {F B w s}, G F B w → w.db.application.serverId = some s → K.server s
  config : ∀ {F B w c}, G F B w → w.db.application.config = some c → K.config c
  host : ∀ {F B w s name}, G F B w → (w.db.servers s).map Server.hostname = some name → K.host s name
  target : ∀ {c s}, K.config c → c.serverId = some s → K.server s
  seen : ∀ {F B w i inst}, G F B w → w.db.instances.row i = some inst → G (.on i inst.serverId :: F) B w
  found : ∀ {F B w r rel}, G F B w → w.db.releases.row r = some rel → G (.known r :: F) B w
  home : ∀ {F B w i s}, G F B w → .owned i ∈ F → .on i s ∈ F → K.server s
  reread : ∀ {F B w i s s' name}, G F B w → .on i s ∈ F → .on i s' ∈ F → K.host s name → K.host s' name
  onSuspend : ∀ {F B w}, G F B w → G F B (w.suspend o)
  onDeliver : ∀ {F B w} g n, G F B w → G F B { w with gateway := g, syncs := n }
  onProbe : ∀ {F B w i s host} port healthy, G F B w → .owned i ∈ F → K.server s → K.host s host →
    G F B (w.emit (.probe i host port healthy))
  /-- A command that is for no instance. -/
  onAsk : ∀ {F B} agent key command, command.errand = none → (∀ k i, B ≠ .confirmed k i) →
    Keeps (G F B) (submitCommandAndWait o agent key command)
  onStart : ∀ {F w i agent c} key r, G F .nothing w → .owned i ∈ F → K.server agent → K.config c →
    Ends (submitStart o agent key r i c w) (fun row => G F (.after .start i row.ok)) (fun _ => G F .nothing)
  onStop : ∀ {F w i agent c} key, G F .nothing w → .owned i ∈ F → K.server agent → K.config c →
    Ends (submitStop o agent key i c w) (fun row => G F (.after .stop i row.ok)) (fun _ => G F .nothing)
  /-- Only an instance in use can be moved so. -/
  move : ∀ {F w i target}, target.plain = true → G F .nothing w →
    Ends (transition i target w) (fun _ => G (.owned i :: F) .nothing) (fun _ => G F .nothing)
  begin : ∀ {F w i}, G F (.fresh i) w → .owned i ∈ F →
    Ends (transition i .starting w) (fun _ => G F .nothing) (fun _ => G F .nothing)
  confirm : ∀ {F w k i}, G F (.confirmed k i) w → .owned i ∈ F →
    Ends (transition i k.status w) (fun _ => G F .nothing) (fun _ => G F .nothing)
  allocate : ∀ {F w r s} lo hi, G F .nothing w → K.server s → .known r ∈ F →
    Ends (allocateInstance o r s lo hi w) (fun i => G (.owned i :: F) (.fresh i)) (fun _ => G F .nothing)
  /-- The first instance of a release. -/
  allocateFirst : ∀ {F w r s} lo hi, G F (.pending r) w → K.server s → .known r ∈ F →
    Ends (allocateInstance o r s lo hi w) (fun i => G (.owned i :: F) (.pending r)) (fun _ => G F .nothing)
  pick : ∀ {F w r i inst}, G F (.pending r) w → .lodged r ∈ F → w.db.instances.row i = some inst →
    inst.releaseId = some r → G (.owned i :: F) (.fresh i) w
  onTickBegin : ∀ {F w}, G F .nothing w → G F .nothing w.tickBegin
  onPoll : ∀ {F w i host rest}, G F .nothing w → w.monitor = (i, host) :: rest →
    G F .nothing (({ w with monitor := rest } : World).poll o i host).2
  onDrop : ∀ {F w}, G F .nothing w → G F .nothing { w with monitor := [] }
  onUpdate : ∀ {F w c}, K.config c → G F .nothing w → G F .nothing ((Background.update c).run o w)

/-- The writes to the releases and to which of them is active. -/
structure Shelving (G : List Fact → Brief → World → Prop) : Prop where
  onRelease : ∀ F B r f, Keeps (G F B) (modifyRelease r f)
  onActive : ∀ F r, Keeps (G F .nothing) (setActive r)
  onInsert : ∀ {F w}, G F .nothing w →
    G (.lodged w.db.releases.next :: .known w.db.releases.next :: F) (.pending w.db.releases.next)
      (w.setDb { w.db with releases := w.db.releases.insert (newRelease w.clock) })

/-- Every run of `m` uses the brief fact up, if it uses it at all. -/
def Leaves (G : List Fact → Brief → World → Prop) (F : List Fact) (B : Brief) {α : Type} (m : M α) : Prop :=
  ∀ w, G F B w → G F .nothing (m w).2

/-- Every run of `m` goes on, and one that returns has learnt `f`. -/
def Gains (G : List Fact → Brief → World → Prop) (F : List Fact) (f : Fact) (m : M Unit) : Prop :=
  ∀ w, G F .nothing w → Ends (m w) (fun _ => G (f :: F) .nothing) (fun _ => G F .nothing)

namespace Course

variable {o : Oracle} {K : Reading} {G : List Fact → Brief → World → Prop} {F F' : List Fact} {B : Brief}
  {f : Fact} {w : World} {i : InstanceId} {s agent : ServerId} {c : HealerYaml} {r : ReleaseId}
  {d : DeploymentId} {α β : Type} (hC : Course o K G)

include hC

/-! ## Rules -/

theorem drop (h : G (f :: F) B w) : G F .nothing w :=
  hC.mono (hC.forget h) (List.subset_cons_self f F)

theorem tail (h : G (f :: F) B w) : G F B w := hC.mono h (List.subset_cons_self f F)

variable {m : M α}

/-- A program that keeps more facts than its caller needs. -/
theorem ends (h : G F' B w) (hm : Keeps (G F' B) m) (hF : F ⊆ F') :
    Ends (m w) (fun _ => G F B) (fun _ => G F B) :=
  (hm.ends h).mono (fun _ _ h' => hC.mono h' hF) (fun _ _ h' => hC.mono h' hF)

theorem leaves_of_keeps (h : Keeps (G F .nothing) m) : Leaves G F B m :=
  fun w hw => h w (hC.forget hw)

theorem leaves_bind {k : α → M β} (hm : Keeps (G F B) m) (hk : ∀ a, Leaves G F B (k a)) :
    Leaves G F B (m >>= k) :=
  fun _ hw => Ends.state <| (hm.ends hw).bind (fun a _ h => ends_of_state (hk a _ h))
    (fun _ _ h => hC.forget h)

omit hC in
theorem leaves_then {k : α → M β} (hm : Leaves G F B m)
    (hk : ∀ a, Keeps (G F .nothing) (k a)) : Leaves G F B (m >>= k) :=
  fun w hw => Ends.state <| (ends_of_state (hm w hw)).bind (fun a _ h => (hk a).ends h) (fun _ _ h => h)

theorem keeps_of_gains {m : M Unit} (h : Gains G F f m) : Keeps (G F .nothing) m :=
  keeps_of_ends fun w hw => (h w hw).mono (fun _ _ h' => hC.drop h') (fun _ _ h' => h')

theorem gains_bind {m : M Unit} {k : Unit → M α} (h : Gains G F f m)
    (hk : ∀ u, Keeps (G (f :: F) .nothing) (k u)) : Keeps (G F .nothing) (m >>= k) := by
  refine keeps_of_ends fun w hw => (h w hw).bind (fun u w' h' => ?_) (fun _ _ h' => h')
  exact hC.ends h' (hk u) (List.subset_cons_self f F)

/-- What the rows show at the moment they are read may be added to the known facts. -/
theorem keeps_db {k : Db → M α} (hk : ∀ w, G F B w →
    ∃ F', G (F' ++ F) B w ∧ Keeps (G (F' ++ F) B) (k w.db)) : Keeps (G F B) (getDb >>= k) := by
  intro w h
  obtain ⟨F', h', hkeeps⟩ := hk w h
  exact hC.mono (hkeeps w h') (List.subset_append_right F' F)

theorem leaves_config {k : HealerYaml → M α} (hk : ∀ c, K.config c → Leaves G F B (k c)) :
    Leaves G F B (configFromApplication >>= k) := by
  intro w h
  refine Ends.state (P := G F .nothing) ?_
  simp only [configFromApplication, ends_bind, ends_getDb]
  cases hc : w.db.application.config with
  | none => exact hC.forget h
  | some c => exact ends_of_state (hk c (hC.config h hc) w h)

theorem keeps_config {k : HealerYaml → M α} (hk : ∀ c, K.config c → Keeps (G F .nothing) (k c)) :
    Keeps (G F .nothing) (configFromApplication >>= k) :=
  hC.leaves_config hk

/-- The row an operation reads tells where the instance is. -/
theorem leaves_instance {k : Instance → M α}
    (hk : ∀ inst, Leaves G (.on i inst.serverId :: F) B (k inst)) : Leaves G F B (getInstance i >>= k) := by
  intro w h
  refine Ends.state (P := G F .nothing) ?_
  simp only [getInstance, ends_bind, ends_getDb]
  cases hrow : w.db.instances.row i with
  | none => exact hC.forget h
  | some inst => exact ends_of_state (hC.drop (hk inst w (hC.seen h hrow)))

theorem keeps_instance {k : Instance → M α}
    (hk : ∀ inst, Keeps (G (.on i inst.serverId :: F) .nothing) (k inst)) :
    Keeps (G F .nothing) (getInstance i >>= k) :=
  hC.leaves_instance hk

/-- An owned instance is where the application is. -/
theorem leaves_at_home (howned : .owned i ∈ F) (hon : .on i s ∈ F)
    (hm : K.server s → Leaves G F B m) : Leaves G F B m :=
  fun w h => hm (hC.home h howned hon) w h

/-! ## Calls -/

theorem keeps_commit : Keeps (G F B) commit := hC.quiet.keeps_commit

theorem keeps_suspend : Keeps (G F B) (suspend o) := fun _ h => hC.onSuspend h

theorem keeps_syncGateway : Keeps (G F B) (syncGateway o) := by
  refine keeps_bind (keeps_read _) fun payload =>
    keeps_bind (keeps_read _) fun delivery =>
    keeps_bind (hC.quiet.keeps_emit rfl) fun _ =>
    keeps_bind (keeps_update fun w h => hC.onDeliver _ _ h) fun _ =>
    keeps_bind hC.keeps_suspend fun _ => keeps_bind (hC.quiet.keeps_emit rfl) fun _ =>
    keeps_bind hC.keeps_commit fun _ => keeps_pure _

theorem keeps_syncIfDomain : Keeps (G F B) (syncIfDomain o c) :=
  keeps_ite (fun _ => keeps_bind hC.keeps_syncGateway fun _ => keeps_pure ())
    fun _ => keeps_pure ()

theorem keeps_syncGatewayStep : Keeps (G F B) (syncGatewayStep o d) :=
  keeps_bind hC.keeps_syncGateway fun result => by
    rcases result.message with text | str
    · exact keeps_bind (hC.quiet.keeps_modifyDb fun _ => by rfl) fun _ => hC.keeps_commit
    · exact hC.quiet.keeps_failFlush

theorem keeps_finishScale {ok : Bool} : Keeps (G F B) (finishScale o d c ok) := by
  refine keeps_bind (keeps_ite (fun _ => ?_) fun _ => keeps_pure ()) fun _ =>
    hC.quiet.keeps_close d _
  refine keeps_bind hC.keeps_syncGateway fun result => ?_
  exact keeps_ite (fun _ => hC.quiet.keeps_log _ _ _) fun _ => keeps_pure ()

theorem keeps_waitLoop {host : String} {port : ℕ} (howned : .owned i ∈ F) (hs : K.server s)
    (hhost : K.host s host) (n : ℕ) : ∀ (hc : HealthCheck) (k successes failures : ℕ),
      Keeps (G F B) (waitLoop o hc i host port n k successes failures) := by
  induction n with
  | zero => intro hc k successes failures; exact keeps_pure _
  | succ n ih =>
    intro hc k successes failures
    refine keeps_bind hC.keeps_suspend fun _ => keeps_bind (keeps_read _) fun hc =>
      keeps_bind (hC.quiet.keeps_probeOnce _ _ k) fun _ =>
      keeps_bind (keeps_update fun _ h => hC.onProbe _ _ h howned hs hhost) fun _ =>
      keeps_bind (hC.quiet.keeps_recordResult _ _ _) fun _ =>
      keeps_bind hC.keeps_commit fun _ => keeps_ite (fun _ => keeps_pure _) fun _ =>
      keeps_ite (fun _ => keeps_pure _) fun _ => ih _ _ _ _

theorem keeps_waitUntilHealthy {hc : HealthCheck} {host : String} {port : ℕ} (howned : .owned i ∈ F)
    (hs : K.server s) (hhost : K.host s host) : Keeps (G F B) (waitUntilHealthy o hc i host port) :=
  keeps_bind (keeps_read _) fun _ =>
    keeps_bind (hC.keeps_waitLoop howned hs hhost _ _ _ _ _) fun _ =>
    keeps_bind (hC.quiet.keeps_emit rfl) fun _ => keeps_pure _

end Course

end Healer
