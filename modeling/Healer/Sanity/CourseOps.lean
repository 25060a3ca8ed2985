import Healer.Sanity.Course

/-! Scale operations and release switches, step by step. -/

namespace Healer

open Prog List

/-- The replicas go where the application is. -/
structure SiteAt (K : Reading) (F : List Fact) (L : Site) : Prop where
  server : K.server L.server
  config : K.config L.config
  host : ∀ name, L.host = some name → K.host L.server name
  known : .known L.release ∈ F

theorem SiteAt.mono {K : Reading} {F F' : List Fact} {L : Site} (h : SiteAt K F L) (hF : F ⊆ F') :
    SiteAt K F' L :=
  ⟨h.server, h.config, h.host, hF h.known⟩

theorem mem_owned {F : List Fact} {is : List InstanceId} {i : InstanceId} (hi : i ∈ is) :
    Fact.owned i ∈ is.map Fact.owned ++ F :=
  mem_append_left _ (mem_map_of_mem hi)

/-- What is known of a replica once it has been brought up. -/
def BroughtUp (G : List Fact → Brief → World → Prop) (F : List Fact) : Launch → World → Prop
  | .healthy i => G (.owned i :: F) (.confirmed .start i)
  | .unhealthy i | .startFailed i => G (.owned i :: F) .nothing
  | .noPort => G F .nothing

/-- What the gate has to hand on: the instances it started are owned. -/
def Gated (G : List Fact → Brief → World → Prop) (F : List Fact) : Option (List InstanceId) → World → Prop
  | some is => G (is.map Fact.owned ++ F) .nothing
  | none => G F .nothing

namespace Course

variable {o : Oracle} {K : Reading} {G : List Fact → Brief → World → Prop} {F : List Fact} {B : Brief}
  {w : World} {i : InstanceId} {s agent : ServerId} {c : HealerYaml} {r : ReleaseId}
  {d : DeploymentId} {dep : Deployment} {L : Site} {key : InstanceId → CommandKey}
  {is : List InstanceId} {target : InstanceStatus} {α : Type} (hC : Course o K G)

include hC

/-! ## Replicas -/

theorem gains_settle (ht : target.plain = true) : Gains G F (.owned i) (settle i target) :=
  fun _ h => (hC.move ht h).bind (fun _ _ h' => hC.keeps_commit.ends h' |>.mono (fun _ _ h => h)
    (fun _ _ h => hC.drop h)) (fun _ _ h' => h')

theorem leaves_confirm (k : Errand) (howned : .owned i ∈ F) :
    Leaves G F (.confirmed k i) (transition i k.status) :=
  fun _ h => (hC.confirm h howned).state

theorem leaves_settle (k : Errand) (howned : .owned i ∈ F) :
    Leaves G F (.confirmed k i) (settle i k.status) :=
  leaves_then (hC.leaves_confirm k howned) fun _ => hC.keeps_commit

/-- RUNNING or STOPPED by the outcome of the command, FAILED otherwise. -/
theorem leaves_outcome (k : Errand) (ok : Bool) (howned : .owned i ∈ F) :
    Leaves G F (.after k i ok) (transition i (if ok then k.status else .failed)) := by
  cases ok with
  | true => exact hC.leaves_confirm k howned
  | false => exact hC.keeps_of_gains fun _ h => hC.move rfl h

/-- A loop that learns about each instance has learnt about all of them. -/
theorem each_gains {m : InstanceId → M Unit} (hm : ∀ F i, Gains G F (.owned i) (m i))
    (is : List InstanceId) : ∀ F w, G F .nothing w →
      Ends (Prog.each m is w) (fun _ => G (is.map Fact.owned ++ F) .nothing) (fun _ => G F .nothing) := by
  induction is with
  | nil => intro F w h; exact h
  | cons i is ih =>
    intro F w h
    refine (hm F i w h).bind (fun _ w' h' => ?_) (fun _ _ h' => h')
    refine (ih _ w' h').mono (fun _ _ h'' => hC.mono h'' ?_) (fun _ _ h'' => hC.drop h'')
    intro f hf
    simp only [map_cons, cons_append, mem_cons, mem_append] at hf ⊢
    tauto

/-- A loop that marks instances, and then a program that relies on them. -/
theorem keeps_each_bind {m : InstanceId → M Unit} (hm : ∀ F i, Gains G F (.owned i) (m i))
    {k : Unit → M α} (hk : ∀ u, Keeps (G (is.map Fact.owned ++ F) .nothing) (k u)) :
    Keeps (G F .nothing) (Prog.each m is >>= k) := by
  refine keeps_of_ends fun w h => (hC.each_gains hm is F w h).bind (fun u w' h' => ?_)
    (fun _ _ h' => h')
  exact hC.ends h' (hk u) (subset_append_right _ F)

/-- The port and the row are there, the agent is asked, and the instance has its health gate. -/
theorem launch_ends (hL : SiteAt K F L) (h : G F .nothing w) :
    Ends (launch o L w) (BroughtUp G F) (fun _ => G F .nothing) := by
  rw [launch, ends_bind, ends_attempt]
  refine (hC.allocate _ _ h hL.server hL.known).mono (fun i w1 h1 => ?_) (fun e w1 h1 => ?_)
  · have howned : Fact.owned i ∈ Fact.owned i :: F := mem_cons_self
    refine ((hC.quiet.keeps_modifyInstance i fun _ => by rfl).ends h1).bind (fun _ w2 h2 => ?_)
      (fun _ _ h' => hC.drop h')
    refine (hC.begin h2 howned).bind (fun _ w3 h3 => ?_) (fun _ _ h' => hC.drop h')
    refine (hC.keeps_commit.ends h3).bind (fun _ w4 h4 => ?_) (fun _ _ h' => hC.drop h')
    refine (hC.onStart _ _ h4 howned hL.server hL.config).bind (fun row w5 h5 => ?_)
      (fun _ _ h' => hC.drop h')
    refine ((keeps_getInstance i).ends h5).bind (fun inst w6 h6 => ?_) (fun _ _ h' => hC.drop h')
    have hpersist := (persistInstance_spec L.deployment row inst.port w6).and
      ((hC.quiet.keeps_persistInstanceCommandOutcome L.deployment row inst.port).ends h6)
    refine hpersist.bind (fun startOk w7 h7 => ?_) (fun _ _ h' => hC.drop h'.2)
    obtain ⟨⟨rfl, -⟩, h7⟩ := h7
    rcases hok : row.ok with _ | _
    · exact hC.forget h7
    have h8 : G (.owned i :: F) (.confirmed .start i) w7 := by
      rw [hok] at h7
      exact h7
    simp only [Bool.not_true, Bool.false_eq_true, if_false]
    rcases hhc : L.healthCheck with _ | hc
    · exact h8
    rcases hhost : L.host with _ | host
    · exact h8
    refine ((hC.keeps_waitUntilHealthy howned hL.server (hL.host host hhost)).ends h8).bind
      (fun healthy w9 h9 => ?_) (fun _ _ h' => hC.drop h')
    cases healthy with
    | true => exact h9
    | false =>
      exact ((hC.quiet.keeps_log _ _ _).ends h9).bind (fun _ _ h' => hC.forget h')
        (fun _ _ h' => hC.drop h')
  · cases e with
    | deploymentSetup message => exact ((hC.quiet.keeps_log _ _ _).ends h1).bind (fun _ _ h' => h') (fun _ _ h' => h')
    | _ => exact h1

theorem keeps_scaleUp (hL : SiteAt K F L) (n : ℕ) :
    ∀ overallOk, Keeps (G F .nothing) (scaleUp o L n overallOk) := by
  induction n with
  | zero => intro overallOk; exact keeps_pure _
  | succ n ih =>
    intro overallOk
    refine keeps_of_ends fun w h => (hC.launch_ends hL h).bind (fun res w1 h1 => ?_) (fun _ _ h' => h')
    have hplain : ∀ i target ok, target.plain = true → G (.owned i :: F) .nothing w1 →
        Ends ((settle i target >>= fun _ => scaleUp o L n ok) w1) (fun _ => G F .nothing)
          (fun _ => G F .nothing) := by
      intro i target ok ht h1
      exact hC.ends (hC.tail h1) (keeps_bind (hC.keeps_of_gains (hC.gains_settle ht)) fun _ => ih ok)
        (List.Subset.refl F)
    cases res with
    | noPort => exact h1
    | startFailed i => exact hplain i _ _ rfl h1
    | unhealthy i => exact hplain i _ _ rfl h1
    | healthy i =>
      have h2 : G (.owned i :: F) .nothing (settle i .running w1).2 :=
        hC.leaves_settle .start mem_cons_self w1 h1
      exact (ends_of_state h2).bind (fun _ _ h' => (ih overallOk).ends (hC.drop h'))
        (fun _ _ h' => hC.drop h')

theorem keeps_stopAndSettle (howned : .owned i ∈ F) (hagent : K.server agent) (hconfig : K.config c) :
    Keeps (G F .nothing) (stopAndSettle o d agent key c i) := by
  refine keeps_of_ends fun w h => (hC.onStop _ h howned hagent hconfig).bind (fun row w1 h1 => ?_)
    (fun _ _ h' => h')
  refine ((keeps_getInstance i).ends h1).bind (fun inst w2 h2 => ?_) (fun _ _ h' => hC.forget h')
  have hpersist := (persistInstance_spec d row inst.port w2).and
    ((hC.quiet.keeps_persistInstanceCommandOutcome d row inst.port).ends h2)
  refine hpersist.bind (fun ok w3 h3 => ?_) (fun _ _ h' => hC.forget h'.2)
  obtain ⟨⟨rfl, -⟩, h3⟩ := h3
  have hleft : Leaves G F (.after .stop i row.ok)
      (do transition i (stopStatus row.ok); commit; pure row.ok : M Bool) :=
    leaves_then (hC.leaves_outcome .stop row.ok howned) fun _ =>
      keeps_bind hC.keeps_commit fun _ => keeps_pure _
  exact ends_of_state (hleft w3 h3)

theorem keeps_stopEach (howned : ∀ i ∈ is, .owned i ∈ F) (hagent : K.server agent) (hconfig : K.config c) :
    Keeps (G F .nothing) (Prog.each (fun i => do let _ ← stopAndSettle o d agent key c i; pure ()) is) :=
  keeps_each fun i hi => keeps_bind (hC.keeps_stopAndSettle (howned i hi) hagent hconfig)
    fun _ => keeps_pure _

theorem keeps_stopDrained (hagent : K.server agent) (hconfig : K.config c) (is : List InstanceId)
    (howned : ∀ i ∈ is, .owned i ∈ F) :
    ∀ overallOk, Keeps (G F .nothing) (stopDrained o d agent c is overallOk) := by
  induction is with
  | nil => intro overallOk; exact keeps_pure _
  | cons i is ih =>
    intro overallOk
    exact keeps_bind (hC.keeps_stopAndSettle (howned i mem_cons_self) hagent hconfig)
      fun ok => ih (fun j hj => howned j (mem_cons_of_mem _ hj)) _

theorem gains_markDraining (F : List Fact) (i : InstanceId) : Gains G F (.owned i) (markDraining d i) :=
  fun _ h => ((hC.quiet.keeps_modifyInstance i fun _ => by rfl).ends h).bind
    (fun _ _ h' => hC.move rfl h') (fun _ _ h' => h')

theorem keeps_scaleDown (hagent : K.server agent) (hconfig : K.config c) (live : List InstanceId)
    (count : ℕ) : Keeps (G F .nothing) (scaleDown o d agent c live count) := by
  refine keeps_bind keeps_getDb fun db => hC.keeps_each_bind hC.gains_markDraining fun _ => ?_
  exact keeps_bind hC.keeps_commit fun _ => keeps_bind hC.keeps_syncIfDomain fun _ =>
    keeps_bind hC.keeps_suspend fun _ =>
    hC.keeps_stopDrained hagent hconfig _ (fun i hi => mem_owned hi) _

theorem keeps_scaleBody : Keeps (G F .nothing) (scaleBody o d dep) := by
  have hlost : ∀ F message, Keeps (G F .nothing)
      (do log d .error message; transitionDeployment d .failed; commit : M Unit) :=
    fun F message => keeps_bind (hC.quiet.keeps_log d _ message) fun _ =>
      hC.quiet.keeps_close d _
  refine hC.keeps_db fun w h => ?_
  rcases hrel : w.db.releases.row dep.releaseId with _ | rel
  · exact ⟨[], h, keeps_pure _⟩
  rcases hserver : w.db.application.serverId with _ | s
  · exact ⟨[], h, hlost _ _⟩
  rcases w.db.application.portRangeStart with _ | lo
  · exact ⟨[], h, hlost _ _⟩
  rcases w.db.application.portRangeEnd with _ | hi
  · exact ⟨[], h, hlost _ _⟩
  have hs := hC.server h hserver
  refine ⟨[.known dep.releaseId], hC.found h hrel, hC.keeps_config fun c hconfig => ?_⟩
  refine keeps_ite (fun _ => hlost _ _) fun _ => keeps_ite (fun _ => ?_) fun _ =>
    keeps_ite (fun _ => ?_) fun _ => hC.keeps_finishScale
  · refine keeps_bind (hC.keeps_scaleUp ?_ _ _) fun _ => hC.keeps_finishScale
    exact ⟨hs, hconfig, fun name hname => hC.host h hname, mem_cons_self⟩
  · exact keeps_bind (hC.keeps_scaleDown hs hconfig _ _) fun _ => hC.keeps_finishScale

/-! ## Releases -/

/-- A release is built; what that writes to its row is left to the caller. -/
theorem keeps_buildRelease (hB : ∀ k i, B ≠ .confirmed k i)
    (hrow : ∀ f, Keeps (G F B) (modifyRelease r f)) : Keeps (G F B) (buildRelease o d r c agent) :=
  keeps_bind (hrow _) fun _ => keeps_bind hC.keeps_commit fun _ =>
    keeps_bind (keeps_getRelease r) fun _ => keeps_bind keeps_getDb fun _ =>
    keeps_bind (hC.onAsk _ _ _ rfl hB) fun row =>
    keeps_bind (hC.quiet.keeps_persistAgentOutcome d row) fun _ =>
    keeps_bind (hrow _) fun _ => keeps_bind hC.keeps_commit fun _ => keeps_pure _

theorem gateLoop_ends (hL : SiteAt K F L) (n : ℕ) :
    ∀ started w, G (started.map Fact.owned ++ F) .nothing w →
      Ends (gateLoop o L n started w) (Gated G F) (fun _ => G F .nothing) := by
  induction n with
  | zero => intro started w h; exact h
  | succ n ih =>
    intro started w h
    have hdrop : ∀ {F' v}, F ⊆ F' → G F' .nothing v → G F .nothing v := fun hF hv => hC.mono hv hF
    have hsub := subset_append_right (started.map Fact.owned) F
    have hstop : Keeps (G (started.map Fact.owned ++ F) .nothing)
        (stopInstances o L.deployment L.server L.config started) :=
      hC.keeps_stopEach (fun i hi => mem_owned hi) hL.server hL.config
    have habort : ∀ v, G (started.map Fact.owned ++ F) .nothing v →
        Ends ((do stopInstances o L.deployment L.server L.config started; pure none :
          M (Option (List InstanceId))) v) (Gated G F) (fun _ => G F .nothing) :=
      fun v hv => (hstop.ends hv).bind (fun _ _ hv' => hdrop hsub hv') (fun _ _ hv' => hdrop hsub hv')
    have hlost : ∀ i v, G (.owned i :: (started.map Fact.owned ++ F)) .nothing v →
        Ends ((do settle i .failed; stopInstances o L.deployment L.server L.config started; pure none :
          M (Option (List InstanceId))) v) (Gated G F) (fun _ => G F .nothing) :=
      fun i v hv => ((hC.keeps_of_gains (hC.gains_settle rfl)).ends (hC.tail hv)).bind
        (fun _ v' hv' => habort v' hv') (fun _ _ hv' => hdrop hsub hv')
    refine (hC.launch_ends (hL.mono hsub) h).bind (fun res w1 h1 => ?_) (fun _ _ hv => hdrop hsub hv)
    cases res with
    | noPort => exact habort w1 h1
    | startFailed i => exact hlost i w1 h1
    | unhealthy i => exact hlost i w1 h1
    | healthy i =>
      have h2 : G (.owned i :: (started.map Fact.owned ++ F)) .nothing (settle i .running w1).2 :=
        hC.leaves_settle .start mem_cons_self w1 h1
      refine (ends_of_state h2).bind (fun _ w3 h3 => ih (started ++ [i]) w3 (hC.mono h3 fun f hf => ?_))
        (fun _ _ hv => hdrop hsub (hC.drop hv))
      simp only [map_append, map_cons, map_nil, mem_append, mem_cons,
        not_mem_nil, or_false] at hf ⊢
      tauto

theorem gate_ends {lo hi : ℕ} (hs : K.server s) (hconfig : K.config c) (hknown : .known dep.releaseId ∈ F)
    (h : G F .nothing w) :
    Ends (startAndHealthGate o d dep c s lo hi w) (Gated G F) (fun _ => G F .nothing) :=
  hC.gateLoop_ends (L := ⟨d, dep.releaseId, c, s, lo, hi, w.db.healthCheck,
      (w.db.servers s).map Server.hostname⟩)
    ⟨hs, hconfig, fun _ hname => hC.host h hname, hknown⟩ dep.instanceCount [] w h

theorem keeps_fail {reason : String} {cleanupRelease : Option ReleaseId}
    {cleanup : Option (ServerId × HealerYaml × List InstanceId)}
    (hcleanup : ∀ agent c is, cleanup = some (agent, c, is) →
      K.server agent ∧ K.config c ∧ ∀ i ∈ is, .owned i ∈ F)
    (hrow : ∀ r, cleanupRelease = some r → Keeps (G F .nothing) (modifyRelease r fun rel =>
      if rel.status = .ready then rel else { rel with status := .failed })) :
    Keeps (G F .nothing) (fail o d reason cleanupRelease cleanup) := by
  refine keeps_bind ?_ fun _ => keeps_bind ?_ fun _ =>
    keeps_bind (hC.quiet.keeps_modifyDb fun _ => by rfl) fun _ =>
    keeps_bind (hC.quiet.keeps_log _ _ _) fun _ => hC.quiet.keeps_close _ _
  · rcases cleanup with _ | ⟨agent, c, is⟩
    · exact keeps_pure _
    · obtain ⟨hs, hconfig, howned⟩ := hcleanup agent c is rfl
      exact hC.keeps_stopEach howned hs hconfig
  · cases cleanupRelease with
    | none => exact keeps_pure _
    | some r => exact hrow r rfl

theorem keeps_drainOldRelease (hs : K.server agent) (hconfig : K.config c) :
    Keeps (G F .nothing) (drainOldRelease o d agent r c) := by
  refine keeps_bind keeps_getDb fun db => keeps_ite (fun _ => keeps_pure _) fun _ => ?_
  refine hC.keeps_each_bind (fun _ _ _ h => hC.move rfl h) fun _ => ?_
  exact keeps_bind hC.keeps_commit fun _ => keeps_bind hC.keeps_suspend fun _ =>
    hC.keeps_stopEach (fun i hi => mem_owned hi) hs hconfig

theorem keeps_pruneLoop (hdelete : ∀ rs, Keeps (G F .nothing) (flushDeletes rs)) (rs : List ReleaseId) :
    ∀ pending, Keeps (G F .nothing) (pruneLoop o d agent c rs pending) := by
  induction rs with
  | nil => intro pending; exact keeps_bind (hdelete _) fun _ => hC.keeps_commit
  | cons r rs ih =>
    intro pending
    have hkept : ∀ message, Keeps (G F .nothing)
        (do log d .warning message; pruneLoop o d agent c rs [] : M Unit) :=
      fun message => keeps_bind (hC.quiet.keeps_log _ _ _) fun _ => ih _
    refine keeps_bind keeps_getDb fun db => keeps_ite (fun _ => ih _) fun _ =>
      keeps_bind (keeps_getRelease r) fun rel => keeps_ite (fun _ => ?_) fun _ => ih _
    refine keeps_ite (fun _ => keeps_bind (hdelete _) fun _ => hkept _) fun _ =>
      keeps_bind (hdelete _) fun _ =>
      keeps_bind (keeps_attempt (hC.onAsk _ _ _ rfl (by simp))) fun reply => ?_
    cases reply with
    | ok row => exact keeps_ite (fun _ => ih _) fun _ => hkept _
    | error e => exact hkept _

theorem keeps_finishSwitch {old : Option ReleaseId} (hs : K.server agent) (hconfig : K.config c)
    (hdelete : ∀ rs, Keeps (G F .nothing) (flushDeletes rs)) :
    Keeps (G F .nothing) (finishSwitch o d agent c old) := by
  refine keeps_bind ?_ fun _ => keeps_bind ?_ fun _ => hC.quiet.keeps_close _ _
  · cases old with
    | none => exact keeps_pure _
    | some r => exact hC.keeps_drainOldRelease hs hconfig
  · exact keeps_bind keeps_getDb fun _ => hC.keeps_pruneLoop hdelete _ _

/-! ### With every write to the releases -/

variable (hS : Shelving G)

include hS

theorem keeps_switchTo (hs : K.server agent) (hconfig : K.config c) (howned : ∀ i ∈ is, .owned i ∈ F)
    (hdelete : ∀ rs, Keeps (G F .nothing) (flushDeletes rs)) :
    Keeps (G F .nothing) (switchTo o d r agent c is) := by
  refine keeps_bind (keeps_read _) fun old => keeps_bind (hS.onActive _ _) fun _ =>
    keeps_ite (fun _ => ?_) fun _ => hC.keeps_finishSwitch hs hconfig hdelete
  refine keeps_bind hC.keeps_syncGateway fun result =>
    keeps_ite (fun _ => hC.keeps_finishSwitch hs hconfig hdelete) fun _ =>
    keeps_bind (hS.onActive _ _) fun _ => hC.keeps_fail (fun agent' c' is' heq => ?_)
      fun _ _ => hS.onRelease _ _ _ _
  cases heq
  exact ⟨hs, hconfig, howned⟩

theorem keeps_switchBody (hdelete : ∀ F rs, Keeps (G F .nothing) (flushDeletes rs)) :
    Keeps (G F .nothing) (switchBody o d dep) := by
  have hfail : ∀ F reason cleanupRelease, Keeps (G F .nothing) (fail o d reason cleanupRelease none) :=
    fun F reason cleanupRelease => hC.keeps_fail (fun _ _ _ heq => by cases heq) fun _ _ =>
      hS.onRelease _ _ _ _
  refine hC.keeps_db fun w h => ?_
  dsimp only
  rcases hrel : w.db.releases.row dep.releaseId with _ | rel
  · exact ⟨[], h, keeps_pure _⟩
  rcases hserver : w.db.application.serverId with _ | s
  · exact ⟨[], h, hfail _ _ _⟩
  rcases w.db.application.portRangeStart with _ | lo
  · exact ⟨[], h, hfail _ _ _⟩
  rcases w.db.application.portRangeEnd with _ | hi
  · exact ⟨[], h, hfail _ _ _⟩
  have hs := hC.server h hserver
  refine ⟨[.known dep.releaseId], hC.found h hrel, hC.keeps_config fun c hconfig => ?_⟩
  refine keeps_ite (fun _ => hfail _ _ _) fun _ =>
    keeps_bind (keeps_ite (fun _ => hC.keeps_buildRelease (by simp) fun _ => hS.onRelease _ _ _ _)
      fun _ => keeps_pure _) fun built => keeps_ite (fun _ => hfail _ _ _) fun _ => ?_
  refine keeps_of_ends fun w' h' => (hC.gate_ends hs hconfig mem_cons_self h').bind
    (fun res w2 h2 => ?_) (fun _ _ h' => h')
  cases res with
  | none => exact (hfail _ _ _).ends h2
  | some is =>
    have h3 : G (is.map Fact.owned ++ ([.known dep.releaseId] ++ F)) .nothing w2 := h2
    exact hC.ends h3 (hC.keeps_switchTo hS hs hconfig (fun i hi => mem_owned hi) (hdelete _))
      (subset_append_right _ _)

theorem keeps_insertRelease : Keeps (G F .nothing) insertRelease :=
  fun _ h => hC.drop (hC.drop (hS.onInsert h))

end Course

end Healer
