import Healer.Sanity.CourseHealing
import Healer.Sanity.HomeCalls

/-! Every operation keeps the instances at home. -/

namespace Healer

open Prog (Ends Keeps)

/-- What an operation takes from the rows of an application at home in `H`. -/
def Home.reading (H : Home) : Reading where
  server s := H.server = some s
  config c := H.adapter = some c.adapter ∧ c.serverId = H.server
  host s name := H.hostname s = some name

section Course

variable {H : Home} {F : List Fact} {o : Oracle} {w : World}

theorem course_home (hsteady : o.steady H) : Course o H.reading (fun F _ => Good H F) where
  quiet := ⟨fun _ _ he h => h.emit_aimless (aimless_of_quiet he), fun _ _ hdb h => h.outline hdb⟩
  mono h hF := h.mono hF
  forget h := h
  server h hs := h.server.symm.trans hs
  config h hc := ⟨h.adapter hc, h.target hc⟩
  host h hs := (h.hostname _).symm.trans hs
  target hc hs := hc.2.symm.trans hs
  seen h hrow := h.cons ⟨_, hrow, rfl⟩
  found h hrow := h.cons (Table.lt_of_row hrow)
  home h howned hon := h.server_eq howned hon
  reread h hon hon' hhost := h.on_unique hon hon' ▸ hhost
  onSuspend h := h.suspend hsteady
  onDeliver _ _ h := h.congr rfl rfl rfl
  onProbe _ _ h howned hs hhost := h.emit_probe_owned howned hs hhost
  onAsk _ _ command hcommand _ := keeps_submit hsteady fun _ h => h.emit_aimless (by
    cases command with
    | deployRelease | cleanupImage => rfl
    | startInstance | stopInstance => cases hcommand)
  onStart _ _ h howned hs hc := (keeps_submitStart hsteady howned hs hc.1).ends h
  onStop _ h howned hs hc := (keeps_submitStop hsteady howned hs hc.1).ends h
  move ht h := gains_transition (by rintro rfl; cases ht) h
  begin h howned := (keeps_transition howned).ends h
  confirm h howned := (keeps_transition howned).ends h
  allocate _ _ h hs hknown := allocate_good hs hknown h
  allocateFirst _ _ h hs hknown := allocate_good hs hknown h
  pick h hlodged hrow hr := h.cons ((h.facts _ hlodged : Fact.holds H _ (.lodged _)) _ _ hrow hr)
  onTickBegin h := h.tickBegin
  onPoll h hqueue := h.pollFirst hqueue
  onDrop h := h.requeue rfl rfl fun _ hq => absurd hq List.not_mem_nil
  onUpdate hc h := h.update hc.2 hc.1

theorem shelving_home : Shelving (fun F _ => Good H F) where
  onRelease _ _ _ _ _ h := h.setDb_same h.housed.home rfl le_rfl
  onActive _ r := Prog.keeps_bind (fun _ h => h.emit_aimless (e := .setActive r) trivial) fun _ =>
    Prog.keeps_bind (fun _ h => h.setDb_same h.housed.home rfl le_rfl) fun _ =>
    fun _ h => h.emit_aimless (e := .commit) trivial
  onInsert {F w} h := by
    -- no instance can belong to a release that has just been inserted
    have h' : Good H F (w.setDb { w.db with releases := w.db.releases.insert (newRelease w.clock) }) :=
      h.setDb_same h.housed.home rfl (Nat.le_succ _)
    refine (h'.cons (f := .known _) (Nat.lt_succ_self _)).cons (f := .lodged _) fun i inst hrow hr => ?_
    exact absurd (h.housed.linked i inst _ hrow hr) (Nat.lt_irrefl _)

/-- The rows of a deleted release lose it and keep their place. -/
theorem Good.deleteRelease (h : Good H F w) (r : ReleaseId) : Good H F (w.setDb (w.db.deleteRelease r)) := by
  refine h.setDb h.housed.home rfl le_rfl (fun i inst hrow => ?_) (fun i inst' hrow' => ?_)
  · exact ⟨_, congrArg (Option.map _) hrow, rfl⟩
  · obtain ⟨inst, hrow, rfl⟩ := Option.map_eq_some_iff.1 hrow'
    exact ⟨inst, hrow, fun _ hr => (Option.filter_eq_some_iff.1 hr).1, Or.inl⟩

theorem keeps_flushDeletes (pending : List ReleaseId) : Keeps (Good H F) (flushDeletes pending) := by
  intro w h
  change Good H F (w.setDb (pending.foldl Db.deleteRelease w.db))
  induction pending generalizing w with
  | nil => exact h
  | cons r pending ih => exact ih (w.setDb (w.db.deleteRelease r)) (h.deleteRelease r)

/-- The operation itself does not move the application. -/
def Op.steady (H : Home) : Op → Prop
  | .update c => c.serverId = H.server ∧ H.adapter = some c.adapter
  | _ => True

theorem keeps_run (hsteady : o.steady H) {op : Op} (hop : op.steady H) :
    Keeps (Good H F) (op.run o) := by
  refine (course_home hsteady).keeps_run shelving_home (fun _ => keeps_flushDeletes) ?_ fun _ _ =>
    Or.inl fun _ howned => keeps_transition howned
  rintro c rfl
  exact ⟨hop.2, hop.1⟩

end Course

end Healer
