import Healer.Sanity.Retire
import Healer.Sanity.Sample
import Healer.Spec.ImageCleanup

/-! What `_prune_old_releases` deletes, and what the agent is made to remove. Deletes reach the
database with the next commit, and every release with a built image brings one about; so a
release that records another's tag is seen by the query for that tag, unless a third release with a
built image was dealt with in between. -/

namespace Healer

open Prog List

/-- In a list that descends strictly, what is left after the first `k` has `k` entries above it. -/
theorem mem_drop_of_descending {α κ : Type} [LinearOrder κ] {key : α → κ} {l : List α}
    (h : l.Pairwise fun a b => key b < key a) {a : α} (ha : a ∈ l) {k : ℕ} :
    a ∈ l.drop k ↔ k ≤ (l.filter fun b => key a < key b).length := by
  induction l generalizing k with
  | nil => cases ha
  | cons b l ih =>
    rw [pairwise_cons] at h
    rcases mem_cons.mp ha with rfl | hmem
    · have hnone : (l.filter fun b => decide (key a < key b)) = [] := by
        rw [filter_eq_nil_iff]
        intro b hb
        simpa using (h.1 b hb).le
      rw [filter_cons_of_neg (by simp), hnone]
      cases k with
      | zero => simp
      | succ k =>
        have hnot : a ∉ l := fun hm => lt_irrefl _ (h.1 a hm)
        simpa using fun hm => hnot (mem_of_mem_drop hm)
    · rw [filter_cons_of_pos (by simpa using h.1 a hmem)]
      cases k with
      | zero => simp [hmem]
      | succ k => simpa using ih h.2 hmem

section Rows

variable (db : Db) (c : HealerYaml) (o : Oracle)

/-- `f"healer-{application.slug}:{release.ref}"`. -/
def Db.builtTag (rel : Release) : String :=
  let slug := db.application.slug
  let ref := rel.ref
  s!"healer-{slug}:{ref}"

def Db.createdAt (r : ReleaseId) : Time := ((db.releases.row r).map Release.createdAt).getD 0

def Db.Records (r : ReleaseId) (tag : String) : Prop :=
  ∃ rel, db.releases.row r = some rel ∧ rel.imageRef = some tag

/-- The release has an image that was built for it. -/
def Db.Own (r : ReleaseId) : Prop :=
  c.adapter = .linuxDocker ∧ ∃ rel, db.releases.row r = some rel ∧ rel.imageRef = some (db.builtTag rel)

/-- A READY release that is neither active nor among the newest. -/
def Db.Outdated (r : ReleaseId) : Prop :=
  r ∈ db.readyReleases ∧ db.application.activeReleaseId ≠ some r ∧
    max db.application.releaseRetentionCount 1 ≤
      (db.readyReleases.filter fun r' => db.createdAt r < db.createdAt r').length

/-- The command to remove the image of `r` has succeeded. -/
def Oracle.cleaned (r : ReleaseId) : Prop :=
  ∃ row, o.reply (.cleanupImage r) = .row row ∧ row.status = .succeeded ∧
    (row.result.map CommandResult.ok).getD false

/-- What is to be deleted. -/
def Db.Due (r : ReleaseId) : Prop :=
  db.Outdated r ∧ (¬ db.Own c r ∨
    ∃ rel, db.releases.row r = some rel ∧ o.foreignImage (db.builtTag rel) = false ∧
      (∀ s, s ≠ r → ¬ db.Records s (db.builtTag rel)) ∧ o.cleaned r)

/-- The releases for whose image the agent is asked: whoever else records the tag has been deleted
by then, because another release with an image came in between. -/
def Db.Asks (r : ReleaseId) : Prop :=
  db.Outdated r ∧ db.Own c r ∧ ∃ rel, db.releases.row r = some rel ∧
    o.foreignImage (db.builtTag rel) = false ∧ ∀ s, s ≠ r → db.Records s (db.builtTag rel) →
      db.Outdated s ∧ ¬ db.Own c s ∧
        ∃ q, db.Outdated q ∧ db.Own c q ∧ db.createdAt r < db.createdAt q ∧ db.createdAt q < db.createdAt s

end Rows

/-- The pruning has deleted what was due, and every image that the agent has removed on its command
(`removed`) bears a tag that no release records any more. -/
structure PrunedExactly (o : Oracle) (c : HealerYaml) (removed : ReleaseId → Bool) (w w' : World) : Prop where
  deleted : ∀ r, w.db.Due c o r → w'.db.releases.row r = none
  kept : ∀ r, ¬ w.db.Due c o r → w'.db.releases.row r = w.db.releases.row r
  images : ∀ e ∈ w'.trace.drop w.trace.length, ∀ agent r slug ref tag,
    e.event = .submitted agent (.cleanupImage r) (.cleanupImage slug ref) →
    handleCleanup (cleanupPayload slug ref) = .ok tag → removed r = true →
      o.foreignImage tag = false ∧ ∀ s, ¬ w'.db.Records s tag

/-! The order of the loop. -/

variable {r : ReleaseId}

section Order

variable {db : Db}

/-- No two READY releases were created at the same time. -/
def Db.Distinct (db : Db) : Prop :=
  ∀ r ∈ db.readyReleases, ∀ r' ∈ db.readyReleases, db.createdAt r = db.createdAt r' → r = r'

instance : Decidable db.Distinct :=
  inferInstanceAs (Decidable (∀ r ∈ db.readyReleases, ∀ r' ∈ db.readyReleases, _ = _ → _ = _))

theorem descending_ready (h : db.Distinct) :
    (db.readyReleases.insertionSort fun r r' => db.createdAt r' ≤ db.createdAt r).Pairwise
      fun r r' => db.createdAt r' < db.createdAt r := by
  set l := db.readyReleases.insertionSort fun r r' => db.createdAt r' ≤ db.createdAt r with hl
  have hperm : l.Perm db.readyReleases := perm_insertionSort _ _
  have hsorted : l.Pairwise fun r r' => db.createdAt r' ≤ db.createdAt r := by
    have : Std.Total fun r r' => db.createdAt r' ≤ db.createdAt r := ⟨fun a b => le_total _ _⟩
    have : IsTrans ReleaseId fun r r' => db.createdAt r' ≤ db.createdAt r := ⟨fun a b c hab hbc => hbc.trans hab⟩
    exact pairwise_insertionSort _ _
  have hnodup : l.Nodup := hperm.nodup_iff.mpr (Table.select_nodup _ _)
  refine (hsorted.and hnodup).imp_of_mem fun {r r'} hr hr' hle => lt_of_le_of_ne hle.1 fun heq => hle.2 ?_
  exact h r (hperm.mem_iff.mp hr) r' (hperm.mem_iff.mp hr') heq.symm

theorem descending_prunable (h : db.Distinct) :
    db.prunable.Pairwise fun r r' => db.createdAt r' < db.createdAt r :=
  (descending_ready h).sublist (drop_sublist _ _)

theorem mem_prunable (h : db.Distinct) :
    r ∈ db.prunable ↔ r ∈ db.readyReleases ∧ max db.application.releaseRetentionCount 1 ≤
      (db.readyReleases.filter fun r' => db.createdAt r < db.createdAt r').length := by
  set l := db.readyReleases.insertionSort fun r r' => db.createdAt r' ≤ db.createdAt r with hl
  have hperm : l.Perm db.readyReleases := perm_insertionSort _ _
  have hlen : (l.filter fun r' => decide (db.createdAt r < db.createdAt r')).length =
      (db.readyReleases.filter fun r' => db.createdAt r < db.createdAt r').length := (hperm.filter _).length_eq
  change r ∈ l.drop _ ↔ _
  constructor
  · intro hr
    have hmem := mem_of_mem_drop hr
    rw [mem_drop_of_descending (descending_ready h) hmem, hlen] at hr
    exact ⟨hperm.mem_iff.mp hmem, hr⟩
  · rintro ⟨hr, hcount⟩
    rw [mem_drop_of_descending (descending_ready h) (hperm.mem_iff.mpr hr), hlen]
    exact hcount

theorem outdated_iff (h : db.Distinct) :
    db.Outdated r ↔ r ∈ db.prunable ∧ db.application.activeReleaseId ≠ some r := by
  rw [mem_prunable h, Db.Outdated]
  tauto

end Order

/-! What a command and a flush leave. -/

/-- The commands to remove an image. -/
def Event.cleanup : Event → Option (ServerId × ReleaseId × Command)
  | .submitted agent (.cleanupImage r) command => some (agent, r, command)
  | _ => none

def World.cleanups (w : World) : List (ServerId × ReleaseId × Command) := w.events.filterMap Event.cleanup

theorem cleanups_emit (w : World) (e : Event) : (w.emit e).cleanups = w.cleanups ++ e.cleanup.toList := by
  rw [World.cleanups, emit_events, filterMap_append, World.cleanups]
  cases h : e.cleanup <;> simp [h]

@[simp] theorem cleanups_setDb (w : World) (db : Db) : (w.setDb db).cleanups = w.cleanups := rfl

theorem cleanups_of_calm {w w' : World} (h : Calm w w') : w'.cleanups = w.cleanups := by
  obtain ⟨es, hes, hback⟩ := h.news.entries
  have hnone : (es.map Entry.event).filterMap Event.cleanup = [] := by
    rw [filterMap_eq_nil_iff]
    intro e he
    obtain ⟨x, hx, rfl⟩ := mem_map.mp he
    have hx := hback x hx
    cases hev : x.event <;> simp_all [Entry.background, Event.background, Event.cleanup]
  rw [World.cleanups, World.events, hes, map_append, filterMap_append, hnone, append_nil]
  rfl

/-- `w'` differs from `w` in nothing that the loop reads. -/
structure SameBoard (w w' : World) : Prop where
  releases : w'.db.releases = w.db.releases
  active : w'.db.application.activeReleaseId = w.db.application.activeReleaseId
  slug : w'.db.application.slug = w.db.application.slug

theorem SameBoard.suspend (o : Oracle) (w : World) : SameBoard w (w.suspend o) := by
  have hcore := (calm_suspend o w).core
  exact ⟨congrArg Core.releases hcore, congrArg Core.active hcore, congrArg (fun f => f.2.2) (backgrounds_fixed o _ w)⟩

theorem submit_cleanup (o : Oracle) (agent : ServerId) (r : ReleaseId) (command : Command) (w : World) :
    Ends (submitCommandAndWait o agent (.cleanupImage r) command w)
      (fun row w' => o.reply (.cleanupImage r) = .row row ∧ SameBoard w w' ∧
        w'.cleanups = w.cleanups ++ [(agent, r, command)])
      (fun _ w' => (∀ row, o.reply (.cleanupImage r) ≠ .row row) ∧ SameBoard w w' ∧
        w'.cleanups = w.cleanups ++ [(agent, r, command)]) := by
  set u := (w.emit .commit).emit (.submitted agent (.cleanupImage r) command) with hu
  have hsame := SameBoard.suspend o u
  have hboard : ∀ e : Event, SameBoard w ((u.suspend o).emit e) := fun _ => ⟨hsame.releases, hsame.active, hsame.slug⟩
  have hsent : ∀ e : Event, e.cleanup = none →
      ((u.suspend o).emit e).cleanups = w.cleanups ++ [(agent, r, command)] := by
    intro e he
    rw [cleanups_emit, he, cleanups_of_calm (calm_suspend o u), hu, cleanups_emit, cleanups_emit]
    simp [Event.cleanup]
  simp only [submitCommandAndWait, ends_bind, ends_commit, ends_emit, ends_suspend, ← hu]
  cases hr : o.reply (.cleanupImage r) with
  | row row => exact ⟨rfl, hboard _, hsent _ rfl⟩
  | sendFailed error => exact ⟨(fun row h => by cases h), hboard _, hsent _ rfl⟩

theorem log_board (d : DeploymentId) (level : LogLevel) (message : String) (w : World) :
    Ends (log d level message w) (fun _ w' => SameBoard w w' ∧ w'.cleanups = w.cleanups) (fun _ _ => False) := by
  refine ⟨⟨rfl, rfl, rfl⟩, ?_⟩
  change ((w.setDb _).emit .commit).cleanups = _
  rw [cleanups_emit]
  simp [Event.cleanup]

theorem SameBoard.trans {a b c : World} (h : SameBoard a b) (h' : SameBoard b c) : SameBoard a c :=
  ⟨h'.releases.trans h.releases, h'.active.trans h.active, h'.slug.trans h.slug⟩

theorem flush_row (pending : List ReleaseId) (db : Db) (r : ReleaseId) :
    (pending.foldl Db.deleteRelease db).releases.row r = if r ∈ pending then none else db.releases.row r := by
  induction pending generalizing db with
  | nil => simp
  | cons p pending ih =>
    have hone : (db.deleteRelease p).releases.row r = if r = p then none else db.releases.row r := rfl
    rw [foldl_cons, ih, hone]
    by_cases hp : r = p <;> simp [hp]

theorem flush_slug (pending : List ReleaseId) (db : Db) :
    (pending.foldl Db.deleteRelease db).application.slug = db.application.slug := by
  induction pending generalizing db with
  | nil => rfl
  | cons p pending ih => exact ih _

/-! The loop. -/

section Loop

variable {o : Oracle} {c : HealerYaml} {agent : ServerId} {w₀ w : World} {done rs pending : List ReleaseId}
  {r : ReleaseId}

/-- What the loop deletes. -/
def Db.Gone (db : Db) (c : HealerYaml) (o : Oracle) (r : ReleaseId) : Prop :=
  db.Outdated r ∧ (¬ db.Own c r ∨ db.Asks c o r ∧ o.cleaned r)

/-- After the releases in `done`: those deleted since the last release with an image are pending, the
others are gone. -/
structure Progress (o : Oracle) (c : HealerYaml) (agent : ServerId) (w₀ : World) (done rs pending : List ReleaseId)
    (w : World) : Prop where
  split : w₀.db.prunable = done ++ rs
  active : w.db.application.activeReleaseId = w₀.db.application.activeReleaseId
  slug : w.db.application.slug = w₀.db.application.slug
  gone : ∀ r ∈ done, w₀.db.Gone c o r → r ∉ pending → w.db.releases.row r = none
  there : ∀ r, (r ∈ done → w₀.db.Gone c o r → r ∈ pending) → w.db.releases.row r = w₀.db.releases.row r
  pending_iff : ∀ r, r ∈ pending ↔ r ∈ done ∧ w₀.db.Gone c o r ∧
    ∀ q ∈ done, w₀.db.Outdated q → w₀.db.Own c q → ¬ w₀.db.createdAt q < w₀.db.createdAt r
  asked : ∃ new, w.cleanups = w₀.cleanups ++ new ∧ ∀ x, x ∈ new ↔ ∃ r rel, r ∈ done ∧ w₀.db.Asks c o r ∧
    w₀.db.releases.row r = some rel ∧ x = (agent, r, .cleanupImage w₀.db.application.slug rel.ref)

theorem Progress.row_cases (h : Progress o c agent w₀ done rs pending w) (r : ReleaseId) :
    w.db.releases.row r = none ∨ w.db.releases.row r = w₀.db.releases.row r := by
  by_cases hr : r ∈ done ∧ w₀.db.Gone c o r ∧ r ∉ pending
  · exact Or.inl (h.gone r hr.1 hr.2.1 hr.2.2)
  · refine Or.inr (h.there r fun hd hg => ?_)
    by_contra hp
    exact hr ⟨hd, hg, hp⟩

theorem Progress.records (h : Progress o c agent w₀ done rs pending w) {tag : String} (hr : w.db.Records r tag) :
    w₀.db.Records r tag := by
  obtain ⟨rel, hrow, himage⟩ := hr
  rcases h.row_cases r with hnone | hsame
  · rw [hnone] at hrow
    cases hrow
  · exact ⟨rel, hsame ▸ hrow, himage⟩

theorem Progress.later (hd : w₀.db.Distinct) (h : Progress o c agent w₀ done (r :: rs) pending w) :
    (∀ q ∈ done, w₀.db.createdAt r < w₀.db.createdAt q) ∧ ∀ q ∈ rs, w₀.db.createdAt q < w₀.db.createdAt r := by
  have hsorted := descending_prunable hd
  rw [h.split, pairwise_append, pairwise_cons] at hsorted
  exact ⟨fun q hq => hsorted.2.2 q hq r (by simp), hsorted.2.1.1⟩

theorem Progress.not_done (hd : w₀.db.Distinct) (h : Progress o c agent w₀ done (r :: rs) pending w) : r ∉ done :=
  fun hr => lt_irrefl _ ((h.later hd).1 r hr)

/-- The row of the next release is still the one of the start. -/
theorem Progress.next_row (hd : w₀.db.Distinct) (h : Progress o c agent w₀ done (r :: rs) pending w) :
    w.db.releases.row r = w₀.db.releases.row r :=
  h.there r fun hr => absurd hr (h.not_done hd)

/-- A release before `r` in time is before it in the loop. -/
theorem Progress.mem_done (hd : w₀.db.Distinct) (h : Progress o c agent w₀ done (r :: rs) pending w) {q : ReleaseId}
    (hq : w₀.db.Outdated q) (hlt : w₀.db.createdAt r < w₀.db.createdAt q) : q ∈ done := by
  have hmem := ((outdated_iff hd).mp hq).1
  rw [h.split, mem_append, mem_cons] at hmem
  rcases hmem with hmem | rfl | hmem
  · exact hmem
  · exact absurd hlt (lt_irrefl _)
  · exact absurd hlt ((h.later hd).2 q hmem).not_gt

/-- The query for the tag finds no other release exactly when the agent is to be asked. -/
theorem Progress.asks_iff (hd : w₀.db.Distinct) (h : Progress o c agent w₀ done (r :: rs) pending w)
    (hr : w₀.db.Outdated r) {rel : Release} (hrow : w₀.db.releases.row r = some rel) (hown : w₀.db.Own c r) :
    w₀.db.Asks c o r ↔ o.foreignImage (w₀.db.builtTag rel) = false ∧
      ∀ s, s ≠ r → ¬ w.db.Records s (w₀.db.builtTag rel) := by
  have hrec : w₀.db.Records r (w₀.db.builtTag rel) := by
    obtain ⟨-, rel', hrow', himage⟩ := hown
    rw [hrow] at hrow'
    cases hrow'
    exact ⟨rel, hrow, himage⟩
  constructor
  · rintro ⟨-, -, rel', hrow', hforeign, hothers⟩
    rw [hrow] at hrow'
    cases hrow'
    refine ⟨hforeign, fun s hs hrecs => ?_⟩
    obtain ⟨hout, hnot, q, hq, hqown, hrq, hqs⟩ := hothers s hs (h.records hrecs)
    have hsdone := h.mem_done hd hout (hrq.trans hqs)
    have hflushed : s ∉ pending := fun hp =>
      ((h.pending_iff s).mp hp).2.2 q (h.mem_done hd hq hrq) hq hqown hqs
    obtain ⟨rels, hrels, -⟩ := hrecs
    rw [h.gone s hsdone ⟨hout, Or.inl hnot⟩ hflushed] at hrels
    cases hrels
  · rintro ⟨hforeign, hnone⟩
    refine ⟨hr, hown, rel, hrow, hforeign, fun s hs hrecs => ?_⟩
    have hgone : s ∈ done ∧ w₀.db.Gone c o s ∧ s ∉ pending := by
      by_contra hnot
      refine hnone s hs ?_
      obtain ⟨rels, hrels, himage⟩ := hrecs
      refine ⟨rels, ?_, himage⟩
      rw [h.there s fun hsd hsg => by_contra fun hp => hnot ⟨hsd, hsg, hp⟩]
      exact hrels
    obtain ⟨hsdone, ⟨hout, hcase⟩, hp⟩ := hgone
    have hnot : ¬ w₀.db.Own c s := by
      rcases hcase with hnot | ⟨⟨-, hsown, rels, hrels, -, hothers⟩, -⟩
      · exact hnot
      · -- two releases with the same built tag keep each other
        obtain ⟨rels', hrels', himage⟩ := hrecs
        rw [hrels] at hrels'
        cases hrels'
        obtain ⟨-, rels', hrels', hown'⟩ := hsown
        rw [hrels] at hrels'
        cases hrels'
        have htag : w₀.db.builtTag rels = w₀.db.builtTag rel := Option.some.inj (hown'.symm.trans himage)
        exact absurd hown (hothers r hs.symm (htag ▸ hrec)).2.1
    have hafter : ∃ q ∈ done, w₀.db.Outdated q ∧ w₀.db.Own c q ∧ w₀.db.createdAt q < w₀.db.createdAt s := by
      by_contra hno
      push Not at hno
      exact hp ((h.pending_iff s).mpr ⟨hsdone, ⟨hout, hcase⟩, fun q hq hqo hqown hlt =>
        absurd hlt (hno q hq hqo hqown).not_gt⟩)
    obtain ⟨q, hq, hqo, hqown, hqs⟩ := hafter
    exact ⟨hout, hnot, q, hqo, hqown, (h.later hd).1 q hq, hqs⟩

variable {pending' : List ReleaseId}

/-- One release further: a release with an image writes the pending deletes out. -/
theorem Progress.advance (hd : w₀.db.Distinct) (h : Progress o c agent w₀ done (r :: rs) pending w) {u : World}
    
    (hactive : u.db.application.activeReleaseId = w.db.application.activeReleaseId)
    (hslug : u.db.application.slug = w.db.application.slug)
    (hrows : ∀ s, u.db.releases.row s = if s ∈ pending ∧ s ∉ pending' then none else w.db.releases.row s)
    (hpending : ∀ s, s ∈ pending' ↔ (s ∈ pending ∧ ¬ (w₀.db.Outdated r ∧ w₀.db.Own c r)) ∨ s = r ∧ w₀.db.Gone c o r)
    (hasked : ∃ new, u.cleanups = w.cleanups ++ new ∧ ∀ x, x ∈ new ↔ w₀.db.Asks c o r ∧
      ∃ rel, w₀.db.releases.row r = some rel ∧ x = (agent, r, .cleanupImage w₀.db.application.slug rel.ref)) :
    Progress o c agent w₀ (done ++ [r]) rs pending' u := by
  have hnot := h.not_done hd
  have hlater := (h.later hd).1
  refine ⟨by simp [h.split], hactive.trans h.active, hslug.trans h.slug, ?_, ?_, ?_, ?_⟩
  · intro s hs hg hp
    rw [hrows]
    rcases mem_append.mp hs with hs | hs
    · split
      · rfl
      next hno => exact h.gone s hs hg fun hsp => hno ⟨hsp, hp⟩
    · obtain rfl := mem_singleton.mp hs
      exact absurd ((hpending s).mpr (Or.inr ⟨rfl, hg⟩)) hp
  · intro s hs
    have hsame : ¬ (s ∈ pending ∧ s ∉ pending') := by
      rintro ⟨hsp, hsp'⟩
      obtain ⟨hsd, hg, -⟩ := (h.pending_iff s).mp hsp
      exact hsp' (hs (mem_append_left _ hsd) hg)
    rw [hrows, if_neg hsame]
    refine h.there s fun hsd hg => ?_
    rcases (hpending s).mp (hs (mem_append_left _ hsd) hg) with ⟨hsp, -⟩ | ⟨rfl, -⟩
    · exact hsp
    · exact absurd hsd hnot
  · intro s
    rw [hpending, h.pending_iff]
    constructor
    · rintro (⟨⟨hsd, hg, hq⟩, hbuilt⟩ | ⟨rfl, hg⟩)
      · refine ⟨mem_append_left _ hsd, hg, fun q hqd hqo hqown => ?_⟩
        rcases mem_append.mp hqd with hqd | hqd
        · exact hq q hqd hqo hqown
        · obtain rfl := mem_singleton.mp hqd
          exact absurd ⟨hqo, hqown⟩ hbuilt
      · refine ⟨by simp, hg, fun q hqd _ _ => ?_⟩
        rcases mem_append.mp hqd with hqd | hqd
        · exact (hlater q hqd).not_gt
        · obtain rfl := mem_singleton.mp hqd
          exact lt_irrefl _
    · rintro ⟨hsd, hg, hq⟩
      rcases mem_append.mp hsd with hsd | hsd
      · refine Or.inl ⟨⟨hsd, hg, fun q hqd => hq q (mem_append_left _ hqd)⟩, fun hbuilt => ?_⟩
        exact hq r (by simp) hbuilt.1 hbuilt.2 (hlater s hsd)
      · exact Or.inr ⟨mem_singleton.mp hsd, mem_singleton.mp hsd ▸ hg⟩
  · obtain ⟨new, hnew, hmem⟩ := h.asked
    obtain ⟨more, hmore, hmem'⟩ := hasked
    refine ⟨new ++ more, by rw [hmore, hnew, append_assoc], fun x => ?_⟩
    rw [mem_append, hmem, hmem']
    constructor
    · rintro (⟨s, rel, hs, ha, hrow, rfl⟩ | ⟨ha, rel, hrow, rfl⟩)
      · exact ⟨s, rel, mem_append_left _ hs, ha, hrow, rfl⟩
      · exact ⟨r, rel, by simp, ha, hrow, rfl⟩
    · rintro ⟨s, rel, hs, ha, hrow, rfl⟩
      rcases mem_append.mp hs with hs | hs
      · exact Or.inl ⟨s, rel, hs, ha, hrow, rfl⟩
      · obtain rfl := mem_singleton.mp hs
        exact Or.inr ⟨ha, rel, hrow, rfl⟩

/-- What the whole loop leaves. -/
structure LoopDone (o : Oracle) (c : HealerYaml) (agent : ServerId) (w₀ w' : World) : Prop where
  gone : ∀ r, w₀.db.Gone c o r → w'.db.releases.row r = none
  there : ∀ r, ¬ w₀.db.Gone c o r → w'.db.releases.row r = w₀.db.releases.row r
  asked : ∃ new, w'.cleanups = w₀.cleanups ++ new ∧ ∀ x, x ∈ new ↔ ∃ r rel, w₀.db.Asks c o r ∧
    w₀.db.releases.row r = some rel ∧ x = (agent, r, .cleanupImage w₀.db.application.slug rel.ref)

theorem Progress.finish (hd : w₀.db.Distinct) (h : Progress o c agent w₀ done [] pending w) :
    LoopDone o c agent w₀ ((w.setDb (pending.foldl Db.deleteRelease w.db)).emit .commit) := by
  have hall : ∀ r, w₀.db.Outdated r → r ∈ done := by
    intro r hr
    have hmem := ((outdated_iff hd).mp hr).1
    rwa [h.split, append_nil] at hmem
  refine ⟨fun r hg => ?_, fun r hg => ?_, ?_⟩
  · change (pending.foldl Db.deleteRelease w.db).releases.row r = none
    rw [flush_row]
    split
    · rfl
    next hp => exact h.gone r (hall r hg.1) hg hp
  · change (pending.foldl Db.deleteRelease w.db).releases.row r = _
    rw [flush_row, if_neg fun hp => hg ((h.pending_iff r).mp hp).2.1]
    exact h.there r fun _ hg' => absurd hg' hg
  · obtain ⟨new, hnew, hmem⟩ := h.asked
    refine ⟨new, ?_, fun x => ?_⟩
    · rw [cleanups_emit]
      simpa [Event.cleanup] using hnew
    · rw [hmem]
      constructor
      · rintro ⟨r, rel, -, ha, hrow, rfl⟩
        exact ⟨r, rel, ha, hrow, rfl⟩
      · rintro ⟨r, rel, ha, hrow, rfl⟩
        exact ⟨r, rel, hall r ha.1, ha, hrow, rfl⟩

theorem Progress.start (w₀ : World) : Progress o c agent w₀ [] w₀.db.prunable [] w₀ :=
  ⟨rfl, rfl, rfl, by simp, fun _ _ => rfl, by simp, [], by simp, by simp⟩

/-- The active release is passed over, and one without an image of its own joins the deletes. -/
theorem Progress.unbuilt (hd : w₀.db.Distinct) (h : Progress o c agent w₀ done (r :: rs) pending w)
    (hnot : ¬ (w₀.db.Outdated r ∧ w₀.db.Own c r))
    (hpending : ∀ s, s ∈ pending' ↔ s ∈ pending ∨ s = r ∧ w₀.db.Outdated r) :
    Progress o c agent w₀ (done ++ [r]) rs pending' w := by
  have hgone : w₀.db.Gone c o r ↔ w₀.db.Outdated r :=
    ⟨fun hg => hg.1, fun hr => ⟨hr, Or.inl fun hown => hnot ⟨hr, hown⟩⟩⟩
  refine h.advance hd rfl rfl (fun s => ?_) (fun s => ?_) ⟨[], by simp, fun x => ?_⟩
  · rw [if_neg]
    exact fun hs => hs.2 ((hpending s).mpr (Or.inl hs.1))
  · rw [hpending, hgone]
    simp [hnot]
  · simp only [not_mem_nil, false_iff, not_and]
    exact fun ha => absurd ⟨ha.1, ha.2.1⟩ hnot

/-- A release with an image: the pending deletes are written out, and it is deleted if its image is
gone. -/
theorem Progress.built (hd : w₀.db.Distinct) (h : Progress o c agent w₀ done (r :: rs) pending w)
    (hr : w₀.db.Outdated r) (hown : w₀.db.Own c r) {u : World}
    (hboard : SameBoard (w.setDb (pending.foldl Db.deleteRelease w.db)) u)
    (hpending : ∀ s, s ∈ pending' ↔ s = r ∧ w₀.db.Asks c o r ∧ o.cleaned r)
    (hasked : ∃ new, u.cleanups = w.cleanups ++ new ∧ ∀ x, x ∈ new ↔ w₀.db.Asks c o r ∧
      ∃ rel, w₀.db.releases.row r = some rel ∧ x = (agent, r, .cleanupImage w₀.db.application.slug rel.ref)) :
    Progress o c agent w₀ (done ++ [r]) rs pending' u := by
  have hkeep : ∀ p ∈ pending, w.db.application.activeReleaseId ≠ some p := by
    intro p hp
    rw [h.active]
    exact ((h.pending_iff p).mp hp).2.1.1.2.1
  have hflush := (flush_spec agent pending w hkeep).1.core.active
  refine h.advance hd (hboard.active.trans hflush) (hboard.slug.trans (flush_slug _ _)) (fun s => ?_) (fun s => ?_) hasked
  · rw [hboard.releases, setDb_db, flush_row]
    have hsame : s ∈ pending ∧ s ∉ pending' ↔ s ∈ pending := by
      refine ⟨And.left, fun hs => ⟨hs, fun hs' => ?_⟩⟩
      obtain rfl := ((hpending s).mp hs').1
      exact h.not_done hd ((h.pending_iff s).mp hs).1
    simp only [hsame]
  · rw [hpending, Db.Gone]
    simp [hr, hown]

theorem pruneLoop_exact (hd : w₀.db.Distinct) (d : DeploymentId) (rs : List ReleaseId) :
    ∀ (done pending : List ReleaseId) (w : World), Progress o c agent w₀ done rs pending w →
      Ends (pruneLoop o d agent c rs pending w) (fun _ => LoopDone o c agent w₀) (fun _ _ => False) := by
  induction rs with
  | nil =>
    intro done pending w h
    exact h.finish hd
  | cons r rs ih =>
    intro done pending w h
    have hmem : r ∈ w₀.db.prunable := by simp [h.split]
    obtain ⟨rel, hrow, -⟩ := Table.mem_select.mp ((mem_prunable hd).mp hmem).1
    have hrow' := (h.next_row hd).trans hrow
    simp only [pruneLoop, ends_bind, ends_getDb, ends_ite, ends_getRelease hrow', h.slug, h.active]
    refine ⟨fun hact => ?_, fun hact => ⟨fun hown => ?_, fun hown => ?_⟩⟩
    · have hnot : ¬ w₀.db.Outdated r := fun hr => hr.2.1 hact
      exact ih _ _ _ (h.unbuilt hd (fun hb => hnot hb.1) fun s => by simp [hnot])
    · have hr : w₀.db.Outdated r := (outdated_iff hd).mpr ⟨hmem, hact⟩
      have hown : w₀.db.Own c r := ⟨hown.1, rel, hrow, hown.2⟩
      have hasks := h.asks_iff hd hr hrow hown
      have hshared : ((w.db.releases.select fun rel' => rel'.imageRef == some (w₀.db.builtTag rel)).any (· != r) ||
          o.foreignImage (w₀.db.builtTag rel)) = true ↔ ¬ w₀.db.Asks c o r := by
        rw [hasks]
        simp only [Bool.or_eq_true, any_eq_true, Table.mem_select, bne_iff_ne, ne_eq, beq_iff_eq, Db.Records,
          not_and_or, not_forall, Bool.not_eq_false]
        constructor
        · rintro (⟨s, hrec, hs⟩ | hf)
          · exact Or.inr ⟨s, hs, not_not.mpr hrec⟩
          · exact Or.inl hf
        · rintro (hf | ⟨s, hs, hrec⟩)
          · exact Or.inr hf
          · exact Or.inl ⟨s, not_not.mp hrec, hs⟩
      simp only [flushDeletes, ends_modifyDb]
      set u := w.setDb (pending.foldl Db.deleteRelease w.db) with hu
      have hkept : ∀ {v : World} (new : List (ServerId × ReleaseId × Command)) (message : String),
          SameBoard u v → v.cleanups = w.cleanups ++ new →
          (∀ x, x ∈ new ↔ w₀.db.Asks c o r ∧ ∃ rel, w₀.db.releases.row r = some rel ∧
            x = (agent, r, .cleanupImage w₀.db.application.slug rel.ref)) →
          ¬ (w₀.db.Asks c o r ∧ o.cleaned r) →
          Ends ((do log d .warning message; pruneLoop o d agent c rs [] : M Unit) v)
            (fun _ => LoopDone o c agent w₀) (fun _ _ => False) := by
        intro v new message hboard hnew hmem hnot
        refine Ends.bind (log_board d .warning message v) (fun _ v' hv' => ?_) (fun _ _ h => h)
        refine ih _ _ _ (h.built hd hr hown (hboard.trans hv'.1) (fun s => ?_) ⟨new, hv'.2.trans hnew, hmem⟩)
        simp [hnot]
      refine ⟨fun hsh => ?_, fun hsh => ?_⟩
      · have hnot := hshared.mp hsh
        exact (ends_bind _).1 (hkept [] _ ⟨rfl, rfl, rfl⟩ (by simp [hu]) (fun x => by simp [hnot])
          fun hn => hnot hn.1)
      · have ha : w₀.db.Asks c o r := by_contra fun hn => hsh (hshared.mpr hn)
        have hnew : ∀ x, x ∈ [(agent, r, Command.cleanupImage w₀.db.application.slug rel.ref)] ↔ w₀.db.Asks c o r ∧
            ∃ rel, w₀.db.releases.row r = some rel ∧
              x = (agent, r, .cleanupImage w₀.db.application.slug rel.ref) := by
          intro x
          simp [ha, hrow]
        rw [ends_attempt]
        refine (submit_cleanup o agent r _ u).mono ?_ ?_
        · rintro row v ⟨hreply, hboard, hsent⟩
          have hcleaned : o.cleaned r ↔ row.status = .succeeded ∧ (row.result.map CommandResult.ok).getD false := by
            simp [Oracle.cleaned, hreply]
          rw [ends_ite]
          refine ⟨fun hok => ?_, fun hok => ?_⟩
          · refine ih _ _ _ (h.built hd hr hown hboard (fun s => ?_) ⟨_, hsent, hnew⟩)
            simp [ha, hcleaned.mpr hok]
          · exact hkept _ _ hboard hsent hnew fun hn => hok (hcleaned.mp hn.2)
        · rintro e v ⟨hreply, hboard, hsent⟩
          exact hkept _ _ hboard hsent hnew fun hn => hn.2.elim fun row hrow => hreply row hrow.1
    · have hr : w₀.db.Outdated r := (outdated_iff hd).mpr ⟨hmem, hact⟩
      have hnot : ¬ w₀.db.Own c r := by
        rintro ⟨hc, rel', hrel', himage⟩
        rw [hrow] at hrel'
        cases hrel'
        exact hown ⟨hc, himage⟩
      exact ih _ _ _ (h.unbuilt hd (fun hb => hnot hb.2) fun s => by simp [hr])

end Loop

theorem handleCleanup_tag {p : CleanupPayload} {tag : String} (h : handleCleanup p = .ok tag) :
    tag = cleanupLinuxImage p := by
  unfold handleCleanup at h
  cases hv : validateCleanupPayload p with
  | error e =>
    rw [hv] at h
    cases h
  | ok u =>
    rw [hv] at h
    cases h
    rfl

section Exact

variable {o : Oracle} {c : HealerYaml} {agent : ServerId} {w w' : World}

/-- The agent makes up the tag as the control plane does. -/
theorem cleanup_tag_eq {rel : Release} {tag : String}
    (h : handleCleanup (cleanupPayload w.db.application.slug rel.ref) = .ok tag) : tag = w.db.builtTag rel :=
  handleCleanup_tag h

/-- The commands among the new entries are those the loop has sent. -/
theorem LoopDone.sent (h : LoopDone o c agent w w') {es : List Entry} (hes : w'.trace = w.trace ++ es)
    {a : ServerId} {command : Command} :
    (∃ e ∈ w'.trace.drop w.trace.length, e.event = .submitted a (.cleanupImage r) command) ↔
      ∃ rel, w.db.Asks c o r ∧ w.db.releases.row r = some rel ∧ a = agent ∧
        command = .cleanupImage w.db.application.slug rel.ref := by
  obtain ⟨new, hnew, hmem⟩ := h.asked
  have hnews : new = (es.map Entry.event).filterMap Event.cleanup := by
    have happ : w'.cleanups = w.cleanups ++ (es.map Entry.event).filterMap Event.cleanup := by
      rw [World.cleanups, World.events, hes, map_append, filterMap_append]
      rfl
    exact append_cancel_left (hnew.symm.trans happ)
  have hone : ∀ e : Event, e.cleanup = some (a, r, command) ↔ e = .submitted a (.cleanupImage r) command := by
    intro e
    constructor
    · intro he
      unfold Event.cleanup at he
      split at he
      · cases he
        rfl
      · cases he
    · rintro rfl
      rfl
  have hiff := hmem (a, r, command)
  rw [hnews, mem_filterMap] at hiff
  simp only [mem_map, hone] at hiff
  rw [hes, drop_left]
  constructor
  · rintro ⟨e, he, hev⟩
    obtain ⟨s, rel, ha, hrow, heq⟩ := hiff.mp ⟨_, ⟨e, he, rfl⟩, hev⟩
    cases heq
    exact ⟨rel, ha, hrow, rfl, rfl⟩
  · rintro ⟨rel, ha, hrow, rfl, rfl⟩
    obtain ⟨-, ⟨e, he, rfl⟩, hev⟩ := hiff.mpr ⟨r, rel, ha, hrow, rfl⟩
    exact ⟨e, he, hev⟩

theorem Asks.records {rel : Release} (h : w.db.Asks c o r) (hrow : w.db.releases.row r = some rel) :
    rel.imageRef = some (w.db.builtTag rel) := by
  obtain ⟨-, ⟨-, rel', hrow', himage⟩, -⟩ := h
  rw [hrow] at hrow'
  cases hrow'
  exact himage

/-- What the loop deletes is due, when no confirmed cleanup was of a tag that others recorded. -/
theorem gone_iff_due (hshared : ∀ r rel, w.db.Asks c o r → w.db.releases.row r = some rel → o.cleaned r →
    ∀ s, s ≠ r → ¬ w.db.Records s (w.db.builtTag rel)) (r : ReleaseId) : w.db.Gone c o r ↔ w.db.Due c o r := by
  constructor
  · rintro ⟨hr, hnot | ⟨ha, hok⟩⟩
    · exact ⟨hr, Or.inl hnot⟩
    · obtain ⟨-, -, rel, hrow, hforeign, -⟩ := id ha
      exact ⟨hr, Or.inr ⟨rel, hrow, hforeign, hshared r rel ha hrow hok, hok⟩⟩
  · rintro ⟨hr, hcase⟩
    by_cases hown : w.db.Own c r
    · obtain ⟨rel, hrow, hforeign, halone, hok⟩ := hcase.resolve_left (not_not.mpr hown)
      exact ⟨hr, Or.inr ⟨⟨hr, hown, rel, hrow, hforeign, fun s hs hrec => absurd hrec (halone s hs)⟩, hok⟩⟩
    · exact ⟨hr, Or.inl hown⟩

theorem LoopDone.exactly_iff (h : LoopDone o c agent w w') {es : List Entry} (hes : w'.trace = w.trace ++ es)
    (removed : ReleaseId → Bool) :
    PrunedExactly o c removed w w' ↔ ∀ r rel, w.db.Asks c o r → w.db.releases.row r = some rel →
      (o.cleaned r → ∀ s, s ≠ r → ¬ w.db.Records s (w.db.builtTag rel)) ∧
        (removed r = true →
          (∃ tag, handleCleanup (cleanupPayload w.db.application.slug rel.ref) = .ok tag) → o.cleaned r) := by
  constructor
  · intro hp r rel ha hrow
    refine ⟨fun hok => ?_, fun hrem haccept => ?_⟩
    · have hnone := h.gone r ⟨ha.1, Or.inr ⟨ha, hok⟩⟩
      have hdue : w.db.Due c o r := by
        by_contra hnot
        have hkept := hp.kept r hnot
        rw [hnone, hrow] at hkept
        cases hkept
      obtain ⟨rel', hrow', -, halone, -⟩ := hdue.2.resolve_left (not_not.mpr ha.2.1)
      rw [hrow] at hrow'
      cases hrow'
      exact halone
    · by_contra hnot
      obtain ⟨tag, htag⟩ := haccept
      obtain ⟨e, he, hev⟩ := (h.sent hes).mpr ⟨rel, ha, hrow, rfl, rfl⟩
      refine (hp.images e he _ _ _ _ _ hev htag hrem).2 r ⟨rel, ?_, ?_⟩
      · rw [h.there r, hrow]
        rintro ⟨-, hown | ⟨-, hok⟩⟩
        · exact hown ha.2.1
        · exact hnot hok
      · rw [cleanup_tag_eq htag]
        exact Asks.records ha hrow
  · intro hcond
    have hgone := gone_iff_due fun r rel ha hrow => (hcond r rel ha hrow).1
    refine ⟨fun r hr => h.gone r ((hgone r).mpr hr), fun r hr => h.there r fun hg => hr ((hgone r).mp hg), ?_⟩
    intro e he a r slug ref tag hev htag hrem
    obtain ⟨rel, ha, hrow, -, hcommand⟩ := (h.sent hes).mp ⟨e, he, hev⟩
    cases hcommand
    obtain ⟨hshared, hdone⟩ := hcond r rel ha hrow
    have hok := hdone hrem ⟨tag, htag⟩
    obtain rfl := cleanup_tag_eq htag
    obtain ⟨-, -, rel', hrow', hforeign, -⟩ := id ha
    rw [hrow] at hrow'
    cases hrow'
    refine ⟨hforeign, fun s hrec => ?_⟩
    obtain ⟨rels, hrels, himage⟩ := hrec
    by_cases hs : w.db.Gone c o s
    · rw [h.gone s hs] at hrels
      cases hrels
    · rw [h.there s hs] at hrels
      by_cases hsr : s = r
      · exact hs (hsr ▸ ⟨ha.1, Or.inr ⟨ha, hok⟩⟩)
      · exact hshared hok s hsr ⟨rels, hrels, himage⟩

/-- The pruning does as it should exactly when every image it has the agent asked for is confirmed as
removed if it was removed, and a confirmed one was nobody else's at the start. -/
theorem prune_deletes_exactly_iff (hd : w.db.Distinct) (d : DeploymentId) (agent : ServerId)
    (removed : ReleaseId → Bool) :
    Ends (pruneOldReleases o d agent c w) (fun _ w' => PrunedExactly o c removed w w') (fun _ _ => False) ↔
      ∀ r rel, w.db.Asks c o r → w.db.releases.row r = some rel →
        (o.cleaned r → ∀ s, s ≠ r → ¬ w.db.Records s (w.db.builtTag rel)) ∧
          (removed r = true →
            (∃ tag, handleCleanup (cleanupPayload w.db.application.slug rel.ref) = .ok tag) → o.cleaned r) := by
  have hloop : Ends (pruneOldReleases o d agent c w) (fun _ => LoopDone o c agent w) (fun _ _ => False) := by
    simp only [pruneOldReleases, ends_bind, ends_getDb]
    exact pruneLoop_exact hd d _ [] [] w (Progress.start w)
  have hspec : Ends (pruneOldReleases o d agent c w) (fun _ => Pruning agent w) (fun _ _ => False) := prune_spec w
  have hboth := hloop.and hspec
  rcases hrun : pruneOldReleases o d agent c w with ⟨e | u, w'⟩
  · rw [hrun] at hboth
    exact hboth.1.elim
  · rw [hrun] at hboth
    obtain ⟨es, hes, -⟩ := hboth.2.news.entries
    exact hboth.1.exactly_iff hes removed

end Exact

namespace Sample

/-- The tag `healer-shop:v0` was built for release 0; release 1 is active, and one is to be kept. -/
def twoBuilt : World :=
  (world none [] 1).setDb { db none [] 1 with
    application := { (db none [] 1).application with activeReleaseId := some 1, releaseRetentionCount := 1 }
    releases := table [⟨"v0", .ready, none, none, some "healer-shop:v0", 0⟩,
      ⟨"v1", .ready, none, none, some "healer-shop:v1", 1⟩] }

/-- The answer to a cleanup does not arrive in time. -/
def cleanupUnanswered : Oracle := { allWell with reply := fun _ => .row ⟨.sent, none, none⟩ }

theorem twoBuilt_distinct : twoBuilt.db.Distinct := by decide +kernel

theorem handleCleanup_v0 : handleCleanup (cleanupPayload "shop" "v0") = .ok "healer-shop:v0" := by rfl

end Sample

open Sample in
theorem prune_deletes_exactly_sample :
    Ends (pruneOldReleases allWell 0 0 onDocker twoBuilt)
      (fun _ w' => PrunedExactly allWell onDocker (fun _ => true) twoBuilt w') (fun _ _ => False) := by
  refine (prune_deletes_exactly_iff twoBuilt_distinct 0 0 _).mpr ?_
  intro r rel ha hrow
  refine ⟨fun _ s hs hrec => ?_, fun _ _ => ⟨okRow, rfl, rfl, rfl⟩⟩
  obtain rfl : r = 0 := by
    have hmem := ((outdated_iff twoBuilt_distinct).mp ha.1).1
    have hlist : twoBuilt.db.prunable = [0] := by decide +kernel
    rwa [hlist, mem_singleton] at hmem
  cases hrow
  obtain ⟨rels, hrels, himage⟩ := hrec
  rcases s with _ | _ | s
  · exact hs rfl
  · cases hrels
    revert himage
    decide +kernel
  · cases hrels

open Sample in
/-- The agent removes the image and its answer is lost: the release stays, with a tag that is gone. -/
theorem prune_keeps_removed_image :
    ¬ Ends (pruneOldReleases cleanupUnanswered 0 0 onDocker twoBuilt)
      (fun _ w' => PrunedExactly cleanupUnanswered onDocker (fun _ => true) twoBuilt w') (fun _ _ => False) := by
  intro h
  have hp := h.ok rfl
  refine (hp.images _ (mem_of_getElem? (i := 1) rfl) 0 0 "shop" "v0" _ rfl handleCleanup_v0 rfl).2 0 ?_
  exact ⟨_, rfl, rfl⟩

end Healer
