import Healer.Proofs.Confinement

/-! The deploys that leave their directories: for each way in which the links are not contained, a disk and a source
with which one of the two steps removes or overwrites something elsewhere. -/

namespace Healer

open Files Prog Function List

namespace Deploy

section Ground

variable (d : Deploy)

/-- Directories that the deploy goes through. -/
def groundPaths : List (List String) :=
  d.home :: (d.w.links.map d.shared ++ d.made.map d.linkPath ++
    d.w.links.flatMap fun link => d.made.flatMap fun other =>
      (d.linkPath other).tails.map (d.shared link ++ ·))

/-- A disk with these directories and nothing else. -/
def ground : Disk String Bytes := fun q =>
  if d.groundPaths.any fun r => q <+: r then some .dir else none

/-- The same with one link, as an earlier deploy has left it. -/
def groundLinked (link : String × String) : Disk String Bytes :=
  Function.update (cut d.ground (d.linkPath link)) (d.linkPath link)
    (some (.link (d.shared link)))

/-- The disk is `ground` except for links of this release and what is behind them. -/
structure Laid (s : State String Bytes) : Prop where
  fails : ∀ k, s.fails k = false
  ground : ∀ q, Clear s.disk q → s.disk q = d.ground q
  links : ∀ q target, s.disk q = some (.link target) →
    ∃ link ∈ d.made, d.Beneath (d.linkPath link) ∧ q = d.linkPath link ∧
      target = d.shared link

end Ground

section Disk

variable {d : Deploy} {s : State String Bytes} {q r : List String} {link other : String × String}

theorem ground_dir (hr : r ∈ d.groundPaths) (hq : q <+: r) : d.ground q = some .dir :=
  if_pos (any_eq_true.2 ⟨r, hr, decide_eq_true hq⟩)

theorem release_mem : d.home ∈ d.groundPaths := mem_cons_self

theorem shared_mem (h : link ∈ d.w.links) : d.shared link ∈ d.groundPaths :=
  mem_cons_of_mem _ (mem_append_left _ (mem_append_left _ (mem_map_of_mem h)))

theorem linkPath_mem (h : link ∈ d.made) : d.linkPath link ∈ d.groundPaths :=
  mem_cons_of_mem _ (mem_append_left _ (mem_append_right _ (mem_map_of_mem h)))

theorem behind_mem (h : link ∈ d.w.links) (ho : other ∈ d.made) (hr : r <:+ d.linkPath other) :
    d.shared link ++ r ∈ d.groundPaths := by
  refine mem_cons_of_mem _ (mem_append_right _ ?_)
  refine mem_flatMap.2 ⟨link, h, mem_flatMap.2 ⟨other, ho, ?_⟩⟩
  exact mem_map_of_mem ((mem_tails r _).2 hr)

theorem links_of_made (h : link ∈ d.made) : link ∈ d.w.links := mem_of_mem_filter h

theorem Laid.real (h : d.Laid s) (hr : r ∈ d.groundPaths) (hq : q <+: r)
    (hclear : Clear s.disk q) : Real s.disk q :=
  fun q' hq' => (h.ground q' (hclear.mono hq')).trans (ground_dir hr (hq'.trans hq))

theorem Laid.clear_shared (h : d.Laid s) (hq : q <+: d.shared link ++ r) : Clear s.disk q := by
  intro q' hq' target hlink
  obtain ⟨other, -, hwithin, rfl, -⟩ := h.links q' target hlink
  exact behind_not_within (hwithin.1.trans (hq'.trans hq))

theorem Laid.ready (h : d.Laid s) : d.Ready s.disk := by
  refine ⟨fun q hq target hlink => ?_, fun link _ q hq target hlink => ?_, fun q target _ _ hlink => ?_⟩
  · obtain ⟨link, -, hwithin, rfl, -⟩ := h.links q target hlink
    exact hwithin.2 (hq.eq_of_length_le hwithin.1.length_le)
  · obtain ⟨other, -, hwithin, rfl, -⟩ := h.links q target hlink
    exact shared_not_within hwithin.1 hq
  · obtain ⟨link, hmade, -, hplace, htarget⟩ := h.links q target hlink
    exact ⟨link, hmade, hplace, htarget⟩

/-- Nothing has been done on the disk. -/
def fresh (disk : Disk String Bytes) : State String Bytes := ⟨disk, [], fun _ => false, 0⟩

@[simp] theorem fresh_disk (disk : Disk String Bytes) : (fresh disk).disk = disk := rfl

theorem ground_not_link (target : List String) : d.ground q ≠ some (.link target) := by
  unfold ground
  split_ifs <;> simp

theorem laid_ground : d.Laid (fresh d.ground) :=
  ⟨fun _ => rfl, fun _ _ => rfl, fun _ target hlink => absurd hlink (ground_not_link target)⟩

theorem groundLinked_self :
    d.groundLinked link (d.linkPath link) = some (.link (d.shared link)) :=
  update_self _ _ _

theorem groundLinked_of_not_below (h : ¬ d.linkPath link <+: q) :
    d.groundLinked link q = d.ground q := by
  have hne : q ≠ d.linkPath link := fun heq => h (heq ▸ prefix_refl q)
  rw [groundLinked, update_of_ne hne, cut, if_neg h]

theorem groundLinked_link {target : List String} (h : d.groundLinked link q = some (.link target)) :
    q = d.linkPath link ∧ target = d.shared link := by
  by_cases heq : q = d.linkPath link
  · rw [heq, groundLinked_self] at h
    cases h
    exact ⟨heq, rfl⟩
  · rw [groundLinked, update_of_ne heq, cut] at h
    split_ifs at h
    exact absurd h (ground_not_link target)

theorem laid_groundLinked (hmade : link ∈ d.made) (hwithin : d.Beneath (d.linkPath link)) :
    d.Laid (fresh (d.groundLinked link)) := by
  refine ⟨fun _ => rfl, fun q hclear => ?_, fun q target hlink => ?_⟩
  · rw [fresh_disk] at hclear ⊢
    exact groundLinked_of_not_below fun h => hclear _ h _ groundLinked_self
  · rw [fresh_disk] at hlink
    obtain ⟨rfl, rfl⟩ := groundLinked_link hlink
    exact ⟨link, hmade, hwithin, rfl, rfl⟩

end Disk

/-! ## The links before the one that escapes -/

section Run

variable {d : Deploy} {s s' : State String Bytes} {link other : String × String} {place : List String}

/-- One more link has been made. -/
structure Relinked (place target : List String) (s s' : State String Bytes) : Prop where
  fails : s'.fails = s.fails
  frame : ∀ q, ¬ place <+: q → s'.disk q = s.disk q
  here : s'.disk place = some (.link target)
  links : ∀ q t, s'.disk q = some (.link t) → s.disk q = some (.link t) ∨ q = place ∧ t = target

theorem symlink_run (depth : ℕ) (target : List String) (hfails : ∀ k, s.fails k = false)
    (hreal : Real s.disk place.dropLast) (hnone : s.disk place = none) :
    ∃ s', symlink depth target place s = (.ok (), s') ∧ Relinked place target s s' := by
  refine ⟨s.after (.link place) (Function.update s.disk place (some (.link target))), ?_, rfl, fun q hq => ?_, ?_,
    fun q t hlink => ?_⟩
  · rw [symlink_of_real hreal hnone, change_ok (hfails _)]
  · refine update_of_ne ?_ _ _
    rintro rfl
    exact hq (prefix_refl q)
  · exact update_self _ _ _
  · rw [State.after_disk] at hlink
    by_cases heq : q = place
    · rw [heq, update_self] at hlink
      cases hlink
      exact .inr ⟨heq, rfl⟩
    · rw [update_of_ne heq] at hlink
      exact .inl hlink

/-- What stands at the place is removed and the link is made, if the way is there. -/
theorem relink_run (depth : ℕ) (target : List String) (hfails : ∀ k, s.fails k = false)
    (hne : place ≠ []) (hreal : Real s.disk place.dropLast) :
    ∃ s₁ s', removeAll depth place s = (.ok (), s₁) ∧
      symlink depth target place s₁ = (.ok (), s') ∧ Relinked place target s s' := by
  have hplace : Files.place s.disk depth place = some place := place_clear hreal.clear
  by_cases hnone : s.disk place = none
  · obtain ⟨s', hrun, hlinked⟩ := symlink_run depth target hfails hreal hnone
    exact ⟨s, s', removeAll_of_none hplace hnone, hrun, hlinked⟩
  · have hremove := removeAll_of_some hplace hnone
    rw [change_ok (hfails _)] at hremove
    obtain ⟨s', hrun, hlinked⟩ := symlink_run (s := s.after (.remove place) (cut s.disk place))
      depth target hfails (hreal.cut_dropLast hne) (if_pos (prefix_refl place))
    refine ⟨_, s', hremove, hrun, hlinked.fails, fun q hq => ?_, hlinked.here, fun q t hlink => ?_⟩
    · rw [hlinked.frame q hq]
      exact if_neg hq
    · rcases hlinked.links q t hlink with hold | hnew
      · rw [State.after_disk, cut] at hold
        split_ifs at hold
        exact .inl hold
      · exact .inr hnew

/-- The shared directory is there already. -/
theorem Laid.mkdir_shared (h : d.Laid s) (hlink : link ∈ d.w.links) :
    mkdirAll d.os.maxLinks (d.shared link) s = (.ok (), s) :=
  mkdirAll_of_real
    (h.real (shared_mem hlink) (prefix_refl _) (h.clear_shared (r := []) (by rw [append_nil])))

/-- A link with no link on its way. -/
def Free (d : Deploy) (link : String × String) : Prop :=
  d.Beneath (d.linkPath link) ∧ ∀ other ∈ d.made, d.Beneath (d.linkPath other) →
    d.linkPath other <+: d.linkPath link →
    d.linkPath other = d.linkPath link

theorem within_ne_nil {q : List String} (h : d.Beneath q) : q ≠ [] := by
  rintro rfl
  have hle := h.1.length_le
  simp [home_eq] at hle

theorem Laid.clear_free (h : d.Laid s) (hfree : d.Free link) :
    Clear s.disk (d.linkPath link).dropLast := by
  intro q hq target hlink
  obtain ⟨other, hmade, hwithin, rfl, -⟩ := h.links q target hlink
  have hsame := hfree.2 other hmade hwithin (hq.trans (List.dropLast_prefix _))
  have hlength := hq.length_le
  have hpos := length_pos_of_ne_nil (within_ne_nil hfree.1)
  rw [hsame, length_dropLast] at hlength
  omega

theorem Relinked.laid (h : Relinked (d.linkPath link) (d.shared link) s s')
    (hs : d.Laid s) (hmade : link ∈ d.made) (hwithin : d.Beneath (d.linkPath link)) :
    d.Laid s' := by
  refine ⟨fun k => by rw [h.fails]; exact hs.fails k, fun q hclear => ?_, fun q target hlink => ?_⟩
  · have hout : ∀ r, r <+: q → ¬ d.linkPath link <+: r := fun r hr hbelow => hclear _ (hbelow.trans hr) _ h.here
    rw [h.frame q (hout q (prefix_refl q))]
    refine hs.ground q fun r hr target hlink => ?_
    rw [← h.frame r (hout r hr)] at hlink
    exact hclear r hr target hlink
  · rcases h.links q target hlink with hold | ⟨rfl, rfl⟩
    · exact hs.links q target hold
    · exact ⟨link, hmade, hwithin, rfl, rfl⟩

/-- The calls of one turn. -/
theorem linkShared_eq (d : Deploy) (link : String × String) : ∃ c₁ c₂ c₃ c₄,
    d.turn link =
      (described d.os c₁ (mkdirAll d.os.maxLinks (d.shared link)) >>= fun _ =>
        if isBlank link.1 then pure ()
        else described d.os c₂ (mkdirAll d.os.maxLinks (d.linkPath link).dropLast) >>= fun _ =>
          described d.os c₃ (removeAll d.os.maxLinks (d.linkPath link)) >>= fun _ =>
          described d.os c₄ (symlink d.os.maxLinks (d.shared link) (d.linkPath link))) := by
  unfold turn linkShared shared linkPath
  rw [← keys_dropLast]
  exact ⟨_, _, _, _, rfl⟩

theorem made_not_blank (hmade : link ∈ d.made) : ¬ isBlank link.1 = true := by
  simpa using (mem_filter.1 hmade).2

theorem Laid.linkShared_blank (h : d.Laid s) (hlink : link ∈ d.w.links) (hblank : link ∉ d.made) :
    d.turn link s = (.ok (), s) := by
  have htext : isBlank link.1 = true := by
    by_contra hnot
    exact hblank (mem_filter.2 ⟨hlink, by simpa using hnot⟩)
  obtain ⟨c₁, c₂, c₃, c₄, heq⟩ := linkShared_eq d link
  rw [heq, run_bind_ok (described_ok (h.mkdir_shared hlink)), if_pos htext]
  rfl

/-- A link that is free is made. -/
theorem Laid.linkShared_run (h : d.Laid s) (hmade : link ∈ d.made) (hfree : d.Free link) :
    ∃ s', d.turn link s = (.ok (), s') ∧
      Relinked (d.linkPath link) (d.shared link) s s' := by
  have hreal : Real s.disk (d.linkPath link).dropLast :=
    h.real (linkPath_mem hmade) (List.dropLast_prefix _) (h.clear_free hfree)
  obtain ⟨s₁, s', hremove, hsymlink, hlinked⟩ := relink_run d.os.maxLinks (d.shared link)
    h.fails (within_ne_nil hfree.1) hreal
  obtain ⟨c₁, c₂, c₃, c₄, heq⟩ := linkShared_eq d link
  refine ⟨s', ?_, hlinked⟩
  rw [heq, run_bind_ok (described_ok (h.mkdir_shared (links_of_made hmade))), if_neg (made_not_blank hmade),
    run_bind_ok (described_ok (mkdirAll_of_real hreal)), run_bind_ok (described_ok hremove)]
  exact described_ok hsymlink

/-- The links up to the one that escapes: all free, and a link on the way to `place` stays on the way. -/
theorem Laid.links_run (place : List String) {links : List (String × String)}
    (hlinks : ∀ link ∈ links, link ∈ d.w.links ∧ (link ∈ d.made → d.Free link)) (h : d.Laid s) :
    ∃ s', Prog.each d.turn links s = (.ok (), s') ∧
      d.Laid s' ∧
      ((∃ q target, q <+: place ∧ s.disk q = some (.link target)) →
        ∃ q target, q <+: place ∧ s'.disk q = some (.link target)) := by
  induction links generalizing s with
  | nil => exact ⟨s, rfl, h, fun hq => hq⟩
  | cons link links ih =>
    obtain ⟨⟨hlink, hfree⟩, hrest⟩ := forall_mem_cons.1 hlinks
    by_cases hmade : link ∈ d.made
    · obtain ⟨s₁, hrun, hlinked⟩ := h.linkShared_run hmade (hfree hmade)
      obtain ⟨s', hruns, hlaid, hway⟩ := ih hrest (hlinked.laid h hmade (hfree hmade).1)
      refine ⟨s', by rw [Prog.each, run_bind_ok hrun, hruns], hlaid, ?_⟩
      rintro ⟨q, target, hq, hlinkq⟩
      by_cases hbelow : d.linkPath link <+: q
      · exact hway ⟨_, _, hbelow.trans hq, hlinked.here⟩
      · exact hway ⟨q, target, hq, by rw [hlinked.frame q hbelow, hlinkq]⟩
    · obtain ⟨s', hruns, hlaid, hway⟩ := ih hrest h
      exact ⟨s', by rw [Prog.each, run_bind_ok (h.linkShared_blank hlink hmade), hruns], hlaid, hway⟩

end Run

/-! ## The link that escapes -/

section Escape

variable {d : Deploy} {s s' : State String Bytes} {link other : String × String} {c : Change String}
  {place : List String}

theorem logged_described {α : Type} {context : String} {m : FileCall α} (h : c ∈ (m s).2.log) :
    c ∈ (described d.os context m s).2.log := by
  unfold described
  rcases hm : m s with ⟨_ | _, t⟩ <;> simpa [hm] using h

theorem logged_bind {ε α β : Type} {m : Prog (State String Bytes) ε α} {f : α → Prog (State String Bytes) ε β}
    (h : c ∈ (m s).2.log) (hf : ∀ a, Keeps (fun s => c ∈ s.log) (f a)) : c ∈ ((m >>= f) s).2.log := by
  rcases hm : m s with ⟨e | a, t⟩
  · rw [run_bind_error hm]
    rwa [hm] at h
  · rw [run_bind_ok hm]
    rw [hm] at h
    exact hf a t h

/-- What a turn removes, once the way is there. -/
theorem Laid.removes (h : d.Laid s) (hmade : link ∈ d.made)
    (hway : mkdirAll d.os.maxLinks (d.linkPath link).dropLast s = (.ok (), s))
    (hplace : Files.place s.disk d.os.maxLinks (d.linkPath link) = some place) (hsome : s.disk place ≠ none) :
    Change.remove place ∈ (d.turn link s).2.log := by
  obtain ⟨c₁, c₂, c₃, c₄, heq⟩ := linkShared_eq d link
  rw [heq, run_bind_ok (described_ok (h.mkdir_shared (links_of_made hmade))), if_neg (made_not_blank hmade),
    run_bind_ok (described_ok hway)]
  have hremoved : Change.remove place ∈ (removeAll d.os.maxLinks (d.linkPath link) s).2.log := by
    rw [removeAll_of_some hplace hsome, change_ok (h.fails _)]
    exact mem_append_right _ mem_cons_self
  have hkeeps : Keeps (fun s => Change.remove place ∈ s.log) (described d.os c₄
      (symlink d.os.maxLinks (d.shared link) (d.linkPath link))) :=
    keeps_described logged_symlink
  have hdescribed : Change.remove place ∈
      (described d.os c₃ (removeAll d.os.maxLinks (d.linkPath link)) s).2.log := logged_described hremoved
  exact logged_bind hdescribed fun _ => hkeeps

/-- A link that does not go into the release directory: what stands at its place is removed. -/
theorem Laid.escapes_outside (h : d.Laid s) (hmade : link ∈ d.made)
    (hout : ¬ d.Beneath (d.linkPath link)) :
    Change.remove (d.linkPath link) ∈ (d.turn link s).2.log := by
  have hclear : Clear s.disk (d.linkPath link) := by
    intro q hq target hlink
    obtain ⟨other, -, hwithin, rfl, -⟩ := h.links q target hlink
    refine hout ⟨hwithin.1.trans hq, fun heq => hwithin.2 ?_⟩
    exact (heq ▸ hq).eq_of_length_le hwithin.1.length_le
  have hdir := h.real (linkPath_mem hmade) (prefix_refl _) hclear
  refine h.removes hmade (mkdirAll_of_real (hdir.mono (List.dropLast_prefix _)))
    (place_clear (hclear.mono (List.dropLast_prefix _))) ?_
  rw [hdir _ (prefix_refl _)]
  simp

theorem prefix_cases {front rest q : List String} {n : String} (hq : q <+: front ++ n :: rest) :
    q <+: front ∨ ∃ more, more <+: rest ∧ q = front ++ n :: more := by
  rw [append_cons] at hq
  rcases prefix_or_prefix_of_prefix hq (prefix_append (front ++ [n]) rest) with hup | ⟨more, rfl⟩
  · rcases prefix_concat_iff.1 hup with rfl | hup
    · exact .inr ⟨[], nil_prefix, rfl⟩
    · exact .inl hup
  · exact .inr ⟨more, (prefix_append_right_inj _).1 hq, by simp⟩

/-- What stands behind a link. -/
theorem Laid.behind (h : d.Laid s) (hother : other ∈ d.w.links) (hmade : link ∈ d.made)
    {rest more : List String} (hrest : rest <:+ d.linkPath link) (hmore : more <+: rest) :
    s.disk (d.shared other ++ more) = some .dir := by
  rw [h.ground _ (h.clear_shared (prefix_refl _))]
  exact ground_dir (behind_mem hother hmade hrest) ((prefix_append_right_inj _).2 hmore)

/-- A link below another one: what is behind that link is removed from the shared storage. -/
theorem Laid.escapes_through (h : d.Laid s) (hmade : link ∈ d.made) {q target : List String}
    (hq : q <+: (d.linkPath link).dropLast) (hlink : s.disk q = some (.link target)) :
    ∃ other ∈ d.w.links, ∃ rest,
      Change.remove (d.shared other ++ rest) ∈
        (d.turn link s).2.log := by
  have hroot : ∀ t, s.disk [] ≠ some (.link t) := by
    intro t hnil
    obtain ⟨other, -, hwithin, heq, -⟩ := h.links [] t hnil
    exact within_ne_nil hwithin heq.symm
  obtain ⟨front, n, rest, t, hpath, hfront, hfirst⟩ :=
    exists_first_link (fun hclear => hclear q hq target hlink) hroot
  obtain ⟨other, hother, -, -, rfl⟩ := h.links _ t hfirst
  have hother := links_of_made hother
  have hfollow : ∀ more, follow s.disk d.os.maxLinks (front ++ n :: more) = some (d.shared other ++ more) :=
    fun more => follow_link d.os.maxLinks_pos hfront hfirst (h.clear_shared (prefix_refl _))
  obtain ⟨last, hlast⟩ : ∃ last, d.linkPath link = front ++ n :: rest ++ [last] := by
    rcases eq_nil_or_concat (d.linkPath link) with hnil | ⟨L, last, hL⟩
    · rw [hnil] at hpath
      simp at hpath
    · rw [concat_eq_append] at hL
      rw [hL, dropLast_concat] at hpath
      exact ⟨last, by rw [hL, hpath]⟩
  have hsuffix : rest ++ [last] <:+ d.linkPath link := ⟨front ++ [n], by simp [hlast]⟩
  refine ⟨other, hother, rest ++ [last], h.removes hmade (mkdirAll_of_dirs fun r hr => ?_) ?_ ?_⟩
  · -- up to the link the way is as it was, and from there on it is in the shared storage
    rw [hpath] at hr
    rcases prefix_cases hr with hr | ⟨more, hmore, rfl⟩
    · rw [stat_clear (hfront.mono hr), h.ground r (hfront.mono hr)]
      refine ground_dir (linkPath_mem hmade) (hr.trans ?_)
      rw [hlast, append_assoc]
      exact prefix_append _ _
    · rw [stat, hfollow more]
      exact h.behind hother hmade hsuffix (hmore.trans (prefix_append _ _))
  · rw [hlast, place_concat, hfollow rest]
    simp
  · rw [h.behind hother hmade hsuffix (prefix_refl _)]
    simp

theorem logged_linkShared (link : String × String) :
    Keeps (fun s => c ∈ s.log) (d.turn link) := by
  refine keeps_bind (keeps_described logged_mkdirAll) fun _ => keeps_ite (fun _ => keeps_pure _) fun _ => ?_
  refine keeps_bind (keeps_described logged_mkdirAll) fun _ => ?_
  exact keeps_bind (keeps_described logged_removeAll) fun _ => keeps_described logged_symlink

theorem Laid.mkdir_release (h : d.Laid s) :
    mkdirAll d.os.maxLinks (d.os.keys d.releaseDir) s = (.ok (), s) :=
  mkdirAll_of_real (h.real release_mem (prefix_refl _) h.ready.release)

/-- What is removed by the turn of a link is in the log of the deploy. -/
theorem Laid.deploy_logged (h : d.Laid s) {before after : List (String × String)}
    (hlinks : d.w.links = before ++ link :: after)
    (hrun : Prog.each d.turn before s = (.ok (), s'))
    (hc : c ∈ (d.turn link s').2.log) :
    c ∈ (d.run (.dir []) s).2.log := by
  have heach : c ∈ (Prog.each d.turn d.w.links s).2.log := by
    rw [hlinks, each_append, run_bind_ok hrun]
    exact logged_bind hc fun _ => keeps_each fun link _ => logged_linkShared link
  have hsnapshot : snapshotSource d.os d.w d.releaseDir d.p.sourceLocation (.dir []) s = (.ok (0, 0), s) := rfl
  rw [run, deployFiles, run_bind_ok (described_ok h.mkdir_release), run_bind_ok hsnapshot]
  exact logged_bind (logged_bind heach fun _ => keeps_pure _) fun _ => keeps_pure _

theorem prefix_dropLast {q r : List String} (h : q <+: r) (hne : q ≠ r) : q <+: r.dropLast := by
  have hlt : q.length < r.length := lt_of_le_of_ne h.length_le fun hlength => hne (h.eq_of_length hlength)
  refine prefix_of_prefix_length_le h (List.dropLast_prefix r) ?_
  rw [length_dropLast]
  omega

theorem not_allowed_remove {q : List String} (h : ¬ d.Beneath q) : ¬ d.Allowed (.remove q) := by
  rintro (hwithin | ⟨r, hr, -⟩)
  · exact h hwithin
  · cases hr

theorem forall_mem_of_before {α : Type} {P : α → Prop} {l : List α}
    (h : ∀ before a after, l = before ++ a :: after → (∀ b ∈ before, P b) → P a) : ∀ a ∈ l, P a := by
  induction l using List.reverseRecOn with
  | nil => exact fun a ha => absurd ha not_mem_nil
  | append_singleton l x ih =>
    have hl : ∀ a ∈ l, P a := ih fun before a after hl => h before a (after ++ [x]) (by rw [hl]; simp)
    intro a ha
    rcases mem_append.1 ha with ha | ha
    · exact hl a ha
    · rw [mem_singleton.1 ha]
      exact h l x [] rfl hl

theorem valid_empty : (SourceTree.dir []).Valid d.os := trivial

/-- The links of a deploy that stays inside are free. -/
theorem StaysInside.free (h : d.StaysInside) :
    ∀ link ∈ d.w.links, link ∈ d.made → d.Free link := by
  refine forall_mem_of_before fun before link after hlinks hbefore hmade => ?_
  have hfree : ∀ l ∈ before, l ∈ d.w.links ∧ (l ∈ d.made → d.Free l) := fun l hl =>
    ⟨by rw [hlinks]; exact mem_append_left _ hl, hbefore l hl⟩
  by_contra hnot
  by_cases hwithin : d.Beneath (d.linkPath link)
  · -- below another link, which an earlier deploy may have left
    simp only [Free, hwithin, true_and, not_forall] at hnot
    obtain ⟨other, hother, hwithin', hbelow, hne⟩ := hnot
    have hlaid := laid_groundLinked hother hwithin'
    obtain ⟨s', hrun, hlaid', hway⟩ := hlaid.links_run (d.linkPath link).dropLast hfree
    obtain ⟨q, target, hq, hlink⟩ := hway ⟨_, _, prefix_dropLast hbelow hne, groundLinked_self⟩
    obtain ⟨behind, -, rest, hremoved⟩ := hlaid'.escapes_through hmade hq hlink
    have hlogged := hlaid.deploy_logged hlinks hrun hremoved
    exact not_allowed_remove (fun hbehind => behind_not_within hbehind.1)
      (h (.dir []) _ valid_empty hlaid.ready rfl _ hlogged)
  · have hlaid : d.Laid (fresh d.ground) := laid_ground
    obtain ⟨s', hrun, hlaid', -⟩ := hlaid.links_run [] hfree
    have hlogged := hlaid.deploy_logged hlinks hrun (hlaid'.escapes_outside hmade hwithin)
    exact not_allowed_remove hwithin (h (.dir []) _ valid_empty hlaid.ready rfl _ hlogged)

end Escape

/-! ## The snapshot through a link -/

section Names

variable {os : AgentOs} {w : DeployWindows} {s : State String Bytes}
  {dst path : List String} {name file : String} {names : List String}

/-- A name longer than all of these. -/
def freshName (names : List String) : String :=
  String.ofList (List.replicate ((names.map String.length).sum + 5) 'x')

theorem length_freshName : (freshName names).length = (names.map String.length).sum + 5 := by
  rw [freshName, String.length_ofList, length_replicate]

theorem length_lt_freshName (h : name ∈ names) : name.length < (freshName names).length := by
  have hle : name.length ≤ (names.map String.length).sum := le_sum_of_mem (mem_map_of_mem h)
  rw [length_freshName]
  omega

theorem name_freshName : os.Name (freshName names) := by
  have hne : ∀ text : String, text.length < 5 → freshName names ≠ text := by
    intro text hshort heq
    have hlength : (freshName names).length = (names.map String.length).sum + 5 := length_freshName
    rw [heq] at hlength
    omega
  have hletters : ∀ c ∈ (freshName names).toList, c = 'x' := by
    intro c hc
    rw [freshName, String.toList_ofList] at hc
    exact eq_of_mem_replicate hc
  refine ⟨hne _ (by decide), hne _ (by decide), hne _ (by decide), fun c hc => ?_, (os.letters _ fun c hc => ?_).1⟩
  · rw [hletters c hc, Bool.eq_false_iff]
    intro hseparator
    rcases os.isSeparator_cases 'x' hseparator with heq | heq <;> exact absurd heq (by decide)
  · rw [hletters c hc]
    rfl

theorem length_lower (text : String) : (os.lower text).length = text.length := by
  rw [AgentOs.lower, String.length_ofList, length_map, String.length_toList]

/-- A text of one character repeated has no extension but perhaps a dot. -/
theorem length_ext_le {c : Char} {n : ℕ} : (os.ext (String.ofList (List.replicate n c))).length ≤ 1 := by
  unfold AgentOs.ext
  rw [String.toList_ofList]
  dsimp only
  split_ifs with hdot
  · have hall : ∀ d ∈ (List.replicate n c).rtakeWhile fun c => !os.isSeparator c, d = '.' := by
      have hc : ∀ d ∈ (List.replicate n c).rtakeWhile fun c => !os.isSeparator c, d = c := fun d hd =>
        eq_of_mem_replicate ((rtakeWhile_suffix _ _).subset hd)
      intro d hd
      rw [hc d hd, hc '.' hdot]
    have hnone : (((List.replicate n c).rtakeWhile fun c => !os.isSeparator c).rtakeWhile (· != '.')) = [] := by
      rw [rtakeWhile_eq_nil_iff]
      intro hne
      simp [hall _ (getLast_mem hne)]
    rw [hnone, String.length_ofList]
    simp
  · simp

theorem not_junk_freshName : isJunk os (freshName names) = false := by
  have hlower : os.lower (freshName names) =
      String.ofList (List.replicate ((names.map String.length).sum + 5) (os.toLower 'x')) := by
    rw [AgentOs.lower, freshName, String.toList_ofList, map_replicate]
  rw [isJunk, Bool.or_eq_false_iff, AgentOs.isPyc, beq_eq_false_iff_ne, beq_eq_false_iff_ne]
  refine ⟨fun heq => ?_, fun heq => ?_⟩
  · have hlength := congrArg String.length heq
    rw [length_lower, length_lower, hlower] at hlength
    have hle : (os.ext (String.ofList (List.replicate ((names.map String.length).sum + 5) (os.toLower 'x')))).length ≤ 1 :=
      length_ext_le
    rw [hlength] at hle
    exact absurd hle (by decide)
  · have hlength := congrArg String.length heq
    rw [length_lower, length_freshName] at hlength
    have hshort : ".env".length = 4 := by decide
    omega

theorem length_le_text (h : name ∈ names) : name.length ≤ (os.text names).length := by
  rw [AgentOs.text, String.length_ofList, ← String.length_toList]
  induction names with
  | nil => exact absurd h not_mem_nil
  | cons n names ih =>
    cases names with
    | nil =>
      rw [mem_singleton.1 h]
      simp
    | cons m names =>
      rw [map_cons, map_cons, intercalate_cons_cons, ← map_cons, length_append]
      rcases mem_cons.1 h with rfl | h
      · rw [length_append]
        omega
      · have := ih h
        omega

/-- A name longer than what is excluded is not left out. -/
theorem reached_freshName (hsub : w.excluded os ++ w.topLevel os ⊆ names) (h : reached os w path = true) :
    reached os w (path ++ [freshName names]) = true := by
  have hout : ∀ text : String, (freshName names).length ≤ text.length → text ∉ w.excluded os ++ w.topLevel os := by
    intro text hlong hmem
    have hlt := length_lt_freshName (hsub hmem)
    omega
  have hname : os.lower (freshName names) ∉ w.excluded os := fun hmem =>
    hout _ (by rw [length_lower]) (mem_append_left _ hmem)
  have htext : os.lower (os.text (path ++ [freshName names])) ∉ w.topLevel os := by
    refine fun hmem => hout _ ?_ (mem_append_right _ hmem)
    rw [length_lower]
    exact length_le_text (mem_append_right _ (mem_singleton_self _))
  rw [reached_concat, h, leftOut_concat]
  simp [hname, htext]

theorem length_key_freshName : (os.key (freshName names)).length = (freshName names).length := by
  refine (os.letters _ fun c hc => ?_).2
  rw [freshName, String.toList_ofList] at hc
  rw [eq_of_mem_replicate hc]
  rfl

/-- Directories in each other, with one file in the last. -/
def chain (file : String) : List String → List (String × SourceTree)
  | [] => [(file, .file [])]
  | n :: ns => [(n, .dir (chain file ns))]

theorem valid_chain (hfile : os.Name file) (hpath : ∀ n ∈ path, os.Name n) : ValidEntries os (chain file path) := by
  induction path with
  | nil => exact ⟨hfile, not_mem_nil, trivial, trivial⟩
  | cons n path ih =>
    obtain ⟨hn, hrest⟩ := forall_mem_cons.1 hpath
    exact ⟨hn, not_mem_nil, ih hrest, trivial⟩

/-- The walk goes down the directories, which are there, and writes the file. -/
theorem chain_writes {c : Change String}
    (hdirs : ∀ q, q <+: os.keys (dst ++ path) → stat s.disk os.maxLinks q = some .dir) (hpath : ∀ n ∈ path, os.Name n)
    (hfile : os.Name file) (hreached : reached os w (path ++ [file]) = true) (hjunk : isJunk os file = false)
    (hwrites : c ∈ (writeFile os.maxLinks (os.keys (dst ++ (path ++ [file]))) [] s).2.log) :
    ∀ todo rel, path = rel ++ todo → c ∈ (walkEntries os w dst rel (chain file todo) s).2.log := by
  have hskips : ∀ rel name, rel ++ [name] <+: path ++ [file] → (∀ n ∈ rel, os.Name n) → os.Name name →
      skips os w rel name = false := by
    intro rel name hpart hrel hname
    have hway := reached_mono hpart hreached
    rw [reached_concat, Bool.and_eq_true, Bool.not_eq_true'] at hway
    rw [skips_eq hrel hname, hway.2]
  intro todo
  induction todo with
  | nil =>
    intro rel hrel
    rw [append_nil] at hrel
    subst hrel
    have hcopy : c ∈ (copyFile os [] (dst ++ (path ++ [file])) s).2.log := by
      have hparent : (dst ++ (path ++ [file])).dropLast = dst ++ path := by
        rw [← append_assoc, dropLast_concat]
      rw [copyFile, hparent, run_bind_ok (mkdirAll_of_dirs hdirs)]
      exact hwrites
    have hentry : c ∈ (walkEntry os w dst path file (.file []) s).2.log := by
      rw [walkEntry, hskips path file (prefix_refl _) hpath hfile, hjunk]
      exact logged_bind hcopy fun _ => keeps_pure _
    rw [chain, walkEntries]
    exact logged_bind hentry fun _ => keeps_bind (keeps_pure _) fun _ => keeps_pure _
  | cons n todo ih =>
    intro rel hrel
    have hsplit : path = (rel ++ [n]) ++ todo := by rw [hrel, append_cons]
    have hpart : rel ++ [n] <+: path := ⟨todo, hsplit.symm⟩
    have hnames : ∀ m ∈ rel ++ [n], os.Name m := fun m hm => hpath m (hpart.subset hm)
    have hmkdir : mkdirAll os.maxLinks (os.keys (dst ++ (rel ++ [n]))) s = (.ok (), s) :=
      mkdirAll_of_dirs fun q hq => hdirs q (hq.trans (((prefix_append_right_inj dst).2 hpart).map _))
    have hentry : c ∈ (walkEntry os w dst rel n (.dir (chain file todo)) s).2.log := by
      rw [walkEntry, hskips rel n (hpart.trans (prefix_append _ _))
        (fun m hm => hnames m (mem_append_left _ hm)) (hnames n (mem_append_right _ (mem_singleton_self n)))]
      rw [if_neg Bool.false_ne_true, run_bind_ok hmkdir]
      exact ih (rel ++ [n]) hsplit
    rw [chain, walkEntries]
    exact logged_bind hentry fun _ => keeps_bind (keeps_pure _) fun _ => keeps_pure _

end Names

section Through

variable {d : Deploy} {link : String × String}

/-- With one link left by an earlier deploy: the way to it is there, and what is behind it is in the shared storage. -/
theorem linked_way (hmade : link ∈ d.made) (hwithin : d.Beneath (d.linkPath link)) :
    (∀ q, q <+: d.linkPath link →
      stat (d.groundLinked link) d.os.maxLinks q = some .dir) ∧
    ∀ n, follow (d.groundLinked link) d.os.maxLinks (d.linkPath link ++ [n]) =
      some (d.shared link ++ [n]) := by
  have hlaid := laid_groundLinked hmade hwithin
  obtain ⟨front, last, hlast⟩ : ∃ front last, d.linkPath link = front ++ [last] := by
    rcases eq_nil_or_concat (d.linkPath link) with hnil | ⟨front, last, hL⟩
    · exact absurd hnil (within_ne_nil hwithin)
    · exact ⟨front, last, by rw [hL, concat_eq_append]⟩
  have hself : d.groundLinked link (front ++ [last]) = some (.link (d.shared link)) := by
    rw [← hlast, groundLinked_self]
  have hfront : Clear (d.groundLinked link) front := by
    intro q hq target hlink
    have hlength := hq.length_le
    rw [(groundLinked_link hlink).1, hlast, length_append, length_singleton] at hlength
    omega
  have hfollow : ∀ more, follow (d.groundLinked link) d.os.maxLinks (front ++ last :: more) =
      some (d.shared link ++ more) := fun more =>
    follow_link d.os.maxLinks_pos hfront hself (hlaid.clear_shared (prefix_refl _))
  refine ⟨fun q hq => ?_, fun n => ?_⟩
  · rw [hlast] at hq
    rcases prefix_concat_iff.1 hq with rfl | hq
    · rw [stat, hfollow []]
      exact hlaid.behind (links_of_made hmade) hmade nil_suffix (prefix_refl _)
    · rw [stat_clear (hfront.mono hq), ← fresh_disk (d.groundLinked link),
        hlaid.ground q (hfront.mono hq)]
      refine ground_dir (linkPath_mem hmade) (hq.trans ?_)
      rw [hlast]
      exact prefix_append _ _
  · rw [hlast, append_assoc]
    exact hfollow [n]

/-- The snapshot of a deploy that stays inside leaves the places of the links out. -/
theorem StaysInside.spared (h : d.StaysInside) (hmade : link ∈ d.made)
    (hwithin : d.Beneath (d.linkPath link)) {rel : List String} (hpath : ∀ n ∈ rel, d.os.Name n)
    (hplace : d.linkPath link = d.home ++ d.os.keys rel) : reached d.os d.w rel = false := by
  have hrel : d.linkPath link = d.os.keys (d.releaseDir ++ rel) := by rw [hplace, keys_append]; rfl
  by_contra hnot
  rw [Bool.not_eq_false] at hnot
  have hlaid := laid_groundLinked hmade hwithin
  obtain ⟨hdirs, hfollow⟩ := linked_way hmade hwithin
  let names := d.w.excluded d.os ++ d.w.topLevel d.os ++ d.groundPaths.flatten
  have hreached : reached d.os d.w (rel ++ [freshName names]) = true :=
    reached_freshName (subset_append_left _ _) hnot
  -- nothing has the long name yet
  have hnone : d.ground (d.shared link ++ [d.os.key (freshName names)]) = none := by
    refine if_neg fun hany => ?_
    obtain ⟨r, hr, hpart⟩ := any_eq_true.1 hany
    have hmem : d.os.key (freshName names) ∈ names := mem_append_right _ (mem_flatten.2
      ⟨r, hr, (of_decide_eq_true hpart).subset (mem_append_right _ (mem_singleton_self _))⟩)
    have hlt := length_lt_freshName hmem
    rw [length_key_freshName] at hlt
    exact lt_irrefl _ hlt
  have hwrites : Change.write (d.shared link ++ [d.os.key (freshName names)]) ∈ (writeFile d.os.maxLinks
      (d.os.keys (d.releaseDir ++ (rel ++ [freshName names]))) []
      (fresh (d.groundLinked link))).2.log := by
    rw [keys_concat, ← hrel, writeFile_of_dir (hfollow _), change_ok rfl]
    · exact mem_append_right _ mem_cons_self
    · rw [dropLast_concat]
      simpa using hlaid.behind (links_of_made hmade) hmade nil_suffix (prefix_refl [])
    · rw [hlaid.ground _ (hlaid.clear_shared (prefix_refl _)), hnone]
      rfl
  have hwalk : Change.write (d.shared link ++ [d.os.key (freshName names)]) ∈ (walkEntries d.os d.w d.releaseDir []
      (chain (freshName names) rel) (fresh (d.groundLinked link))).2.log :=
    chain_writes (by rwa [← hrel]) hpath name_freshName hreached not_junk_freshName hwrites rel [] rfl
  have hlogged : Change.write (d.shared link ++ [d.os.key (freshName names)]) ∈ (d.run
      (.dir (chain (freshName names) rel)) (fresh (d.groundLinked link))).2.log := by
    rw [run, deployFiles, run_bind_ok (described_ok hlaid.mkdir_release), snapshotSource]
    refine logged_bind (logged_described hwalk) fun _ => keeps_bind ?_ fun _ => keeps_pure _
    exact keeps_bind (keeps_each fun link _ => logged_linkShared link) fun _ => keeps_pure _
  have hvalid : (SourceTree.dir (chain (freshName names) rel)).Valid d.os := valid_chain name_freshName hpath
  rcases h _ _ hvalid hlaid.ready rfl _ hlogged with hin | ⟨q, hq, -⟩
  · exact behind_not_within hin.1
  · cases hq

end Through

end Deploy

/-- A deploy stays inside its directories if and only if its links are contained. -/
theorem staysInside_iff (d : Deploy) : d.StaysInside ↔ d.Contained := by
  refine ⟨fun h => ?_, Deploy.Contained.staysInside⟩
  have hfree : ∀ link ∈ d.made, d.Free link := fun link hmade => h.free link (Deploy.links_of_made hmade) hmade
  refine ⟨fun link hmade => (hfree link hmade).1, fun link hmade other hother hbelow => ?_,
    fun link hmade rel hnames hrel => ?_⟩
  · exact (hfree link hmade).2 other hother (hfree other hother).1 hbelow
  · exact h.spared hmade (hfree link hmade).1 hnames hrel

/-- A deploy of release 1.1.0 of `shop`, from a folder. -/
def shopPayload (w : DeployWindows) : DeployPayload where
  operation := ""
  adapter := "windows-waitress-service"
  appSlug := "shop"
  releaseVersion := "1.1.0"
  sourceType := "folder"
  sourceLocation := "C:/src/shop"
  windows := some w
  hasLinux := false

def shopDeploy (os : AgentOs) (w : DeployWindows) : Deploy := ⟨os, ["healer"], shopPayload w, w⟩

instance (d : Deploy) (q : List String) : Decidable (d.Beneath q) := inferInstanceAs (Decidable (_ ∧ _))

/-- The directories of the sample are contained. -/
theorem staysInside_iff_sample : (shopDeploy linuxOs sampleWindows).StaysInside := by
  refine (staysInside_iff _).2 ⟨by decide +kernel, by decide +kernel, ?_⟩
  intro link hmade rel _ hrel
  have hplace : ∀ link ∈ (shopDeploy linuxOs sampleWindows).made, (shopDeploy linuxOs sampleWindows).linkPath link =
      (shopDeploy linuxOs sampleWindows).home ++ [link.1] := by decide +kernel
  have hkeys : linuxOs.keys rel = rel := map_id rel
  have hsame : rel = [link.1] := hkeys.symm.trans (append_cancel_left (hrel.symm.trans (hplace link hmade)))
  have hspared : ∀ link ∈ (shopDeploy linuxOs sampleWindows).made, reached linuxOs sampleWindows [link.1] = false := by
    decide +kernel
  rw [hsame]
  exact hspared link hmade

/-- A file system that does not tell capital letters from small ones. -/
def foldingOs : AgentOs where
  __ := linuxOs
  key := fun name => String.ofList (name.toList.map Char.toUpper)
  letters := fun name _ => ⟨rfl, by rw [String.length_ofList, length_map, String.length_toList]⟩

/-- There the second of these directories is below the first. -/
example : ¬ (shopDeploy foldingOs { sampleWindows with staticDir := "Data", mediaDir := "data/uploads" }).Contained :=
  fun h => absurd (h.apart ("data/uploads", "media") (by decide +kernel) ("Data", "static") (by decide +kernel)
    (by decide +kernel)) (by decide +kernel)

/-- The static files are to be kept where release 1.0.0 is. -/
def misplaced : DeployWindows := { sampleWindows with staticDir := "../1.0.0" }

/-- Release 1.0.0 of `shop` is there, with one file. -/
def shopDisk : Disk String Bytes := fun q =>
  if q = ["healer", "apps", "shop", "releases", "1.0.0", "manage.py"] then some (.file [1])
  else if q <+: ["healer", "apps", "shop", "releases", "1.0.0"] then some .dir else none

theorem shopDisk_ready : (shopDeploy linuxOs misplaced).Ready shopDisk := by
  have hnone : ∀ q target, shopDisk q ≠ some (.link target) := by
    intro q target
    unfold shopDisk
    split_ifs <;> simp
  exact ⟨fun q _ => hnone q, fun _ _ q _ => hnone q, fun q target _ _ hlink => absurd hlink (hnone q target)⟩

/-- The payload is accepted, and its deploy removes the other release. -/
theorem deploy_removes_other_release :
    validateDeployPayload id (shopPayload misplaced) = .ok () ∧
      (deployFiles linuxOs ["healer"] (shopPayload misplaced) misplaced (.dir []) (Deploy.fresh shopDisk)).2.disk
        ["healer", "apps", "shop", "releases", "1.0.0", "manage.py"] = none ∧
      ¬ (shopDeploy linuxOs misplaced).StaysInside := by
  refine ⟨by decide +kernel, Option.isNone_iff_eq_none.1 (by decide +kernel), fun h => ?_⟩
  have hremoved : Change.remove ["healer", "apps", "shop", "releases", "1.0.0"] ∈
      ((shopDeploy linuxOs misplaced).run (.dir []) (Deploy.fresh shopDisk)).2.log := by decide +kernel
  exact Deploy.not_allowed_remove (by decide +kernel) (h (.dir []) _ Deploy.valid_empty shopDisk_ready rfl _ hremoved)

end Healer
