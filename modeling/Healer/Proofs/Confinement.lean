import Healer.Proofs.Snapshot

/-! Where a deploy writes. `app_slug` and `release_version` are checked to be single names; the shared directories of
healer.yaml are only cleaned and joined to the release directory before what stands there is removed and linked. -/

namespace Healer

open Function List

open Files
open Prog (Keeps keeps_bind keeps_pure keeps_ite keeps_each)

/-- One deploy: the agent's system and data directory, the payload and its `windows` object. -/
structure Deploy where
  os : AgentOs
  dataDir : List String
  p : DeployPayload
  w : DeployWindows

namespace Deploy

section Spec

variable (d : Deploy)

abbrev releaseDir : List String := d.p.releaseDir d.dataDir

def run (source : SourceTree) : FileProg (String × String) := deployFiles d.os d.dataDir d.p d.w source

/-- What is done about one link. -/
abbrev turn (link : String × String) : FileProg Unit := linkShared d.os (d.p.appDir d.dataDir) d.releaseDir link

/-- The place of the release directory. -/
def home : List String := d.os.keys d.releaseDir

/-- The place of the shared directory of a link. -/
def shared (link : String × String) : List String := d.os.keys (d.p.appDir d.dataDir ++ ["shared", link.2])

/-- Where the link goes. -/
def linkPath (link : String × String) : List String := d.os.keys (d.os.join d.releaseDir (d.os.clean link.1))

/-- The links that are made: those with a directory that is not blank. -/
def made : List (String × String) := d.w.links.filter fun link => !isBlank link.1

/-- What a deploy of this release finds: no link on the way to its directories, and within the release directory no
links but those an earlier deploy of it has made. -/
structure Ready (disk : Disk String Bytes) : Prop where
  release : Clear disk d.home
  shared : ∀ link ∈ d.w.links, Clear disk (d.shared link)
  own : ∀ q target, d.home <+: q → q ≠ d.home → disk q = some (.link target) →
    ∃ link ∈ d.made, q = d.linkPath link ∧ target = d.shared link

/-- Strictly inside the release directory. -/
def Beneath (q : List String) : Prop := d.home <+: q ∧ q ≠ d.home

/-- A change that a deploy may make: strictly inside the release directory, or the making of that directory or of a
shared one. -/
def Allowed (c : Change String) : Prop :=
  d.Beneath c.place ∨ ∃ q, c = .mkdir q ∧ (q <+: d.home ∨ ∃ link ∈ d.w.links, q <+: d.shared link)

/-- Whatever is deployed and whatever fails, the two steps change nothing else. -/
def StaysInside : Prop :=
  ∀ (source : SourceTree) (s : State String Bytes), source.Valid d.os → d.Ready s.disk → s.log = [] →
    ∀ c ∈ (d.run source s).2.log, d.Allowed c

/-- The links go strictly inside the release directory, none below another, and the snapshot leaves their places out,
whatever the names it comes there by. -/
structure Contained : Prop where
  within : ∀ link ∈ d.made, d.Beneath (d.linkPath link)
  apart : ∀ link ∈ d.made, ∀ other ∈ d.made, d.linkPath other <+: d.linkPath link → d.linkPath other = d.linkPath link
  spared : ∀ link ∈ d.made, ∀ rel, (∀ n ∈ rel, d.os.Name n) → d.linkPath link = d.home ++ d.os.keys rel →
    reached d.os d.w rel = false

end Spec

section Disk

variable {d : Deploy} {disk : Disk String Bytes}
  {q : List String} {link : String × String}

theorem home_eq : d.home =
    d.os.keys (d.p.appDir d.dataDir) ++ [d.os.key "releases", d.os.key d.p.releaseVersion] := by
  simp [home, releaseDir, DeployPayload.releaseDir, AgentOs.keys]

theorem shared_eq : d.shared link = d.os.keys (d.p.appDir d.dataDir) ++ [d.os.key "shared", d.os.key link.2] := by
  simp [Deploy.shared, AgentOs.keys]

theorem releases_ne_shared : d.os.key "releases" ≠ d.os.key "shared" := by
  intro h
  have hlength := congrArg String.length h
  rw [(d.os.letters "releases" (all_eq_true.1 (by decide))).2, (d.os.letters "shared" (all_eq_true.1 (by decide))).2] at hlength
  exact absurd hlength (by decide)

variable {r : List String}

/-- What is behind a link is not in the release directory. -/
theorem behind_not_within (h : d.home <+: d.shared link ++ r) : False := by
  rw [home_eq, shared_eq, append_assoc, prefix_append_right_inj, cons_append,
    cons_prefix_cons] at h
  exact releases_ne_shared h.1

theorem shared_not_within (h : d.home <+: q) (hq : q <+: d.shared link) : False :=
  behind_not_within (h.trans (hq.trans (prefix_append _ [])))

/-- Links appear only where they are allowed to. -/
theorem Ready.of_links {disk' : Disk String Bytes} (h : d.Ready disk)
    (hlink : ∀ r target, disk' r = some (.link target) → disk r = some (.link target) ∨
      ∃ link ∈ d.made, d.Beneath r ∧ r = d.linkPath link ∧ target = d.shared link) :
    d.Ready disk' := by
  refine ⟨fun r hr target hr' => ?_, fun link hl r hr target hr' => ?_, fun r target hr hne hr' => ?_⟩
  · rcases hlink r target hr' with hold | ⟨_, _, hwithin, _⟩
    · exact h.release r hr target hold
    · exact hwithin.2 (hr.eq_of_length_le hwithin.1.length_le)
  · rcases hlink r target hr' with hold | ⟨_, _, hwithin, _⟩
    · exact h.shared link hl r hr target hold
    · exact shared_not_within hwithin.1 hr
  · rcases hlink r target hr' with hold | ⟨link, hl, -, hplace, htarget⟩
    · exact h.own r target hr hne hold
    · exact ⟨link, hl, hplace, htarget⟩

theorem Ready.put (h : d.Ready disk) {node : Node String Bytes} (hnode : ∀ t, node ≠ .link t) :
    d.Ready (Function.update disk q (some node)) := by
  refine h.of_links fun r target hr => .inl ?_
  by_cases hrq : r = q
  · subst hrq
    rw [update_self] at hr
    exact absurd (Option.some.inj hr) (hnode target)
  · rwa [update_of_ne hrq] at hr

theorem Ready.cut (h : d.Ready disk) : d.Ready (cut disk q) := by
  refine h.of_links fun r target hr => .inl ?_
  unfold Files.cut at hr
  split_ifs at hr
  exact hr

theorem Ready.linked (h : d.Ready disk) (hlink : link ∈ d.made)
    (hwithin : d.Beneath (d.linkPath link)) :
    d.Ready
      (Function.update disk (d.linkPath link) (some (.link (d.shared link)))) := by
  refine h.of_links fun r target hr => ?_
  by_cases hrq : r = d.linkPath link
  · subst hrq
    rw [update_self] at hr
    cases hr
    exact .inr ⟨link, hlink, hwithin, rfl, rfl⟩
  · rw [update_of_ne hrq] at hr
    exact .inl hr

end Disk

/-! ## Contained links -/

section Forward

variable {d : Deploy} {disk : Disk String Bytes}
  {q : List String} {link : String × String}

/-- What every call keeps: the disk is as a deploy of this release may find it, and so far all changes are allowed. -/
def Orderly (d : Deploy) (disk : Disk String Bytes) (log : List (Change String)) : Prop :=
  d.Ready disk ∧ ∀ c ∈ log, d.Allowed c

theorem Orderly.step {log : List (Change String)} {c : Change String} {disk' : Disk String Bytes}
    (h : d.Orderly disk log) (hc : d.Allowed c) (hready : d.Ready disk') :
    d.Orderly disk (log ++ [c]) ∧ d.Orderly disk' (log ++ [c]) := by
  have hlog : ∀ c' ∈ log ++ [c], d.Allowed c' := by
    intro c' hc'
    rcases mem_append.1 hc' with hc' | hc'
    · exact h.2 c' hc'
    · rw [mem_singleton.1 hc']
      exact hc
  exact ⟨⟨h.1, hlog⟩, hready, hlog⟩

theorem keeps_described {α : Type} {P : State String Bytes → Prop} {context : String} {m : FileCall α}
    (h : Keeps P m) : Keeps P (described d.os context m) := by
  intro s hs
  have hstate : (described d.os context m s).2 = (m s).2 := by
    unfold described
    rcases m s with ⟨_ | _, _⟩ <;> rfl
  rw [hstate]
  exact h s hs

/-- A directory on the way to a place inside the release directory. -/
theorem allowed_mkdir {r : List String} (hwithin : d.Beneath q) (hr : r <+: q) :
    d.Allowed (.mkdir r) := by
  rcases prefix_or_prefix_of_prefix hr hwithin.1 with hup | hdown
  · exact .inr ⟨r, rfl, .inl hup⟩
  · by_cases heq : r = d.home
    · exact .inr ⟨r, rfl, .inl (heq ▸ prefix_refl r)⟩
    · exact .inl ⟨hdown, heq⟩

theorem orderly_mkdirAll {r : List String} (hwithin : d.Beneath q) (hr : r <+: q)
    (hclear : ∀ disk, d.Ready disk → Clear disk r) :
    Keeps (Of d.Orderly) (mkdirAll d.os.maxLinks r) :=
  keeps_mkdirAll (fun _ _ h => hclear _ h.1) fun _ hr' _ _ h _ =>
    h.step (allowed_mkdir hwithin (hr'.trans hr)) (h.1.put fun _ => by simp)

/-- A link on the way into the release directory is one of its own. -/
theorem Ready.found (h : d.Ready disk) {r target : List String} (hr : r <+: q)
    (hq : d.home <+: q) (hlink : disk r = some (.link target)) :
    d.home <+: r ∧
      ∃ link ∈ d.made, r = d.linkPath link ∧ target = d.shared link := by
  rcases prefix_or_prefix_of_prefix hr hq with hup | hdown
  · exact absurd hlink (h.release r hup target)
  by_cases heq : r = d.home
  · exact absurd hlink (h.release r (heq ▸ prefix_refl r) target)
  · exact ⟨hdown, h.own r target hdown heq hlink⟩

/-- The way to what the snapshot copies has no link on it. -/
theorem Contained.clear_reached (h : d.Contained) {rel : List String} (hnames : ∀ n ∈ rel, d.os.Name n)
    (hrel : reached d.os d.w rel = true) (hready : d.Ready disk) :
    Clear disk (d.os.keys (d.releaseDir ++ rel)) := by
  intro r hr target hlink
  rw [keys_append] at hr
  obtain ⟨⟨c, rfl⟩, link, hmade, hplace, -⟩ := hready.found hr (prefix_append _ _) hlink
  obtain ⟨part, hpart, rfl⟩ := prefix_map_iff.1 ((prefix_append_right_inj _).1 hr)
  have hspared := h.spared link hmade part (fun n hn => hnames n (hpart.subset hn)) hplace.symm
  rw [reached_mono hpart hrel] at hspared
  cases hspared

/-- The way to a link has no link on it. -/
theorem Contained.clear_link (h : d.Contained) (hlink : link ∈ d.made)
    (hready : d.Ready disk) : Clear disk (d.linkPath link).dropLast := by
  intro r hr target hr'
  have hprefix := hr.trans (List.dropLast_prefix _)
  obtain ⟨hdown, other, hmade, hplace, -⟩ := hready.found hprefix (h.within link hlink).1 hr'
  have hsame := h.apart link hlink other hmade (hplace ▸ hprefix)
  have hlength := hr.length_le
  have hpos := hdown.length_le
  rw [hplace, hsame] at hlength hpos
  simp only [length_dropLast, home_eq, length_append, length_cons, length_nil] at hlength hpos
  omega

theorem within_append {rel : List String} (hne : rel ≠ []) :
    d.Beneath (d.os.keys (d.releaseDir ++ rel)) := by
  rw [keys_append]
  exact ⟨prefix_append _ _, by simpa [home, AgentOs.keys] using hne⟩

mutual

theorem orderly_walkEntry (h : d.Contained) (tree : SourceTree) (hvalid : tree.Valid d.os)
    (rel : List String) (name : String) (hnames : ∀ n ∈ rel, d.os.Name n) (hname : d.os.Name name)
    (hrel : reached d.os d.w rel = true) :
    Keeps (Of d.Orderly) (walkEntry d.os d.w d.releaseDir rel name tree) := by
  have hwithin : d.Beneath (d.os.keys (d.releaseDir ++ (rel ++ [name]))) := within_append (by simp)
  have hall : ∀ n ∈ rel ++ [name], d.os.Name n := by simpa [or_imp, forall_and] using ⟨hnames, hname⟩
  match tree with
  | .file content =>
    rw [walkEntry, skips_eq hnames hname]
    refine keeps_ite (fun _ => keeps_pure _) fun hleft => keeps_ite (fun _ => keeps_pure _) fun _ => ?_
    have hreached : reached d.os d.w (rel ++ [name]) = true := by
      rw [reached_concat, hrel]
      simpa using hleft
    refine keeps_bind (keeps_bind ?_ fun _ => ?_) fun _ => keeps_pure _
    · rw [keys_dropLast]
      exact orderly_mkdirAll hwithin (List.dropLast_prefix _) fun _ hd =>
        (h.clear_reached hall hreached hd).mono (List.dropLast_prefix _)
    · refine keeps_writeFile (fun _ _ hd => h.clear_reached hall hreached hd.1) fun _ _ hd => ?_
      exact hd.step (.inl hwithin) (hd.1.put fun _ => by simp)
  | .dir entries =>
    rw [walkEntry, skips_eq hnames hname]
    refine keeps_ite (fun _ => keeps_pure _) fun hleft => ?_
    have hreached : reached d.os d.w (rel ++ [name]) = true := by
      rw [reached_concat, hrel]
      simpa using hleft
    refine keeps_bind (orderly_mkdirAll hwithin (prefix_refl _) fun _ hd =>
      h.clear_reached hall hreached hd) fun _ => ?_
    exact orderly_walkEntries h entries hvalid (rel ++ [name]) hall hreached

theorem orderly_walkEntries (h : d.Contained) (entries : List (String × SourceTree))
    (hvalid : ValidEntries d.os entries) (rel : List String) (hnames : ∀ n ∈ rel, d.os.Name n)
    (hrel : reached d.os d.w rel = true) :
    Keeps (Of d.Orderly) (walkEntries d.os d.w d.releaseDir rel entries) := by
  match entries with
  | [] => exact keeps_pure _
  | (name, tree) :: entries =>
    obtain ⟨hname, -, htree, hentries⟩ := hvalid
    refine keeps_bind (orderly_walkEntry h tree htree rel name hnames hname hrel) fun _ => ?_
    exact keeps_bind (orderly_walkEntries h entries hentries rel hnames hrel) fun _ => keeps_pure _

end

theorem orderly_linkShared (h : d.Contained) (hlink : link ∈ d.w.links) :
    Keeps (Of d.Orderly) (d.turn link) := by
  refine keeps_bind (keeps_described ?_) fun _ => keeps_ite (fun _ => keeps_pure _) fun hblank => ?_
  · refine keeps_mkdirAll (fun _ _ hd => hd.1.shared link hlink) fun r hr _ _ hd _ => ?_
    exact hd.step (.inr ⟨r, rfl, .inr ⟨link, hlink, hr⟩⟩) (hd.1.put fun _ => by simp)
  have hmade : link ∈ d.made := mem_filter.2 ⟨hlink, by simpa using hblank⟩
  have hwithin := h.within link hmade
  have hclear : ∀ disk, d.Ready disk → Clear disk (d.linkPath link).dropLast :=
    fun _ hd => h.clear_link hmade hd
  refine keeps_bind (keeps_described ?_) fun _ => keeps_bind (keeps_described ?_) fun _ => keeps_described ?_
  · rw [keys_dropLast]
    exact orderly_mkdirAll hwithin (List.dropLast_prefix _) hclear
  · exact keeps_removeAll (fun _ _ hd => hclear _ hd.1) fun _ _ hd => hd.step (.inl hwithin) hd.1.cut
  · refine keeps_symlink (fun _ _ hd => hclear _ hd.1) fun _ _ hd => ?_
    exact hd.step (.inl hwithin) (hd.1.linked hmade hwithin)

theorem Contained.staysInside (h : d.Contained) : d.StaysInside := by
  intro source s hvalid hready hlog
  have hkeeps : Keeps (Of d.Orderly) (d.run source) := by
    refine keeps_bind (keeps_described ?_) fun _ => keeps_bind ?_ fun _ =>
      keeps_bind (keeps_bind ?_ fun _ => keeps_pure _) fun _ => keeps_pure _
    · refine keeps_mkdirAll (fun _ _ hd => hd.1.release) fun r hr _ _ hd _ => ?_
      exact hd.step (.inr ⟨r, rfl, .inl hr⟩) (hd.1.put fun _ => by simp)
    · cases source with
      | file content => exact keeps_pure _
      | dir entries => exact keeps_described (orderly_walkEntries h entries hvalid [] (by simp) rfl)
    · exact keeps_each fun link hlink => orderly_linkShared h hlink
  refine (hkeeps s ⟨hready, ?_⟩).2
  rw [hlog]
  exact fun c hc => absurd hc not_mem_nil

end Forward

end Deploy

end Healer
