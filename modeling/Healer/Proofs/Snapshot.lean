import Healer.Sanity.DeployFiles

/-! `snapshotSource`: the walk prunes whole directories, so what it copies is told by a predicate on whole paths. -/

namespace Healer

open Prog Function List

open Files

/-! ## The specification -/

section Spec

variable (os : AgentOs) (w : DeployWindows)

/-- Lower-cased, the base name is excluded or the path is one of the shared directories. -/
def leftOut (p : List String) : Bool :=
  p.getLast?.any fun name => os.lower name ∈ w.excluded os || os.lower (os.text p) ∈ w.topLevel os

/-- Neither the path nor an ancestor of it is left out. -/
def reached (p : List String) : Bool := p.inits.all fun q => !leftOut os w q

/-- A file of the project: it and its ancestors are not left out, and it is neither a `.pyc` nor a `.env`. -/
def isProject (p : List String) : Bool := reached os w p && p.getLast?.all fun name => !isJunk os name

/-- A directory that is left out, with no ancestor that is. -/
def isPruned (p : List String) : Bool := leftOut os w p && reached os w p.dropLast

end Spec

mutual

/-- The files of a tree and their contents. -/
def SourceTree.files : SourceTree → List (List String × Bytes)
  | .file content => [([], content)]
  | .dir entries => entryFiles entries

def entryFiles : List (String × SourceTree) → List (List String × Bytes)
  | [] => []
  | (name, tree) :: entries => tree.files.map (fun f => (name :: f.1, f.2)) ++ entryFiles entries

end

mutual

/-- The directories of a tree, itself included. -/
def SourceTree.dirs : SourceTree → List (List String)
  | .file _ => []
  | .dir entries => [] :: entryDirs entries

def entryDirs : List (String × SourceTree) → List (List String)
  | [] => []
  | (name, tree) :: entries => tree.dirs.map (name :: ·) ++ entryDirs entries

end

mutual

/-- The entries of each directory are different for the file system and have names of which a path can be made. -/
def SourceTree.Valid (os : AgentOs) : SourceTree → Prop
  | .file _ => True
  | .dir entries => ValidEntries os entries

def ValidEntries (os : AgentOs) : List (String × SourceTree) → Prop
  | [] => True
  | (name, tree) :: entries =>
    os.Name name ∧ os.key name ∉ entries.map (fun e => os.key e.1) ∧ tree.Valid os ∧ ValidEntries os entries

end

/-- What the file system knows the entries by. -/
abbrev entryKeys (os : AgentOs) (entries : List (String × SourceTree)) : List String := entries.map fun e => os.key e.1

/-! ## Paths -/

section Paths

variable {os : AgentOs} {w : DeployWindows} {rel : List String} {name : String}

theorem leftOut_concat : leftOut os w (rel ++ [name]) =
    (decide (os.lower name ∈ w.excluded os) || decide (os.lower (os.text (rel ++ [name])) ∈ w.topLevel os)) := by
  rw [leftOut, List.getLast?_concat]
  rfl

/-- What the walk asks of an entry. -/
theorem skips_eq (hrel : ∀ n ∈ rel, os.Name n) (hname : os.Name name) :
    skips os w rel name = leftOut os w (rel ++ [name]) := by
  have hall : ∀ n ∈ rel ++ [name], os.Name n := by simpa [or_imp, forall_and] using ⟨hrel, hname⟩
  rw [skips, clean_text (by simp) hall, leftOut_concat]

theorem reached_concat : reached os w (rel ++ [name]) = (reached os w rel && !leftOut os w (rel ++ [name])) := by
  rw [reached, inits_append]
  simp [reached]

theorem reached_mono {p q : List String} (hq : q <+: p) (h : reached os w p = true) : reached os w q = true := by
  rw [reached, all_eq_true] at h ⊢
  exact fun r hr => h r ((mem_inits r p).2 (((mem_inits r q).1 hr).trans hq))

end Paths

/-! ## The walk -/

section Walk

variable {os : AgentOs} {w : DeployWindows} {dst rel : List String} {name k : String}
  {s s' : State String Bytes}

/-- The walk is in the directory `rel`, which has been made. -/
structure Walking (os : AgentOs) (w : DeployWindows) (dst rel : List String) (s : State String Bytes) : Prop where
  names : ∀ n ∈ rel, os.Name n
  reached : reached os w rel = true
  fails : ∀ k, s.fails k = false
  real : Real s.disk (os.keys (dst ++ rel))

/-- Nothing is where the entry would go. -/
def Vacant (os : AgentOs) (dst rel : List String) (k : String) (s : State String Bytes) : Prop :=
  ∀ q, s.disk (os.keys (dst ++ rel) ++ k :: q) = none

/-- The entries with these keys have been walked, which hold `files`. -/
structure Copied (os : AgentOs) (w : DeployWindows) (dst rel keys : List String)
    (files : List (List String × Bytes)) (s s' : State String Bytes) : Prop where
  fails : s'.fails = s.fails
  frame : ∀ q, (∀ k ∈ keys, ¬ os.keys (dst ++ rel) ++ [k] <+: q) → s'.disk q = s.disk q
  content : ∀ k ∈ keys, ∀ q c, s'.disk (os.keys (dst ++ rel) ++ k :: q) = some (.file c) ↔
    ∃ p, os.keys p = k :: q ∧ (p, c) ∈ files ∧ isProject os w (rel ++ p) = true

/-- How many of the files are copied. -/
def copies (os : AgentOs) (w : DeployWindows) (rel : List String) (files : List (List String × Bytes)) : ℕ :=
  (files.filter fun f => isProject os w (rel ++ f.1)).length

def prunes (os : AgentOs) (w : DeployWindows) (rel : List String) (dirs : List (List String)) : ℕ :=
  (dirs.filter fun p => isPruned os w (rel ++ p)).length

theorem isProject_of_leftOut {p q : List String} (h : leftOut os w q = true) (hq : q <+: p) :
    isProject os w p = false := by
  rw [isProject, Bool.and_eq_false_iff]
  left
  rw [reached, all_eq_false]
  exact ⟨q, (mem_inits q p).2 hq, by simpa using h⟩

variable {files : List (List String × Bytes)}

/-- Nothing has been copied, and nothing was to be. -/
theorem copied_none (hfree : Vacant os dst rel k s)
    (h : ∀ f ∈ files, isProject os w (rel ++ f.1) = false) :
    Copied os w dst rel [k] files s s ∧ copies os w rel files = 0 := by
  constructor
  · refine ⟨rfl, fun _ _ => rfl, fun m hm q c => ?_⟩
    rw [mem_singleton.1 hm, hfree q]
    constructor
    · intro hfile
      cases hfile
    · rintro ⟨p, -, hmem, hproject⟩
      rw [h _ hmem] at hproject
      cases hproject
  · rw [copies, length_eq_zero_iff, filter_eq_nil_iff]
    intro f hf
    rw [h f hf]
    exact Bool.false_ne_true

theorem isProject_concat (h : reached os w rel = true) : isProject os w (rel ++ [name]) =
    (!leftOut os w (rel ++ [name]) && !isJunk os name) := by
  rw [isProject, reached_concat, h, List.getLast?_concat, Bool.true_and, Option.all_some]

theorem Vacant.clear (hfree : Vacant os dst rel k s) (hin : Walking os w dst rel s) :
    s.disk (os.keys (dst ++ rel) ++ [k]) = none ∧ Files.Clear s.disk (os.keys (dst ++ rel) ++ [k]) :=
  ⟨hfree [], hin.real.clear_concat (hfree [])⟩

theorem copyFile_run (hin : Walking os w dst rel s) (hfree : Vacant os dst rel (os.key name) s) (content : Bytes) :
    copyFile os content (dst ++ (rel ++ [name])) s =
      (.ok (), s.after (.write (os.keys (dst ++ rel) ++ [os.key name]))
        (Function.update s.disk (os.keys (dst ++ rel) ++ [os.key name]) (some (.file content)))) := by
  obtain ⟨hnone, hclear⟩ := hfree.clear hin
  rw [copyFile, keys_concat, ← append_assoc, dropLast_concat,
    run_bind_ok (mkdirAll_of_real hin.real),
    writeFile_of_dir (follow_clear hclear) _ (by rw [hnone]; rfl), change_ok (hin.fails _)]
  rw [dropLast_concat]
  exact hin.real _ (prefix_refl _)

theorem append_ne_concat {here q : List String} (hq : q ≠ []) : here ++ k :: q ≠ here ++ [k] := by
  simpa using hq

theorem copied_file (hfree : Vacant os dst rel (os.key name) s) (content : Bytes)
    (hkept : isProject os w (rel ++ [name]) = true) :
    Copied os w dst rel [os.key name] [([name], content)] s (s.after (.write (os.keys (dst ++ rel) ++ [os.key name]))
      (Function.update s.disk (os.keys (dst ++ rel) ++ [os.key name]) (some (.file content)))) := by
  refine ⟨rfl, fun q hq => ?_, fun m hm q c => ?_⟩
  · refine update_of_ne ?_ _ _
    rintro rfl
    exact hq _ mem_cons_self (prefix_refl _)
  · rw [mem_singleton.1 hm, State.after_disk]
    by_cases hq : q = []
    · subst hq
      rw [update_self]
      constructor
      · intro hfile
        cases hfile
        exact ⟨[name], rfl, mem_cons_self, hkept⟩
      · rintro ⟨p, -, hmem, -⟩
        cases mem_singleton.1 hmem
        rfl
    · rw [update_of_ne (append_ne_concat hq), hfree q]
      refine iff_of_false nofun ?_
      rintro ⟨p, hp, hmem, -⟩
      cases mem_singleton.1 hmem
      exact hq (List.cons.inj hp).2.symm

theorem walkFile_spec (hin : Walking os w dst rel s) (hname : os.Name name)
    (hfree : Vacant os dst rel (os.key name) s) (content : Bytes) :
    ∃ s', walkEntry os w dst rel name (.file content) s = (.ok (copies os w rel [([name], content)], 0), s') ∧
      Copied os w dst rel [os.key name] [([name], content)] s s' := by
  have hproject : isProject os w (rel ++ [name]) = (!leftOut os w (rel ++ [name]) && !isJunk os name) :=
    isProject_concat hin.reached
  rw [walkEntry, skips_eq hin.names hname]
  by_cases hkept : isProject os w (rel ++ [name]) = true
  · have hboth : leftOut os w (rel ++ [name]) = false ∧ isJunk os name = false := by
      rw [hproject] at hkept
      simpa using hkept
    have hone : copies os w rel [([name], content)] = 1 := by simp [copies, hkept]
    refine ⟨_, ?_, copied_file hfree content hkept⟩
    rw [hboth.1, hboth.2, if_neg Bool.false_ne_true, if_neg Bool.false_ne_true, run_bind_ok (copyFile_run hin hfree content), hone]
    rfl
  · have hnone : ∀ f ∈ [([name], content)], isProject os w (rel ++ f.1) = false := by simpa using hkept
    obtain ⟨hcopied, hzero⟩ := copied_none hfree hnone
    refine ⟨s, ?_, hcopied⟩
    rw [hzero]
    cases hleft : leftOut os w (rel ++ [name]) with
    | true => rfl
    | false =>
      have hjunk : isJunk os name = true := by simpa [hproject, hleft] using hkept
      rw [hjunk]
      rfl

/-- The directory of an entry has been made. -/
abbrev entered (os : AgentOs) (dst rel : List String) (k : String) (s : State String Bytes) : State String Bytes :=
  s.after (.mkdir (os.keys (dst ++ rel) ++ [k])) (Function.update s.disk (os.keys (dst ++ rel) ++ [k]) (some .dir))

theorem mkdirAll_run (hin : Walking os w dst rel s) (hfree : Vacant os dst rel (os.key name) s) :
    mkdirAll os.maxLinks (os.keys (dst ++ (rel ++ [name]))) s = (.ok (), entered os dst rel (os.key name) s) := by
  obtain ⟨hnone, hclear⟩ := hfree.clear hin
  rw [keys_concat, mkdirAll_concat, run_bind_ok (mkdirAll_of_real hin.real),
    mkdirMissing_of_none hclear hnone, change_ok (hin.fails _)]

theorem Walking.enter (hin : Walking os w dst rel s) (hname : os.Name name)
    (hfree : Vacant os dst rel (os.key name) s) (hleft : leftOut os w (rel ++ [name]) = false) :
    Walking os w dst (rel ++ [name]) (entered os dst rel (os.key name) s) ∧
      ∀ k, Vacant os dst (rel ++ [name]) k (entered os dst rel (os.key name) s) := by
  refine ⟨⟨?_, ?_, hin.fails, ?_⟩, fun k q => ?_⟩
  · simpa [or_imp, forall_and] using ⟨hin.names, hname⟩
  · rw [reached_concat, hin.reached, hleft]
    rfl
  · rw [keys_concat]
    refine Real.concat (fun q hq => ?_) (update_self _ _ _)
    rw [State.after_disk, update_of_ne]
    · exact hin.real q hq
    · rintro rfl
      simpa using hq.length_le
  · rw [State.after_disk, keys_concat, append_assoc, singleton_append,
      update_of_ne (append_ne_concat (by simp))]
    exact hfree (k :: q)

theorem below_iff {here p : List String} {m : String} : here ++ [k] <+: here ++ m :: p ↔ k = m := by
  rw [prefix_append_right_inj, cons_prefix_cons]
  exact and_iff_left (List.nil_prefix)

theorem not_below {here keys q : List String} {m : String} (hm : m ∉ keys) : ∀ k ∈ keys, ¬ here ++ [k] <+: here ++ m :: q := by
  intro k hk hbelow
  rw [below_iff.1 hbelow] at hk
  exact hm hk

variable {entries : List (String × SourceTree)}

theorem entryFiles_head {f : List String × Bytes} (h : f ∈ entryFiles entries) :
    ∃ k ∈ entryKeys os entries, ∃ q, os.keys f.1 = k :: q := by
  induction entries with
  | nil => cases h
  | cons e entries ih =>
    rw [entryFiles, mem_append, mem_map] at h
    rcases h with ⟨g, -, rfl⟩ | h
    · exact ⟨os.key e.1, mem_cons_self, os.keys g.1, rfl⟩
    · obtain ⟨k, hk, q, hq⟩ := ih h
      exact ⟨k, mem_cons_of_mem _ hk, q, hq⟩

theorem entryDirs_ne_nil {p : List String} (h : p ∈ entryDirs entries) :
    p ≠ [] := by
  induction entries with
  | nil => cases h
  | cons e entries ih =>
    rw [entryDirs, mem_append, mem_map] at h
    rcases h with ⟨q, -, rfl⟩ | h
    · exact cons_ne_nil _ _
    · exact ih h

theorem copies_below (files : List (List String × Bytes)) :
    copies os w (rel ++ [name]) files = copies os w rel (files.map fun f => (name :: f.1, f.2)) := by
  simp [copies, filter_map, comp_def]

theorem prunes_below (dirs : List (List String)) :
    prunes os w (rel ++ [name]) dirs = prunes os w rel (dirs.map (name :: ·)) := by
  simp [prunes, filter_map, comp_def]

theorem prunes_dir (hreached : reached os w rel = true) (entries : List (String × SourceTree)) :
    prunes os w rel ((SourceTree.dir entries).dirs.map (name :: ·)) =
      (leftOut os w (rel ++ [name])).toNat + prunes os w (rel ++ [name]) (entryDirs entries) := by
  have hself : isPruned os w (rel ++ [name]) = leftOut os w (rel ++ [name]) := by
    rw [isPruned, dropLast_concat, hreached, Bool.and_true]
  rw [prunes_below, SourceTree.dirs, map_cons, prunes, prunes, filter_cons, hself]
  cases leftOut os w (rel ++ [name])
  · simp
  · simp [Nat.add_comm]

/-- A skipped directory: nothing of it is to be copied, and no directory below it counts. -/
theorem pruned_dir (h : leftOut os w (rel ++ [name]) = true) (entries : List (String × SourceTree)) :
    (∀ f ∈ (entryFiles entries).map (fun f => (name :: f.1, f.2)), isProject os w (rel ++ f.1) = false) ∧
      prunes os w (rel ++ [name]) (entryDirs entries) = 0 := by
  constructor
  · intro f hf
    obtain ⟨g, -, rfl⟩ := mem_map.1 hf
    exact isProject_of_leftOut h ⟨g.1, by simp⟩
  · rw [prunes, length_eq_zero_iff, filter_eq_nil_iff]
    intro p hp
    rw [isPruned, dropLast_append_of_ne_nil (entryDirs_ne_nil hp)]
    have hnot : reached os w (rel ++ [name] ++ p.dropLast) = false := by
      rw [reached, all_eq_false]
      exact ⟨rel ++ [name], (mem_inits _ _).2 (prefix_append _ _), by simpa using h⟩
    rw [hnot, Bool.and_false]
    exact Bool.false_ne_true

/-- The files below a directory, seen from above it. -/
theorem files_above {q : List String} {c : Bytes} :
    (∃ p, os.keys p = os.key name :: q ∧ (p, c) ∈ files.map (fun f => (name :: f.1, f.2)) ∧
      isProject os w (rel ++ p) = true) ↔
    ∃ p, os.keys p = q ∧ (p, c) ∈ files ∧ isProject os w (rel ++ [name] ++ p) = true := by
  constructor
  · rintro ⟨p, hp, hmem, hproject⟩
    obtain ⟨f, hf, heq⟩ := mem_map.1 hmem
    cases heq
    refine ⟨f.1, (List.cons.inj hp).2, hf, ?_⟩
    rwa [append_assoc, singleton_append]
  · rintro ⟨p, rfl, hmem, hproject⟩
    refine ⟨name :: p, rfl, mem_map.2 ⟨_, hmem, rfl⟩, ?_⟩
    rwa [append_assoc, singleton_append] at hproject

theorem Copied.above
    (h : Copied os w dst (rel ++ [name]) (entryKeys os entries) (entryFiles entries)
      (entered os dst rel (os.key name) s) s') (hfree : Vacant os dst rel (os.key name) s) :
    Copied os w dst rel [os.key name] ((entryFiles entries).map fun f => (name :: f.1, f.2)) s s' := by
  have hplace := keys_concat os dst rel name
  refine ⟨h.fails, fun q hq => ?_, fun m hm q c => ?_⟩
  · have hout := hq _ mem_cons_self
    rw [h.frame q fun k _ hk => hout ((prefix_append _ [k]).trans (hplace ▸ hk)), State.after_disk,
      update_of_ne]
    rintro rfl
    exact hout (prefix_refl _)
  · rw [mem_singleton.1 hm, files_above]
    cases q with
    | nil =>
      -- the directory itself
      have hdir : s'.disk (os.keys (dst ++ rel) ++ [os.key name]) = some .dir := by
        rw [h.frame _ fun k _ hk => by simpa [hplace] using hk.length_le, State.after_disk, update_self]
      rw [hdir]
      refine iff_of_false nofun ?_
      rintro ⟨p, hp, hmem, -⟩
      obtain ⟨k, -, q, hq⟩ := @entryFiles_head os _ _ hmem
      exact absurd (hp.symm.trans hq) (by simp)
    | cons m q =>
      have hpath : os.keys (dst ++ rel) ++ os.key name :: m :: q = os.keys (dst ++ (rel ++ [name])) ++ m :: q := by
        rw [hplace, append_assoc, singleton_append]
      rw [hpath]
      by_cases hm : m ∈ entryKeys os entries
      · exact h.content m hm q c
      · have hnone : s'.disk (os.keys (dst ++ (rel ++ [name])) ++ m :: q) = none := by
          rw [h.frame _ (not_below hm), ← hpath, State.after_disk,
            update_of_ne (append_ne_concat (cons_ne_nil m q))]
          exact hfree (m :: q)
        rw [hnone]
        refine iff_of_false nofun ?_
        rintro ⟨p, hp, hmem, -⟩
        obtain ⟨k, hk, q', hq'⟩ := @entryFiles_head os _ _ hmem
        exact hm ((List.cons.inj (hp.symm.trans hq')).1 ▸ hk)

/-- Walking one entry leaves the others as they were. -/
theorem Copied.next (h : Copied os w dst rel [k] files s s')
    (hin : Walking os w dst rel s) : Walking os w dst rel s' ∧
      ∀ m, m ≠ k → Vacant os dst rel m s → Vacant os dst rel m s' := by
  refine ⟨⟨hin.names, hin.reached, fun n => by rw [h.fails]; exact hin.fails n, fun q hq => ?_⟩, ?_⟩
  · rw [h.frame q fun m _ hm => by simpa using (hm.trans hq).length_le]
    exact hin.real q hq
  · intro m hne hfree q
    rw [h.frame _ fun k' hk hbelow => hne ?_]
    · exact hfree q
    · rw [← mem_singleton.1 hk, below_iff.1 hbelow]

/-- The first entry, then the others. -/
theorem Copied.cons {keys : List String} {t : State String Bytes} {files files' : List (List String × Bytes)}
    (h : Copied os w dst rel [k] files s s') (h' : Copied os w dst rel keys files' s' t) (hnew : k ∉ keys)
    (hfiles : ∀ f ∈ files, ∃ q, os.keys f.1 = k :: q) (hfiles' : ∀ f ∈ files', ∃ m ∈ keys, ∃ q, os.keys f.1 = m :: q) :
    Copied os w dst rel (k :: keys) (files ++ files') s t := by
  refine ⟨h'.fails.trans h.fails, fun q hq => ?_, fun m hm q c => ?_⟩
  · obtain ⟨hfirst, hrest⟩ := forall_mem_cons.1 hq
    rw [h'.frame q hrest, h.frame q (by simpa using hfirst)]
  · simp only [mem_append]
    by_cases hk : m = k
    · subst hk
      rw [h'.frame _ (not_below hnew), h.content m mem_cons_self q c]
      refine exists_congr fun p => and_congr_right fun hp => and_congr_left fun _ => ?_
      refine ⟨Or.inl, fun hmem => hmem.resolve_right fun hfile => ?_⟩
      obtain ⟨k', hk', q', hq'⟩ := hfiles' _ hfile
      exact hnew ((List.cons.inj (hp.symm.trans hq')).1 ▸ hk')
    · rw [h'.content m ((mem_cons.1 hm).resolve_left hk) q c]
      refine exists_congr fun p => and_congr_right fun hp => and_congr_left fun _ => ?_
      refine ⟨Or.inr, fun hmem => hmem.resolve_left fun hfile => ?_⟩
      obtain ⟨q', hq'⟩ := hfiles _ hfile
      exact hk (List.cons.inj (hp.symm.trans hq')).1

mutual

theorem walkEntry_spec (tree : SourceTree) (hvalid : tree.Valid os) (rel : List String) (name : String)
    (s : State String Bytes) (hin : Walking os w dst rel s) (hname : os.Name name)
    (hfree : Vacant os dst rel (os.key name) s) :
    ∃ s', walkEntry os w dst rel name tree s =
        (.ok (copies os w rel (tree.files.map fun f => (name :: f.1, f.2)),
          prunes os w rel (tree.dirs.map (name :: ·))), s') ∧
      Copied os w dst rel [os.key name] (tree.files.map fun f => (name :: f.1, f.2)) s s' := by
  match tree with
  | .file content => exact walkFile_spec hin hname hfree content
  | .dir entries =>
    rw [walkEntry, skips_eq hin.names hname, prunes_dir hin.reached, SourceTree.files]
    cases hleft : leftOut os w (rel ++ [name]) with
    | true =>
      obtain ⟨hnone, hzero⟩ := pruned_dir hleft entries
      obtain ⟨hcopied, hcopies⟩ := copied_none hfree hnone
      refine ⟨s, ?_, hcopied⟩
      rw [hcopies, hzero]
      rfl
    | false =>
      obtain ⟨hinner, hvacant⟩ := hin.enter hname hfree hleft
      obtain ⟨s', hrun, hcopied⟩ := walkEntries_spec entries hvalid (rel ++ [name]) _ hinner fun k _ => hvacant k
      refine ⟨s', ?_, hcopied.above hfree⟩
      rw [if_neg Bool.false_ne_true, run_bind_ok (mkdirAll_run hin hfree), hrun, copies_below]
      simp

theorem walkEntries_spec (entries : List (String × SourceTree)) (hvalid : ValidEntries os entries)
    (rel : List String) (s : State String Bytes) (hin : Walking os w dst rel s)
    (hfree : ∀ k ∈ entryKeys os entries, Vacant os dst rel k s) :
    ∃ s', walkEntries os w dst rel entries s =
        (.ok (copies os w rel (entryFiles entries), prunes os w rel (entryDirs entries)), s') ∧
      Copied os w dst rel (entryKeys os entries) (entryFiles entries) s s' := by
  match entries with
  | [] => exact ⟨s, rfl, rfl, fun _ _ => rfl, fun n hn => absurd hn not_mem_nil⟩
  | (name, tree) :: entries =>
    obtain ⟨hname, hnew, htree, hentries⟩ := hvalid
    obtain ⟨s₁, hfirst, hcopied⟩ := walkEntry_spec tree htree rel name s hin hname (hfree _ mem_cons_self)
    obtain ⟨hin₁, hvacant⟩ := hcopied.next hin
    obtain ⟨s₂, hrest, hcopied'⟩ := walkEntries_spec entries hentries rel s₁ hin₁ fun k hk =>
      hvacant k (fun h => hnew (h ▸ hk)) (hfree k (mem_cons_of_mem _ hk))
    refine ⟨s₂, ?_, ?_⟩
    · rw [walkEntries, run_bind_ok hfirst, run_bind_ok hrest]
      simp [entryFiles, entryDirs, copies, prunes]
      rfl
    · refine hcopied.cons hcopied' hnew (fun f hf => ?_) fun f hf => entryFiles_head hf
      obtain ⟨g, -, rfl⟩ := mem_map.1 hf
      exact ⟨os.keys g.1, rfl⟩

end

end Walk

/-- Copying into an empty directory leaves there exactly the files of the project, with their contents, each where its
path leads, and counts them and the directories that were skipped as a whole. -/
theorem snapshot_copies_project (os : AgentOs) (w : DeployWindows) (src : String) {dst : List String}
    {entries : List (String × SourceTree)} (hvalid : (SourceTree.dir entries).Valid os) {s : State String Bytes}
    (hdst : Real s.disk (os.keys dst)) (hempty : ∀ q, q ≠ [] → s.disk (os.keys dst ++ q) = none)
    (hio : ∀ k, s.fails k = false) :
    ∃ s', snapshotSource os w dst src (.dir entries) s =
        (.ok (((SourceTree.dir entries).files.filter fun f => isProject os w f.1).length,
          ((SourceTree.dir entries).dirs.filter (isPruned os w)).length), s') ∧
      ∀ q content, s'.disk (os.keys dst ++ q) = some (.file content) ↔
        ∃ p, os.keys p = q ∧ (p, content) ∈ (SourceTree.dir entries).files ∧ isProject os w p = true := by
  have hroot : isPruned os w [] = false := rfl
  have hin : Walking os w dst [] s := by
    refine ⟨by simp, rfl, hio, ?_⟩
    rw [append_nil]
    exact hdst
  obtain ⟨s', hrun, hcopied⟩ := walkEntries_spec entries hvalid [] s hin fun k _ q => by
    rw [append_nil]
    exact hempty (k :: q) (by simp)
  have hframe := hcopied.frame
  have hcontent := hcopied.content
  rw [append_nil] at hframe hcontent
  refine ⟨s', ?_, fun q content => ?_⟩
  · rw [snapshotSource, described_ok hrun, SourceTree.dirs, filter_cons, hroot]
    rfl
  · rw [SourceTree.files]
    cases q with
    | nil =>
      have hdir : s'.disk (os.keys dst ++ []) = some .dir := by
        rw [hframe _ fun k _ hk => by simpa using hk.length_le, append_nil]
        exact hdst _ (prefix_refl _)
      rw [hdir]
      refine iff_of_false (by simp) ?_
      rintro ⟨p, hp, hmem, -⟩
      obtain ⟨k, -, q, hq⟩ := @entryFiles_head os _ _ hmem
      exact absurd (hp.symm.trans hq) (by simp)
    | cons k q =>
      by_cases hk : k ∈ entryKeys os entries
      · exact hcontent k hk q content
      · rw [hframe _ (not_below hk), hempty (k :: q) (by simp)]
        refine iff_of_false (by simp) ?_
        rintro ⟨p, hp, hmem, -⟩
        obtain ⟨m, hm, q', hq'⟩ := @entryFiles_head os _ _ hmem
        exact hk ((List.cons.inj (hp.symm.trans hq')).1 ▸ hm)

def sampleWindows : DeployWindows where
  pythonExecutable := "python.exe"
  requirementsFile := "requirements.txt"
  managePy := "manage.py"
  staticDir := "static"
  mediaDir := "media"
  logDir := "logs"
  exclude := ["notes"]

def sampleSource : List (String × SourceTree) :=
  [(".env", .file [1]), ("docs", .dir [("static", .dir [("a.css", .file [2])])]), ("Static", .dir [("b.css", .file [3])])]

theorem sampleSource_valid : (SourceTree.dir sampleSource).Valid linuxOs := by
  have hplain : ∀ n ∈ [".env", "docs", "static", "a.css", "Static", "b.css"],
      n.toList.all (fun c => linuxOs.isSeparator c == false) = true := by decide
  have hname : ∀ n ∈ [".env", "docs", "static", "a.css", "Static", "b.css"], linuxOs.Name n := fun n hn =>
    ⟨by rintro rfl; simp at hn, by rintro rfl; simp at hn, by rintro rfl; simp at hn,
      fun c hc => by simpa using all_eq_true.1 (hplain n hn) c hc, rfl⟩
  have hkey : linuxOs.key = id := rfl
  simp [sampleSource, SourceTree.Valid, ValidEntries, hname, hkey]

/-- The directory `r`, empty. -/
def sampleDisk : State String Bytes :=
  ⟨fun q => if q = [] ∨ q = ["r"] then some .dir else none, [], fun _ => false, 0⟩

/-- One file is copied and one directory skipped: `docs/static` is not the shared directory. -/
theorem snapshot_copies_project_sample :
    ∃ s', snapshotSource linuxOs sampleWindows ["r"] "/srv/shop" (.dir sampleSource) sampleDisk = (.ok (1, 1), s') ∧
      s'.disk ["r", "docs", "static", "a.css"] = some (.file [2]) ∧ s'.disk ["r", ".env"] ≠ some (.file [1]) := by
  have hdst : Real sampleDisk.disk (linuxOs.keys ["r"]) := by
    intro q hq
    change q <+: ["r"] at hq
    rw [← mem_inits] at hq
    simp only [List.inits, List.map, mem_cons, not_mem_nil, or_false] at hq
    exact if_pos hq
  have hempty : ∀ q, q ≠ [] → sampleDisk.disk (linuxOs.keys ["r"] ++ q) = none := by
    intro q hq
    have hroom : ¬ (["r"] ++ q = [] ∨ ["r"] ++ q = ["r"]) := by simpa using hq
    exact if_neg hroom
  obtain ⟨s', hrun, hfiles⟩ := snapshot_copies_project linuxOs sampleWindows "/srv/shop" (s := sampleDisk)
    sampleSource_valid hdst hempty fun _ => rfl
  refine ⟨s', ?_, ?_, fun henv => ?_⟩
  · rw [hrun]
    have hcounts : (((SourceTree.dir sampleSource).files.filter fun f => isProject linuxOs sampleWindows f.1).length,
        ((SourceTree.dir sampleSource).dirs.filter (isPruned linuxOs sampleWindows)).length) = (1, 1) := by
      decide +kernel
    rw [hcounts]
  · exact (hfiles ["docs", "static", "a.css"] [2]).2 ⟨["docs", "static", "a.css"], rfl, by decide +kernel⟩
  · obtain ⟨p, hp, hmem, hproject⟩ := (hfiles [".env"] [1]).1 henv
    obtain rfl : p = [".env"] := (map_id p).symm.trans hp
    exact absurd hproject (by decide +kernel)

end Healer
