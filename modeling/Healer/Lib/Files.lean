import Healer.Lib.Prog

/-! A file system with symbolic links, and the calls of a program that names files by absolute paths. Each change is
entered in a log under the place where it happens, which the links on the way decide. -/

namespace Files

open List

variable {ν γ : Type}

inductive Node (ν γ : Type)
  | dir
  | file (content : γ)
  | link (target : List ν)

/-- What stands at each place. No part of a place is followed. -/
abbrev Disk (ν γ : Type) := List ν → Option (Node ν γ)

inductive Errno
  | notDirectory
  | alreadyExists
  | noEntry
  | isDirectory
  | tooManyLinks
  | failed
  deriving DecidableEq

inductive Change (ν : Type)
  | mkdir (place : List ν)
  | write (place : List ν)
  | remove (place : List ν)
  | link (place : List ν)
  deriving DecidableEq

def Change.place : Change ν → List ν
  | .mkdir p => p
  | .write p => p
  | .remove p => p
  | .link p => p

structure State (ν γ : Type) where
  disk : Disk ν γ
  log : List (Change ν)
  /-- Which changes end with an I/O error. -/
  fails : ℕ → Bool
  turn : ℕ

abbrev Call (ν γ α : Type) := Prog (State ν γ) Errno α

/-- Where `rest` leads from `cur`; a link sends the rest of the way to `jump`. -/
def followFrom (disk : Disk ν γ) (jump : List ν → Option (List ν)) : (cur rest : List ν) → Option (List ν)
  | cur, [] => some cur
  | cur, n :: rest =>
    match disk (cur ++ [n]) with
    | some (.link target) => jump (target ++ rest)
    | _ => followFrom disk jump (cur ++ [n]) rest

/-- The place that a path names if every link on it is followed, at most `depth` of them. -/
def follow (disk : Disk ν γ) : (depth : ℕ) → List ν → Option (List ν)
  | 0 => followFrom disk (fun _ => none) []
  | depth + 1 => followFrom disk (follow disk depth) []

/-- The place that a path names if its last part is not followed. -/
def place (disk : Disk ν γ) (depth : ℕ) (p : List ν) : Option (List ν) :=
  match p.getLast? with
  | none => some []
  | some n => (follow disk depth p.dropLast).map (· ++ [n])

def stat (disk : Disk ν γ) (depth : ℕ) (p : List ν) : Option (Node ν γ) := (follow disk depth p).bind disk

/-- The state after a change. -/
def State.after (s : State ν γ) (c : Change ν) (disk : Disk ν γ) : State ν γ :=
  { s with disk := disk, log := s.log ++ [c], turn := s.turn + 1 }

@[simp] theorem State.after_disk (s : State ν γ) (c : Change ν) (disk : Disk ν γ) : (s.after c disk).disk = disk := rfl

/-- A change that fails is in the log too: part of it may have been made. -/
def change (c : Change ν) (f : Disk ν γ → Disk ν γ) : Call ν γ Unit := fun s =>
  if s.fails s.turn then (.error .failed, s.after c s.disk) else (.ok (), s.after c (f s.disk))

section Calls

variable [DecidableEq ν] (depth : ℕ)

def mkdirMissing (p : List ν) : Call ν γ Unit := do
  let disk ← Prog.read State.disk
  match stat disk depth p with
  | some .dir => pure ()
  | some _ => Prog.raise .notDirectory
  | none =>
    match place disk depth p with
    | none => Prog.raise .tooManyLinks
    | some at_ =>
      if (disk at_).isSome then Prog.raise .alreadyExists
      else change (.mkdir at_) fun disk => Function.update disk at_ (some .dir)

/-- `os.MkdirAll` -/
def mkdirAll (p : List ν) : Call ν γ Unit := Prog.each (mkdirMissing depth) p.inits.tail

/-- `os.RemoveAll`. It does not follow the links below. -/
def removeAll (p : List ν) : Call ν γ Unit := do
  let disk ← Prog.read State.disk
  match place disk depth p with
  | none => Prog.raise .tooManyLinks
  | some at_ =>
    if (disk at_).isNone then pure ()
    else change (.remove at_) fun disk q => if at_ <+: q then none else disk q

def isDir : Option (Node ν γ) → Bool
  | some .dir => true
  | _ => false

/-- `os.Symlink` -/
def symlink (target p : List ν) : Call ν γ Unit := do
  let disk ← Prog.read State.disk
  match place disk depth p with
  | none => Prog.raise .tooManyLinks
  | some at_ =>
    if (disk at_).isSome then Prog.raise .alreadyExists
    else if !isDir (disk at_.dropLast) then Prog.raise .noEntry
    else change (.link at_) fun disk => Function.update disk at_ (some (.link target))

/-- `os.OpenFile` with `O_CREATE|O_TRUNC|O_WRONLY`, and the writing of the whole content. -/
def writeFile (p : List ν) (content : γ) : Call ν γ Unit := do
  let disk ← Prog.read State.disk
  match follow disk depth p with
  | none => Prog.raise .tooManyLinks
  | some at_ =>
    if isDir (disk at_) then Prog.raise .isDirectory
    else if !isDir (disk at_.dropLast) then Prog.raise .noEntry
    else change (.write at_) fun disk => Function.update disk at_ (some (.file content))

end Calls

/-! ## Ways without links -/

/-- No link on the way. -/
def Clear (disk : Disk ν γ) (p : List ν) : Prop := ∀ q, q <+: p → ∀ target, disk q ≠ some (.link target)

/-- Every part of the way is a directory. -/
def Real (disk : Disk ν γ) (p : List ν) : Prop := ∀ q, q <+: p → disk q = some .dir

section Ways

variable {disk : Disk ν γ} {p q : List ν} {depth : ℕ} {jump : List ν → Option (List ν)}

theorem Clear.mono (h : Clear disk p) (hq : q <+: p) : Clear disk q := fun _ hr => h _ (hr.trans hq)

theorem Real.clear (h : Real disk p) : Clear disk p := fun q hq target hlink => by
  rw [h q hq] at hlink
  cases hlink

theorem Real.concat {n : ν} (h : Real disk p) (hn : disk (p ++ [n]) = some .dir) : Real disk (p ++ [n]) := by
  intro q hq
  rcases prefix_concat_iff.1 hq with rfl | hq
  · exact hn
  · exact h q hq

theorem Real.clear_concat {n : ν} (h : Real disk p) (hn : disk (p ++ [n]) = none) : Clear disk (p ++ [n]) := by
  intro q hq target hlink
  rcases prefix_concat_iff.1 hq with rfl | hq
  · rw [hn] at hlink
    cases hlink
  · exact h.clear q hq target hlink

theorem Real.mono (h : Real disk p) (hq : q <+: p) : Real disk q := fun _ hr => h _ (hr.trans hq)

theorem followFrom_clear {cur rest : List ν} (h : Clear disk (cur ++ rest)) :
    followFrom disk jump cur rest = some (cur ++ rest) := by
  induction rest generalizing cur with
  | nil => rw [followFrom, append_nil]
  | cons n rest ih =>
    rw [append_cons] at h ⊢
    have hnode := h (cur ++ [n]) (prefix_append _ _)
    rw [followFrom, ← ih h]
    split
    · exact absurd ‹_› (hnode _)
    · rfl

theorem follow_clear (h : Clear disk p) : follow disk depth p = some p := by
  cases depth <;> exact followFrom_clear h

theorem followFrom_append {cur rest more : List ν} (h : Clear disk (cur ++ rest)) :
    followFrom disk jump cur (rest ++ more) = followFrom disk jump (cur ++ rest) more := by
  induction rest generalizing cur with
  | nil => rw [append_nil, nil_append]
  | cons n rest ih =>
    rw [append_cons] at h ⊢
    have hnode := h (cur ++ [n]) (prefix_append _ _)
    rw [cons_append, followFrom, ← ih h]
    split
    · exact absurd ‹_› (hnode _)
    · rfl

/-- The first link on the way. -/
theorem exists_first_link (h : ¬ Clear disk p) (hroot : ∀ target, disk [] ≠ some (.link target)) :
    ∃ front n rest target, p = front ++ n :: rest ∧ Clear disk front ∧ disk (front ++ [n]) = some (.link target) := by
  induction p using List.reverseRecOn with
  | nil =>
    refine absurd (fun q hq => ?_) h
    rw [prefix_nil.1 hq]
    exact hroot
  | append_singleton q n ih =>
    by_cases hq : Clear disk q
    · simp only [Clear, not_forall, not_not] at h
      obtain ⟨r, hr, target, hlink⟩ := h
      rcases prefix_concat_iff.1 hr with rfl | hr
      · exact ⟨q, n, [], target, rfl, hq, hlink⟩
      · exact absurd hlink (hq r hr target)
    · obtain ⟨front, m, rest, target, rfl, hfront, hlink⟩ := ih hq
      exact ⟨front, m, rest ++ [n], target, by simp, hfront, hlink⟩

/-- The way through one link. -/
theorem follow_link {n : ν} {target rest : List ν} (hdepth : 0 < depth) (h : Clear disk p)
    (hlink : disk (p ++ [n]) = some (.link target)) (hrest : Clear disk (target ++ rest)) :
    follow disk depth (p ++ n :: rest) = some (target ++ rest) := by
  obtain ⟨d, rfl⟩ : ∃ d, depth = d + 1 := ⟨depth - 1, by omega⟩
  have hway : followFrom disk (follow disk d) [] (p ++ n :: rest) = followFrom disk (follow disk d) p (n :: rest) :=
    followFrom_append h
  rw [follow, hway, followFrom, hlink]
  exact follow_clear hrest

theorem place_clear (h : Clear disk p.dropLast) : place disk depth p = some p := by
  unfold place
  rcases eq_nil_or_concat p with rfl | ⟨q, n, rfl⟩
  · rfl
  · rw [concat_eq_append, dropLast_concat] at h
    rw [concat_eq_append, dropLast_concat, List.getLast?_concat, follow_clear h]
    rfl

theorem place_concat {n : ν} : place disk depth (p ++ [n]) = (follow disk depth p).map (· ++ [n]) := by
  rw [place, List.getLast?_concat, dropLast_concat]

theorem stat_clear (h : Clear disk p) : stat disk depth p = disk p := by
  rw [stat, follow_clear h]
  rfl

end Ways

/-! ## One call -/

section Run

variable [DecidableEq ν] {s : State ν γ} {p at_ target : List ν} {content : γ} {depth : ℕ}

/-- What is left when a directory is removed. -/
def cut (disk : Disk ν γ) (p : List ν) : Disk ν γ := fun q => if p <+: q then none else disk q

omit [DecidableEq ν] in
theorem change_ok {c : Change ν} {f : Disk ν γ → Disk ν γ} (h : s.fails s.turn = false) :
    change c f s = (.ok (), s.after c (f s.disk)) := by
  simp [change, h]

theorem mkdirMissing_of_dir (h : stat s.disk depth p = some .dir) : mkdirMissing depth p s = (.ok (), s) := by
  simp only [mkdirMissing, Prog.run_read_bind, h]
  rfl

theorem mkdirMissing_of_none (h : Clear s.disk p) (hnone : s.disk p = none) :
    mkdirMissing depth p s = change (.mkdir p) (fun disk => Function.update disk p (some .dir)) s := by
  simp [mkdirMissing, Prog.run_read_bind, stat_clear h, place_clear (h.mono (List.dropLast_prefix p)), hnone]

theorem mkdirMissing_cases (h : Clear s.disk p) : (∃ r, mkdirMissing depth p s = (r, s)) ∨
    (s.disk p = none ∧
      mkdirMissing depth p s = change (.mkdir p) (fun disk => Function.update disk p (some .dir)) s) := by
  rcases hnode : s.disk p with _ | _ | content | target
  · exact .inr ⟨rfl, mkdirMissing_of_none h hnode⟩
  · exact .inl ⟨_, mkdirMissing_of_dir (by rw [stat_clear h, hnode])⟩
  · refine .inl ⟨.error .notDirectory, ?_⟩
    simp only [mkdirMissing, Prog.run_read_bind, stat_clear h, hnode]
    rfl
  · exact absurd hnode (h p (prefix_refl p) target)

theorem removeAll_of_none (hplace : place s.disk depth p = some at_) (h : s.disk at_ = none) :
    removeAll depth p s = (.ok (), s) := by
  simp only [removeAll, Prog.run_read_bind, hplace, h]
  rfl

theorem removeAll_of_some (hplace : place s.disk depth p = some at_) (h : s.disk at_ ≠ none) :
    removeAll depth p s = change (.remove at_) (cut · at_) s := by
  simp only [removeAll, Prog.run_read_bind, hplace, Option.isNone_iff_eq_none, h, if_false]
  rfl

theorem symlink_cases (h : Clear s.disk p.dropLast) : (∃ r, symlink depth target p s = (r, s)) ∨
    (s.disk p = none ∧
      symlink depth target p s = change (.link p) (fun disk => Function.update disk p (some (.link target))) s) := by
  simp only [symlink, Prog.run_read_bind, place_clear h]
  split_ifs with hsome hdir
  · exact .inl ⟨_, rfl⟩
  · exact .inl ⟨_, rfl⟩
  · exact .inr ⟨by simpa using hsome, rfl⟩

theorem symlink_of_real (h : Real s.disk p.dropLast) (hnone : s.disk p = none) :
    symlink depth target p s = change (.link p) (fun disk => Function.update disk p (some (.link target))) s := by
  have hparent : isDir (s.disk p.dropLast) = true := by rw [h _ (prefix_refl _)]; rfl
  simp [symlink, Prog.run_read_bind, place_clear h.clear, hnone, hparent]

/-- The way to what is removed stays. -/
theorem Real.cut_dropLast {disk : Disk ν γ} (h : Real disk p.dropLast) (hne : p ≠ []) :
    Real (cut disk p) p.dropLast := by
  intro q hq
  have hout : ¬ p <+: q := fun hp => by
    have hlength := (hp.trans hq).length_le
    have hpos := length_pos_of_ne_nil hne
    rw [length_dropLast] at hlength
    omega
  rw [cut, if_neg hout]
  exact h q hq

theorem writeFile_cases (h : Clear s.disk p) : (∃ r, writeFile depth p content s = (r, s)) ∨
    writeFile depth p content s = change (.write p) (fun disk => Function.update disk p (some (.file content))) s := by
  simp only [writeFile, Prog.run_read_bind, follow_clear h]
  split_ifs
  · exact .inl ⟨_, rfl⟩
  · exact .inl ⟨_, rfl⟩
  · exact .inr rfl

theorem writeFile_of_dir (hplace : follow s.disk depth p = some at_) (hdir : s.disk at_.dropLast = some .dir)
    (hfree : isDir (s.disk at_) = false) :
    writeFile depth p content s =
      change (.write at_) (fun disk => Function.update disk at_ (some (.file content))) s := by
  have hparent : isDir (s.disk at_.dropLast) = true := by rw [hdir]; rfl
  simp [writeFile, Prog.run_read_bind, hplace, hfree, hparent]

theorem mkdirAll_concat (p : List ν) (n : ν) :
    (mkdirAll depth (p ++ [n]) : Call ν γ Unit) = mkdirAll depth p >>= fun _ => mkdirMissing depth (p ++ [n]) := by
  have hinits : (p ++ [n]).inits.tail = p.inits.tail ++ [p ++ [n]] := by
    rw [inits_append]
    cases p <;> rfl
  rw [mkdirAll, hinits, Prog.each_append]
  exact congrArg _ (funext fun _ => Prog.bind_unit _)

theorem mkdirAll_of_dirs (h : ∀ q, q <+: p → stat s.disk depth q = some .dir) : mkdirAll depth p s = (.ok (), s) :=
  Prog.each_idle fun q hq => mkdirMissing_of_dir (h q ((mem_inits q p).1 (mem_of_mem_tail hq)))

theorem mkdirAll_of_real (h : Real s.disk p) : mkdirAll depth p s = (.ok (), s) :=
  mkdirAll_of_dirs fun q hq => by rw [stat_clear (h.mono hq).clear, h q hq]

end Run

/-! ## What the calls keep -/

section Keeps

variable [DecidableEq ν] {J : Disk ν γ → List (Change ν) → Prop} {p : List ν} {depth : ℕ}

/-- A property of the disk and the log, in a state. -/
def Of (J : Disk ν γ → List (Change ν) → Prop) (s : State ν γ) : Prop := J s.disk s.log

omit [DecidableEq ν] in
theorem of_change {c : Change ν} {f : Disk ν γ → Disk ν γ} {s : State ν γ}
    (h : J s.disk (s.log ++ [c]) ∧ J (f s.disk) (s.log ++ [c])) : Of J (change c f s).2 := by
  unfold change
  split_ifs
  · exact h.1
  · exact h.2

theorem keeps_mkdirMissing (hclear : ∀ d l, J d l → Clear d p)
    (hstep : ∀ d l, J d l → d p = none →
      J d (l ++ [.mkdir p]) ∧ J (Function.update d p (some .dir)) (l ++ [.mkdir p])) :
    Prog.Keeps (Of J) (mkdirMissing depth p) := by
  intro s hs
  rcases mkdirMissing_cases (hclear s.disk s.log hs) with ⟨r, hr⟩ | ⟨hnone, hr⟩
  · rw [hr]
    exact hs
  · rw [hr]
    exact of_change (hstep s.disk s.log hs hnone)

theorem keeps_mkdirAll (hclear : ∀ d l, J d l → Clear d p)
    (hstep : ∀ q, q <+: p → ∀ d l, J d l → d q = none →
      J d (l ++ [.mkdir q]) ∧ J (Function.update d q (some .dir)) (l ++ [.mkdir q])) :
    Prog.Keeps (Of J) (mkdirAll depth p) := by
  refine Prog.keeps_each fun q hq => ?_
  have hp : q <+: p := (mem_inits q p).1 (mem_of_mem_tail hq)
  exact keeps_mkdirMissing (fun d l h => (hclear d l h).mono hp) (hstep q hp)

theorem keeps_removeAll (hclear : ∀ d l, J d l → Clear d p.dropLast)
    (hstep : ∀ d l, J d l → J d (l ++ [.remove p]) ∧ J (cut d p) (l ++ [.remove p])) :
    Prog.Keeps (Of J) (removeAll depth p) := by
  intro s hs
  have hplace : place s.disk depth p = some p := place_clear (hclear s.disk s.log hs)
  by_cases hnone : s.disk p = none
  · rw [removeAll_of_none hplace hnone]
    exact hs
  · rw [removeAll_of_some hplace hnone]
    exact of_change (hstep s.disk s.log hs)

theorem keeps_symlink {target : List ν} (hclear : ∀ d l, J d l → Clear d p.dropLast)
    (hstep : ∀ d l, J d l →
      J d (l ++ [.link p]) ∧ J (Function.update d p (some (.link target))) (l ++ [.link p])) :
    Prog.Keeps (Of J) (symlink depth target p) := by
  intro s hs
  rcases symlink_cases (hclear s.disk s.log hs) with ⟨r, hr⟩ | ⟨-, hr⟩
  · rw [hr]
    exact hs
  · rw [hr]
    exact of_change (hstep s.disk s.log hs)

theorem keeps_writeFile {content : γ} (hclear : ∀ d l, J d l → Clear d p)
    (hstep : ∀ d l, J d l →
      J d (l ++ [.write p]) ∧ J (Function.update d p (some (.file content))) (l ++ [.write p])) :
    Prog.Keeps (Of J) (writeFile depth p content) := by
  intro s hs
  rcases writeFile_cases (hclear s.disk s.log hs) with ⟨r, hr⟩ | hr
  · rw [hr]
    exact hs
  · rw [hr]
    exact of_change (hstep s.disk s.log hs)

end Keeps

/-! ## The log only grows -/

section Log

variable [DecidableEq ν] {c : Change ν} {p : List ν} {depth : ℕ}

omit [DecidableEq ν] in
theorem logged_change (c' : Change ν) (f : Disk ν γ → Disk ν γ) :
    Prog.Keeps (fun s : State ν γ => c ∈ s.log) (change c' f) := by
  intro s hs
  unfold change
  split_ifs <;> exact mem_append_left _ hs

theorem logged_mkdirAll : Prog.Keeps (fun s : State ν γ => c ∈ s.log) (mkdirAll depth p) := by
  refine Prog.keeps_each fun q _ => Prog.keeps_bind (Prog.keeps_read _) fun disk => ?_
  split
  · exact Prog.keeps_pure _
  · exact Prog.keeps_raise _
  · split
    · exact Prog.keeps_raise _
    · exact Prog.keeps_ite (fun _ => Prog.keeps_raise _) fun _ => logged_change _ _

theorem logged_removeAll : Prog.Keeps (fun s : State ν γ => c ∈ s.log) (removeAll depth p) := by
  refine Prog.keeps_bind (Prog.keeps_read _) fun disk => ?_
  split
  · exact Prog.keeps_raise _
  · exact Prog.keeps_ite (fun _ => Prog.keeps_pure _) fun _ => logged_change _ _

theorem logged_symlink {target : List ν} :
    Prog.Keeps (fun s : State ν γ => c ∈ s.log) (symlink depth target p) := by
  refine Prog.keeps_bind (Prog.keeps_read _) fun disk => ?_
  split
  · exact Prog.keeps_raise _
  · refine Prog.keeps_ite (fun _ => Prog.keeps_raise _) fun _ => ?_
    exact Prog.keeps_ite (fun _ => Prog.keeps_raise _) fun _ => logged_change _ _

end Log

end Files
