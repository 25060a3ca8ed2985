import Healer.Proofs.Injection

/-! Whatever nginx answers and however the calls of `apply` overlap, the managed directory is what
nginx has loaded whenever a call has ended, and a call that fails has changed nothing. -/

namespace Healer.Nginx

open Function List Table String

/-- Every file is the text of some accepted request under the name of its slug. -/
def Written (files : Directory) : Prop :=
  ∀ name text, files name = some text →
    ∃ r : ReloadRequest, managedPath r.appSlug = some name ∧ render r = some text

/-- The directory as it is between calls. -/
structure Quiet (files loaded : Directory) : Prop where
  loads : files.confs = loaded
  written : Written files

/-- Nobody has called `apply` since the manager was started. -/
structure Fresh (m : Manager) : Prop where
  quiet : Quiet m.files m.loaded
  lock : m.lock = none
  calls : m.calls = Table.empty

def Stage.ended : Stage → Bool
  | .done _ | .refused => true
  | _ => false

/-- The call ended without `ok=True`. -/
def Stage.failed : Stage → Bool
  | .done outcome => !outcome.ok
  | .refused => true
  | _ => false

/-- What one step may do: a call that ends with it leaves the directory as nginx has loaded it, and as
the call found it if the call failed; and the step leaves the files of other slugs alone. -/
structure Manager.Sound (m : Manager) (e : ManagerEvent) : Prop where
  loads : ∀ k c c', m.calls.row k = some c → c.stage.ended = false →
    (m.step e).calls.row k = some c' → c'.stage.ended = true →
    (m.step e).files.confs = (m.step e).loaded
  restores : ∀ k c c', m.calls.row k = some c → c.stage.ended = false →
    (m.step e).calls.row k = some c' → c'.stage.failed = true → (m.step e).files = c'.before
  others : ∀ k answer c, e = .step k answer → m.calls.row k = some c →
    ∀ slug path, managedPath slug = some path → slug ≠ c.request.appSlug →
      (m.step e).files path = m.files path

/-! ## Texts and names -/

theorem universalNewlines_eq {cs : List Char} (h : '\r' ∉ cs) : universalNewlines false cs = cs := by
  induction cs with
  | nil => rfl
  | cons c cs ih =>
    rw [mem_cons, not_or] at h
    rw [universalNewlines, if_neg (Ne.symm h.1), Bool.false_and, if_neg Bool.false_ne_true, ih h.2]

theorem plain_ne_return {cs : List Char} (h : ∀ c ∈ cs, lexis.Plain c) : '\r' ∉ cs :=
  fun hr => absurd (h _ hr) (by decide)

theorem upstreamName_no_return {slug path : String} (h : managedPath slug = some path) :
    '\r' ∉ (upstreamName slug).toList := by
  have hhead : '\r' ∉ "healer_".toList := by decide +kernel
  have hclass : ∀ c ∈ '-' :: slugLetters, dashToUnderscore c ≠ '\r' :=
    forall_mem_of_all (by decide +kernel)
  have hmapped : ∀ s ∈ slugRe.matches', '\r' ∉ s.map dashToUnderscore := by
    intro s hs hr
    obtain ⟨c, hc, heq⟩ := mem_map.1 hr
    exact hclass c ((slugRe_mem hs).2 c hc) heq
  rw [upstreamName_toList, mem_append, not_or]
  refine ⟨hhead, ?_⟩
  rcases (managedPath_cases h).2 with hs | ⟨s, hs, hslug⟩
  · exact hmapped _ hs
  · rw [hslug, map_append, mem_append, not_or]
    exact ⟨hmapped s hs, by decide⟩

theorem domainLines_no_return {name : String} (hname : '\r' ∉ name.toList) (d : DomainSpec) :
    ∀ line ∈ domainLines name d, '\r' ∉ line.toList := by
  have hhostname := plain_ne_return (hostnameField_plain d.hostname_ok).2
  have hcert := plain_ne_return (pathField_plain d.certPath_ok).2
  have hkey := plain_ne_return (pathField_plain d.keyPath_ok).2
  simp [domainLines, hname, hhostname, hcert, hkey]

theorem upstreamLine_no_return (u : UpstreamTarget) : '\r' ∉ (upstreamLine u).toList := by
  have h := plain_ne_return (upstream_plain u).2
  have hsides : '\r' ∉ "    server ".toList ∧ '\r' ∉ ";".toList ∧ '\r' ∉ "\n".toList := by simp
  rw [upstreamLine, toList_append, toList_append, toList_append, mem_append,
    mem_append, mem_append]
  tauto

/-- Reading a managed file gives back the text that was written. -/
theorem readText_render {r : ReloadRequest} {path text : String}
    (hpath : managedPath r.appSlug = some path) (htext : render r = some text) :
    readText text = text := by
  have hname := upstreamName_no_return hpath
  unfold render at htext
  split_ifs at htext
  cases htext
  have hlines : ∀ line ∈ confTemplate (upstreamName r.appSlug) r.domains r.upstreams,
      '\r' ∉ line.toList := by
    intro line hline
    simp only [confTemplate, mem_append, mem_cons, not_mem_nil, or_false, mem_map,
      mem_flatMap] at hline
    rcases hline with (((rfl | rfl) | ⟨u, -, rfl⟩) | (rfl | rfl | rfl)) | ⟨d, -, hline⟩
    · simp [hname]
    · simp
    · exact upstreamLine_no_return u
    · simp
    · simp
    · simp
    · exact domainLines_no_return hname d line hline
  have hjoin : '\r' ∉ (String.join (confTemplate (upstreamName r.appSlug) r.domains r.upstreams)).toList := by
    rw [toList_join, mem_flatMap]
    rintro ⟨line, hline, hr⟩
    exact hlines line hline hr
  rw [readText, universalNewlines_eq hjoin, ofList_toList]

theorem path_ne_tmp {slug path : String} (h : managedPath slug = some path) (name : String) :
    path ≠ name ++ ".tmp" := by
  rw [(managedPath_cases h).1]
  intro heq
  have hlast := congrArg (fun s => s.toList.getLast?) heq
  simp at hlast

theorem path_inj {slug slug' path : String} (h : managedPath slug = some path)
    (h' : managedPath slug' = some path) : slug = slug' := by
  have heq := (managedPath_cases h).1.symm.trans (managedPath_cases h').1
  exact (append_left_inj ".conf").1 heq

/-! ## The holder of the lock -/

def Stage.holds : Stage → Bool
  | .waiting | .done _ | .refused => false
  | _ => true

theorem Stage.ended_of_failed {stage : Stage} (h : stage.failed = true) : stage.ended = true := by
  cases stage <;> first | rfl | cases h

theorem Stage.not_holds_of_ended {stage : Stage} (h : stage.ended = true) : stage.holds = false := by
  cases stage <;> first | rfl | cases h

/-- The directory with the new text in place. -/
def Call.after (c : Call) : Directory := Function.update c.before c.path (render c.request)

/-- The directory that `_write_or_remove` starts from. -/
def Call.base (c : Call) : Writing → Directory
  | .activate => c.before
  | .rejected _ | .notReloaded _ => c.after

/-- The directory that it is to leave. -/
def Call.result (c : Call) : Writing → Directory
  | .activate => c.after
  | .rejected _ | .notReloaded _ => c.before

/-- The directory while the call holds the lock. -/
def Call.disk (c : Call) : Directory :=
  match c.stage with
  | .writing why => c.base why
  | .replacing why => Function.update (c.base why) c.tmpPath (c.target why)
  | .validating | .reloading => c.after
  | _ => c.before

structure Holding (m : Manager) (c : Call) : Prop where
  quiet : Quiet c.before m.loaded
  disk : m.files = c.disk
  path : c.stage ≠ .reading → managedPath c.request.appSlug = some c.path
  previous : c.stage ≠ .reading → c.previous = c.before c.path

structure Inv (m : Manager) : Prop where
  free : m.lock = none → Quiet m.files m.loaded
  held : ∀ k, m.lock = some k → ∃ c, m.calls.row k = some c ∧ c.stage.holds = true ∧ Holding m c
  sole : ∀ k c, m.calls.row k = some c → c.stage.holds = true → m.lock = some k

theorem Fresh.inv {m : Manager} (h : Fresh m) : Inv m := by
  refine ⟨fun _ => h.quiet, fun k hk => ?_, fun k c hrow => ?_⟩
  · rw [h.lock] at hk
    cases hk
  · rw [h.calls] at hrow
    cases hrow

variable {files : Directory}

theorem Written.tmp (h : Written files) (name : String) :
    files (name ++ ".tmp") = none := by
  cases htext : files (name ++ ".tmp") with
  | none => rfl
  | some text =>
    obtain ⟨r, hpath, -⟩ := h _ _ htext
    exact absurd rfl (path_ne_tmp hpath name)

theorem Written.update (h : Written files) {r : ReloadRequest} {path : String}
    (hpath : managedPath r.appSlug = some path) : Written (Function.update files path (render r)) := by
  intro name text htext
  by_cases hname : name = path
  · subst hname
    rw [update_self] at htext
    exact ⟨r, hpath, htext⟩
  · rw [update_of_ne hname] at htext
    exact h name text htext

/-- Reading a file of a directory that `apply` wrote. -/
theorem Written.read (h : Written files) (path : String) :
    (files path).map readText = files path := by
  cases htext : files path with
  | none => rfl
  | some text =>
    obtain ⟨r, hpath, hr⟩ := h _ _ htext
    rw [Option.map_some, readText_render hpath hr]

/-- `os.replace` moves the temporary file over the managed one and leaves nothing behind. -/
theorem replace_tmp {path tmp : String} {text : Option String} (hne : path ≠ tmp)
    (htmp : files tmp = none) :
    Function.update (Function.update (Function.update files tmp text) path text) tmp none =
      Function.update files path text := by
  have hsame : Function.update files tmp none = files := update_eq_self_iff.2 htmp.symm
  rw [update_comm hne, update_idem, hsame]

namespace Holding

variable {m : Manager} {c : Call} {why : Writing}

theorem path_ne_tmpPath (h : Holding m c) (hstage : c.stage ≠ .reading) : c.path ≠ c.tmpPath :=
  path_ne_tmp (h.path hstage) c.path

/-- The text that is written makes the directory what it is to be. -/
theorem base_update (h : Holding m c) (hstage : c.stage ≠ .reading) :
    Function.update (c.base why) c.path (c.target why) = c.result why := by
  cases why with
  | activate => rfl
  | rejected detail | notReloaded detail =>
    simp only [Call.base, Call.target, Call.result, Call.after, update_idem, h.previous hstage,
      update_eq_self]

theorem base_tmp (h : Holding m c) (hstage : c.stage ≠ .reading) : c.base why c.tmpPath = none := by
  have htmp : c.before c.tmpPath = none := h.quiet.written.tmp c.path
  cases why with
  | activate => exact htmp
  | rejected detail | notReloaded detail =>
    rw [Call.base, Call.after, update_of_ne (h.path_ne_tmpPath hstage).symm]
    exact htmp

end Holding

/-! ## Steps -/

/-- Call `k` took a step from `m` to `m'` and is `c'` now: it holds the lock, or has given it back. -/
structure Turn (m m' : Manager) (k : ℕ) (c' : Call) : Prop where
  rows : ∀ j, j ≠ k → m'.calls.row j = m.calls.row j
  row : m'.calls.row k = some c'
  outcome : (m'.lock = some k ∧ c'.stage.holds = true ∧ Holding m' c') ∨
    (m'.lock = none ∧ c'.stage.holds = false ∧ Quiet m'.files m'.loaded ∧
      (c'.stage.failed = true → m'.files = c'.before))
  frame : ∀ slug path, managedPath slug = some path → slug ≠ c'.request.appSlug →
    m'.files path = m.files path

section Goto

variable {m : Manager} {c : Call} {k : ℕ} {stage : Stage}

theorem goto_row (hrow : m.calls.row k = some c) :
    (m.goto k stage).calls.row k = some { c with stage := stage } := by
  simp only [Manager.goto, modify_row_self, hrow, Option.map_some]

theorem goto_rows {j : ℕ} (hj : j ≠ k) : (m.goto k stage).calls.row j = m.calls.row j :=
  modify_row_of_ne m.calls _ hj

theorem goto_lock : (m.goto k stage).lock = if stage.ended then none else m.lock := by
  cases stage <;> rfl

end Goto

section Frame

variable {m : Manager} {c : Call} {slug path : String}

theorem setFile_path (hc : managedPath c.request.appSlug = some c.path) (hpath : managedPath slug = some path)
    (hne : slug ≠ c.request.appSlug) (text : Option String) :
    (m.setFile c.path text).files path = m.files path := by
  refine update_of_ne (fun heq => hne ?_) _ _
  rw [heq] at hpath
  exact path_inj hpath hc

theorem setFile_tmp (hpath : managedPath slug = some path) (text : Option String) :
    (m.setFile c.tmpPath text).files path = m.files path :=
  update_of_ne (path_ne_tmp hpath c.path) _ _

end Frame

section Turns

variable {m m' : Manager} {c : Call} {k : ℕ} {stage : Stage} {why : Writing}

/-- What is known when call `k` goes on under the lock. -/
structure Held (m : Manager) (k : ℕ) (c : Call) : Prop where
  row : m.calls.row k = some c
  lock : m.lock = some k
  holding : Holding m c

/-- A step after which the call still holds the lock. -/
theorem Held.go (h : Held m k c) (hstage : c.stage ≠ .reading) (hcalls : m'.calls = m.calls)
    (hlock : m'.lock = m.lock) (hloaded : m'.loaded = m.loaded) (hholds : stage.holds = true)
    (hdisk : m'.files = Call.disk { c with stage := stage })
    (hframe : ∀ slug path, managedPath slug = some path → slug ≠ c.request.appSlug →
      m'.files path = m.files path) : Turn m (m'.goto k stage) k { c with stage := stage } := by
  have hrow : m'.calls.row k = some c := hcalls ▸ h.row
  have hended : stage.ended = false := by
    by_contra hended
    rw [Stage.not_holds_of_ended (by simpa using hended)] at hholds
    cases hholds
  have hold : Holding (m'.goto k stage) { c with stage := stage } := by
    refine ⟨?_, hdisk, fun _ => h.holding.path hstage, fun _ => h.holding.previous hstage⟩
    have hquiet := h.holding.quiet
    rw [← hloaded] at hquiet
    exact hquiet
  refine ⟨fun j hj => ?_, goto_row hrow, .inl ⟨?_, hholds, hold⟩, hframe⟩
  · rw [goto_rows hj, hcalls]
  · rw [goto_lock, hended, hlock, h.lock]
    rfl

/-- The last step of a call. -/
theorem Held.finish (h : Held m k c) (hcalls : m'.calls = m.calls) (hended : stage.ended = true)
    (hquiet : Quiet m'.files m'.loaded) (hfailed : stage.failed = true → m'.files = c.before)
    (hframe : ∀ slug path, managedPath slug = some path → slug ≠ c.request.appSlug →
      m'.files path = m.files path) : Turn m (m'.goto k stage) k { c with stage := stage } := by
  have hrow : m'.calls.row k = some c := hcalls ▸ h.row
  refine ⟨fun j hj => ?_, goto_row hrow,
    .inr ⟨?_, Stage.not_holds_of_ended hended, hquiet, hfailed⟩, hframe⟩
  · rw [goto_rows hj, hcalls]
  · rw [goto_lock, hended]
    rfl

theorem turn_enter (h : Inv m) (hrow : m.calls.row k = some c) (hlock : m.lock = none) :
    Turn m (m.enter k) k { c with stage := .reading, before := m.files } := by
  have henter : m.enter k = { m with
      calls := m.calls.modify k fun c => { c with stage := .reading, before := m.files }
      lock := some k } := by
    rw [Manager.enter, hlock]
    rfl
  rw [henter]
  refine ⟨fun j hj => modify_row_of_ne m.calls _ hj, ?_, .inl ⟨rfl, rfl, ?_⟩, fun _ _ _ _ => rfl⟩
  · rw [modify_row_self, hrow, Option.map_some]
  · exact ⟨h.free hlock, rfl, fun hne => absurd rfl hne, fun hne => absurd rfl hne⟩

theorem turn_read (h : Held m k c) (hstage : c.stage = .reading) :
    ∃ c', Turn m (m.read k c) k c' ∧ c'.request = c.request := by
  have hfiles : m.files = c.before := by
    rw [h.holding.disk, Call.disk, hstage]
  unfold Manager.read
  cases hpath : managedPath c.request.appSlug with
  | none =>
    refine ⟨_, h.finish rfl rfl ?_ (fun _ => hfiles) (fun _ _ _ _ => rfl), rfl⟩
    rw [hfiles]
    exact h.holding.quiet
  | some path =>
    refine ⟨{ c with path := path, previous := (m.files path).map readText, stage := .writing .activate },
      ⟨fun j hj => modify_row_of_ne m.calls _ hj, ?_, .inl ⟨h.lock, rfl, ?_⟩, fun _ _ _ _ => rfl⟩,
      rfl⟩
    · simp only [modify_row_self, h.row, Option.map_some]
    · refine ⟨h.holding.quiet, hfiles, fun _ => hpath, fun _ => ?_⟩
      simp only [hfiles, h.holding.quiet.written.read]

/-- The file is in place or gone. -/
theorem turn_written (h : Held m k c) (hstage : c.stage ≠ .reading) (hcalls : m'.calls = m.calls)
    (hlock : m'.lock = m.lock) (hloaded : m'.loaded = m.loaded) (hfiles : m'.files = c.result why)
    (hframe : ∀ slug path, managedPath slug = some path → slug ≠ c.request.appSlug →
      m'.files path = m.files path) :
    Turn m (m'.goto k (Call.written why)) k { c with stage := Call.written why } := by
  cases why with
  | activate => exact h.go hstage hcalls hlock hloaded rfl hfiles hframe
  | notReloaded detail => exact h.go hstage hcalls hlock hloaded rfl hfiles hframe
  | rejected detail =>
    refine h.finish hcalls rfl ?_ (fun _ => hfiles) hframe
    rw [hfiles, hloaded]
    exact h.holding.quiet

theorem turn_write (h : Held m k c) (hstage : c.stage = .writing why) :
    ∃ c', Turn m (m.write k c why) k c' ∧ c'.request = c.request := by
  have hreading : c.stage ≠ .reading := by
    rw [hstage]
    exact Stage.noConfusion
  have hfiles : m.files = c.base why := by
    rw [h.holding.disk, Call.disk, hstage]
  have hpath := h.holding.path hreading
  unfold Manager.write
  cases htarget : c.target why with
  | none =>
    refine ⟨_, turn_written h hreading rfl rfl rfl ?_ fun slug path hslug hne =>
      setFile_path hpath hslug hne none, rfl⟩
    rw [← h.holding.base_update hreading, htarget, ← hfiles]
    rfl
  | some text =>
    refine ⟨_, h.go hreading rfl rfl rfl rfl ?_ fun slug path hslug _ => setFile_tmp hslug _, rfl⟩
    show Function.update m.files c.tmpPath (some text) =
      Function.update (c.base why) c.tmpPath (c.target why)
    rw [hfiles, htarget]

theorem turn_replace (h : Held m k c) (hstage : c.stage = .replacing why) :
    ∃ c', Turn m (m.replace k c why) k c' ∧ c'.request = c.request := by
  have hreading : c.stage ≠ .reading := by
    rw [hstage]
    exact Stage.noConfusion
  have hfiles : m.files = Function.update (c.base why) c.tmpPath (c.target why) := by
    rw [h.holding.disk, Call.disk, hstage]
  refine ⟨_, turn_written h hreading rfl rfl rfl ?_ fun slug path hslug hne => ?_, rfl⟩
  · rw [← h.holding.base_update hreading, ← replace_tmp (h.holding.path_ne_tmpPath hreading)
      (h.holding.base_tmp hreading), ← hfiles]
    show Function.update (Function.update m.files c.path (m.files c.tmpPath)) c.tmpPath none = _
    rw [hfiles, update_self]
  · rw [setFile_tmp hslug, setFile_path (h.holding.path hreading) hslug hne]

theorem turn_reload (h : Held m k c) (hstage : c.stage = .reloading) (answer : Answer) :
    ∃ c', Turn m (m.advance k c answer) k c' ∧ c'.request = c.request := by
  have hreading : c.stage ≠ .reading := by
    rw [hstage]
    exact Stage.noConfusion
  have hfiles : m.files = c.after := by
    rw [h.holding.disk, Call.disk, hstage]
  simp only [Manager.advance, hstage]
  split_ifs with hok
  · refine ⟨_, h.finish rfl rfl ?_ (fun hfailed => ?_) (fun _ _ _ _ => rfl), rfl⟩
    · refine ⟨rfl, ?_⟩
      rw [hfiles]
      exact h.holding.quiet.written.update (h.holding.path hreading)
    · have hactivated : c.activated.ok = true := by
        unfold Call.activated
        split_ifs <;> rfl
      rw [Stage.failed, hactivated] at hfailed
      cases hfailed
  · exact ⟨_, h.go hreading rfl rfl rfl rfl hfiles fun _ _ _ _ => rfl, rfl⟩

/-- Whatever a call does under the lock, it keeps the lock or leaves the directory in order. -/
theorem turn_advance (h : Held m k c) (hholds : c.stage.holds = true) (answer : Answer) :
    ∃ c', Turn m (m.advance k c answer) k c' ∧ c'.request = c.request := by
  cases hstage : c.stage with
  | waiting | done _ | refused =>
    rw [hstage] at hholds
    cases hholds
  | reading =>
    simp only [Manager.advance, hstage]
    exact turn_read h hstage
  | writing why =>
    simp only [Manager.advance, hstage]
    exact turn_write h hstage
  | replacing why =>
    simp only [Manager.advance, hstage]
    exact turn_replace h hstage
  | reloading => exact turn_reload h hstage answer
  | validating =>
    have hreading : c.stage ≠ .reading := by
      rw [hstage]
      exact Stage.noConfusion
    have hfiles : m.files = c.after := by
      rw [h.holding.disk, Call.disk, hstage]
    simp only [Manager.advance, hstage]
    split_ifs
    · exact ⟨_, h.go hreading rfl rfl rfl rfl hfiles fun _ _ _ _ => rfl, rfl⟩
    · exact ⟨_, h.go hreading rfl rfl rfl rfl hfiles fun _ _ _ _ => rfl, rfl⟩
  | revalidating detail =>
    have hfiles : m.files = c.before := by
      rw [h.holding.disk, Call.disk, hstage]
    simp only [Manager.advance, hstage]
    refine ⟨_, h.finish rfl rfl ?_ (fun _ => hfiles) (fun _ _ _ _ => rfl), rfl⟩
    rw [hfiles]
    exact h.holding.quiet

end Turns

/-! ## Runs -/

section Runs

variable {m m' : Manager} {c c' : Call} {k : ℕ}

/-- No other call holds the lock when call `k` takes its turn. -/
theorem Turn.inv (h : Turn m m' k c') (hinv : Inv m) (hsole : ∀ j, m.lock = some j → j = k) : Inv m' := by
  have hother : ∀ j c, j ≠ k → m'.calls.row j = some c → c.stage.holds = false := by
    intro j c hj hrow
    rw [h.rows j hj] at hrow
    by_contra hholds
    exact hj (hsole j (hinv.sole j c hrow (by simpa using hholds)))
  rcases h.outcome with ⟨hlock, hholds, hold⟩ | ⟨hlock, hholds, hquiet, -⟩
  · refine ⟨fun hfree => ?_, fun j hj => ?_, fun j c hrow hc => ?_⟩
    · rw [hlock] at hfree
      cases hfree
    · rw [hlock, Option.some.injEq] at hj
      subst hj
      exact ⟨c', h.row, hholds, hold⟩
    · by_cases hj : j = k
      · rw [hj, hlock]
      · rw [hother j c hj hrow] at hc
        cases hc
  · refine ⟨fun _ => hquiet, fun j hj => ?_, fun j c hrow hc => ?_⟩
    · rw [hlock] at hj
      cases hj
    · by_cases hj : j = k
      · rw [hj, h.row, Option.some.injEq] at hrow
        rw [← hrow, hholds] at hc
        cases hc
      · rw [hother j c hj hrow] at hc
        cases hc

/-- A call that goes on either finds nothing to do or takes a turn of its own. -/
theorem step_cases (hinv : Inv m) (k : ℕ) (answer : Answer) :
    m.step (.step k answer) = m ∨ ∃ c c', m.calls.row k = some c ∧ c'.request = c.request ∧
      Turn m (m.step (.step k answer)) k c' ∧ ∀ j, m.lock = some j → j = k := by
  cases hrow : m.calls.row k with
  | none =>
    left
    simp only [Manager.step, hrow]
  | some c =>
    simp only [Manager.step, hrow]
    by_cases hholds : c.stage.holds = true
    · have hlock := hinv.sole k c hrow hholds
      obtain ⟨c₀, hrow₀, -, hold⟩ := hinv.held k hlock
      rw [hrow, Option.some.injEq] at hrow₀
      subst hrow₀
      obtain ⟨c', hturn, hrequest⟩ := turn_advance ⟨hrow, hlock, hold⟩ hholds answer
      refine .inr ⟨c, c', rfl, hrequest, hturn, fun j hj => ?_⟩
      rw [hlock, Option.some.injEq] at hj
      exact hj.symm
    · cases hstage : c.stage with
      | done _ | refused =>
        left
        simp only [Manager.advance, hstage]
      | waiting =>
        simp only [Manager.advance, hstage]
        cases hlock : m.lock with
        | some j =>
          left
          simp only [Manager.enter, hlock, Option.isSome_some, if_true]
        | none =>
          refine .inr ⟨c, { c with stage := .reading, before := m.files }, rfl, rfl,
            turn_enter hinv hrow hlock, fun j hj => ?_⟩
          cases hj
      | _ =>
        rw [hstage] at hholds
        exact absurd rfl hholds

theorem Inv.request (hinv : Inv m) (r : ReloadRequest) : Inv (m.step (.request r)) := by
  have hrows : ∀ j c, c.stage.holds = true →
      ((m.step (.request r)).calls.row j = some c ↔ m.calls.row j = some c) := by
    intro j c hholds
    by_cases hj : j = m.calls.next
    · have hnone : m.calls.row j = none := by
        cases hrow : m.calls.row j with
        | none => rfl
        | some c => exact absurd (lt_of_row hrow) (by omega)
      rw [hnone, hj, Manager.step, insert_row_self, Option.some.injEq]
      refine ⟨fun heq => ?_, fun hnot => ?_⟩
      · rw [← heq] at hholds
        cases hholds
      · cases hnot
    · rw [Manager.step, insert_row_of_ne _ _ hj]
  refine ⟨hinv.free, fun k hk => ?_, fun k c hrow hholds => ?_⟩
  · obtain ⟨c, hrow, hholds, hold⟩ := hinv.held k hk
    exact ⟨c, (hrows k c hholds).2 hrow, hholds, hold.quiet, hold.disk, hold.path, hold.previous⟩
  · exact hinv.sole k c ((hrows k c hholds).1 hrow) hholds

theorem Inv.step (hinv : Inv m) (e : ManagerEvent) : Inv (m.step e) := by
  cases e with
  | request r => exact hinv.request r
  | step k answer =>
    rcases step_cases hinv k answer with hsame | ⟨c, c', -, -, hturn, hsole⟩
    · rw [hsame]
      exact hinv
    · exact hturn.inv hinv hsole

/-- A call that the step leaves as it was does not end with it. -/
theorem sound_of_rows {e : ManagerEvent}
    (hrows : ∀ j c c', m.calls.row j = some c → (m.step e).calls.row j = some c' →
      c' = c ∨ (c'.stage.ended = true → Quiet (m.step e).files (m.step e).loaded ∧
        (c'.stage.failed = true → (m.step e).files = c'.before)))
    (hothers : ∀ j answer c, e = .step j answer → m.calls.row j = some c →
      ∀ slug path, managedPath slug = some path → slug ≠ c.request.appSlug →
        (m.step e).files path = m.files path) : m.Sound e := by
  have hended : ∀ j c c', m.calls.row j = some c → c.stage.ended = false →
      (m.step e).calls.row j = some c' → c'.stage.ended = true →
      Quiet (m.step e).files (m.step e).loaded ∧
        (c'.stage.failed = true → (m.step e).files = c'.before) := by
    intro j c c' hrow hc hrow' hc'
    rcases hrows j c c' hrow hrow' with rfl | h
    · rw [hc] at hc'
      cases hc'
    · exact h hc'
  refine ⟨fun j c c' hrow hc hrow' hc' => ?_, fun j c c' hrow hc hrow' hc' => ?_, hothers⟩
  · exact (hended j c c' hrow hc hrow' hc').1.loads
  · exact (hended j c c' hrow hc hrow' (Stage.ended_of_failed hc')).2 hc'

theorem Turn.ended (h : Turn m m' k c') (hended : c'.stage.ended = true) :
    Quiet m'.files m'.loaded ∧ (c'.stage.failed = true → m'.files = c'.before) := by
  rcases h.outcome with ⟨-, hholds, -⟩ | ⟨-, -, hquiet⟩
  · rw [Stage.not_holds_of_ended hended] at hholds
    cases hholds
  · exact hquiet

theorem Inv.sound (hinv : Inv m) (e : ManagerEvent) : m.Sound e := by
  cases e with
  | request r =>
    refine sound_of_rows (fun j c c' hrow hrow' => .inl ?_) (fun j answer c he => ?_)
    · rw [Manager.step, insert_row_of_ne _ _ (lt_of_row hrow).ne, hrow] at hrow'
      exact (Option.some.inj hrow').symm
    · cases he
  | step k answer =>
    rcases step_cases hinv k answer with hsame | ⟨c, c', hrow, hrequest, hturn, -⟩
    · refine sound_of_rows (fun j c c' hrow hrow' => .inl ?_) (fun j answer c he hrow slug path _ _ => ?_)
      · rw [hsame, hrow] at hrow'
        exact (Option.some.inj hrow').symm
      · rw [hsame]
    · refine sound_of_rows (fun j c₀ c₁ hrow₀ hrow₁ => ?_) (fun j answer c₀ he hrow₀ => ?_)
      · by_cases hj : j = k
        · rw [hj, hturn.row, Option.some.injEq] at hrow₁
          subst hrow₁
          exact .inr hturn.ended
        · rw [hturn.rows j hj, hrow₀] at hrow₁
          exact .inl (Option.some.inj hrow₁).symm
      · obtain ⟨rfl, -⟩ := ManagerEvent.step.inj he
        rw [hrow, Option.some.injEq] at hrow₀
        rw [← hrow₀, ← hrequest]
        exact hturn.frame

end Runs

/-- Disk and nginx agree after every call, however the calls overlap and whatever nginx answers. -/
theorem disk_is_loaded {m : Manager} (h : Fresh m) (es : List ManagerEvent) :
    Runs.Along Manager.step Manager.Sound m es :=
  Runs.always (fun _ e hinv => hinv.step e) (fun _ e hinv => hinv.sound e) es m h.inv

/-- A manager that was just installed. -/
def installed : Manager := ⟨fun _ => none, fun _ => none, none, Table.empty⟩

/-- Two requests, of which the first gets its file in place, fails to reload and restores. -/
def failedReload : List ManagerEvent :=
  [.request plainRequest, .request dashedRequest, .step 0 ⟨true, ""⟩, .step 1 ⟨true, ""⟩,
    .step 0 ⟨true, ""⟩, .step 0 ⟨true, ""⟩, .step 0 ⟨true, ""⟩, .step 0 ⟨true, ""⟩,
    .step 0 ⟨false, "no pid"⟩, .step 0 ⟨true, ""⟩, .step 0 ⟨true, ""⟩]

theorem disk_is_loaded_failed_reload :
    ((Runs.run Manager.step installed failedReload).calls.row 0).map (·.stage.failed) = some true ∧
      Runs.Along Manager.step Manager.Sound installed failedReload := by
  have hquiet : Quiet installed.files installed.loaded := by
    refine ⟨funext fun name => ite_self none, fun name text htext => ?_⟩
    cases htext
  exact ⟨by decide +kernel, disk_is_loaded ⟨hquiet, rfl, rfl⟩ failedReload⟩

end Healer.Nginx
