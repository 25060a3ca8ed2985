import Mathlib
import Healer.Sanity.Installed

/-! The launch spec of each Windows instance. A service is registered with the path of its spec, which is
read whenever the service starts, and the path is that of the release: two instances of one release name the
same file, and the later start overwrites the spec of the earlier one. -/

namespace Healer

open Prog Function

/-- `spec` starts the instance of `payload`. -/
structure LaunchFile.Launches (host : Host) (payload : StartInstancePayload) (spec : LaunchFile) : Prop where
  args : spec.args.take 2 = ["--host=" ++ payload.host, "--port=" ++ toString payload.port]
  stdout : spec.stdoutLog = host.join [payload.logDir, payload.serviceName ++ ".out.log"]
  stderr : spec.stderrLog = host.join [payload.logDir, payload.serviceName ++ ".err.log"]

/-- Every registered service names a file that holds the spec of its own instance. -/
def OwnSpecs (host : Host) (s : Installation) (own : String → Option StartInstancePayload) : Prop :=
  ∀ name args, s.services name = some args →
    ∃ payload path spec, own name = some payload ∧ args = ["instance-host", path] ∧ s.files path = some spec ∧
      spec.Launches host payload

def Fleet.OwnSpecs (host : Host) (f : Fleet) : Prop := Healer.OwnSpecs host (host.installed f.log) f.own

/-- The two instances have the same address and log files. -/
structure SameLaunch (host : Host) (p q : StartInstancePayload) : Prop where
  address : p.host = q.host
  port : p.port = q.port
  stdout : host.join [p.logDir, p.serviceName ++ ".out.log"] = host.join [q.logDir, q.serviceName ++ ".out.log"]
  stderr : host.join [p.logDir, p.serviceName ++ ".err.log"] = host.join [q.logDir, q.serviceName ++ ".err.log"]

/-- A start does not share its spec file with another registered service, unless the two have the same
address and log files. -/
def Order.Spares (host : Host) (f : Fleet) (o : Order) : Prop :=
  ∀ p, o.payload = some p → ∀ name q, name ≠ p.serviceName → f.own name = some q →
    (host.installed f.log).services name = some ["instance-host", specPath host p] → SameLaunch host p q

theorem launches_iff (host : Host) (p q : StartInstancePayload) :
    (launchFile host p).Launches host q ↔ SameLaunch host p q := by
  constructor
  · rintro ⟨hargs, hout, herr⟩
    obtain ⟨haddress, hrest⟩ := List.cons.inj hargs
    obtain ⟨hport, -⟩ := List.cons.inj hrest
    refine ⟨?_, ?_, hout, herr⟩
    · exact (String.append_right_inj _).1 haddress
    · have hport := (String.append_right_inj _).1 hport
      rwa [Int.toString_eq_repr, Int.toString_eq_repr, Int.repr_inj] at hport
  · rintro ⟨haddress, hport, hout, herr⟩
    refine ⟨?_, hout, herr⟩
    rw [← haddress, ← hport]
    rfl

/-! ## What a command that succeeds has done -/

/-- The command `o` that succeeded took `s` to `s'`. -/
inductive Served (host : Host) (o : Order) (s : Installation) : Installation → Prop
  | started (payload : StartInstancePayload) (h : o.payload = some payload) : Served host o s (s.started host payload)
  | same (h : o.payload = none) : Served host o s s
  | removed (name : String) (h : o.payload = none) : Served host o s (s.remove name)

variable {payload : StartInstancePayload}

theorem start_served {host : Host} {f : Fleet} {ctx : Context}
    (hservices : (payload.adapter != "linux-docker") = true)
    (hok : Order.succeeds host f ⟨ctx, .start (.ok payload)⟩ = true) :
    host.installed (dispatchInstance host ctx (.start (.ok payload)) f.log).2 =
      (host.installed f.log).started host payload := by
  have hends : Ends (dispatchInstance host ctx (.start (.ok payload)) f.log)
      (fun result log' => result.ok = true → host.installed log' = (host.installed f.log).started host payload)
      fun _ _ => True := by
    unfold dispatchInstance handleStartInstance
    refine (ends_ite _ _).2 ⟨fun _ => trivial, fun _ => (ends_ite _ _).2 ⟨fun _ => trivial, fun _ => ?_⟩⟩
    rw [if_neg (bne_iff_ne.1 hservices)]
    cases blankField host payload with
    | some name => trivial
    | none => exact startWindowsInstance_ends payload
  unfold Order.succeeds at hok
  rcases hrun : dispatchInstance host ctx (.start (.ok payload)) f.log with ⟨e | result, log'⟩
  · rw [hrun] at hok
    cases hok
  · rw [hrun] at hok
    exact hends.ok hrun hok

theorem served {host : Host} {f : Fleet} {o : Order} (hservices : o.onServices = true)
    (hok : o.succeeds host f = true) :
    Served host o (host.installed f.log) (host.installed (f.serve host o).log) := by
  obtain ⟨ctx, command⟩ := o
  cases command with
  | start raw =>
    cases raw with
    | error e => cases hok
    | ok payload =>
      rw [Fleet.serve, start_served hservices hok]
      exact .started payload rfl
  | stop raw =>
    cases raw with
    | error e => cases hok
    | ok payload =>
      have hne : ¬ payload.adapter = "linux-docker" := bne_iff_ne.1 hservices
      have hkeeps : Keeps (fun log => AtMostWithout payload.serviceName (host.installed f.log) (host.installed log))
          (dispatchInstance host ctx (.stop (.ok payload))) := by
        unfold dispatchInstance handleStopInstance
        refine keeps_ite (fun _ => keeps_raise _) fun _ => ?_
        rw [if_neg hne]
        exact stopWindowsInstance_removes payload
      rcases hkeeps f.log (Or.inl rfl) with h | h
      · rw [Fleet.serve, h]
        exact .same rfl
      · rw [Fleet.serve, h]
        exact .removed payload.serviceName rfl

/-! ## Step and run -/

section Step

variable {host : Host} {s : Installation} {own : String → Option StartInstancePayload}

theorem OwnSpecs.remove (h : OwnSpecs host s own) (name : String) : OwnSpecs host (s.remove name) own := by
  intro n args hargs
  by_cases hn : n = name
  · subst hn
    simp [Installation.remove] at hargs
  · simp only [Installation.remove, update_of_ne hn] at hargs
    exact h n args hargs

theorem started_service (host : Host) (s : Installation) (p : StartInstancePayload) :
    (s.started host p).services p.serviceName = some ["instance-host", specPath host p] :=
  update_self _ _ _

/-- The other services are registered as before. -/
theorem started_services (host : Host) (s : Installation) {p : StartInstancePayload} {name : String}
    (h : name ≠ p.serviceName) : (s.started host p).services name = s.services name :=
  update_of_ne h _ _

theorem started_files (host : Host) (s : Installation) {p : StartInstancePayload} {path : String}
    (h : path ≠ specPath host p) : (s.started host p).files path = s.files path :=
  update_of_ne h _ _

theorem started_file (host : Host) (s : Installation) (p : StartInstancePayload) :
    (s.started host p).files (specPath host p) = some (launchFile host p) :=
  update_self _ _ _

theorem ownSpecs_started_iff (h : OwnSpecs host s own) (p : StartInstancePayload) :
    OwnSpecs host (s.started host p) (Function.update own p.serviceName (some p)) ↔
      ∀ name q, name ≠ p.serviceName → own name = some q →
        s.services name = some ["instance-host", specPath host p] → SameLaunch host p q := by
  constructor
  · intro hafter name q hname hq hargs
    rw [← started_services host s hname] at hargs
    obtain ⟨q', path, spec, hq', hpath, hspec, hlaunches⟩ := hafter name _ hargs
    rw [update_of_ne hname, hq, Option.some.injEq] at hq'
    obtain rfl : specPath host p = path := by simpa using hpath
    rw [started_file, Option.some.injEq] at hspec
    rw [← launches_iff, hq', hspec]
    exact hlaunches
  · intro hspares name args hargs
    by_cases hname : name = p.serviceName
    · rw [hname, started_service, Option.some.injEq] at hargs
      rw [hname]
      exact ⟨p, _, _, update_self _ _ _, hargs.symm, started_file host s p,
        (launches_iff host p p).2 ⟨rfl, rfl, rfl, rfl⟩⟩
    · rw [started_services host s hname] at hargs
      obtain ⟨q, path, spec, hq, rfl, hspec, hlaunches⟩ := h name args hargs
      rw [update_of_ne hname]
      by_cases hpath : path = specPath host p
      · -- the file is overwritten, by a spec that says the same of `q`
        subst hpath
        exact ⟨q, _, _, hq, rfl, started_file host s p, (launches_iff host p q).2 (hspares name q hname hq hargs)⟩
      · exact ⟨q, path, spec, hq, rfl, (started_files host s hpath).trans hspec, hlaunches⟩

end Step

theorem serve_ownSpecs_iff {host : Host} (f : Fleet) (o : Order) (h : f.OwnSpecs host)
    (hok : o.onServices = true ∧ o.succeeds host f = true) : (f.serve host o).OwnSpecs host ↔ o.Spares host f := by
  have hidle : o.payload = none → o.Spares host f ∧ (f.serve host o).own = f.own := by
    intro hnone
    refine ⟨fun p hp => ?_, by simp only [Fleet.serve, hnone]⟩
    rw [hnone] at hp
    cases hp
  have hserved := served hok.1 hok.2
  unfold Fleet.OwnSpecs
  generalize host.installed (f.serve host o).log = s' at hserved ⊢
  cases hserved with
  | started p hp =>
    have hown : (f.serve host o).own = Function.update f.own p.serviceName (some p) := by
      simp only [Fleet.serve, hp]
    rw [hown, ownSpecs_started_iff h p, Order.Spares, hp]
    simp only [Option.some.injEq, forall_eq']
  | same hnone =>
    rw [(hidle hnone).2]
    exact iff_of_true h (hidle hnone).1
  | removed name hnone =>
    rw [(hidle hnone).2]
    exact iff_of_true (h.remove name) (hidle hnone).1

/-- In every sequence of commands on a Windows host that succeed: after each of them every registered service
names a file with its own launch spec iff each start spares the specs of the other services. -/
theorem launch_specs_kept_iff (host : Host) (orders : List Order)
    (hok : Runs.Along (Fleet.serve host) (fun f o => o.onServices = true ∧ o.succeeds host f = true) Fleet.start
      orders) :
    Runs.Along (Fleet.serve host) (fun f o => (f.serve host o).OwnSpecs host) Fleet.start orders ↔
      Runs.Along (Fleet.serve host) (fun f o => o.Spares host f) Fleet.start orders := by
  refine Runs.along_kept_iff serve_ownSpecs_iff orders Fleet.start ?_ hok
  intro name args hargs
  cases hargs

/-! ## Two instances on one host -/

namespace Sample

/-- Whether the service is registered, on a host that grants every request. -/
def registered (name : String) (log : HostLog) : Bool :=
  log.foldl (fun found c =>
    match c with
    | .scm (.create n _ _ _ _ _) => found || n == name
    | .scm (.delete n) => found && n != name
    | _ => found) false

def diskHost : Host where
  os := .windows
  socketPath := ""
  executable := .ok "healer-agent.exe"
  receivedAt := 0
  elapsed _ := 0
  passes _ := 0
  docker _ _ := .error "no such file"
  exec _ _ := ("NT AUTHORITY\\LOCAL SERVICE:(OI)(CI)(M)", none)
  scm log op :=
    match op with
    | .openService name => if registered name log then .ok .running else .error .doesNotExist
    | .stop _ => .ok .stopped
    | _ => .ok .running
  readFile _ _ := .ok "home=C"
  write _ _ := none
  contextError _ := "context deadline exceeded"
  trimSpace := id
  pathEscape := id
  queryEscape := id
  dir := id
  join := String.join

theorem home_lines : "home=C".splitOn "\n" = ["home=C"] := by
  rw [String.splitOn, if_neg (by decide)]
  repeat (rw [String.splitOnAux]; simp +decide only [↓reduceIte])

theorem home_cut : "home=C".splitOn "=" = ["home", "C"] := by
  rw [String.splitOn, if_neg (by decide)]
  repeat (rw [String.splitOnAux]; simp +decide only [↓reduceIte])

def permissionCalls (payload : StartInstancePayload) : HostLog :=
  [.exec "icacls.exe" [payload.releaseDir],
    .exec "icacls.exe" ["healer-agent.exe", "/grant", instanceServiceAccount ++ ":RX"],
    .readFile (String.join [payload.releaseDir, ".venv", "pyvenv.cfg"]),
    .exec "icacls.exe" ["C"]]

theorem icacls_run (text : String) (args : List String) (log : HostLog) :
    icacls diskHost none text args log =
      (.ok "NT AUTHORITY\\LOCAL SERVICE:(OI)(CI)(M)", log ++ [.exec "icacls.exe" args]) := rfl

theorem grantDirectory_run (path rights : String) (log : HostLog) :
    grantDirectory diskHost none path rights log = (.ok (), log ++ [.exec "icacls.exe" [path]]) := by
  have hgranted : hasAccountGrant "NT AUTHORITY\\LOCAL SERVICE:(OI)(CI)(M)" = true := by decide +kernel
  rw [grantDirectory, run_bind_ok (icacls_run _ _ _), if_pos hgranted]
  rfl

theorem baseInterpreterHome_run (dir : String) (log : HostLog) :
    baseInterpreterHome diskHost dir log =
      (.ok "C", log ++ [.readFile (String.join [dir, ".venv", "pyvenv.cfg"])]) := by
  have hfile : readFile diskHost (diskHost.join [dir, ".venv", "pyvenv.cfg"]) log =
      (.ok "home=C", log ++ [.readFile (String.join [dir, ".venv", "pyvenv.cfg"])]) := rfl
  rw [baseInterpreterHome, run_bind_ok (wrapError_ok _ hfile), home_lines, findHome, cutAtEquals, home_cut]
  rfl

theorem grantPermissions_run (payload : StartInstancePayload) (log : HostLog) :
    grantPermissions diskHost none payload log = (.ok (), log ++ permissionCalls payload) := by
  have hexe : ∀ log, resolveExecutable diskHost log = (.ok "healer-agent.exe", log) := fun _ => rfl
  rw [grantPermissions, run_bind_ok (grantDirectory_run _ _ _), run_bind_ok (hexe _), run_bind_ok (icacls_run _ _ _),
    run_bind_ok (wrapError_ok _ (baseInterpreterHome_run _ _)), grantDirectory_run, List.append_assoc,
    List.append_assoc, List.append_assoc]
  rfl

def permitted : StepRunner := ⟨[⟨"permissions", .succeeded, permissionsMessage⟩], false⟩

theorem startWindowsInstance_run (payload : StartInstancePayload) (log : HostLog) :
    startWindowsInstance diskHost none payload log =
      installAndStart diskHost none payload permitted (log ++ permissionCalls payload) := by
  have hstep : StepRunner.start.run "permissions"
      (grantPermissions diskHost none payload >>= fun _ => pure (permissionsMessage, ())) log =
        (.ok (permitted, some ()), log ++ permissionCalls payload) := by
    rw [StepRunner.run, if_neg (by decide), run_attempt_bind, run_bind_ok (grantPermissions_run payload log)]
    rfl
  rw [startWindowsInstance_eq, run_bind_ok hstep]

/-- The instance of a release on a port. -/
def shopOn (release : String) (port : ℤ) : StartInstancePayload where
  adapter := "windows-waitress-service"
  serviceName := "healer-shop-" ++ toString port
  releaseDir := "releases/" ++ release
  venvPython := "python.exe"
  wsgiModule := "shop.wsgi"
  host := "127.0.0.1"
  port := port
  logDir := "logs/"
  linux := none

def startOf (payload : StartInstancePayload) : Order := ⟨none, .start (.ok payload)⟩

/-- The checks in front of `startWindowsInstance`. -/
def accepted (payload : StartInstancePayload) : Bool :=
  !diskHost.blank payload.serviceName && portInRange payload.port && payload.adapter != "linux-docker" &&
    (blankField diskHost payload).isNone

theorem dispatch_run (h : accepted payload = true) (log : HostLog) :
    dispatchInstance diskHost none (.start (.ok payload)) log =
      installAndStart diskHost none payload permitted (log ++ permissionCalls payload) := by
  simp only [accepted, Bool.and_eq_true, Bool.not_eq_true', bne_iff_ne, ne_eq, Option.isNone_iff_eq_none] at h
  obtain ⟨⟨⟨hname, hport⟩, hadapter⟩, hblank⟩ := h
  simp only [dispatchInstance, handleStartInstance, hname, hport, hadapter, hblank, Bool.false_eq_true, Bool.not_true,
    if_false]
  exact startWindowsInstance_run payload log

theorem succeeds_run (h : accepted payload = true) (f : Fleet) :
    (startOf payload).succeeds diskHost f =
      ((installAndStart diskHost none payload permitted (f.log ++ permissionCalls payload)).1.toOption.any (·.ok)) := by
  unfold Order.succeeds startOf
  rw [dispatch_run h]
  rcases (installAndStart diskHost none payload permitted (f.log ++ permissionCalls payload)).1 with e | result
  · rfl
  · rfl

theorem serve_run (h : accepted payload = true) (f : Fleet) :
    f.serve diskHost (startOf payload) =
      ⟨(installAndStart diskHost none payload permitted (f.log ++ permissionCalls payload)).2,
        Function.update f.own payload.serviceName (some payload)⟩ := by
  unfold Fleet.serve startOf
  rw [dispatch_run h]
  rfl

theorem own_startOf (host : Host) (f : Fleet) (payload : StartInstancePayload) :
    (f.serve host (startOf payload)).own = Function.update f.own payload.serviceName (some payload) := rfl

def twoReleases : List Order := [startOf (shopOn "v1" 8001), startOf (shopOn "v2" 8002)]

def oneRelease : List Order := [startOf (shopOn "v1" 8001), startOf (shopOn "v1" 8002)]

theorem first_succeeds : (startOf (shopOn "v1" 8001)).succeeds diskHost Fleet.start = true := by
  rw [succeeds_run (by decide +kernel)]
  decide +kernel

theorem second_succeeds {release : String} (h : release = "v1" ∨ release = "v2") :
    (startOf (shopOn release 8002)).succeeds diskHost (Fleet.start.serve diskHost (startOf (shopOn "v1" 8001))) =
      true := by
  rcases h with rfl | rfl
  all_goals
    rw [succeeds_run (by decide +kernel), serve_run (by decide +kernel)]
    decide +kernel

theorem first_installed : diskHost.installed (Fleet.start.serve diskHost (startOf (shopOn "v1" 8001))).log =
    Installation.empty.started diskHost (shopOn "v1" 8001) :=
  start_served (by decide +kernel) first_succeeds

theorem second_installed {release : String} (h : release = "v1" ∨ release = "v2") :
    diskHost.installed ((Fleet.start.serve diskHost (startOf (shopOn "v1" 8001))).serve diskHost
      (startOf (shopOn release 8002))).log =
        (Installation.empty.started diskHost (shopOn "v1" 8001)).started diskHost (shopOn release 8002) := by
  rw [← first_installed]
  exact start_served rfl (second_succeeds h)

end Sample

section Runs

open Sample

theorem launch_specs_kept_two_releases :
    Runs.Along (Fleet.serve diskHost) (fun f o => o.onServices = true ∧ o.succeeds diskHost f = true) Fleet.start
      twoReleases ∧
    Runs.Along (Fleet.serve diskHost) (fun f o => (f.serve diskHost o).OwnSpecs diskHost) Fleet.start twoReleases := by
  have hok : Runs.Along (Fleet.serve diskHost) (fun f o => o.onServices = true ∧ o.succeeds diskHost f = true)
      Fleet.start twoReleases :=
    ⟨⟨by decide +kernel, first_succeeds⟩, ⟨by decide +kernel, second_succeeds (Or.inr rfl)⟩, trivial⟩
  refine ⟨hok, (launch_specs_kept_iff diskHost twoReleases hok).2 ⟨?_, ?_, trivial⟩⟩
  · intro p hp name q hname hq
    cases hq
  · intro p hp name q hname hq hargs
    obtain rfl : shopOn "v2" 8002 = p := Option.some.inj hp
    have hother : specPath diskHost (shopOn "v1" 8001) ≠ specPath diskHost (shopOn "v2" 8002) := by decide +kernel
    rw [first_installed] at hargs
    by_cases hn : name = (shopOn "v1" 8001).serviceName
    · rw [hn, started_service] at hargs
      exact absurd (by simpa using hargs) hother
    · rw [started_services _ _ hn] at hargs
      cases hargs

/-- Two instances of one release: the service of the first is registered with the launch spec of the second. -/
theorem one_release_overwrites :
    Runs.Along (Fleet.serve diskHost) (fun f o => o.onServices = true ∧ o.succeeds diskHost f = true) Fleet.start
      oneRelease ∧
    (diskHost.installed (Runs.run (Fleet.serve diskHost) Fleet.start oneRelease).log).services
      (shopOn "v1" 8001).serviceName = some ["instance-host", specPath diskHost (shopOn "v1" 8001)] ∧
    (diskHost.installed (Runs.run (Fleet.serve diskHost) Fleet.start oneRelease).log).files
      (specPath diskHost (shopOn "v1" 8001)) = some (launchFile diskHost (shopOn "v1" 8002)) ∧
    ¬ (Runs.run (Fleet.serve diskHost) Fleet.start oneRelease).OwnSpecs diskHost := by
  have hne : (shopOn "v1" 8001).serviceName ≠ (shopOn "v1" 8002).serviceName := by decide +kernel
  have hboth := second_installed (Or.inl rfl)
  have hown : ((Fleet.start.serve diskHost (startOf (shopOn "v1" 8001))).serve diskHost
      (startOf (shopOn "v1" 8002))).own (shopOn "v1" 8001).serviceName = some (shopOn "v1" 8001) := by
    rw [own_startOf, own_startOf, update_of_ne hne, update_self]
  have hservice : ((Installation.empty.started diskHost (shopOn "v1" 8001)).started diskHost
      (shopOn "v1" 8002)).services (shopOn "v1" 8001).serviceName =
        some ["instance-host", specPath diskHost (shopOn "v1" 8001)] := by
    rw [started_services _ _ hne, started_service]
  have hfile : ((Installation.empty.started diskHost (shopOn "v1" 8001)).started diskHost
      (shopOn "v1" 8002)).files (specPath diskHost (shopOn "v1" 8001)) =
        some (launchFile diskHost (shopOn "v1" 8002)) := by
    have hshared : specPath diskHost (shopOn "v1" 8001) = specPath diskHost (shopOn "v1" 8002) := by
      simp only [specPath, shopOn]
    rw [hshared, started_file]
  rw [oneRelease, Runs.run, List.foldl_cons, List.foldl_cons, List.foldl_nil, hboth]
  refine ⟨⟨⟨by decide +kernel, first_succeeds⟩, ⟨by decide +kernel, second_succeeds (Or.inl rfl)⟩, trivial⟩,
    hservice, hfile, ?_⟩
  intro h
  rw [Fleet.OwnSpecs, hboth] at h
  obtain ⟨p, path, spec, hp, hpath, hspec, hlaunches⟩ := h _ _ hservice
  rw [hown, Option.some.injEq] at hp
  obtain rfl : specPath diskHost (shopOn "v1" 8001) = path := by simpa using hpath
  rw [hfile, Option.some.injEq] at hspec
  rw [← hspec, ← hp, launches_iff] at hlaunches
  exact absurd hlaunches.port (by decide)

end Runs

end Healer
