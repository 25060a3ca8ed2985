import Healer.Lib.Runs
import Healer.Sanity.Stored

/-! The rows the control plane stores, against what the Gateway Manager accepts. -/

namespace Healer

open Table

namespace Store

/-- The Gateway Manager takes the payload of every application, whichever instances are RUNNING. The port of
an instance comes from a range of `ports`. -/
def Accepted (s : Store) : Prop :=
  ∀ a slug, s.slugs.row a = some slug → ∀ running : List Running, (∀ r ∈ running, 1 ≤ r.port ∧ r.port ≤ 65535) →
    (s.payload a slug running).accepted = true

def InUse (s : Store) : Prop := ∃ a slug, s.slugs.row a = some slug

end Store

/-- The difference between a path in the editor and one in the request. -/
def PathFits (v : String) : Prop := v.length ≤ 1000 ∧ endsInNewline v = false

/-- What a write must look like for the Gateway Manager, beyond what the control plane checks. -/
def Write.Suits (lower : String → String) (s : Store) : Write → Prop
  | .createApplication name _ =>
    ∃ n, (candidate (slugify lower name) n).length ≤ 63 ∧
      Store.taken s.slugs none (candidate (slugify lower name) n) = false
  | .updateApplication _ _ => True
  | .createServer hostname => patternMatches hostRe hostname = true
  | .editSlug _ change => ∀ v, change = .text v → slugField v = true
  | .editServer _ change => ∀ v, change = .text v → endsInNewline v = false
  | .editDomain k e => ∀ old, s.domains.row k = some old →
    ∀ cert key, (e.on old).certPath = some cert → (e.on old).keyPath = some key →
      endsInNewline (e.on old).hostname = false ∧ PathFits cert ∧ PathFits key

/-- The write is refused by the control plane, or suits the Gateway Manager. -/
def Write.Fits (lower : String → String) (s : Store) (w : Write) : Prop :=
  ∀ s', w.run lower s = .ok s' → w.Suits lower s

/-! ## Rows -/

/-- What every write sees to. -/
structure DomainRow.Sound (s : Store) (row : DomainRow) : Prop where
  hostname : reMatch hostnameRe row.hostname = true ∧ row.hostname.length ≤ 255
  certPath : ∀ v, row.certPath = some v → reMatch unixPathRe v = true ∧ hasTraversal v = false
  keyPath : ∀ v, row.keyPath = some v → reMatch unixPathRe v = true ∧ hasTraversal v = false
  owner : (s.slugs.row row.applicationId).isSome = true

/-- What the payload of an application with this row needs, once the row has both paths. -/
def DomainRow.Fits (row : DomainRow) : Prop :=
  ∀ cert key, row.certPath = some cert → row.keyPath = some key →
    endsInNewline row.hostname = false ∧ PathFits cert ∧ PathFits key

def Store.Sound (s : Store) : Prop := ∀ k row, s.domains.row k = some row → row.Sound s

structure Store.Clean (s : Store) : Prop where
  slugs : ∀ a slug, s.slugs.row a = some slug → slugField slug = true
  domains : ∀ k row, s.domains.row k = some row → row.Fits
  servers : ∀ k hostname, s.servers.row k = some hostname → Nginx.hostField hostname = true

variable {v : String}

theorem hostnameField_iff (h : reMatch hostnameRe v = true ∧ v.length ≤ 255) :
    Nginx.hostnameField v = true ↔ endsInNewline v = false := by
  simp only [Nginx.hostnameField, Bool.and_eq_true, decide_eq_true_eq]
  constructor
  · intro hv
    exact not_endsInNewline hostnameRe_ne_newline hv.2
  · intro hend
    have hmatch := patternMatches_of_reMatch h.1 hend
    exact ⟨⟨length_pos_of_hostRe (hostRe_of_hostnameRe hmatch), h.2⟩, hmatch⟩

theorem pathField_iff (h : reMatch unixPathRe v = true ∧ hasTraversal v = false) :
    Nginx.pathField v = true ↔ PathFits v := by
  simp only [Nginx.pathField, Bool.and_eq_true, decide_eq_true_eq, Bool.not_eq_true', h.2, and_true, PathFits]
  constructor
  · rintro ⟨⟨-, hlen⟩, hmatch⟩
    exact ⟨hlen, not_endsInNewline unixPathRe_ne_newline hmatch⟩
  · rintro ⟨hlen, hend⟩
    have hmatch := patternMatches_of_reMatch h.1 hend
    exact ⟨⟨length_pos_of_unixPathRe hmatch, hlen⟩, hmatch⟩

theorem hostField_of_hostname (h : reMatch hostnameRe v = true ∧ v.length ≤ 255)
    (hend : endsInNewline v = false) : Nginx.hostField v = true := by
  have hmatch := hostRe_of_hostnameRe (patternMatches_of_reMatch h.1 hend)
  simp [Nginx.hostField, hmatch, h.2, length_pos_of_hostRe hmatch]

theorem pattern_of_hostField (h : Nginx.hostField v = true) : patternMatches hostRe v = true := by
  simp only [Nginx.hostField, Bool.and_eq_true] at h
  exact h.2

theorem truthy_path {path : Option String} (hpath : ∀ v, path = some v → reMatch unixPathRe v = true) :
    truthy path = true ↔ ∃ v, path = some v := by
  have hempty : reMatch unixPathRe "" = false := by decide +kernel
  cases path with
  | none => simp [truthy]
  | some v =>
    refine iff_of_true ?_ ⟨v, rfl⟩
    have hne : v ≠ "" := by
      rintro rfl
      rw [hpath "" rfl] at hempty
      cases hempty
    simpa [truthy] using hne

/-! ## Payloads -/

section Payload

variable {s : Store}

theorem domain_fits {row : DomainRow} (hs : row.Sound s) {cert key : String} (hcert : row.certPath = some cert)
    (hkey : row.keyPath = some key) :
    (DomainConfig.validate ⟨row.hostname, row.certPath, row.keyPath⟩).isSome = true ↔
      endsInNewline row.hostname = false ∧ PathFits cert ∧ PathFits key := by
  rw [validate_domain_isSome hcert hkey, hostnameField_iff hs.hostname, pathField_iff (hs.certPath cert hcert),
    pathField_iff (hs.keyPath key hkey)]

theorem accepted_of_clean (hs : s.Sound) (h : s.Clean) : s.Accepted := by
  intro a slug hslug running hports
  refine (accepted_iff _).2 ⟨h.slugs a slug hslug, fun d hd => ?_, fun u hu => ?_⟩
  · obtain ⟨hd, hfull⟩ := List.mem_filter.1 hd
    obtain ⟨k, row, hrow, -, rfl⟩ := mem_domainsOf.1 hd
    have hsound := hs k row hrow
    rw [Bool.and_eq_true, truthy_path fun v hv => (hsound.certPath v hv).1,
      truthy_path fun v hv => (hsound.keyPath v hv).1] at hfull
    obtain ⟨⟨cert, hcert⟩, key, hkey⟩ := hfull
    exact (domain_fits hsound hcert hkey).2 (h.domains k row hrow cert key hcert hkey)
  · obtain ⟨r, hr, hu⟩ := List.mem_filterMap.1 hu
    obtain ⟨host, hhost, rfl⟩ := Option.map_eq_some_iff.1 hu
    exact (validate_upstream_isSome _).2 ⟨h.servers r.serverId host hhost, hports r hr⟩

/-- Once there is an application, no other rows are accepted. -/
theorem clean_of_accepted (hs : s.Sound) (huse : s.InUse) (h : s.Accepted) : s.Clean := by
  refine ⟨fun a slug hslug => ?_, fun k row hrow cert key hcert hkey => ?_, fun k host hhost => ?_⟩
  · exact ((accepted_iff _).1 (h a slug hslug [] (by simp))).1
  · have hsound := hs k row hrow
    obtain ⟨slug, hslug⟩ := Option.isSome_iff_exists.1 hsound.owner
    have hdomains := ((accepted_iff _).1 (h _ slug hslug [] (by simp))).2.1
    refine (domain_fits hsound hcert hkey).1 (hdomains _ (List.mem_filter.2 ⟨?_, ?_⟩))
    · exact mem_domainsOf.2 ⟨k, row, hrow, rfl, rfl⟩
    · rw [Bool.and_eq_true, truthy_path fun v hv => (hsound.certPath v hv).1,
        truthy_path fun v hv => (hsound.keyPath v hv).1]
      exact ⟨⟨cert, hcert⟩, key, hkey⟩
  · -- an instance on this server
    obtain ⟨a, slug, hslug⟩ := huse
    have hups := ((accepted_iff _).1 (h a slug hslug [⟨0, k, 1⟩] (by simp))).2.2
    have hup : (⟨0, host, 1⟩ : Upstream) ∈ (s.payload a slug [⟨0, k, 1⟩]).upstreams := by
      simp [Store.payload, hhost]
    exact ((validate_upstream_isSome _).1 (hups _ hup)).1

end Payload

/-! ## Writes -/

/-- The applications that rows point to are still there. -/
def Store.Keeps (s s' : Store) : Prop := ∀ a, (s.slugs.row a).isSome = true → (s'.slugs.row a).isSome = true

theorem DomainRow.Sound.keeps {s s' : Store} {row : DomainRow} (h : row.Sound s) (hk : s.Keeps s') : row.Sound s' :=
  ⟨h.hostname, h.certPath, h.keyPath, hk _ h.owner⟩

theorem keeps_insert (s : Store) (slug : String) : s.Keeps { s with slugs := s.slugs.insert slug } := by
  intro a ha
  obtain ⟨old, hold⟩ := Option.isSome_iff_exists.1 ha
  change ((s.slugs.insert slug).row a).isSome = true
  rw [insert_row_of_ne _ _ (lt_of_row hold).ne, hold]
  rfl

theorem keeps_modify (s : Store) (k : ℕ) (f : String → String) : s.Keeps { s with slugs := s.slugs.modify k f } := by
  intro a ha
  change ((s.slugs.modify k f).row a).isSome = true
  rw [modify_row]
  split_ifs <;> simpa using ha

section Section

variable (d : DomainSection) {s : Store} {a : ℕ}

theorem section_sound (ha : (s.slugs.row a).isSome = true) :
    DomainRow.Sound s ⟨a, d.hostname, d.certPath, d.keyPath⟩ := by
  have hhost := d.hostname_ok
  simp only [Nginx.hostnameField, Bool.and_eq_true, decide_eq_true_eq] at hhost
  refine ⟨⟨reMatch_of_pattern hhost.2, hhost.1.2⟩, fun v hv => ?_, fun v hv => ?_, ha⟩
  · exact ⟨reMatch_of_pattern (d.certPath_ok v hv).2.1, (d.certPath_ok v hv).2.2⟩
  · exact ⟨reMatch_of_pattern (d.keyPath_ok v hv).2.1, (d.keyPath_ok v hv).2.2⟩

/-- A section of a healer.yaml is checked as the Gateway Manager checks it. -/
theorem section_fits : DomainRow.Fits ⟨a, d.hostname, d.certPath, d.keyPath⟩ := by
  intro cert key hcert hkey
  have hhost := d.hostname_ok
  simp only [Nginx.hostnameField, Bool.and_eq_true] at hhost
  have hpath : ∀ v, v.length ≤ 1000 ∧ patternMatches unixPathRe v = true ∧ hasTraversal v = false → PathFits v :=
    fun v h => ⟨h.1, not_endsInNewline unixPathRe_ne_newline h.2.1⟩
  exact ⟨not_endsInNewline hostnameRe_ne_newline hhost.2, hpath cert (d.certPath_ok cert hcert),
    hpath key (d.keyPath_ok key hkey)⟩

end Section

section Writes

variable {lower : String → String} {s s' : Store} {w : Write}

theorem applications_kept (h : w.run lower s = .ok s') : s.Keeps s' := by
  cases w with
  | createApplication name dom =>
    obtain ⟨n, -, -, hsync⟩ := createApplication_ok h
    intro a ha
    rw [(syncDomain_ok hsync).1]
    exact keeps_insert s _ a ha
  | updateApplication a dom =>
    obtain ⟨-, hsync⟩ := updateApplication_ok h
    intro b hb
    rw [(syncDomain_ok hsync).1]
    exact hb
  | createServer hostname =>
    obtain ⟨-, rfl⟩ := createServer_ok h
    exact fun a ha => ha
  | editSlug a change =>
    obtain ⟨old, -, rfl⟩ := editSlug_ok h
    exact keeps_modify s a _
  | editServer k change =>
    obtain ⟨old, -, rfl, -⟩ := editServer_ok h
    exact fun a ha => ha
  | editDomain k e =>
    obtain ⟨old, -, rfl, -⟩ := editDomain_ok h
    exact fun a ha => ha

theorem sound_sync {a : ℕ} {dom : Option DomainSection} (hs : s.Sound) (ha : (s.slugs.row a).isSome = true)
    (h : s.syncDomain a dom = .ok s') : s'.Sound := by
  obtain ⟨hslugs, -, hrows⟩ := syncDomain_ok h
  have hkeeps : s.Keeps s' := fun b hb => by rw [hslugs]; exact hb
  intro k row hrow
  rcases hrows k row hrow with hold | ⟨d, -, rfl⟩
  · exact (hs k row hold).keeps hkeeps
  · exact (section_sound d ha).keeps hkeeps

theorem clean_sync {a : ℕ} {dom : Option DomainSection} (hc : s.Clean) (h : s.syncDomain a dom = .ok s') :
    s'.Clean := by
  obtain ⟨hslugs, hservers, hrows⟩ := syncDomain_ok h
  refine ⟨?_, fun k row hrow => ?_, ?_⟩
  · rw [hslugs]
    exact hc.slugs
  · rcases hrows k row hrow with hold | ⟨d, -, rfl⟩
    · exact hc.domains k row hold
    · exact section_fits d
  · rw [hservers]
    exact hc.servers

theorem on_sound {e : DomainEdit} {old : DomainRow} (hold : old.Sound s)
    (howner : (s.slugs.row (e.on old).applicationId).isSome = true)
    (hhost : ∀ v, e.hostname = .text v → reMatch hostnameRe v = true ∧ v.length ≤ 255)
    (hcert : ∀ v, e.certPath = .text v → v ≠ "" → reMatch unixPathRe v = true ∧ hasTraversal v = false)
    (hkey : ∀ v, e.keyPath = .text v → v ≠ "" → reMatch unixPathRe v = true ∧ hasTraversal v = false) :
    (e.on old).Sound s := by
  have hpath : ∀ {P : String → Prop} {old : Option String} {change : Change}, (∀ v, old = some v → P v) →
      (∀ v, change = .text v → v ≠ "" → P v) → ∀ v, change.onOptional old = some v → P v := by
    intro P old change hold hnew v hv
    cases change with
    | kept => exact hold v hv
    | null => cases hv
    | text w =>
      simp only [Change.onOptional] at hv
      split_ifs at hv with hempty
      cases hv
      exact hnew v rfl (by simpa using hempty)
  refine ⟨?_, hpath hold.certPath hcert, hpath hold.keyPath hkey, howner⟩
  change reMatch hostnameRe (e.hostname.on old.hostname) = true ∧ (e.hostname.on old.hostname).length ≤ 255
  cases hchange : e.hostname with
  | kept => exact hold.hostname
  | null => exact hold.hostname
  | text v => exact hhost v hchange

/-- Every write keeps the control plane's own rules. -/
theorem sound_run (hs : s.Sound) (h : w.run lower s = .ok s') : s'.Sound := by
  have hkeeps := applications_kept h
  cases w with
  | createApplication name dom =>
    obtain ⟨n, -, -, hsync⟩ := createApplication_ok h
    have hs1 : Store.Sound { s with slugs := s.slugs.insert (candidate (slugify lower name) n) } :=
      fun k row hrow => (hs k row hrow).keeps (keeps_insert s _)
    exact sound_sync hs1 (by simp) hsync
  | updateApplication a dom =>
    obtain ⟨ha, hsync⟩ := updateApplication_ok h
    exact sound_sync hs ha hsync
  | createServer hostname =>
    obtain ⟨-, rfl⟩ := createServer_ok h
    exact fun k row hrow => (hs k row hrow).keeps hkeeps
  | editSlug a change =>
    obtain ⟨old, -, rfl⟩ := editSlug_ok h
    exact fun k row hrow => (hs k row hrow).keeps hkeeps
  | editServer k change =>
    obtain ⟨old, -, rfl, -⟩ := editServer_ok h
    exact fun k row hrow => (hs k row hrow).keeps hkeeps
  | editDomain k e =>
    obtain ⟨old, hold, rfl, howner, hhost, hcert, hkey⟩ := editDomain_ok h
    intro j row hrow
    refine DomainRow.Sound.keeps ?_ hkeeps
    rcases modify_row_cases hrow with ⟨-, -, -, rfl⟩ | hrow
    · exact on_sound (hs k old hold) howner hhost hcert hkey
    · exact hs j row hrow

/-- The slug of a new application is short exactly when some short candidate was free. -/
theorem candidate_short {base : String} {n : ℕ} (hfree : Store.taken s.slugs none (candidate base n) = false)
    (hbefore : ∀ j, j < n → Store.taken s.slugs none (candidate base j) = true) :
    (candidate base n).length ≤ 63 ↔
      ∃ m, (candidate base m).length ≤ 63 ∧ Store.taken s.slugs none (candidate base m) = false := by
  constructor
  · intro hlen
    exact ⟨n, hlen, hfree⟩
  · rintro ⟨m, hlen, hm⟩
    have hle : n ≤ m := by
      by_contra hlt
      rw [hbefore m (by omega)] at hm
      cases hm
    exact (length_candidate_mono base hle).trans hlen

/-- A write that suits the Gateway Manager leaves it nothing to refuse. -/
theorem clean_run (hc : s.Clean) (h : w.run lower s = .ok s') (hsuits : w.Suits lower s) : s'.Clean := by
  cases w with
  | createApplication name dom =>
    obtain ⟨n, hfree, hbefore, hsync⟩ := createApplication_ok h
    refine clean_sync (s := { s with slugs := s.slugs.insert _ }) ⟨fun a slug hslug => ?_, hc.domains, hc.servers⟩
      hsync
    rcases insert_row_cases hslug with ⟨-, rfl⟩ | hslug
    · exact slugField_of_text (candidate_text (slugify_text lower name) n)
        ((candidate_short hfree hbefore).2 hsuits)
    · exact hc.slugs a slug hslug
  | updateApplication a dom => exact clean_sync hc (updateApplication_ok h).2
  | createServer hostname =>
    obtain ⟨hlen, rfl⟩ := createServer_ok h
    refine ⟨hc.slugs, hc.domains, fun k host hhost => ?_⟩
    rcases insert_row_cases hhost with ⟨-, rfl⟩ | hhost
    · have hmatch : patternMatches hostRe host = true := hsuits
      simp [Nginx.hostField, hlen.1, hlen.2, hmatch]
    · exact hc.servers k host hhost
  | editSlug a change =>
    obtain ⟨old, hold, rfl⟩ := editSlug_ok h
    refine ⟨fun b slug hslug => ?_, hc.domains, hc.servers⟩
    rcases modify_row_cases hslug with ⟨-, -, -, rfl⟩ | hslug
    · cases change with
      | text v => exact hsuits v rfl
      | kept => exact hc.slugs a old hold
      | null => exact hc.slugs a old hold
    · exact hc.slugs b slug hslug
  | editServer k change =>
    obtain ⟨old, hold, rfl, hval⟩ := editServer_ok h
    refine ⟨hc.slugs, hc.domains, fun j host hhost => ?_⟩
    rcases modify_row_cases hhost with ⟨-, -, -, rfl⟩ | hhost
    · cases change with
      | text v => exact hostField_of_hostname (hval v rfl) (hsuits v rfl)
      | kept => exact hc.servers k old hold
      | null => exact hc.servers k old hold
    · exact hc.servers j host hhost
  | editDomain k e =>
    obtain ⟨old, hold, rfl, -⟩ := editDomain_ok h
    refine ⟨hc.slugs, fun j row hrow => ?_, hc.servers⟩
    rcases modify_row_cases hrow with ⟨-, -, -, rfl⟩ | hrow
    · exact hsuits old hold
    · exact hc.domains j row hrow

/-- And no other write does. -/
theorem suits_of_clean (h : w.run lower s = .ok s') (hc : s'.Clean) : w.Suits lower s := by
  cases w with
  | createApplication name dom =>
    obtain ⟨n, hfree, hbefore, hsync⟩ := createApplication_ok h
    have hrow : s'.slugs.row s.slugs.next = some (candidate (slugify lower name) n) := by
      rw [(syncDomain_ok hsync).1]
      exact insert_row_self _ _
    have hfield := hc.slugs _ _ hrow
    simp only [slugField, Bool.and_eq_true, decide_eq_true_eq] at hfield
    exact (candidate_short hfree hbefore).1 hfield.1.2
  | updateApplication a dom => trivial
  | createServer hostname =>
    obtain ⟨-, rfl⟩ := createServer_ok h
    exact pattern_of_hostField (hc.servers s.servers.next hostname (insert_row_self _ _))
  | editSlug a change =>
    obtain ⟨old, hold, rfl⟩ := editSlug_ok h
    rintro v rfl
    refine hc.slugs a v ?_
    change (s.slugs.modify a fun _ => v).row a = some v
    rw [modify_row_self, hold, Option.map_some]
  | editServer k change =>
    obtain ⟨old, hold, rfl, -⟩ := editServer_ok h
    rintro v rfl
    refine not_endsInNewline hostRe_ne_newline (pattern_of_hostField (hc.servers k v ?_))
    change (s.servers.modify k fun _ => v).row k = some v
    rw [modify_row_self, hold, Option.map_some]
  | editDomain k e =>
    obtain ⟨old, hold, rfl, -⟩ := editDomain_ok h
    intro old' hold'
    rw [hold, Option.some.injEq] at hold'
    rw [← hold']
    refine hc.domains k (e.on old) ?_
    change (s.domains.modify k fun _ => e.on old).row k = some (e.on old)
    rw [modify_row_self, hold, Option.map_some]

theorem inUse_run (huse : s.InUse) (h : w.run lower s = .ok s') : s'.InUse := by
  obtain ⟨a, slug, hslug⟩ := huse
  have hsome := applications_kept h a (by rw [hslug]; rfl)
  obtain ⟨slug', hslug'⟩ := Option.isSome_iff_exists.1 hsome
  exact ⟨a, slug', hslug'⟩

end Writes

/-! ## Runs -/

theorem write_fits {w : Write} {lower : String → String} {s : Store} (h : s.Sound ∧ s.Clean) (hw : w.Fits lower s) :
    (s.write lower w).Sound ∧ (s.write lower w).Clean := by
  unfold Store.write
  rcases hrun : w.run lower s with e | s'
  · exact h
  · exact ⟨sound_run h.1 hrun, clean_run h.2 hrun (hw s' hrun)⟩

/-- Along every run of writes that are refused or suit the Gateway Manager, the Gateway Manager takes every
payload. The first other write, once there is an application, leaves one that it does not take. -/
theorem stored_rows_accepted (lower : String → String) (ws : List Write)
    (h : Runs.Along (Store.write lower) (fun s w => w.Fits lower s) Store.empty ws) :
    (Runs.run (Store.write lower) Store.empty ws).Accepted ∧
      ∀ w : Write, (Runs.run (Store.write lower) Store.empty ws).InUse →
        (((Runs.run (Store.write lower) Store.empty ws).write lower w).Accepted ↔
          w.Fits lower (Runs.run (Store.write lower) Store.empty ws)) := by
  have hempty : Store.empty.Sound ∧ Store.empty.Clean := by
    refine ⟨?_, ?_, ?_, ?_⟩ <;> intro k row hrow <;> cases hrow
  have hinv := Runs.invariant (I := fun s => s.Sound ∧ s.Clean) (fun _ _ hs hw => write_fits hs hw) ws
    Store.empty hempty h
  generalize Runs.run (Store.write lower) Store.empty ws = s at hinv
  refine ⟨accepted_of_clean hinv.1 hinv.2, fun w huse => ⟨fun hacc s' hrun => ?_, fun hw => ?_⟩⟩
  · have hwrite : s.write lower w = s' := by rw [Store.write, hrun]
    rw [hwrite] at hacc
    exact suits_of_clean hrun (clean_of_accepted (sound_run hinv.1 hrun) (inUse_run huse hrun) hacc)
  · have hafter := write_fits hinv hw
    exact accepted_of_clean hafter.1 hafter.2

/-- A server, and an application that is called Shop. -/
def firstWrites : List Write := [.createServer "web-1", .createApplication "Shop" none]

theorem stored_rows_accepted_first :
    (Runs.run (Store.write String.toLower) Store.empty firstWrites).slugs.row 0 = some "shop" ∧
      (Runs.run (Store.write String.toLower) Store.empty firstWrites).Accepted := by
  refine ⟨by decide +kernel, (stored_rows_accepted String.toLower firstWrites ⟨?_, ?_, trivial⟩).1⟩
  · intro s' _
    change patternMatches hostRe "web-1" = true
    decide +kernel
  · intro s' _
    exact ⟨0, by decide +kernel, by decide +kernel⟩

/-- A name that a healer.yaml may have: at most 255 characters. -/
def longName : String := String.ofList (List.replicate 64 'a')

/-- The slug of a long name is too long for the Gateway Manager; and `POST /servers` takes a host with an
underscore, so an instance on it is refused. -/
theorem long_name_and_underscore_refused :
    (Store.empty.write String.toLower (.createApplication longName none)).slugs.row 0 = some longName ∧
      ((Store.empty.write String.toLower (.createApplication longName none)).payload 0 longName []).accepted = false ∧
      (Store.empty.write String.toLower (.createServer "web_1")).servers.row 0 = some "web_1" ∧
      ((Store.empty.write String.toLower (.createServer "web_1")).payload 0 "shop" [⟨0, 0, 8000⟩]).accepted = false := by
  refine ⟨?_, ?_, ?_, ?_⟩ <;> decide +kernel

end Healer
