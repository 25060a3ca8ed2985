import Healer.Sanity.Sample
import Healer.Sanity.Stored
import Healer.Spec.Related

/-! The Source, HealthCheck and Domain rows of an application after any number of writes of its
configuration. Each write leaves the rows of the other applications alone and does to its own what
`Rows.sync` says, so the rows are those of the last configuration but for the Domain, which stays when a
configuration has none. -/

namespace Healer

open Function List Table

/-! ## What a write has done -/

/-- `_sync_related_rows` on the rows of one application. -/
def Rows.sync (rows : Rows) (c : Descriptor) : Rows where
  sources := c.source :: rows.sources.tail
  probes := (rows.probes.head?.getD ⟨.http, none, HealthCheck.fresh⟩).sync c :: rows.probes.tail
  domains := syncDomains rows.domains c.domain

def Rows.empty : Rows := ⟨[], [], []⟩

def DomainRow.config (row : DomainRow) : DomainConfig := ⟨row.hostname, row.certPath, row.keyPath⟩

theorem domainsOf_eq (s : Store) (a : ℕ) :
    s.domainsOf a = (s.domains.rows fun row => row.applicationId == a).map DomainRow.config := by
  rw [Table.rows, map_filterMap]
  rfl

variable {c : Descriptor}

theorem syncDomain_domains {s s' : Store} {a : ℕ} (h : s.syncDomain a c.domainSection = .ok s')
    (b : ℕ) : s'.domainsOf b = if b = a then syncDomains (s.domainsOf a) c.domain else s.domainsOf b := by
  rcases hd : c.domain with _ | d
  · have hsection : c.domainSection = none := Option.pmap_eq_none_iff.2 hd
    rw [hsection] at h
    cases h
    rw [syncDomains]
    split_ifs with hb
    · rw [hb]
    · rfl
  · obtain ⟨hok, hsection⟩ : ∃ h, c.domainSection = some (d.toSection h) := ⟨c.domain_ok d hd, by
      simp [Descriptor.domainSection, hd]⟩
    have htable : s'.domains = s.domains.upsert (fun row => row.applicationId == a)
        ⟨a, d.hostname, d.certPath, d.keyPath⟩
        fun row => { row with hostname := d.hostname, certPath := d.certPath, keyPath := d.keyPath } := by
      rw [hsection, Store.syncDomain] at h
      rcases hfirst : s.domains.first fun row => row.applicationId == a with _ | ⟨k, old⟩
      · simp only [hfirst] at h
        split_ifs at h
        cases h
        rw [Table.upsert, hfirst]
        rfl
      · simp only [hfirst] at h
        split_ifs at h
        cases h
        rw [Table.upsert, hfirst]
        rfl
    rw [domainsOf_eq, domainsOf_eq, domainsOf_eq, htable]
    refine map_rows_upsert DomainRow.applicationId DomainRow.config (fun _ => d) ?_ ?_ ?_ b
    all_goals intros; rfl

/-- The inversion of a write: `a` is given `c`. -/
structure Wrote (a : ℕ) (c : Descriptor) (r r' : Related) : Prop where
  known : (r'.store.slugs.row a).isSome = true
  others : ∀ b, b ≠ a → r'.store.slugs.row b = r.store.slugs.row b
  configs : r'.configs = Function.update r.configs a (some c)
  rows : ∀ b, r'.rowsOf b = if b = a then (r.rowsOf a).sync c else r.rowsOf b

theorem Rows.ite_ext {p : Prop} [Decidable p] {x y z : Rows}
    (hs : x.sources = if p then y.sources else z.sources) (hp : x.probes = if p then y.probes else z.probes)
    (hd : x.domains = if p then y.domains else z.domains) : x = if p then y else z := by
  cases x
  split_ifs with h
  · simp only [if_pos h] at hs hp hd
    rw [hs, hp, hd]
  · simp only [if_neg h] at hs hp hd
    rw [hs, hp, hd]

theorem put_wrote {r r' : Related} {s store : Store} {a : ℕ} (h : r.put store a c = .ok r')
    (hsync : s.syncDomain a c.domainSection = .ok store) (hdomains : s.domains = r.store.domains)
    (hslug : (s.slugs.row a).isSome = true) (hothers : ∀ b, b ≠ a → s.slugs.row b = r.store.slugs.row b) :
    Wrote a c r r' := by
  unfold Related.put at h
  split_ifs at h
  cases h
  have hslugs := (syncDomain_ok hsync).1
  refine ⟨by rwa [hslugs], fun b hb => by rw [hslugs, hothers b hb], rfl, fun b => Rows.ite_ext ?_ ?_ ?_⟩
  · refine map_rows_upsert SourceRow.applicationId SourceRow.source (fun _ => c.source) ?_ ?_ ?_ b
    all_goals intros; rfl
  · refine map_rows_upsert HealthCheckRow.applicationId HealthCheckRow.probe (·.sync c) ?_ ?_ ?_ b
    all_goals intros; rfl
  · have hsame : ∀ b, s.domainsOf b = r.store.domainsOf b := fun b => by rw [Store.domainsOf, hdomains]; rfl
    refine (syncDomain_domains hsync b).trans ?_
    rw [hsame, hsame]
    rfl

variable {lower : String → String}

theorem run_wrote {r r' : Related} {w : AppWrite} (h : w.run lower r = .ok r') :
    Wrote (w.application r) w.config r r' := by
  cases w with
  | create c =>
    obtain ⟨store, hstore, hput⟩ := bind_ok h
    obtain ⟨n, -, -, hsync⟩ := createApplication_ok hstore
    refine put_wrote hput hsync rfl ?_ fun b hb => insert_row_of_ne _ _ hb
    exact Option.isSome_of_eq_some (insert_row_self _ _)
  | update a c =>
    obtain ⟨store, hstore, hput⟩ := bind_ok h
    obtain ⟨hslug, hsync⟩ := updateApplication_ok hstore
    exact put_wrote hput hsync rfl hslug fun b _ => rfl

/-! ## Any number of writes -/

structure Register.Sound (g : Register) : Prop where
  fresh : ∀ a, g.db.store.slugs.row a = none → g.given a = []
  stored : ∀ a, g.db.configs a = (g.given a).getLast?
  rows : ∀ a, g.db.rowsOf a = (g.given a).foldl Rows.sync Rows.empty

theorem sound_empty : Register.empty.Sound := ⟨fun _ _ => rfl, fun _ => rfl, fun _ => rfl⟩

theorem Wrote.sound {g : Register} {a : ℕ} {db : Related} (h : Wrote a c g.db db) (hg : g.Sound) :
    Register.Sound ⟨db, Function.update g.given a (g.given a ++ [c])⟩ where
  fresh b hb := by
    have hba : b ≠ a := by
      rintro rfl
      have hsome := h.known
      rw [show db.store.slugs.row b = none from hb] at hsome
      cases hsome
    exact (update_of_ne hba _ _).trans (hg.fresh b ((h.others b hba).symm.trans hb))
  stored b := by
    show db.configs b = (Function.update g.given a (g.given a ++ [c]) b).getLast?
    by_cases hba : b = a
    · rw [hba, h.configs, update_self, update_self, List.getLast?_concat]
    · rw [h.configs, update_of_ne hba, update_of_ne hba, hg.stored]
  rows b := by
    show db.rowsOf b = (Function.update g.given a (g.given a ++ [c]) b).foldl Rows.sync Rows.empty
    by_cases hba : b = a
    · rw [hba, h.rows, if_pos rfl, update_self, foldl_concat, hg.rows]
    · rw [h.rows, if_neg hba, update_of_ne hba, hg.rows]

theorem sound_write (g : Register) (w : AppWrite) (hg : g.Sound) :
    (g.write lower w).Sound := by
  unfold Register.write
  rcases hrun : w.run lower g.db with _ | db
  · exact hg
  · exact (run_wrote hrun).sound hg

theorem sound_after (lower : String → String) (ws : List AppWrite) : (Register.after lower ws).Sound :=
  Runs.stable sound_write ws _ sound_empty

/-! ## The rows of the last configuration -/

/-- The rows that `create_application` makes of `c`. -/
def Rows.made (c : Descriptor) : Rows where
  sources := [c.source]
  probes := [⟨.http, some c.healthPath, c.health.intervalSeconds, c.health.timeoutSeconds,
    c.health.healthyThreshold, c.health.unhealthyThreshold, none, 3, 30⟩]
  domains := c.domain.toList

theorem sync_empty (c : Descriptor) : Rows.empty.sync c = Rows.made c := by
  rw [Rows.sync, Rows.made]
  cases c.domain <;> rfl

/-- Only the Domain remembers the configurations before the last. -/
theorem foldl_sync (cs : List Descriptor) (c : Descriptor) :
    (cs ++ [c]).foldl Rows.sync Rows.empty =
      { Rows.made c with domains := syncDomains ((cs.map (·.domain)).foldl syncDomains []) c.domain } := by
  induction cs using List.reverseRecOn generalizing c with
  | nil => rfl
  | append_singleton cs b ih =>
    rw [foldl_concat, ih b, map_append, foldl_append]
    rfl

/-- A Domain row is left as soon as one configuration had a domain. -/
theorem foldl_syncDomains (ds : List (Option DomainConfig)) :
    ds.foldl syncDomains [] = [] ↔ ∀ d ∈ ds, d = none := by
  induction ds using List.reverseRecOn with
  | nil => simp
  | append_singleton ds d ih =>
    rw [foldl_concat, forall_mem_append, ← ih]
    cases d <;> simp [syncDomains]

theorem length_foldl_syncDomains (ds : List (Option DomainConfig)) : (ds.foldl syncDomains []).length ≤ 1 := by
  induction ds using List.reverseRecOn with
  | nil => simp
  | append_singleton ds d ih =>
    rw [foldl_concat]
    cases d with
    | none => exact ih
    | some d =>
      rw [syncDomains, length_cons, length_tail]
      omega

theorem foldl_sync_made_iff (cs : List Descriptor) (c : Descriptor) :
    (cs ++ [c]).foldl Rows.sync Rows.empty = Rows.made c ↔
      c.domain.isSome = true ∨ ∀ c' ∈ cs, c'.domain = none := by
  have hnil := foldl_syncDomains (cs.map (·.domain))
  have hlen := length_foldl_syncDomains (cs.map (·.domain))
  rw [forall_mem_map] at hnil
  have hrows : ∀ ds, { Rows.made c with domains := ds } = Rows.made c ↔ ds = c.domain.toList := by
    intro ds
    simp [Rows.made]
  rw [foldl_sync, hrows]
  rcases hd : c.domain with _ | d
  · rw [syncDomains, Option.toList_none, hnil]
    simp
  · -- the one row there may be is overwritten
    have htail : ((cs.map (·.domain)).foldl syncDomains []).tail = [] := by
      rw [eq_nil_iff_length_eq_zero, length_tail]
      omega
    rw [syncDomains, Option.toList_some, htail]
    simp

/-- A new application has the rows of its configuration. -/
theorem create_rows (ws : List AppWrite) {r : Related}
    (h : (Register.after lower ws).db.createApplication lower c = .ok r) :
    r.rowsOf (Register.after lower ws).db.store.slugs.next = Rows.made c := by
  have hg := sound_after lower ws
  have hwrote : Wrote (Register.after lower ws).db.store.slugs.next c (Register.after lower ws).db r :=
    run_wrote (w := .create c) h
  rw [hwrote.rows, if_pos rfl, hg.rows, hg.fresh _ (row_none _ _ le_rfl)]
  exact sync_empty c

/-- The rows of application `a` are those of its configuration `c`. -/
structure Related.Mirrors (r : Related) (a : ℕ) (c : Descriptor) : Prop where
  stored : r.configs a = some c
  rows : r.rowsOf a = Rows.made c
  one : c.domain.isSome = true → (r.rowsOf a).domains.length = 1
  none : c.domain = none → (r.rowsOf a).domains = []
  /-- The test of the pipelines, and what `_build_reload_payload` selects. -/
  found : c.domain.isSome = true ↔ (r.rowsOf a).domains ≠ []

theorem mirrors_iff {r : Related} {a : ℕ} (hstored : r.configs a = some c) :
    r.Mirrors a c ↔ r.rowsOf a = Rows.made c := by
  refine ⟨fun h => h.rows, fun hrows => ?_⟩
  have hdomains : (r.rowsOf a).domains = c.domain.toList := by rw [hrows]; rfl
  refine ⟨hstored, hrows, ?_, ?_, ?_⟩
  all_goals rw [hdomains]; cases c.domain <;> simp

/-- In every sequence of writes, to any applications, with `cs ++ [c]` what application `a` was given: its
rows are those that `create_application` would make of `c` iff `c` has a domain, or no configuration of `a`
before `c` had one. -/
theorem rows_mirror_config_iff (lower : String → String) (ws : List AppWrite) (a : ℕ) (cs : List Descriptor)
    (c : Descriptor) (h : (Register.after lower ws).given a = cs ++ [c]) :
    (∀ ws₀ r, (Register.after lower ws₀).db.createApplication lower c = .ok r →
      r.rowsOf (Register.after lower ws₀).db.store.slugs.next = Rows.made c) ∧
    ((Register.after lower ws).db.Mirrors a c ↔ c.domain.isSome = true ∨ ∀ c' ∈ cs, c'.domain = none) := by
  have hg := sound_after lower ws
  have hstored : (Register.after lower ws).db.configs a = some c := by
    rw [hg.stored, h, List.getLast?_concat]
  refine ⟨fun ws₀ r hr => create_rows ws₀ hr, ?_⟩
  rw [mirrors_iff hstored, hg.rows, h]
  exact foldl_sync_made_iff cs c

namespace Sample

def storefront : DomainConfig := ⟨"shop.example.com", some "/etc/ssl/cert.pem", some "/etc/ssl/key.pem"⟩

theorem storefront_valid : storefront.Valid := by
  refine ⟨by decide +kernel, fun v hv => ?_, fun v hv => ?_⟩
  · cases hv
    decide +kernel
  · cases hv
    decide +kernel

def described (domain : Option DomainConfig) (h : ∀ d, domain = some d → d.Valid) : Descriptor where
  toHealerYaml := config domain
  healthPath := "/health"
  name_ok := show 1 ≤ "shop".length ∧ "shop".length ≤ 255 by decide
  location_ok := show 1 ≤ "src".length ∧ "src".length ≤ 2000 by decide
  ref_ok r hr := by cases hr
  healthPath_ok := by decide
  domain_ok := h
  windows_source _ := Or.inl rfl
  linux_source h := by cases h

def withDomain : Descriptor := described (some storefront) fun d h => by cases h; exact storefront_valid

def withoutDomain : Descriptor := described none fun d h => by cases h

def domainAdded : List AppWrite := [.create withoutDomain, .update 0 withDomain]

def domainRemoved : List AppWrite := [.create withDomain, .update 0 withoutDomain]

end Sample

open Sample in
theorem rows_mirror_config_sample :
    (Register.after id domainAdded).given 0 = [withoutDomain] ++ [withDomain] ∧
      (Register.after id domainAdded).db.Mirrors 0 withDomain :=
  ⟨rfl, ((rows_mirror_config_iff id _ 0 [withoutDomain] withDomain rfl).2).2 (Or.inl rfl)⟩

open Sample in
/-- The domain is taken out of the configuration and its row stays: the pipelines no longer sync the gateway,
and a reload still has the domain. -/
theorem removed_domain_stays :
    (Register.after id domainRemoved).given 0 = [withDomain, withoutDomain] ∧
      ((Register.after id domainRemoved).db.configs 0).map (·.domain) = some none ∧
      ((Register.after id domainRemoved).db.rowsOf 0).domains = [storefront] ∧
      ((Register.after id domainRemoved).db.store.payload 0 "shop" []).domains = [storefront] ∧
      ¬ (Register.after id domainRemoved).db.Mirrors 0 withoutDomain := by
  have hrow : ((Register.after id domainRemoved).db.rowsOf 0).domains = [storefront] := by decide +kernel
  refine ⟨rfl, by decide +kernel, hrow, by decide +kernel, fun h => ?_⟩
  have hnone := h.none rfl
  rw [hrow] at hnone
  cases hnone

end Healer
