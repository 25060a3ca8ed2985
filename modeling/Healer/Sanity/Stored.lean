import Healer.Sanity.Patterns
import Healer.Spec.Stored

/-! What the writers leave in the rows: the shape of a slug, that `_unique_slug` ends, and what each write
has done when it is not refused. -/

namespace Healer

open List Table

open RegularExpression (mem_oneOf_mul mem_upTo_oneOf)

/-! ## Slugs -/

/-- Of the form of `_SLUG_RE`, whatever the length. -/
def SlugText (s : List Char) : Prop :=
  ∃ c cs, s = c :: cs ∧ c ∈ slugLetters ∧ ∀ d ∈ cs, d ∈ '-' :: slugLetters

/-- The slugs that `_unique_slug` tries, in order. -/
def candidate (base : String) : ℕ → String
  | 0 => base
  | n + 1 => base ++ "-" ++ toString (n + 2)

/-- What the request's schema and `_managed_path` want of a slug. -/
def slugField (slug : String) : Bool :=
  1 ≤ slug.length && slug.length ≤ 63 && (Nginx.managedPath slug).isSome

theorem collapse_letters (cs : List Char) : ∀ gap, ∀ c ∈ collapse gap cs, c ∈ '-' :: slugLetters := by
  induction cs with
  | nil => intro gap c hc; simp [collapse] at hc
  | cons d cs ih =>
    intro gap c hc
    unfold collapse at hc
    split_ifs at hc with hd hgap
    · rcases mem_cons.1 hc with rfl | hc
      · exact mem_cons_of_mem _ (contains_iff_mem.1 hd)
      · exact ih false c hc
    · exact ih true c hc
    · rcases mem_cons.1 hc with rfl | hc
      · exact mem_cons_self
      · exact ih true c hc

theorem slugify_text (lower : String → String) (name : String) : SlugText (slugify lower name).toList := by
  have hletters := collapse_letters (lower name).toList false
  unfold slugify
  generalize collapse false (lower name).toList = cs at hletters
  dsimp only
  split_ifs with hempty
  · exact ⟨'a', ['p', 'p'], rfl, by decide +kernel, forall_mem_of_all (by decide +kernel)⟩
  rw [String.toList_ofList]
  obtain ⟨c, rest, hrest⟩ : ∃ c rest, (cs.dropWhile (· == '-')).rdropWhile (· == '-') = c :: rest := by
    apply exists_cons_of_ne_nil
    simpa using hempty
  -- the first letter is the one at which the first `strip` stopped
  have hfirst : (c :: rest) <+: cs.dropWhile (· == '-') := hrest ▸ rdropWhile_prefix _ _
  obtain ⟨more, hmore⟩ := hfirst
  have hall : ∀ d ∈ c :: (rest ++ more), d ∈ '-' :: slugLetters := by
    intro d hd
    refine hletters d ((dropWhile_sublist (· == '-')).mem ?_)
    rw [← hmore]
    exact hd
  have hne : c ≠ '-' := by
    intro hc
    have hstop := head_dropWhile_not (· == '-') (l := cs) (by rw [← hmore]; simp)
    simp [← hmore, hc] at hstop
  refine ⟨c, rest, hrest, ?_, ?_⟩
  · exact (mem_cons.1 (hall c mem_cons_self)).resolve_left hne
  · intro d hd
    exact hall d (mem_cons_of_mem c (mem_append_left more hd))

theorem digit_mem_slugLetters {c : Char} (h : c.isDigit = true) : c ∈ slugLetters := by
  apply mem_append_right
  simp only [Char.isDigit, Bool.and_eq_true, decide_eq_true_eq] at h
  have hlow : 48 ≤ c.toNat := h.1
  have hhigh : c.toNat ≤ 57 := h.2
  unfold digits charRange
  rw [mem_map]
  refine ⟨c.toNat, ?_, Char.ofNat_toNat c⟩
  rw [mem_range'_1]
  have h0 : '0'.toNat = 48 := rfl
  have h9 : '9'.toNat = 57 := rfl
  omega

/-- The digits of a number are letters of a slug. -/
theorem toString_letters (n : ℕ) : ∀ d ∈ (toString n).toList, d ∈ slugLetters := by
  intro d hd
  rw [Nat.toString_eq_ofList_toDigits, String.toList_ofList] at hd
  exact digit_mem_slugLetters (Nat.isDigit_of_mem_toDigits (by norm_num) (by norm_num) hd)

theorem candidate_text {base : String} (h : SlugText base.toList) (n : ℕ) : SlugText (candidate base n).toList := by
  obtain ⟨c, cs, hbase, hc, hcs⟩ := h
  cases n with
  | zero => exact ⟨c, cs, hbase, hc, hcs⟩
  | succ n =>
    refine ⟨c, cs ++ '-' :: (toString (n + 2)).toList, ?_, hc, fun d hd => ?_⟩
    · simp [candidate, hbase]
    · rcases mem_append.1 hd with hd | hd
      · exact hcs d hd
      rcases mem_cons.1 hd with rfl | hd
      · exact mem_cons_self
      · exact mem_cons_of_mem _ (toString_letters (n + 2) d hd)

theorem escapes_slug {slug : String} (h : SlugText slug.toList) : Nginx.escapes (slug ++ ".conf") = false := by
  obtain ⟨c, cs, hslug, hc, hcs⟩ := h
  have hslash : ∀ d ∈ '-' :: slugLetters, d ≠ '/' := forall_mem_of_all (by decide +kernel)
  have hdot : ∀ d ∈ slugLetters, d ≠ '.' := forall_mem_of_all (by decide +kernel)
  have hlist : (slug ++ ".conf").toList = c :: (cs ++ ['.', 'c', 'o', 'n', 'f']) := by
    rw [String.toList_append, hslug]
    rfl
  have hne : ∀ t : String, t.toList.head? = some '.' → slug ++ ".conf" ≠ t := by
    intro t ht heq
    rw [← heq, hlist, List.head?_cons] at ht
    exact hdot c hc (Option.some.inj ht)
  unfold Nginx.escapes
  rw [Bool.or_eq_false_iff, Bool.or_eq_false_iff, beq_eq_false_iff_ne, beq_eq_false_iff_ne]
  refine ⟨⟨?_, hne "." (by decide)⟩, hne ".." (by decide)⟩
  rw [hlist, contains_eq_mem, decide_eq_false_iff_not]
  intro hmem
  simp only [mem_cons, mem_append] at hmem
  rcases hmem with rfl | hmem | hmem
  · exact hslash _ (mem_cons_of_mem _ hc) rfl
  · exact hslash _ (hcs _ hmem) rfl
  · simp at hmem

theorem slugField_of_text {slug : String} (h : SlugText slug.toList) (hlen : slug.length ≤ 63) :
    slugField slug = true := by
  have hescapes := escapes_slug h
  obtain ⟨c, cs, hslug, hc, hcs⟩ := h
  have hlength : slug.length = cs.length + 1 := by rw [← String.length_toList, hslug, length_cons]
  have hmatch : patternMatches slugRe slug = true := by
    rw [patternMatches_iff, hslug]
    exact mem_oneOf_mul.2 ⟨c, hc, cs, mem_upTo_oneOf.2 ⟨by omega, hcs⟩, rfl⟩
  have hlong : cs.length < 63 := by omega
  simp [slugField, Nginx.managedPath, reMatch_of_pattern hmatch, hescapes, hlength, hlong]

/-! ## `_unique_slug` -/

theorem toString_injective : Function.Injective (toString : ℕ → String) := by
  intro n m h
  have hlist := congrArg String.toList h
  simp only [Nat.toString_eq_ofList_toDigits, String.toList_ofList] at hlist
  simpa using congrArg (fun cs => Nat.ofDigitChars 10 cs 0) hlist

theorem candidate_injective (base : String) : Function.Injective (candidate base) := by
  have hne : ∀ n, base ≠ candidate base (n + 1) := by
    intro n h
    have hlen := congrArg String.length h
    have hdash : "-".length = 1 := rfl
    simp only [candidate, String.length_append] at hlen
    omega
  intro n m h
  cases n with
  | zero =>
    cases m with
    | zero => rfl
    | succ m => exact absurd h (hne m)
  | succ n =>
    cases m with
    | zero => exact absurd h.symm (hne n)
    | succ m =>
      have hlist := congrArg String.toList h
      simp only [candidate, String.toList_append, append_assoc] at hlist
      have hdigits := append_cancel_left (append_cancel_left hlist)
      have hnumber := toString_injective (String.toList_injective hdigits)
      omega

theorem length_repr_mono {n m : ℕ} (h : n ≤ m) : n.repr.length ≤ m.repr.length := by
  apply (Nat.length_repr_le_iff Nat.length_repr_pos).2
  exact lt_of_le_of_lt h ((Nat.length_repr_le_iff Nat.length_repr_pos).1 le_rfl)

/-- Later candidates are no shorter. -/
theorem length_candidate_mono (base : String) {n m : ℕ} (h : n ≤ m) :
    (candidate base n).length ≤ (candidate base m).length := by
  cases m with
  | zero =>
    obtain rfl : n = 0 := by omega
    rfl
  | succ m =>
    cases n with
    | zero =>
      simp only [candidate, String.length_append]
      omega
    | succ n =>
      have hrepr : (toString (n + 2)).length ≤ (toString (m + 2)).length := length_repr_mono (by omega)
      simp only [candidate, String.length_append]
      omega

section Loop

variable {used : String → Bool} {base : String}

theorem uniqueSlugLoop_some {n fuel : ℕ} {slug : String}
    (h : uniqueSlugLoop used base fuel (candidate base n) (n + 2) = some slug) :
    ∃ m, slug = candidate base m ∧ used slug = false ∧ n ≤ m ∧ ∀ j, n ≤ j → j < m → used (candidate base j) = true := by
  induction fuel generalizing n with
  | zero => cases h
  | succ fuel ih =>
    unfold uniqueSlugLoop at h
    split_ifs at h with hused
    · obtain ⟨m, hslug, hfree, hle, hbefore⟩ := ih (n := n + 1) h
      refine ⟨m, hslug, hfree, by omega, fun j hj hjm => ?_⟩
      by_cases hjn : j = n
      · rw [hjn]
        exact hused
      · exact hbefore j (by omega) hjm
    · cases h
      exact ⟨n, rfl, by simpa using hused, le_rfl, fun j hj hjn => by omega⟩

theorem uniqueSlugLoop_none {n fuel : ℕ} (h : uniqueSlugLoop used base fuel (candidate base n) (n + 2) = none) :
    ∀ j, n ≤ j → j < n + fuel → used (candidate base j) = true := by
  induction fuel generalizing n with
  | zero => intro j hj hjn; omega
  | succ fuel ih =>
    unfold uniqueSlugLoop at h
    split_ifs at h with hused
    intro j hj hjn
    by_cases hj' : j = n
    · rw [hj']
      exact hused
    · exact ih (n := n + 1) h j (by omega) (by omega)

end Loop

theorem taken_iff {t : Table String} {but : Option ℕ} {value : String} :
    Store.taken t but value = true ↔ ∃ k, t.row k = some value ∧ some k ≠ but := by
  simp only [Store.taken, any_eq_true, mem_select, beq_iff_eq, bne_iff_ne]
  constructor
  · rintro ⟨k, ⟨v, hv, rfl⟩, hk⟩
    exact ⟨k, hv, hk⟩
  · rintro ⟨k, hv, hk⟩
    exact ⟨k, ⟨value, hv, rfl⟩, hk⟩

/-- `_unique_slug` returns: the first candidate that no application has. -/
theorem uniqueSlug_spec (s : Store) (base : String) :
    ∃ n, s.uniqueSlug base = some (candidate base n) ∧ Store.taken s.slugs none (candidate base n) = false ∧
      ∀ j, j < n → Store.taken s.slugs none (candidate base j) = true := by
  rcases h : s.uniqueSlug base with _ | slug
  · -- otherwise more candidates than rows would be taken
    have hall := uniqueSlugLoop_none (n := 0) h
    have hrow : ∀ j : Fin (s.slugs.next + 1), ∃ k : Fin s.slugs.next, s.slugs.row k = some (candidate base j) := by
      intro j
      obtain ⟨k, hk, -⟩ := taken_iff.1 (hall j (Nat.zero_le _) (by omega))
      exact ⟨⟨k, lt_of_row hk⟩, hk⟩
    choose f hf using hrow
    obtain ⟨j, j', hne, heq⟩ := Fintype.exists_ne_map_eq_of_card_lt f (by simp)
    have hsame := hf j
    rw [heq, hf j', Option.some.injEq] at hsame
    exact absurd (Fin.ext (candidate_injective base hsame)) (Ne.symm hne)
  · obtain ⟨n, rfl, hfree, -, hbefore⟩ := uniqueSlugLoop_some (n := 0) h
    exact ⟨n, rfl, hfree, fun j hj => hbefore j (Nat.zero_le _) hj⟩

/-! ## The payload -/

theorem mapM_isSome {α β : Type} (f : α → Option β) (l : List α) :
    (l.mapM f).isSome = true ↔ ∀ a ∈ l, (f a).isSome = true := by
  induction l with
  | nil => simp
  | cons a l ih =>
    rw [mapM_cons, forall_mem_cons, ← ih]
    cases f a with
    | none => simp
    | some b => cases l.mapM f <;> simp

theorem accepted_iff (p : ReloadPayload) : p.accepted = true ↔
    slugField p.appSlug = true ∧ (∀ d ∈ p.domains, d.validate.isSome = true) ∧
      ∀ u ∈ p.upstreams, u.validate.isSome = true := by
  rw [← mapM_isSome, ← mapM_isSome]
  simp only [ReloadPayload.accepted, ReloadPayload.validate, slugField, Bool.and_eq_true, decide_eq_true_eq]
  rcases p.domains.mapM DomainConfig.validate with _ | ds
  · simp
  rcases p.upstreams.mapM Upstream.validate with _ | us
  · simp
  by_cases hlen : 1 ≤ p.appSlug.length ∧ p.appSlug.length ≤ 63
  · simp [hlen]
  · simp [hlen]

theorem validate_domain_isSome {d : DomainConfig} {cert key : String} (hcert : d.certPath = some cert)
    (hkey : d.keyPath = some key) : d.validate.isSome = true ↔
      Nginx.hostnameField d.hostname = true ∧ Nginx.pathField cert = true ∧ Nginx.pathField key = true := by
  unfold DomainConfig.validate
  rw [hcert, hkey]
  dsimp only
  split_ifs with h
  · exact iff_of_true rfl h
  · exact iff_of_false (by simp) h

theorem validate_upstream_isSome (u : Upstream) : u.validate.isSome = true ↔
    Nginx.hostField u.host = true ∧ 1 ≤ u.port ∧ u.port ≤ 65535 := by
  unfold Upstream.validate
  split_ifs with h
  · exact iff_of_true rfl h
  · exact iff_of_false (by simp) h

variable {a : ℕ}

theorem mem_domainsOf {s : Store} {d : DomainConfig} : d ∈ s.domainsOf a ↔
    ∃ k row, s.domains.row k = some row ∧ row.applicationId = a ∧ d = ⟨row.hostname, row.certPath, row.keyPath⟩ := by
  simp only [Store.domainsOf, mem_filterMap, mem_select, Option.map_eq_some_iff, beq_iff_eq]
  constructor
  · rintro ⟨k, ⟨row, hrow, ha⟩, row', hrow', rfl⟩
    rw [hrow, Option.some.injEq] at hrow'
    exact ⟨k, row, hrow, ha, by rw [hrow']⟩
  · rintro ⟨k, row, hrow, ha, rfl⟩
    exact ⟨k, ⟨row, hrow, ha⟩, row, hrow, rfl⟩

/-- The payload of the whole system's model is the one of these rows. -/
theorem reloadPayload_eq {db : Db} {s : Store} (hdomains : db.domains = s.domainsOf a)
    (hservers : ∀ k, (db.servers k).map Server.hostname = s.servers.row k) :
    db.reloadPayload = s.payload a db.application.slug (db.routable.filterMap fun i =>
      (db.instances.row i).map fun inst => ⟨i, inst.serverId, inst.port⟩) := by
  unfold Db.reloadPayload Store.payload
  rw [hdomains, filterMap_filterMap]
  congr 1
  apply filterMap_congr
  intro i _
  unfold Db.upstream
  cases db.instances.row i with
  | none => rfl
  | some inst =>
    rw [Option.map_some, Option.bind_some, ← hservers]
    rcases hserver : db.servers inst.serverId with _ | server <;> simp [hserver]

/-! ## What a write has done -/

section Writes

variable {s s' : Store} {dom : Option DomainSection}

/-- The rows of `s'` are those of `s`, but for one whose domain is that of the section. -/
theorem syncDomain_ok (h : s.syncDomain a dom = .ok s') :
    s'.slugs = s.slugs ∧ s'.servers = s.servers ∧
      ∀ k row, s'.domains.row k = some row → s.domains.row k = some row ∨
        ∃ d, dom = some d ∧ row = ⟨a, d.hostname, d.certPath, d.keyPath⟩ := by
  cases dom with
  | none =>
    cases h
    exact ⟨rfl, rfl, fun k row hrow => .inl hrow⟩
  | some d =>
    unfold Store.syncDomain at h
    rcases hfirst : s.domains.first fun row => row.applicationId == a with _ | ⟨k, old⟩
    · simp only [hfirst] at h
      split_ifs at h
      cases h
      refine ⟨rfl, rfl, fun k row hrow => ?_⟩
      rcases insert_row_cases hrow with ⟨-, rfl⟩ | hrow
      · exact .inr ⟨d, rfl, rfl⟩
      · exact .inl hrow
    · simp only [hfirst] at h
      split_ifs at h
      cases h
      obtain ⟨hold, ha⟩ := row_of_first hfirst
      rw [beq_iff_eq] at ha
      refine ⟨rfl, rfl, fun j row hrow => ?_⟩
      rcases modify_row_cases hrow with ⟨old', -, hold', rfl⟩ | hrow
      · rw [hold, Option.some.injEq] at hold'
        rw [← hold', ha]
        exact .inr ⟨d, rfl, rfl⟩
      · exact .inl hrow

theorem createApplication_ok {lower : String → String} {name : String}
    (h : s.createApplication lower name dom = .ok s') :
    ∃ n, Store.taken s.slugs none (candidate (slugify lower name) n) = false ∧
      (∀ j, j < n → Store.taken s.slugs none (candidate (slugify lower name) j) = true) ∧
      Store.syncDomain { s with slugs := s.slugs.insert (candidate (slugify lower name) n) } s.slugs.next dom =
        .ok s' := by
  obtain ⟨n, hslug, hfree, hbefore⟩ := uniqueSlug_spec s (slugify lower name)
  unfold Store.createApplication at h
  simp only [hslug] at h
  split_ifs at h
  exact ⟨n, hfree, hbefore, h⟩

theorem updateApplication_ok (h : s.updateApplication a dom = .ok s') :
    (s.slugs.row a).isSome = true ∧ s.syncDomain a dom = .ok s' := by
  unfold Store.updateApplication at h
  rcases hrow : s.slugs.row a with _ | slug
  · simp [hrow] at h
  · simp only [hrow] at h
    exact ⟨rfl, h⟩

theorem createServer_ok {hostname : String} (h : s.createServer hostname = .ok s') :
    (1 ≤ hostname.length ∧ hostname.length ≤ 255) ∧ s' = { s with servers := s.servers.insert hostname } := by
  unfold Store.createServer at h
  split_ifs at h with hlen
  cases h
  rw [Bool.not_eq_true, Bool.not_eq_false', Bool.and_eq_true, decide_eq_true_eq, decide_eq_true_eq] at hlen
  exact ⟨hlen, rfl⟩

variable {change : Change} {validator : String → Except String String}

theorem editText_ok {key old value : String} {P : String → Prop}
    (hP : ∀ v v', validator v = .ok v' → v' = v ∧ P v)
    (h : editText key validator old change = .ok value) :
    value = change.on old ∧ ∀ v, change = .text v → P v ∧ v.length ≤ 255 := by
  cases change with
  | kept =>
    cases h
    exact ⟨rfl, fun v hv => by cases hv⟩
  | null => cases h
  | text v =>
    rcases hv : validator v with e | v'
    · simp [editText, hv] at h
    · obtain ⟨rfl, hval⟩ := hP v v' hv
      simp only [editText, hv] at h
      split_ifs at h with hlen
      cases h
      refine ⟨rfl, fun w hw => ?_⟩
      cases hw
      exact ⟨hval, of_decide_eq_true hlen⟩

theorem editOptionalText_ok {key : String} {old value : Option String}
    {P : String → Prop} (hP : ∀ v v', validator v = .ok v' → v' = v ∧ (v ≠ "" → P v))
    (h : editOptionalText key validator old change = .ok value) :
    value = change.onOptional old ∧ ∀ v, change = .text v → v ≠ "" → P v := by
  cases change with
  | kept =>
    cases h
    exact ⟨rfl, fun v hv => by cases hv⟩
  | null =>
    cases h
    exact ⟨rfl, fun v hv => by cases hv⟩
  | text v =>
    simp only [editOptionalText] at h
    split_ifs at h with hempty
    · cases h
      refine ⟨by simp [Change.onOptional, hempty], fun w hw hne => ?_⟩
      cases hw
      exact absurd (by simpa using hempty) hne
    · rcases hv : validator v with e | v'
      · simp [hv] at h
      · obtain ⟨rfl, hval⟩ := hP v v' hv
        simp only [hv] at h
        cases h
        refine ⟨by simp [Change.onOptional, hempty], fun w hw hne => ?_⟩
        cases hw
        exact hval hne

theorem validateHostname_ok (v v' : String) (h : validateHostname v = .ok v') :
    v' = v ∧ reMatch hostnameRe v = true := by
  unfold validateHostname at h
  split_ifs at h with hmatch
  cases h
  exact ⟨rfl, hmatch⟩

theorem validateOptionalUnixPath_ok (v v' : String) (h : validateOptionalUnixPath v = .ok v') :
    v' = v ∧ (v ≠ "" → reMatch unixPathRe v = true ∧ hasTraversal v = false) := by
  unfold validateOptionalUnixPath at h
  split_ifs at h with hempty hmatch htrav
  · cases h
    exact ⟨rfl, fun hne => absurd (by simpa using hempty) hne⟩
  · cases h
    exact ⟨rfl, fun _ => ⟨by simpa using hmatch, by simpa using htrav⟩⟩

/-- A column edit, then a check for duplicates. -/
theorem bind_ok {α β : Type} {m : Except Refusal α} {f : α → Except Refusal β} {b : β} (h : (m >>= f) = .ok b) :
    ∃ a, m = .ok a ∧ f a = .ok b := by
  cases m with
  | error e => cases h
  | ok a => exact ⟨a, rfl, h⟩

theorem editSlug_ok (h : s.editSlug a change = .ok s') :
    ∃ old, s.slugs.row a = some old ∧ s' = { s with slugs := s.slugs.modify a fun _ => change.on old } := by
  unfold Store.editSlug at h
  rcases hrow : s.slugs.row a with _ | old
  · simp [hrow] at h
  · simp only [hrow] at h
    obtain ⟨slug, hslug, h⟩ := bind_ok h
    split_ifs at h
    cases h
    obtain ⟨rfl, -⟩ := editText_ok (P := fun _ => True) (fun v v' hv => ⟨by cases hv; rfl, trivial⟩) hslug
    exact ⟨old, rfl, rfl⟩

theorem editServer_ok {k : ℕ} (h : s.editServer k change = .ok s') :
    ∃ old, s.servers.row k = some old ∧ s' = { s with servers := s.servers.modify k fun _ => change.on old } ∧
      ∀ v, change = .text v → reMatch hostnameRe v = true ∧ v.length ≤ 255 := by
  unfold Store.editServer at h
  rcases hrow : s.servers.row k with _ | old
  · simp [hrow] at h
  · simp only [hrow] at h
    obtain ⟨hostname, hhost, h⟩ := bind_ok h
    split_ifs at h
    cases h
    obtain ⟨rfl, hval⟩ := editText_ok validateHostname_ok hhost
    exact ⟨old, rfl, rfl, hval⟩

/-- The row after an edit of a domain. -/
def DomainEdit.on (e : DomainEdit) (old : DomainRow) : DomainRow :=
  ⟨e.applicationId.getD old.applicationId, e.hostname.on old.hostname, e.certPath.onOptional old.certPath,
    e.keyPath.onOptional old.keyPath⟩

theorem editDomain_ok {k : ℕ} {e : DomainEdit} (h : s.editDomain k e = .ok s') :
    ∃ old, s.domains.row k = some old ∧ s' = { s with domains := s.domains.modify k fun _ => e.on old } ∧
      (s.slugs.row (e.on old).applicationId).isSome = true ∧
      (∀ v, e.hostname = .text v → reMatch hostnameRe v = true ∧ v.length ≤ 255) ∧
      (∀ v, e.certPath = .text v → v ≠ "" → reMatch unixPathRe v = true ∧ hasTraversal v = false) ∧
      ∀ v, e.keyPath = .text v → v ≠ "" → reMatch unixPathRe v = true ∧ hasTraversal v = false := by
  unfold Store.editDomain at h
  rcases hrow : s.domains.row k with _ | old
  · simp [hrow] at h
  · simp only [hrow] at h
    obtain ⟨hostname, hhost, h⟩ := bind_ok h
    obtain ⟨certPath, hcert, h⟩ := bind_ok h
    obtain ⟨keyPath, hkey, h⟩ := bind_ok h
    split_ifs at h with howner
    cases h
    obtain ⟨rfl, hhost'⟩ := editText_ok validateHostname_ok hhost
    obtain ⟨rfl, hcert'⟩ := editOptionalText_ok validateOptionalUnixPath_ok hcert
    obtain ⟨rfl, hkey'⟩ := editOptionalText_ok validateOptionalUnixPath_ok hkey
    rw [Option.isNone_iff_eq_none, ← ne_eq, ← Option.isSome_iff_ne_none] at howner
    exact ⟨old, rfl, rfl, howner, hhost', hcert', hkey'⟩

end Writes

end Healer
