import Healer.Sanity.Patterns
import Healer.Spec.NginxManager

/-! What nginx reads in a rendered configuration. Every value that the request schema lets through is
made of letters that stand in one word, and so is the slug unless it ends in a newline, which
`_SLUG_RE` allows. -/

namespace Healer.Nginx

open List

open RegularExpression (Over)
open Lexis (Token Reads)

/-- How nginx splits its configuration. -/
def lexis : Lexis Char where
  blank c := c == ' ' || c == '\t' || c == '\n' || c == '\r'
  mark c := c == ';' || c == '\x7b' || c == '\x7d'
  comment := '#'
  newline := '\n'

def word (s : String) : Token Char := .word s.toList

def semicolon : Token Char := .mark ';'

def opening : Token Char := .mark '\x7b'

def closing : Token Char := .mark '\x7d'

/-! The tokens of the template, line by line as in `confTemplate`. -/

def upstreamTokens (u : UpstreamTarget) : List (Token Char) :=
  [word "server", word (u.host ++ ":" ++ toString u.port), semicolon]

def domainTokens (name : String) (d : DomainSpec) : List (List (Token Char)) :=
  [[word "server", opening],
    [word "listen", word "80", semicolon],
    [word "server_name", word d.hostname, semicolon],
    [word "return", word "301", word "https://$host$request_uri", semicolon],
    [closing],
    [],
    [word "server", opening],
    [word "listen", word "443", word "ssl", semicolon],
    [word "server_name", word d.hostname, semicolon],
    [],
    [word "ssl_certificate", word d.certPath, semicolon],
    [word "ssl_certificate_key", word d.keyPath, semicolon],
    [],
    [word "location", word "/", opening],
    [word "proxy_pass", word ("http://" ++ name), semicolon],
    [word "proxy_http_version", word "1.1", semicolon],
    [word "proxy_set_header", word "Connection", word "\"\"", semicolon],
    [word "proxy_set_header", word "Host", word "$host", semicolon],
    [word "proxy_set_header", word "X-Real-IP", word "$remote_addr", semicolon],
    [word "proxy_set_header", word "X-Forwarded-For", word "$proxy_add_x_forwarded_for", semicolon],
    [word "proxy_set_header", word "X-Forwarded-Proto", word "$scheme", semicolon],
    [closing],
    [closing]]

/-- The token sequence of the template with the values of a request in it. -/
def templateTokens (r : ReloadRequest) : List (Token Char) :=
  ([[word "upstream", word (upstreamName r.appSlug), opening],
      [word "least_conn", semicolon]] ++
    r.upstreams.map upstreamTokens ++
    [[word "keepalive", word "32", semicolon],
      [closing],
      []] ++
    r.domains.flatMap (domainTokens (upstreamName r.appSlug))).flatten

def confTokens (text : String) : List (Token Char) := lexis.tokens text.toList

/-- The token that names the upstream block. -/
def nameToken (text : String) : Option (Token Char) := (confTokens text)[1]?

/-! ## Values -/

def PlainText (s : String) : Prop := s.toList ≠ [] ∧ ∀ c ∈ s.toList, lexis.Plain c

theorem alphanumeric_plain : ∀ c ∈ alphanumeric, lexis.Plain c := forall_mem_of_all (by decide +kernel)

theorem hostnameRe_plain : hostnameRe.Over lexis.Plain :=
  hostnameRe_over alphanumeric_plain (by decide) (by decide)

theorem unixPathRe_plain : unixPathRe.Over lexis.Plain :=
  unixPathRe_over alphanumeric_plain (forall_mem_of_all (by decide))

theorem hostRe_plain : hostRe.Over lexis.Plain := hostRe_over alphanumeric_plain (forall_mem_of_all (by decide))

variable {s : String} {slug path : String}

theorem toList_ne_nil (h : 1 ≤ s.length) : s.toList ≠ [] := by
  intro hs
  rw [← String.length_toList, hs] at h
  simp at h

theorem plainText_of_pattern {P : RegularExpression Char} (hP : P.Over lexis.Plain)
    (hlen : 1 ≤ s.length) (h : patternMatches P s = true) : PlainText s :=
  ⟨toList_ne_nil hlen, hP.of_mem ((RegularExpression.rmatch_iff_matches' P _).1 h)⟩

theorem hostnameField_plain (h : hostnameField s = true) : PlainText s := by
  simp only [hostnameField, Bool.and_eq_true, decide_eq_true_eq] at h
  exact plainText_of_pattern hostnameRe_plain h.1.1 h.2

theorem pathField_plain (h : pathField s = true) : PlainText s := by
  simp only [pathField, Bool.and_eq_true, decide_eq_true_eq] at h
  exact plainText_of_pattern unixPathRe_plain h.1.1.1 h.1.2

/-- A letter that is none of the seven special ones can stand in a word. -/
theorem plain_of_ne {c : Char} (h : ∀ d ∈ " \t\n\r;\x7b\x7d#".toList, c ≠ d) : lexis.Plain c := by
  simp only [Lexis.Plain, lexis, Bool.or_eq_false_iff, beq_eq_false_iff_ne]
  exact ⟨⟨⟨⟨h _ (by decide +kernel), h _ (by decide +kernel)⟩, h _ (by decide +kernel)⟩,
    h _ (by decide +kernel)⟩, ⟨⟨h _ (by decide +kernel), h _ (by decide +kernel)⟩,
    h _ (by decide +kernel)⟩, h _ (by decide +kernel)⟩

theorem toString_plain (n : ℕ) : ∀ c ∈ (toString n).toList, lexis.Plain c := by
  intro c hc
  rw [Nat.toString_eq_ofList_toDigits, String.toList_ofList] at hc
  have hdigit : c.isDigit = true := Nat.isDigit_of_mem_toDigits (by norm_num) (by norm_num) hc
  have hspecial : ∀ d ∈ " \t\n\r;\x7b\x7d#".toList, d.isDigit = false :=
    forall_mem_of_all (by decide +kernel)
  refine plain_of_ne fun d hd hcd => ?_
  rw [hcd, hspecial d hd] at hdigit
  cases hdigit

theorem upstream_plain (u : UpstreamTarget) :
    PlainText (u.host ++ ":" ++ toString u.port) := by
  have h := u.host_ok
  simp only [hostField, Bool.and_eq_true, decide_eq_true_eq] at h
  obtain ⟨hne, hhost⟩ := plainText_of_pattern hostRe_plain h.1.1 h.2
  refine ⟨by simp [hne], fun c hc => ?_⟩
  rw [String.toList_append, String.toList_append, mem_append, mem_append] at hc
  rcases hc with (hc | hc) | hc
  · exact hhost c hc
  · have hcolon : ∀ c ∈ ":".toList, lexis.Plain c := forall_mem_of_all (by decide +kernel)
    exact hcolon c hc
  · exact toString_plain u.port c hc

/-! ## Slugs -/

theorem slugRe_mem {s : List Char} (h : s ∈ slugRe.matches') :
    s ≠ [] ∧ ∀ c ∈ s, c ∈ '-' :: slugLetters := by
  obtain ⟨c, hc, z, hz, rfl⟩ := RegularExpression.mem_oneOf_mul.1 h
  refine ⟨by simp, forall_mem_cons.2 ⟨mem_cons_of_mem _ hc, ?_⟩⟩
  exact (RegularExpression.mem_upTo_oneOf.1 hz).2

/-- A slug that passes is of the slug's form, up to a newline at the end. -/
theorem managedPath_cases (h : managedPath slug = some path) :
    path = slug ++ ".conf" ∧ (slug.toList ∈ slugRe.matches' ∨
      ∃ s ∈ slugRe.matches', slug.toList = s ++ ['\n']) := by
  unfold managedPath at h
  split_ifs at h with hmatch hescapes
  refine ⟨(Option.some.inj h).symm, ?_⟩
  simp only [Bool.not_eq_true', Bool.not_eq_false, reMatch, Bool.or_eq_true, Bool.and_eq_true,
    RegularExpression.rmatch_iff_matches', endsInNewline, beq_iff_eq] at hmatch
  rcases hmatch with hmatch | ⟨hlast, hmatch⟩
  · exact Or.inl hmatch
  · exact Or.inr ⟨_, hmatch, (dropLast_append_getLast? _ hlast).symm⟩

theorem slug_mem (h : managedPath slug = some path)
    (hend : endsInNewline slug = false) : slug.toList ∈ slugRe.matches' := by
  rcases (managedPath_cases h).2 with hs | ⟨s, -, hslug⟩
  · exact hs
  · rw [endsInNewline, hslug, List.getLast?_concat] at hend
    cases hend

/-- `replace('-', '_')` on one letter. -/
def dashToUnderscore (c : Char) : Char := if c = '-' then '_' else c

theorem upstreamName_toList (slug : String) :
    (upstreamName slug).toList = "healer_".toList ++ slug.toList.map dashToUnderscore := by
  simp only [upstreamName, String.toList_append, String.toList_ofList]
  rfl

theorem upstreamName_plain (h : managedPath slug = some path)
    (hend : endsInNewline slug = false) : PlainText (upstreamName slug) := by
  have hclass : ∀ c ∈ '-' :: slugLetters, lexis.Plain (dashToUnderscore c) :=
    forall_mem_of_all (by decide +kernel)
  have hhead : ∀ c ∈ "healer_".toList, lexis.Plain c := forall_mem_of_all (by decide +kernel)
  rw [PlainText, upstreamName_toList]
  refine ⟨by simp, fun c hc => ?_⟩
  rcases mem_append.1 hc with hc | hc
  · exact hhead c hc
  · obtain ⟨d, hd, rfl⟩ := mem_map.1 hc
    exact hclass d ((slugRe_mem (slug_mem h hend)).2 d hd)

/-- No slug has an underscore, so the dashes can be put back. -/
theorem slug_of_upstreamName (h : managedPath slug = some path)
    (hend : endsInNewline slug = false) :
    (slug.toList.map dashToUnderscore).map (fun c => if c = '_' then '-' else c) = slug.toList := by
  have hback : ∀ c ∈ '-' :: slugLetters,
      (if dashToUnderscore c = '_' then '-' else dashToUnderscore c) = c := forall_mem_of_all (by decide +kernel)
  have hletters := (slugRe_mem (slug_mem h hend)).2
  rw [map_map]
  exact (map_congr_left fun c hc => hback c (hletters c hc)).trans (map_id _)

theorem upstreamName_inj {slug slug' path path' : String} (h : managedPath slug = some path)
    (h' : managedPath slug' = some path') (hend : endsInNewline slug = false)
    (hend' : endsInNewline slug' = false) (heq : upstreamName slug = upstreamName slug') :
    slug = slug' := by
  have hlists := congrArg String.toList heq
  rw [upstreamName_toList, upstreamName_toList, append_right_inj] at hlists
  rw [← String.toList_inj, ← slug_of_upstreamName h hend, hlists, slug_of_upstreamName h' hend']

/-! ## Rendered texts -/

/-- A line of the template reads as its tokens. -/
def LineReads (line : String) (ts : List (Token Char)) : Prop := lexis.Reads line.toList ts

/-- A line with a value in it, up to the semicolon. -/
theorem lineReads_field {before value v : String} {t : Token Char}
    (hbefore : lexis.scan (some []) before.toList = ([t], some v.toList)) (hvalue : PlainText value) :
    LineReads (before ++ value ++ ";" ++ "\n") [t, word (v ++ value), semicolon] := by
  have hnewline : lexis.Reads "\n".toList [] := by
    simp only [Lexis.Reads, String.reduceToList]
    rfl
  have hfield : lexis.Reads (before.toList ++ value.toList ++ [';'])
      [t, .word (v.toList ++ value.toList), semicolon] :=
    Reads.mark hbefore hvalue.2 (by simp [hvalue.1]) rfl rfl
  have h := hfield.append hnewline
  rw [LineReads, word, String.toList_append, String.toList_append, String.toList_append,
    String.toList_append, show ";".toList = [';'] by simp]
  rw [append_nil] at h
  exact h

theorem scan_server : lexis.scan (some []) "    server ".toList = ([word "server"], some "".toList) := by
  simp only [word, String.reduceToList]
  rfl

theorem scan_serverName :
    lexis.scan (some []) "    server_name ".toList = ([word "server_name"], some "".toList) := by
  simp only [word, String.reduceToList]
  rfl

theorem scan_cert : lexis.scan (some []) "    ssl_certificate     ".toList =
    ([word "ssl_certificate"], some "".toList) := by
  simp only [word, String.reduceToList]
  rfl

theorem scan_key : lexis.scan (some []) "    ssl_certificate_key ".toList =
    ([word "ssl_certificate_key"], some "".toList) := by
  simp only [word, String.reduceToList]
  rfl

theorem scan_proxy : lexis.scan (some []) "        proxy_pass http://".toList =
    ([word "proxy_pass"], some "http://".toList) := by
  simp only [word, String.reduceToList]
  rfl

theorem lineReads_upstream (u : UpstreamTarget) : LineReads (upstreamLine u) (upstreamTokens u) := by
  have h := lineReads_field scan_server (upstream_plain u)
  rw [String.empty_append] at h
  exact h

set_option maxRecDepth 1024 in
theorem linesRead_domain {name : String} (hname : PlainText name) (d : DomainSpec) :
    List.Forall₂ LineReads (domainLines name d) (domainTokens name d) := by
  have hhostname := lineReads_field scan_serverName (hostnameField_plain d.hostname_ok)
  have hcert := lineReads_field scan_cert (pathField_plain d.certPath_ok)
  have hkey := lineReads_field scan_key (pathField_plain d.keyPath_ok)
  have hproxy := lineReads_field scan_proxy hname
  rw [String.empty_append] at hhostname hcert hkey
  unfold domainLines domainTokens
  repeat' apply List.Forall₂.cons
  -- the other lines are fixed texts
  all_goals first
    | exact List.Forall₂.nil
    | with_reducible exact hhostname
    | with_reducible exact hcert
    | with_reducible exact hkey
    | with_reducible exact hproxy
    | simp only [LineReads, Lexis.Reads, word, String.reduceToList]; rfl

theorem lineReads_name {name : String} (hname : PlainText name) :
    LineReads ("upstream " ++ name ++ " " ++ "\x7b\n") [word "upstream", word name, opening] := by
  have hbefore : lexis.scan (some []) "upstream ".toList = ([word "upstream"], some []) := by
    simp only [word, String.reduceToList]
    rfl
  have hopening : lexis.Reads "\x7b\n".toList [opening] := by
    simp only [Lexis.Reads, String.reduceToList]
    rfl
  have hblank : lexis.Reads ("upstream ".toList ++ name.toList ++ [' '])
      [word "upstream", .word ([] ++ name.toList)] :=
    Reads.blank hbefore hname.2 (by simp [hname.1]) rfl
  have h := hblank.append hopening
  rw [LineReads, String.toList_append, String.toList_append, String.toList_append,
    show " ".toList = [' '] by simp]
  exact h

theorem linesRead_template {name : String} (hname : PlainText name) (domains : List DomainSpec)
    (upstreams : List UpstreamTarget) : List.Forall₂ LineReads (confTemplate name domains upstreams)
      ([[word "upstream", word name, opening], [word "least_conn", semicolon]] ++
        upstreams.map upstreamTokens ++
        [[word "keepalive", word "32", semicolon], [closing], []] ++
        domains.flatMap (domainTokens name)) := by
  have hconn : LineReads "    least_conn;\n" [word "least_conn", semicolon] := by
    simp only [LineReads, Lexis.Reads, word, String.reduceToList]
    rfl
  have hkeepalive : LineReads "    keepalive 32;\n" [word "keepalive", word "32", semicolon] := by
    simp only [LineReads, Lexis.Reads, word, String.reduceToList]
    rfl
  have hclosing : LineReads "\x7d\n" [closing] := by
    simp only [LineReads, Lexis.Reads, String.reduceToList]
    rfl
  have hempty : LineReads "\n" [] := by
    simp only [LineReads, Lexis.Reads, String.reduceToList]
    rfl
  have hupstreams : List.Forall₂ LineReads (upstreams.map upstreamLine) (upstreams.map upstreamTokens) := by
    induction upstreams with
    | nil => exact .nil
    | cons u us ih => exact .cons (lineReads_upstream u) ih
  have hdomains : List.Forall₂ LineReads (domains.flatMap (domainLines name))
      (domains.flatMap (domainTokens name)) := by
    induction domains with
    | nil => exact .nil
    | cons d ds ih => exact rel_append (linesRead_domain hname d) ih
  have hhead := List.Forall₂.cons (lineReads_name hname) (.cons hconn .nil)
  have hmiddle := List.Forall₂.cons hkeepalive (.cons hclosing (.cons hempty .nil))
  exact rel_append (rel_append (rel_append hhead hupstreams) hmiddle) hdomains

theorem confTokens_join {lines : List String} {tss : List (List (Token Char))}
    (h : List.Forall₂ LineReads lines tss) : confTokens (String.join lines) = tss.flatten := by
  have hlists : List.Forall₂ lexis.Reads (lines.map String.toList) tss :=
    forall₂_map_left_iff.2 h
  have hjoin : (String.join lines).toList = (lines.map String.toList).flatten := by
    rw [String.toList_join, flatMap_def]
  rw [confTokens, hjoin]
  exact (Reads.flatten hlists).tokens

variable {r : ReloadRequest}

/-- A slug without the newline puts one token wherever its value goes. -/
theorem confTokens_render {path text : String}
    (hpath : managedPath r.appSlug = some path) (hend : endsInNewline r.appSlug = false)
    (htext : render r = some text) : confTokens text = templateTokens r := by
  unfold render at htext
  split_ifs at htext
  cases htext
  exact confTokens_join (linesRead_template (upstreamName_plain hpath hend) r.domains r.upstreams)

/-- With the newline the name of the upstream block is no word. -/
theorem confTokens_ne (hend : endsInNewline r.appSlug = true) (text : String) :
    confTokens text ≠ templateTokens r := by
  intro h
  have hmem : word (upstreamName r.appSlug) ∈ confTokens text := by
    rw [h]
    simp [templateTokens]
  have hplain := Lexis.tokens_plain text.toList _ hmem
  have hnewline : '\n' ∈ (upstreamName r.appSlug).toList := by
    rw [upstreamName_toList]
    rw [endsInNewline, beq_iff_eq] at hend
    exact mem_append_right _ (mem_map.2 ⟨'\n', mem_of_getLast? hend, by decide⟩)
  exact absurd (hplain '\n' hnewline) (by decide)

theorem nameToken_template {text : String} (h : confTokens text = templateTokens r) :
    nameToken text = some (word (upstreamName r.appSlug)) := by
  rw [nameToken, h]
  rfl

/-- A newline at the end of the slug is a blank to nginx: the block gets the name it has without. -/
theorem nameToken_newline {text : String} {s : List Char} (hs : s ∈ slugRe.matches')
    (hslug : r.appSlug.toList = s ++ ['\n']) (htext : render r = some text) :
    nameToken text = some (.word ("healer_".toList ++ s.map dashToUnderscore)) := by
  have hplain : ∀ c ∈ "healer_".toList ++ s.map dashToUnderscore, lexis.Plain c := by
    have hclass : ∀ c ∈ '-' :: slugLetters, lexis.Plain (dashToUnderscore c) :=
    forall_mem_of_all (by decide +kernel)
    have hhead : ∀ c ∈ "healer_".toList, lexis.Plain c := forall_mem_of_all (by decide +kernel)
    refine forall_mem_append.2 ⟨hhead, fun c hc => ?_⟩
    obtain ⟨d, hd, rfl⟩ := mem_map.1 hc
    exact hclass d ((slugRe_mem hs).2 d hd)
  have hbefore : lexis.scan (some []) "upstream ".toList = ([word "upstream"], some []) := by
    simp only [word, String.reduceToList]
    rfl
  have hread : lexis.Reads ("upstream ".toList ++ ("healer_".toList ++ s.map dashToUnderscore) ++ ['\n'])
      [word "upstream", .word ([] ++ ("healer_".toList ++ s.map dashToUnderscore))] :=
    Reads.blank hbefore hplain (by simp) rfl
  have hname : (upstreamName r.appSlug).toList =
      "healer_".toList ++ s.map dashToUnderscore ++ ['\n'] := by
    rw [upstreamName_toList, hslug, map_append, append_assoc]
    rfl
  unfold render at htext
  split_ifs at htext
  cases htext
  rw [nameToken, confTokens, confTemplate, cons_append, cons_append, cons_append,
    String.join_cons, String.toList_append, String.toList_append, String.toList_append,
    String.toList_append, hname, ← append_assoc, append_assoc, append_assoc,
    hread.tokens_append]
  rfl

/-- Different slugs have different files. The rendered text is the template's token sequence, and the
names of the upstream blocks differ with the slugs, exactly when no slug ends in a newline. -/
theorem no_injection_iff {r r' : ReloadRequest} {path path' : String}
    (hpath : managedPath r.appSlug = some path) (hpath' : managedPath r'.appSlug = some path') :
    (r.appSlug ≠ r'.appSlug → path ≠ path') ∧
      ∀ text text', render r = some text → render r' = some text' →
        ((confTokens text = templateTokens r ∧ confTokens text' = templateTokens r' ∧
            (r.appSlug ≠ r'.appSlug → nameToken text ≠ nameToken text')) ↔
          endsInNewline r.appSlug = false ∧ endsInNewline r'.appSlug = false) := by
  refine ⟨fun hne heq => ?_, fun text text' htext htext' => ⟨?_, ?_⟩⟩
  · rw [(managedPath_cases hpath).1, (managedPath_cases hpath').1] at heq
    exact hne (String.append_left_inj ".conf" |>.1 heq)
  · rintro ⟨h, h', -⟩
    refine ⟨?_, ?_⟩
    · by_contra hend
      exact confTokens_ne (by simpa using hend) text h
    · by_contra hend
      exact confTokens_ne (by simpa using hend) text' h'
  · rintro ⟨hend, hend'⟩
    have h := confTokens_render hpath hend htext
    have h' := confTokens_render hpath' hend' htext'
    refine ⟨h, h', fun hne heq => hne (upstreamName_inj hpath hpath' hend hend' ?_)⟩
    rw [nameToken_template h, nameToken_template h', Option.some.injEq] at heq
    exact String.toList_inj.1 (Token.word.inj heq)

/-- A request with one domain and one upstream. -/
def sampleRequest (slug : String) (h : 1 ≤ slug.length ∧ slug.length ≤ 63) : ReloadRequest where
  appSlug := slug
  domains := [⟨"a.co", "/c", "/k", by decide +kernel, by decide +kernel, by decide +kernel⟩]
  upstreams := [⟨"h", 80, by decide +kernel, by decide⟩]
  slug_ok := h

def plainRequest : ReloadRequest := sampleRequest "a" (by decide)

def dashedRequest : ReloadRequest := sampleRequest "a-2" (by decide)

def newlineRequest : ReloadRequest := sampleRequest "a\n" (by decide)

theorem plainRequest_path : managedPath plainRequest.appSlug = some "a.conf" := by decide +kernel

theorem no_injection_iff_two_slugs :
    ∃ text text', render plainRequest = some text ∧ render dashedRequest = some text' ∧
      confTokens text = templateTokens plainRequest ∧
      confTokens text' = templateTokens dashedRequest ∧ nameToken text ≠ nameToken text' := by
  have hpath' : managedPath dashedRequest.appSlug = some "a-2.conf" := by decide +kernel
  have h := (no_injection_iff plainRequest_path hpath').2 _ _ rfl rfl
  obtain ⟨htokens, htokens', hnames⟩ := h.2 ⟨by decide +kernel, by decide +kernel⟩
  exact ⟨_, _, rfl, rfl, htokens, htokens', hnames (by decide)⟩

/-- The slugs `a` and `a` with a newline are both accepted, and name the same upstream block. -/
theorem newline_slug_shares_name :
    managedPath plainRequest.appSlug = some "a.conf" ∧
      managedPath newlineRequest.appSlug = some "a\n.conf" ∧
      ∃ text text', render plainRequest = some text ∧ render newlineRequest = some text' ∧
        confTokens text' ≠ templateTokens newlineRequest ∧ nameToken text = nameToken text' := by
  have hslug : newlineRequest.appSlug.toList = ['a'] ++ ['\n'] := by
    simp [newlineRequest, sampleRequest]
  refine ⟨plainRequest_path, by decide +kernel, _, _, rfl, rfl, confTokens_ne (by decide +kernel) _, ?_⟩
  rw [nameToken_template (confTokens_render plainRequest_path (by decide +kernel) rfl),
    nameToken_newline (by decide +kernel) hslug rfl]
  decide +kernel

end Healer.Nginx
