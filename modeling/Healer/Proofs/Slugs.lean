import Healer.Lib.Lines
import Healer.Sanity.Stored
import Healer.Spec.Deployment

/-! `_slugify` and `_unique_slug`: the slug of a new application is free, in words joined by single
dashes, and a service name tells the slug and the port it was made of. -/

namespace Healer

open List

open RegularExpression (oneOf atLeastOnce char star mem_mul mem_atLeastOnce_oneOf nil_mem_star
  append_mem_star star_append_mem)

/-- One more word: `-[a-z0-9]+` -/
def slugWord : RegularExpression Char := char '-' * atLeastOnce (oneOf slugLetters)

/-- The pattern `[a-z0-9]+(-[a-z0-9]+)*`. -/
def slugGrammar : RegularExpression Char := atLeastOnce (oneOf slugLetters) * star slugWord

section Grammar

variable {c : Char} {l w : List Char}

theorem word_mem (hne : w ≠ []) (hw : ∀ d ∈ w, d ∈ slugLetters) : '-' :: w ∈ slugWord.matches' :=
  mem_mul.2 ⟨['-'], rfl, w, mem_atLeastOnce_oneOf.2 ⟨hne, hw⟩, rfl⟩

/-- A letter in front of further words. -/
theorem letter_append_mem (hc : c ∈ slugLetters) (h : l ∈ (star slugWord).matches') :
    c :: l ∈ slugGrammar.matches' :=
  mem_mul.2 ⟨[c], mem_atLeastOnce_oneOf.2 ⟨by simp, by simpa using hc⟩, l, h, rfl⟩

/-- A letter in front of the first word. -/
theorem letter_cons_mem (hc : c ∈ slugLetters) (h : l ∈ slugGrammar.matches') :
    c :: l ∈ slugGrammar.matches' := by
  obtain ⟨w, hw, rest, hrest, rfl⟩ := mem_mul.1 h
  refine mem_mul.2 ⟨c :: w, mem_atLeastOnce_oneOf.2 ⟨by simp, ?_⟩, rest, hrest, rfl⟩
  exact forall_mem_cons.2 ⟨hc, (mem_atLeastOnce_oneOf.1 hw).2⟩

theorem dash_cons_mem (h : l ∈ slugGrammar.matches') : '-' :: l ∈ (star slugWord).matches' := by
  obtain ⟨w, hw, rest, hrest, rfl⟩ := mem_mul.1 h
  obtain ⟨hne, hletters⟩ := mem_atLeastOnce_oneOf.1 hw
  exact append_mem_star (word_mem hne hletters) hrest

theorem append_word_mem (h : l ∈ slugGrammar.matches') (hne : w ≠ []) (hw : ∀ d ∈ w, d ∈ slugLetters) :
    l ++ '-' :: w ∈ slugGrammar.matches' := by
  obtain ⟨w₀, hw₀, rest, hrest, rfl⟩ := mem_mul.1 h
  refine mem_mul.2 ⟨w₀, hw₀, rest ++ '-' :: w, star_append_mem hrest (word_mem hne hw), ?_⟩
  rw [append_assoc]

/-- Letters and dashes, no two dashes together and none at the end: a slug if the first is a letter,
and further words of one if it is a dash. -/
theorem mem_grammar (hl : ∀ d ∈ l, d ∈ '-' :: slugLetters) (hdouble : ¬ ['-', '-'] <:+: l)
    (hlast : l.getLast? ≠ some '-') :
    (∀ d, l.head? = some d → d ≠ '-' → l ∈ slugGrammar.matches') ∧
      (l.head? = some '-' → l ∈ (star slugWord).matches') := by
  induction l with
  | nil => simp
  | cons c l ih =>
    obtain ⟨hc, hrest⟩ := forall_mem_cons.1 hl
    cases l with
    | nil =>
      refine ⟨fun d hd hne => letter_append_mem ?_ nil_mem_star, fun hd => ?_⟩
      · obtain rfl : c = d := by simpa using hd
        exact (mem_cons.1 hc).resolve_left hne
      · exact absurd (by simpa using hd) hlast
    | cons b l =>
      have hnext := ih hrest (fun h => hdouble (infix_cons h)) (by simpa using hlast)
      refine ⟨fun d hd hne => ?_, fun hd => ?_⟩
      · obtain rfl : c = d := by simpa using hd
        have hletter := (mem_cons.1 hc).resolve_left hne
        by_cases hb : b = '-'
        · exact letter_append_mem hletter (hnext.2 (by rw [hb, List.head?_cons]))
        · exact letter_cons_mem hletter (hnext.1 b rfl hb)
      · obtain rfl : c = '-' := by simpa using hd
        refine dash_cons_mem (hnext.1 b rfl ?_)
        rintro rfl
        exact hdouble ⟨[], l, rfl⟩

end Grammar

/-! ## `_slugify` -/

theorem slugLetters_ne_dash : ∀ c ∈ slugLetters, c ≠ '-' := forall_mem_of_all (by decide +kernel)

theorem collapse_no_double (cs : List Char) : ∀ gap, ¬ ['-', '-'] <:+: collapse gap cs ∧
    (gap = true → (collapse gap cs).head? ≠ some '-') := by
  induction cs with
  | nil => intro gap; simp [collapse]
  | cons c cs ih =>
    intro gap
    unfold collapse
    split_ifs with hc hgap
    · have hne := slugLetters_ne_dash c (contains_iff_mem.1 hc)
      refine ⟨?_, fun _ => by simpa using hne⟩
      rw [infix_cons_iff, not_or]
      exact ⟨fun h => hne (cons_prefix_cons.1 h).1.symm, (ih false).1⟩
    · exact ⟨(ih true).1, fun _ => (ih true).2 rfl⟩
    · refine ⟨?_, fun h => absurd h hgap⟩
      rw [infix_cons_iff, not_or]
      refine ⟨fun h => (ih true).2 rfl ?_, (ih true).1⟩
      obtain ⟨rest, hrest⟩ := (cons_prefix_cons.1 h).2
      rw [← hrest]
      rfl

theorem slugify_grammar (lower : String → String) (name : String) :
    (slugify lower name).toList ∈ slugGrammar.matches' := by
  obtain ⟨c, rest, htext, hc, hrest⟩ := slugify_text lower name
  have hne : c ≠ '-' := slugLetters_ne_dash c hc
  -- either there was nothing left, or what is left is a part of the collapsed name with no dash at its end
  by_cases hempty : ((collapse false (lower name).toList).dropWhile (· == '-')).rdropWhile (· == '-') = []
  · simp only [slugify, hempty, isEmpty_nil, if_true]
    apply letter_cons_mem (by decide +kernel)
    apply letter_cons_mem (by decide +kernel)
    exact letter_append_mem (by decide +kernel) nil_mem_star
  have hslug : (slugify lower name).toList =
      ((collapse false (lower name).toList).dropWhile (· == '-')).rdropWhile (· == '-') := by
    simp only [slugify, List.isEmpty_iff, hempty, if_false, String.toList_ofList]
  have hpart : (slugify lower name).toList <:+: collapse false (lower name).toList := by
    rw [hslug]
    exact (List.rdropWhile_prefix _ _).isInfix.trans (dropWhile_suffix _).isInfix
  have hdouble : ¬ ['-', '-'] <:+: (slugify lower name).toList :=
    fun h => (collapse_no_double (lower name).toList false).1 (h.trans hpart)
  have hletters : ∀ d ∈ (slugify lower name).toList, d ∈ '-' :: slugLetters :=
    fun d hd => collapse_letters (lower name).toList false d (hpart.subset hd)
  have hlast : (slugify lower name).toList.getLast? ≠ some '-' := by
    rw [hslug, List.getLast?_eq_getLast_of_ne_nil hempty]
    intro h
    have hstop := rdropWhile_last_not (· == '-') _ hempty
    simp [Option.some.inj h] at hstop
  exact (mem_grammar hletters hdouble hlast).1 c (by rw [htext, List.head?_cons]) hne

/-! ## `_unique_slug` -/

theorem candidate_grammar {base : String} (h : base.toList ∈ slugGrammar.matches') (n : ℕ) :
    (candidate base n).toList ∈ slugGrammar.matches' := by
  cases n with
  | zero => exact h
  | succ n =>
    have htext : (candidate base (n + 1)).toList = base.toList ++ '-' :: (toString (n + 2)).toList := by
      simp [candidate]
    rw [htext]
    exact append_word_mem h (by simp) (toString_letters (n + 2))

/-- One round more than there are slugs in use finds a free one. -/
theorem uniqueSlugLoop_isSome (existing : Finset String) (base : String) :
    (uniqueSlugLoop (fun slug => decide (slug ∈ existing)) base (existing.card + 1) base 2).isSome = true := by
  by_contra hnone
  have hused := uniqueSlugLoop_none (n := 0) (Option.not_isSome_iff_eq_none.1 hnone)
  have hcard : (Finset.range (existing.card + 1)).card ≤ existing.card := by
    apply Finset.card_le_card_of_injOn (candidate base)
    · intro j hj
      have hlt := Finset.mem_range.1 hj
      simpa using hused j (Nat.zero_le j) (by omega)
    · exact (candidate_injective base).injOn
  rw [Finset.card_range] at hcard
  omega

/-! ## `_service_name` -/

/-- The last dash is the one before the port. -/
theorem serviceName_injective {slug slug' : String} {port port' : ℕ}
    (h : serviceName slug port = serviceName slug' port') : slug = slug' ∧ port = port' := by
  have hdigits : ∀ n : ℕ, '-' ∉ (toString n).toList.reverse := by
    intro n hmem
    exact slugLetters_ne_dash '-' (toString_letters n '-' (mem_reverse.1 hmem)) rfl
  have htext : ∀ (s : String) (n : ℕ), (serviceName s n).toList.reverse =
      (toString n).toList.reverse ++ '-' :: (s.toList.reverse ++ "Healer-".toList.reverse) := by
    intro s n
    simp [serviceName, ToString.toString]
  have hlist := congrArg (fun name => name.toList.reverse) h
  simp only [htext] at hlist
  obtain ⟨hport, hslug⟩ := Lines.append_mark_inj (hdigits port) (hdigits port') hlist
  constructor
  · exact String.toList_injective (reverse_injective (append_cancel_right hslug))
  · exact toString_injective (String.toList_injective (reverse_injective hport))

/-- For every name and every finite set of slugs in use, `_unique_slug(_slugify(name))` ends after at most
one further round for each of them, with a free slug in words joined by single dashes: the slug of the
name, or that and a number from 2 on. A service name is of one slug and one port. -/
theorem unique_slug_fresh (lower : String → String) :
    (∀ (name : String) (existing : Finset String), ∃ rounds ≤ existing.card, ∃ slug,
      uniqueSlugLoop (fun s => decide (s ∈ existing)) (slugify lower name) (rounds + 1) (slugify lower name) 2 =
          some slug ∧
        slug ∉ existing ∧ patternMatches slugGrammar slug = true ∧
        (slug = slugify lower name ∨ ∃ n, 2 ≤ n ∧ slug = slugify lower name ++ "-" ++ toString n)) ∧
    ∀ slug slug' port port', serviceName slug port = serviceName slug' port' → slug = slug' ∧ port = port' := by
  refine ⟨fun name existing => ?_, fun _ _ _ _ => serviceName_injective⟩
  obtain ⟨slug, hslug⟩ := Option.isSome_iff_exists.1 (uniqueSlugLoop_isSome existing (slugify lower name))
  obtain ⟨m, hm, hfree, -, -⟩ := uniqueSlugLoop_some (n := 0) hslug
  refine ⟨existing.card, le_rfl, slug, hslug, by simpa using hfree, ?_, ?_⟩
  · rw [patternMatches_iff, hm]
    exact candidate_grammar (slugify_grammar lower name) m
  · cases m with
    | zero => exact .inl hm
    | succ m => exact .inr ⟨m + 2, by omega, hm⟩

end Healer
