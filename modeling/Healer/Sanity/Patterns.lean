import Healer.Spec.Patterns

/-! What a text that matches one of the patterns is made of, and how far `re.match` and pydantic's `pattern`
agree on it. -/

namespace Healer

open List

open RegularExpression (Over over_oneOf mem_mul mem_oneOf_mul)

/-! ## Letters -/

/-- A finite check, letter by letter. -/
theorem forall_mem_of_all {p : Char → Prop} [DecidablePred p] {l : List Char}
    (h : (l.all fun c => decide (p c)) = true) : ∀ c ∈ l, p c := by
  simpa using h

section Letters

variable {S : Char → Prop}

theorem letters_alphanumeric {c : Char} (h : c ∈ letters) : c ∈ alphanumeric := mem_append_left _ h

theorem hostnameRe_over (halnum : ∀ c ∈ alphanumeric, S c) (hdash : S '-') (hdot : S '.') : hostnameRe.Over S := by
  have hclass : ∀ c ∈ '-' :: alphanumeric, S c := forall_mem_cons.2 ⟨hdash, halnum⟩
  have hletters : (RegularExpression.oneOf letters).Over S := over_oneOf fun c hc => halnum c (letters_alphanumeric hc)
  have hlabel : labelRe.Over S :=
    ⟨over_oneOf halnum, ⟨trivial, (over_oneOf hclass).upTo 61, over_oneOf halnum⟩, hdot⟩
  exact ⟨⟨hlabel, hlabel⟩, hletters, hletters, hletters.upTo 61⟩

theorem unixPathRe_over (halnum : ∀ c ∈ alphanumeric, S c) (hmarks : ∀ c ∈ ['_', '.', '/', '-'], S c) :
    unixPathRe.Over S := by
  have hclass : ∀ c ∈ ['_', '.', '/', '-'] ++ alphanumeric, S c := forall_mem_append.2 ⟨hmarks, halnum⟩
  exact ⟨hmarks '/' (by decide), over_oneOf hclass, over_oneOf hclass⟩

theorem hostRe_over (halnum : ∀ c ∈ alphanumeric, S c) (hmarks : ∀ c ∈ ['.', '-'], S c) : hostRe.Over S :=
  ⟨over_oneOf halnum, over_oneOf (forall_mem_append.2 ⟨hmarks, halnum⟩)⟩

end Letters

theorem alphanumeric_ne_newline : ∀ c ∈ alphanumeric, c ≠ '\n' := forall_mem_of_all (by decide +kernel)

theorem hostnameRe_ne_newline : hostnameRe.Over (· ≠ '\n') :=
  hostnameRe_over alphanumeric_ne_newline (by decide) (by decide)

theorem unixPathRe_ne_newline : unixPathRe.Over (· ≠ '\n') :=
  unixPathRe_over alphanumeric_ne_newline (forall_mem_of_all (by decide))

theorem hostRe_ne_newline : hostRe.Over (· ≠ '\n') :=
  hostRe_over alphanumeric_ne_newline (forall_mem_of_all (by decide))

/-! ## Matches -/

section Matches

variable {P : RegularExpression Char} {s : String}

theorem patternMatches_iff : patternMatches P s = true ↔ s.toList ∈ P.matches' :=
  RegularExpression.rmatch_iff_matches' P _

theorem reMatch_of_pattern (h : patternMatches P s = true) : reMatch P s = true := by
  unfold reMatch
  rw [Bool.or_eq_true]
  exact Or.inl h

theorem not_endsInNewline (hP : P.Over (· ≠ '\n')) (h : patternMatches P s = true) : endsInNewline s = false := by
  by_contra hend
  rw [Bool.not_eq_false, endsInNewline, beq_iff_eq] at hend
  exact hP.of_mem (patternMatches_iff.1 h) _ (mem_of_getLast? hend) rfl

/-- The two ways differ on a newline at the end only. -/
theorem patternMatches_of_reMatch (h : reMatch P s = true) (hend : endsInNewline s = false) :
    patternMatches P s = true := by
  unfold reMatch at h
  rw [hend, Bool.false_and, Bool.or_false] at h
  exact h

/-- Every DNS name is a host. -/
theorem hostRe_of_hostnameRe (h : patternMatches hostnameRe s = true) : patternMatches hostRe s = true := by
  rw [patternMatches_iff] at h ⊢
  have hall : ∀ c ∈ s.toList, c ∈ ['.', '-'] ++ alphanumeric :=
    (hostnameRe_over (fun c hc => mem_append_right _ hc) (by decide) (by decide)).of_mem h
  obtain ⟨labels, hlabels, top, -, hs⟩ := mem_mul.1 h
  obtain ⟨label, hlabel, more, -, hmore⟩ := mem_mul.1 hlabels
  obtain ⟨c, hc, rest, -, hrest⟩ := mem_oneOf_mul.1 hlabel
  refine mem_oneOf_mul.2 ⟨c, hc, rest ++ more ++ top, RegularExpression.mem_star_oneOf.2 fun d hd => ?_, ?_⟩
  · refine hall d ?_
    rw [← hs, ← hmore, ← hrest, cons_append, cons_append]
    exact mem_cons_of_mem c hd
  · rw [← hs, ← hmore, ← hrest, cons_append, cons_append]

theorem length_pos_of_hostRe (h : patternMatches hostRe s = true) : 1 ≤ s.length := by
  rw [patternMatches_iff] at h
  obtain ⟨c, -, z, -, hz⟩ := mem_oneOf_mul.1 h
  rw [← String.length_toList, ← hz, length_cons]
  exact Nat.succ_le_succ (Nat.zero_le _)

theorem length_pos_of_unixPathRe (h : patternMatches unixPathRe s = true) : 1 ≤ s.length := by
  rw [patternMatches_iff] at h
  obtain ⟨y, hy, z, -, hz⟩ := mem_mul.1 h
  obtain rfl : y = ['/'] := hy
  rw [← String.length_toList, ← hz, singleton_append, length_cons]
  exact Nat.succ_le_succ (Nat.zero_le _)

end Matches

end Healer
