import Healer.Proofs.Browser

/-! The search box of the table browser. `_escape_like` puts a backslash before each backslash, percent sign and
underscore, so between the two percent signs of the pattern every character stands for itself. -/

namespace Healer.DbAdmin

open List

/-! ## `_escape_like` -/

/-- The characters that mean something in a pattern. -/
def patternChars : List Char := ['\\', '%', '_']

def escapeChar (c : Char) : List Char := if c ∈ patternChars then ['\\', c] else [c]

/-- The later replacements do not touch what the earlier ones put in. -/
theorem escapeLike_eq (term : List Char) : escapeLike term = term.flatMap escapeChar := by
  simp only [escapeLike, replaceChar, flatMap_assoc]
  congr 1
  funext c
  by_cases hslash : c = '\\'
  · subst hslash
    rfl
  by_cases hpercent : c = '%'
  · subst hpercent
    rfl
  by_cases hunder : c = '_'
  · subst hunder
    rfl
  simp [escapeChar, patternChars, hslash, hpercent, hunder]

/-! ## `ILIKE` -/

section Matching

variable {fold : Char → Char} {p text : List Char} {c : Char}

theorem ilike_percent : ilike fold ('%' :: p) text = true ↔ ∃ x y, text = x ++ y ∧ ilike fold p y = true := by
  rw [ilike, any_eq_true]
  constructor
  · rintro ⟨y, hy, hmatch⟩
    obtain ⟨x, hx⟩ := (mem_tails y text).1 hy
    exact ⟨x, y, hx.symm, hmatch⟩
  · rintro ⟨x, y, hx, hmatch⟩
    exact ⟨y, (mem_tails y text).2 ⟨x, hx.symm⟩, hmatch⟩

theorem ilike_escaped : ilike fold (escapeChar c ++ p) text = true ↔
    ∃ d y, text = d :: y ∧ fold c = fold d ∧ ilike fold p y = true := by
  by_cases hc : c ∈ patternChars
  · rw [escapeChar, if_pos hc]
    cases text <;> simp [ilike]
  · simp only [patternChars, mem_cons, not_mem_nil, or_false, not_or] at hc
    obtain ⟨hslash, hpercent, hunder⟩ := hc
    have hplain : escapeChar c = [c] := by simp [escapeChar, patternChars, hslash, hpercent, hunder]
    rw [hplain]
    cases text <;> simp [ilike, hslash]

theorem ilike_escapeLike (term : List Char) : ilike fold (escapeLike term ++ p) text = true ↔
    ∃ x y, text = x ++ y ∧ x.map fold = term.map fold ∧ ilike fold p y = true := by
  rw [escapeLike_eq]
  induction term generalizing text with
  | nil => simp
  | cons c term ih =>
    rw [flatMap_cons, append_assoc, ilike_escaped]
    constructor
    · rintro ⟨d, y, rfl, hcd, hrest⟩
      obtain ⟨x, z, rfl, hx, hz⟩ := ih.1 hrest
      exact ⟨d :: x, z, rfl, by simp [hcd, hx], hz⟩
    · rintro ⟨x, z, rfl, hx, hz⟩
      obtain ⟨d, x, rfl, hd, hx⟩ := map_eq_cons_iff.1 hx
      exact ⟨d, x ++ z, rfl, hd.symm, ih.2 ⟨x, z, rfl, hx, hz⟩⟩

theorem ilike_search (term : List Char) : ilike fold (['%'] ++ escapeLike term ++ ['%']) text = true ↔
    term.map fold <:+: text.map fold := by
  have hend : ∀ z, ilike fold ['%'] z = true := fun z => ilike_percent.2 ⟨z, [], by simp, by simp [ilike]⟩
  rw [append_assoc, singleton_append, ilike_percent]
  constructor
  · rintro ⟨x, y, rfl, hy⟩
    obtain ⟨w, z, rfl, hw, -⟩ := (ilike_escapeLike term).1 hy
    exact ⟨x.map fold, z.map fold, by simp [hw]⟩
  · rintro ⟨u, v, huv⟩
    obtain ⟨xw, z, rfl, hxw, -⟩ := map_eq_append_iff.1 huv.symm
    obtain ⟨x, w, rfl, -, hw⟩ := map_eq_append_iff.1 hxw
    exact ⟨x, w ++ z, by simp, (ilike_escapeLike term).2 ⟨w, z, rfl, hw, hend z⟩⟩

end Matching

/-! ## `list_rows` -/

section Rows

variable (env : Env) (table : TableSchema)

/-- Some column that is not sensitive has the term in its text. -/
def Contains (term : String) (row : Row) : Prop :=
  ∃ c ∈ table.columns, c ∉ globalSensitiveColumns ∧ ∃ v ∈ row c,
    term.toList.map env.fold <:+: (env.castText table.name c v).toList.map env.fold

instance (term : String) : DecidablePred (Contains env table term) := fun row =>
  inferInstanceAs (Decidable (∃ c ∈ table.columns, c ∉ globalSensitiveColumns ∧ ∃ v ∈ row c,
    term.toList.map env.fold <:+: (env.castText table.name c v).toList.map env.fold))

variable {env table}

theorem searchCondition_iff {term : String} {row : Row} :
    searchCondition env table term row = true ↔ Contains env table term row := by
  simp only [searchCondition, any_eq_true, Bool.and_eq_true, decide_eq_true_eq, Option.any_eq_true,
    ilike_search, Contains, Option.mem_def]

theorem selects_iff {q : Query} (h : env.strip (q.search.getD "") ≠ "") (row : Row) :
    selects env table q row = decide (Contains env table (env.strip (q.search.getD "")) row) := by
  rw [Bool.eq_iff_iff, decide_eq_true_iff, ← searchCondition_iff]
  simp [selects, h]

/-- The query has the selected rows, each once. -/
theorem queried_perm (q : Query) (rows : List Row) :
    (queried env table q rows).Perm (rows.filter (selects env table q)) :=
  perm_insertionSort _ _

end Rows

/-- The pattern of a search matches a text exactly when the term is a part of it up to case, whatever the term;
so a search lists and counts exactly the rows of which some column that is not sensitive has the term in its
text. -/
theorem search_is_literal (env : Env) :
    (∀ term text : List Char, ilike env.fold (['%'] ++ escapeLike term ++ ['%']) text = true ↔
      term.map env.fold <:+: text.map env.fold) ∧
    ∀ (db : Db) (tableName : String) (table : TableSchema) (limit offset : ℤ) (q : Query),
      getTable env tableName = .ok table → env.strip (q.search.getD "") ≠ "" →
      ∃ found : List Row,
        found.Perm ((db tableName).filter fun row => Contains env table (env.strip (q.search.getD "")) row) ∧
        listRows env db tableName limit offset q =
          .ok (((found.drop offset.toNat).take (clamp limit)).map (redactRow table), found.length) := by
  refine ⟨fun term text => ilike_search term, fun db tableName table limit offset q htable hterm => ?_⟩
  have hselected : (db tableName).filter (selects env table q) =
      (db tableName).filter fun row => Contains env table (env.strip (q.search.getD "")) row :=
    filter_congr fun row _ => selects_iff hterm row
  have hperm := @queried_perm env table q (db tableName)
  refine ⟨queried env table q (db tableName), hselected ▸ hperm, ?_⟩
  rw [listRows_eq htable, hperm.length_eq]

end Healer.DbAdmin
