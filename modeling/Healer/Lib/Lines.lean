import Mathlib.Data.List.DropRight
import Mathlib.Tactic

/-! A text read as lines: the lines that are ended by the mark `a`, and the rest. -/

namespace Lines

open List

variable {α : Type} [BEq α] [LawfulBEq α] {a : α} {text tail x : List α} {ls : List (List α)}

omit [BEq α] [LawfulBEq α] in
/-- The first mark is where the texts before it end. -/
theorem append_mark_inj {y u v : List α} (hx : a ∉ x) (hy : a ∉ y) (h : x ++ a :: u = y ++ a :: v) :
    x = y ∧ u = v := by
  induction x generalizing y with
  | nil =>
    cases y with
    | nil => exact ⟨rfl, (List.cons.inj h).2⟩
    | cons b y => exact absurd (List.cons.inj h).1 (ne_of_not_mem_cons hy)
  | cons c x ih =>
    cases y with
    | nil => exact absurd (List.cons.inj h).1.symm (ne_of_not_mem_cons hx)
    | cons b y =>
      obtain ⟨rfl, hrest⟩ := List.cons.inj h
      obtain ⟨rfl, rfl⟩ := ih (not_mem_of_not_mem_cons hx) (not_mem_of_not_mem_cons hy) hrest
      exact ⟨rfl, rfl⟩

structure Parts (a : α) (text : List α) (ls : List (List α)) (tail : List α) : Prop where
  text_eq : text = ls.flatMap (· ++ [a]) ++ tail
  ended : ∀ l ∈ ls, a ∉ l
  rest : a ∉ tail

omit [BEq α] [LawfulBEq α] in
theorem Parts.nil : Parts a [] [] [] := ⟨rfl, by simp, by simp⟩

theorem Parts.splitOn (h : Parts a text ls tail) : text.splitOn a = ls ++ [tail] := by
  obtain ⟨rfl, hls, htail⟩ := h
  induction ls with
  | nil =>
    have hfree : ∀ y ∈ tail, (y == a) = false := by
      intro y hy
      simpa using fun e : y = a => htail (e ▸ hy)
    simpa [List.splitOn] using splitOnP_eq_singleton hfree
  | cons l ls ih =>
    have hl : a ∉ l := hls l (by simp)
    have ih := ih fun m hm => hls m (by simp [hm])
    simp only [flatMap_cons, append_assoc, cons_append, nil_append] at ih ⊢
    rw [splitOn_append_cons_self_of_not_mem hl, ih]

omit [BEq α] [LawfulBEq α] in
/-- What is written without the mark goes on with the last line. -/
theorem Parts.append (h : Parts a text ls tail) (hx : a ∉ x) : Parts a (text ++ x) ls (tail ++ x) :=
  ⟨by rw [h.text_eq, append_assoc], h.ended, by simpa using ⟨h.rest, hx⟩⟩

omit [BEq α] [LawfulBEq α] in
/-- The mark ends the last line, with all that it has by then. -/
theorem Parts.append_mark (h : Parts a text ls tail) (hx : a ∉ x) :
    Parts a (text ++ (x ++ [a])) (ls ++ [tail ++ x]) [] := by
  refine ⟨by simp [h.text_eq], fun l hl => ?_, by simp⟩
  rcases mem_append.1 hl with hl | hl
  · exact h.ended l hl
  · rw [mem_singleton.1 hl]
    simpa using ⟨h.rest, hx⟩

/-! ## Lines and their text -/

/-- The text of lines that are all ended. -/
def unlines (a : α) (ls : List (List α)) : List α := ls.flatMap (· ++ [a])

section Text

omit [BEq α] [LawfulBEq α]

variable {ms : List (List α)} {l : List α}

@[simp] theorem unlines_nil : unlines a [] = [] := rfl

theorem unlines_cons : unlines a (l :: ls) = l ++ a :: unlines a ls := by simp [unlines]

theorem unlines_append : unlines a (ls ++ ms) = unlines a ls ++ unlines a ms := by simp [unlines]

theorem length_unlines_append (a : α) (ls ms : List (List α)) :
    (unlines a (ls ++ ms)).length = (unlines a ls).length + (unlines a ms).length := by
  rw [unlines_append, length_append]

theorem unlines_concat : unlines a (ls ++ [l]) = unlines a ls ++ l ++ [a] := by simp [unlines]

theorem unlines_eq_nil : unlines a ls = [] ↔ ls = [] := by
  cases ls with
  | nil => simp
  | cons l ls => simp [unlines_cons]

theorem length_unlines_drop_le (ls : List (List α)) (n : ℕ) :
    (unlines a (ls.drop n)).length ≤ (unlines a ls).length := by
  rw [← take_append_drop n ls, length_unlines_append, take_append_drop]
  exact Nat.le_add_left _ _

/-- Every text is some ended lines and a rest. -/
theorem exists_parts (a : α) (t : List α) : ∃ ls tail, Parts a t ls tail := by
  classical
  induction t using List.reverseRecOn with
  | nil => exact ⟨[], [], Parts.nil⟩
  | append_singleton t x ih =>
    obtain ⟨ls, tail, h⟩ := ih
    by_cases hx : x = a
    · subst hx
      exact ⟨ls ++ [tail ++ []], [], h.append_mark (x := []) (by simp)⟩
    · exact ⟨ls, tail ++ [x], h.append (by simpa using Ne.symm hx)⟩

/-- A text that ends in a mark is lines only. -/
theorem exists_lines {t : List α} (h : t.getLast? = some a) :
    ∃ ls, t = unlines a ls ∧ ∀ l ∈ ls, a ∉ l := by
  obtain ⟨ls, tail, hparts⟩ := exists_parts a t
  rcases eq_nil_or_concat tail with rfl | ⟨tail, x, rfl⟩
  · exact ⟨ls, by simpa [unlines] using hparts.text_eq, hparts.ended⟩
  · exfalso
    rw [hparts.text_eq, concat_eq_append, ← append_assoc, List.getLast?_concat,
      Option.some.injEq] at h
    exact hparts.rest (by simp [h])

/-- What is left of a text from some place in it on is lines again, the first of them cut. -/
theorem drop_unlines {d : ℕ} (hd : d < (unlines a ls).length) :
    ∃ pre l post j, ls = pre ++ l :: post ∧ (unlines a ls).drop d = unlines a (l.drop j :: post) ∧
      d = (unlines a pre).length + j ∧ j ≤ l.length := by
  induction ls generalizing d with
  | nil => simp at hd
  | cons l ls ih =>
    by_cases hle : d ≤ l.length
    · refine ⟨[], l, ls, d, rfl, ?_, by simp, hle⟩
      rw [unlines_cons, unlines_cons, drop_append_of_le_length hle]
    · have hlen : (unlines a (l :: ls)).length = l.length + 1 + (unlines a ls).length := by
        rw [unlines_cons, length_append, length_cons]
        omega
      obtain ⟨pre, m, post, j, hpre, hdrop, hj, hjm⟩ :=
        ih (d := d - (l.length + 1)) (by omega)
      refine ⟨l :: pre, m, post, j, by rw [hpre, cons_append], ?_, ?_, hjm⟩
      · rw [← hdrop, unlines_cons, drop_append, drop_of_length_le (by omega), nil_append,
          show d - l.length = d - (l.length + 1) + 1 by omega, drop_succ_cons]
      · rw [unlines_cons, length_append, length_cons]
        omega

end Text

/-- The last line is empty only if it is the only one. -/
def Tidy (ls : List (List α)) : Prop := ls = [[]] ∨ ls.getLast? ≠ some []

omit [BEq α] [LawfulBEq α] in
theorem Tidy.cons {l : List α} (h : ∀ l ∈ ls, l ≠ []) : Tidy (l :: ls) := by
  rcases eq_nil_or_concat ls with rfl | ⟨init, m, rfl⟩
  · by_cases hl : l = []
    · exact Or.inl (by rw [hl])
    · exact Or.inr (by simpa using hl)
  · refine Or.inr ?_
    rw [concat_eq_append, ← cons_append, List.getLast?_concat]
    simpa using h m (by simp)

/-- Marks at the end of a unlines are trimmed before it is split: of tidy lines none is lost. -/
theorem splitOn_rdropWhile_unlines (hls : ∀ l ∈ ls, a ∉ l) (hne : ls ≠ []) (htidy : Tidy ls) :
    ((unlines a ls).rdropWhile (· == a)).splitOn a = ls := by
  rcases eq_nil_or_concat ls with rfl | ⟨init, l, rfl⟩
  · exact absurd rfl hne
  rw [concat_eq_append] at hls htidy ⊢
  have htrim : (unlines a (init ++ [l])).rdropWhile (· == a) = unlines a init ++ l := by
    rw [unlines_concat, rdropWhile_concat_pos _ _ _ (by simp)]
    rcases htidy with honly | hlast
    · obtain ⟨rfl, rfl⟩ : init = [] ∧ l = [] := by
        cases init with
        | nil => simpa using honly
        | cons m init => simp at honly
      rfl
    · rcases eq_nil_or_concat l with rfl | ⟨l, x, rfl⟩
      · exact absurd (List.getLast?_concat) hlast
      · rw [concat_eq_append, ← append_assoc, rdropWhile_concat_neg]
        have hx : a ∉ l.concat x := hls _ (by simp)
        simp only [beq_iff_eq]
        rintro rfl
        exact hx (by simp)
  rw [htrim]
  exact Parts.splitOn ⟨rfl, fun m hm => hls m (by simp [hm]), hls l (by simp)⟩

/-! ## Splitting any text -/

/-- The lines of a text take up its length and one mark each, the last of which is not there. -/
theorem sum_splitOn (a : α) (text : List α) :
    ((text.splitOn a).map fun l => l.length + 1).sum = text.length + 1 := by
  obtain ⟨ls, tail, h⟩ := exists_parts a text
  rw [h.splitOn, h.text_eq, map_append, sum_append, length_append, length_flatMap]
  simp only [length_append, length_singleton, map_singleton, sum_singleton]
  omega

/-- Marks at the end are empty lines. -/
theorem splitOn_append_replicate (a : α) (text : List α) (m : ℕ) :
    (text ++ List.replicate m a).splitOn a = text.splitOn a ++ List.replicate m [] := by
  induction m with
  | zero => simp
  | succ m ih =>
    rw [replicate_succ', ← append_assoc, splitOn_append_cons_self, ih, splitOn_nil,
      append_assoc, ← replicate_succ']

theorem exists_rdropWhile (a : α) (text : List α) :
    ∃ m, text = text.rdropWhile (· == a) ++ List.replicate m a := by
  induction text using List.reverseRecOn with
  | nil => exact ⟨0, rfl⟩
  | append_singleton text x ih =>
    by_cases hx : x = a
    · obtain ⟨m, hm⟩ := ih
      refine ⟨m + 1, ?_⟩
      rw [rdropWhile_concat_pos _ _ _ (by simp [hx]), replicate_succ', ← append_assoc, ← hm, hx]
    · refine ⟨0, ?_⟩
      rw [rdropWhile_concat_neg _ _ _ (by simp [hx]), replicate_zero, append_nil]

end Lines
