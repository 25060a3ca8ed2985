import Mathlib.Data.List.Infix
import Mathlib.Tactic

/-! Words, their overlaps, and the replacement of a word in a text: from left to right, each
occurrence found is replaced and passed over whole. The letters of the text may carry more than
the letters of the word; `key` is what they are compared by. -/

namespace Words

open List

variable {α β : Type}

/-- An end of `x` is a beginning of `y`, and both go on. -/
def Overlap (x y : List α) : Prop :=
  ∃ a z c, a ≠ [] ∧ z ≠ [] ∧ c ≠ [] ∧ x = a ++ z ∧ y = z ++ c

/-- A word that begins inside `t` and ends after it overlaps `t`. -/
theorem overlap_of_cross {t w r : List α} {j : ℕ} (hj : 0 < j) (hlt : j < t.length)
    (hlen : t.length < j + w.length) (h : w <+: t.drop j ++ r) : Overlap t w := by
  obtain ⟨c, rfl⟩ : t.drop j <+: w :=
    prefix_of_prefix_length_le (prefix_append _ _) h (by simp; omega)
  refine ⟨t.take j, t.drop j, c, ?_, ?_, ?_, (take_append_drop j t).symm, rfl⟩
  · rw [Ne, take_eq_nil_iff]
    rintro (rfl | rfl)
    · omega
    · simp at hlt
  · simpa using hlt
  · rintro rfl
    simp at hlen
    omega

/-- A word that begins before `t` and ends inside it overlaps `t`. -/
theorem overlap_of_reach {p t w r : List α} (hp : p ≠ []) (hlt : p.length < w.length)
    (hlen : w.length < p.length + t.length) (h : w <+: p ++ (t ++ r)) : Overlap w t := by
  obtain ⟨z, rfl⟩ : p <+: w := prefix_of_prefix_length_le (prefix_append _ _) h hlt.le
  simp only [length_append] at hlt hlen
  rw [prefix_append_right_inj] at h
  obtain ⟨c, rfl⟩ : z <+: t := prefix_of_prefix_length_le h (prefix_append _ _) (by omega)
  refine ⟨p, z, c, hp, ?_, ?_, rfl, rfl⟩
  · rintro rfl
    simp at hlt
  · rintro rfl
    simp at hlen

/-- A word that begins inside `t` and ends after it, read from the end. -/
theorem overlap_of_reach_back {p t w r : List α} (hp : p ≠ []) (hlt : p.length < w.length)
    (hlen : w.length < t.length + p.length) (h : w <:+ r ++ t ++ p) : Overlap t w := by
  obtain ⟨z, rfl⟩ : p <:+ w := suffix_of_suffix_length_le (suffix_append _ _) h hlt.le
  simp only [length_append] at hlt hlen
  rw [suffix_append_self_iff] at h
  obtain ⟨a, rfl⟩ : z <:+ t := suffix_of_suffix_length_le h (suffix_append _ _) (by omega)
  refine ⟨a, z, p, ?_, ?_, hp, rfl, rfl⟩
  · rintro rfl
    simp at hlen
  · rintro rfl
    simp at hlt

/-- Between two shorter words, a word without self-overlap is found once. -/
theorem sole_occurrence {p w q : List α} {k : ℕ} (hself : ¬ Overlap w w) (hp : p.length < w.length)
    (hq : q.length < w.length) (h : w <+: (p ++ (w ++ q)).drop k) : k = p.length := by
  have hlen := h.length_le
  simp only [length_drop, length_append] at hlen
  rcases Nat.lt_trichotomy k p.length with hlt | heq | hgt
  · rw [drop_append_of_le_length hlt.le] at h
    refine absurd (overlap_of_reach ?_ ?_ ?_ h) hself
    · simpa using hlt
    · simp
      omega
    · simp
      omega
  · exact heq
  · obtain ⟨j, rfl⟩ := Nat.exists_eq_add_of_lt hgt
    rw [drop_append, drop_eq_nil_of_le (by omega), nil_append,
      drop_append_of_le_length (by omega)] at h
    refine absurd (overlap_of_cross ?_ ?_ ?_ h) hself <;> omega

theorem exists_first {v x y : List α} (hv : v ≠ []) :
    ∃ x' y', x ++ (v ++ y) = x' ++ (v ++ y') ∧ ¬ v <:+: x' := by
  induction hn : x.length using Nat.strong_induction_on generalizing x y with
  | _ n ih =>
    by_cases hx : v <:+: x
    · obtain ⟨s, t, rfl⟩ := hx
      have hpos := length_pos_iff.mpr hv
      obtain ⟨x', y', heq, hfree⟩ := ih s.length (by simp at hn; omega) (x := s) (y := t ++ (v ++ y)) rfl
      exact ⟨x', y', by simpa using heq, hfree⟩
    · exact ⟨x, y, rfl, hx⟩

theorem exists_last {v x y : List α} (hv : v ≠ []) :
    ∃ x' y', x ++ (v ++ y) = x' ++ (v ++ y') ∧ ¬ v <:+: y' := by
  induction hn : y.length using Nat.strong_induction_on generalizing x y with
  | _ n ih =>
    by_cases hy : v <:+: y
    · obtain ⟨s, t, rfl⟩ := hy
      have hpos := length_pos_iff.mpr hv
      obtain ⟨x', y', heq, hfree⟩ := ih t.length (by simp at hn; omega) (x := x ++ (v ++ s)) (y := t) rfl
      exact ⟨x', y', by simpa using heq, hfree⟩
    · exact ⟨x, y, rfl, hy⟩

section Replace

variable [DecidableEq α] (key : β → α) (old : List α) (new : List β)

/-- The replacement with `k` letters still to be passed over. -/
def replaceFrom : ℕ → List β → List β
  | _, [] => []
  | 0, b :: text =>
    if old <+: (b :: text).map key then new ++ replaceFrom (old.length - 1) text
    else b :: replaceFrom 0 text
  | k + 1, _ :: text => replaceFrom k text

def replaceAll (text : List β) : List β := replaceFrom key old new 0 text

@[simp] theorem replaceFrom_nil (k : ℕ) : replaceFrom key old new k [] = [] := by
  cases k <;> rfl

@[simp] theorem replaceAll_nil : replaceAll key old new [] = [] := rfl

variable {key old new} {text t r p q : List β}

theorem replaceAll_cons_of_not {b : β} (h : ¬ old <+: (b :: text).map key) :
    replaceAll key old new (b :: text) = b :: replaceAll key old new text := by
  rw [replaceAll, replaceFrom, if_neg h, replaceAll]

/-- What is done with the text of one kind of letters is done with that of the other. -/
theorem map_replaceAll : (replaceAll key old new text).map key =
    replaceAll id old (new.map key) (text.map key) := by
  suffices h : ∀ k, (replaceFrom key old new k text).map key =
      replaceFrom id old (new.map key) k (text.map key) from h 0
  induction text with
  | nil => simp
  | cons b text ih =>
    intro k
    cases k with
    | zero =>
      simp only [replaceFrom, map_cons, map_id, id_eq]
      by_cases h : old <+: key b :: text.map key
      · simp [h, ih]
      · simp [h, ih]
    | succ k => simpa [replaceFrom] using ih k

variable (key old) in
/-- No occurrence that begins in `t` goes on into `r`. -/
def Closed (t r : List β) : Prop :=
  ∀ j < t.length, old <+: (t.drop j ++ r).map key → old.length ≤ t.length - j

/-- A text may be cut where no occurrence crosses. -/
theorem replaceAll_append (h : Closed key old t r) :
    replaceAll key old new (t ++ r) = replaceAll key old new t ++ replaceAll key old new r := by
  suffices hk : ∀ k ≤ t.length, replaceFrom key old new k (t ++ r) =
      replaceFrom key old new k t ++ replaceFrom key old new 0 r from hk 0 (Nat.zero_le _)
  induction t with
  | nil =>
    intro k hk
    obtain rfl : k = 0 := by simpa using hk
    rfl
  | cons b t ih =>
    have htail : Closed key old t r := by
      intro j hj hocc
      have := h (j + 1) (by simpa using hj) hocc
      simp at this
      omega
    intro k hk
    cases k with
    | succ k => exact ih htail k (by simpa using hk)
    | zero =>
      simp only [cons_append, replaceFrom]
      by_cases hocc : old <+: (b :: t).map key
      · have hlen := hocc.length_le
        simp only [length_map, length_cons] at hlen
        rw [if_pos hocc, if_pos (hocc.trans (by simp)), ih htail _ (by omega), append_assoc]
      · have hnot : ¬ old <+: (b :: (t ++ r)).map key := by
          intro hfull
          refine hocc (prefix_of_prefix_length_le hfull (by simp) ?_)
          simpa using h 0 (by simp) hfull
        rw [if_neg hocc, if_neg hnot, ih htail 0 (Nat.zero_le _), cons_append]

theorem replaceAll_of_not_infix (h : ¬ old <:+: text.map key) : replaceAll key old new text = text := by
  induction text with
  | nil => rfl
  | cons b text ih =>
    rw [replaceAll_cons_of_not fun hp => h hp.isInfix, ih]
    intro hi
    exact h (hi.trans (suffix_cons _ _).isInfix)

/-- A text that begins with the word. -/
theorem replaceAll_append_of_eq (hold : old ≠ []) (h : t.map key = old) :
    replaceAll key old new (t ++ r) = new ++ replaceAll key old new r := by
  have hskip : ∀ (s : List β), replaceFrom key old new s.length (s ++ r) = replaceAll key old new r := by
    intro s
    induction s with
    | nil => rfl
    | cons b s ih => exact ih
  cases t with
  | nil => exact absurd h.symm hold
  | cons b t =>
    have hocc : old <+: (b :: (t ++ r)).map key := by
      rw [← h]
      simp
    have hlen : old.length - 1 = t.length := by simp [← h]
    rw [cons_append, replaceAll, replaceFrom, if_pos hocc, hlen, hskip]

theorem replaceAll_of_eq (hold : old ≠ []) (h : t.map key = old) : replaceAll key old new t = new := by
  simpa using replaceAll_append_of_eq (r := []) hold h

/-- Occurrences of a word without self-overlap are all replaced. -/
theorem replaceAll_append_append (hold : old ≠ []) (hself : ¬ Overlap old old) (h : t.map key = old) :
    replaceAll key old new (p ++ (t ++ q)) =
      replaceAll key old new p ++ (new ++ replaceAll key old new q) := by
  have hclosed : Closed key old p (t ++ q) := by
    intro j hj hocc
    by_contra hlen
    refine hself (overlap_of_reach (p := (p.drop j).map key) (r := q.map key) ?_ ?_ ?_ ?_)
    · simpa using hj
    · simp
      omega
    · simp only [length_map, length_drop]
      omega
    · simpa [h] using hocc
  rw [replaceAll_append hclosed, replaceAll_append_of_eq hold h]

/-- A last letter that ends no occurrence stays. -/
theorem replaceAll_concat_of_not {b : β} (hold : old ≠ []) (h : ¬ old <:+ (t ++ [b]).map key) :
    replaceAll key old new (t ++ [b]) = replaceAll key old new t ++ [b] := by
  have hfull : ∀ j ≤ t.length, old <+: (t.drop j ++ [b]).map key → old.length ≤ t.length - j := by
    intro j hj hocc
    by_contra hlen
    have heq : old = ((t ++ [b]).drop j).map key := by
      rw [drop_append_of_le_length hj]
      refine hocc.eq_of_length_le ?_
      simp
      omega
    exact h (heq ▸ map_drop ▸ drop_suffix _ _)
  have hlast : ¬ old <+: [b].map key := by
    intro hocc
    have := hfull t.length le_rfl (by simpa using hocc)
    exact hold (length_eq_zero_iff.mp (by omega))
  rw [replaceAll_append fun j hj => hfull j hj.le, replaceAll_cons_of_not hlast, replaceAll_nil]

variable (key old) in
/-- No occurrence crosses from one part into the next. -/
def Cut : List (List β) → Prop
  | [] => True
  | t :: ts => Closed key old t ts.flatten ∧ Cut ts

omit [DecidableEq α] in
theorem Cut.within {left right : List (List β)} (h : Cut key old (left ++ right)) {k : ℕ}
    (hk : k < left.flatten.length) (hocc : old <+: ((left ++ right).flatten.drop k).map key) :
    k + old.length ≤ left.flatten.length := by
  induction left generalizing k with
  | nil => simp at hk
  | cons t left ih =>
    simp only [flatten_cons, length_append, cons_append] at hk hocc ⊢
    by_cases hin : k < t.length
    · rw [drop_append_of_le_length hin.le] at hocc
      have := h.1 k hin hocc
      omega
    · rw [drop_append, drop_eq_nil_of_le (by omega), nil_append] at hocc
      have := ih h.2 (k := k - t.length) (by omega) hocc
      omega

end Replace

/-- `w` neither overlaps `t` nor has it inside. -/
structure Apart (w t : List α) : Prop where
  reach : ¬ Overlap w t
  cross : ¬ Overlap t w
  inside : t <:+: w → t = w

/-- Nothing before `t` and no end of `w` can make up the rest of `w`. -/
theorem Apart.not_start {w t p r : List α} (h : Apart w t) (hp : p ≠ []) (hlt : p.length < w.length) :
    ¬ w <+: p ++ (t ++ r) := by
  intro hocc
  have hpos := length_pos_iff.mpr hp
  rcases Nat.lt_or_ge w.length (p.length + t.length) with hin | hout
  · exact h.reach (overlap_of_reach hp hlt hin hocc)
  · have hpre : p ++ t <+: w :=
      prefix_of_prefix_length_le (by simp [← append_assoc]) hocc (by simpa using hout)
    have heq := congrArg List.length (h.inside ((suffix_append _ _).isInfix.trans hpre.isInfix))
    omega

theorem Apart.not_suffix {w t p r : List α} (h : Apart w t) (hp : p ≠ []) (hlt : p.length < w.length) :
    ¬ w <:+ r ++ t ++ p := by
  intro hocc
  have hpos := length_pos_iff.mpr hp
  rcases Nat.lt_or_ge w.length (t.length + p.length) with hin | hout
  · exact h.cross (overlap_of_reach_back hp hlt hin hocc)
  · have hsuf : t ++ p <:+ w :=
      suffix_of_suffix_length_le (by simp) hocc (by simpa using hout)
    have heq := congrArg List.length (h.inside ((prefix_append _ _).isInfix.trans hsuf.isInfix))
    omega

/-- A text in parts: single letters, and words that are kept together. -/
inductive Piece (β : Type) where
  | plain (b : β)
  | solid (t : List β)

namespace Piece

@[simp] def word : Piece β → List β
  | plain b => [b]
  | solid t => t

/-- What is done to the solid parts alone. -/
@[simp] def onSolid (f : List β → List β) : Piece β → Piece β
  | plain b => plain b
  | solid t => solid (f t)

end Piece

open Piece

def render (ps : List (Piece β)) : List β := (ps.map word).flatten

@[simp] theorem render_nil : render ([] : List (Piece β)) = [] := rfl

@[simp] theorem render_cons (p : Piece β) (ps : List (Piece β)) : render (p :: ps) = p.word ++ render ps := rfl

@[simp] theorem render_append (ps qs : List (Piece β)) : render (ps ++ qs) = render ps ++ render qs := by
  simp [render]

theorem map_render_onSolid_congr {f g : List β → List β} {key : β → α} {ps : List (Piece β)}
    (h : ∀ t, solid t ∈ ps → (f t).map key = (g t).map key) :
    (render (ps.map (onSolid f))).map key = (render (ps.map (onSolid g))).map key := by
  induction ps with
  | nil => rfl
  | cons p ps ih =>
    have hrest := ih fun t ht => h t (mem_cons_of_mem _ ht)
    cases p with
    | plain b => simp [hrest]
    | solid t => simp [hrest, h t (by simp)]

/-- The letters before the first solid part. -/
def lead : List (Piece β) → List β
  | plain b :: ps => b :: lead ps
  | _ => []

theorem lead_cases (ps : List (Piece β)) :
    render ps = lead ps ∨ ∃ t r, solid t ∈ ps ∧ render ps = lead ps ++ (t ++ r) := by
  induction ps with
  | nil => exact Or.inl rfl
  | cons p ps ih =>
    cases p with
    | solid t => exact Or.inr ⟨t, render ps, by simp, by simp [lead]⟩
    | plain b =>
      rcases ih with h | ⟨t, r, ht, h⟩
      · exact Or.inl (by simp [lead, h])
      · exact Or.inr ⟨t, r, by simp [ht], by simp [lead, h]⟩

theorem lead_onSolid (f : List β → List β) (ps : List (Piece β)) : lead (ps.map (onSolid f)) = lead ps := by
  induction ps with
  | nil => rfl
  | cons p ps ih =>
    cases p with
    | solid t => rfl
    | plain b => simp [lead, ih]

variable {key : β → α} {S : Set (List α)} {w : List α} {ps : List (Piece β)}

variable (key S) in
/-- No word of `S` is spelled by neighbouring letters. -/
def Complete : List (Piece β) → Prop
  | [] => True
  | plain b :: ps => (∀ w ∈ S, ¬ w <+: (b :: lead ps).map key) ∧ Complete ps
  | solid _ :: ps => Complete ps

theorem Complete.onSolid (f : List β → List β) (h : Complete key S ps) :
    Complete key S (ps.map (Piece.onSolid f)) := by
  induction ps with
  | nil => trivial
  | cons p ps ih =>
    cases p with
    | solid t => exact ih h
    | plain b => exact ⟨by simpa [lead_onSolid] using h.1, ih h.2⟩

theorem Complete.right {left right : List (Piece β)} (h : Complete key S (left ++ right)) :
    Complete key S right := by
  induction left with
  | nil => exact h
  | cons p left ih =>
    cases p with
    | plain b => exact ih h.2
    | solid t => exact ih h

/-- Where a single letter stands no word of `S` begins. -/
theorem Complete.not_start {b : β} (h : Complete key S (plain b :: ps)) (hw : w ∈ S)
    (hapart : ∀ t, solid t ∈ ps → Apart w (t.map key)) : ¬ w <+: (b :: render ps).map key := by
  intro hocc
  have hnot := h.1 w hw
  rcases lead_cases ps with hlead | ⟨t, r, ht, hlead⟩
  · rw [hlead] at hocc
    exact hnot hocc
  · have htext : (b :: render ps).map key = (b :: lead ps).map key ++ (t.map key ++ r.map key) := by
      simp [hlead]
    rw [htext] at hocc
    rcases Nat.lt_or_ge ((b :: lead ps).map key).length w.length with hlong | hshort
    · exact (hapart t ht).not_start (by simp) hlong hocc
    · exact hnot (prefix_of_prefix_length_le hocc (prefix_append _ _) hshort)

theorem Complete.cut (h : Complete key S ps) (hw : w ∈ S)
    (hapart : ∀ t, solid t ∈ ps → Apart w (t.map key)) : Cut key w (ps.map word) := by
  induction ps with
  | nil => trivial
  | cons p ps ih =>
    have hrest : ∀ t, solid t ∈ ps → Apart w (t.map key) := fun t ht => hapart t (mem_cons_of_mem _ ht)
    cases p with
    | plain b =>
      refine ⟨?_, ih h.2 hrest⟩
      intro j hj hocc
      obtain rfl : j = 0 := by simpa using hj
      exact absurd hocc (h.not_start hw hrest)
    | solid t =>
      refine ⟨?_, ih h hrest⟩
      intro j hj hocc
      have ht := hapart t (by simp)
      by_contra hlen
      rw [map_append, map_drop] at hocc
      rcases Nat.eq_zero_or_pos j with rfl | hpos
      · have hpre : t.map key <+: w :=
          prefix_of_prefix_length_le (by simp) hocc (by simp at hlen ⊢; omega)
        have heq := congrArg List.length (ht.inside hpre.isInfix)
        simp at heq hlen
        omega
      · refine ht.cross (overlap_of_cross hpos (by simpa using hj) ?_ hocc)
        simp at hlen ⊢
        omega

/-- A replacement works on the solid parts alone, each by itself. -/
theorem Complete.replaceAll_render [DecidableEq α] {new : List β} (h : Complete key S ps) (hw : w ∈ S)
    (hapart : ∀ t, solid t ∈ ps → Apart w (t.map key)) :
    replaceAll key w new (render ps) = render (ps.map (Piece.onSolid (replaceAll key w new))) := by
  induction ps with
  | nil => rfl
  | cons p ps ih =>
    have hrest : ∀ t, solid t ∈ ps → Apart w (t.map key) := fun t ht => hapart t (mem_cons_of_mem _ ht)
    cases p with
    | plain b =>
      change replaceAll key w new (b :: render ps) = _
      rw [replaceAll_cons_of_not (h.not_start hw hrest), ih h.2 hrest]
      rfl
    | solid t =>
      have hclosed : Closed key w t (render ps) := (h.cut hw hapart).1
      rw [render_cons, word, replaceAll_append hclosed, ih h hrest]
      rfl

/-- Every text falls into words of `S` and single letters. -/
theorem exists_pieces (hS : [] ∉ S) (text : List β) :
    ∃ ps, render ps = text ∧ Complete key S ps ∧ ∀ t, solid t ∈ ps → t.map key ∈ S := by
  induction hn : text.length using Nat.strong_induction_on generalizing text with
  | _ n ih =>
    by_cases hocc : ∃ v ∈ S, v <+: text.map key
    · obtain ⟨v, hv, hpre⟩ := hocc
      have hpos : 0 < v.length := length_pos_iff.mpr (ne_of_mem_of_not_mem hv hS)
      have hlen : v.length ≤ text.length := by simpa using hpre.length_le
      obtain ⟨ps, hps, hcomplete, hsolid⟩ := ih (text.drop v.length).length (by simp; omega) _ rfl
      have hword : (text.take v.length).map key = v := by
        rw [map_take, ← prefix_iff_eq_take.mp hpre]
      refine ⟨solid (text.take v.length) :: ps, by simp [hps], hcomplete, ?_⟩
      intro t ht
      rcases mem_cons.mp ht with heq | ht
      · cases heq
        rwa [hword]
      · exact hsolid t ht
    · cases text with
      | nil => exact ⟨[], rfl, trivial, by simp⟩
      | cons b text =>
        obtain ⟨ps, rfl, hcomplete, hsolid⟩ := ih text.length (by simp [← hn]) _ rfl
        refine ⟨plain b :: ps, rfl, ⟨?_, hcomplete⟩, ?_⟩
        · intro w hw hpre
          refine hocc ⟨w, hw, hpre.trans ?_⟩
          rcases lead_cases ps with h | ⟨t, r, -, h⟩ <;> simp [h]
        · simpa using hsolid

end Words
