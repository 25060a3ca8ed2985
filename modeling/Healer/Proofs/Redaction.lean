import Healer.Sanity.Redaction

/-! The known-value layer of `redact_line` redacts every line by every list of values from a set
exactly when the set is safe. For each way of being unsafe there is a line and a list, made of the
two values (or of the value and the marker) that meet. -/

namespace Healer

open Words List

/-- Every line is redacted by every list of values from `S`. -/
def RedactsAll (S : Set (List Char)) : Prop :=
  ∀ (line : List Char) (values : List (List Char)), (∀ v ∈ values, v ≠ [] → v ∈ S) → Redacts line values

theorem redactTraced_one {v : List Char} (hv : v ≠ []) (text : List Traced) :
    redactTraced text [v] = replaceAll Traced.char v insertedMarker text := by
  rw [redactTraced_cons, redactValue, if_neg hv]
  rfl

theorem redactTraced_two {v w : List Char} (hv : v ≠ []) (hw : w ≠ []) (text : List Traced) :
    redactTraced text [v, w] =
      replaceAll Traced.char w insertedMarker (replaceAll Traced.char v insertedMarker text) := by
  rw [redactTraced_cons, redactValue, if_neg hv, redactTraced_one hw]

theorem replaceAll_traceFrom_of_free {v x : List Char} {n : ℕ} {marker : List Traced} (h : ¬ v <:+: x) :
    replaceAll Traced.char v marker (traceFrom n x) = traceFrom n x :=
  replaceAll_of_not_infix (by simpa using h)

/-- A line that is all inside occurrences is gone. -/
theorem Redacts.gone {line : List Char} {values : List (List Char)} (h : Redacts line values)
    (hall : ∀ i < line.length, Inside line values i) : survivors (redactTraced (trace line) values) = [] := by
  rw [h.kept, filter_eq_nil_iff]
  intro i hi
  simpa using hall i (mem_range.mp hi)

theorem traceFrom_ne_nil {c : List Char} (hc : c ≠ []) (n : ℕ) : survivors (traceFrom n c) ≠ [] := by
  rw [survivors_traceFrom, Ne, List.range'_eq_nil_iff, length_eq_zero_iff]
  exact hc

variable {text : List Traced}

theorem not_infix_of_length_lt {v : List Char} (h : text.length < v.length) :
    ¬ v <:+: text.map Traced.char := by
  intro hi
  have := hi.length_le
  rw [length_map] at this
  omega

/-- Text of the marker. -/
def untraced (text : List Char) : List Traced := text.map fun c => ⟨c, none⟩

@[simp] theorem map_char_untraced (text : List Char) : (untraced text).map Traced.char = text := by
  rw [untraced, map_map]
  exact map_id text

@[simp] theorem survivors_untraced (text : List Char) : survivors (untraced text) = [] := by
  simp [survivors, untraced]

theorem insertedMarker_eq {z c : List Char} (h : redactedMarker = z ++ c) :
    insertedMarker = untraced z ++ untraced c := by
  rw [insertedMarker, h, map_append]
  rfl

/-- Where nothing survives, the first character has begun an occurrence and the last has ended one. -/
theorem prefix_of_gone {b : Traced} {i : ℕ} (hb : b.origin = some i) {w : List Char}
    (h : survivors (replaceAll Traced.char w insertedMarker (b :: text)) = []) :
    w <+: (b :: text).map Traced.char := by
  by_contra hnot
  rw [replaceAll_cons_of_not hnot, survivors, filterMap_cons_some hb] at h
  cases h

theorem suffix_of_gone {b : Traced} {i : ℕ} (hb : b.origin = some i) {w : List Char}
    (hw : w ≠ []) (h : survivors (replaceAll Traced.char w insertedMarker (text ++ [b])) = []) :
    w <:+ (text ++ [b]).map Traced.char := by
  by_contra hnot
  rw [replaceAll_concat_of_not hw hnot, survivors_append, append_eq_nil_iff] at h
  have hlast : survivors [b] = [i] := filterMap_cons_some hb
  rw [hlast] at h
  cases h.2

theorem exists_traceFrom_concat {c : List Char} (hc : c ≠ []) (n : ℕ) :
    ∃ text b i, traceFrom n c = text ++ [b] ∧ b.origin = some i := by
  rcases eq_nil_or_concat c with rfl | ⟨c, x, rfl⟩
  · exact absurd rfl hc
  · rw [concat_eq_append, traceFrom_append]
    exact ⟨_, ⟨x, some (n + c.length)⟩, _, rfl, rfl⟩

section Unsafe

variable {S : Set (List Char)} {v w : List Char}

/-- A value that overlaps itself, once listed: the second occurrence is cut. -/
theorem RedactsAll.self (hP : RedactsAll S) (hv : v ∈ S) (hvn : v ≠ []) : ¬ Overlap v v := by
  rintro ⟨a, z, c, ha, hz, hc, hva, hvc⟩
  have hline : v ++ c = a ++ (v ++ []) := by
    rw [append_nil]
    nth_rewrite 1 [hva]
    rw [hvc, append_assoc]
  have hgone := (hP (v ++ c) [v] (by simpa using fun _ => hv)).gone fun i hi => ?_
  · have hlen : (traceFrom (0 + v.length) c).length < v.length := by
      have := length_pos_iff.mpr hz
      rw [length_traceFrom, hvc, length_append]
      omega
    rw [redactTraced_one hvn, trace, traceFrom_append, replaceAll_append_of_eq hvn (map_char_traceFrom 0 v),
      replaceAll_of_not_infix (not_infix_of_length_lt hlen), survivors_append] at hgone
    exact traceFrom_ne_nil hc _ (append_eq_nil_iff.mp hgone).2
  · rcases Nat.lt_or_ge i v.length with hlt | hge
    · exact inside_solid (p := []) (q := c) (by simp) hvn rfl (by simp) (by simpa using hlt)
    · refine inside_solid (p := a) (q := []) (by simp) hvn hline ?_ ?_
      · have := congrArg List.length hva
        simp at this
        omega
      · simpa [hline] using hi

/-- A value listed twice, with the shorter words `p` and `q` about it: they stay, whatever the marker
between them makes of them. -/
theorem RedactsAll.twice (hP : RedactsAll S) (hw : w ∈ S) (hwn : w ≠ []) {p q : List Char}
    (hp : p.length < w.length) (hq : q.length < w.length) {x t y : List Traced}
    (htext : traceFrom 0 p ++ (insertedMarker ++ traceFrom (p.length + w.length) q) = x ++ (t ++ y))
    (ht : t.map Traced.char = w) (hx : survivors x = []) (hy : survivors y = []) : p = [] ∧ q = [] := by
  have hself := hP.self hw hwn
  have hkept := (hP (p ++ (w ++ q)) [w, w] (by simpa using fun _ => hw)).kept
  have hfirst : replaceAll Traced.char w insertedMarker (trace (p ++ (w ++ q))) =
      traceFrom 0 p ++ (insertedMarker ++ traceFrom (p.length + w.length) q) := by
    rw [trace, traceFrom_append, traceFrom_append, replaceAll_append_append hwn hself (map_char_traceFrom _ w),
      replaceAll_of_not_infix (not_infix_of_length_lt (by simpa using hp)),
      replaceAll_of_not_infix (not_infix_of_length_lt (by simpa using hq)), Nat.zero_add]
  have hnone : ∀ {u : List Traced}, survivors u = [] →
      survivors (replaceAll Traced.char w insertedMarker u) = [] :=
    fun {u} hu => sublist_nil.mp (hu ▸ survivors_replaceAll w u)
  rw [redactTraced_two hwn hwn, hfirst, htext, replaceAll_append_append hwn hself ht, survivors_append,
    survivors_append, hnone hx, hnone hy, survivors_insertedMarker] at hkept
  have hout : ∀ i < (p ++ (w ++ q)).length, p.length ≤ i ∧ i < p.length + w.length := by
    intro i hi
    have hin : Inside (p ++ (w ++ q)) [w, w] i := by
      simpa using filter_eq_nil_iff.mp hkept.symm i (mem_range.mpr hi)
    obtain ⟨u, hu, -, k, hk, hend, hocc⟩ := hin
    obtain rfl : u = w := by simpa using hu
    obtain rfl := sole_occurrence hself hp hq hocc
    omega
  have hpos := length_pos_iff.mpr hwn
  constructor
  · by_contra hne
    have := hout 0 (by simp; omega)
    have := length_pos_iff.mpr hne
    omega
  · by_contra hne
    have := hout (p.length + w.length) (by simpa using length_pos_iff.mpr hne)
    omega

/-- The marker a value leaves, next to the rest of a value that overlaps it. -/
theorem RedactsAll.marker (hP : RedactsAll S) (hw : w ∈ S) (hwn : w ≠ []) : Apart w redactedMarker := by
  constructor
  · rintro ⟨a, z, c, ha, hz, -, rfl, hM⟩
    have hlen := length_pos_iff.mpr hz
    refine ha (hP.twice hw hwn (p := a) (q := []) (x := []) (t := traceFrom 0 a ++ untraced z)
      (y := untraced c) ?_ ?_ ?_ (by simp) rfl (by simp)).1
    · simpa using hlen
    · exact length_pos_iff.mpr hwn
    · simp [insertedMarker_eq hM, traceFrom]
  · rintro ⟨a, z, c, -, hz, hc, hM, rfl⟩
    have hlen := length_pos_iff.mpr hz
    refine hc (hP.twice hw hwn (p := []) (q := c) (x := untraced a)
      (t := untraced z ++ traceFrom (0 + (z ++ c).length) c) (y := []) ?_ ?_ ?_ (by simp) (by simp) rfl).2
    · exact length_pos_iff.mpr hwn
    · simpa using hlen
    · simp [insertedMarker_eq hM, traceFrom]
  · rintro ⟨x, y, rfl⟩
    have hlen : 0 < redactedMarker.length := by decide
    obtain ⟨rfl, rfl⟩ := hP.twice hw hwn (p := x) (q := y) (x := [])
      (t := traceFrom 0 x ++ (insertedMarker ++ traceFrom (x.length + (x ++ redactedMarker ++ y).length) y))
      (y := []) (by simp; omega) (by simp; omega) (by simp) (by simp) rfl rfl
    simp

variable {x y : List Char}

theorem redactTraced_around (hvn : v ≠ []) (hself : ¬ Overlap v v) (hw : w = x ++ (v ++ y)) :
    redactTraced (trace w) [v, w] = replaceAll Traced.char w insertedMarker
      (replaceAll Traced.char v insertedMarker (traceFrom 0 x) ++ (insertedMarker ++
        replaceAll Traced.char v insertedMarker (traceFrom (0 + x.length + v.length) y))) := by
  have hwn : w ≠ [] := by simp [hw, hvn]
  rw [redactTraced_two hvn hwn, trace]
  nth_rewrite 2 [hw]
  rw [traceFrom_append, traceFrom_append, replaceAll_append_append hvn hself (map_char_traceFrom _ v)]

/-- What stands before the first `v` in `w` stays: `w` is not to be read across the marker. -/
theorem survives_first (hvn : v ≠ []) (hself : ¬ Overlap v v) (hM : Apart w redactedMarker)
    (hw : w = x ++ (v ++ y)) (hx : x ≠ []) (hfree : ¬ v <:+: x) :
    survivors (redactTraced (trace w) [v, w]) ≠ [] := by
  intro hgone
  have hpos := length_pos_iff.mpr hvn
  have hlen : x.length < w.length := by
    rw [hw]
    simp
    omega
  rw [redactTraced_around hvn hself hw, replaceAll_traceFrom_of_free hfree] at hgone
  obtain ⟨c, x, rfl⟩ := exists_cons_of_ne_nil hx
  rw [traceFrom, cons_append] at hgone
  have hocc := prefix_of_gone rfl hgone
  rw [← cons_append, map_append, map_append, map_char_insertedMarker] at hocc
  refine hM.not_start (by simp) ?_ hocc
  simpa using hlen

/-- What stands after the last `v` in `w` stays. -/
theorem survives_last (hvn : v ≠ []) (hself : ¬ Overlap v v) (hM : Apart w redactedMarker)
    (hw : w = x ++ (v ++ y)) (hy : y ≠ []) (hfree : ¬ v <:+: y) :
    survivors (redactTraced (trace w) [v, w]) ≠ [] := by
  intro hgone
  have hpos := length_pos_iff.mpr hvn
  have hlen : y.length < w.length := by
    rw [hw]
    simp
    omega
  have hwn : w ≠ [] := length_pos_iff.mp (by omega)
  rw [redactTraced_around hvn hself hw, replaceAll_traceFrom_of_free hfree] at hgone
  obtain ⟨text, b, i, hlast, hb⟩ := exists_traceFrom_concat hy (0 + x.length + v.length)
  have hchars : (text ++ [b]).map Traced.char = y := by rw [← hlast, map_char_traceFrom]
  rw [hlast, ← append_assoc, ← append_assoc] at hgone
  have hocc := suffix_of_gone hb hwn hgone
  rw [append_assoc, map_append, hchars, map_append, map_char_insertedMarker] at hocc
  exact hM.not_suffix hy hlen hocc

/-- A value inside another, listed before it: what it leaves of the other no longer reads as it. -/
theorem RedactsAll.inside (hP : RedactsAll S) (hv : v ∈ S) (hw : w ∈ S) (hvn : v ≠ []) (hwn : w ≠ [])
    (hi : v <:+: w) : v = w := by
  by_contra hne
  have hself := hP.self hv hvn
  have hM := hP.marker hw hwn
  have hgone := (hP w [v, w] (by simpa using ⟨fun _ => hv, fun _ => hw⟩)).gone fun i hi =>
    inside_solid (p := []) (q := []) (v := w) (by simp) hwn (by simp) (Nat.zero_le _) (by simpa using hi)
  obtain ⟨x, y, hxy⟩ := hi
  rw [append_assoc] at hxy
  by_cases hpre : v <+: w
  · by_cases hsuf : v <:+ w
    · obtain ⟨c, hc⟩ := hpre
      obtain ⟨a, ha⟩ := hsuf
      refine hP.self hw hwn ⟨a, v, c, ?_, hvn, ?_, ha.symm, hc.symm⟩
      · rintro rfl
        exact hne ha
      · rintro rfl
        exact hne (by simpa using hc)
    · obtain ⟨x', y', heq, hfree⟩ := exists_last (x := x) (y := y) hvn
      rw [hxy] at heq
      refine survives_last hvn hself hM heq ?_ hfree hgone
      rintro rfl
      exact hsuf ⟨x', by simpa using heq.symm⟩
  · obtain ⟨x', y', heq, hfree⟩ := exists_first (x := x) (y := y) hvn
    rw [hxy] at heq
    refine survives_first hvn hself hM heq ?_ hfree hgone
    rintro rfl
    exact hpre ⟨y', heq.symm⟩

/-- Two values that overlap: once the first is replaced, the rest of the second is left over. -/
theorem RedactsAll.overlap (hP : RedactsAll S) (hv : v ∈ S) (hw : w ∈ S) (hvn : v ≠ []) (hwn : w ≠ []) :
    ¬ Overlap v w := by
  by_cases hvw : v = w
  · subst hvw
    exact hP.self hv hvn
  · rintro ⟨a, z, c, -, hz, hc, hva, hwc⟩
    have hline : v ++ c = a ++ (w ++ []) := by rw [hva, hwc, append_nil, append_assoc]
    have hlen := congrArg List.length hva
    have hlenw := congrArg List.length hwc
    rw [length_append] at hlen hlenw
    have hgone := (hP (v ++ c) [v, w] (by simpa using ⟨fun _ => hv, fun _ => hw⟩)).gone fun i hi => ?_
    · have hfree : ¬ v <:+: c := fun hi =>
        hvw (hP.inside hv hw hvn hwn (hi.trans (hwc ▸ suffix_append z c).isInfix))
      rw [redactTraced_two hvn hwn, trace, traceFrom_append, replaceAll_append_of_eq hvn (map_char_traceFrom 0 v),
        replaceAll_traceFrom_of_free hfree] at hgone
      obtain ⟨text, b, i, hlast, hb⟩ := exists_traceFrom_concat hc (0 + v.length)
      have hchars : (text ++ [b]).map Traced.char = c := by rw [← hlast, map_char_traceFrom]
      rw [hlast, ← append_assoc] at hgone
      have hocc := suffix_of_gone hb hwn hgone
      rw [append_assoc, map_append, hchars, map_char_insertedMarker] at hocc
      have := length_pos_iff.mpr hz
      exact (hP.marker hw hwn).not_suffix (r := []) hc (by omega) hocc
    · rcases Nat.lt_or_ge i v.length with hlt | hge
      · exact inside_solid (p := []) (q := c) (v := v) (by simp) hvn rfl (by simp) (by simpa using hlt)
      · refine inside_solid (p := a) (q := []) (v := w) (by simp) hwn hline (by omega) ?_
        simpa [hline] using hi

end Unsafe

theorem Merged.length_mod {x y : List Char} (h : Merged x y) : x.length % 10 = y.length % 10 := by
  induction h with
  | rel x y h =>
    obtain ⟨p, q, rfl, rfl⟩ := h
    simp [redactedMarker]
    omega
  | refl x => rfl
  | symm x y _ ih => exact ih.symm
  | trans x y z _ _ ih₁ ih₂ => exact ih₁.trans ih₂

/-- Replacing a part of the marker changes its length, also when markers are merged. -/
theorem length_replace_marker {v : List Char} (hvn : v ≠ []) (hin : v <:+: redactedMarker)
    (hnot : v ≠ redactedMarker) : (replaceAll id v redactedMarker redactedMarker).length % 10 ≠ 0 := by
  obtain ⟨t, hpre, hsuf⟩ := infix_iff_prefix_suffix.mp hin
  have hall : ∀ t ∈ redactedMarker.tails, ∀ v ∈ t.inits, v ≠ [] → v ≠ redactedMarker →
      (replaceAll id v redactedMarker redactedMarker).length % 10 ≠ 0 := by decide +kernel
  exact hall t (mem_tails _ _ |>.mpr hsuf) v (mem_inits _ _ |>.mpr hpre) hvn hnot

theorem RedactsAll.alone {S : Set (List Char)} {v w : List Char} (hP : RedactsAll S) (hv : v ∈ S) (hvn : v ≠ [])
    (hin : v <:+: redactedMarker) (hnot : v ≠ redactedMarker) (hw : w ∈ S) (hwn : w ≠ []) : w = v := by
  by_contra hne
  have horder := (hP w [w, v] (by simpa using ⟨fun _ => hw, fun _ => hv⟩)).order [v, w] (List.Perm.swap _ _ _)
  have hfree : ¬ v <:+: w := fun hi => hne (hP.inside hv hw hvn hwn hi).symm
  rw [redactKnown_cons, if_neg hvn, replaceAll_of_not_infix (by simpa using hfree), redactKnown_cons, if_neg hwn,
    redactKnown_cons, if_neg hwn, replaceAll_of_eq hwn (map_id w), redactKnown_cons, if_neg hvn] at horder
  exact length_replace_marker hvn hin hnot horder.length_mod.symm

/-- The known-value layer keeps its promise for every line and every list of values from a set exactly
when the set is safe. -/
theorem redact_line_hides_iff (S : Set (List Char)) : RedactsAll S ↔ Safe S := by
  constructor
  · intro hP
    exact ⟨fun v hv w hw hvn hwn => hP.overlap hv hw hvn hwn, fun v hv w hw hvn hwn => hP.inside hv hw hvn hwn,
      fun v hv hvn => hP.marker hv hvn, fun v hv hvn hin hnot w hw hwn => hP.alone hv hvn hin hnot hw hwn⟩
  · intro hS line values hvalues
    exact hS.redacts line hvalues

/-- A value that begins another, listed before it, leaves the other's end in the line. -/
theorem redact_line_shows_ending :
    redactKnown ['a', 'b', 'c'] [['a', 'b'], ['a', 'b', 'c']] = redactedMarker ++ ['c'] ∧
      ¬ Redacts ['a', 'b', 'c'] [['a', 'b'], ['a', 'b', 'c']] := by
  refine ⟨by decide +kernel, fun h => ?_⟩
  have hkept := h.kept
  revert hkept
  decide +kernel

end Healer
