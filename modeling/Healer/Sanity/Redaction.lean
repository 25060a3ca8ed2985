import Healer.Spec.LogRedaction

/-! What of a line survives the known-value layer. Each character is followed through the
replacements by the place it came from; a marker's characters come from nowhere. -/

namespace Healer

open Words List

structure Traced where
  char : Char
  origin : Option ℕ
  deriving DecidableEq

def traceFrom : ℕ → List Char → List Traced
  | _, [] => []
  | n, c :: line => ⟨c, some n⟩ :: traceFrom (n + 1) line

def trace (line : List Char) : List Traced := traceFrom 0 line

def insertedMarker : List Traced := redactedMarker.map fun c => ⟨c, none⟩

def redactValue (text : List Traced) (value : List Char) : List Traced :=
  if value = [] then text else replaceAll Traced.char value insertedMarker text

/-- `redactKnown` on characters that carry their places. -/
def redactTraced (text : List Traced) (values : List (List Char)) : List Traced :=
  values.foldl redactValue text

def survivors (text : List Traced) : List ℕ := text.filterMap Traced.origin

/-- The character at `i` lies inside an occurrence of a listed value. -/
def Inside (line : List Char) (values : List (List Char)) (i : ℕ) : Prop :=
  ∃ v ∈ values, v ≠ [] ∧ ∃ k, k < i + 1 ∧ i < k + v.length ∧ v <+: line.drop k

instance (line : List Char) (values : List (List Char)) (i : ℕ) : Decidable (Inside line values i) :=
  inferInstanceAs (Decidable (∃ v ∈ values, v ≠ [] ∧ ∃ k, k < i + 1 ∧ i < k + v.length ∧ v <+: line.drop k))

/-- Two texts that differ by adjacent markers merged into one. -/
def Merged : List Char → List Char → Prop :=
  Relation.EqvGen fun x y => ∃ p q, x = p ++ redactedMarker ++ redactedMarker ++ q ∧ y = p ++ redactedMarker ++ q

/-- The line shows of the values nothing, and all the rest; the order of the values is of no
account. -/
structure Redacts (line : List Char) (values : List (List Char)) : Prop where
  kept : survivors (redactTraced (trace line) values) =
    (List.range line.length).filter fun i => ¬ Inside line values i
  order : ∀ other, other.Perm values → Merged (redactKnown line other) (redactKnown line values)

/-- Values that can be replaced one after another: no two of them overlap or are one inside the
other, none does so with the marker, and one that is found in the marker is alone. -/
structure Safe (S : Set (List Char)) : Prop where
  overlap : ∀ v ∈ S, ∀ w ∈ S, v ≠ [] → w ≠ [] → ¬ Overlap v w
  inside : ∀ v ∈ S, ∀ w ∈ S, v ≠ [] → w ≠ [] → v <:+: w → v = w
  marker : ∀ v ∈ S, v ≠ [] → Apart v redactedMarker
  alone : ∀ v ∈ S, v ≠ [] → v <:+: redactedMarker → v ≠ redactedMarker → ∀ w ∈ S, w ≠ [] → w = v

/-! The traced text is the text. -/

@[simp] theorem map_char_traceFrom (n : ℕ) (line : List Char) : (traceFrom n line).map Traced.char = line := by
  induction line generalizing n with
  | nil => rfl
  | cons c line ih => simp [traceFrom, ih]

@[simp] theorem map_char_trace (line : List Char) : (trace line).map Traced.char = line :=
  map_char_traceFrom 0 line

@[simp] theorem map_char_insertedMarker : insertedMarker.map Traced.char = redactedMarker := rfl

@[simp] theorem length_traceFrom (n : ℕ) (line : List Char) : (traceFrom n line).length = line.length := by
  have h := congrArg List.length (map_char_traceFrom n line)
  rwa [length_map] at h

theorem traceFrom_append (n : ℕ) (p q : List Char) :
    traceFrom n (p ++ q) = traceFrom n p ++ traceFrom (n + p.length) q := by
  induction p generalizing n with
  | nil => simp [traceFrom]
  | cons c p ih => simp [traceFrom, ih, Nat.add_assoc, Nat.add_comm 1]

theorem map_char_redactTraced (text : List Traced) (values : List (List Char)) :
    (redactTraced text values).map Traced.char = redactKnown (text.map Traced.char) values := by
  induction values generalizing text with
  | nil => rfl
  | cons v values ih =>
    rw [redactTraced, foldl_cons, ← redactTraced, ih, redactKnown, redactKnown, foldl_cons]
    congr 1
    rw [redactValue]
    split
    · rfl
    · rw [map_replaceAll, map_char_insertedMarker]

@[simp] theorem survivors_append (p q : List Traced) : survivors (p ++ q) = survivors p ++ survivors q :=
  filterMap_append

@[simp] theorem survivors_insertedMarker : survivors insertedMarker = [] := rfl

theorem survivors_traceFrom (n : ℕ) (line : List Char) :
    survivors (traceFrom n line) = List.range' n line.length := by
  induction line generalizing n with
  | nil => rfl
  | cons c line ih =>
    have hcons : survivors (traceFrom n (c :: line)) = n :: survivors (traceFrom (n + 1) line) := rfl
    rw [hcons, ih, length_cons, List.range'_succ]

/-- Nothing that is gone comes back. -/
theorem survivors_replaceAll (value : List Char) (text : List Traced) :
    (survivors (replaceAll Traced.char value insertedMarker text)).Sublist (survivors text) := by
  suffices h : ∀ k, (survivors (replaceFrom Traced.char value insertedMarker k text)).Sublist (survivors text) from h 0
  induction text with
  | nil => simp
  | cons b text ih =>
    have hcons : (survivors text).Sublist (survivors (b :: text)) := (sublist_cons_self b text).filterMap _
    intro k
    cases k with
    | succ k => exact (ih k).trans hcons
    | zero =>
      rw [replaceFrom]
      split
      · rw [survivors_append, survivors_insertedMarker, nil_append]
        exact (ih _).trans hcons
      · rw [survivors, survivors, filterMap_cons, filterMap_cons]
        split
        · exact ih 0
        · exact (ih 0).cons_cons _

/-! Safe values: the line falls into the occurrences and the rest, and stays so. -/

theorem redactTraced_cons (text : List Traced) (v : List Char) (values : List (List Char)) :
    redactTraced text (v :: values) = redactTraced (redactValue text v) values := rfl

/-- Texts that the solid parts go through: no value of `V` reaches across their ends. -/
structure Steady (V T : Set (List Char)) : Prop where
  apart : ∀ w ∈ V, ∀ t ∈ T, Apart w t
  step : ∀ w ∈ V, ∀ t ∈ T, replaceAll id w redactedMarker t ∈ T

variable {values : List (List Char)} {v : List Char}

theorem Steady.redactTraced_render {V T : Set (List Char)} (hT : Steady V T)
    (hvalues : ∀ v ∈ values, v ≠ [] → v ∈ V) {ps : List (Piece Traced)} (hps : Complete Traced.char V ps)
    (hsolid : ∀ t, Piece.solid t ∈ ps → t.map Traced.char ∈ T) :
    redactTraced (render ps) values = render (ps.map (Piece.onSolid (redactTraced · values))) := by
  induction values generalizing ps with
  | nil =>
    have hid : Piece.onSolid (redactTraced · []) = id := by
      funext p
      cases p <;> rfl
    rw [hid, map_id]
    rfl
  | cons v values ih =>
    have hrest : ∀ w ∈ values, w ≠ [] → w ∈ V := fun w hw => hvalues w (mem_cons_of_mem _ hw)
    rw [redactTraced_cons]
    by_cases hv : v = []
    · have hskip : ∀ t, redactTraced t (v :: values) = redactTraced t values := by
        intro t
        rw [redactTraced_cons, redactValue, if_pos hv]
      rw [redactValue, if_pos hv, ih hrest hps hsolid]
      simp only [hskip]
    · have hmem := hvalues v (by simp) hv
      rw [redactValue, if_neg hv, hps.replaceAll_render hmem fun t ht => hT.apart v hmem _ (hsolid t ht),
        ih hrest (hps.onSolid _)]
      · rw [map_map]
        congr 2
        funext p
        cases p with
        | plain b => rfl
        | solid t => simp [redactTraced_cons, redactValue, hv]
      · intro t ht
        obtain ⟨p, hp, heq⟩ := mem_map.mp ht
        cases p with
        | plain b => cases heq
        | solid u =>
          cases heq
          rw [map_replaceAll, map_char_insertedMarker]
          exact hT.step v hmem _ (hsolid u hp)

theorem survivors_eq_nil_of_redact {text : List Traced} (h : survivors text = []) (values : List (List Char)) :
    survivors (redactTraced text values) = [] := by
  induction values generalizing text with
  | nil => exact h
  | cons v values ih =>
    refine ih ?_
    rw [redactValue]
    split
    · exact h
    · exact sublist_nil.mp (h ▸ survivors_replaceAll v text)

/-- An occurrence of a listed value, taken by itself, is gone in the end. -/
theorem survivors_value (hv : v ≠ []) (hmem : v ∈ values)
    (hinside : ∀ w ∈ values, w ≠ [] → w <:+: v → w = v) {t : List Traced} (ht : t.map Traced.char = v) :
    survivors (redactTraced t values) = [] := by
  induction values with
  | nil => cases hmem
  | cons w values ih =>
    rw [redactTraced_cons, redactValue]
    by_cases hwv : w = v
    · subst hwv
      rw [if_neg hv, replaceAll_of_eq hv ht]
      exact survivors_eq_nil_of_redact rfl values
    · have hrest := ih ((mem_cons.mp hmem).resolve_left (Ne.symm hwv))
        fun u hu => hinside u (mem_cons_of_mem _ hu)
      by_cases hw : w = []
      · rwa [if_pos hw]
      · rw [if_neg hw, replaceAll_of_not_infix]
        · exact hrest
        · rw [ht]
          exact fun hi => hwv (hinside w (by simp) hw hi)

section Kept

variable {V : Set (List Char)} {line : List Char} {left right : List (Piece Traced)} {p q : List Char}

/-- A single letter of a complete division lies in no occurrence. -/
theorem not_inside_plain (hV : ∀ v ∈ values, v ≠ [] → v ∈ V) {b : Traced}
    (hps : Complete Traced.char V (left ++ .plain b :: right))
    (hapart : ∀ w ∈ V, ∀ t, Piece.solid t ∈ left ++ .plain b :: right → Apart w (t.map Traced.char))
    (hline : (render (left ++ .plain b :: right)).map Traced.char = line) :
    ¬ Inside line values (render left).length := by
  rintro ⟨w, hmem, hw, k, hk, hend, hocc⟩
  have hwV := hV w hmem hw
  rw [← hline, ← map_drop] at hocc
  rcases Nat.lt_or_ge k (render left).length with hlt | hge
  · have hcut := hps.cut hwV (hapart w hwV)
    rw [map_append] at hcut
    have hin : k + w.length ≤ (render left).length := hcut.within hlt (by rwa [← map_append])
    omega
  · obtain rfl : k = (render left).length := by omega
    rw [render_append, drop_left] at hocc
    refine hps.right.not_start hwV (fun t ht => hapart w hwV t ?_) hocc
    simp [ht]

theorem inside_solid (hmem : v ∈ values) (hv : v ≠ [])
    (hline : line = p ++ (v ++ q)) {i : ℕ} (hlo : p.length ≤ i) (hhi : i < p.length + v.length) :
    Inside line values i := by
  refine ⟨v, hmem, hv, p.length, by omega, hhi, ?_⟩
  rw [hline, drop_left]
  exact prefix_append _ _

/-- What the occurrences are removed from is what lies outside them. -/
theorem survivors_render (hV : ∀ v, v ∈ V ↔ v ∈ values ∧ v ≠ []) {f : List Traced → List Traced}
    (hps : Complete Traced.char V (left ++ right))
    (hapart : ∀ w ∈ V, ∀ t, Piece.solid t ∈ left ++ right → Apart w (t.map Traced.char))
    (hsolid : ∀ t, Piece.solid t ∈ right → t.map Traced.char ∈ V)
    (hf : ∀ t, Piece.solid t ∈ right → survivors (f t) = [])
    (hline : (render (left ++ right)).map Traced.char = line) {rest : List Char}
    (hrest : render right = traceFrom (render left).length rest) :
    survivors (render (right.map (Piece.onSolid f))) =
      (List.range' (render left).length rest.length).filter fun i => ¬ Inside line values i := by
  induction right generalizing left rest with
  | nil =>
    obtain rfl : rest = [] := by simpa using congrArg List.length hrest.symm
    rfl
  | cons p right ih =>
    have happ : left ++ p :: right = (left ++ [p]) ++ right := by simp
    have hnext := fun rest' => @ih (left ++ [p]) (happ ▸ hps) (happ ▸ hapart)
      (fun t ht => hsolid t (mem_cons_of_mem _ ht)) (fun t ht => hf t (mem_cons_of_mem _ ht))
      (happ ▸ hline) rest'
    cases p with
    | plain b =>
      cases rest with
      | nil => simp [traceFrom] at hrest
      | cons c rest =>
        rw [traceFrom, render_cons, Piece.word, singleton_append, List.cons.injEq] at hrest
        obtain ⟨rfl, hrest⟩ := hrest
        have hout := not_inside_plain (fun v hv hne => (hV v).mpr ⟨hv, hne⟩) hps hapart hline
        have hlen : (render (left ++ [Piece.plain ⟨c, some (render left).length⟩])).length =
            (render left).length + 1 := by simp
        have htail := hnext rest (by rw [hlen]; exact hrest)
        rw [hlen] at htail
        rw [length_cons, List.range'_succ, filter_cons_of_pos (by simpa using hout), ← htail]
        rfl
    | solid t =>
      obtain ⟨hmem, hne⟩ := (hV _).mp (hsolid t (by simp))
      have hlen : t.length ≤ rest.length := by
        have h := congrArg List.length hrest
        simp at h
        omega
      rw [← take_append_drop t.length rest, traceFrom_append, render_cons] at hrest
      obtain ⟨-, hrest⟩ := append_inj hrest (by simp [hlen])
      have hcovered : ∀ i ∈ List.range' (render left).length t.length, Inside line values i := by
        intro i hi
        rw [mem_range'_1] at hi
        refine inside_solid (p := (render left).map Traced.char) (q := (render right).map Traced.char) hmem hne ?_
          (by simpa using hi.1) (by simpa using hi.2)
        simp [← hline]
      have hend : (render (left ++ [Piece.solid t])).length = (render left).length + t.length := by simp
      have htail := hnext (rest.drop t.length) (by
        rw [hend, hrest]
        simp [hlen])
      have hsplit : List.range' (render left).length rest.length =
          List.range' (render left).length t.length ++
            List.range' ((render left).length + t.length) (rest.length - t.length) := by
        rw [List.range'_append_1]
        congr 1
        omega
      rw [hend, length_drop] at htail
      rw [hsplit, filter_append, filter_eq_nil_iff.mpr (by simpa using hcovered), nil_append,
        ← htail, map_cons, render_cons, survivors_append, Piece.onSolid, Piece.word, hf t (by simp),
        nil_append]

end Kept

/-! The texts a solid part goes through. -/

theorem Safe.mono {S V : Set (List Char)} (hS : Safe S) (hV : V ⊆ S) : Safe V where
  overlap v hv w hw := hS.overlap v (hV hv) w (hV hw)
  inside v hv w hw := hS.inside v (hV hv) w (hV hw)
  marker v hv := hS.marker v (hV hv)
  alone v hv h1 h2 h3 w hw := hS.alone v (hV hv) h1 h2 h3 w (hV hw)

section Family

variable {V : Set (List Char)}

theorem Safe.apart (hV : Safe V) {v w : List Char} (hv : v ∈ V) (hw : w ∈ V) (hvn : v ≠ []) (hwn : w ≠ []) :
    Apart w v :=
  ⟨hV.overlap w hw v hv hwn hvn, hV.overlap v hv w hw hvn hwn, hV.inside v hv w hw hvn hwn⟩

theorem Safe.replace_value (hV : Safe V) {v w : List Char} (hv : v ∈ V) (hw : w ∈ V) (hvn : v ≠ [])
    (hwn : w ≠ []) : replaceAll id w redactedMarker v = if w = v then redactedMarker else v := by
  split
  next h => exact replaceAll_of_eq hwn (by simp [h])
  next h =>
    refine replaceAll_of_not_infix fun hi => h (hV.inside w hw v hv hwn hvn ?_)
    simpa using hi

theorem replace_marker {w : List Char} (hwn : w ≠ []) (h : w <:+: redactedMarker → w = redactedMarker) :
    replaceAll id w redactedMarker redactedMarker = redactedMarker := by
  by_cases hi : w <:+: redactedMarker
  · exact replaceAll_of_eq hwn (by simp [h hi])
  · exact replaceAll_of_not_infix (by simpa using hi)

/-- When no value is found in the marker, the marker stays as it is. -/
theorem Safe.steady_marker (hV : Safe V) (hne : [] ∉ V)
    (hout : ∀ w ∈ V, w <:+: redactedMarker → w = redactedMarker) :
    Steady V (insert redactedMarker V) := by
  have hn : ∀ {v}, v ∈ V → v ≠ [] := fun hv => ne_of_mem_of_not_mem hv hne
  constructor
  · rintro w hw t (rfl | ht)
    · exact hV.marker w hw (hn hw)
    · exact hV.apart ht hw (hn ht) (hn hw)
  · rintro w hw t (rfl | ht)
    · rw [replace_marker (hn hw) (hout w hw)]
      exact Set.mem_insert _ _
    · rw [hV.replace_value ht hw (hn ht) (hn hw)]
      split
      · exact Set.mem_insert _ _
      · exact Set.mem_insert_of_mem _ ht

/-! A value found in the marker: it is replaced inside the markers again and again, between their
brackets. -/

theorem opening_first {p q : List Char} (h : redactedMarker = p ++ '[' :: q) : p = [] := by
  cases p with
  | nil => rfl
  | cons c p =>
    have htail : '[' ∈ redactedMarker.tail := by simp [h]
    exact absurd htail (by decide)

theorem closing_last {p q : List Char} (h : redactedMarker = p ++ ']' :: q) : q = [] := by
  rcases eq_nil_or_concat q with rfl | ⟨q, c, rfl⟩
  · rfl
  · have hlast : ']' ∈ redactedMarker.dropLast := by
      rw [h, concat_eq_append, ← cons_append, ← append_assoc, dropLast_concat]
      simp
    exact absurd hlast (by decide)

def Bracketed (b : List Char) : Prop := b.head? = some '[' ∧ b.getLast? = some ']'

theorem apart_bracketed {v b : List Char} (hv : v <:+: redactedMarker) (hb : Bracketed b) : Apart v b := by
  obtain ⟨s, t, hst⟩ := hv
  constructor
  · rintro ⟨a, z, c, ha, hz, -, rfl, rfl⟩
    obtain ⟨x, z, rfl⟩ := exists_cons_of_ne_nil hz
    obtain rfl : x = '[' := by simpa using hb.1
    have hnil := opening_first (p := s ++ a) (q := z ++ t) (by simp [← hst])
    exact ha (append_eq_nil_iff.mp hnil).2
  · rintro ⟨a, z, c, -, hz, hc, rfl, rfl⟩
    rcases eq_nil_or_concat z with rfl | ⟨z, x, rfl⟩
    · exact hz rfl
    · obtain rfl : x = ']' := by simpa [concat_eq_append] using hb.2
      have hnil := closing_last (p := s ++ z) (q := c ++ t) (by simp [← hst])
      exact hc (append_eq_nil_iff.mp hnil).1
  · rintro ⟨x, y, rfl⟩
    obtain ⟨m, rfl⟩ : ∃ m, b = '[' :: m := List.head?_eq_some_iff.mp hb.1
    obtain ⟨n, hn⟩ : ∃ n, '[' :: m = n ++ [']'] := List.getLast?_eq_some_iff.mp hb.2
    have hx := opening_first (p := s ++ x) (q := m ++ y ++ t) (by simp [← hst])
    have hy := closing_last (p := s ++ x ++ n) (q := y ++ t) (by rw [← hst, hn]; simp)
    simp [(append_eq_nil_iff.mp hx).2, (append_eq_nil_iff.mp hy).1]

theorem Bracketed.replace {v b : List Char} (hvn : v ≠ []) (hself : ¬ Overlap v v) (hb : Bracketed b) :
    Bracketed (replaceAll id v redactedMarker b) := by
  constructor
  · obtain ⟨m, rfl⟩ : ∃ m, b = '[' :: m := List.head?_eq_some_iff.mp hb.1
    by_cases hocc : v <+: '[' :: m
    · obtain ⟨r, hr⟩ := hocc
      rw [← hr, replaceAll_append_of_eq hvn (map_id v)]
      rfl
    · rw [replaceAll_cons_of_not (by simpa using hocc)]
      rfl
  · obtain ⟨n, rfl⟩ : ∃ n, b = n ++ [']'] := List.getLast?_eq_some_iff.mp hb.2
    by_cases hocc : v <:+ n ++ [']']
    · obtain ⟨r, hr⟩ := hocc
      have hrep : replaceAll id v redactedMarker (r ++ (v ++ [])) =
          replaceAll id v redactedMarker r ++ (redactedMarker ++ replaceAll id v redactedMarker []) :=
        replaceAll_append_append hvn hself (map_id v)
      rw [append_nil, hr, replaceAll_nil, append_nil] at hrep
      rw [hrep, List.getLast?_append]
      rfl
    · rw [replaceAll_concat_of_not hvn (by simpa using hocc)]
      simp

theorem Safe.steady_brackets (hV : Safe V) (hne : [] ∉ V) (hv : v ∈ V)
    (hin : v <:+: redactedMarker) (hnot : v ≠ redactedMarker) :
    Steady V (insert v {b | Bracketed b}) := by
  have hvn : v ≠ [] := ne_of_mem_of_not_mem hv hne
  have hone : ∀ w ∈ V, w = v := fun w hw => hV.alone v hv hvn hin hnot w hw (ne_of_mem_of_not_mem hw hne)
  constructor
  · intro w hw t ht
    obtain rfl := hone w hw
    rcases ht with rfl | ht
    · exact hV.apart hv hv hvn hvn
    · exact apart_bracketed hin ht
  · intro w hw t ht
    obtain rfl := hone w hw
    rcases ht with rfl | ht
    · rw [hV.replace_value hv hv hvn hvn, if_pos rfl]
      exact Set.mem_insert_of_mem _ ⟨rfl, rfl⟩
    · exact Set.mem_insert_of_mem _ (Bracketed.replace hvn (hV.overlap w hv w hv hvn hvn) ht)

theorem Safe.exists_steady (hV : Safe V) (hne : [] ∉ V) : ∃ T, V ⊆ T ∧ Steady V T := by
  by_cases hin : ∃ v ∈ V, v <:+: redactedMarker ∧ v ≠ redactedMarker
  · obtain ⟨v, hv, hfactor, hnot⟩ := hin
    refine ⟨_, ?_, hV.steady_brackets hne hv hfactor hnot⟩
    intro w hw
    exact Or.inl (hV.alone v hv (ne_of_mem_of_not_mem hv hne) hfactor hnot w hw (ne_of_mem_of_not_mem hw hne))
  · push Not at hin
    exact ⟨_, Set.subset_insert _ _, hV.steady_marker hne hin⟩

end Family

/-! Safe values are redacted. -/

theorem redactKnown_cons (line v : List Char) (values : List (List Char)) :
    redactKnown line (v :: values) =
      redactKnown (if v = [] then line else replaceAll id v redactedMarker line) values := rfl

theorem redactKnown_marker
    (hout : ∀ w ∈ values, w ≠ [] → w <:+: redactedMarker → w = redactedMarker) :
    redactKnown redactedMarker values = redactedMarker := by
  induction values with
  | nil => rfl
  | cons w values ih =>
    rw [redactKnown_cons]
    split
    · exact ih fun u hu => hout u (mem_cons_of_mem _ hu)
    next hw =>
      rw [replace_marker hw (hout w (by simp) hw)]
      exact ih fun u hu => hout u (mem_cons_of_mem _ hu)

/-- A value by itself becomes one marker. -/
theorem redactKnown_value {V : Set (List Char)} (hV : Safe V)
    (hvalues : ∀ v ∈ values, v ≠ [] → v ∈ V)
    (hout : ∀ w ∈ values, w ≠ [] → w <:+: redactedMarker → w = redactedMarker)
    (hmem : v ∈ values) (hvn : v ≠ []) : redactKnown v values = redactedMarker := by
  have hv := hvalues v hmem hvn
  induction values with
  | nil => cases hmem
  | cons w values ih =>
    have hrest : ∀ u ∈ values, u ≠ [] → u <:+: redactedMarker → u = redactedMarker :=
      fun u hu => hout u (mem_cons_of_mem _ hu)
    rw [redactKnown_cons]
    by_cases hwv : w = v
    · subst hwv
      rw [if_neg hvn, replaceAll_of_eq hvn (map_id w)]
      exact redactKnown_marker hrest
    · have htail := ih (fun u hu => hvalues u (mem_cons_of_mem _ hu)) hrest
        ((mem_cons.mp hmem).resolve_left (Ne.symm hwv))
      split
      · exact htail
      next hw =>
        rw [hV.replace_value hv (hvalues w (by simp) hw) hvn hw, if_neg hwv]
        exact htail

theorem redactKnown_filter (line : List Char) (values : List (List Char)) :
    redactKnown line values = redactKnown line (values.filter fun v => v ≠ []) := by
  induction values generalizing line with
  | nil => rfl
  | cons v values ih =>
    by_cases hv : v = []
    · rw [redactKnown_cons, if_pos hv, ih, filter_cons_of_neg (by simpa using hv)]
    · rw [filter_cons_of_pos (by simpa using hv), redactKnown_cons, redactKnown_cons, if_neg hv, ih]

/-- With one value, only how often it is listed matters. -/
theorem redactKnown_perm_of_one {values other : List (List Char)}
    (hone : ∀ w ∈ values, w ≠ [] → w = v) (hperm : other.Perm values) (line : List Char) :
    redactKnown line other = redactKnown line values := by
  have hfilter : (values.filter fun w => w ≠ []) = List.replicate (values.filter fun w => w ≠ []).length v := by
    rw [eq_replicate_iff]
    refine ⟨rfl, fun w hw => ?_⟩
    rw [mem_filter] at hw
    exact hone w hw.1 (by simpa using hw.2)
  have hp := hperm.filter fun w => decide (w ≠ [])
  rw [hfilter, perm_replicate] at hp
  rw [redactKnown_filter line other, redactKnown_filter line values, hp, ← hfilter]

theorem Safe.redacts {S : Set (List Char)} (hS : Safe S) (line : List Char)
    (hvalues : ∀ v ∈ values, v ≠ [] → v ∈ S) : Redacts line values := by
  set V : Set (List Char) := {v | v ∈ values ∧ v ≠ []}
  have hne : [] ∉ V := fun h => h.2 rfl
  have hV : Safe V := hS.mono fun v hv => hvalues v hv.1 hv.2
  obtain ⟨T, hVT, hT⟩ := hV.exists_steady hne
  obtain ⟨ps, hrender, hps, hsolid⟩ : ∃ ps, render ps = trace line ∧ Complete Traced.char V ps ∧
      ∀ t, Piece.solid t ∈ ps → t.map Traced.char ∈ V := exists_pieces hne (trace line)
  have hrun : ∀ other : List (List Char), (∀ v ∈ other, v ∈ values) → redactTraced (trace line) other =
      render (ps.map (Piece.onSolid (redactTraced · other))) := by
    intro other hsub
    rw [← hrender]
    exact hT.redactTraced_render (fun v hv hn => ⟨hsub v hv, hn⟩) hps fun t ht => hVT (hsolid t ht)
  constructor
  · rw [hrun values fun v hv => hv, range_eq_range']
    have hall : Complete Traced.char V ([] ++ ps) := hps
    refine survivors_render (V := V) (fun v => Iff.rfl) hall
      (fun w hw t ht => hT.apart w hw _ (hVT (hsolid t ht))) hsolid ?_ ?_ hrender
    · intro t ht
      obtain ⟨hmem, hn⟩ := hsolid t ht
      exact survivors_value hn hmem
        (fun w hw hwn => hV.inside w ⟨hw, hwn⟩ _ (hsolid t ht) hwn hn) rfl
    · rw [nil_append, hrender, map_char_trace]
  · intro other hperm
    suffices heq : redactKnown line other = redactKnown line values by
      rw [heq]
      exact Relation.EqvGen.refl _
    by_cases hin : ∃ v ∈ V, v <:+: redactedMarker ∧ v ≠ redactedMarker
    · obtain ⟨v, hv, hfactor, hnot⟩ := hin
      exact redactKnown_perm_of_one
        (fun w hw hwn => hV.alone v hv hv.2 hfactor hnot w ⟨hw, hwn⟩ hwn) hperm line
    · push Not at hin
      have hmarker : ∀ other : List (List Char), (∀ v, v ∈ other ↔ v ∈ values) → ∀ t, Piece.solid t ∈ ps →
          (redactTraced t other).map Traced.char = redactedMarker := by
        intro other hsame t ht
        rw [map_char_redactTraced]
        exact redactKnown_value hV (fun v hv hn => ⟨(hsame v).mp hv, hn⟩)
          (fun w hw hwn => hin w ⟨(hsame w).mp hw, hwn⟩) ((hsame _).mpr (hsolid t ht).1) (hsolid t ht).2
      have hchars := map_char_redactTraced (trace line)
      rw [map_char_trace] at hchars
      rw [← hchars other, ← hchars values, hrun other fun v => hperm.mem_iff.mp, hrun values fun v hv => hv]
      refine map_render_onSolid_congr fun t ht => ?_
      rw [hmarker other (fun v => hperm.mem_iff) t ht, hmarker values (fun v => Iff.rfl) t ht]

end Healer
