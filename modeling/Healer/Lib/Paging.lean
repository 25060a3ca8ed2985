import Mathlib.Data.List.Sort
import Mathlib.Tactic

/-! Reading a collection page by page, when each page is cut from a list that is sorted anew and may order ties
differently. The pages fit together exactly when no tie lies across a cut. -/

namespace Paging

open List

variable {α : Type} {r : α → α → Prop} {S Q Q' : List α} {b n : ℕ}

/-- A result of sorting `S`. -/
structure Sorting (r : α → α → Prop) (S Q : List α) : Prop where
  perm : Q.Perm S
  sorted : Q.Pairwise r

/-- How many elements come before every tie of `a`. -/
def below (r : α → α → Prop) [DecidableRel r] (S : List α) (a : α) : ℕ := S.countP fun x => r x a ∧ ¬ r a x

/-- How many elements come before the last tie of `a`, with it. -/
def upTo (r : α → α → Prop) [DecidableRel r] (S : List α) (a : α) : ℕ := S.countP fun x => r x a

/-- A cut after `b` elements has ties on both sides. -/
def Straddled (r : α → α → Prop) [DecidableRel r] (S : List α) (b : ℕ) : Prop :=
  ∃ a ∈ S, below r S a < b ∧ b < upTo r S a

section Cut

variable [DecidableRel r] {a : α}

theorem Straddled.lt_length (h : Straddled r S b) : b < S.length := by
  obtain ⟨a, -, -, hb⟩ := h
  exact lt_of_lt_of_le hb countP_le_length

theorem Sorting.below_lt (hrefl : ∀ a, r a a) (h : Sorting r S Q) (ha : a ∈ Q.take b) : below r S a < b := by
  obtain ⟨u, v, huv⟩ := append_of_mem ha
  have hQ : Q = u ++ a :: (v ++ Q.drop b) := by
    rw [← cons_append, ← append_assoc, ← huv, take_append_drop]
  have hsorted := h.sorted
  rw [hQ] at hsorted
  -- what stands behind `a` is not before all of its ties
  have hrest : (a :: (v ++ Q.drop b)).countP (fun x => r x a ∧ ¬ r a x) = 0 := by
    rw [countP_eq_zero]
    intro x hx
    rcases mem_cons.1 hx with rfl | hx
    · simp [hrefl]
    · have hax := (pairwise_cons.1 (pairwise_append.1 hsorted).2.1).1 x hx
      simp [hax]
  have hlength := congrArg List.length huv
  rw [length_append, length_cons] at hlength
  have htake := length_take_le b Q
  have hcount : u.countP (fun x => r x a ∧ ¬ r a x) ≤ u.length := countP_le_length
  rw [below, ← h.perm.countP_eq, hQ, countP_append, hrest]
  omega

theorem Sorting.lt_upTo (hrefl : ∀ a, r a a) (h : Sorting r S Q) (ha : a ∈ Q.drop b) : b < upTo r S a := by
  obtain ⟨u, v, huv⟩ := append_of_mem ha
  have hQ : Q = (Q.take b ++ u) ++ a :: v := by rw [append_assoc, ← huv, take_append_drop]
  have hsorted := h.sorted
  rw [hQ] at hsorted
  have hfirst : (Q.take b ++ u).countP (fun x => r x a) = (Q.take b ++ u).length := by
    rw [countP_eq_length]
    intro x hx
    simpa using (pairwise_append.1 hsorted).2.2 x hx a mem_cons_self
  have hself : 0 < (a :: v).countP (fun x => r x a) :=
    countP_pos_iff.2 ⟨a, mem_cons_self, by simpa using hrefl a⟩
  have hlong : b ≤ Q.length := by
    by_contra hshort
    rw [drop_eq_nil_of_le (by omega)] at ha
    cases ha
  rw [upTo, ← h.perm.countP_eq, hQ, countP_append, hfirst, length_append, length_take]
  omega

/-- Where no tie is cut, the elements before the cut are those of which all ties are. -/
theorem Sorting.take_eq_filter (hrefl : ∀ a, r a a) (h : Sorting r S Q) (hb : ¬ Straddled r S b) :
    Q.take b = Q.filter fun a => upTo r S a ≤ b := by
  have hbefore : (Q.take b).filter (fun a => upTo r S a ≤ b) = Q.take b := by
    rw [filter_eq_self]
    intro a ha
    have hmem := h.perm.mem_iff.1 (mem_of_mem_take ha)
    by_contra hlt
    exact hb ⟨a, hmem, h.below_lt hrefl ha, by simpa using hlt⟩
  have hbehind : (Q.drop b).filter (fun a => upTo r S a ≤ b) = [] := by
    rw [filter_eq_nil_iff]
    intro a ha
    simpa using h.lt_upTo hrefl ha
  calc Q.take b = (Q.take b ++ Q.drop b).filter fun a => upTo r S a ≤ b := by
        rw [filter_append, hbefore, hbehind, append_nil]
    _ = Q.filter fun a => upTo r S a ≤ b := by rw [take_append_drop]

theorem Sorting.take_perm (hrefl : ∀ a, r a a) (h : Sorting r S Q) (h' : Sorting r S Q') (hb : ¬ Straddled r S b) :
    (Q.take b).Perm (Q'.take b) := by
  rw [h.take_eq_filter hrefl hb, h'.take_eq_filter hrefl hb]
  exact (h.perm.trans h'.perm.symm).filter _

/-- Where a tie is cut, its two elements at the cut can be swapped. -/
theorem Sorting.exists_swap (htotal : ∀ a b, r a b ∨ r b a) (htrans : ∀ a b c, r a b → r b c → r a c)
    (h : Sorting r S Q) (hb : Straddled r S b) (hpos : 0 < b) :
    ∃ u x y v, Q = u ++ x :: y :: v ∧ u.length + 1 = b ∧ Sorting r S (u ++ y :: x :: v) := by
  have hlength : b < Q.length := h.perm.length_eq ▸ hb.lt_length
  obtain ⟨u, x, hux⟩ := eq_nil_or_concat (Q.take b) |>.resolve_left
    (by rw [take_eq_nil_iff]; rintro (rfl | rfl) <;> simp at hpos hlength)
  obtain ⟨y, v, hyv⟩ := exists_cons_of_ne_nil (l := Q.drop b) (by rw [Ne, drop_eq_nil_iff]; omega)
  have hQ : Q = u ++ x :: y :: v := by rw [← take_append_drop b Q, hux, hyv]; simp
  have hu : u.length + 1 = b := by
    have hcount := congrArg List.length hux
    simp only [length_take, concat_eq_append, length_append, length_singleton] at hcount
    omega
  obtain ⟨hfirst, hrest, hcross⟩ := pairwise_append.1 (hQ ▸ h.sorted)
  obtain ⟨hx, hyrest⟩ := pairwise_cons.1 hrest
  obtain ⟨hy, hv⟩ := pairwise_cons.1 hyrest
  obtain ⟨a, -, hbelow, hupTo⟩ := hb
  rw [below, ← h.perm.countP_eq, hQ] at hbelow
  rw [upTo, ← h.perm.countP_eq, hQ] at hupTo
  -- the element before the cut is not before every tie of `a`, and the one behind it is not behind them
  have hax : r a x := by
    by_contra hnot
    have hxa := (htotal a x).resolve_left hnot
    have hall : (u ++ [x]).countP (fun c => r c a ∧ ¬ r a c) = (u ++ [x]).length := by
      rw [countP_eq_length]
      intro c hc
      rcases mem_append.1 hc with hc | hc
      · have hcx := hcross c hc x mem_cons_self
        simpa using ⟨htrans c x a hcx hxa, fun hac => hnot (htrans a c x hac hcx)⟩
      · rw [mem_singleton.1 hc]
        simpa using ⟨hxa, hnot⟩
    rw [append_cons, countP_append, hall, length_append, length_singleton] at hbelow
    omega
  have hya : r y a := by
    by_contra hnot
    have hnone : (y :: v).countP (fun c => r c a) = 0 := by
      rw [countP_eq_zero]
      intro c hc
      rcases mem_cons.1 hc with rfl | hc
      · simpa using hnot
      · simpa using fun hca => hnot (htrans y c a (hy c hc) hca)
    have hle : (u ++ [x]).countP (fun c => r c a) ≤ (u ++ [x]).length := countP_le_length
    rw [append_cons, countP_append, hnone] at hupTo
    rw [length_append, length_singleton] at hle
    omega
  refine ⟨u, x, y, v, hQ, hu, ?_, ?_⟩
  · exact (List.Perm.append_left u (List.Perm.swap x y v)).trans (hQ ▸ h.perm)
  · refine pairwise_append.2 ⟨hfirst, ?_, fun c hc d hd => hcross c hc d (by simpa [or_left_comm] using hd)⟩
    refine pairwise_cons.2 ⟨?_, pairwise_cons.2 ⟨fun d hd => hx d (mem_cons_of_mem y hd), hv⟩⟩
    exact forall_mem_cons.2 ⟨htrans y a x hya hax, hy⟩

end Cut

/-! ## Pages -/

/-- The first `m` pages of `n` elements, the page `k` cut from `Q k`. -/
def pages (Q : ℕ → List α) (n m : ℕ) : List α := (List.range m).flatMap fun k => ((Q k).drop (k * n)).take n

theorem pages_succ (Q : ℕ → List α) (n m : ℕ) : pages Q n (m + 1) = pages Q n m ++ ((Q m).drop (m * n)).take n := by
  simp [pages, range_succ]

theorem pages_mono (Q : ℕ → List α) (n : ℕ) {k m : ℕ} (h : k ≤ m) : pages Q n k <+: pages Q n m := by
  induction h with
  | refl => exact prefix_refl _
  | step _ ih =>
    rw [pages_succ]
    exact ih.trans (prefix_append _ _)

theorem take_page (L : List α) (n m : ℕ) : L.take (m * n) ++ (L.drop (m * n)).take n = L.take ((m + 1) * n) := by
  rw [Nat.add_mul, Nat.one_mul, take_add]

theorem pages_perm [DecidableRel r] (hrefl : ∀ a, r a a) {Q : ℕ → List α} (hQ : ∀ k, Sorting r S (Q k))
    (hcut : ∀ k, ¬ Straddled r S (k * n)) (m : ℕ) {L : List α} (hL : Sorting r S L) :
    (pages Q n m).Perm (L.take (m * n)) := by
  induction m generalizing L with
  | zero => simp [pages]
  | succ m ih =>
    calc pages Q n (m + 1) = pages Q n m ++ ((Q m).drop (m * n)).take n := pages_succ Q n m
      List.Perm _ ((Q m).take (m * n) ++ ((Q m).drop (m * n)).take n) := (ih (hQ m)).append_right _
      _ = (Q m).take ((m + 1) * n) := take_page (Q m) n m
      List.Perm _ (L.take ((m + 1) * n)) := (hQ m).take_perm hrefl hL (hcut (m + 1))

theorem pages_of_eq {Q : ℕ → List α} {L : List α} {m : ℕ} (h : ∀ k, k < m → Q k = L) :
    pages Q n m = L.take (m * n) := by
  induction m with
  | zero => simp [pages]
  | succ m ih =>
    rw [pages_succ, ih fun k hk => h k (by omega), h m (by omega), take_page]

/-- If a tie is cut, an element can be on the pages on both sides of the cut. -/
theorem exists_pages_not_nodup [DecidableRel r] (htotal : ∀ a b, r a b ∨ r b a)
    (htrans : ∀ a b c, r a b → r b c → r a c) {L : List α} (hL : Sorting r S L) {k m : ℕ} (hk : k < m) (hn : 0 < n)
    (hcut : Straddled r S (k * n)) :
    ∃ Q : ℕ → List α, (∀ k, Sorting r S (Q k)) ∧ ¬ (pages Q n m).Nodup := by
  have hpos : 0 < k * n := by
    obtain ⟨a, -, hbelow, -⟩ := hcut
    omega
  obtain ⟨u, x, y, v, rfl, hu, hswap⟩ := hL.exists_swap htotal htrans hcut hpos
  refine ⟨fun j => if j < k then u ++ x :: y :: v else u ++ y :: x :: v, fun j => ?_, fun hnodup => ?_⟩
  · dsimp only
    split_ifs
    · exact hL
    · exact hswap
  · -- the first `k` pages end with `x`, and the next one begins with it
    have hfirst : pages (fun j => if j < k then u ++ x :: y :: v else u ++ y :: x :: v) n k = u ++ [x] := by
      rw [pages_of_eq fun j hj => if_pos hj, ← hu, append_cons, take_append_of_le_length (by simp)]
      exact take_of_length_le (by simp)
    have hnext : (u ++ y :: x :: v).drop (k * n) = x :: v := by
      rw [← hu, append_cons, drop_append_of_le_length (by simp), drop_of_length_le (by simp)]
      rfl
    have hmore := hnodup.sublist (pages_mono _ n hk).sublist
    rw [pages_succ, hfirst, if_neg (lt_irrefl k), hnext] at hmore
    obtain ⟨n, rfl⟩ : ∃ n', n = n' + 1 := ⟨n - 1, by omega⟩
    exact (nodup_append.1 hmore).2.2 x (by simp) x mem_cons_self rfl

end Paging
