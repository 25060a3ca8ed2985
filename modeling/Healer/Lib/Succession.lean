import Mathlib.Tactic

/-! Attempts along a chain of successors. A member of a chain is tried a number of times, and after a try
it may get a successor, which takes over its count. -/

namespace Succession

open Function List

variable {ι : Type} [DecidableEq ι]

/-- `i` and the successors of its members, in the order in which they came. -/
def lineage (i : ι) (ps : List (ι × ι)) : List ι :=
  ps.foldl (fun c p => if p.1 ∈ c then c ++ [p.2] else c) [i]

theorem lineage_snoc (i : ι) (ps : List (ι × ι)) (k j : ι) :
    lineage i (ps ++ [(k, j)]) = if k ∈ lineage i ps then lineage i ps ++ [j] else lineage i ps := by
  unfold lineage
  rw [foldl_append, foldl_cons, foldl_nil]

/-- The books on the chain of `i`: `tries` and `starts` list who was tried and which successors were
started, whether they belong to the chain or not. Only the last member has no successor, and its count
covers the tries and the starts of the whole chain. -/
structure Tally (known : ι → Prop) (attempts : ι → ℕ) (limit : ℕ) (i : ι) (ps : List (ι × ι))
    (tries starts : List ι) : Prop where
  once : (ps.map Prod.fst).Nodup
  members : ∀ a ∈ lineage i ps, known a
  tried : ∀ a ∈ tries, known a
  started : ∀ a ∈ starts, known a
  mono : ((lineage i ps).map attempts).Pairwise (· ≤ ·)
  tip : ∃ pre tip, lineage i ps = pre ++ [tip] ∧ (∀ a ∈ pre, a ∈ ps.map Prod.fst) ∧
    tries.countP (· ∈ lineage i ps) ≤ attempts tip ∧ starts.countP (· ∈ lineage i ps) ≤ attempts tip ∧
    attempts tip ≤ limit

section Steps

variable {known known' : ι → Prop} {attempts : ι → ℕ} {limit : ℕ} {i k j : ι} {ps : List (ι × ι)}
  {tries starts : List ι}

theorem tally_one (hi : known i) (h0 : attempts i = 0) : Tally known attempts limit i [] [] [] :=
  ⟨nodup_nil, by simpa [lineage] using hi, by simp, by simp, by simp [lineage],
    [], i, rfl, by simp, by simp, by simp, by rw [h0]; exact Nat.zero_le _⟩

theorem Tally.widen (h : Tally known attempts limit i ps tries starts) (hk : ∀ a, known a → known' a) :
    Tally known' attempts limit i ps tries starts :=
  ⟨h.once, fun a ha => hk a (h.members a ha), fun a ha => hk a (h.tried a ha),
    fun a ha => hk a (h.started a ha), h.mono, h.tip⟩

theorem Tally.tries_le (h : Tally known attempts limit i ps tries starts) :
    tries.countP (· ∈ lineage i ps) ≤ limit := by
  obtain ⟨pre, tip, -, -, htries, -, hlimit⟩ := h.tip
  exact htries.trans hlimit

theorem Tally.starts_le (h : Tally known attempts limit i ps tries starts) :
    starts.countP (· ∈ lineage i ps) ≤ limit := by
  obtain ⟨pre, tip, -, -, -, hstarts, hlimit⟩ := h.tip
  exact hstarts.trans hlimit

/-- The counts of others than the chain's members do not matter. -/
theorem Tally.congr {attempts' : ι → ℕ} (h : Tally known attempts limit i ps tries starts)
    (heq : ∀ a ∈ lineage i ps, attempts' a = attempts a) : Tally known attempts' limit i ps tries starts := by
  obtain ⟨pre, tip, hlin, hpre, htries, hstarts, hlimit⟩ := h.tip
  have htip : attempts' tip = attempts tip := heq tip (by rw [hlin]; simp)
  refine ⟨h.once, h.members, h.tried, h.started, ?_, pre, tip, hlin, hpre, ?_, ?_, ?_⟩
  · rw [map_congr_left heq]
    exact h.mono
  · rw [htip]
    exact htries
  · rw [htip]
    exact hstarts
  · rw [htip]
    exact hlimit

theorem map_update_of_notMem {l : List ι} (hk : k ∉ l) (n : ℕ) :
    l.map (Function.update attempts k n) = l.map attempts :=
  map_congr_left fun _ ha => update_of_ne (ne_of_mem_of_not_mem ha hk) _ _

/-- The last count of a chain may grow. -/
theorem pairwise_bump {pre : List ι} {tip : ι} {n : ℕ} (h : ((pre ++ [tip]).map attempts).Pairwise (· ≤ ·))
    (htip : tip ∉ pre) (hn : attempts tip ≤ n) :
    ((pre ++ [tip]).map (Function.update attempts tip n)).Pairwise (· ≤ ·) := by
  rw [map_append, pairwise_append] at h ⊢
  rw [map_update_of_notMem htip]
  refine ⟨h.1, by simp, fun a ha b hb => ?_⟩
  have hle := h.2.2 a ha (attempts tip) (by simp)
  simp only [map_cons, map_nil, update_self, mem_singleton] at hb
  rw [hb]
  exact hle.trans hn

/-- A try of `k`, which has no successor yet. -/
theorem Tally.attempt (h : Tally known attempts limit i ps tries starts) (hk : known k)
    (hnew : k ∉ ps.map Prod.fst) (hlt : attempts k < limit) {again : List ι} (hagain : again = [] ∨ again = [k]) :
    Tally known (Function.update attempts k (attempts k + 1)) limit i ps (tries ++ again) starts := by
  have htried : ∀ a ∈ tries ++ again, known a := by
    intro a ha
    rcases mem_append.1 ha with ha | ha
    · exact h.tried a ha
    · rcases hagain with rfl | rfl
      · cases ha
      · rw [mem_singleton.1 ha]
        exact hk
  obtain ⟨pre, tip, hlin, hpre, htries, hstarts, hlimit⟩ := h.tip
  have htip : k ∈ lineage i ps → k = tip := by
    intro hmem
    rw [hlin, mem_append, mem_singleton] at hmem
    exact hmem.resolve_left fun hin => hnew (hpre k hin)
  by_cases hmem : k ∈ lineage i ps
  · obtain rfl := htip hmem
    have hagain' : again.countP (· ∈ lineage i ps) ≤ 1 := by
      rcases hagain with rfl | rfl
      · simp
      · exact countP_le_length.trans (by simp)
    have hnotin : k ∉ pre := fun hin => hnew (hpre k hin)
    refine ⟨h.once, h.members, htried, h.started, ?_, pre, k, hlin, hpre, ?_, ?_, ?_⟩
    · have hmono := h.mono
      rw [hlin] at hmono ⊢
      exact pairwise_bump hmono hnotin (Nat.le_succ _)
    · rw [countP_append, update_self]
      omega
    · rw [update_self]
      omega
    · rw [update_self]
      omega
  · have hcount : again.countP (· ∈ lineage i ps) = 0 := by
      rcases hagain with rfl | rfl
      · rfl
      · simpa using hmem
    have hcongr : Tally known (Function.update attempts k (attempts k + 1)) limit i ps tries starts :=
      h.congr fun a ha => update_of_ne (ne_of_mem_of_not_mem ha hmem) _ _
    obtain ⟨pre, tip, hlin, hpre, htries, hstarts, hlimit⟩ := hcongr.tip
    refine ⟨h.once, h.members, htried, h.started, hcongr.mono, pre, tip, hlin, hpre, ?_, hstarts, hlimit⟩
    rw [countP_append, hcount]
    exact htries

/-- Whoever has no successor and belongs to the chain is its last member. -/
theorem Tally.starts_le_of_mem (h : Tally known attempts limit i ps tries starts) (hnew : k ∉ ps.map Prod.fst)
    (hmem : k ∈ lineage i ps) : starts.countP (· ∈ lineage i ps) ≤ attempts k := by
  obtain ⟨pre, tip, hlin, hpre, -, hstarts, -⟩ := h.tip
  rw [hlin, mem_append, mem_singleton] at hmem
  rw [hmem.resolve_left fun hin => hnew (hpre k hin)]
  exact hstarts

/-- Members of a list that `j` is not in. -/
theorem countP_mem_snoc {l c : List ι} (hj : j ∉ l) : l.countP (· ∈ c ++ [j]) = l.countP (· ∈ c) := by
  refine countP_congr fun a ha => ?_
  have hne : a ≠ j := ne_of_mem_of_not_mem ha hj
  simp [hne]

/-- `k` gets the successor `j`, which takes over its count and is started. -/
theorem Tally.follow (h : Tally known attempts limit i ps tries starts) (hj : ¬ known j)
    (hnew : k ∉ ps.map Prod.fst)
    (hroom : k ∈ lineage i ps → starts.countP (· ∈ lineage i ps) < attempts k) :
    Tally (fun a => known a ∨ a = j) (Function.update attempts j (attempts k)) limit i (ps ++ [(k, j)]) tries
      (starts ++ [j]) := by
  have hjlin : j ∉ lineage i ps := fun hin => hj (h.members j hin)
  have hjtries : j ∉ tries := fun hin => hj (h.tried j hin)
  have hjstarts : j ∉ starts := fun hin => hj (h.started j hin)
  have honce : ((ps ++ [(k, j)]).map Prod.fst).Nodup := by
    rw [map_append, nodup_append]
    refine ⟨h.once, by simp, fun a ha b hb => ?_⟩
    rw [map_singleton, mem_singleton] at hb
    rw [hb]
    exact ne_of_mem_of_not_mem ha hnew
  have hstarted : ∀ a ∈ starts ++ [j], known a ∨ a = j := by
    intro a ha
    rw [mem_append, mem_singleton] at ha
    exact ha.imp (h.started a) id
  have hcongr : Tally known (Function.update attempts j (attempts k)) limit i ps tries starts :=
    h.congr fun a ha => update_of_ne (ne_of_mem_of_not_mem ha hjlin) _ _
  obtain ⟨pre, tip, hlin, hpre, htries, hstarts, hlimit⟩ := hcongr.tip
  by_cases hmem : k ∈ lineage i ps
  · -- the successor becomes the last member
    have hmore : lineage i (ps ++ [(k, j)]) = lineage i ps ++ [j] := by rw [lineage_snoc, if_pos hmem]
    have hkj : k ≠ j := ne_of_mem_of_not_mem hmem hjlin
    have hk : k = tip := by
      have hmem' := hmem
      rw [hlin, mem_append, mem_singleton] at hmem'
      exact hmem'.resolve_left fun hin => hnew (hpre k hin)
    rw [← hk, update_of_ne hkj] at htries hstarts hlimit
    refine ⟨honce, ?_, fun a ha => Or.inl (h.tried a ha), hstarted, ?_, lineage i ps, j, hmore, ?_, ?_, ?_, ?_⟩
    · rw [hmore]
      intro a ha
      rw [mem_append, mem_singleton] at ha
      exact ha.imp (h.members a) id
    · have hmono := hcongr.mono
      rw [hmore, map_append, pairwise_append]
      refine ⟨hmono, by simp, fun a ha b hb => ?_⟩
      rw [map_singleton, mem_singleton, update_self] at hb
      rw [hb]
      rw [hlin, map_append, ← hk] at hmono ha
      rw [pairwise_append] at hmono
      have hlast : [k].map (Function.update attempts j (attempts k)) = [attempts k] := by
        rw [map_singleton, update_of_ne hkj]
      rw [hlast] at hmono ha
      rcases mem_append.1 ha with ha | ha
      · exact hmono.2.2 a ha _ (mem_singleton_self _)
      · exact (mem_singleton.1 ha).le
    · intro a ha
      rw [hlin, ← hk] at ha
      rw [map_append]
      rcases mem_append.1 ha with ha | ha
      · exact mem_append_left _ (hpre a ha)
      · rw [mem_singleton.1 ha]
        exact mem_append_right _ (mem_singleton_self _)
    · rw [hmore, countP_mem_snoc hjtries, update_self]
      exact htries
    · rw [hmore, countP_append, countP_mem_snoc hjstarts, update_self]
      have hone : [j].countP (· ∈ lineage i ps ++ [j]) = 1 := by simp
      have hlt := hroom hmem
      omega
    · rw [update_self]
      exact hlimit
  · have hsame : lineage i (ps ++ [(k, j)]) = lineage i ps := by rw [lineage_snoc, if_neg hmem]
    refine ⟨honce, ?_, fun a ha => Or.inl (h.tried a ha), hstarted, ?_, pre, tip, ?_, ?_, ?_, ?_, hlimit⟩
    · rw [hsame]
      exact fun a ha => Or.inl (h.members a ha)
    · rw [hsame]
      exact hcongr.mono
    · rw [hsame]
      exact hlin
    · intro a ha
      rw [map_append]
      exact mem_append_left _ (hpre a ha)
    · rw [hsame]
      exact htries
    · rw [hsame, countP_append]
      simpa [hjlin] using hstarts

end Steps

end Succession
