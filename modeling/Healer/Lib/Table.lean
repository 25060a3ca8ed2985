import Mathlib.Tactic

/-! A database table whose keys are handed out in order. Keys at and above `next`
are free, so a key handed out by `insert` is new, and `select` lists the rows by
scanning the keys below `next`. -/

@[ext] structure Table (α : Type) where
  next : ℕ
  row : ℕ → Option α
  row_none : ∀ i, next ≤ i → row i = none

namespace Table

open List Option

variable {α : Type} {t : Table α} {i j : ℕ} {a : α} {f : α → α} {p : α → Bool}

def empty : Table α := ⟨0, fun _ => none, fun _ _ => rfl⟩

def insert (t : Table α) (a : α) : Table α where
  next := t.next + 1
  row := Function.update t.row t.next (some a)
  row_none i hi := by
    rw [Function.update_of_ne (by omega)]
    exact t.row_none i (by omega)

def modify (t : Table α) (i : ℕ) (f : α → α) : Table α where
  next := t.next
  row j := if j = i then (t.row j).map f else t.row j
  row_none j hj := by simp [t.row_none j hj]

def erase (t : Table α) (i : ℕ) : Table α where
  next := t.next
  row j := if j = i then none else t.row j
  row_none j hj := by simp [t.row_none j hj]

/-- The same change to every row: an `UPDATE` without a key. -/
def mapRows (t : Table α) (f : α → α) : Table α where
  next := t.next
  row j := (t.row j).map f
  row_none j hj := by simp [t.row_none j hj]

def filterRows (t : Table α) (p : α → Bool) : Table α where
  next := t.next
  row j := (t.row j).filter p
  row_none j hj := by simp [t.row_none j hj]

/-- The keys of the rows that satisfy `p`, oldest first. -/
def select (t : Table α) (p : α → Bool) : List ℕ :=
  (List.range t.next).filter fun i => (t.row i).any p

/-- The oldest row that satisfies `p`, with its key. -/
def first (t : Table α) (p : α → Bool) : Option (ℕ × α) :=
  (t.select p).head?.bind fun i => (t.row i).map (i, ·)

/-- The rows that satisfy `p`, oldest first. -/
def rows (t : Table α) (p : α → Bool) : List α := (t.select p).filterMap t.row

/-- Find the oldest row that satisfies `p`, or add `fresh`, and change it by `f`. -/
def upsert (t : Table α) (p : α → Bool) (fresh : α) (f : α → α) : Table α :=
  match t.first p with
  | none => t.insert (f fresh)
  | some (k, _) => t.modify k f

theorem lt_of_row (h : t.row i = some a) : i < t.next := by
  by_contra hn
  rw [t.row_none i (by omega)] at h
  cases h

@[simp] theorem insert_row_self (t : Table α) (a : α) : (t.insert a).row t.next = some a := by
  simp [insert]

theorem insert_row_of_ne (t : Table α) (a : α) (h : i ≠ t.next) :
    (t.insert a).row i = t.row i := by
  simp [insert, Function.update_of_ne h]

theorem insert_row_cases {a b : α} (h : (t.insert a).row i = some b) :
    i = t.next ∧ b = a ∨ t.row i = some b := by
  by_cases hi : i = t.next
  · rw [hi, insert_row_self, Option.some.injEq] at h
    exact Or.inl ⟨hi, h.symm⟩
  · rw [insert_row_of_ne t a hi] at h
    exact Or.inr h

theorem insert_ne (t : Table α) (a : α) : t.insert a ≠ t := by
  intro h
  exact absurd (congrArg Table.next h) (Nat.succ_ne_self _)

theorem modify_row (t : Table α) (i j : ℕ) (f : α → α) :
    (t.modify i f).row j = if j = i then (t.row j).map f else t.row j := rfl

@[simp] theorem modify_row_self (t : Table α) (i : ℕ) (f : α → α) :
    (t.modify i f).row i = (t.row i).map f := by
  simp [modify_row]

theorem modify_row_of_ne (t : Table α) (f : α → α) (h : j ≠ i) :
    (t.modify i f).row j = t.row j := by
  simp [modify_row, h]

theorem modify_row_cases {b : α} (h : (t.modify i f).row j = some b) :
    (∃ a, j = i ∧ t.row i = some a ∧ b = f a) ∨ t.row j = some b := by
  by_cases hj : j = i
  · rw [hj, modify_row_self] at h
    obtain ⟨a, ha, hb⟩ := map_eq_some_iff.1 h
    exact Or.inl ⟨a, hj, ha, hb.symm⟩
  · rw [modify_row_of_ne t f hj] at h
    exact Or.inr h

theorem modify_of_none (f : α → α) (h : t.row i = none) : t.modify i f = t := by
  ext1
  · rfl
  · funext j
    by_cases hj : j = i
    · subst hj
      rw [modify_row_self, h, map_none]
    · exact modify_row_of_ne t f hj

theorem modify_modify (t : Table α) (i : ℕ) (f g : α → α) :
    (t.modify i f).modify i g = t.modify i fun a => g (f a) := by
  ext1
  · rfl
  · funext j
    by_cases hj : j = i
    · subst hj
      simp [Function.comp_def]
    · rw [modify_row_of_ne _ _ hj, modify_row_of_ne _ _ hj, modify_row_of_ne _ _ hj]

theorem insert_modify (t : Table α) (a : α) (f : α → α) :
    (t.insert a).modify t.next f = t.insert (f a) := by
  ext1
  · rfl
  · funext j
    by_cases hj : j = t.next
    · subst hj
      simp
    · rw [modify_row_of_ne _ _ hj, insert_row_of_ne _ _ hj, insert_row_of_ne _ _ hj]

theorem erase_row_of_ne (t : Table α) (h : j ≠ i) : (t.erase i).row j = t.row j := by
  simp [erase, h]

theorem erase_row_cases {b : α} (h : (t.erase i).row j = some b) :
    j ≠ i ∧ t.row j = some b := by
  simp only [erase] at h
  split_ifs at h with hj
  exact ⟨hj, h⟩

/-- An update of row `i` that takes it out of a selection. -/
theorem modify_out_iff {p : α → Prop} (hf : ∀ a, ¬ p (f a)) (j : ℕ) :
    (∃ a, (t.modify i f).row j = some a ∧ p a) ↔ (∃ a, t.row j = some a ∧ p a) ∧ j ≠ i := by
  by_cases hj : j = i
  · subst hj
    simp only [modify_row_self, map_eq_some_iff, ne_eq, not_true_eq_false, and_false, iff_false,
      not_exists, not_and]
    rintro _ ⟨a, -, rfl⟩
    exact hf a
  · rw [modify_row_of_ne _ _ hj, and_iff_left hj]

/-- An update of a row that is outside a selection before and after. -/
theorem modify_other_iff {p : α → Prop} (hf : ∀ a, ¬ p (f a))
    (hrow : ∀ a, t.row i = some a → ¬ p a) (j : ℕ) :
    (∃ a, (t.modify i f).row j = some a ∧ p a) ↔ ∃ a, t.row j = some a ∧ p a := by
  rw [modify_out_iff hf]
  refine and_iff_left_of_imp ?_
  rintro ⟨a, ha, hp⟩ rfl
  exact hrow a ha hp

theorem mem_select :
    i ∈ t.select p ↔ ∃ a, t.row i = some a ∧ p a = true := by
  simp only [select, mem_filter, mem_range, any_eq_true_iff_get]
  constructor
  · rintro ⟨-, h, hp⟩
    exact ⟨_, (some_get h).symm, hp⟩
  · rintro ⟨a, ha, hp⟩
    exact ⟨lt_of_row ha, by simp [ha], by simpa [ha] using hp⟩

theorem select_insert (t : Table α) (a : α) (p : α → Bool) :
    (t.insert a).select p = t.select p ++ if p a then [t.next] else [] := by
  have hold : ∀ i ∈ List.range t.next, ((t.insert a).row i).any p = (t.row i).any p := by
    intro i hi
    rw [insert_row_of_ne t a (mem_range.1 hi).ne]
  simp only [select, show (t.insert a).next = t.next + 1 from rfl, range_succ,
    filter_append, filter_congr hold, filter_cons, insert_row_self, any_some,
    filter_nil]

theorem select_eq_nil :
    t.select p = [] ↔ ∀ i a, t.row i = some a → p a = false := by
  rw [eq_nil_iff_forall_not_mem]
  constructor
  · intro h i a ha
    by_contra hp
    exact h i (mem_select.2 ⟨a, ha, by simpa using hp⟩)
  · intro h i hi
    obtain ⟨a, ha, hp⟩ := mem_select.1 hi
    rw [h i a ha] at hp
    cases hp

theorem row_of_first (h : t.first p = some (i, a)) :
    t.row i = some a ∧ p a = true := by
  obtain ⟨j, hj, hrow⟩ := bind_eq_some_iff.1 h
  obtain ⟨b, hb, hpair⟩ := map_eq_some_iff.1 hrow
  obtain ⟨rfl, rfl⟩ := Prod.mk.inj hpair
  obtain ⟨c, hc, hp⟩ := mem_select.1 (mem_of_head? hj)
  rw [hb, Option.some.injEq] at hc
  exact ⟨hb, hc ▸ hp⟩

theorem first_eq_none (h : t.first p = none)
    (ha : t.row i = some a) : p a = false := by
  cases hsel : t.select p with
  | nil => exact select_eq_nil.1 hsel i a ha
  | cons j js =>
    obtain ⟨b, hb, -⟩ := mem_select.1 (hsel ▸ mem_cons_self)
    rw [first, hsel, List.head?_cons, bind_some, hb] at h
    cases h

theorem select_nodup (t : Table α) (p : α → Bool) : (t.select p).Nodup :=
  nodup_range.filter _

/-- An update that leaves a row on its side of a selection. -/
theorem select_modify {k : ℕ} (hk : t.row k = some a)
    (hp : p (f a) = p a) : (t.modify k f).select p = t.select p := by
  refine filter_congr fun i _ => ?_
  by_cases hi : i = k
  · rw [hi, modify_row_self, hk, map_some, any_some, any_some, hp]
  · rw [modify_row_of_ne t f hi]

theorem filterMap_modify_of_notMem (t : Table α) (f : α → α) {k : ℕ} {is : List ℕ} (hk : k ∉ is) :
    is.filterMap (t.modify k f).row = is.filterMap t.row := by
  refine filterMap_congr fun i hi => modify_row_of_ne t f ?_
  rintro rfl
  exact hk hi

theorem rows_insert_of_neg (t : Table α) (ha : p a = false) :
    (t.insert a).rows p = t.rows p := by
  rw [rows, select_insert, ha, if_neg Bool.false_ne_true, append_nil]
  refine filterMap_congr fun i hi => insert_row_of_ne t a ?_
  obtain ⟨b, hb, -⟩ := mem_select.1 hi
  exact (lt_of_row hb).ne

theorem rows_modify_of_neg {k : ℕ} (hk : t.row k = some a)
    (ha : p a = false) (hfa : p (f a) = false) : (t.modify k f).rows p = t.rows p := by
  rw [rows, select_modify hk (hfa.trans ha.symm)]
  refine filterMap_modify_of_notMem t f fun hmem => ?_
  obtain ⟨b, hb, hpb⟩ := mem_select.1 hmem
  rw [hk, Option.some.injEq] at hb
  rw [← hb, ha] at hpb
  cases hpb

section Upsert

variable {q : α → Bool} {fresh : α}

/-- The oldest row of the selection is the one that changes. -/
theorem rows_upsert (hfresh : p (f fresh) = true) (hf : ∀ a, p a = true → p (f a) = true) :
    (t.upsert p fresh f).rows p = f ((t.rows p).head?.getD fresh) :: (t.rows p).tail := by
  rcases hsel : t.select p with _ | ⟨k, ks⟩
  · have hfirst : t.first p = none := by rw [first, hsel]; rfl
    rw [upsert, hfirst]
    simp [rows, select_insert, hsel, hfresh]
  · obtain ⟨a, ha, hpa⟩ := mem_select.1 (hsel ▸ mem_cons_self : k ∈ t.select p)
    have hfirst : t.first p = some (k, a) := by
      rw [first, hsel, List.head?_cons, bind_some, ha, map_some]
    have hks : k ∉ ks := (nodup_cons.1 (hsel ▸ t.select_nodup p)).1
    rw [upsert, hfirst]
    simp only [rows, select_modify ha ((hf a hpa).trans hpa.symm), hsel]
    rw [filterMap_cons_some (by rw [modify_row_self, ha]; rfl), filterMap_cons_some ha,
      filterMap_modify_of_notMem t f hks]
    rfl

/-- A selection that holds neither the row that is changed nor its new value. -/
theorem rows_upsert_other (hfresh : q (f fresh) = false) (hp : ∀ a, p a = true → q a = false ∧ q (f a) = false) :
    (t.upsert p fresh f).rows q = t.rows q := by
  rcases hfirst : t.first p with _ | ⟨k, a⟩
  · rw [upsert, hfirst]
    exact rows_insert_of_neg t hfresh
  · obtain ⟨ha, hpa⟩ := row_of_first hfirst
    rw [upsert, hfirst]
    exact rows_modify_of_neg ha (hp a hpa).1 (hp a hpa).2

/-- Rows under a foreign key `key`, seen through `view`: those of the key that is sought change at the head,
by `g`, and those of the other keys stand. -/
theorem map_rows_upsert {β κ : Type} [DecidableEq κ] (key : α → κ) (view : α → β) (g : β → β) {k : κ}
    (hfresh : key fresh = k) (hkey : ∀ a, key (f a) = key a) (hview : ∀ a, view (f a) = g (view a)) (j : κ) :
    ((t.upsert (fun a => key a == k) fresh f).rows fun a => key a == j).map view =
      if j = k then g (((t.rows fun a => key a == k).map view).head?.getD (view fresh)) ::
        ((t.rows fun a => key a == k).map view).tail
      else (t.rows fun a => key a == j).map view := by
  split_ifs with hj
  · rw [hj, rows_upsert (by rw [hkey, hfresh, beq_self_eq_true]) (fun a ha => by rw [hkey]; exact ha), map_cons,
      hview, map_tail, List.head?_map, Option.getD_map]
  · rw [rows_upsert_other]
    · rw [hkey, hfresh]
      exact beq_eq_false_iff_ne.2 (Ne.symm hj)
    · intro a ha
      rw [hkey, and_self, beq_eq_false_iff_ne, beq_iff_eq.1 ha]
      exact Ne.symm hj

end Upsert

end Table
