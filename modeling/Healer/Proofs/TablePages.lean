import Healer.Lib.Paging
import Healer.Proofs.TableSearch

/-! Reading a table page by page. The `ORDER BY` clause has one column, so rows with the same value in it come in any
order, which can be another one for the next page. -/

namespace Healer.DbAdmin

open List

open Paging (Sorting Straddled pages)

/-- The order of each column's type is a linear preorder. -/
structure Env.Ordered (env : Env) : Prop where
  total : ∀ table column v w, env.le table column v w = true ∨ env.le table column w v = true
  trans : ∀ table column u v w, env.le table column u v = true → env.le table column v w = true →
    env.le table column u w = true

/-- How many pages there are before the total is reached. -/
def pageCount (total n : ℕ) : ℕ := (total + n - 1) / n

/-- What `list_rows` returns for the offsets `0`, `n`, `2 * n` and so on below the total; the query for page `k` finds
the rows in the order `orders k`. -/
def browse (env : Env) (orders : ℕ → Db) (tableName : String) (n : ℕ) (q : Query) (total : ℕ) :
    List (List (String × Option Value)) :=
  (List.range (pageCount total n)).flatMap fun k =>
    ((listRows env (orders k) tableName n (k * n : ℕ) q).toOption.map Prod.fst).getD []

/-- Whatever the orders in which the queries find the rows, the pages up to the reported total have each matching row
once. -/
def VisitsOnce (env : Env) (tableName : String) (table : TableSchema) (rows : List Row) (n : ℕ) (q : Query) : Prop :=
  ∀ (orders : ℕ → Db) (page : List (List (String × Option Value))) (total : ℕ),
    (∀ k, (orders k tableName).Perm rows) → listRows env (orders 0) tableName n 0 q = .ok (page, total) →
    (browse env orders tableName n q total).Perm ((rows.filter (selects env table q)).map (redactRow table))

/-- Rows that match, with the same value in the sort column, come both before and behind position `b`. -/
def TieAcross (env : Env) (table : TableSchema) (rows : List Row) (q : Query) (b : ℕ) : Prop :=
  Straddled (fun x y => before env table (orderColumn table q) x y = true) (rows.filter (selects env table q)) b

section Order

variable {env : Env} {table : TableSchema} (h : env.Ordered) (order : Option (String × Bool))
include h

theorem before_total (a b : Row) : before env table order a b = true ∨ before env table order b a = true := by
  have hnull : ∀ c, ∀ v w, nullsLast (env.le table.name c) v w = true ∨ nullsLast (env.le table.name c) w v = true := by
    intro c v w
    cases v with
    | none => exact .inr (by cases w <;> rfl)
    | some v =>
      cases w with
      | none => exact .inl rfl
      | some w => exact h.total table.name c v w
  rcases order with _ | ⟨c, desc⟩
  · exact .inl rfl
  · cases desc
    · exact hnull c (a c) (b c)
    · exact hnull c (b c) (a c)

theorem before_trans (a b c : Row) (hab : before env table order a b = true) (hbc : before env table order b c = true) :
    before env table order a c = true := by
  have hnull : ∀ column, ∀ u v w, nullsLast (env.le table.name column) u v = true →
      nullsLast (env.le table.name column) v w = true → nullsLast (env.le table.name column) u w = true := by
    intro column u v w huv hvw
    cases w with
    | none => cases u <;> rfl
    | some w =>
      cases v with
      | none => cases hvw
      | some v =>
        cases u with
        | none => cases huv
        | some u => exact h.trans table.name column u v w huv hvw
  rcases order with _ | ⟨column, desc⟩
  · rfl
  · cases desc
    · exact hnull column (a column) (b column) (c column) hab hbc
    · exact hnull column (c column) (b column) (a column) hbc hab

end Order

section Queries

variable {env : Env} {table : TableSchema} {rows rows' : List Row} {q : Query} {tableName : String}

/-- A query sorts the matching rows. -/
theorem queried_sorting (h : env.Ordered) (hrows : rows'.Perm rows) :
    Sorting (fun x y => before env table (orderColumn table q) x y = true) (rows.filter (selects env table q))
      (queried env table q rows') := by
  have : Std.Total fun x y => before env table (orderColumn table q) x y = true := ⟨before_total h _⟩
  have : IsTrans Row fun x y => before env table (orderColumn table q) x y = true := ⟨before_trans h _⟩
  exact ⟨(queried_perm q rows').trans (hrows.filter _), pairwise_insertionSort _ _⟩

/-- Every way to sort them is the result of a query. -/
theorem exists_queried {Q : List Row}
    (hQ : Sorting (fun x y => before env table (orderColumn table q) x y = true) (rows.filter (selects env table q)) Q) :
    ∃ rows', rows'.Perm rows ∧ queried env table q rows' = Q := by
  have hmatch : ∀ a ∈ Q, selects env table q a = true := fun a ha => (mem_filter.1 (hQ.perm.mem_iff.1 ha)).2
  refine ⟨Q ++ rows.filter fun a => !selects env table q a, ?_, ?_⟩
  · exact (hQ.perm.append_right _).trans (filter_append_perm (selects env table q) rows)
  · have hrest : (rows.filter fun a => !selects env table q a).filter (selects env table q) = [] := by
      simp
    rw [queried, filter_append, filter_eq_self.2 hmatch, hrest, append_nil]
    exact hQ.sorted.insertionSort_eq

theorem lt_pageCount {total n k : ℕ} (hn : 0 < n) : k < pageCount total n ↔ k * n < total := by
  rw [pageCount, ← Nat.succ_le_iff, Nat.le_div_iff_mul_le hn, Nat.succ_mul]
  omega

theorem le_pageCount_mul {total n : ℕ} (hn : 0 < n) : total ≤ pageCount total n * n := by
  have hlast := (not_congr (lt_pageCount hn)).1 (lt_irrefl (pageCount total n))
  omega

theorem clamp_of_le {n : ℕ} (hn : 1 ≤ n) (hmax : n ≤ 200) : clamp n = n := by
  unfold clamp
  rw [if_neg (by omega)]
  omega

/-- The pages are cut from the results of the queries. -/
theorem browse_eq (htable : getTable env tableName = .ok table) {n : ℕ} (hn : 1 ≤ n)
    (hmax : n ≤ 200) (orders : ℕ → Db) (total : ℕ) :
    browse env orders tableName n q total =
      (pages (fun k => queried env table q (orders k tableName)) n (pageCount total n)).map (redactRow table) := by
  rw [browse, pages, map_flatMap]
  congr 1
  funext k
  rw [listRows_eq htable, clamp_of_le hn hmax]
  rfl

/-- The reported total is the number of matching rows. -/
theorem total_eq (htable : getTable env tableName = .ok table) {db : Db}
    (hdb : (db tableName).Perm rows) (limit offset : ℤ) :
    ∃ page, listRows env db tableName limit offset q = .ok (page, (rows.filter (selects env table q)).length) := by
  rw [listRows_eq htable, (hdb.filter _).length_eq]
  exact ⟨_, rfl⟩

/-- Masked rows are still told apart by their keys. -/
theorem nodup_redactRow (ht : table ∈ tables) (hkeys : rows.Pairwise fun a b => key table a ≠ key table b) :
    (rows.map (redactRow table)).Nodup :=
  pairwise_map.2 (hkeys.imp fun hne h => hne (key_of_redactRow ht h))

/-- The pages of one choice of orders. -/
theorem VisitsOnce.pages_perm {n : ℕ} (h : VisitsOnce env tableName table rows n q)
    (htable : getTable env tableName = .ok table) (hn : 1 ≤ n) (hmax : n ≤ 200) {Q : ℕ → List Row}
    (hQ : ∀ k, Sorting (fun x y => before env table (orderColumn table q) x y = true)
      (rows.filter (selects env table q)) (Q k)) :
    ((pages Q n (pageCount (rows.filter (selects env table q)).length n)).map (redactRow table)).Perm
      ((rows.filter (selects env table q)).map (redactRow table)) := by
  choose found hfound hqueried using fun k => exists_queried (hQ k)
  have horders : ∀ k, ((onlyTable tableName (found k)) tableName).Perm rows := fun k => by
    rw [onlyTable_self]
    exact hfound k
  obtain ⟨page, hpage⟩ := total_eq htable (horders 0) n 0 (q := q)
  have hperm := h (fun k => onlyTable tableName (found k)) page _ horders hpage
  rw [browse_eq htable hn hmax] at hperm
  simpa only [onlyTable_self, hqueried] using hperm

end Queries

/-- With 1 to 200 rows a page, the pages have every matching row exactly once, whatever the order of ties in each
query, if and only if no tie lies across the end of a page. -/
theorem visitsOnce_iff {env : Env} (horder : env.Ordered) {tableName : String} {table : TableSchema}
    (htable : getTable env tableName = .ok table) {rows : List Row}
    (hkeys : rows.Pairwise fun a b => key table a ≠ key table b) (q : Query) {n : ℕ} (hn : 1 ≤ n) (hmax : n ≤ 200) :
    VisitsOnce env tableName table rows n q ↔ ∀ k, ¬ TieAcross env table rows q (k * n) := by
  constructor
  · intro h k htie
    have hk : k < pageCount (rows.filter (selects env table q)).length n := (lt_pageCount hn).2 htie.lt_length
    obtain ⟨Q, hQ, hrepeat⟩ := Paging.exists_pages_not_nodup (before_total horder _) (before_trans horder _)
      (queried_sorting horder (List.Perm.refl rows)) hk hn htie
    have hnodup := nodup_redactRow (getTable_mem htable) (hkeys.filter (selects env table q))
    have hpages := ((h.pages_perm htable hn hmax hQ).nodup_iff).2 hnodup
    exact hrepeat (List.Nodup.of_map _ hpages)
  · intro hcut orders page total horders htotal
    obtain ⟨page', hpage'⟩ := total_eq htable (horders 0) n 0 (q := q)
    obtain ⟨-, rfl⟩ : page = page' ∧ total = (rows.filter (selects env table q)).length := by
      simpa using htotal.symm.trans hpage'
    have hsorting := @queried_sorting env table rows _ q horder (horders 0)
    have hperm := Paging.pages_perm (before_refl _) (fun k => queried_sorting horder (horders k)) hcut
      (pageCount (rows.filter (selects env table q)).length n) hsorting
    rw [take_of_length_le (hsorting.perm.length_eq ▸ le_pageCount_mul hn)] at hperm
    rw [browse_eq htable hn hmax]
    exact (hperm.trans hsorting.perm).map _

theorem sampleEnv_ordered : sampleEnv.Ordered where
  total := fun _ _ v w => by simpa [sampleEnv] using String.le_total (valueText v) (valueText w)
  trans := fun _ _ u v w huv hvw => by
    simp only [sampleEnv, decide_eq_true_eq] at *
    exact String.le_trans huv hvw

def twoUsers : List Row := [userRow "1" "a", userRow "2" "b"]

theorem twoUsers_keys : twoUsers.Pairwise fun a b => key usersTable a ≠ key usersTable b := by
  refine pairwise_pair.2 ?_
  simp [key, usersTable, stamped, keyed, userRow]

/-- The second query finds the two users the other way round. -/
def usersOrders (k : ℕ) : Db := onlyTable "users" (if k = 0 then twoUsers else twoUsers.reverse)

/-- The ids on the pages. -/
def pageIds (page : List (List (String × Option Value))) : List (Option String) :=
  page.map fun row => (List.lookup "id" row).join.map valueText

/-- Two users created at the same moment, one a page: the second page has the first user again. -/
theorem paging_repeats_a_row :
    pageIds (browse sampleEnv usersOrders "users" 1 ⟨none, none, "asc"⟩ 2) = [some "1", some "1"] ∧
      ¬ VisitsOnce sampleEnv "users" usersTable twoUsers 1 ⟨none, none, "asc"⟩ := by
  have hpages : pageIds (browse sampleEnv usersOrders "users" 1 ⟨none, none, "asc"⟩ 2) = [some "1", some "1"] := by
    decide +kernel
  refine ⟨hpages, fun h => ?_⟩
  have hperm : ∀ k, (usersOrders k "users").Perm twoUsers := by
    intro k
    rw [usersOrders, onlyTable_self]
    split_ifs
    · exact List.Perm.refl _
    · exact twoUsers.reverse_perm
  obtain ⟨page, hpage⟩ := total_eq (q := ⟨none, none, "asc"⟩) (show getTable sampleEnv "users" = .ok usersTable from rfl)
    (hperm 0) 1 0
  have hids := ((h usersOrders page 2 hperm hpage).map fun row => (List.lookup "id" row).join.map valueText)
  exact absurd (hids.mem_iff.2 (show some "2" ∈ _ by decide +kernel)) (by rw [pageIds] at hpages; rw [hpages]; decide)

/-- Sorted by their ids, the two users are shown once each. -/
theorem visitsOnce_by_id : VisitsOnce sampleEnv "users" usersTable twoUsers 1 ⟨none, some "id", "asc"⟩ := by
  refine (visitsOnce_iff sampleEnv_ordered rfl twoUsers_keys _ le_rfl (by decide)).2 fun k htie => ?_
  obtain ⟨a, ha, hbelow, hupTo⟩ := htie
  have hcounts : ∀ a ∈ twoUsers,
      let r := fun x y => before sampleEnv usersTable (orderColumn usersTable ⟨none, some "id", "asc"⟩) x y = true
      let S := twoUsers.filter (selects sampleEnv usersTable ⟨none, some "id", "asc"⟩)
      Paging.upTo r S a = Paging.below r S a + 1 := by decide +kernel
  have hone := hcounts a (mem_of_mem_filter ha)
  dsimp only at hone
  omega

end Healer.DbAdmin
