import Healer.Sanity.EnvRedaction

/-! Which queries of the table browser say nothing about redacted values. Rows are masked after they have been
filtered, counted and sorted, so what a query can tell is decided by its `WHERE` and `ORDER BY` clauses. -/

namespace Healer.DbAdmin

open List

/-! ## What may differ -/

def Value.Alike : Value → Value → Prop
  | .json j, .json j' => DbAdmin.Alike j j'
  | v, v' => v = v'

/-- A sensitive column may have another value, and a JSON-redacted one other values in its `env` dicts. -/
def ColumnAlike (table column : String) (v v' : Option Value) : Prop :=
  if column ∈ globalSensitiveColumns then v.isSome = v'.isSome
  else if column ∈ jsonRedactColumns table then Option.Rel Value.Alike v v'
  else v = v'

def RowAlike (table : TableSchema) (a a' : Row) : Prop :=
  ∀ c ∈ table.columns, ColumnAlike table.name c (a c) (a' c)

def key (table : TableSchema) (a : Row) : List (Option Value) := table.primaryKey.map a

/-- The rows that a table may hold: each as its schema demands, with different keys. -/
structure Admissible (ok : Row → Prop) (table : TableSchema) (rows : List Row) : Prop where
  valid : ∀ a ∈ rows, ok a
  keys : rows.Pairwise fun a b => key table a ≠ key table b

/-- Two databases that differ only in what is redacted. -/
structure DbAlike (env : Env) (ok : String → Row → Prop) (db db' : Db) : Prop where
  left : ∀ n table, getTable env n = .ok table → Admissible (ok n) table (db n)
  right : ∀ n table, getTable env n = .ok table → Admissible (ok n) table (db' n)
  alike : ∀ n table, getTable env n = .ok table → List.Forall₂ (RowAlike table) (db n) (db' n)

/-- The browser answers the same on both. -/
def Hides (env : Env) (ok : String → Row → Prop) (tableName : String) (q : Query) : Prop :=
  ∀ db db', DbAlike env ok db db' →
    (∀ limit offset, listRows env db tableName limit offset q = listRows env db' tableName limit offset q) ∧
      ∀ rowId, getRow env db tableName rowId = getRow env db' tableName rowId

/-- The `WHERE` clause does not tell apart two rows that differ only in what is redacted, and the `ORDER BY`
clause does not tell apart two pairs of selected rows. -/
structure Blind (env : Env) (ok : Row → Prop) (table : TableSchema) (q : Query) : Prop where
  search : ∀ a a', ok a → ok a' → RowAlike table a a' → selects env table q a = selects env table q a'
  order : ∀ a a' b b', ok a → ok a' → ok b → ok b' → RowAlike table a a' → RowAlike table b b' →
    key table a ≠ key table b → selects env table q a = true → selects env table q b = true →
    before env table (orderColumn table q) a b = before env table (orderColumn table q) a' b'

/-! ## Redaction -/

section Rows

variable {env : Env} {table : TableSchema} {a a' b : Row} {n : String}

theorem redactColumn_alike {n c : String} {v v' : Option Value} (h : ColumnAlike n c v v') :
    redactColumn n c v = redactColumn n c v' := by
  unfold ColumnAlike at h
  unfold redactColumn
  split_ifs at h ⊢ with hsensitive hjson
  · cases v <;> cases v' <;> simp_all
  · cases h with
    | none => rfl
    | @some v w hvw =>
      cases v with
      | scalar s =>
        obtain rfl : Value.scalar s = w := hvw
        rfl
      | json j =>
        cases w with
        | scalar s => cases hvw
        | json j' => exact congrArg (fun r => some (Value.json r)) (redact_alike j j' hvw)
  · exact h

theorem redactRow_alike (h : RowAlike table a a') : redactRow table a = redactRow table a' :=
  map_congr_left fun c hc => by rw [redactColumn_alike (h c hc)]

/-- A column that is not redacted. -/
def Visible (table : TableSchema) (c : String) : Prop :=
  c ∈ table.columns ∧ c ∉ globalSensitiveColumns ∧ c ∉ jsonRedactColumns table.name

theorem RowAlike.visible (h : RowAlike table a a') {c : String} (hc : Visible table c) : a c = a' c := by
  have hcolumn := h c hc.1
  simpa only [ColumnAlike, hc.2.1, hc.2.2, if_false] using hcolumn

theorem getTable_mem (h : getTable env n = .ok table) : table ∈ tables := by
  unfold getTable at h
  rcases hfind : tables.find? (·.name == n) with _ | t
  · simp [hfind] at h
  · simp only [hfind, Except.ok.injEq] at h
    exact h ▸ mem_of_find?_eq_some hfind

/-- Primary keys are not redacted, in any table. -/
theorem visible_key (h : table ∈ tables) {c : String} (hc : c ∈ table.primaryKey) : Visible table c := by
  have hall : ∀ t ∈ tables, ∀ c ∈ t.primaryKey,
      c ∈ t.columns ∧ c ∉ globalSensitiveColumns ∧ c ∉ jsonRedactColumns t.name := by decide +kernel
  exact hall table h c hc

theorem key_alike (ht : table ∈ tables) (h : RowAlike table a a') : key table a = key table a' :=
  map_congr_left fun _ hc => h.visible (visible_key ht hc)

theorem key_of_redactRow (ht : table ∈ tables) (h : redactRow table a = redactRow table b) :
    key table a = key table b := by
  refine map_congr_left fun c hc => ?_
  obtain ⟨hmem, hsensitive, hjson⟩ := visible_key ht hc
  have hcolumn := map_inj_left.1 h c hmem
  simpa [redactColumn, hsensitive, hjson] using hcolumn

theorem before_refl (order : Option (String × Bool)) (a : Row) : before env table order a a = true := by
  have hrefl : ∀ c, nullsLast (env.le table.name c) (a c) (a c) = true := by
    intro c
    cases a c with
    | none => rfl
    | some v => exact env.le_refl _ _ v
  cases order with
  | none => rfl
  | some o =>
    obtain ⟨c, desc⟩ := o
    cases desc <;> exact hrefl c

end Rows

/-! ## Blind queries -/

section Pairs

variable {α : Type} {R : α → α → Prop}

/-- Two related lists as a list of pairs. -/
theorem exists_pairs {l l' : List α} (h : List.Forall₂ R l l') :
    ∃ p : List (α × α), l = p.map Prod.fst ∧ l' = p.map Prod.snd ∧ ∀ x ∈ p, R x.1 x.2 := by
  induction h with
  | nil => exact ⟨[], rfl, rfl, by simp⟩
  | @cons a a' l l' ha _ ih =>
    obtain ⟨p, rfl, rfl, hp⟩ := ih
    exact ⟨(a, a') :: p, rfl, rfl, forall_mem_cons.2 ⟨ha, hp⟩⟩

/-- A test that does not tell the two components apart selects the same pairs. -/
theorem filter_pairs (p : List (α × α)) (f : α → Bool) (hf : ∀ x ∈ p, f x.1 = f x.2) :
    (p.map Prod.fst).filter f = (p.filter fun x => f x.1).map Prod.fst ∧
      (p.map Prod.snd).filter f = (p.filter fun x => f x.1).map Prod.snd := by
  refine ⟨filter_map, ?_⟩
  rw [filter_map]
  exact congrArg (List.map Prod.snd) (filter_congr fun x hx => (hf x hx).symm)

end Pairs

variable {n : String}

section Blind

variable {env : Env} {ok : Row → Prop} {table : TableSchema} {q : Query} {rows rows' : List Row}

/-- A blind query gives the same rows in the same order, and as many. -/
theorem Blind.queried (h : Blind env ok table q)
    (hrows : Admissible ok table rows) (hrows' : Admissible ok table rows')
    (halike : List.Forall₂ (RowAlike table) rows rows') :
    (rows.filter (selects env table q)).length = (rows'.filter (selects env table q)).length ∧
      ∃ p : List (Row × Row), queried env table q rows = p.map Prod.fst ∧
        queried env table q rows' = p.map Prod.snd ∧ ∀ x ∈ p, RowAlike table x.1 x.2 := by
  obtain ⟨p, rfl, rfl, hp⟩ := exists_pairs halike
  have hok : ∀ x ∈ p, ok x.1 ∧ ok x.2 := fun x hx =>
    ⟨hrows.valid x.1 (mem_map_of_mem hx), hrows'.valid x.2 (mem_map_of_mem hx)⟩
  have hkeys : ∀ x ∈ p, ∀ y ∈ p, x ≠ y → key table x.1 ≠ key table y.1 := by
    have : Std.Symm fun x y : Row × Row => key table x.1 ≠ key table y.1 := ⟨fun _ _ hxy => Ne.symm hxy⟩
    exact fun x hx y hy hne => (pairwise_map.1 hrows.keys).forall hx hy hne
  obtain ⟨hfst, hsnd⟩ := filter_pairs p (selects env table q)
    fun x hx => h.search x.1 x.2 (hok x hx).1 (hok x hx).2 (hp x hx)
  refine ⟨by rw [hfst, hsnd, length_map, length_map], ?_⟩
  -- the pairs are sorted by their first components, which is the order of the second ones
  refine ⟨(p.filter fun x => selects env table q x.1).insertionSort fun x y =>
    before env table (orderColumn table q) x.1 y.1 = true, ?_, ?_, ?_⟩
  · rw [DbAdmin.queried, hfst]
    exact (map_insertionSort _ _ Prod.fst _ fun x _ y _ => Iff.rfl).symm
  · rw [DbAdmin.queried, hsnd]
    refine (map_insertionSort _ _ Prod.snd _ fun x hx y hy => ?_).symm
    obtain ⟨hxp, hxs⟩ := mem_filter.1 hx
    obtain ⟨hyp, hys⟩ := mem_filter.1 hy
    by_cases hxy : x = y
    · subst hxy
      simp only [before_refl]
    · rw [h.order x.1 x.2 y.1 y.2 (hok x hxp).1 (hok x hxp).2 (hok y hyp).1 (hok y hyp).2 (hp x hxp) (hp y hyp)
        (hkeys x hxp y hyp hxy) hxs hys]
  · intro x hx
    exact hp x (mem_filter.1 ((mem_insertionSort _).1 hx)).1

theorem listRows_eq (htable : getTable env n = .ok table) (db : Db) (limit offset : ℤ) :
    listRows env db n limit offset q =
      .ok ((((queried env table q (db n)).drop offset.toNat).take (clamp limit)).map (redactRow table),
        ((db n).filter (selects env table q)).length) := by
  rw [listRows, htable]
  rfl

theorem Blind.listRows (h : Blind env ok table q) {db db' : Db} (htable : getTable env n = .ok table)
    (hrows : Admissible ok table (db n)) (hrows' : Admissible ok table (db' n))
    (halike : List.Forall₂ (RowAlike table) (db n) (db' n)) (limit offset : ℤ) :
    listRows env db n limit offset q = listRows env db' n limit offset q := by
  obtain ⟨hlength, p, hfst, hsnd, hp⟩ := h.queried hrows hrows' halike
  have hpage : ∀ (f : Row × Row → Row), ((p.map f).drop offset.toNat).take (clamp limit) =
      ((p.drop offset.toNat).take (clamp limit)).map f := fun f => by rw [← map_drop, ← map_take]
  have hredact : (((p.drop offset.toNat).take (clamp limit)).map Prod.fst).map (redactRow table) =
      (((p.drop offset.toNat).take (clamp limit)).map Prod.snd).map (redactRow table) := by
    rw [map_map, map_map]
    exact map_congr_left fun x hx => redactRow_alike (hp x (mem_of_mem_drop (mem_of_mem_take hx)))
  rw [listRows_eq htable, listRows_eq htable, hfst, hsnd, hlength, hpage, hpage, hredact]

/-- Rows are found by their keys, which are not redacted. -/
theorem fetchRow_alike (ht : table ∈ tables)
    (halike : List.Forall₂ (RowAlike table) rows rows') (n rowId : String) :
    fetchRow env table rows n rowId = fetchRow env table rows' n rowId := by
  unfold fetchRow
  rcases hkey : table.primaryKey with _ | ⟨pk, _ | ⟨pk', rest⟩⟩
  · rfl
  · have hpk : Visible table pk := visible_key ht (by rw [hkey]; exact mem_cons_self)
    dsimp only
    induction halike with
    | nil => rfl
    | @cons a a' rows rows' ha _ ih =>
      rw [List.find?_cons, List.find?_cons, ← ha.visible hpk]
      cases (a pk).any (env.keyIs · rowId) with
      | false => exact ih
      | true => exact congrArg Except.ok (redactRow_alike ha)
  · rfl

/-! ## Queries that are not -/

/-- A database with the rows of one table. -/
def onlyTable (tableName : String) (rows : List Row) : Db := fun n => if n = tableName then rows else []

variable {ok : String → Row → Prop}

theorem dbAlike_onlyTable (htable : getTable env n = .ok table)
    (hrows : Admissible (ok n) table rows) (hrows' : Admissible (ok n) table rows')
    (halike : List.Forall₂ (RowAlike table) rows rows') :
    DbAlike env ok (onlyTable n rows) (onlyTable n rows') := by
  have hempty : ∀ m t, Admissible (ok m) t [] := fun m t => ⟨by simp, List.Pairwise.nil⟩
  have htwo : ∀ m t, getTable env m = .ok t → m = n → t = table := by
    rintro m t hm rfl
    exact Except.ok.inj (hm.symm.trans htable)
  refine ⟨fun m t hm => ?_, fun m t hm => ?_, fun m t hm => ?_⟩
  · unfold onlyTable
    split_ifs with hmn
    · rw [htwo m t hm hmn, hmn]
      exact hrows
    · exact hempty m t
  · unfold onlyTable
    split_ifs with hmn
    · rw [htwo m t hm hmn, hmn]
      exact hrows'
    · exact hempty m t
  · unfold onlyTable
    split_ifs with hmn
    · rw [htwo m t hm hmn]
      exact halike
    · exact List.Forall₂.nil

theorem onlyTable_self (n : String) (rows : List Row) : onlyTable n rows n = rows := if_pos rfl

/-- The total says whether a single row was selected. -/
theorem Hides.search (h : Hides env ok n q)
    (htable : getTable env n = .ok table) {a a' : Row} (ha : ok n a) (ha' : ok n a') (halike : RowAlike table a a') :
    selects env table q a = selects env table q a' := by
  have hone : ∀ {a}, ok n a → Admissible (ok n) table [a] :=
    fun ha => ⟨by simpa using ha, pairwise_singleton _ _⟩
  have hdb := dbAlike_onlyTable htable (hone ha) (hone ha') (.cons halike .nil)
  have heq := (h _ _ hdb).1 1 0
  rw [listRows_eq htable, listRows_eq htable, onlyTable_self, onlyTable_self, Except.ok.injEq, Prod.mk.injEq] at heq
  have htotal : ∀ a, ([a].filter (selects env table q)).length = (selects env table q a).toNat := by
    intro a
    cases ha : selects env table q a <;> simp [ha]
  rw [htotal, htotal] at heq
  have hinj : ∀ x y : Bool, x.toNat = y.toNat → x = y := by decide
  exact hinj _ _ heq.2

/-- The first of two selected rows. -/
theorem listRows_first (htable : getTable env n = .ok table) {a b : Row}
    (ha : selects env table q a = true) (hb : selects env table q b = true) :
    listRows env (onlyTable n [a, b]) n 1 0 q =
      .ok ([redactRow table (if before env table (orderColumn table q) a b = true then a else b)], 2) := by
  have hsort : queried env table q [a, b] =
      if before env table (orderColumn table q) a b = true then [a, b] else [b, a] := by
    simp [queried, ha, hb, List.insertionSort, List.orderedInsert]
  have hclamp : clamp 1 = 1 := by decide
  rw [listRows_eq htable, onlyTable_self, hsort, hclamp]
  split_ifs <;> simp [ha, hb]

/-- The first page of two selected rows says which comes first. -/
theorem Hides.order (h : Hides env ok n q)
    (htable : getTable env n = .ok table) {a a' b b' : Row} (ha : ok n a) (ha' : ok n a') (hb : ok n b) (hb' : ok n b')
    (haa : RowAlike table a a') (hbb : RowAlike table b b') (hkey : key table a ≠ key table b)
    (hsa : selects env table q a = true) (hsb : selects env table q b = true) :
    before env table (orderColumn table q) a b = before env table (orderColumn table q) a' b' := by
  have ht := getTable_mem htable
  have hkey' : key table a' ≠ key table b' := by rwa [← key_alike ht haa, ← key_alike ht hbb]
  have hsa' : selects env table q a' = true := (h.search htable ha ha' haa).symm.trans hsa
  have hsb' : selects env table q b' = true := (h.search htable hb hb' hbb).symm.trans hsb
  have hdb : DbAlike env ok (onlyTable n [a, b]) (onlyTable n [a', b']) := by
    refine dbAlike_onlyTable htable ⟨?_, ?_⟩ ⟨?_, ?_⟩ (.cons haa (.cons hbb .nil))
    · simpa using ⟨ha, hb⟩
    · simpa using hkey
    · simpa using ⟨ha', hb'⟩
    · simpa using hkey'
  have heq := (h _ _ hdb).1 1 0
  rw [listRows_first htable hsa hsb, listRows_first htable hsa' hsb', Except.ok.injEq, Prod.mk.injEq,
    List.cons.injEq] at heq
  have hfirst := heq.1.1
  -- otherwise the first rows are the masked images of two different keys
  by_contra hne
  rcases hab : before env table (orderColumn table q) a b with _ | _ <;>
    rcases hab' : before env table (orderColumn table q) a' b' with _ | _ <;>
    simp only [hab, hab', if_true, Bool.false_eq_true, if_false] at hfirst hne
  · exact hne trivial
  · exact hkey (key_of_redactRow ht (hfirst.trans (redactRow_alike haa).symm)).symm
  · exact hkey (key_of_redactRow ht (hfirst.trans (redactRow_alike hbb).symm))
  · exact hne trivial

end Blind

/-- A query hides what is redacted exactly when its `WHERE` and `ORDER BY` clauses are blind to it. -/
theorem redacted_hidden_iff (env : Env) (ok : String → Row → Prop) (tableName : String) (q : Query) :
    Hides env ok tableName q ↔ ∀ table, getTable env tableName = .ok table → Blind env (ok tableName) table q := by
  constructor
  · intro h table htable
    refine ⟨fun a a' ha ha' haa => h.search htable ha ha' haa, ?_⟩
    exact fun a a' b b' ha ha' hb hb' haa hbb hkey hsa hsb =>
      h.order htable ha ha' hb hb' haa hbb hkey hsa hsb
  · intro h db db' hdb
    rcases htable : getTable env tableName with e | table
    · refine ⟨fun limit offset => ?_, fun rowId => ?_⟩
      · rw [listRows, listRows, htable]
        rfl
      · rw [getRow, getRow, htable]
        rfl
    · have hleft := hdb.left tableName table htable
      have hright := hdb.right tableName table htable
      have halike := hdb.alike tableName table htable
      refine ⟨(h table htable).listRows htable hleft hright halike, fun rowId => ?_⟩
      rw [getRow, getRow, htable]
      exact fetchRow_alike (getTable_mem htable) halike tableName rowId

/-- A query is blind if it sorts by a column that is not redacted, and searches for nothing or in a table
without JSON-redacted columns. -/
theorem blind_of_visible (env : Env) (ok : Row → Prop) (table : TableSchema) (q : Query)
    (hsearch : env.strip (q.search.getD "") = "" ∨ jsonRedactColumns table.name = [])
    (horder : ∀ o ∈ orderColumn table q, Visible table o.1) : Blind env ok table q := by
  refine ⟨fun a a' _ _ haa => ?_, fun a a' b b' _ _ _ _ haa hbb _ _ _ => ?_⟩
  · unfold selects
    rcases hsearch with hblank | hjson
    · simp [hblank]
    · have hcolumns : searchCondition env table (env.strip (q.search.getD "")) a =
          searchCondition env table (env.strip (q.search.getD "")) a' := by
        rw [Bool.eq_iff_iff, searchCondition, searchCondition, any_eq_true, any_eq_true]
        refine exists_congr fun c => and_congr_right fun hc => ?_
        by_cases hsensitive : c ∈ globalSensitiveColumns
        · simp [hsensitive]
        · rw [haa.visible ⟨hc, hsensitive, by simp [hjson]⟩]
      simp only [hcolumns]
  · rcases ho : orderColumn table q with _ | ⟨c, desc⟩
    · rfl
    · have hc := horder (c, desc) ho
      cases desc <;> simp only [before, haa.visible hc, hbb.visible hc]

/-- A query that sorts by a column that is not redacted, and searches for nothing or in a table without
JSON-redacted columns, shows nothing of what is redacted. -/
theorem hides_of_visible (env : Env) (ok : String → Row → Prop) (tableName : String) (q : Query)
    (h : ∀ table, getTable env tableName = .ok table →
      (env.strip (q.search.getD "") = "" ∨ jsonRedactColumns table.name = []) ∧
        ∀ o ∈ orderColumn table q, Visible table o.1) : Hides env ok tableName q := by
  intro db db' hdb
  rcases htable : getTable env tableName with e | table
  · simp [listRows, getRow, htable, bind, Except.bind]
  · have halike := hdb.alike tableName table htable
    have hblind := blind_of_visible env (ok tableName) table q (h table htable).1 (h table htable).2
    refine ⟨hblind.listRows htable (hdb.left _ _ htable) (hdb.right _ _ htable) halike, fun rowId => ?_⟩
    rw [getRow, getRow, htable]
    exact fetchRow_alike (getTable_mem htable) halike tableName rowId

/-! ## Two queries that leak -/

mutual

/-- The text of a JSON value, without escapes. -/
def jsonText : Json → String
  | .null => "null"
  | .bool b => if b then "true" else "false"
  | .num text => text
  | .str s => "\"" ++ s ++ "\""
  | .arr items => "[" ++ jsonItems items ++ "]"
  | .obj fields => "\x7b" ++ jsonFields fields ++ "\x7d"

def jsonItems : List Json → String
  | [] => ""
  | item :: items => jsonText item ++ ", " ++ jsonItems items

def jsonFields : List (String × Json) → String
  | [] => ""
  | (key, value) :: fields => "\"" ++ key ++ "\": " ++ jsonText value ++ ", " ++ jsonFields fields

end

def valueText : Value → String
  | .scalar s => s
  | .json j => jsonText j

def sampleEnv : Env where
  strip := id
  repr := id
  fold := Char.toLower
  castText := fun _ _ v => valueText v
  le := fun _ _ v w => decide (valueText v ≤ valueText w)
  le_refl := fun _ _ v => by simp
  keyIs := fun v id => valueText v == id

def userRow (id hash : String) : Row := fun c =>
  some (.scalar (if c = "id" then id else if c = "password_hash" then hash else ""))

def commandRow (secret : String) : Row := fun c =>
  if c = "payload" then some (.json (.obj [("linux", .obj [("env", .obj [("KEY", .str secret)])])]))
  else if c = "result" then none
  else some (.scalar "")

def usersTable : TableSchema := stamped "users" ["email", "password_hash", "is_active"]

def commandsTable : TableSchema :=
  stamped "agent_commands" ["agent_id", "command_type", "payload", "idempotency_key", "status", "correlation_id",
    "expires_at", "result", "error"]

theorem userRow_alike (id hash hash' : String) : RowAlike usersTable (userRow id hash) (userRow id hash') := by
  intro c _
  by_cases hc : c = "password_hash"
  · subst hc
    exact rfl
  · have hsame : userRow id hash c = userRow id hash' c := by simp only [userRow, hc, if_false]
    rw [hsame]
    unfold ColumnAlike
    split_ifs with hsensitive hjson
    · rfl
    · simp [usersTable, stamped, keyed, jsonRedactColumns] at hjson
    · rfl

theorem commandRow_alike (secret secret' : String) :
    RowAlike commandsTable (commandRow secret) (commandRow secret') := by
  intro c _
  by_cases hc : c = "payload"
  · subst hc
    refine .some ⟨_, rfl, _, _, rfl, Or.inl ⟨_, rfl, _, _, rfl, Or.inr ⟨rfl, _, _, rfl, rfl, rfl⟩, rfl⟩, rfl⟩
  · have hsame : commandRow secret c = commandRow secret' c := by simp only [commandRow, hc, if_false]
    rw [hsame]
    unfold ColumnAlike
    split_ifs with hsensitive hjson
    · rfl
    · obtain rfl : c = "result" := by simpa [commandsTable, stamped, keyed, jsonRedactColumns, hc] using hjson
      exact .none
    · rfl

/-- The key of the first row of a page. -/
def firstId (r : Except String (List (List (String × Option Value)) × ℕ)) : Option String :=
  ((r.toOption.bind fun page => page.1.head?).bind fun row => (List.lookup "id" row).join).map valueText

/-- The order of the rows depends on the password hashes, and the total on an environment variable. -/
theorem redacted_values_leak :
    (DbAlike sampleEnv (fun _ _ => True) (onlyTable "users" [userRow "1" "a", userRow "2" "b"])
        (onlyTable "users" [userRow "1" "b", userRow "2" "a"]) ∧
      firstId (listRows sampleEnv (onlyTable "users" [userRow "1" "a", userRow "2" "b"]) "users" 50 0
        ⟨none, some "password_hash", "asc"⟩) = some "1" ∧
      firstId (listRows sampleEnv (onlyTable "users" [userRow "1" "b", userRow "2" "a"]) "users" 50 0
        ⟨none, some "password_hash", "asc"⟩) = some "2") ∧
    DbAlike sampleEnv (fun _ _ => True) (onlyTable "agent_commands" [commandRow "s3cret"])
        (onlyTable "agent_commands" [commandRow "other"]) ∧
      (listRows sampleEnv (onlyTable "agent_commands" [commandRow "s3cret"]) "agent_commands" 50 0
        ⟨some "S3C", none, "asc"⟩).toOption.map Prod.snd = some 1 ∧
      (listRows sampleEnv (onlyTable "agent_commands" [commandRow "other"]) "agent_commands" 50 0
        ⟨some "S3C", none, "asc"⟩).toOption.map Prod.snd = some 0 := by
  have husers : getTable sampleEnv "users" = .ok usersTable := rfl
  have hcommands : getTable sampleEnv "agent_commands" = .ok commandsTable := rfl
  have htwo : ∀ hash hash', Admissible (fun _ => True) usersTable [userRow "1" hash, userRow "2" hash'] := by
    intro hash hash'
    refine ⟨fun _ _ => trivial, pairwise_pair.2 ?_⟩
    simp [key, usersTable, stamped, keyed, userRow]
  have hone : ∀ secret, Admissible (fun _ => True) commandsTable [commandRow secret] :=
    fun secret => ⟨fun _ _ => trivial, pairwise_singleton _ _⟩
  refine ⟨⟨?_, by decide +kernel, by decide +kernel⟩, ?_, by decide +kernel, by decide +kernel⟩
  · exact dbAlike_onlyTable husers (htwo _ _) (htwo _ _)
      (.cons (userRow_alike _ _ _) (.cons (userRow_alike _ _ _) .nil))
  · exact dbAlike_onlyTable hcommands (hone _) (hone _) (.cons (commandRow_alike _ _) .nil)

/-- A search in the users, sorted by their emails. -/
theorem hides_of_visible_users :
    Hides sampleEnv (fun _ _ => True) "users" ⟨some "ann", some "email", "asc"⟩ := by
  refine hides_of_visible _ _ _ _ fun table htable => ?_
  obtain rfl : usersTable = table := Except.ok.inj htable
  exact ⟨Or.inr rfl, fun o ho => by cases ho; unfold Visible; decide⟩

end Healer.DbAdmin
