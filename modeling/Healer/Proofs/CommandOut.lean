import Healer.Sanity.EnvRedaction
import Healer.Spec.CommandOut

/-! What the API shows of a command: nothing of the values in `env` dicts, and all the rest. -/

namespace Healer

open DbAdmin

namespace DbAdmin

/-! ## Twice -/

/-- A value that is masked once is masked for good. -/
theorem maskEnv_maskEnv (k : String) (v : Json) (h : redact (redact v) = redact v) :
    maskEnv k (maskEnv k v (redact v)) (redact (maskEnv k v (redact v))) = maskEnv k v (redact v) := by
  by_cases hk : k = "env"
  · cases v with
    | obj fields => simp [maskEnv, hk]
    | arr items =>
      rw [show maskEnv k (.arr items) (redact (.arr items)) = redact (.arr items) by simp [maskEnv], h]
      simp [maskEnv, redact]
    | null | bool | num | str => simp [maskEnv, redact]
  · simp [maskEnv, hk, h]

mutual

theorem redact_redact : ∀ v : Json, redact (redact v) = redact v
  | .obj fields => by rw [redact, redact, redactFields_redactFields fields]
  | .arr items => by rw [redact, redact, redactItems_redactItems items]
  | .null | .bool _ | .num _ | .str _ => by simp only [redact]

theorem redactFields_redactFields : ∀ fields : List (String × Json),
    redactFields (redactFields fields) = redactFields fields
  | [] => rfl
  | (k, v) :: rest => by
    rw [redactFields, redactFields, redactFields_redactFields rest, maskEnv_maskEnv k v (redact_redact v)]

theorem redactItems_redactItems : ∀ items : List Json, redactItems (redactItems items) = redactItems items
  | [] => rfl
  | v :: rest => by rw [redactItems, redactItems, redact_redact v, redactItems_redactItems rest]

end

/-! ## Paths -/

inductive Step
  | key (k : String)
  | index (i : ℕ)
  deriving DecidableEq

namespace Json

def child : Json → Step → Option Json
  | .obj fields, .key k => fields.lookup k
  | .arr items, .index i => items[i]?
  | _, _ => none

/-- The value at a path. -/
def follow : Json → List Step → Option Json
  | v, [] => some v
  | v, s :: path => (v.child s).bind fun w => w.follow path

/-- A value without what is in it: the keys of a dict, the length of a list, or itself. -/
def outline : Json → Json
  | .obj fields => .obj (fields.map fun f => (f.1, .null))
  | .arr items => .arr (items.map fun _ => .null)
  | v => v

def isObj : Json → Bool
  | .obj _ => true
  | _ => false

/-- The path goes on from a dict that is stored under a key `env`. -/
def BelowEnv : Json → List Step → Prop
  | _, [] => False
  | v, s :: path => ∃ w, v.child s = some w ∧
      (s = .key "env" ∧ w.isObj = true ∧ path ≠ [] ∨ w.BelowEnv path)

/-- What becomes of the value under a step. -/
def masked : Step → Json → Json
  | .key k, w => maskEnv k w (redact w)
  | .index _, w => redact w

end Json

open Json

theorem lookup_redactFields (k : String) (fields : List (String × Json)) :
    (redactFields fields).lookup k = (fields.lookup k).map (masked (.key k)) := by
  induction fields with
  | nil => rfl
  | cons f rest ih =>
    obtain ⟨k', v⟩ := f
    rw [redactFields, List.lookup_cons, List.lookup_cons, ih]
    by_cases hk : k = k'
    · subst hk
      simp [masked]
    · rw [beq_eq_false_iff_ne.2 hk]

theorem getElem_redactItems (items : List Json) (i : ℕ) :
    (redactItems items)[i]? = items[i]?.map redact := by
  induction items generalizing i with
  | nil => rfl
  | cons v rest ih =>
    cases i with
    | zero => rfl
    | succ i => exact ih i

theorem child_redact (v : Json) (s : Step) : (redact v).child s = (v.child s).map (masked s) := by
  cases v with
  | obj fields =>
    cases s with
    | key k => exact lookup_redactFields k fields
    | index i => rfl
  | arr items =>
    cases s with
    | key k => rfl
    | index i => exact getElem_redactItems items i
  | null | bool | num | str => rfl

theorem keys_redactFields (fields : List (String × Json)) :
    (redactFields fields).map (fun f => (f.1, Json.null)) = fields.map fun f => (f.1, Json.null) := by
  induction fields with
  | nil => rfl
  | cons f rest ih => rw [redactFields, List.map_cons, List.map_cons, ih]

theorem length_redactItems (items : List Json) : (redactItems items).length = items.length := by
  induction items with
  | nil => rfl
  | cons v rest ih => rw [redactItems, List.length_cons, List.length_cons, ih]

theorem outline_redact (v : Json) : (redact v).outline = v.outline := by
  cases v with
  | obj fields => rw [redact, outline, outline, keys_redactFields]
  | arr items => rw [redact, outline, outline, List.map_const', List.map_const', length_redactItems]
  | null | bool | num | str => rfl

theorem outline_masked (s : Step) (w : Json) : (masked s w).outline = w.outline := by
  cases s with
  | index i => exact outline_redact w
  | key k =>
    by_cases hk : k = "env"
    · cases w with
      | obj inner => simp [masked, maskEnv, hk, outline, Function.comp_def]
      | arr items => simpa [masked, maskEnv] using outline_redact (.arr items)
      | null | bool | num | str => simp [masked, maskEnv, redact]
    · simpa [masked, maskEnv, hk] using outline_redact w

/-- Only the values of `env` dicts are replaced. -/
theorem masked_of_not_env {s : Step} {w : Json} (h : ¬ (s = .key "env" ∧ w.isObj = true)) :
    masked s w = redact w := by
  cases s with
  | index i => rfl
  | key k =>
    by_cases hk : k = "env"
    · cases w with
      | obj inner => exact absurd ⟨by rw [hk], rfl⟩ h
      | arr | null | bool | num | str => simp [masked, maskEnv]
    · simp [masked, maskEnv, hk]

theorem outline_follow_redact (path : List Step) : ∀ v : Json, ¬ v.BelowEnv path →
    ((redact v).follow path).map outline = (v.follow path).map outline := by
  induction path with
  | nil => intro v _; exact congrArg some (outline_redact v)
  | cons s path ih =>
    intro v hv
    rw [follow, follow, child_redact]
    cases hchild : v.child s with
    | none => rfl
    | some w =>
      rw [Option.map_some, Option.bind_some, Option.bind_some]
      have hbelow : ¬ (s = .key "env" ∧ w.isObj = true ∧ path ≠ []) ∧ ¬ w.BelowEnv path :=
        not_or.mp fun h => hv ⟨w, hchild, h⟩
      by_cases henv : s = .key "env" ∧ w.isObj = true
      · -- the path ends at the dict
        obtain rfl : path = [] := by
          by_contra hne
          exact hbelow.1 ⟨henv.1, henv.2, hne⟩
        exact congrArg some (outline_masked s w)
      · rw [masked_of_not_env henv]
        exact ih w hbelow.2

end DbAdmin

/-- Two commands that differ only in the values of `env` dicts in payload and result. -/
structure CommandModel.Alike (c c' : CommandModel) : Prop where
  rest : c' = { c with payload := c'.payload, result := c'.result }
  payload : AlikeFields c.payload c'.payload
  result : Option.Rel AlikeFields c.result c'.result

theorem redactResult_alike {result result' : Option (List (String × Json))}
    (h : Option.Rel AlikeFields result result') : result.map redactFields = result'.map redactFields := by
  cases h with
  | none => rfl
  | some hfields => exact congrArg some (redactFields_alike _ _ hfields)

theorem fromModel_alike {c c' : CommandModel} (h : c.Alike c') :
    CommandOut.fromModel c = CommandOut.fromModel c' := by
  rw [h.rest]
  simp only [CommandOut.fromModel, redactFields_alike _ _ h.payload, redactResult_alike h.result]

/-- Values that differ only inside `env` dicts are redacted to the same, and so are commands; away from
these dicts nothing changes; and once is enough. -/
theorem redact_hides_env_values_only :
    (∀ v v', Alike v v' → redact v = redact v') ∧
    (∀ c c' : CommandModel, c.Alike c' → CommandOut.fromModel c = CommandOut.fromModel c') ∧
    (∀ v path, ¬ v.BelowEnv path →
      ((redact v).follow path).map Json.outline = (v.follow path).map Json.outline) ∧
    ∀ v, redact (redact v) = redact v :=
  ⟨redact_alike, fun _ _ => fromModel_alike, fun v path => outline_follow_redact path v, redact_redact⟩

end Healer
