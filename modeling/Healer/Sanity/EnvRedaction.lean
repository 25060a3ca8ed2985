import Healer.Spec.DbAdmin

/-! `_redact` does not tell apart two JSON values that differ only in the values of `env` dicts. -/

namespace Healer.DbAdmin

/-- Two `env` dicts with the same keys. -/
def EnvDicts (key : String) (v v' : Json) : Prop :=
  key = "env" ∧ ∃ inner inner', v = .obj inner ∧ v' = .obj inner' ∧ inner.map Prod.fst = inner'.map Prod.fst

mutual

/-- The same but for the values of `env` dicts inside. -/
def Alike : Json → Json → Prop
  | .obj fields, w => ∃ fields', w = .obj fields' ∧ AlikeFields fields fields'
  | .arr items, w => ∃ items', w = .arr items' ∧ AlikeItems items items'
  | .null, w => w = .null
  | .bool b, w => w = .bool b
  | .num text, w => w = .num text
  | .str s, w => w = .str s

def AlikeFields : List (String × Json) → List (String × Json) → Prop
  | [], fields => fields = []
  | (key, v) :: rest, fields => ∃ v' rest', fields = (key, v') :: rest' ∧ (Alike v v' ∨ EnvDicts key v v') ∧
      AlikeFields rest rest'

def AlikeItems : List Json → List Json → Prop
  | [], items => items = []
  | v :: rest, items => ∃ v' rest', items = v' :: rest' ∧ Alike v v' ∧ AlikeItems rest rest'

end

theorem alikeFields_keys {fields fields' : List (String × Json)} (h : AlikeFields fields fields') :
    fields.map Prod.fst = fields'.map Prod.fst := by
  induction fields generalizing fields' with
  | nil =>
    cases h
    rfl
  | cons f rest ih =>
    obtain ⟨v', rest', rfl, -, hrest⟩ := h
    simp [ih hrest]

theorem maskEnv_envDicts {k : String} {v v' r r' : Json} (h : EnvDicts k v v') : maskEnv k v r = maskEnv k v' r' := by
  obtain ⟨rfl, inner, inner', rfl, rfl, hkeys⟩ := h
  have hmask : ∀ l : List (String × Json), (l.map fun f => (f.1, Json.str "[REDACTED]")) =
      (l.map Prod.fst).map fun k => (k, Json.str "[REDACTED]") := by simp
  simp only [maskEnv, if_true]
  rw [hmask, hmask, hkeys]

/-- Without `env` dicts on both sides it is the redacted values that count. -/
theorem maskEnv_alike {k : String} {v v' : Json} (h : Alike v v') (hredact : redact v = redact v') :
    maskEnv k v (redact v) = maskEnv k v' (redact v') := by
  by_cases hk : k = "env"
  · cases v with
    | obj fields =>
      obtain ⟨fields', rfl, hfields⟩ := h
      exact maskEnv_envDicts ⟨hk, fields, fields', rfl, rfl, alikeFields_keys hfields⟩
    | arr items =>
      obtain ⟨items', rfl, -⟩ := h
      simp [maskEnv, hredact]
    | null | bool | num | str =>
      cases h
      rfl
  · simp [maskEnv, hk, hredact]

mutual

theorem redact_alike : ∀ v v' : Json, Alike v v' → redact v = redact v'
  | .obj fields, _, ⟨fields', hv, hfields⟩ => by
    rw [hv, redact, redact, redactFields_alike fields fields' hfields]
  | .arr items, _, ⟨items', hv, hitems⟩ => by
    rw [hv, redact, redact, redactItems_alike items items' hitems]
  | .null, _, h | .bool _, _, h | .num _, _, h | .str _, _, h => by rw [h]

theorem redactFields_alike : ∀ fields fields' : List (String × Json), AlikeFields fields fields' →
    redactFields fields = redactFields fields'
  | [], _, h => by rw [h]
  | (k, v) :: rest, _, ⟨v', rest', hfields, hv, hrest⟩ => by
    rw [hfields, redactFields, redactFields, redactFields_alike rest rest' hrest]
    congr 2
    rcases hv with hv | hv
    · exact maskEnv_alike hv (redact_alike v v' hv)
    · exact maskEnv_envDicts hv

theorem redactItems_alike : ∀ items items' : List Json, AlikeItems items items' →
    redactItems items = redactItems items'
  | [], _, h => by rw [h]
  | v :: rest, _, ⟨v', rest', hitems, hv, hrest⟩ => by
    rw [hitems, redactItems, redactItems, redact_alike v v' hv, redactItems_alike rest rest' hrest]

end

end Healer.DbAdmin
