import Healer.Spec.DeployFiles

/-! Paths of plain names: what `filepath.Clean` and the walk make of them. -/

namespace Healer

open List

/-- A name that a directory entry can have. -/
structure AgentOs.Name (os : AgentOs) (name : String) : Prop where
  nonempty : name ≠ ""
  not_dot : name ≠ "."
  not_dots : name ≠ ".."
  plain : ∀ c ∈ name.toList, os.isSeparator c = false
  held : os.holds name = true

section Paths

variable {os : AgentOs} {names : List String} {rooted : Bool}

theorem pushPart_name {name : String} (h : os.Name name) (stack : List String) :
    pushPart rooted stack name = name :: stack := by
  simp [pushPart, h.nonempty, h.not_dot, h.not_dots]

theorem foldl_pushPart (h : ∀ n ∈ names, os.Name n) (stack : List String) :
    names.foldl (pushPart rooted) stack = names.reverse ++ stack := by
  induction names generalizing stack with
  | nil => rfl
  | cons n names ih =>
    obtain ⟨hn, hrest⟩ := forall_mem_cons.1 h
    rw [foldl_cons, pushPart_name hn, ih hrest, reverse_cons, append_assoc]
    rfl

theorem parts_text (hne : names ≠ []) (h : ∀ n ∈ names, os.Name n) : os.parts (os.text names) = names := by
  unfold AgentOs.parts AgentOs.text
  rw [String.toList_ofList]
  have hsplit : ([os.separator].intercalate (names.map String.toList)).splitOnP os.isSeparator =
      names.map String.toList := by
    induction names with
    | nil => exact absurd rfl hne
    | cons n names ih =>
      obtain ⟨hn, hrest⟩ := forall_mem_cons.1 h
      cases names with
      | nil => simpa using splitOnP_eq_singleton hn.plain
      | cons m names =>
        rw [map_cons, map_cons, intercalate_cons_cons, append_assoc, singleton_append,
          splitOnP_append_cons_of_forall_mem hn.plain _ os.isSeparator_separator, ← map_cons,
          ih (cons_ne_nil m names) hrest]
  rw [hsplit, map_map]
  simp

theorem rooted_text (h : ∀ n ∈ names, os.Name n) : os.rooted (os.text names) = false := by
  unfold AgentOs.rooted AgentOs.text
  rw [String.toList_ofList]
  cases names with
  | nil => rfl
  | cons n names =>
    obtain ⟨hn, -⟩ := forall_mem_cons.1 h
    obtain ⟨c, cs, hcs⟩ := exists_cons_of_ne_nil (l := n.toList) (by simpa using hn.nonempty)
    have hc : os.isSeparator c = false := hn.plain c (by rw [hcs]; exact mem_cons_self)
    cases names <;> simp [hcs, hc]

/-- A path of plain names is clean. -/
theorem clean_text (hne : names ≠ []) (h : ∀ n ∈ names, os.Name n) :
    os.clean (os.text names) = os.text names := by
  simp [AgentOs.clean, rooted_text h, parts_text hne h, foldl_pushPart h, hne]

theorem keys_append (os : AgentOs) (a b : List String) : os.keys (a ++ b) = os.keys a ++ os.keys b := map_append

theorem keys_dropLast (os : AgentOs) (a : List String) : os.keys a.dropLast = (os.keys a).dropLast := map_dropLast

/-- The place of an entry. -/
theorem keys_concat (os : AgentOs) (dst rel : List String) (name : String) :
    os.keys (dst ++ (rel ++ [name])) = os.keys (dst ++ rel) ++ [os.key name] := by
  simp [AgentOs.keys]

end Paths

theorem described_ok {α : Type} {os : AgentOs} {context : String} {m : FileCall α} {s s' : Files.State String Bytes}
    {a : α} (h : m s = (.ok a, s')) : described os context m s = (.ok a, s') := by
  rw [described, h]

/-- A Linux host. -/
def linuxOs : AgentOs where
  separator := '/'
  isSeparator := (· == '/')
  isSeparator_separator := rfl
  isSeparator_cases := fun _ h => .inl (beq_iff_eq.1 h)
  toLower := Char.toLower
  key := id
  holds := fun _ => true
  letters := fun _ _ => ⟨rfl, rfl⟩
  maxLinks := 40
  maxLinks_pos := by decide
  absoluteText := fun names => "/" ++ "/".intercalate names
  errorText := fun _ => ""

end Healer
