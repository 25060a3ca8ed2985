import Healer.Lib.Runs
import Healer.Sanity.DeployFiles
import Healer.Spec.DeployLock

/-! The migrate lock of an application: in which runs of the agent it is held by one execution at a time and gone when
nobody migrates. -/

namespace Healer

namespace DeployLock

variable {ι : Type} [DecidableEq ι] {os : AgentOs} {dataDir : List String} {slug : String} {s : DeployLock ι}
  {x : ι} {phase : DeployPhase}

/-- At most one execution migrates, and the lock is there iff one does. -/
structure Sound (s : DeployLock ι) : Prop where
  exclusive : ∀ x y, s.runs x = some .migrating → s.runs y = some .migrating → x = y
  held : s.lock = true ↔ ∃ x, s.runs x = some .migrating

/-- The agent does not end while an execution migrates, the lock is removed after a migration, and no shared directory
is put over the lock or below it: its place is not cleared during a migration, and it is not linked or made a directory
when there is none. -/
def Tidy (os : AgentOs) (dataDir : List String) (slug : String) (s : DeployLock ι) : DeployEvent ι → Prop
  | .mkdir x => ∀ q qs, s.runs x = some (.sharing (q :: qs) .mkdir) → place os dataDir slug <+: q.dropLast →
      ∃ y, s.runs y = some .migrating
  | .clear x => ∀ q qs, s.runs x = some (.sharing (q :: qs) .clear) → q <+: place os dataDir slug →
      ∀ y, s.runs y ≠ some .migrating
  | .link x _ => ∀ q qs, s.runs x = some (.sharing (q :: qs) .link) → q = place os dataDir slug →
      ∃ y, s.runs y = some .migrating
  | .finish x _ removed => s.runs x = some .migrating → removed = true
  | .crash => ∀ x, s.runs x ≠ some .migrating
  | _ => True

section

variable {ι : Type} {s : DeployLock ι}

theorem Sound.unlocked_iff (h : s.Sound) : s.lock = false ↔ ∀ y, s.runs y ≠ some .migrating := by
  rw [← Bool.not_eq_true, h.held, not_exists]

end

/-- The lock is taken by creating it. -/
theorem Sound.take (h : s.Sound) (hlock : s.lock = false) :
    ({ s with lock := true }.move x .migrating : DeployLock ι).Sound := by
  have hidle := h.unlocked_iff.1 hlock
  have honly : ∀ y, ({ s with lock := true }.move x .migrating : DeployLock ι).runs y = some .migrating ↔ y = x := by
    intro y
    by_cases hy : y = x
    · simp [move, hy]
    · simp [move, hy, hidle y]
  exact ⟨fun y z hy hz => ((honly y).1 hy).trans ((honly z).1 hz).symm, fun _ => ⟨x, (honly x).2 rfl⟩, fun _ => rfl⟩

/-! ## The events -/

end DeployLock

end Healer
