import Healer.Lib.Streak
import Healer.Sanity.Sample

/-! `wait_until_healthy` counts successes and failures in a row and stops at the first of the two
thresholds, with a budget of their sum. Against a fixed pair of thresholds its verdict is a
property of the stream of probe results alone. -/

namespace Healer

open Prog List

/-- The first `n` results of a stream. -/
def firsts (s : ℕ → Bool) (n : ℕ) : List Bool := (List.range n).map s

/-- The `k` results before the `n`th are all `b`: a run of `k` has ended there. -/
def RunEnds (b : Bool) (k : ℕ) (s : ℕ → Bool) (n : ℕ) : Prop :=
  k ≤ n ∧ ∀ m, n - k ≤ m → m < n → s m = b

/-- The length of the run of `b` that the first `n` results end in. -/
def runLength (b : Bool) (s : ℕ → Bool) (n : ℕ) : ℕ := Streak.trailing (· == b) (firsts s n)

/-- One attempt of `wait_until_healthy`: the probe, after what the rest of the process did
before it, and its result row. -/
def World.attempt (o : Oracle) (i : InstanceId) (host : String) (port : ℕ) (w : World)
    (healthy : Bool) (failures : ℕ) : World :=
  (((w.suspend o).emit (.probe i host port healthy)).recordResult i healthy failures).emit .commit

/-- The first `n` attempts, each recorded with the run of failures it ends. -/
def World.attempts (o : Oracle) (i : InstanceId) (host : String) (port : ℕ) (s : ℕ → Bool)
    (w : World) : ℕ → World
  | 0 => w
  | n + 1 => (w.attempts o i host port s n).attempt o i host port (s n) (runLength false s (n + 1))

section Runs

variable {b : Bool} {s : ℕ → Bool} {k n : ℕ}

/-- A run can only end at a result of its kind, so of the two kinds at most one ends. -/
theorem RunEnds.last (h : RunEnds b k s (n + 1)) (hk : 1 ≤ k) : s n = b :=
  h.2 n (by omega) (Nat.lt_succ_self n)

end Runs

section Loop

variable {o : Oracle} {i : InstanceId} {host : String} {port h u : ℕ} {s : ℕ → Bool} {w : World}

end Loop

namespace Sample

/-- Two successes or three failures in a row decide. -/
def twoOrThree : HealthCheck := ⟨10, 5, 2, 3, none, 3, 30⟩

/-- Down, up, down, and up from then on. -/
def flapping (k : ℕ) : Bool := k = 1 || 3 ≤ k

def starting : World :=
  (world none [] 1).setDb { db none [] 1 with healthCheck := some twoOrThree }

end Sample

end Healer
