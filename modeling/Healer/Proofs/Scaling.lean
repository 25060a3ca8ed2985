import Healer.Proofs.Abort
import Healer.Sanity.Scaling

/-! How a scale operation ends. The transition table has neither STARTING → UNHEALTHY nor
a way from PENDING or STARTING to DRAINING, so a replica that never becomes healthy and a
live instance that has not come up yet both leave the deployment IN_PROGRESS. -/

namespace Healer

open Sample

open Prog (Ends)

theorem Scaled.unlock {past : List Entry} {w : World} (h : Scaled past w) (token : Time) :
    Scaled past (w.unlock token) :=
  h.still (news_unlock w token fun _ he => he) (fun _ he => even_background he)
    (by rw [unlock_core])

end Healer
