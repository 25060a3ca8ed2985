import Healer.Sanity.Healing
import Healer.Sanity.Sample

/-! Whether a call of `handle_unhealthy_instance` leaves its instances in an accounted state. -/

namespace Healer

open Function List Sample

open Prog (Ends)

/-- A send that failed, a probe that raised, a row that the database refused, or a replacement that did
not pass its health gate. -/
def Note.fatal (i : InstanceId) : Note → Bool
  | .lost _ | .raised _ | .unstored => true
  | .unhealthy j => j != i
  | _ => false

/-- What the call appends to the notes: a fatal one when it raises, none when it returns. -/
def Noted (i : InstanceId) (L : Ledger) (r : Except Exn Unit) (L' : Ledger) : Prop :=
  ∃ ns : List Note, L'.notes = L.notes ++ ns ∧ (r ≠ .ok () ↔ ∃ n ∈ ns, n.fatal i = true)

/-- So far only the row of `i` differs, and nothing fatal has been noted. -/
structure Treated (i : InstanceId) (inst : Instance) (L L1 : Ledger) : Prop where
  row : L1.row = Function.update L.row i (some inst)
  next : L1.next = L.next
  notifications : L1.notifications = L.notifications
  notes : ∃ ns : List Note, L1.notes = L.notes ++ ns ∧ ∀ n ∈ ns, n.fatal i = false

section Ledgers

variable {cool : Instance → Bool} {i j : InstanceId} {inst a b : Instance} {L L1 L' : Ledger}
  {r : Except Exn Unit}

theorem Treated.put (h : Treated i inst L L1) (a : Instance) : Treated i a L (L1.put i a) := by
  refine ⟨?_, h.next, h.notifications, h.notes⟩
  change Function.update L1.row i (some a) = _
  rw [h.row, update_idem]

theorem Treated.audit (h : Treated i inst L L1) (action : AuditAction) (port : ℕ) :
    Treated i inst L (L1.audit i action port) :=
  ⟨h.row, h.next, h.notifications, h.notes⟩

theorem Treated.write (h : Treated i inst L L1) {n : Note} (hn : n.fatal i = false) :
    Treated i inst L (L1.write n) := by
  obtain ⟨ns, hns, hclean⟩ := h.notes
  refine ⟨h.row, h.next, h.notifications, ns ++ [n], ?_, ?_⟩
  · change L1.notes ++ [n] = _
    rw [hns, append_assoc]
  · intro m hm
    rw [mem_append, mem_singleton] at hm
    rcases hm with hm | rfl
    · exact hclean m hm
    · exact hn

/-- A call that has gone well so far returns. -/
theorem Treated.fine (h : Treated i inst L L1) (ns : List Note) (hns : L'.notes = L1.notes ++ ns)
    (hclean : ∀ n ∈ ns, n.fatal i = false) : Noted i L (.ok ()) L' := by
  obtain ⟨ms, hms, hclean'⟩ := h.notes
  refine ⟨ms ++ ns, by rw [hns, hms, append_assoc], iff_of_false (fun h => h rfl) ?_⟩
  rintro ⟨n, hn, hf⟩
  rcases mem_append.1 hn with hn | hn
  · rw [hclean' n hn] at hf
    cases hf
  · rw [hclean n hn] at hf
    cases hf

variable (hfresh : ∀ j, L.next ≤ j → L.row j = none)

include hfresh

end Ledgers

/-! ## The call -/

end Healer
