import Healer.Sanity.Scaling

/-! Which live instances `_scale_down` takes and which it keeps: the newest ones go. -/

namespace Healer

open List

def Db.created (db : Db) (i : InstanceId) : Time :=
  ((db.instances.row i).map Instance.createdAt).getD 0

def Db.newestFirst (db : Db) (live : List InstanceId) : List InstanceId :=
  live.insertionSort fun i j => db.created j ≤ db.created i

/-- The live instances that `Db.toDrain` leaves, newest first. -/
def Db.toKeep (db : Db) (live : List InstanceId) (count : ℕ) : List InstanceId :=
  (db.newestFirst live).drop count

section Batch

variable {db : Db} {live : List InstanceId} {count : ℕ} {i j : InstanceId}

theorem toDrain_append_toKeep (db : Db) (live : List InstanceId) (count : ℕ) :
    db.toDrain live count ++ db.toKeep live count = db.newestFirst live :=
  take_append_drop _ _

theorem newestFirst_perm (db : Db) (live : List InstanceId) : (db.newestFirst live).Perm live :=
  perm_insertionSort _ _

theorem length_toKeep (db : Db) (live : List InstanceId) (count : ℕ) :
    (db.toKeep live count).length = live.length - count := by
  rw [Db.toKeep, length_drop, (newestFirst_perm db live).length_eq]

theorem mem_toKeep (h : live.Nodup) :
    i ∈ db.toKeep live count ↔ i ∈ live ∧ i ∉ db.toDrain live count := by
  have hsplit := toDrain_append_toKeep db live count
  have hdisjoint : (db.toDrain live count).Disjoint (db.toKeep live count) := by
    have hnodup := (newestFirst_perm db live).nodup_iff.2 h
    rw [← hsplit] at hnodup
    exact disjoint_of_nodup_append hnodup
  have hlive : i ∈ live ↔ i ∈ db.toDrain live count ∨ i ∈ db.toKeep live count := by
    rw [← (newestFirst_perm db live).mem_iff, ← hsplit, mem_append]
  rw [hlive]
  constructor
  · intro hi
    exact ⟨Or.inr hi, fun hdrain => hdisjoint hdrain hi⟩
  · rintro ⟨hdrain | hkeep, hnot⟩
    · exact (hnot hdrain).elim
    · exact hkeep

/-- What is kept is no newer than what is drained. -/
theorem toKeep_older (hi : i ∈ db.toKeep live count) (hj : j ∈ db.toDrain live count) :
    db.created i ≤ db.created j := by
  have : Std.Total fun i j => db.created j ≤ db.created i := ⟨fun a b => Int.le_total _ _⟩
  have : IsTrans InstanceId fun i j => db.created j ≤ db.created i :=
    ⟨fun a b c hab hbc => Int.le_trans hbc hab⟩
  have hsorted : (db.newestFirst live).Pairwise fun i j => db.created j ≤ db.created i :=
    pairwise_insertionSort _ _
  rw [← toDrain_append_toKeep db live count, pairwise_append] at hsorted
  exact hsorted.2.2 j hj i hi

theorem mem_liveInstances : i ∈ db.liveInstances ↔
    ∃ inst, db.instances.row i = some inst ∧ inst.status ∈ liveStatuses := by
  simp only [Db.liveInstances, Table.mem_select, contains_iff_mem]

theorem liveInstances_nodup (db : Db) : db.liveInstances.Nodup := Table.select_nodup _ _

theorem batch_rows (db : Db) (count : ℕ) : ∀ j ∈ db.toDrain db.liveInstances count,
    ∃ inst, db.instances.row j = some inst := by
  intro j hj
  have hlive : j ∈ db.liveInstances :=
    (newestFirst_perm db _).mem_iff.1 (mem_of_mem_take hj)
  obtain ⟨inst, hrow, -⟩ := mem_liveInstances.1 hlive
  exact ⟨inst, hrow⟩

theorem terminal_not_live {st : InstanceStatus} (h : st.terminal = true) : st ∉ liveStatuses := by
  cases st with
  | stopped | failed => decide
  | _ => cases h

end Batch

section TakenOut

variable {w w' : World} {count : ℕ}

/-- Once the batch has ended, the live instances are the kept ones. -/
theorem TakenOut.mem_live (h : TakenOut (w.db.toDrain w.db.liveInstances count) w w') (i : InstanceId) :
    i ∈ w'.db.liveInstances ↔ i ∈ w.db.toKeep w.db.liveInstances count := by
  rw [mem_toKeep (liveInstances_nodup _)]
  by_cases hi : i ∈ w.db.toDrain w.db.liveInstances count
  · obtain ⟨inst, hrow, hterm⟩ := h.done i hi
    refine iff_of_false (fun hlive => ?_) (fun hkeep => hkeep.2 hi)
    obtain ⟨inst', hrow', hlive'⟩ := mem_liveInstances.1 hlive
    rw [show w'.db.instances.row i = some inst from hrow] at hrow'
    cases hrow'
    exact terminal_not_live hterm hlive'
  · have hrow : w'.db.instances.row i = w.db.instances.row i := h.other i hi
    rw [and_iff_left hi, mem_liveInstances, mem_liveInstances, hrow]

theorem TakenOut.length_live (h : TakenOut (w.db.toDrain w.db.liveInstances count) w w') :
    w'.db.liveInstances.length = w.db.liveInstances.length - count := by
  have hkeep : (w.db.toKeep w.db.liveInstances count).Nodup :=
    ((newestFirst_perm _ _).nodup_iff.2 (liveInstances_nodup _)).sublist (drop_sublist _ _)
  have hperm : w'.db.liveInstances.Perm (w.db.toKeep w.db.liveInstances count) :=
    (perm_ext_iff_of_nodup (liveInstances_nodup _) hkeep).2 h.mem_live
  rw [hperm.length_eq, length_toKeep]

end TakenOut

end Healer
