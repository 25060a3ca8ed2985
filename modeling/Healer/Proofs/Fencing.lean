import Healer.Lib.Lease
import Healer.Sanity.Sample

/-! The operation lock is a lease whose slot is `operation_lock_acquired_at`: every
interleaving of the row's updates is one of the lease. -/

namespace Healer

variable {ι : Type} [DecidableEq ι]

def LockEvent.lease : LockEvent ι → Lease.Event ι Time
  | .acquire x _ now => .take x now
  | .release x now => .give x now
  | .forceRelease now => .clear now
  | .crash x => .crash x

/-- The two columns are written together. -/
def Application.lockPaired (a : Application) : Prop :=
  a.operationLock.isSome = a.operationLockAcquiredAt.isSome

namespace LockRun

variable {s : LockRun ι} {e : LockEvent ι}

def lease (s : LockRun ι) : Lease ι Time :=
  ⟨s.application.operationLockAcquiredAt, s.clock, s.token, s.last⟩

omit [DecidableEq ι] in
/-- The row is free when the lease is. -/
theorem lockFree_eq (h : s.application.lockPaired) (now : Time) :
    s.application.lockFree now = s.lease.free staleLockAfter now := by
  unfold Application.lockPaired at h
  unfold Application.lockFree Lease.free lease
  cases hlock : s.application.operationLock <;> cases hat : s.application.operationLockAcquiredAt <;>
    simp_all

theorem step_acquire (h : s.application.lockPaired) (x : ι) (operation : String) (now : Time) :
    (s.step (.acquire x operation now)).application.lockPaired ∧
      (s.step (.acquire x operation now)).lease = s.lease.step staleLockAfter (.take x now) := by
  simp only [step, Lease.step, Application.acquire, lockFree_eq h]
  by_cases hfree : s.lease.free staleLockAfter now = true
  · rw [if_pos hfree, if_pos hfree]
    exact ⟨rfl, rfl⟩
  · rw [if_neg hfree, if_neg hfree]
    exact ⟨h, rfl⟩

theorem step_release (h : s.application.lockPaired) {x : ι} {t : Time} (hx : s.token x = some t)
    (now : Time) :
    (s.step (.release x now)).application.lockPaired ∧
      (s.step (.release x now)).lease = s.lease.step staleLockAfter (.give x now) := by
  simp only [step, Lease.step, Application.release, hx]
  by_cases hat : s.application.operationLockAcquiredAt = some t
  · simp only [if_pos hat]
    refine ⟨rfl, ?_⟩
    simp [lease, hx, hat]
  · simp only [if_neg hat]
    refine ⟨h, ?_⟩
    simp [lease, hx, hat]

/-- One event of the row is one event of the lease. -/
theorem step_lease (h : s.application.lockPaired) (he : s.Allowed e) :
    (s.step e).application.lockPaired ∧ (s.step e).lease = s.lease.step staleLockAfter e.lease := by
  cases e with
  | acquire x operation now => exact step_acquire h x operation now
  | release x now =>
    obtain ⟨t, ht⟩ := Option.isSome_iff_exists.1 he.2
    exact step_release h ht now
  | forceRelease now => exact ⟨rfl, rfl⟩
  | crash x => exact ⟨h, rfl⟩

omit [DecidableEq ι] in
theorem Allowed.fair (h : s.Allowed e) : s.lease.Fair e.lease := by
  cases e <;> exact h

omit [DecidableEq ι] in
theorem InTime.prompt (h : s.InTime e) : s.lease.Prompt staleLockAfter e.lease := by
  cases e <;> exact h

/-- A run of the row is a run of the lease, and what `P` says of its events `Q` says of the
lease's. -/
theorem run_lease {P : LockRun ι → LockEvent ι → Prop} {Q : Lease ι Time → Lease.Event ι Time → Prop}
    (hallowed : ∀ s e, P s e → s.Allowed e) (hPQ : ∀ s e, P s e → Q s.lease e.lease)
    (es : List (LockEvent ι)) :
    ∀ s : LockRun ι, s.application.lockPaired → s.Throughout P es →
      (s.run es).application.lockPaired ∧
        (s.run es).lease = s.lease.run staleLockAfter (es.map LockEvent.lease) ∧
        s.lease.Along staleLockAfter Q (es.map LockEvent.lease) := by
  induction es with
  | nil => intro s h _; exact ⟨h, rfl, trivial⟩
  | cons e es ih =>
    intro s h hes
    obtain ⟨hpaired, heq⟩ := step_lease h (hallowed s e hes.1)
    obtain ⟨hpaired', hrun, halong⟩ := ih (s.step e) hpaired hes.2
    rw [heq] at hrun halong
    exact ⟨hpaired', hrun, hPQ s e hes.1, halong⟩

theorem Throughout.and {P Q : LockRun ι → LockEvent ι → Prop} (es : List (LockEvent ι)) :
    ∀ s : LockRun ι, s.Throughout P es → s.Throughout Q es → s.Throughout (fun s e => P s e ∧ Q s e) es := by
  induction es with
  | nil => intro s _ _; trivial
  | cons e es ih =>
    intro s hP hQ
    exact ⟨⟨hP.1, hQ.1⟩, ih _ hP.2 hQ.2⟩

end LockRun

theorem staleLockAfter_nonneg : 0 ≤ staleLockAfter := by decide

/-- What the token is for, and when the lock can be had. -/
structure LockFenced (s : LockRun ι) : Prop where
  /-- A release clears a held lock if and only if the operation acquired it last. -/
  release : ∀ x t, s.token x = some t → s.application.operationLock.isSome →
    ((s.application.release t).operationLock = none ↔ ∃ u, s.last = some (x, u))
  acquire : ∀ operation now, (s.application.acquire operation now).isSome ↔
    s.application.operationLock = none ∨ ∃ x u, s.last = some (x, u) ∧ u + staleLockAfter < now

section Fenced

variable {s : LockRun ι}

omit [DecidableEq ι] in
theorem fenced_release (hinv : s.lease.Inv) {x : ι} {t : Time} (hx : s.token x = some t)
    (hheld : s.application.operationLock.isSome) :
    (s.application.release t).operationLock = none ↔ ∃ u, s.last = some (x, u) := by
  have hslot : s.application.operationLockAcquiredAt = some t ↔ ∃ u, s.last = some (x, u) :=
    hinv.slot_eq_token_iff hx
  rw [← hslot]
  unfold Application.release
  by_cases hat : s.application.operationLockAcquiredAt = some t
  · simp [hat]
  · rw [if_neg hat]
    refine iff_of_false (fun hnone => ?_) hat
    rw [hnone] at hheld
    cases hheld

omit [DecidableEq ι] in
theorem fenced_acquire (hinv : s.lease.Inv) (hpaired : s.application.lockPaired) (operation : String)
    (now : Time) : (s.application.acquire operation now).isSome ↔
      s.application.operationLock = none ∨ ∃ x u, s.last = some (x, u) ∧ u + staleLockAfter < now := by
  have hsome : (s.application.acquire operation now).isSome = s.application.lockFree now := by
    unfold Application.acquire
    cases s.application.lockFree now <;> rfl
  rw [hsome]
  unfold Application.lockFree
  cases hlock : s.application.operationLock with
  | none => simp
  | some held =>
    unfold Application.lockPaired at hpaired
    rw [hlock] at hpaired
    obtain ⟨t, hat⟩ := Option.isSome_iff_exists.1 hpaired.symm
    obtain ⟨x, hlast⟩ := hinv.stamped t hat
    have hlast' : s.last = some (x, t) := hlast
    simp only [hat, hlast', Option.isNone_some, Bool.false_or, Option.any_some, decide_eq_true_eq,
      reduceCtorEq, false_or]
    constructor
    · intro hlt
      exact ⟨x, t, rfl, lt_sub_iff_add_lt.1 hlt⟩
    · rintro ⟨y, u, heq, hlt⟩
      cases heq
      exact lt_sub_iff_add_lt.2 hlt

end Fenced

/-- In every interleaving of a new application's lock: a release clears the lock only for
the last acquirer, an acquire succeeds exactly when the lock is free or was taken more than
`STALE_LOCK_AFTER` ago, and while nobody overruns that time at most one operation is between
its acquire and its release. -/
theorem lock_fences (a : Application) (now : Time) (es : List (LockEvent ι))
    (hlock : a.operationLock = none) (hat : a.operationLockAcquiredAt = none)
    (hes : (LockRun.start a now).Throughout LockRun.Allowed es) :
    LockFenced ((LockRun.start a now).run es) ∧
      ((LockRun.start a now).Throughout LockRun.InTime es →
        ∀ x y, (((LockRun.start a now).run es).token x).isSome →
          (((LockRun.start a now).run es).token y).isSome → x = y) := by
  have hpaired : (LockRun.start a now : LockRun ι).application.lockPaired := by
    change a.operationLock.isSome = a.operationLockAcquiredAt.isSome
    rw [hlock, hat]
    rfl
  constructor
  · obtain ⟨hpaired', hrun, halong⟩ := LockRun.run_lease (Q := Lease.Fair) (fun _ _ h => h)
      (fun _ _ h => h.fair) es _ hpaired hes
    have hinv : ((LockRun.start a now).run es).lease.Inv := by
      rw [hrun]
      refine Lease.run_induction (fun s e h he => h.step staleLockAfter_nonneg he) _ _ ?_ halong
      exact ⟨fun y u hl => (by cases hl), fun t ht => absurd (hat.symm.trans ht) (Option.some_ne_none t).symm,
        fun x t hx => (by cases hx)⟩
    exact ⟨fun x t hx hheld => fenced_release hinv hx hheld, fenced_acquire hinv hpaired'⟩
  · intro htime x y hx hy
    obtain ⟨-, hrun, halong⟩ := LockRun.run_lease (Q := fun s e => s.Fair e ∧ s.Prompt staleLockAfter e)
      (fun _ _ h => h.1) (fun _ _ h => ⟨h.1.fair, h.2.prompt⟩) es _ hpaired
      (LockRun.Throughout.and es _ hes htime)
    have hsole : ((LockRun.start a now).run es).lease.Sole := by
      rw [hrun]
      exact Lease.run_induction (fun s e h he => h.step he.1 he.2) _ _ (fun x t hx => by cases hx) halong
    obtain ⟨t, ht⟩ := Option.isSome_iff_exists.1 hx
    obtain ⟨u, hu⟩ := Option.isSome_iff_exists.1 hy
    exact hsole.unique ht hu

/-- A scale operation takes over the stale lock of a deploy that is still running, and the
deploy's late release leaves it alone. -/
theorem lock_fences_takeover :
    LockFenced ((LockRun.start Sample.created.db.application 0).run
      [.acquire 0 "deploy" 0, .acquire 1 "scale" (staleLockAfter + 1), .release 0 (staleLockAfter + 2),
        .release (1 : ℕ) (staleLockAfter + 3)]) := by
  have hes : (LockRun.start Sample.created.db.application 0).Throughout LockRun.Allowed
      [.acquire 0 "deploy" 0, .acquire 1 "scale" (staleLockAfter + 1), .release 0 (staleLockAfter + 2),
        .release (1 : ℕ) (staleLockAfter + 3)] := by
    refine ⟨⟨?_, ?_⟩, ⟨?_, ?_⟩, ⟨?_, ?_⟩, ⟨?_, ?_⟩, trivial⟩ <;> decide +kernel
  exact (lock_fences _ _ _ rfl rfl hes).1

end Healer
