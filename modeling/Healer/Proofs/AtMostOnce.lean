import Healer.Lib.Turns
import Healer.Sanity.Agent

/-! At most one goroutine at a time is past the `inFlight` check of a command. It is the only
one that writes the command to the journal, so what a run does with a command is what its
holders do one after the other; a second holder dispatches again only if its journal check was
out of date or the first could not record that it was done. -/

namespace Healer

/-- How far a goroutine is with its command: not at it, before the call of `Dispatch`, up to
the record of the completion, and after it or given up. -/
inductive Phase
  | outside | early | busy | late
  deriving DecidableEq

def Stage.phase : Stage → Phase
  | .check | .enter | .done => .outside
  | .recordReceived | .acknowledge | .recordRunning | .sendRunning | .dispatch => .early
  | .dispatching | .recordCompleted _ => .busy
  | .abandon | .report _ | .leave => .late

theorem Phase.early_inside : Phase.early ≠ .outside := by decide

theorem Phase.busy_inside : Phase.busy ≠ .outside := by decide

theorem Phase.late_inside : Phase.late ≠ .outside := by decide

namespace Agent

section Holds

variable {ι : Type} {a b : Agent ι} {i j : ι} {p : Phase}

/-- What the journal and the calls so far say of a command whose holder is in phase `p`. -/
def Fits (a : Agent ι) (i : ι) : Phase → Prop
  | .early => a.journal i ≠ some .completed ∧ i ∉ a.dispatched
  | .busy => True
  | .outside | .late => i ∈ a.dispatched → a.journal i = some .completed

/-- The goroutines as tasks that take turns at their commands. -/
def roles : Roles (Delivered ι) ι Phase := ⟨Delivered.commandID, fun d => d.stage.phase, .outside⟩

/-- Goroutine `k` is in phase `p` with the command and all others are outside. -/
structure Holds (a : Agent ι) (i : ι) (k : ℕ) (p : Phase) : Prop where
  flight : a.inFlight i = true ↔ p ≠ .outside
  turn : roles.Turn a.deliveries i k p
  fits : a.Fits i p

def Held (a : Agent ι) : Prop := ∀ i, ∃ k p, a.Holds i k p

/-- The two states differ at most in what they say of command `i`. -/
structure Apart (a b : Agent ι) (i : ι) : Prop where
  deliveries : b.deliveries = a.deliveries
  flight : ∀ j, j ≠ i → b.inFlight j = a.inFlight j
  journal : ∀ j, j ≠ i → b.journal j = a.journal j
  dispatched : ∀ j, j ≠ i → (j ∈ b.dispatched ↔ j ∈ a.dispatched)

theorem Apart.fits (h : Apart a b i) (hij : j ≠ i) : b.Fits j p ↔ a.Fits j p := by
  cases p <;> simp only [Fits, h.journal j hij, h.dispatched j hij]

theorem apart_refl (a : Agent ι) (i : ι) : Apart a a i :=
  ⟨rfl, fun _ _ => rfl, fun _ _ => rfl, fun _ _ => Iff.rfl⟩

theorem apart_call (a : Agent ι) (i : ι) : Apart a (a.call i) i :=
  ⟨rfl, fun _ _ => rfl, fun _ _ => rfl, fun j hij => by simp [call, hij]⟩

variable [DecidableEq ι]

theorem apart_hold (a : Agent ι) (i : ι) : Apart a (a.hold i) i :=
  ⟨rfl, fun _ hij => Function.update_of_ne hij .., fun _ _ => rfl, fun _ _ => Iff.rfl⟩

theorem apart_release (a : Agent ι) (i : ι) : Apart a (a.release i) i :=
  ⟨rfl, fun _ hij => Function.update_of_ne hij .., fun _ _ => rfl, fun _ _ => Iff.rfl⟩

theorem apart_record (a : Agent ι) (i : ι) (s : JournalStatus) : Apart a (a.record i s) i :=
  ⟨rfl, fun _ _ => rfl, fun _ hij => Entries.set_of_ne _ _ hij, fun _ _ => Iff.rfl⟩

end Holds

section Step

variable {ι : Type} {a b : Agent ι} {i : ι} {conn : ConnId} {k : ℕ} {now st : Stage}

/-- The goroutine at a command moves on; the rest of the state has to fit its new phase. -/
theorem Held.goto (h : a.Held) (hd : a.deliveries.row k = some ⟨i, conn, now⟩) (hab : Apart a b i)
    {p : Phase} (hturn : roles.Turn a.deliveries i k p)
    (hflight : b.inFlight i = true ↔ st.phase ≠ .outside) (hfits : b.Fits i st.phase) :
    (b.goto k st).Held := by
  intro j
  by_cases hj : j = i
  · subst hj
    refine ⟨k, st.phase, hflight, ?_, hfits⟩
    rw [Agent.goto, hab.deliveries]
    exact hturn.move hd _ rfl
  · obtain ⟨m, q, hm⟩ := h j
    refine ⟨m, q, (hab.flight j hj).symm ▸ hm.flight, ?_, (hab.fits hj).2 hm.fits⟩
    rw [Agent.goto, hab.deliveries]
    exact hm.turn.aside hd rfl fun hij => absurd hij.symm hj

/-- The holder leaves, or moves on to another stage inside. -/
theorem Held.holder (h : a.Held) (hd : a.deliveries.row k = some ⟨i, conn, now⟩) (hab : Apart a b i)
    (hin : now.phase ≠ .outside) (hflight : b.inFlight i = true ↔ st.phase ≠ .outside)
    (hfits : a.Fits i now.phase → b.Fits i st.phase) : (b.goto k st).Held := by
  obtain ⟨m, q, hm⟩ := h i
  obtain ⟨rfl, rfl⟩ := hm.turn.holder hd rfl hin
  exact h.goto hd hab hm.turn hflight (hfits hm.fits)

/-- A goroutine that stays outside changes nothing. -/
theorem Held.outside (h : a.Held) (hd : a.deliveries.row k = some ⟨i, conn, now⟩)
    (hin : now.phase = .outside) (hst : st.phase = .outside) : (a.goto k st).Held := by
  intro j
  obtain ⟨m, q, hm⟩ := h j
  exact ⟨m, q, hm.flight, hm.turn.aside hd rfl fun _ => hst.trans hin.symm, hm.fits⟩

theorem Held.inside (h : a.Held) (hd : a.deliveries.row k = some ⟨i, conn, now⟩)
    (hin : now.phase ≠ .outside) : a.inFlight i = true ∧ a.Fits i now.phase := by
  obtain ⟨m, q, hm⟩ := h i
  obtain ⟨-, rfl⟩ := hm.turn.holder hd rfl hin
  exact ⟨hm.flight.2 hin, hm.fits⟩

/-- The holder goes on without touching `inFlight`. -/
theorem Held.next (h : a.Held) (hd : a.deliveries.row k = some ⟨i, conn, now⟩) (hab : Apart a b i)
    (hin : now.phase ≠ .outside) (hst : st.phase ≠ .outside) (hb : b.inFlight i = a.inFlight i)
    (hfits : a.Fits i now.phase → b.Fits i st.phase) : (b.goto k st).Held := by
  refine h.holder hd hab hin (iff_of_true ?_ hst) hfits
  rw [hb]
  exact (h.inside hd hin).1

variable [DecidableEq ι]

theorem Held.deliver (h : a.Held) (i : ι) (conn : ConnId) : (a.step (.deliver i conn)).Held := by
  intro j
  obtain ⟨m, q, hm⟩ := h j
  exact ⟨m, q, hm.flight, hm.turn.insert fun _ => rfl, hm.fits⟩

end Step

end Agent

/-- The journal check is not out of date when the command is taken, and the completion gets
recorded. -/
def Stage.timely (stale ok : Bool) : Stage → Bool
  | .enter => !stale
  | .recordCompleted _ => ok
  | _ => true

namespace Agent

open Phase (early_inside busy_inside late_inside)

variable {ι : Type} [DecidableEq ι] {a : Agent ι} {i : ι} {conn : ConnId} {k : ℕ} {now : Stage} {d : Delivered ι}

/-- A delivery that finds its command free finds it not completed, and every `Record` of a
completion returns `nil`. -/
def timely (a : Agent ι) : AgentEvent ι → Bool
  | .advance k ok => (a.deliveries.row k).all fun d =>
    d.stage.timely (!a.inFlight d.commandID && a.journal.isCompleted d.commandID) ok
  | _ => true

/-- The step records a command as received or running that the journal has as completed. -/
def reopens (a : Agent ι) : AgentEvent ι → Bool
  | .advance k ok => ok && (a.deliveries.row k).any fun d =>
    (d.stage == .recordReceived || d.stage == .recordRunning) && a.journal.isCompleted d.commandID
  | _ => false

/-- A command that nobody holds and that is not completed was never dispatched. -/
theorem Held.enter (h : a.Held) (hd : a.deliveries.row k = some ⟨i, conn, .enter⟩)
    (hfree : a.inFlight i = false) (hopen : a.journal i ≠ some .completed) :
    ((a.hold i).goto k .recordReceived).Held := by
  obtain ⟨m, q, hm⟩ := h i
  have hq : q = .outside := by
    by_contra hq
    rw [hm.flight.2 hq] at hfree
    cases hfree
  subst hq
  refine h.goto hd (apart_hold a i) (hm.turn.free k) (iff_of_true ?_ early_inside)
    ⟨hopen, fun hmem => hopen (hm.fits hmem)⟩
  exact Function.update_self ..

theorem Held.leave (h : a.Held) (hd : a.deliveries.row k = some ⟨i, conn, now⟩)
    (hlate : now.phase = .late) : ((a.release i).goto k .done).Held := by
  refine h.holder hd (apart_release a i) (hlate ▸ late_inside) (iff_of_false ?_ ?_) fun hf => ?_
  · simp [Agent.release]
  · simp [Stage.phase]
  · rw [hlate] at hf
    exact hf

theorem Held.move (h : a.Held) (hd : a.deliveries.row k = some ⟨i, conn, now⟩) (ok : Bool)
    (htimely : now.timely (!a.inFlight i && a.journal.isCompleted i) ok = true) :
    (a.move k i ok now).Held := by
  cases now with
  | check =>
    simp only [Agent.move]
    split <;> exact h.outside hd rfl rfl
  | enter =>
    simp only [Agent.move]
    split
    · exact h.outside hd rfl rfl
    · rename_i hfree
      have hfree : a.inFlight i = false := by simpa using hfree
      refine h.enter hd hfree fun hdone => ?_
      simp [Stage.timely, hfree, Entries.isCompleted, hdone] at htimely
  | recordReceived =>
    simp only [Agent.move]
    split
    · exact h.next hd (apart_record a i .received) early_inside early_inside rfl
        fun hf => ⟨by simp [record], hf.2⟩
    · exact h.next hd (apart_refl a i) early_inside late_inside rfl fun hf hmem => absurd hmem hf.2
  | acknowledge =>
    simp only [Agent.move]
    split
    · exact h.next hd (apart_refl a i) early_inside early_inside rfl id
    · exact h.next hd (apart_refl a i) early_inside late_inside rfl fun hf hmem => absurd hmem hf.2
  | abandon => exact h.leave hd rfl
  | recordRunning =>
    simp only [Agent.move]
    split
    · exact h.next hd (apart_record a i .running) early_inside early_inside rfl
        fun hf => ⟨by simp [record], hf.2⟩
    · exact h.next hd (apart_refl a i) early_inside early_inside rfl id
  | sendRunning => exact h.next hd (apart_refl a i) early_inside early_inside rfl id
  | dispatch => exact h.next hd (apart_call a i) early_inside busy_inside rfl fun _ => trivial
  | dispatching => exact h
  | recordCompleted o =>
    obtain rfl : ok = true := htimely
    exact h.next hd (apart_record a i .completed) busy_inside late_inside rfl fun _ _ => by simp [record]
  | report o => exact h.next hd (apart_refl a i) late_inside late_inside rfl id
  | leave => exact h.leave hd rfl
  | done => exact h

theorem Held.step (h : a.Held) (e : AgentEvent ι) (he : a.timely e = true) : (a.step e).Held := by
  cases e with
  | deliver i conn => exact h.deliver i conn
  | advance k ok =>
    simp only [Agent.step]
    cases hd : a.deliveries.row k with
    | none => exact h
    | some d =>
      simp only [timely, hd, Option.all_some] at he
      exact h.move hd ok he
  | finish k o =>
    simp only [Agent.step]
    cases hd : a.deliveries.row k with
    | none => exact h
    | some d =>
      obtain ⟨i, conn, now⟩ := d
      cases now with
      | dispatching => exact h.next hd (apart_refl a i) busy_inside busy_inside rfl id
      | _ => exact h

theorem Held.once (h : a.Held) (honce : a.dispatched.Nodup) (e : AgentEvent ι) :
    (a.step e).dispatched.Nodup := by
  cases e with
  | deliver i conn => exact honce
  | advance k ok =>
    simp only [Agent.step]
    cases hd : a.deliveries.row k with
    | none => exact honce
    | some d =>
      obtain ⟨i, conn, now⟩ := d
      simp only [move_dispatched]
      split
      · -- whoever is about to call holds the command, so nobody has called for it
        rename_i hnow
        subst hnow
        have hnew : i ∉ a.dispatched := (h.inside hd early_inside).2.2
        rw [List.nodup_append_comm]
        exact List.nodup_cons.2 ⟨hnew, honce⟩
      · exact honce
  | finish k o =>
    simp only [Agent.step]
    cases hd : a.deliveries.row k with
    | none => exact honce
    | some d =>
      simp only [finish_dispatched]
      exact honce

omit [DecidableEq ι] in
theorem Held.not_reopens (h : a.Held) (e : AgentEvent ι) : a.reopens e = false := by
  cases e with
  | advance k ok =>
    simp only [reopens, Bool.and_eq_false_iff]
    refine Or.inr ?_
    cases hd : a.deliveries.row k with
    | none => rfl
    | some d =>
      obtain ⟨i, conn, now⟩ := d
      by_cases hnow : now = .recordReceived ∨ now = .recordRunning
      · have hearly : now.phase = .early := by rcases hnow with rfl | rfl <;> rfl
        have hfits := (h.inside hd (hearly ▸ early_inside)).2
        rw [hearly] at hfits
        simp [Entries.isCompleted, hfits.1]
      · simp only [not_or] at hnow
        simp [hnow.1, hnow.2]
  | _ => rfl

omit [DecidableEq ι] in
theorem start_held (journal : Entries ι) : (start journal).Held :=
  fun _ => ⟨0, .outside, by simp [start], ⟨fun l d hd => (by cases hd), fun hp => absurd rfl hp⟩, fun hmem => by cases hmem⟩

end Agent

/-- In every interleaving whose deliveries do not take a command on a stale check and whose
completions get recorded, a command is dispatched at most once, and one that the journal has as
completed is not recorded as received or running again. -/
theorem dispatch_at_most_once {ι : Type} [DecidableEq ι] (journal : Entries ι)
    (es : List (AgentEvent ι))
    (hes : Runs.Along Agent.step (fun a e => a.timely e = true) (Agent.start journal) es) :
    (Runs.run Agent.step (Agent.start journal) es).dispatched.Nodup ∧
      Runs.Along Agent.step (fun a e => a.reopens e = false) (Agent.start journal) es := by
  have hstep : ∀ (a : Agent ι) (e : AgentEvent ι), a.Held ∧ a.dispatched.Nodup → a.timely e = true →
      (a.step e).Held ∧ (a.step e).dispatched.Nodup :=
    fun a e h he => ⟨h.1.step e he, h.1.once h.2 e⟩
  have hstart : (Agent.start journal).Held ∧ (Agent.start journal).dispatched.Nodup :=
    ⟨Agent.start_held journal, List.nodup_nil⟩
  exact ⟨(Runs.invariant hstep es _ hstart hes).2,
    Runs.along hstep (fun a e h _ => h.1.not_reopens e) es _ hstart hes⟩

/-- Goroutine `k` goes from its delivery to the return of `Dispatch`. -/
def AgentEvent.upToFinish (k : ℕ) : List (AgentEvent ℕ) :=
  List.replicate 7 (.advance k true) ++ [.finish k .succeeded]

/-- A redelivery that arrives while the command runs is ignored. -/
theorem dispatch_at_most_once_redelivered :
    (Runs.run Agent.step (Agent.start Entries.empty)
      ([.deliver 7 0] ++ AgentEvent.upToFinish 0 ++ [.deliver 7 1, .advance 1 true, .advance 1 true,
        .advance 0 true])).dispatched.Nodup :=
  (dispatch_at_most_once Entries.empty _ (by decide +kernel)).1

/-- The redelivery has found the command not completed; the first delivery then completes and
leaves, and the redelivery finds it not in flight either. -/
def AgentEvent.staleCheck : List (AgentEvent ℕ) :=
  [.deliver 7 0] ++ AgentEvent.upToFinish 0 ++ [.deliver 7 1, .advance 1 true] ++
    List.replicate 3 (.advance 0 true) ++ List.replicate 6 (.advance 1 true)

theorem stale_check_dispatches_twice :
    (Runs.run Agent.step (Agent.start Entries.empty) AgentEvent.staleCheck).dispatched = [7, 7] ∧
      ¬ Runs.Along Agent.step (fun a e => a.reopens e = false) (Agent.start Entries.empty)
        AgentEvent.staleCheck := by
  decide +kernel

end Healer
