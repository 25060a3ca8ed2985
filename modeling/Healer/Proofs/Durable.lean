import Healer.Lib.Lines
import Healer.Spec.JournalText

/-! What survives in the Agent's journal. Each line of the file is one entry, or fragments of
several that were written one after the other; the second kind is lost when the file is
opened again, so a `Record` that goes on with a torn line does not last. -/

namespace Healer

open List

namespace JournalRun

section Replay

variable {ι τ : Type} [DecidableEq ι] {c : Json ι τ} {m : Entries ι} {e : JournalEntry ι τ}
  {fs : List (List UInt8)}

theorem dropCR_of_not_mem {line : List UInt8} (h : carriageReturn ∉ line) : dropCR line = line := by
  refine if_neg fun hlast => h ?_
  exact mem_of_getLast? hlast

theorem replayLines_append (c : Json ι τ) (ls : List (List UInt8)) (l : List UInt8) :
    replayLines c (ls ++ [l]) = replayLine c (replayLines c ls) l := by
  simp [replayLines]

theorem replayLine_nil (c : Json ι τ) (m : Entries ι) : replayLine c m [] = m := if_pos rfl

theorem replayLine_marshal (hc : c.Lawful) (m : Entries ι) (e : JournalEntry ι τ) :
    replayLine c m (c.marshal e) = m.set e.commandID e.status := by
  rw [replayLine, dropCR_of_not_mem (hc.no_carriageReturn e), if_neg (hc.nonempty e),
    hc.unmarshal_marshal]

theorem replayLine_unreadable {line : List UInt8} (hcr : carriageReturn ∉ line)
    (h : c.unmarshal line = none) : replayLine c m line = m := by
  rw [replayLine, dropCR_of_not_mem hcr, h]
  exact ite_self m

/-- A line of fragments counts only if it is one entry, whole. -/
theorem replayLine_fragments (hc : c.Lawful) (m : Entries ι) (hfs : ∀ f ∈ fs, c.Fragment f) :
    replayLine c m fs.flatten = m ∨
      ∃ e, fs = [c.marshal e] ∧ replayLine c m fs.flatten = m.set e.commandID e.status := by
  have hcr : carriageReturn ∉ fs.flatten := by
    intro hmem
    obtain ⟨f, hf, hmem⟩ := mem_flatten.1 hmem
    obtain ⟨-, e, he⟩ := hfs f hf
    exact hc.no_carriageReturn e (he.subset hmem)
  rcases fs with _ | ⟨f, _ | ⟨g, gs⟩⟩
  · exact Or.inl (replayLine_nil c m)
  · obtain ⟨-, e, he⟩ := hfs f (by simp)
    by_cases hf : f = c.marshal e
    · subst hf
      refine Or.inr ⟨e, rfl, ?_⟩
      simpa using replayLine_marshal hc m e
    · refine Or.inl (replayLine_unreadable hcr ?_)
      simpa using hc.torn e f he hf
  · exact Or.inl (replayLine_unreadable hcr (hc.joined _ hfs (by simp)))

end Replay

section Step

variable {ι τ : Type} [DecidableEq ι] {c : Json ι τ} {s : JournalRun ι} {m : Entries ι}
  {e : JournalEntry ι τ} {ls : List (List UInt8)} {fs : List (List UInt8)} {n : ℕ}

omit [DecidableEq ι] in
/-- Nothing is acknowledged by what a `Record` writes before it returns. -/
theorem Reports.append (h : s.Reports m) (e : JournalEntry ι τ) (data : List UInt8) :
    (s.append e data).Reports m := by
  refine ⟨h.1, fun i hi => h.2 i fun hmem => hi ?_⟩
  unfold JournalRun.append
  dsimp only
  split
  · exact mem_cons_of_mem _ hmem
  · exact hmem

/-- An entry for a completion is one of those that were begun. -/
theorem Reports.append_begun (h : s.Reports m) (data : List UInt8) {i : ι}
    (hi : i ∉ (s.append e data).begun) : (m.set e.commandID e.status).isCompleted i = false := by
  by_cases hie : i = e.commandID
  · subst hie
    have hst : e.status ≠ .completed := by
      intro hst
      simp [JournalRun.append, hst] at hi
    simpa [Entries.isCompleted] using hst
  · rw [Entries.isCompleted, Entries.set_of_ne m _ hie]
    exact (h.append e data).2 i hi

/-- An entry that counts although its `Record` did not return: harmless unless it takes back
a completion. -/
theorem Reports.append_set (h : s.Reports m) (data : List UInt8)
    (hkeep : e.status ≠ .completed → s.returned e.commandID ≠ some .completed) :
    (s.append e data).Reports (m.set e.commandID e.status) := by
  refine ⟨fun i hi => ?_, fun i hi => h.append_begun data hi⟩
  by_cases hie : i = e.commandID
  · subst hie
    by_cases hst : e.status = .completed
    · simp [Entries.isCompleted_iff, hst]
    · exact absurd hi (hkeep hst)
  · rw [Entries.isCompleted, Entries.set_of_ne m _ hie]
    exact h.1 i hi

/-- The whole lines of the file and the fragments on its last one, with what they report. -/
structure Sound (c : Json ι τ) (s : JournalRun ι) (ls fs : List (List UInt8)) : Prop where
  parts : Lines.Parts newline s.file ls fs.flatten
  fragments : ∀ f ∈ fs, c.Fragment f
  short : ∀ l ∈ ls ++ [fs.flatten], l.length < maxLine
  lines : s.Reports (replayLines c ls)
  file : s.Reports (replayLines c (ls ++ [fs.flatten]))
  opened : ∀ m, s.opened = some m → s.Reports m

theorem Sound.lastLine (h : Sound c s ls fs) : s.lastLine = fs.flatten := by
  rw [JournalRun.lastLine, h.parts.splitOn]
  simp

theorem Sound.durable (h : Sound c s ls fs) : s.Durable c := by
  refine ⟨⟨replayLines c (ls ++ [fs.flatten]), ?_, h.file⟩, h.opened⟩
  rw [replay, h.parts.splitOn]
  exact if_pos (all_eq_true.2 fun l hl => decide_eq_true (h.short l hl))

theorem fresh_sound (c : Json ι τ) : Sound c fresh [] [] where
  parts := Lines.Parts.nil
  fragments := by simp
  short := by simp [maxLine]
  lines := ⟨fun i hi => (by cases hi), fun i _ => rfl⟩
  file := ⟨fun i hi => (by cases hi), fun i _ => rfl⟩
  opened m hm := by cases hm

/-- After one more fragment the last line reports no more than before, unless it is that one
entry, whole. -/
theorem Reports.fragment (hc : c.Lawful) (h : s.Reports m) (hfs : ∀ f ∈ fs, c.Fragment f)
    {f : List UInt8} (hf : f ≠ []) (hfe : f <+: c.marshal e) (data : List UInt8)
    (hkeep : f = c.marshal e → e.status ≠ .completed → s.returned e.commandID ≠ some .completed) :
    (s.append e data).Reports (replayLine c m (fs ++ [f]).flatten) := by
  have hall : ∀ g ∈ fs ++ [f], c.Fragment g := by
    intro g hg
    rcases mem_append.1 hg with hg | hg
    · exact hfs g hg
    · rw [mem_singleton.1 hg]
      exact ⟨hf, e, hfe⟩
  rcases replayLine_fragments hc m hall with hm | ⟨e', hone, hm⟩
  · rw [hm]
    exact h.append e data
  · -- a fragment of `e` that reads as an entry is the whole of `e`
    obtain ⟨-, rfl⟩ : fs = [] ∧ f = c.marshal e' := by simpa [append_eq_singleton_iff, hf] using hone
    have hwhole : c.marshal e' = c.marshal e := by
      by_contra hne
      have := hc.torn e _ hfe hne
      rw [hc.unmarshal_marshal] at this
      cases this
    have heq : e' = e := by
      have := congrArg c.unmarshal hwhole
      rw [hc.unmarshal_marshal, hc.unmarshal_marshal] at this
      exact Option.some.inj this
    subst heq
    rw [hm]
    exact h.append_set data (hkeep rfl)

/-- One more whole line. -/
theorem Sound.short_line (h : Sound c s ls fs) {l : List UInt8} (hl : l.length < maxLine) :
    ∀ l' ∈ ls ++ [l] ++ [([] : List (List UInt8)).flatten], l'.length < maxLine := by
  intro l' hl'
  simp only [flatten_nil, mem_append, mem_singleton] at hl'
  rcases hl' with (hl' | rfl) | rfl
  · exact h.short l' (by simp [hl'])
  · exact hl
  · simp [maxLine]

/-- A `Record` that leaves a part of its line, or all of it but the newline. -/
theorem Sound.write_part (hc : c.Lawful) (h : Sound c s ls fs)
    (hfit : fs.flatten.length + (c.marshal e).length < maxLine) {f : List UInt8} (hf : f ≠ [])
    (hpre : f <+: c.marshal e)
    (hkeep : f = c.marshal e → e.status ≠ .completed → s.returned e.commandID ≠ some .completed) :
    Sound c (s.append e f) ls (fs ++ [f]) := by
  refine ⟨?_, ?_, ?_, h.lines.append e _, ?_, fun m hm => (h.opened m hm).append e _⟩
  · have hnl : newline ∉ f := fun hmem => hc.no_newline e (hpre.subset hmem)
    simpa [JournalRun.append] using h.parts.append hnl
  · intro g hg
    rcases mem_append.1 hg with hg | hg
    · exact h.fragments g hg
    · rw [mem_singleton.1 hg]
      exact ⟨hf, e, hpre⟩
  · intro l hl
    rcases mem_append.1 hl with hl | hl
    · exact h.short l (by simp [hl])
    · rw [mem_singleton.1 hl, flatten_append, length_append]
      have := hpre.length_le
      simp only [flatten_cons, flatten_nil, append_nil]
      omega
  · rw [replayLines_append]
    exact h.lines.fragment hc h.fragments hf hpre _ hkeep

/-- A `Record` that leaves its whole line without having returned. -/
theorem Sound.write_line (hc : c.Lawful) (h : Sound c s ls fs)
    (hfit : fs.flatten.length + (c.marshal e).length < maxLine)
    (hkeep : e.status ≠ .completed → s.returned e.commandID ≠ some .completed) :
    Sound c (s.append e (line c e)) (ls ++ [fs.flatten ++ c.marshal e]) [] := by
  have hlines : (s.append e (c.marshal e ++ [newline])).Reports
      (replayLines c (ls ++ [fs.flatten ++ c.marshal e])) := by
    rw [replayLines_append]
    simpa using h.lines.fragment hc h.fragments (hc.nonempty e) (prefix_refl _) _ fun _ => hkeep
  have hshort : (fs.flatten ++ c.marshal e).length < maxLine := by
    rw [length_append]
    exact hfit
  refine ⟨h.parts.append_mark (hc.no_newline e), by simp, h.short_line hshort, hlines, ?_,
    fun m hm => (h.opened m hm).append e _⟩
  rw [replayLines_append]
  exact (replayLine_nil c _).symm ▸ hlines

/-- A `Record` that stops after `n` bytes. -/
theorem Sound.write (hc : c.Lawful) (h : Sound c s ls fs)
    (hfit : fs.flatten.length + (c.marshal e).length < maxLine)
    (hkeep : (c.marshal e).length ≤ n → e.status ≠ .completed →
      s.returned e.commandID ≠ some .completed) :
    ∃ ls' fs', Sound c (s.append e ((line c e).take n)) ls' fs' := by
  by_cases hn : n ≤ (c.marshal e).length
  · have htake : (line c e).take n = (c.marshal e).take n := by
      rw [line, take_append_of_le_length hn]
    rw [htake]
    by_cases hempty : (c.marshal e).take n = []
    · rw [hempty]
      refine ⟨ls, fs, ?_, h.fragments, h.short, h.lines.append e [], h.file.append e [],
        fun m hm => (h.opened m hm).append e []⟩
      simpa [JournalRun.append] using h.parts
    · refine ⟨_, _, h.write_part hc hfit hempty (List.take_prefix n _) fun hwhole => hkeep ?_⟩
      have := congrArg List.length hwhole
      rw [length_take] at this
      omega
  · have htake : (line c e).take n = line c e := by
      rw [take_of_length_le]
      rw [line, length_append, length_singleton]
      omega
    rw [htake]
    exact ⟨_, _, h.write_line hc hfit (hkeep (by omega))⟩

/-- The state after a `Record` that returned `nil`. -/
theorem Reports.returned (h : s.Reports m) (data : List UInt8) (o : Option (Entries ι)) :
    ({ s.append e data with opened := o, returned := s.returned.set e.commandID e.status } :
      JournalRun ι).Reports (m.set e.commandID e.status) := by
  refine ⟨fun i hi => ?_, fun i hi => h.append_begun data hi⟩
  by_cases hie : i = e.commandID
  · subst hie
    simpa [Entries.isCompleted] using hi
  · dsimp only at hi
    rw [Entries.set_of_ne _ _ hie] at hi
    rw [Entries.isCompleted, Entries.set_of_ne _ _ hie]
    exact h.1 i hi

theorem Sound.record (hc : c.Lawful) (h : Sound c s ls fs) (hlast : s.lastLine = [])
    (hfit : (c.marshal e).length < maxLine) (hm : s.opened = some m) :
    Sound c (s.step c (.record e)) (ls ++ [c.marshal e]) [] := by
  have htail : fs.flatten = [] := h.lastLine ▸ hlast
  have hlines := h.lines.returned (e := e) (line c e) (some (m.set e.commandID e.status))
  have hset : replayLines c (ls ++ [c.marshal e]) = (replayLines c ls).set e.commandID e.status := by
    rw [replayLines_append, replayLine_marshal hc]
  rw [← hset] at hlines
  simp only [step, hm]
  refine ⟨?_, by simp, h.short_line hfit, hlines, ?_, ?_⟩
  · have := h.parts.append_mark (hc.no_newline e)
    rw [htail] at this
    exact this
  · rw [flatten_nil, replayLines_append, replayLine_nil]
    exact hlines
  · intro m' hm'
    cases hm'
    exact (h.opened m hm).returned _ _

theorem Sound.stop (h : Sound c s ls fs) : Sound c { s with opened := none } ls fs :=
  ⟨h.parts, h.fragments, h.short, h.lines, h.file, fun m hm => by cases hm⟩

theorem Sound.open (h : Sound c s ls fs) : Sound c (s.step c .open) ls fs := by
  refine ⟨h.parts, h.fragments, h.short, h.lines, h.file, fun m hm => ?_⟩
  obtain ⟨⟨m', hm', hrep⟩, -⟩ := h.durable
  obtain rfl : m' = m := Option.some.inj (hm'.symm.trans hm)
  exact hrep

/-- A `Record` that is to return starts on a line of its own; one that does not return leaves
no whole entry that takes back a completion; and every line fits the scanner's buffer. -/
def Intact (c : Json ι τ) (s : JournalRun ι) : JournalEvent ι τ → Prop
  | .record e => s.lastLine = [] ∧ (c.marshal e).length < maxLine
  | .fail e n | .crash e n =>
    s.lastLine.length + (c.marshal e).length < maxLine ∧
      ((c.marshal e).length ≤ n → e.status ≠ .completed → s.returned e.commandID ≠ some .completed)
  | .open | .stop => True

instance Intact.decidable (c : Json ι τ) (s : JournalRun ι) : ∀ ev, Decidable (s.Intact c ev)
  | .record _ => inferInstanceAs (Decidable (_ ∧ _))
  | .fail _ _ | .crash _ _ => inferInstanceAs (Decidable (_ ∧ (_ → _ → _)))
  | .open | .stop => inferInstanceAs (Decidable True)

theorem sound_step (hc : c.Lawful) (s : JournalRun ι) (ev : JournalEvent ι τ)
    (h : ∃ ls fs, Sound c s ls fs) (hev : s.Intact c ev) :
    ∃ ls fs, Sound c (s.step c ev) ls fs := by
  obtain ⟨ls, fs, h⟩ := h
  cases ev with
  | «open» => exact ⟨ls, fs, h.open⟩
  | record e =>
    cases hm : s.opened with
    | none => exact ⟨ls, fs, by simpa only [step, hm] using h⟩
    | some m => exact ⟨_, _, h.record hc hev.1 hev.2 hm⟩
  | fail e n =>
    obtain ⟨hfit, hkeep⟩ := hev
    simp only [step]
    split
    · exact h.write hc (h.lastLine ▸ hfit) hkeep
    · exact ⟨ls, fs, h⟩
  | crash e n =>
    obtain ⟨hfit, hkeep⟩ := hev
    simp only [step]
    split
    · obtain ⟨ls', fs', h'⟩ := h.write hc (n := n) (h.lastLine ▸ hfit) hkeep
      exact ⟨ls', fs', h'.stop⟩
    · exact ⟨ls, fs, h⟩
  | stop => exact ⟨ls, fs, h.stop⟩

end Step

end JournalRun

/-- Over any number of crashes and reopenings that keep each entry on a line of its own, the
journal reports every completion that was recorded and no other. -/
theorem journal_durable {ι τ : Type} [DecidableEq ι] (c : Json ι τ) (hc : c.Lawful)
    (es : List (JournalEvent ι τ))
    (hes : Runs.Along (JournalRun.step c) (JournalRun.Intact c) JournalRun.fresh es) :
    (Runs.run (JournalRun.step c) JournalRun.fresh es).Durable c := by
  obtain ⟨ls, fs, h⟩ := Runs.invariant (I := fun s => ∃ ls fs, JournalRun.Sound c s ls fs)
    (JournalRun.sound_step hc) es _ ⟨[], [], JournalRun.fresh_sound c⟩ hes
  exact h.durable

namespace JournalText

def firstID : Text := ⟨ascii "1f0c", by decide⟩

def secondID : Text := ⟨ascii "2b7e", by decide⟩

def noon : Text := ⟨ascii "2026-05-01T12:00:00Z", by decide⟩

/-- A crash tears the first line after 20 bytes; the Agent restarts and records a completion. -/
def tornRun : JournalRun Text :=
  Runs.run (JournalRun.step json) JournalRun.fresh
    [.open, .crash ⟨firstID, .received, noon⟩ 20, .open, .record ⟨secondID, .completed, noon⟩, .stop]

end JournalText

open JournalText in
/-- The completion went on the torn line: its `Record` returned `nil`, and the next `Open` does
not know it. -/
theorem torn_line_loses_completion :
    tornRun.returned secondID = some .completed ∧
      (replay json tornRun.file).map (·.isCompleted secondID) = some false := by
  decide +kernel

open JournalText in
/-- A torn line that nothing follows costs nothing. -/
theorem journal_durable_torn_tail :
    (Runs.run (JournalRun.step json) JournalRun.fresh
      [.open, .record ⟨firstID, .completed, noon⟩, .crash ⟨secondID, .received, noon⟩ 20, .open]).Durable
        json :=
  journal_durable json json_lawful _ (by decide +kernel)

end Healer
