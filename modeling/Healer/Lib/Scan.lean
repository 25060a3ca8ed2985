import Mathlib.Tactic

/-! Splitting a text into words and marks. Words are separated by blanks, a mark is a token by
itself, and a comment runs to the end of its line. -/

structure Lexis (α : Type) where
  blank : α → Bool
  mark : α → Bool
  comment : α
  newline : α

namespace Lexis

open List

variable {α : Type} [DecidableEq α]

inductive Token (α : Type)
  | word (w : List α)
  | mark (c : α)
  deriving DecidableEq

/-- Inside a comment, or with the letters of a word read so far. -/
abbrev State (α : Type) := Option (List α)

def flush (w : List α) : List (Token α) := if w = [] then [] else [.word w]

def step (L : Lexis α) : State α → α → List (Token α) × State α
  | none, c => ([], if c = L.newline then some [] else none)
  | some w, c =>
    if L.blank c then (flush w, some [])
    else if L.mark c then (flush w ++ [.mark c], some [])
    else if c = L.comment then (flush w, none)
    else ([], some (w ++ [c]))

/-- The tokens that a text completes, and the state it leaves. -/
def scan (L : Lexis α) : State α → List α → List (Token α) × State α
  | s, [] => ([], s)
  | s, c :: cs => ((L.step s c).1 ++ (L.scan (L.step s c).2 cs).1, (L.scan (L.step s c).2 cs).2)

def tokens (L : Lexis α) (cs : List α) : List (Token α) :=
  (L.scan (some []) cs).1 ++ ((L.scan (some []) cs).2.elim [] flush)

/-- A letter that can stand in a word. -/
def Plain (L : Lexis α) (c : α) : Prop := L.blank c = false ∧ L.mark c = false ∧ c ≠ L.comment

instance (L : Lexis α) (c : α) : Decidable (L.Plain c) :=
  inferInstanceAs (Decidable (_ ∧ _ ∧ _))

variable {L : Lexis α} {s : State α} {p q w v : List α} {ts : List (Token α)} {c : α}

theorem scan_append : L.scan s (p ++ q) =
    ((L.scan s p).1 ++ (L.scan (L.scan s p).2 q).1, (L.scan (L.scan s p).2 q).2) := by
  induction p generalizing s with
  | nil => rfl
  | cons c p ih => simp only [cons_append, scan, ih, append_assoc]

/-- The letters of a word are kept until the word ends. -/
theorem scan_plain (hv : ∀ c ∈ v, L.Plain c) : L.scan (some w) v = ([], some (w ++ v)) := by
  induction v generalizing w with
  | nil => simp [scan]
  | cons c v ih =>
    obtain ⟨hblank, hmark, hcomment⟩ := hv c mem_cons_self
    have hstep : L.step (some w) c = ([], some (w ++ [c])) := by simp [step, hblank, hmark, hcomment]
    rw [scan, hstep, ih fun d hd => hv d (mem_cons_of_mem c hd)]
    simp

/-- A text that ends between two words, with the tokens in it. -/
def Reads (L : Lexis α) (p : List α) (ts : List (Token α)) : Prop := L.scan (some []) p = (ts, some [])

theorem Reads.tokens (h : L.Reads p ts) : L.tokens p = ts := by
  unfold Reads at h
  simp [Lexis.tokens, h, flush]

theorem Reads.tokens_append (h : L.Reads p ts) (q : List α) : L.tokens (p ++ q) = ts ++ L.tokens q := by
  unfold Reads at h
  simp [Lexis.tokens, scan_append, h]

theorem Reads.nil : L.Reads [] [] := rfl

theorem Reads.append {us : List (Token α)} (hp : L.Reads p ts) (hq : L.Reads q us) :
    L.Reads (p ++ q) (ts ++ us) := by
  unfold Reads at hp hq ⊢
  rw [scan_append, hp, hq]

/-- Texts one after another. -/
theorem Reads.flatten {ps : List (List α)} {tss : List (List (Token α))}
    (h : List.Forall₂ L.Reads ps tss) : L.Reads ps.flatten tss.flatten := by
  induction h with
  | nil => exact Reads.nil
  | cons hp _ ih => exact hp.append ih

/-- A word that the text before it may have begun, ended by a blank. -/
theorem Reads.blank (hp : L.scan (some []) p = (ts, some v)) (hw : ∀ c ∈ w, L.Plain c)
    (hne : v ++ w ≠ []) (hc : L.blank c = true) :
    L.Reads (p ++ w ++ [c]) (ts ++ [.word (v ++ w)]) := by
  unfold Reads
  rw [scan_append, scan_append, hp]
  dsimp only
  rw [scan_plain hw]
  simp [scan, step, hc, flush, hne]

/-- The same, ended by a mark. -/
theorem Reads.mark (hp : L.scan (some []) p = (ts, some v)) (hw : ∀ c ∈ w, L.Plain c)
    (hne : v ++ w ≠ []) (hblank : L.blank c = false) (hc : L.mark c = true) :
    L.Reads (p ++ w ++ [c]) (ts ++ [.word (v ++ w), .mark c]) := by
  unfold Reads
  rw [scan_append, scan_append, hp]
  dsimp only
  rw [scan_plain hw]
  simp [scan, step, hblank, hc, flush, hne]

/-! ## Words have plain letters only -/

def Token.IsPlain (L : Lexis α) : Token α → Prop
  | .word w => ∀ c ∈ w, L.Plain c
  | .mark _ => True

omit [DecidableEq α] in
theorem flush_plain (hw : ∀ c ∈ w, L.Plain c) : ∀ t ∈ flush w, t.IsPlain L := by
  unfold flush
  split
  · simp
  · intro t ht
    rw [mem_singleton.1 ht]
    exact hw

theorem step_plain (hs : ∀ w, s = some w → ∀ c ∈ w, L.Plain c) (c : α) :
    (∀ t ∈ (L.step s c).1, t.IsPlain L) ∧
      ∀ w, (L.step s c).2 = some w → ∀ d ∈ w, L.Plain d := by
  cases s with
  | none =>
    refine ⟨by simp [step], fun w hw => ?_⟩
    by_cases hc : c = L.newline
    · simp only [step, if_pos hc, Option.some.injEq] at hw
      simp [← hw]
    · simp [step, if_neg hc] at hw
  | some v =>
    have hv := flush_plain (hs v rfl)
    simp only [step]
    split_ifs with hblank hmark hcomment
    · exact ⟨hv, by simp⟩
    · refine ⟨fun t ht => ?_, by simp⟩
      rcases mem_append.1 ht with ht | ht
      · exact hv t ht
      · rw [mem_singleton.1 ht]
        trivial
    · exact ⟨hv, by simp⟩
    · refine ⟨by simp, fun w hw d hd => ?_⟩
      simp only [Option.some.injEq] at hw
      rw [← hw, mem_append, mem_singleton] at hd
      rcases hd with hd | rfl
      · exact hs v rfl d hd
      · exact ⟨by simpa using hblank, by simpa using hmark, hcomment⟩

theorem scan_plain_tokens (hs : ∀ w, s = some w → ∀ c ∈ w, L.Plain c) :
    (∀ t ∈ (L.scan s p).1, t.IsPlain L) ∧
      ∀ w, (L.scan s p).2 = some w → ∀ c ∈ w, L.Plain c := by
  induction p generalizing s with
  | nil => exact ⟨by simp [scan], hs⟩
  | cons c p ih =>
    obtain ⟨hnow, hthen⟩ := step_plain hs c
    obtain ⟨hrest, hend⟩ := ih hthen
    refine ⟨fun t ht => ?_, hend⟩
    rcases mem_append.1 ht with ht | ht
    · exact hnow t ht
    · exact hrest t ht

theorem tokens_plain (p : List α) : ∀ t ∈ L.tokens p, t.IsPlain L := by
  obtain ⟨hdone, hend⟩ := scan_plain_tokens (L := L) (s := some []) (p := p) (by simp)
  intro t ht
  rcases mem_append.1 ht with ht | ht
  · exact hdone t ht
  · cases hs : (L.scan (some []) p).2 with
    | none => simp [hs] at ht
    | some w =>
      rw [hs] at ht
      exact flush_plain (hend w hs) t ht

end Lexis
