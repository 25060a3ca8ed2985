import Healer.Lib.Runs
import Healer.Sanity.Logs

/-! The live tail of a log file. The offset advances by bytes and each answer is a list of lines, so
an answer is right where its bytes are whole lines. -/

namespace Healer

open List

open Lines (unlines Tidy Parts)

/-- The log file, which may not be there yet, and the generator that polls it. -/
structure FileTail where
  file : Option Bytes
  stream : LogStream

inductive FileEvent
  | append (bytes : Bytes)
  | poll

def fileHost (file : Option Bytes) : LogHost where
  file _ _ := file
  containerLogs _ _ _ := .error ""

namespace FileTail

def content (s : FileTail) : Bytes := s.file.getD []

def step (t : LogTarget) (s : FileTail) : FileEvent → FileTail
  | .append bytes => { s with file := some (s.content ++ bytes) }
  | .poll => { s with stream := s.stream.poll (fileHost s.file) t }

/-- The bytes that the next poll reads. -/
def unread (s : FileTail) : Bytes := (s.content.drop (s.stream.offset.getD 0)).take 65536

end FileTail

/-- Nothing, or whole lines: the last byte is a newline, it does not end an empty line unless it is
all there is, and there are no more lines than one answer holds. -/
def WholeLines (chunk : Bytes) : Prop :=
  chunk = [] ∨ chunk.getLast? = some newline ∧ (chunk = [newline] ∨ ¬ [newline, newline] <:+ chunk) ∧
    chunk.count newline ≤ 500

instance (chunk : Bytes) : Decidable (WholeLines chunk) :=
  inferInstanceAs (Decidable (_ ∨ _ ∧ (_ ∨ ¬ _) ∧ _))

/-- The lines of a file; an unfinished last line counts. -/
def fileLines (content : Bytes) : List Bytes :=
  let parts := content.splitOn newline
  (if parts.getLast? = some [] then parts.dropLast else parts).map trimReturn

/-- A target on a server whose adapter writes log files. -/
structure LogTarget.OnFile (t : LogTarget) : Prop where
  adapter : t.adapter ≠ "linux-docker"
  valid : validateCollectLogsPayload (LogStream.start.request t) = .ok ()

section Lines

variable {ls ms : List Bytes} {tail chunk content : Bytes}

theorem fileLines_parts (h : Parts newline content ls tail) :
    fileLines content = (ls ++ if tail = [] then [] else [tail]).map trimReturn := by
  simp only [fileLines, h.splitOn, List.getLast?_concat, Option.some.injEq, dropLast_concat]
  split_ifs
  · rw [append_nil]
  · rfl

/-- Whole lines that have been read are the first of the file. -/
theorem prefix_fileLines (hls : ∀ l ∈ ls, newline ∉ l) (rest : Bytes) :
    ls.map trimReturn <+: fileLines (unlines newline ls ++ rest) := by
  obtain ⟨ms, tail, hrest⟩ := Lines.exists_parts newline rest
  have hparts : Parts newline (unlines newline ls ++ rest) (ls ++ ms) tail := by
    refine ⟨?_, ?_, hrest.rest⟩
    · rw [hrest.text_eq]
      simp [unlines]
    · intro l hl
      rcases mem_append.1 hl with hl | hl
      · exact hls l hl
      · exact hrest.ended l hl
  rw [fileLines_parts hparts, append_assoc, map_append]
  exact prefix_append _ _

theorem fileLines_unlines (hls : ∀ l ∈ ls, newline ∉ l) : fileLines (unlines newline ls) = ls.map trimReturn := by
  have hparts : Parts newline (unlines newline ls) ls [] := ⟨by simp [unlines], hls, by simp⟩
  rw [fileLines_parts hparts, if_pos rfl, append_nil]

theorem count_unlines (hls : ∀ l ∈ ls, newline ∉ l) : (unlines newline ls).count newline = ls.length := by
  induction ls with
  | nil => rfl
  | cons l ls ih =>
    rw [Lines.unlines_cons, count_append, count_cons_self, ih fun m hm => hls m (by simp [hm]),
      count_eq_zero_of_not_mem (hls l (by simp)), length_cons]
    omega

/-- Bytes that are whole lines come back as these lines. -/
theorem WholeLines.lines (h : WholeLines chunk) :
    ∃ ls, chunk = unlines newline ls ∧ (∀ l ∈ ls, newline ∉ l) ∧
      lastLines 500 (splitLines chunk) = ls.map trimReturn := by
  rcases h with rfl | ⟨hlast, htidy, hcount⟩
  · exact ⟨[], rfl, by simp, rfl⟩
  obtain ⟨ls, rfl, hls⟩ := Lines.exists_lines hlast
  have htidy' : Tidy ls := by
    rcases eq_nil_or_concat ls with rfl | ⟨init, l, rfl⟩
    · exact Or.inr (by simp)
    by_cases hl : l = []
    · subst hl
      -- an empty last line, so it is the only one
      rcases eq_nil_or_concat init with rfl | ⟨init, m, rfl⟩
      · exact Or.inl rfl
      exfalso
      simp only [concat_eq_append, Lines.unlines_concat, append_nil] at htidy
      rcases htidy with honly | hno
      · have hlen := congrArg List.length honly
        simp only [length_append, length_singleton] at hlen
        omega
      · exact hno ⟨unlines newline init ++ m, by simp⟩
    · refine Or.inr ?_
      rw [concat_eq_append, List.getLast?_concat]
      simpa using hl
  rw [count_unlines hls] at hcount
  refine ⟨ls, rfl, hls, ?_⟩
  rw [splitLines_unlines hls htidy', lastLines_of_le (by rwa [length_map])]

end Lines

namespace FileTail

variable {t : LogTarget} {s : FileTail} {ls : List Bytes}

/-- Each poll has returned the lines of the bytes before its end. -/
structure Tailing (s : FileTail) (o : ℕ) (ls : List Bytes) : Prop where
  first : s.stream.first = false
  offset : s.stream.offset = some o
  within : o ≤ s.content.length
  read : s.content.take o = unlines newline ls
  whole : ∀ l ∈ ls, newline ∉ l
  lines : s.stream.lines = ls.map trimReturn

theorem poll_eq (ht : t.OnFile) (s : LogStream) (file : Option Bytes) :
    s.poll (fileHost file) t =
      ⟨false, some (collectFileLogs (s.request t) file).endOffset,
        s.lines ++ (collectFileLogs (s.request t) file).lines⟩ := by
  have hvalid : validateCollectLogsPayload (s.request t) = .ok () := ht.valid
  have hadapter : (s.request t).adapter ≠ "linux-docker" := ht.adapter
  have hhandle : handleCollectLogs (fileHost file) (s.request t) =
      .ok (collectFileLogs (s.request t) file) := by
    simp only [handleCollectLogs, hvalid, if_neg hadapter]
    rfl
  simp only [LogStream.poll, hhandle]

/-- An answer from an offset within the file. -/
theorem collect_from {p : CollectLogsPayload} {content : Bytes} {o : ℕ} (h : p.offset = some (o : ℤ))
    (ho : o ≤ content.length) :
    (collectFileLogs p (some content)).lines =
        lastLines p.lineLimit (splitLines ((content.drop o).take p.byteLimit)) ∧
      (collectFileLogs p (some content)).endOffset = o + ((content.drop o).take p.byteLimit).length := by
  have hstart : min (o : ℤ).toNat content.length = o := by omega
  have htake : (content.drop o).take (min (content.length - o) p.byteLimit) =
      (content.drop o).take p.byteLimit := by
    rw [← length_drop, Nat.min_comm, ← take_eq_take_min]
  simp only [collectFileLogs, h, hstart, htake, length_take, length_drop, Option.isNone_some,
    Bool.false_eq_true, false_and, if_false, true_and]
  rw [Nat.min_comm]

theorem Tailing.append {o : ℕ} (h : s.Tailing o ls) (bytes : Bytes) :
    (s.step t (.append bytes)).Tailing o ls := by
  refine ⟨h.first, h.offset, ?_, ?_, h.whole, h.lines⟩
  · exact h.within.trans (by simp [FileTail.step, content])
  · exact (take_append_of_le_length h.within).trans h.read

theorem Tailing.poll {o : ℕ} (h : s.Tailing o ls) (ht : t.OnFile)
    (hclean : WholeLines s.unread) : ∃ o' ls', (s.step t .poll).Tailing o' ls' := by
  have hoffset : (s.stream.request t).offset = some (o : ℤ) := by
    simp [LogStream.request, h.first, h.offset]
  have hbytes : (s.stream.request t).byteLimit = 65536 := by
    simp only [CollectLogsPayload.byteLimit, LogStream.request, h.first]
    rfl
  have hlines : (s.stream.request t).lineLimit = 500 := by
    simp only [CollectLogsPayload.lineLimit, LogStream.request, h.first]
    rfl
  have hunread : s.unread = (s.content.drop o).take 65536 := by
    rw [unread, h.offset]
    rfl
  cases hfile : s.file with
  | none =>
    have hcontent : s.content = [] := by rw [content, hfile, Option.getD_none]
    have ho : o = 0 := by simpa [hcontent] using h.within
    refine ⟨o, ls, ?_⟩
    have hstep : s.step t .poll = { s with stream := ⟨false, some 0, s.stream.lines ++ []⟩ } := by
      rw [FileTail.step, poll_eq ht, hfile]
      rfl
    rw [hstep]
    exact ⟨rfl, by rw [ho], h.within, h.read, h.whole, by rw [append_nil]; exact h.lines⟩
  | some bytes =>
    have hcontent : s.content = bytes := by rw [content, hfile, Option.getD_some]
    have ho : o ≤ bytes.length := hcontent ▸ h.within
    obtain ⟨ms, hms, hwhole, hreturned⟩ := hclean.lines
    obtain ⟨hgot, hend⟩ := collect_from hoffset ho
    rw [hbytes, ← hcontent, ← hunread] at hgot hend
    rw [hlines, hreturned] at hgot
    refine ⟨o + s.unread.length, ls ++ ms, ?_⟩
    have hstep : s.step t .poll = { s with
        stream := ⟨false, some (o + s.unread.length), s.stream.lines ++ ms.map trimReturn⟩ } := by
      rw [FileTail.step, poll_eq ht, hfile, ← hcontent, hgot, hend]
    have hread : (s.content.drop o).take s.unread.length = s.unread := by
      rw [hunread, length_take, ← take_eq_take_min]
    rw [hstep]
    refine ⟨rfl, rfl, ?_, ?_, ?_, ?_⟩
    · change o + s.unread.length ≤ s.content.length
      rw [hunread, length_take, length_drop, hcontent]
      omega
    · change s.content.take (o + s.unread.length) = _
      rw [take_add, h.read, hread, hms, Lines.unlines_append]
    · intro l hl
      rcases mem_append.1 hl with hl | hl
      · exact h.whole l hl
      · exact hwhole l hl
    · change s.stream.lines ++ ms.map trimReturn = _
      rw [h.lines, map_append]

/-- The first poll, of a file that is absent or empty. -/
theorem tailing_first (ht : t.OnFile) {file : Option Bytes} (hfile : file = none ∨ file = some []) :
    ((⟨file, LogStream.start⟩ : FileTail).step t .poll).Tailing 0 [] := by
  have hstep : (⟨file, LogStream.start⟩ : FileTail).step t .poll = ⟨file, ⟨false, some 0, []⟩⟩ := by
    rw [FileTail.step, poll_eq ht]
    rcases hfile with rfl | rfl
    · rfl
    · rfl
  rw [hstep]
  exact ⟨rfl, rfl, Nat.zero_le _, rfl, by simp, rfl⟩

/-- Every poll of a run reads whole lines. -/
def CleanRun (t : LogTarget) (s : FileTail) (es : List FileEvent) : Prop :=
  Runs.Along (step t) (fun s e => e = .poll → WholeLines s.unread) s es

theorem tailing_run (ht : t.OnFile) (es : List FileEvent) {o : ℕ} (hs : s.Tailing o ls)
    (hclean : s.CleanRun t es) : ∃ o ls, (Runs.run (step t) s es).Tailing o ls := by
  refine Runs.invariant (I := fun s => ∃ o ls, s.Tailing o ls) ?_ es s ⟨o, ls, hs⟩ hclean
  rintro s e ⟨o, ls, hs⟩ he
  cases e with
  | append bytes => exact ⟨o, ls, hs.append bytes⟩
  | poll => exact hs.poll ht (he rfl)

end FileTail

/-- The tail of a file after its first poll and what followed. -/
def FileTail.after (t : LogTarget) (file : Option Bytes) (es : List FileEvent) : FileTail :=
  Runs.run (step t) ⟨file, LogStream.start⟩ (.poll :: es)

/-- In every run whose polls all read whole lines, what has been returned is the first lines of the
file, and all of them once a poll has reached the end of a file that ends in a newline. -/
theorem file_tail_whole_lines {t : LogTarget} (ht : t.OnFile) {file : Option Bytes}
    (hfile : file = none ∨ file = some []) {es : List FileEvent}
    (hclean : (FileTail.after t file []).CleanRun t es) :
    (FileTail.after t file es).stream.lines <+: fileLines (FileTail.after t file es).content ∧
      ((FileTail.after t file es).stream.offset = some (FileTail.after t file es).content.length →
        (FileTail.after t file es).content.getLast? = some newline →
        (FileTail.after t file es).stream.lines = fileLines (FileTail.after t file es).content) := by
  obtain ⟨o, ls, hs⟩ : ∃ o ls, (FileTail.after t file es).Tailing o ls :=
    FileTail.tailing_run ht es (FileTail.tailing_first ht hfile) hclean
  constructor
  · rw [hs.lines, ← take_append_drop o (FileTail.after t file es).content, hs.read]
    exact prefix_fileLines hs.whole _
  · intro hend _
    have ho : o = (FileTail.after t file es).content.length := Option.some.inj (hs.offset.symm.trans hend)
    have hread := hs.read
    rw [ho, take_length] at hread
    rw [hs.lines, hread, fileLines_unlines hs.whole]

namespace Sample

def shopLog : LogTarget := ⟨"", "Healer-shop-8000", "logs", "stdout"⟩

theorem shopLog_onFile : shopLog.OnFile := ⟨by decide, by decide +kernel⟩

end Sample

open Sample in
/-- Two lines, the second empty, in two polls. -/
theorem file_tail_whole_lines_sample :
    (FileTail.after shopLog none [.append [97, newline], .poll, .append [newline], .poll]).stream.lines =
      fileLines (FileTail.after shopLog none
        [.append [97, newline], .poll, .append [newline], .poll]).content := by
  refine (file_tail_whole_lines shopLog_onFile (Or.inl rfl) ?_).2 (by decide +kernel) (by decide +kernel)
  show Runs.Along _ _ _ _
  refine ⟨fun h => ?_, fun _ => by decide +kernel, fun h => ?_, fun _ => by decide +kernel, trivial⟩
  · cases h
  · cases h

open Sample in
/-- A line written in two parts is returned as two lines. -/
theorem file_tail_splits_line :
    (FileTail.after shopLog none [.append [97], .poll, .append [98, newline], .poll]).stream.lines =
        [[97], [98]] ∧
      fileLines (FileTail.after shopLog none [.append [97], .poll, .append [98, newline], .poll]).content =
        [[97, 98]] := by
  decide +kernel

end Healer
