import Healer.Sanity.Logs

/-! A first view of a log file. The agent reads the last bytes of the file, drops what comes before the
first newline in them and the newlines at the end, and keeps the last lines of the rest. -/

namespace Healer

open List

/-- The lines of a file, with what stands after the last newline. -/
def logLines (content : Bytes) : List Bytes := (content.splitOn newline).map trimReturn

/-- The place of the first byte of a line. -/
def lineStart (content : Bytes) (k : ℕ) : ℕ :=
  (((content.splitOn newline).take k).map fun l => l.length + 1).sum

/-- The place of the first newline from `start` on. -/
def newlineFrom (content : Bytes) (start : ℕ) : Option ℕ :=
  ((content.drop start).findIdx? (· == newline)).map (start + ·)

/-- `lines` are the lines of the file from number `first` on, none of which starts before the window of
`maxBytes` bytes. -/
structure TailView (content : Bytes) (maxBytes maxLines first : ℕ) (lines : List Bytes) : Prop where
  stretch : lines <+: (logLines content).drop first
  count : lines.length ≤ maxLines
  whole : ∀ k, first ≤ k → k < first + lines.length → content.length - maxBytes ≤ lineStart content k
  rest : ∀ l ∈ (logLines content).drop (first + lines.length), l = []
  /-- A line that starts after the first newline of the window is shown, unless it and all lines after
  it are empty or the limit on lines has cut it off. -/
  complete : ∀ q k, newlineFrom content (content.length - maxBytes) = some q → q < lineStart content k →
    first ≤ k ∧ k < first + lines.length ∨ (∀ l ∈ (logLines content).drop k, l = []) ∨
      k < first ∧ lines.length = maxLines

section Lines

variable {content text : Bytes}

theorem lineStart_lt {j k : ℕ} (hjk : j < k) (hj : j < (content.splitOn newline).length) :
    lineStart content j < lineStart content k := by
  have hsplit : (content.splitOn newline).take k =
      (content.splitOn newline).take j ++ ((content.splitOn newline).drop j).take (k - j) := by
    rw [← drop_take, ← take_append_drop j ((content.splitOn newline).take k), take_take,
      min_eq_left hjk.le, drop_left' (by simp [hj.le])]
  obtain ⟨l, ls, hl⟩ : ∃ l ls, ((content.splitOn newline).drop j).take (k - j) = l :: ls := by
    apply exists_cons_of_ne_nil
    intro hnil
    have hlen := congrArg List.length hnil
    rw [length_take, length_drop, length_nil] at hlen
    omega
  rw [lineStart, lineStart, hsplit, hl, map_append, sum_append, map_cons, sum_cons]
  omega

theorem lineStart_le {j k : ℕ} (hjk : j ≤ k) : lineStart content j ≤ lineStart content k := by
  obtain rfl | hlt := hjk.eq_or_lt
  · exact le_rfl
  by_cases hj : j < (content.splitOn newline).length
  · exact (lineStart_lt hlt hj).le
  · rw [lineStart, lineStart, take_of_length_le (by omega), take_of_length_le (by omega)]

/-- The lines after a newline are the lines of the text after it. -/
theorem lineStart_append (x : Bytes) (text : Bytes) :
    lineStart (x ++ newline :: text) (x.splitOn newline).length = x.length + 1 := by
  rw [lineStart, splitOn_append_cons_self, take_left, Lines.sum_splitOn]

theorem logLines_append (x : Bytes) (text : Bytes) :
    logLines (x ++ newline :: text) = logLines x ++ logLines text := by
  rw [logLines, splitOn_append_cons_self, map_append, logLines, logLines]

/-- What is split off are the lines of the text, up to empty lines at the end. -/
theorem logLines_splitLines (text : Bytes) : ∃ m, logLines text = splitLines text ++ List.replicate m [] := by
  by_cases htext : text = []
  · subst htext
    exact ⟨1, rfl⟩
  obtain ⟨m, hm⟩ := Lines.exists_rdropWhile newline text
  refine ⟨m, ?_⟩
  rw [splitLines, if_neg htext, logLines]
  conv_lhs => rw [hm, Lines.splitOn_append_replicate, map_append, map_replicate]
  rfl

end Lines

/-- A window with a newline in it: a fragment, the newline, and what is kept. -/
theorem exists_fragment {buf : Bytes} {n : ℕ} (h : buf.findIdx? (· == newline) = some n) :
    ∃ frag, buf = frag ++ newline :: dropFragment buf ∧ frag.length = n := by
  induction buf generalizing n with
  | nil => cases h
  | cons b buf ih =>
    rw [List.findIdx?_cons] at h
    split_ifs at h with hb
    · cases h
      exact ⟨[], by simp [dropFragment, eq_of_beq hb], rfl⟩
    · obtain ⟨m, hm, rfl⟩ := Option.map_eq_some_iff.1 h
      obtain ⟨frag, hfrag, hlen⟩ := ih hm
      have hdrop : dropFragment (b :: buf) = dropFragment buf := by
        rw [dropFragment, dropWhile_cons_of_pos (by simpa using hb), dropFragment]
      exact ⟨b :: frag, by rw [hdrop, cons_append, ← hfrag], by simp [hlen]⟩

theorem dropFragment_of_none {buf : Bytes} (h : buf.findIdx? (· == newline) = none) : dropFragment buf = [] := by
  rw [List.findIdx?_eq_none_iff] at h
  rw [dropFragment, dropWhile_eq_nil_iff.2 (by simpa using h), drop_nil]

/-- What is left of the file once the head of the window is dropped: nothing, or all lines from some
number on, the first of which starts in the window and not after its first newline. -/
theorem window_lines (content : Bytes) (start : ℕ) (hstart : start ≤ content.length) :
    newlineFrom content start = none ∧ dropFragment (content.drop start) = [] ∨
    ∃ pre, logLines content = pre ++ logLines (dropFragment (content.drop start)) ∧
      start ≤ lineStart content pre.length ∧
      ∀ q k, newlineFrom content start = some q → q < lineStart content k → pre.length ≤ k := by
  rcases hfind : (content.drop start).findIdx? (· == newline) with _ | n
  · exact .inl ⟨by rw [newlineFrom, hfind, Option.map_none], dropFragment_of_none hfind⟩
  right
  obtain ⟨frag, hfrag, rfl⟩ := exists_fragment hfind
  obtain ⟨x, text, hcontent, hlen, htext⟩ : ∃ x text, content = x ++ newline :: text ∧
      x.length = start + frag.length ∧ dropFragment (content.drop start) = text := by
    refine ⟨content.take start ++ frag, _, ?_, ?_, rfl⟩
    · rw [append_assoc, ← hfrag, take_append_drop]
    · rw [length_append, length_take, min_eq_left hstart]
  have hfirst : lineStart content (logLines x).length = start + frag.length + 1 := by
    rw [hcontent, logLines, length_map, lineStart_append, hlen]
  refine ⟨logLines x, ?_, by omega, fun q k hq hk => ?_⟩
  · rw [htext, hcontent, logLines_append]
  · rw [newlineFrom, hfind, Option.map_some, Option.some.injEq] at hq
    by_contra hlt
    -- the line would start before the one after the newline
    have hcount : k < (content.splitOn newline).length := by
      rw [hcontent, splitOn_append_cons_self, length_append]
      rw [logLines, length_map] at hlt
      omega
    have hless := lineStart_lt (not_le.1 hlt) hcount
    omega

/-- Lines of which the last are shown, in front of empty lines. -/
theorem tailView_of_split {content text : Bytes} {maxBytes : ℕ} {pre : List Bytes} (maxLines : ℕ)
    (hlines : logLines content = pre ++ logLines text)
    (hstart : content.length - maxBytes ≤ lineStart content pre.length)
    (hnewline : ∀ q k, newlineFrom content (content.length - maxBytes) = some q →
      q < lineStart content k → pre.length ≤ k) :
    ∃ first, TailView content maxBytes maxLines first (lastLines maxLines (splitLines text)) := by
  obtain ⟨m, hm⟩ := logLines_splitLines text
  obtain ⟨cut, hcut, hle, hlimit⟩ : ∃ cut, lastLines maxLines (splitLines text) = (splitLines text).drop cut ∧
      cut ≤ (splitLines text).length ∧
      (cut = 0 ∨ (lastLines maxLines (splitLines text)).length = maxLines) := by
    by_cases hmany : (splitLines text).length > maxLines
    · refine ⟨(splitLines text).length - maxLines, by rw [lastLines, if_pos hmany], Nat.sub_le _ _, .inr ?_⟩
      rw [length_lastLines, min_eq_left hmany.le]
    · exact ⟨0, by rw [lastLines, if_neg hmany, drop_zero], Nat.zero_le _, .inl rfl⟩
  have hdrop : (logLines content).drop (pre.length + cut) =
      lastLines maxLines (splitLines text) ++ List.replicate m [] := by
    rw [hlines, hm, ← drop_drop, drop_left, drop_append_of_le_length hle, hcut]
  have hrest : ∀ k, pre.length + cut + (lastLines maxLines (splitLines text)).length ≤ k →
      ∀ l ∈ (logLines content).drop k, l = [] := by
    intro k hk l hl
    obtain ⟨j, rfl⟩ := Nat.exists_eq_add_of_le hk
    rw [← drop_drop, ← drop_drop, hdrop, drop_left] at hl
    exact eq_of_mem_replicate (mem_of_mem_drop hl)
  refine ⟨pre.length + cut, ?_, ?_, ?_, hrest _ le_rfl, ?_⟩
  · rw [hdrop]
    exact prefix_append _ _
  · rw [length_lastLines]
    exact min_le_left _ _
  · intro k hk _
    exact hstart.trans (lineStart_le (by omega))
  · intro q k hq hk
    have hpre := hnewline q k hq hk
    by_cases hcutoff : k < pre.length + cut
    · exact .inr (.inr ⟨hcutoff, hlimit.resolve_left (by omega)⟩)
    by_cases hshown : k < pre.length + cut + (lastLines maxLines (splitLines text)).length
    · exact .inl ⟨by omega, hshown⟩
    · exact .inr (.inl (hrest k (by omega)))

/-- Nothing is shown of a window without a newline. -/
theorem tailView_nil {content : Bytes} {maxBytes : ℕ} (maxLines : ℕ)
    (h : newlineFrom content (content.length - maxBytes) = none) :
    TailView content maxBytes maxLines (logLines content).length [] where
  stretch := nil_prefix
  count := Nat.zero_le _
  whole k hk hlt := by
    rw [length_nil] at hlt
    omega
  rest l hl := by
    rw [length_nil, Nat.add_zero, drop_length] at hl
    cases hl
  complete q k hq := by
    rw [h] at hq
    cases hq

theorem collectFileLogs_view (p : CollectLogsPayload) (content : Bytes) (hoffset : p.offset = none) :
    (collectFileLogs p (some content)).endOffset = content.length ∧
    ∃ first, TailView content p.byteLimit p.lineLimit first (collectFileLogs p (some content)).lines := by
  have hstart : min ((content.length : ℤ) - p.byteLimit).toNat content.length = content.length - p.byteLimit := by
    omega
  have hread : min (content.length - (content.length - p.byteLimit)) p.byteLimit =
      content.length - (content.length - p.byteLimit) := by
    omega
  have hbuf : (content.drop (content.length - p.byteLimit)).take
      (content.length - (content.length - p.byteLimit)) = content.drop (content.length - p.byteLimit) := by
    rw [take_of_length_le]
    rw [length_drop]
  simp only [collectFileLogs, hoffset, hstart, hread, hbuf, Option.isNone_none, true_and]
  refine ⟨by omega, ?_⟩
  by_cases hzero : content.length - p.byteLimit > 0
  · rw [if_pos hzero]
    rcases window_lines content _ (Nat.sub_le _ _) with ⟨hnone, hnil⟩ | ⟨pre, hlines, hpre, hnewline⟩
    · rw [hnil]
      exact ⟨_, tailView_nil _ hnone⟩
    · exact tailView_of_split _ hlines hpre hnewline
  · rw [if_neg hzero, Nat.eq_zero_of_not_pos hzero, drop_zero]
    exact @tailView_of_split content content p.byteLimit [] _ rfl (by omega) (fun _ _ _ _ => Nat.zero_le _)

/-- The name of the log file of a stream. -/
def logFileName (p : CollectLogsPayload) : String :=
  p.serviceName ++ if p.stream = "stdout" then ".out.log" else ".err.log"

/-- A first view of a log file is whole lines of it, up to its end. -/
theorem fresh_tail_shows_whole_lines (host : LogHost) (p : CollectLogsPayload) (content : Bytes)
    (hvalid : validateCollectLogsPayload p = .ok ()) (hadapter : p.adapter ≠ "linux-docker")
    (hoffset : p.offset = none) (hfile : host.file p.logDir (logFileName p) = some content) :
    ∃ chunk, handleCollectLogs host p = .ok chunk ∧ chunk.endOffset = content.length ∧
      ∃ first, TailView content p.byteLimit p.lineLimit first chunk.lines := by
  refine ⟨collectFileLogs p (some content), ?_, collectFileLogs_view p content hoffset⟩
  rw [← hfile, handleCollectLogs, hvalid]
  exact if_neg hadapter

namespace Sample

/-- The last four bytes of a file. -/
def lastFour : CollectLogsPayload := ⟨"", "Healer-shop-8000", "logs", "stdout", 4, 0, none⟩

/-- `ab`, `cd` and an empty line. -/
def shopFile : LogHost := ⟨fun _ _ => some [97, 98, 10, 99, 100, 10, 10], fun _ _ _ => .error ""⟩

end Sample

open Sample in
theorem fresh_tail_shows_whole_lines_sample :
    ∃ chunk, handleCollectLogs shopFile lastFour = .ok chunk ∧ chunk.endOffset = 7 ∧
      ∃ first, TailView [97, 98, 10, 99, 100, 10, 10] lastFour.byteLimit lastFour.lineLimit first chunk.lines :=
  fresh_tail_shows_whole_lines shopFile lastFour _ (by decide +kernel) (by decide) rfl rfl

end Healer
