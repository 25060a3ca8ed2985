import Healer.Lib.Runs
import Healer.Sanity.Logs

/-! The live tail of a container. Docker answers with a window of the newest lines, and the agent's
offset counts bytes from the start of that window. -/

namespace Healer

open List

open Lines (unlines Tidy)

/-! ## Docker's frames -/

/-- A framed answer. -/
def framed (kind : UInt8) (frames : List Bytes) : Bytes :=
  frames.flatMap fun f => frameHeader kind f.length ++ f

theorem demux_framed (kind : UInt8) (frames : List Bytes) (h : ∀ f ∈ frames, f.length < 2 ^ 32) :
    demuxDockerLogStream (framed kind frames) = frames.flatten := by
  induction frames with
  | nil => rw [demuxDockerLogStream]; rfl
  | cons f frames ih =>
    have hsplit : framed kind (f :: frames) = frameHeader kind f.length ++ (f ++ framed kind frames) := by
      simp [framed]
    rw [hsplit, demux_frame kind (h f (by simp)) (by simp), take_left, drop_left,
      ih fun g hg => h g (by simp [hg]), flatten_cons]

theorem length_le_framed (kind : UInt8) {frames : List Bytes} {f : Bytes} (hf : f ∈ frames) :
    f.length ≤ (framed kind frames).length := by
  induction frames with
  | nil => cases hf
  | cons g frames ih =>
    have hlen : (framed kind (g :: frames)).length = 8 + g.length + (framed kind frames).length := by
      simp [framed, frameHeader]
      omega
    rcases mem_cons.1 hf with rfl | hf
    · omega
    · have := ih hf
      omega

/-! ## Polls -/

/-- The last `n` lines, or all. -/
def window (n : ℕ) (log : List Bytes) : List Bytes := log.drop (log.length - n)

/-- The lines a container has written, and `end_offset` of the last poll. -/
structure ContainerTail where
  log : List Bytes
  offset : Option ℕ

def ContainerTail.start : ContainerTail := ⟨[], none⟩

/-- A poll: the lines written since the one before, the limits asked for, and the host it meets. -/
structure ContainerPoll where
  new : List Bytes
  maxBytes : ℤ
  maxLines : ℤ
  host : LogHost

def ContainerPoll.payload (e : ContainerPoll) (name stream : String) (offset : Option ℕ) :
    CollectLogsPayload where
  adapter := "linux-docker"
  serviceName := name
  logDir := ""
  stream := stream
  maxBytes := e.maxBytes
  maxLines := e.maxLines
  offset := offset.map fun n => (n : ℤ)

namespace ContainerTail

variable (name stream : String)

def poll (s : ContainerTail) (e : ContainerPoll) : Except String LogChunk :=
  collectContainerLogs e.host (e.payload name stream s.offset)

def step (s : ContainerTail) (e : ContainerPoll) : ContainerTail where
  log := s.log ++ e.new
  offset := match s.poll name stream e with
    | .ok chunk => some chunk.endOffset
    | .error _ => s.offset

/-- Whole lines that are not empty were written; Docker answers with the newest of all lines, in at
most one MiB; and what is new since the poll before is below the limits asked for. -/
structure Fair (s : ContainerTail) (e : ContainerPoll) : Prop where
  whole : ∀ l ∈ e.new, l ≠ [] ∧ newline ∉ l
  answer : ∃ kind frames, e.host.containerLogs name stream hardLogMaxLines = .ok (framed kind frames) ∧
    frames.flatten = unlines newline (window hardLogMaxLines (s.log ++ e.new)) ∧
    (framed kind frames).length ≤ 1048576
  bytes : s.offset.isSome → (unlines newline e.new).length < (e.payload name stream s.offset).byteLimit
  lines : s.offset.isSome → e.new.length < (e.payload name stream s.offset).lineLimit

/-- What each poll leaves: its `end_offset` is the size of the window it saw. -/
structure Following (s : ContainerTail) : Prop where
  whole : ∀ l ∈ s.log, l ≠ [] ∧ newline ∉ l
  offset : s.offset = some (unlines newline (window hardLogMaxLines s.log)).length ∨
    s.offset = none ∧ s.log = []

end ContainerTail

section Limits

theorem logLimit_le {asked : ℤ} {default hard : ℕ} (h : default ≤ hard) : logLimit asked default hard ≤ hard := by
  unfold logLimit
  split_ifs with hout
  · exact h
  · omega

theorem lineLimit_le (p : CollectLogsPayload) : p.lineLimit ≤ hardLogMaxLines := logLimit_le (by decide)

end Limits

namespace ContainerTail

variable {name stream : String} {s : ContainerTail} {e : ContainerPoll}

theorem poll_eq (hstream : stream = "stdout" ∨ stream = "stderr") (h : s.Fair name stream e) :
    s.poll name stream e = .ok (collectContainerText (e.payload name stream s.offset)
      (unlines newline (window hardLogMaxLines (s.log ++ e.new)))) := by
  obtain ⟨kind, frames, hanswer, hflat, hsize⟩ := h.answer
  have hframes : ∀ f ∈ frames, f.length < 2 ^ 32 := by
    intro f hf
    have := length_le_framed kind hf
    omega
  have hnamed : ¬ (stream ≠ "stdout" ∧ stream ≠ "stderr") := by
    rintro ⟨h₁, h₂⟩
    rcases hstream with h | h
    · exact h₁ h
    · exact h₂ h
  have hlogs : containerStreamLogs e.host name stream hardLogMaxLines =
      .ok (unlines newline (window hardLogMaxLines (s.log ++ e.new))) := by
    rw [containerStreamLogs, if_neg hnamed, if_neg (by decide), hanswer, ← hflat,
      ← demux_framed kind frames hframes]
    exact if_neg (by omega)
  simp only [poll, collectContainerLogs, ContainerPoll.payload, hlogs]

end ContainerTail

/-! ## One answer -/

section Answer

variable {p : CollectLogsPayload} {logs : Bytes} {o : ℕ}

theorem endOffset_first (h : p.offset = none) : (collectContainerText p logs).endOffset = logs.length := by
  simp only [collectContainerText, h, length_take, length_drop]
  omega

/-- The offset lies in the window: the rest of the window is read. -/
theorem collect_forward (h : p.offset = some (o : ℤ)) (ho : o ≤ logs.length)
    (hbytes : logs.length - o ≤ p.byteLimit) :
    (collectContainerText p logs).lines = lastLines p.lineLimit (splitLines (logs.drop o)) ∧
      (collectContainerText p logs).endOffset = logs.length := by
  have hle : (o : ℤ) ≤ (logs.length : ℤ) := by exact_mod_cast ho
  have hread : (logs.drop o).take p.byteLimit = logs.drop o :=
    take_of_length_le (by rw [length_drop]; exact hbytes)
  simp only [collectContainerText, h, if_pos hle, Int.toNat_natCast, hread, length_drop,
    Option.isNone_some, Bool.false_eq_true, false_and, if_false, true_and]
  omega

/-- The offset lies beyond the window: the end of the window is read, from wherever the byte limit
falls. -/
theorem collect_beyond (h : p.offset = some (o : ℤ)) (ho : logs.length < o) :
    (collectContainerText p logs).lines =
        lastLines p.lineLimit (splitLines (logs.drop (logs.length - p.byteLimit))) ∧
      (collectContainerText p logs).endOffset = logs.length := by
  have hgt : ¬ (o : ℤ) ≤ (logs.length : ℤ) := by
    rw [not_le]
    exact_mod_cast ho
  have hstart : ((logs.length : ℤ) - (p.byteLimit : ℤ)).toNat = logs.length - p.byteLimit := by omega
  have hread : (logs.drop (logs.length - p.byteLimit)).take p.byteLimit =
      logs.drop (logs.length - p.byteLimit) :=
    take_of_length_le (by rw [length_drop]; omega)
  simp only [collectContainerText, h, if_neg hgt, hstart, hread, length_drop,
    Option.isNone_some, Bool.false_eq_true, false_and, if_false, true_and]
  omega

end Answer

/-! ## The window -/

section Window

variable {log new old dropped : List Bytes} {n : ℕ}

theorem window_of_le (h : log.length ≤ n) : window n log = log := by
  rw [window, Nat.sub_eq_zero_of_le h, drop_zero]

/-- What a full window loses when lines are added. -/
theorem window_slides (hfull : n < (log ++ new).length) (hnew : new ≠ []) (hshort : new.length ≤ n) :
    ∃ dropped old, dropped ≠ [] ∧ window n log = dropped ++ old ∧ window n (log ++ new) = old ++ new := by
  have hpos : 0 < new.length := length_pos_iff.2 hnew
  rw [length_append] at hfull
  refine ⟨(window n log).take (log.length + new.length - n - (log.length - n)),
    log.drop (log.length + new.length - n), ?_, ?_, ?_⟩
  · intro h
    have hlen := congrArg List.length h
    simp only [window, length_take, length_drop, length_nil] at hlen
    omega
  · have hdrop : log.drop (log.length + new.length - n) =
        (window n log).drop (log.length + new.length - n - (log.length - n)) := by
      rw [window, drop_drop]
      congr 1
      omega
    rw [hdrop, take_append_drop]
  · rw [window, length_append, drop_append_of_le_length (by omega)]

end Window

/-! ## What a poll returns -/

section Returned

variable {p : CollectLogsPayload} {old new dropped : List Bytes}

theorem tidy_whole {ls : List Bytes} (h : ∀ l ∈ ls, l ≠ []) : Tidy ls := by
  cases ls with
  | nil => exact .inr (by simp)
  | cons l ls => exact Tidy.cons fun m hm => h m (by simp [hm])

/-- Lines that lost their first two bytes or more are not the lines. -/
theorem splitLines_cut_ne {d : ℕ} (hnew : ∀ l ∈ new, l ≠ [] ∧ newline ∉ l) (hne : new ≠ []) (hd : 2 ≤ d) :
    splitLines ((unlines newline new).drop d) ≠ new.map trimReturn := by
  intro heq
  by_cases hlt : d < (unlines newline new).length
  · obtain ⟨pre, l, post, j, rfl, hdrop, hj, hjl⟩ := Lines.drop_unlines hlt
    have hl := hnew l (by simp)
    rw [hdrop, splitLines_unlines ?_ (Tidy.cons fun m hm => (hnew m (by simp [hm])).1)] at heq
    swap
    · intro m hm
      rcases mem_cons.1 hm with rfl | hm
      · exact fun h => hl.2 (mem_of_mem_drop h)
      · exact (hnew m (by simp [hm])).2
    -- no line is missing, so the cut is in the first one
    obtain rfl : pre = [] := by
      have hlen := congrArg List.length heq
      simp only [length_map, length_cons, length_append] at hlen
      exact length_eq_zero_iff.1 (by omega)
    simp only [nil_append, map_cons, List.cons.injEq] at heq
    have hshort := length_trimReturn_le (l.drop j)
    have hlong := le_length_trimReturn l
    rw [heq.1, length_drop] at hshort
    simp only [Lines.unlines_nil, length_nil] at hj
    omega
  · rw [drop_of_length_le (by omega)] at heq
    exact hne (map_eq_nil_iff.1 heq.symm)

theorem two_le_unlines {ls : List Bytes} (h : ∀ l ∈ ls, l ≠ []) (hne : ls ≠ []) :
    2 ≤ (unlines newline ls).length := by
  cases ls with
  | nil => exact absurd rfl hne
  | cons l ls =>
    have hl := length_pos_iff.2 (h l (by simp))
    rw [Lines.unlines_cons, length_append, length_cons]
    omega

/-- The window has room for the new lines. -/
theorem collect_grown (hnew : ∀ l ∈ new, l ≠ [] ∧ newline ∉ l)
    (hoffset : p.offset = some ((unlines newline old).length : ℤ))
    (hbytes : (unlines newline new).length < p.byteLimit) (hlines : new.length < p.lineLimit) :
    (collectContainerText p (unlines newline (old ++ new))).lines = new.map trimReturn ∧
      (collectContainerText p (unlines newline (old ++ new))).endOffset =
        (unlines newline (old ++ new)).length := by
  have hlen := Lines.length_unlines_append newline old new
  have hfits : (unlines newline old).length ≤ (unlines newline (old ++ new)).length := by omega
  obtain ⟨h₁, h₂⟩ := collect_forward hoffset hfits (by omega)
  refine ⟨?_, h₂⟩
  rw [h₁, Lines.unlines_append, drop_left,
    splitLines_unlines (fun l hl => (hnew l hl).2) (tidy_whole fun l hl => (hnew l hl).1)]
  exact lastLines_of_le (by rw [length_map]; omega)

/-- The window has lost lines, and with them as many bytes of what is new, or the offset. -/
theorem collect_slid (hold : ∀ l ∈ old, l ≠ [] ∧ newline ∉ l) (hnew : ∀ l ∈ new, l ≠ [] ∧ newline ∉ l)
    (hdropped : 2 ≤ (unlines newline dropped).length) (hne : new ≠ []) (hne' : old ≠ [])
    (hoffset : p.offset = some ((unlines newline (dropped ++ old)).length : ℤ))
    (hbytes : (unlines newline new).length < p.byteLimit) (hlines : new.length < p.lineLimit) :
    (collectContainerText p (unlines newline (old ++ new))).lines ≠ new.map trimReturn ∧
      (collectContainerText p (unlines newline (old ++ new))).endOffset =
        (unlines newline (old ++ new)).length := by
  have hlen := Lines.length_unlines_append newline old new
  have hlen' := Lines.length_unlines_append newline dropped old
  have hshort : (new.map trimReturn).length < p.lineLimit := by rwa [length_map]
  by_cases hin : (unlines newline (dropped ++ old)).length ≤ (unlines newline (old ++ new)).length
  · obtain ⟨h₁, h₂⟩ := collect_forward hoffset hin (by omega)
    refine ⟨fun heq => ?_, h₂⟩
    rw [h₁] at heq
    refine splitLines_cut_ne hnew hne hdropped ?_
    rw [← eq_of_lastLines heq hshort, hlen', Lines.unlines_append, Nat.add_comm, ← drop_drop,
      drop_left]
  · obtain ⟨h₁, h₂⟩ := collect_beyond hoffset (not_le.1 hin)
    refine ⟨fun heq => ?_, h₂⟩
    rw [h₁] at heq
    have hlines := eq_of_lastLines heq hshort
    -- the answer begins inside an older line
    have hpos : 0 < (unlines newline old).length :=
      length_pos_iff.2 (Lines.unlines_eq_nil.not.2 hne')
    have hstart : (unlines newline (old ++ new)).length - p.byteLimit < (unlines newline old).length := by
      omega
    obtain ⟨pre, l, post, j, hsplit, hdrop, -, -⟩ := Lines.drop_unlines hstart
    have hcut : (unlines newline (old ++ new)).drop ((unlines newline (old ++ new)).length - p.byteLimit) =
        unlines newline (l.drop j :: (post ++ new)) := by
      nth_rewrite 2 [Lines.unlines_append]
      rw [drop_append_of_le_length hstart.le, hdrop, ← Lines.unlines_append, cons_append]
    have hpost : ∀ m ∈ post ++ new, m ≠ [] ∧ newline ∉ m := by
      intro m hm
      rcases mem_append.1 hm with hm | hm
      · exact hold m (by simp [hsplit, hm])
      · exact hnew m hm
    have hl : newline ∉ l.drop j := fun h => (hold l (by simp [hsplit])).2 (mem_of_mem_drop h)
    rw [hcut, splitLines_unlines ?_ (Tidy.cons fun m hm => (hpost m hm).1)] at hlines
    · have hcount := congrArg List.length hlines
      simp only [length_map, length_cons, length_append] at hcount
      omega
    · intro m hm
      rcases mem_cons.1 hm with rfl | hm
      · exact hl
      · exact (hpost m hm).2

end Returned

namespace ContainerTail

variable {name stream : String} {s : ContainerTail} {e : ContainerPoll}

theorem whole_window {log : List Bytes} (h : ∀ l ∈ log, l ≠ [] ∧ newline ∉ l) (n : ℕ) :
    ∀ l ∈ window n log, l ≠ [] ∧ newline ∉ l :=
  fun l hl => h l (mem_of_mem_drop hl)

/-- One poll after another: it ends at the end of its window, and returns what is new just when the
window has not moved. -/
theorem poll_spec (hstream : stream = "stdout" ∨ stream = "stderr") (hs : s.Following)
    (hoffset : s.offset.isSome) (he : s.Fair name stream e) :
    ∃ chunk, s.poll name stream e = .ok chunk ∧
      chunk.endOffset = (unlines newline (window hardLogMaxLines (s.log ++ e.new))).length ∧
      (chunk.lines = e.new.map trimReturn ↔
        e.new = [] ∨ (s.log ++ e.new).length ≤ hardLogMaxLines) := by
  refine ⟨_, poll_eq hstream he, ?_⟩
  have hlast : s.offset = some (unlines newline (window hardLogMaxLines s.log)).length := by
    rcases hs.offset with h | ⟨h, -⟩
    · exact h
    · rw [h] at hoffset
      cases hoffset
  have hbytes := he.bytes hoffset
  have hlines := he.lines hoffset
  have hp : (e.payload name stream s.offset).offset =
      some ((unlines newline (window hardLogMaxLines s.log)).length : ℤ) := by
    rw [ContainerPoll.payload, hlast]
    rfl
  by_cases hroom : e.new = [] ∨ (s.log ++ e.new).length ≤ hardLogMaxLines
  · have hwindow : window hardLogMaxLines (s.log ++ e.new) = window hardLogMaxLines s.log ++ e.new := by
      rcases hroom with hnone | hle
      · rw [hnone, append_nil, append_nil]
      · rw [window_of_le hle, window_of_le (by rw [length_append] at hle; omega)]
    rw [hwindow]
    obtain ⟨h₁, h₂⟩ := collect_grown he.whole hp hbytes hlines
    exact ⟨h₂, iff_of_true h₁ hroom⟩
  · obtain ⟨hne, hfull⟩ := not_or.1 hroom
    have hshort : e.new.length < hardLogMaxLines := hlines.trans_le (lineLimit_le _)
    obtain ⟨dropped, old, hdropped, hbefore, hafter⟩ := window_slides (not_le.1 hfull) hne hshort.le
    have hold : ∀ l ∈ dropped ++ old, l ≠ [] ∧ newline ∉ l := by
      rw [← hbefore]
      exact whole_window hs.whole _
    have hne' : old ≠ [] := by
      rintro rfl
      have hlen := congrArg List.length hafter
      simp only [window, length_drop, nil_append] at hlen
      omega
    rw [hbefore] at hp
    rw [hafter]
    obtain ⟨h₁, h₂⟩ := collect_slid (fun l hl => hold l (by simp [hl])) he.whole
      (two_le_unlines (fun l hl => (hold l (by simp [hl])).1) hdropped) hne hne' hp hbytes hlines
    exact ⟨h₂, iff_of_false h₁ hroom⟩

theorem following_start : Following start := ⟨by simp [start], .inr ⟨rfl, rfl⟩⟩

theorem Following.step (hstream : stream = "stdout" ∨ stream = "stderr") (hs : s.Following)
    (he : s.Fair name stream e) : (s.step name stream e).Following ∧
      (s.step name stream e).offset.isSome := by
  have hend : ∃ chunk, s.poll name stream e = .ok chunk ∧
      chunk.endOffset = (unlines newline (window hardLogMaxLines (s.log ++ e.new))).length := by
    rcases hs.offset with h | ⟨h, -⟩
    · obtain ⟨chunk, hpoll, hend, -⟩ := poll_spec hstream hs (by rw [h]; rfl) he
      exact ⟨chunk, hpoll, hend⟩
    · exact ⟨_, poll_eq hstream he, endOffset_first (by rw [ContainerPoll.payload, h]; rfl)⟩
  obtain ⟨chunk, hpoll, hend⟩ := hend
  have hoffset : (s.step name stream e).offset = some chunk.endOffset := by
    simp only [ContainerTail.step, hpoll]
  refine ⟨⟨fun l hl => ?_, .inl (by rw [hoffset, hend]; rfl)⟩, by rw [hoffset]; rfl⟩
  rcases mem_append.1 hl with hl | hl
  · exact hs.whole l hl
  · exact he.whole l hl

end ContainerTail

/-- The tail after some polls. -/
def ContainerTail.after (name stream : String) (polls : List ContainerPoll) : ContainerTail :=
  Runs.run (step name stream) start polls

theorem ContainerTail.following_after {name stream : String}
    (hstream : stream = "stdout" ∨ stream = "stderr") {first : ContainerPoll} {polls : List ContainerPoll}
    (hfair : Runs.Along (step name stream) (Fair name stream) start (first :: polls)) :
    (after name stream (first :: polls)).Following ∧
      (after name stream (first :: polls)).offset.isSome := by
  refine Runs.invariant (I := fun s => s.Following ∧ s.offset.isSome) (P := Fair name stream)
    (fun s e hs he => hs.1.step hstream he) polls _ ?_ hfair.2
  exact following_start.step hstream hfair.1

/-- After any fair polls, a further one returns the lines written since the last just when there are
none, or the container has written no more lines in all than Docker is asked for. -/
theorem container_tail_returns_new_iff {name stream : String}
    (hstream : stream = "stdout" ∨ stream = "stderr") {first : ContainerPoll} {polls : List ContainerPoll}
    {e : ContainerPoll}
    (hfair : Runs.Along (ContainerTail.step name stream) (ContainerTail.Fair name stream)
      ContainerTail.start ((first :: polls) ++ [e])) :
    (∃ chunk, (ContainerTail.after name stream (first :: polls)).poll name stream e = .ok chunk ∧
        chunk.lines = e.new.map trimReturn) ↔
      e.new = [] ∨
        ((ContainerTail.after name stream (first :: polls)).log ++ e.new).length ≤ hardLogMaxLines := by
  obtain ⟨hpolls, he⟩ := (Runs.along_concat e _ _).1 hfair
  obtain ⟨hs, hoffset⟩ := ContainerTail.following_after hstream hpolls
  obtain ⟨chunk, hpoll, -, hiff⟩ := ContainerTail.poll_spec hstream hs hoffset he
  rw [← hiff]
  constructor
  · rintro ⟨chunk', hpoll', hlines⟩
    obtain rfl : chunk = chunk' := Except.ok.inj (hpoll.symm.trans hpoll')
    exact hlines
  · intro hlines
    exact ⟨chunk, hpoll, hlines⟩

namespace Sample

/-- A Docker daemon whose container has written `log`. -/
def dockerHost (log : List Bytes) : LogHost where
  file _ _ := none
  containerLogs _ _ n := .ok (framed 1 [unlines newline (window n log)])

/-- A poll with the limits of the live tail, after which the container has written `log` in all. -/
def pollOf (log new : List Bytes) : ContainerPoll := ⟨new, 65536, 500, dockerHost log⟩

def lineA : Bytes := [97]

def lineB : Bytes := [98]

theorem fair_pollOf {s : ContainerTail} {new : List Bytes} (hnew : ∀ l ∈ new, l ≠ [] ∧ newline ∉ l)
    (hsize : (unlines newline (window hardLogMaxLines (s.log ++ new))).length ≤ 1048568)
    (hbytes : s.offset.isSome → (unlines newline new).length < 65536)
    (hlines : s.offset.isSome → new.length < 500) :
    s.Fair "shop" "stdout" (pollOf (s.log ++ new) new) := by
  refine ⟨hnew, ⟨1, _, rfl, by simp [pollOf], ?_⟩, hbytes, hlines⟩
  simp only [framed, frameHeader, flatMap_cons, flatMap_nil, append_nil,
    length_append, length_cons, length_nil]
  omega

/-- `n` lines have been written at the first poll. -/
def manyLines (n : ℕ) : ContainerPoll := pollOf (List.replicate n lineA) (List.replicate n lineA)

/-- One more line has been written at the next. -/
def oneMore (n : ℕ) : ContainerPoll := pollOf (List.replicate n lineA ++ [lineB]) [lineB]

theorem length_unlines_replicate (n : ℕ) : (unlines newline (List.replicate n lineA)).length = 2 * n := by
  induction n with
  | zero => rfl
  | succ n ih =>
    rw [replicate_succ, Lines.unlines_cons, length_append, length_cons, ih]
    simp only [lineA, length_singleton]
    omega

theorem fair_manyLines {n : ℕ} (hn : n ≤ hardLogMaxLines) :
    ContainerTail.start.Fair "shop" "stdout" (manyLines n) := by
  refine fair_pollOf (s := .start) (fun l hl => ?_) ?_ (fun h => by cases h) fun h => by cases h
  · rw [eq_of_mem_replicate hl]
    decide
  · rw [ContainerTail.start, nil_append, window_of_le (by rwa [length_replicate]),
      length_unlines_replicate]
    rw [hardLogMaxLines] at hn
    omega

theorem after_manyLines (n : ℕ) :
    (ContainerTail.after "shop" "stdout" [manyLines n]).log = List.replicate n lineA := rfl

theorem fair_oneMore {n : ℕ} (hn : n ≤ hardLogMaxLines) :
    (ContainerTail.after "shop" "stdout" [manyLines n]).Fair "shop" "stdout" (oneMore n) := by
  refine fair_pollOf (s := ContainerTail.after "shop" "stdout" [manyLines n]) (by decide) ?_
    (fun _ => by decide) fun _ => by decide
  have hlen : (unlines newline (List.replicate n lineA ++ [lineB])).length = 2 * n + 2 := by
    rw [Lines.length_unlines_append, length_unlines_replicate]
    rfl
  have hwindow : (unlines newline (window hardLogMaxLines (List.replicate n lineA ++ [lineB]))).length ≤
      (unlines newline (List.replicate n lineA ++ [lineB])).length :=
    Lines.length_unlines_drop_le _ _
  rw [after_manyLines]
  rw [hardLogMaxLines] at hn
  omega

end Sample

open Sample in
theorem container_tail_returns_new_sample :
    ∃ chunk, (ContainerTail.after "shop" "stdout" [manyLines 1]).poll "shop" "stdout" (oneMore 1) =
      .ok chunk ∧ chunk.lines = [lineB] := by
  have hfair : Runs.Along (ContainerTail.step "shop" "stdout") (ContainerTail.Fair "shop" "stdout")
      ContainerTail.start ([manyLines 1] ++ [oneMore 1]) :=
    ⟨fair_manyLines (by decide), fair_oneMore (by decide), trivial⟩
  exact (container_tail_returns_new_iff (.inl rfl) hfair).2 (.inr (by decide))

open Sample in
/-- With the window full, the next line goes unreported. -/
theorem container_tail_loses_line :
    Runs.Along (ContainerTail.step "shop" "stdout") (ContainerTail.Fair "shop" "stdout")
        ContainerTail.start [manyLines hardLogMaxLines, oneMore hardLogMaxLines] ∧
      (oneMore hardLogMaxLines).new = [lineB] ∧
      ∃ chunk, (ContainerTail.after "shop" "stdout" [manyLines hardLogMaxLines]).poll "shop" "stdout"
        (oneMore hardLogMaxLines) = .ok chunk ∧ chunk.lines ≠ [lineB] := by
  have hfirst := fair_manyLines (le_refl hardLogMaxLines)
  have hnext := fair_oneMore (le_refl hardLogMaxLines)
  refine ⟨⟨hfirst, hnext, trivial⟩, rfl, ?_⟩
  have hpolls : Runs.Along (ContainerTail.step "shop" "stdout") (ContainerTail.Fair "shop" "stdout")
      ContainerTail.start [manyLines hardLogMaxLines] := ⟨hfirst, trivial⟩
  obtain ⟨hs, hoffset⟩ := ContainerTail.following_after (.inl rfl) hpolls
  obtain ⟨chunk, hpoll, -, hiff⟩ := ContainerTail.poll_spec (.inl rfl) hs hoffset hnext
  refine ⟨chunk, hpoll, hiff.not.2 ?_⟩
  rintro (hnone | hroom)
  · cases hnone
  · rw [after_manyLines] at hroom
    simp only [length_append, length_replicate] at hroom
    exact absurd hroom (Nat.not_succ_le_self _)

end Healer
