import Healer.Lib.Lines
import Healer.Spec.Logs

/-! How the agent splits the bytes it has read into lines, and how it reads one frame of Docker's. -/

namespace Healer

open Lines (unlines Tidy)

section Split

variable {ls : List Bytes} {l : Bytes} {n : ℕ}

theorem splitLines_unlines (hls : ∀ l ∈ ls, newline ∉ l) (htidy : Tidy ls) :
    splitLines (unlines newline ls) = ls.map trimReturn := by
  by_cases hne : ls = []
  · subst hne
    rfl
  · rw [splitLines, if_neg (Lines.unlines_eq_nil.not.2 hne),
      Lines.splitOn_rdropWhile_unlines hls hne htidy]

theorem lastLines_of_le (h : ls.length ≤ n) : lastLines n ls = ls := by
  rw [lastLines, if_neg (by omega)]

theorem length_lastLines (n : ℕ) (ls : List Bytes) : (lastLines n ls).length = min n ls.length := by
  unfold lastLines
  split_ifs with h
  · rw [List.length_drop]
    omega
  · omega

/-- Fewer lines than the limit have not been cut. -/
theorem eq_of_lastLines {ms : List Bytes} (h : lastLines n ls = ms) (hms : ms.length < n) :
    ls = ms := by
  have hlen := congrArg List.length h
  rw [length_lastLines] at hlen
  rw [← h, lastLines_of_le (by omega)]

theorem length_trimReturn_le (l : Bytes) : (trimReturn l).length ≤ l.length := by
  unfold trimReturn
  split_ifs
  · rw [List.length_dropLast]
    omega
  · exact le_rfl

theorem le_length_trimReturn (l : Bytes) : l.length - 1 ≤ (trimReturn l).length := by
  unfold trimReturn
  split_ifs
  · rw [List.length_dropLast]
  · omega

end Split

/-! ## Docker's frames -/

/-- Docker's header for a frame of the stream `kind`. -/
def frameHeader (kind : UInt8) (size : ℕ) : Bytes :=
  [kind, 0, 0, 0, UInt8.ofNat (size / 16777216), UInt8.ofNat (size / 65536), UInt8.ofNat (size / 256),
    UInt8.ofNat size]

theorem bigEndian_size {n : ℕ} (h : n < 2 ^ 32) (kind : UInt8) :
    bigEndian (((frameHeader kind n).drop 4).take 4) = n := by
  simp [bigEndian, frameHeader]
  omega

/-- One turn of the loop, on a stream that begins with a whole header. -/
theorem demux_header {n : ℕ} (kind : UInt8) (hn : n < 2 ^ 32) (rest : Bytes) :
    demuxDockerLogStream (frameHeader kind n ++ rest) =
      if rest.length < n then rest else rest.take n ++ demuxDockerLogStream (rest.drop n) := by
  have hlen : ¬ (frameHeader kind n ++ rest).length < 8 := by simp [frameHeader]
  have hsize : ((frameHeader kind n ++ rest).drop 4).take 4 = ((frameHeader kind n).drop 4).take 4 := rfl
  have hbody : (frameHeader kind n ++ rest).drop 8 = rest := rfl
  rw [demuxDockerLogStream, if_neg hlen, hsize, hbody, bigEndian_size hn]

theorem demux_frame {n : ℕ} (kind : UInt8) {rest : Bytes} (hn : n < 2 ^ 32) (hrest : n ≤ rest.length) :
    demuxDockerLogStream (frameHeader kind n ++ rest) =
      rest.take n ++ demuxDockerLogStream (rest.drop n) := by
  rw [demux_header kind hn, if_neg (by omega)]

theorem demux_short {r : Bytes} (h : r.length < 8) : demuxDockerLogStream r = [] := by
  rw [demuxDockerLogStream, if_pos h]

end Healer
