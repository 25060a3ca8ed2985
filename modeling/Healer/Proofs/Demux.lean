import Healer.Sanity.Logs

/-! `demuxDockerLogStream` is the inverse of Docker's framing, and of a stream that is cut anywhere it
returns the bytes of text that came before the cut. -/

namespace Healer

open List

/-- A frame of the stream: four bytes of its header hold the size. -/
structure DockerFrame where
  kind : UInt8
  payload : Bytes
  size_lt : payload.length < 2 ^ 32

def DockerFrame.bytes (f : DockerFrame) : Bytes := frameHeader f.kind f.payload.length ++ f.payload

/-- The bytes of a frame, each with whether it is text. -/
def DockerFrame.marked (f : DockerFrame) : List (Bool × UInt8) :=
  (frameHeader f.kind f.payload.length).map (false, ·) ++ f.payload.map (true, ·)

namespace DockerFrame

def stream (fs : List DockerFrame) : Bytes := fs.flatMap bytes

def text (fs : List DockerFrame) : Bytes := fs.flatMap payload

/-- The bytes of text among the first `n` bytes of the stream. -/
def textWithin (fs : List DockerFrame) (n : ℕ) : Bytes :=
  (((fs.flatMap marked).take n).filter Prod.fst).map Prod.snd

/-- What is marked of a stretch of text is that stretch. -/
theorem filter_text (b : Bytes) : ((b.map fun x => (true, x)).filter Prod.fst).map Prod.snd = b := by
  rw [filter_eq_self.2 (by simp), map_map]
  exact map_id b

theorem filter_header (b : Bytes) : (b.map fun x => (false, x)).filter Prod.fst = [] := by
  simp [filter_eq_nil_iff]

/-- The marks are on the bytes of the stream, and what is marked is the text. -/
theorem marked_stream (fs : List DockerFrame) :
    (fs.flatMap marked).map Prod.snd = stream fs ∧
      ((fs.flatMap marked).filter Prod.fst).map Prod.snd = text fs := by
  induction fs with
  | nil => exact ⟨rfl, rfl⟩
  | cons f fs ih =>
    constructor
    · rw [flatMap_cons, map_append, ih.1]
      simp [stream, bytes, marked, Function.comp_def]
    · rw [flatMap_cons, filter_append, map_append, ih.2, marked, filter_append,
        filter_header, nil_append, filter_text]
      rfl

theorem textWithin_prefix (fs : List DockerFrame) (n : ℕ) : textWithin fs n <+: text fs := by
  rw [← (marked_stream fs).2]
  exact ((List.take_prefix n _).filter _).map _

theorem textWithin_cons (f : DockerFrame) (fs : List DockerFrame) (n : ℕ) :
    textWithin (f :: fs) n = f.payload.take (n - 8) ++ textWithin fs (n - 8 - f.payload.length) := by
  have hheader : (frameHeader f.kind f.payload.length).length = 8 := rfl
  simp only [textWithin, flatMap_cons, marked, append_assoc, take_append, length_map,
    hheader, filter_append, map_append, ← map_take, filter_header, nil_append,
    filter_text]

end DockerFrame

open DockerFrame

/-- The bytes of a stream up to a cut, in front of which a whole header stands. -/
theorem take_stream_cons (f : DockerFrame) (fs : List DockerFrame) {n : ℕ} (hn : 8 ≤ n) :
    (stream (f :: fs)).take n =
      frameHeader f.kind f.payload.length ++ (f.payload ++ stream fs).take (n - 8) := by
  have hsplit : stream (f :: fs) = frameHeader f.kind f.payload.length ++ (f.payload ++ stream fs) := by
    simp [stream, bytes]
  rw [hsplit, take_append, take_of_length_le hn]
  rfl

theorem demux_take (fs : List DockerFrame) : ∀ n, demuxDockerLogStream ((stream fs).take n) = textWithin fs n := by
  induction fs with
  | nil =>
    intro n
    rw [demux_short (by simp [stream])]
    simp [textWithin]
  | cons f fs ih =>
    intro n
    rw [textWithin_cons]
    by_cases hn : n < 8
    · -- the cut is inside the header
      rw [demux_short (by rw [length_take]; omega), Nat.sub_eq_zero_of_le hn.le]
      simp [textWithin]
    rw [take_stream_cons f fs (by omega), demux_header f.kind f.size_lt]
    split_ifs with hcut
    · have hle : n - 8 ≤ f.payload.length := by
        rw [length_take, length_append] at hcut
        omega
      rw [take_append_of_le_length hle, Nat.sub_eq_zero_of_le hle]
      simp [textWithin]
    · have hle : f.payload.length ≤ n - 8 := by
        rw [length_take] at hcut
        omega
      rw [take_append, take_of_length_le hle, take_left, drop_left, ih]

theorem demux_stream (fs : List DockerFrame) : demuxDockerLogStream (stream fs) = text fs := by
  have htake := demux_take fs (stream fs).length
  have hlen : (stream fs).length = (fs.flatMap marked).length := by
    rw [← (marked_stream fs).1, length_map]
  rw [take_length] at htake
  rw [htake, textWithin, hlen, take_length, (marked_stream fs).2]

/-- Every round but the last takes a header off the reader. -/
theorem demuxRounds_eq (n : ℕ) : ∀ (r out : Bytes), r.length < 8 * n →
    demuxRounds n r out = some (out ++ demuxDockerLogStream r) := by
  induction n with
  | zero => intro r out hr; omega
  | succ n ih =>
    intro r out hr
    rw [demuxRounds]
    by_cases hshort : r.length < 8
    · rw [if_pos hshort, demux_short hshort, append_nil]
    rw [if_neg hshort, demuxDockerLogStream, if_neg hshort]
    have hrest : (r.drop 8).length < 8 * n := by
      rw [length_drop]
      omega
    dsimp only
    split_ifs with hzero hcut hcut'
    · omega
    · rw [hzero, take_zero, drop_zero, nil_append]
      exact ih _ _ hrest
    · rfl
    · rw [ih _ _ (by rw [length_drop]; omega), append_assoc]

/-- Frames come back as their text. A stream that is cut gives a piece of that text which has every byte
of it before the cut, and the loop ends on any bytes at all. -/
theorem demux_inverts_framing :
    (∀ fs, demuxDockerLogStream (stream fs) = text fs) ∧
    (∀ fs n, demuxDockerLogStream ((stream fs).take n) = textWithin fs n ∧ textWithin fs n <+: text fs) ∧
    ∀ r, ∃ rounds ≤ r.length / 8 + 1, demuxRounds rounds r [] = some (demuxDockerLogStream r) := by
  refine ⟨demux_stream, fun fs n => ⟨demux_take fs n, textWithin_prefix fs n⟩, fun r => ?_⟩
  exact ⟨r.length / 8 + 1, le_rfl, demuxRounds_eq _ r [] (by omega)⟩

end Healer
