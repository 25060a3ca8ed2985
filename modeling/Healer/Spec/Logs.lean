import Mathlib.Data.List.DropRight
import Healer.Spec.Journal

/-! Log retrieval: the agent's `collect_logs` over a log file (`HandleCollectLogs`) or over Docker's
log endpoint (`collectContainerLogs`, `ContainerStreamLogs`), and the polls that
`stream_instance_log` makes. -/

namespace Healer

abbrev Bytes := List UInt8

def defaultLogMaxBytes : ℕ := 64 * 1024
def hardLogMaxBytes : ℕ := 1024 * 1024
def defaultLogMaxLines : ℕ := 500
def hardLogMaxLines : ℕ := 5000

structure CollectLogsPayload where
  adapter : String
  serviceName : String
  logDir : String
  stream : String
  maxBytes : ℤ
  maxLines : ℤ
  offset : Option ℤ

structure LogChunk where
  notFound : Bool
  lines : List Bytes
  size : ℕ
  endOffset : ℕ
  truncated : Bool
  deriving DecidableEq

/-- What the agent reads: files by directory and name, and the body of Docker's answer for a
container, a stream and a number of lines. -/
structure LogHost where
  file : String → String → Option Bytes
  containerLogs : String → String → ℕ → Except String Bytes

/-- `unicode.IsSpace`. -/
def unicodeSpace (c : Char) : Bool :=
  let n := c.toNat
  (9 ≤ n && n ≤ 13) || n == 0x20 || n == 0x85 || n == 0xa0 || n == 0x1680 ||
    (0x2000 ≤ n && n ≤ 0x200a) || n == 0x2028 || n == 0x2029 || n == 0x202f || n == 0x205f || n == 0x3000

/-- `strings.TrimSpace(s) == ""`. -/
def isBlank (s : String) : Bool := s.toList.all unicodeSpace

def validateCollectLogsPayload (p : CollectLogsPayload) : Except String Unit :=
  if p.adapter ≠ "" ∧ p.adapter ≠ "windows-waitress-service" ∧ p.adapter ≠ "linux-docker" then
    let adapter := p.adapter.quote
    .error s!"invalid collect_logs payload: unsupported adapter {adapter}"
  else if isBlank p.serviceName then
    .error "invalid collect_logs payload: service_name must not be empty"
  else if p.serviceName.toList.any (fun c => c == '/' || c == '\\') ∨
      ['.', '.'] <:+: p.serviceName.toList then
    .error "invalid collect_logs payload: service_name must not contain path separators"
  else if p.adapter ≠ "linux-docker" ∧ isBlank p.logDir then
    .error "invalid collect_logs payload: log_dir must not be empty"
  else if p.stream ≠ "stdout" ∧ p.stream ≠ "stderr" then
    .error "invalid collect_logs payload: stream must be \"stdout\" or \"stderr\""
  else .ok ()

/-- A limit that is missing or above its cap gives way to the default. -/
def logLimit (asked : ℤ) (default hard : ℕ) : ℕ :=
  if asked ≤ 0 ∨ asked > hard then default else asked.toNat

def CollectLogsPayload.byteLimit (p : CollectLogsPayload) : ℕ :=
  logLimit p.maxBytes defaultLogMaxBytes hardLogMaxBytes

def CollectLogsPayload.lineLimit (p : CollectLogsPayload) : ℕ :=
  logLimit p.maxLines defaultLogMaxLines hardLogMaxLines

/-- The text after the first newline, or nothing. -/
def dropFragment (text : Bytes) : Bytes := (text.dropWhile (· != newline)).drop 1

/-- `strings.TrimSuffix(line, "\r")`. -/
def trimReturn (line : Bytes) : Bytes :=
  if line.getLast? = some carriageReturn then line.dropLast else line

/-- `strings.Split(strings.TrimRight(text, "\n"), "\n")`, each line without its `\r`. -/
def splitLines (text : Bytes) : List Bytes :=
  if text = [] then []
  else ((text.rdropWhile (· == newline)).splitOn newline).map trimReturn

def lastLines (n : ℕ) (lines : List Bytes) : List Bytes :=
  if lines.length > n then lines.drop (lines.length - n) else lines

/-- `HandleCollectLogs` from the `Stat` of the log file on. -/
def collectFileLogs (p : CollectLogsPayload) : Option Bytes → LogChunk
  | none => ⟨true, [], 0, 0, false⟩
  | some content =>
    let size := content.length
    let asked := match p.offset with
      | none => (size : ℤ) - p.byteLimit
      | some offset => offset
    let start := min asked.toNat size
    let readLen := min (size - start) p.byteLimit
    let buf := (content.drop start).take readLen
    let text := if p.offset.isNone ∧ start > 0 then dropFragment buf else buf
    let lines := splitLines text
    ⟨false, lastLines p.lineLimit lines, size, start + readLen, lines.length > p.lineLimit⟩

/-! ## Containers -/

def bigEndian (bytes : Bytes) : ℕ := bytes.foldl (fun n b => n * 256 + b.toNat) 0

/-- The text of Docker's framed stream: a header of eight bytes, of which the last four are the size,
and so many bytes of text. A frame that is cut short is the last. -/
def demuxDockerLogStream (r : Bytes) : Bytes :=
  if r.length < 8 then []
  else
    let size := bigEndian ((r.drop 4).take 4)
    let rest := r.drop 8
    if rest.length < size then rest
    else rest.take size ++ demuxDockerLogStream (rest.drop size)
termination_by r.length
decreasing_by
  simp only [List.length_drop]
  omega

/-- The loop of `demuxDockerLogStream` for at most so many rounds, with the reader and the buffer as
they stand before a round. -/
def demuxRounds : (rounds : ℕ) → (r out : Bytes) → Option Bytes
  | 0, _, _ => none
  | n + 1, r, out =>
    if r.length < 8 then some out
    else
      let size := bigEndian ((r.drop 4).take 4)
      let rest := r.drop 8
      if size = 0 then demuxRounds n rest out
      else if rest.length < size then some (out ++ rest)
      else demuxRounds n (rest.drop size) (out ++ rest.take size)

/-- `Client.ContainerStreamLogs`. -/
def containerStreamLogs (host : LogHost) (name stream : String) (tail : ℕ) : Except String Bytes :=
  let quoted := stream.quote
  if stream ≠ "stdout" ∧ stream ≠ "stderr" then .error s!"invalid container log stream {quoted}"
  else if tail < 1 ∨ tail > 5000 then .error s!"invalid container log tail {tail}"
  else do
    let data ← host.containerLogs name stream tail
    if data.length > 1048576 then .error "container log response exceeds the 1 MiB limit"
    else .ok (demuxDockerLogStream data)

/-- `collectContainerLogs` from the text of the log on. -/
def collectContainerText (p : CollectLogsPayload) (logs : Bytes) : LogChunk :=
  let size := logs.length
  let asked : ℤ := match p.offset with
    | some offset => if offset ≤ size then offset else (size : ℤ) - p.byteLimit
    | none => (size : ℤ) - p.byteLimit
  let start := asked.toNat
  let read := (logs.drop start).take p.byteLimit
  let stop := start + read.length
  let chunk := if p.offset.isNone ∧ start > 0 then dropFragment read else read
  let lines := splitLines chunk
  ⟨false, lastLines p.lineLimit lines, size, stop,
    start > 0 ∨ stop < size ∨ lines.length > p.lineLimit⟩

def collectContainerLogs (host : LogHost) (p : CollectLogsPayload) : Except String LogChunk :=
  match containerStreamLogs host p.serviceName p.stream hardLogMaxLines with
  | .error e => .error s!"read container logs: {e}"
  | .ok logs => .ok (collectContainerText p logs)

def handleCollectLogs (host : LogHost) (p : CollectLogsPayload) : Except String LogChunk := do
  validateCollectLogsPayload p
  if p.adapter = "linux-docker" then collectContainerLogs host p
  else
    let suffix := if p.stream = "stdout" then ".out.log" else ".err.log"
    .ok (collectFileLogs p (host.file p.logDir (p.serviceName ++ suffix)))

/-! ## The live tail -/

/-- What `_collect` takes from the rows of an instance. -/
structure LogTarget where
  adapter : String
  serviceName : String
  logDir : String
  stream : String

def streamInitialMaxBytes : ℤ := 32 * 1024
def streamInitialMaxLines : ℤ := 100
def streamPollMaxBytes : ℤ := 64 * 1024
def streamPollMaxLines : ℤ := 500

/-- The locals of `stream_instance_log`, and the lines of its answers one after another. -/
structure LogStream where
  first : Bool
  offset : Option ℕ
  lines : List Bytes

def LogStream.start : LogStream := ⟨true, none, []⟩

def LogStream.request (s : LogStream) (t : LogTarget) : CollectLogsPayload where
  adapter := t.adapter
  serviceName := t.serviceName
  logDir := t.logDir
  stream := t.stream
  maxBytes := if s.first then streamInitialMaxBytes else streamPollMaxBytes
  maxLines := if s.first then streamInitialMaxLines else streamPollMaxLines
  offset := if s.first then none else s.offset.map fun n => (n : ℤ)

/-- One turn of the loop; a poll that fails is reported and made again. -/
def LogStream.poll (host : LogHost) (t : LogTarget) (s : LogStream) : LogStream :=
  match handleCollectLogs host (s.request t) with
  | .error _ => s
  | .ok chunk => ⟨false, some chunk.endOffset, s.lines ++ chunk.lines⟩

end Healer
