import FilteredChunks.EngineConfig
import FilteredChunks.FilterClass
import FilteredChunks.Pool
import FilteredChunks.Store.ChunkFile
import FilteredChunks.SyntheticDataset
import FilteredChunks.Text.Size

/-!
# What the command prints

Lines are text, except for what depends on the time that was taken; such lines are put into words when
that is known.
-/

namespace FilteredChunks.Command

/-- A line of output. -/
inductive Line
  | text (text : String)
  | elapsed
  /-- The rate at which some bytes went through. -/
  | throughput (bytes : Nat)
  /-- The number of workers asked for and the least and most chunks that one of them did. -/
  | scheduler (workers least most : Nat)
  /-- A worker with the number of chunks it did, out of all. -/
  | worker (number tasks total : Nat)
  deriving DecidableEq

namespace Line

/-- A share of some nanoseconds as a duration. -/
def shareText (nanoseconds part whole : Nat) : String :=
  Size.duration 0 (nanoseconds * part / whole)

/-- The wording of a line, given how many nanoseconds the writing took.  The time is shared out among
the workers by the chunks they did. -/
def render (nanoseconds : Nat) : Line → String
  | .text content => content
  | .elapsed => "  elapsed: " ++ shareText nanoseconds 1 1
  | .throughput bytes =>
    let seconds := max (nanoseconds.toUInt64.toFloat / 1000000000.0) 0.000001
    "  throughput: " ++ Size.rate (bytes.toUInt64.toFloat / seconds) ++ "/s"
  | .scheduler workers least most =>
    s!"  scheduler: {workers} workers | task balance min/max {least}/{most}"
  | .worker number tasks total =>
    let whole := max total 1
    let name := Decimal.zeroPadded 2 number
    let done := Decimal.padLeft 6 (toString tasks)
    let up := Decimal.padLeft 8 (shareText nanoseconds 1 1)
    let busy := Decimal.padLeft 8 (shareText nanoseconds tasks whole)
    let idle := Decimal.padLeft 8 (shareText nanoseconds (whole - tasks) whole)
    let share := Decimal.padLeft 6 (Decimal.fixed 2 (100 * tasks) whole)
    s!"    w{name} tasks {done} | uptime {up} | busy {busy} | idle {idle} | util {share}%"

end Line

/-- The sizes and the outcome of a write. -/
def summaryLines (output : String) (d : SyntheticDataset) (config : EngineConfig)
    (s : WriteSummary) (fileLength : Nat) : List Line :=
  let ratio := if s.rawBytes = 0 then 1.0 else sizeRatio s.storedBytes s.rawBytes
  let all := total id s.tasks
  [.text "write complete",
    .text s!"  output: {output}",
    .text s!"  dataset: {d.rows}x{d.cols} int32 ({Size.bytes d.totalBytes})",
    .text s!"  chunks: {s.chunkCount} of {d.chunkRows}x{d.chunkCols} ({s.failures.length} failed)",
    .elapsed,
    .text s!"  raw bytes: {Size.bytes s.rawBytes}",
    .text s!"  stored bytes: {Size.bytes s.storedBytes}",
    .text s!"  file size: {Size.bytes fileLength}",
    .text s!"  stored/raw ratio: {Decimal.fixedFloat 3 ratio}x",
    .throughput s.rawBytes,
    .scheduler config.threads (s.tasks.min?.getD 0) (s.tasks.max?.getD 0),
    .text "  worker runtime:"] ++
  s.tasks.zipIdx.map (fun (tasks, number) => .worker number tasks all) ++
  s.failures.map fun f =>
    .text s!"  failed chunk {f.index} at {f.offset.text}: {f.error.message}"

/-- A registered class in the list of filters. -/
def classLine (c : FilterClass) : Line :=
  let number := Decimal.padLeft 5 (toString c.id)
  let name := Decimal.padRight 12 c.name
  let encodes := Decimal.padRight 5 (toString c.encoder)
  .text s!"  {number}  {name} encode {encodes} decode {c.decoder}"

/-- What is in a chunk file. -/
def inspectLines (input : String) (f : ChunkFile) : List Line :=
  let records := f.records
  let stored := total (fun r => r.2.length) records
  let incomplete := records.countP fun r => !r.2.mask.isEmpty
  [.text s!"chunk file: {input}",
    .text s!"  file size: {Size.bytes f.fileLength}",
    .text s!"  chunks: {records.length}",
    .text s!"  stored bytes: {Size.bytes stored}",
    .text s!"  chunks with skipped filters: {incomplete}"] ++
  match records.head?, records.getLast? with
  | some first, some last => [.text s!"  offsets: {first.1.text} .. {last.1.text}"]
  | _, _ => []

/-- How the command is used. -/
def usage : List Line :=
  [.text "Filter a synthetic int32 dataset chunk by chunk on a worker pool and store the result.",
    .text "",
    .text "Usage: h5filter <COMMAND>",
    .text "",
    .text "Commands:",
    .text "  write    Write a synthetic dataset through a filter pipeline",
    .text "  filters  List registered filters or check one filter's availability",
    .text "  inspect  Summarise the chunks stored in a chunk file",
    .text "  help     Print this message or the help of the given subcommand(s)"]

end FilteredChunks.Command
