import FilteredChunks.ChunkWriter
import FilteredChunks.Command.Arguments
import FilteredChunks.Command.Report
import FilteredChunks.FileTree
import FilteredChunks.Gating

/-!
# The command

The command writes the synthetic dataset to a chunk file, lists filters or looks one up, or tells what
is in a chunk file.  It works on a tree of files and the variables of an environment; what it leaves is
the tree, what it printed, and the status it ends with.
-/

namespace FilteredChunks.Command

/-- What the command runs in. -/
structure Environment where
  /-- The value of a variable. -/
  lookup : String → Option String
  tree : FileTree

/-- Why the command failed. -/
inductive CommandFault
  | filter (error : FilterError)
  /-- The file system refused something other than the chunk file. -/
  | file (fault : FileFault)
  | shape (fault : ShapeFault)
  | chunkMissing (index : Nat) (output : String)
  | chunkDiffers (index : Nat)
  /-- A codec crashed. -/
  | crash
  deriving DecidableEq

def CommandFault.message : CommandFault → String
  | filter error => error.message
  | file fault => fault.text
  | shape fault => fault.message
  | chunkMissing index output => s!"chunk {index} missing from {output}"
  | chunkDiffers index => s!"chunk {index} differs after read back"
  | crash => "crashed"

/-- The failure or crash of a computation as one of the command. -/
def CommandFault.ofFault : Fault → CommandFault
  | .failure error => .filter error
  | .crash => .crash

/-- How far a command got: its result, what it printed and the tree. -/
structure Progress (α : Type) where
  result : Except CommandFault α
  lines : List Line
  tree : FileTree

/-- The registry of a command: the built-in filters, and the plugins that the environment leads
to. -/
def registryOf [Compression] (env : Environment) : FilterRegistry :=
  FilterRegistry.builtins.withLoader
    ⟨(EngineConfig.ofLookup env.lookup).searchDirs, env.tree.libraries⟩

/-- The configuration, with the number of threads that was asked for. -/
def configOf (env : Environment) (threads : Option Nat) : EngineConfig :=
  let config := EngineConfig.ofLookup env.lookup
  match threads with
  | some threads => config.withThreads threads
  | none => config

/-- The client words that a request gives a filter. -/
def settingOf (request : WriteRequest) : FilterChoice → Option UInt32
  | .deflate => some request.deflateLevel
  | .lz4 => some request.lz4Block
  | .zstd => some request.zstdLevel
  | .shuffle | .fletcher32 => none

/-- What is printed about a filter that is applied. -/
def appliedLine (choice : FilterChoice) (setting : Option UInt32) : Line :=
  match choice.isPlugin, setting with
  | true, some word =>
    .text s!"Filter {choice.id} available. Being applied. Block-Setting: {word.toNat}."
  | _, _ => .text s!"Filter {choice.id} applied."

/-- A pipeline being put together, and what was printed meanwhile. -/
structure Assembly where
  result : Except FilterError FilterPipeline
  registry : FilterRegistry
  lines : List Line

/-- Appends the filters asked for, leaving out plugins that are not available. -/
def assemble (request : WriteRequest) :
    List FilterChoice → FilterPipeline → FilterRegistry → List Line → Assembly
  | [], pipeline, registry, lines => ⟨.ok pipeline, registry, lines⟩
  | choice :: choices, pipeline, registry, lines =>
    let availability : Registering Bool :=
      if choice.isPlugin then registry.isAvailable choice.id else ⟨.ok true, registry, []⟩
    match availability.result with
    | .error error => ⟨.error error, availability.registry, lines⟩
    | .ok false =>
      assemble request choices pipeline availability.registry
        (lines ++ [.text s!"Filter {choice.id} not found. Not applied."])
    | .ok true =>
      let setting := settingOf request choice
      let lines := lines ++ [appliedLine choice setting]
      match pipeline.append choice.id .mandatory setting.toList with
      | .error error => ⟨.error error, availability.registry, lines⟩
      | .ok pipeline => assemble request choices pipeline availability.registry lines

/-- Reads back every chunk of a file and compares it with the dataset. -/
def compareChunks (output : String) (pipeline : FilterPipeline) (codecs : CodecTable)
    (f : ChunkFile) : List Chunk → Except CommandFault Unit
  | [] => .ok ()
  | chunk :: chunks =>
    match f.read chunk.offset with
    | .error error => .error (.filter error)
    | .ok none => .error (.chunkMissing chunk.index output)
    | .ok (some stored) =>
      match (Engine.decode pipeline codecs stored.data stored.mask).restored with
      | .error fault => .error (.ofFault fault)
      | .ok data =>
        if data = chunk.data then compareChunks output pipeline codecs f chunks
        else .error (.chunkDiffers chunk.index)

/-- Verifies a file that was written. -/
def verifyFile [Compression] (output : String) (d : SyntheticDataset) (pipeline : FilterPipeline)
    (config : EngineConfig) (registry : FilterRegistry) (tree : FileTree) :
    Except CommandFault Unit :=
  match CodecTable.resolve pipeline .read config.pluginDir tree.libraries registry with
  | .error error => .error (.filter error)
  | .ok codecs =>
    match tree.read output with
    | .error fault => .error (.filter (.file fault))
    | .ok image =>
      match ChunkFile.ofImage image with
      | .error error => .error (.filter error)
      | .ok f => compareChunks output pipeline codecs f d.chunks

/-- Makes the chunk file, with the directory it is in; the tree after it. -/
def createFile (tree : FileTree) (output : String) : Except CommandFault Unit × FileTree :=
  let made := tree.makeParent output
  match made.result with
  | .error fault => (.error (.file fault), made.tree)
  | .ok () =>
    match made.tree.write output ChunkFile.create.image with
    | .error fault => (.error (.filter (.file fault)), made.tree)
    | .ok tree => (.ok (), tree)

/-- Writes the chunks of a dataset to a new chunk file.  A chunk that no buffer can hold is a crash. -/
def writeDataset (writer : ChunkWriter) (threads : Nat) (d : SyntheticDataset) :
    WriteRun ChunkFile :=
  if d.chunksFit then writer.writeChunks threads d.chunks .create .empty
  else ⟨.error .crash, .create, [], .empty⟩

/-- A write that is ready for its chunks: the chunk file is made, and the filters are settled. -/
structure ReadyWrite where
  dataset : SyntheticDataset
  config : EngineConfig
  pipeline : FilterPipeline
  registry : FilterRegistry
  writer : ChunkWriter
  tree : FileTree
  lines : List Line

/-- Puts the filters together, makes the chunk file and finds the codecs. -/
def prepareWrite [Compression] (env : Environment) (request : WriteRequest) :
    Except (Progress Unit) ReadyWrite :=
  match SyntheticDataset.make request.rows request.cols request.chunkRows request.chunkCols with
  | .error fault => .error ⟨.error (.shape fault), [], env.tree⟩
  | .ok d =>
    let config := configOf env request.threads
    let assembly := assemble request request.filters .empty (registryOf env) []
    match assembly.result with
    | .error error => .error ⟨.error (.filter error), assembly.lines, env.tree⟩
    | .ok pipeline =>
      let list := DatasetCreation.chunked [UInt64.ofNat d.chunkRows, UInt64.ofNat d.chunkCols]
      let prepared := Gating.prepare (list.withPipeline pipeline) .int32 assembly.registry
      match prepared.result with
      | .error error => .error ⟨.error (.filter error), assembly.lines, env.tree⟩
      | .ok refused =>
        match createFile env.tree request.output with
        | (.error fault, tree) => .error ⟨.error fault, assembly.lines, tree⟩
        | (.ok (), tree) =>
          let pipeline := prepared.list.pipeline
          match ChunkWriter.prepare pipeline config.pluginDir tree.libraries assembly.registry with
          | .error error => .error ⟨.error (.filter error), assembly.lines, tree⟩
          | .ok writer =>
            .ok {
              dataset := d
              config := config
              pipeline := pipeline
              registry := assembly.registry
              writer := { writer with exclude := refused }
              tree := tree
              lines := assembly.lines ++ [.text "Beginning write..."] }

/-- Makes sure that what was written to the chunk file is kept, sums up and verifies. -/
def concludeWrite [Compression] (request : WriteRequest) (ready : ReadyWrite)
    (result : Except Fault WriteSummary) (store : ChunkFile) : Progress Unit :=
  match ready.tree.write request.output store.image with
  | .error fault => ⟨.error (.filter (.file fault)), ready.lines, ready.tree⟩
  | .ok tree =>
    match result, tree.sync request.output with
    | .error fault, _ => ⟨.error (.ofFault fault), ready.lines, tree⟩
    | .ok _, .error fault => ⟨.error (.filter (.file fault)), ready.lines, tree⟩
    | .ok summary, .ok () =>
      let lines := ready.lines ++ [.text "Write completed."] ++
        summaryLines request.output ready.dataset ready.config summary store.fileLength
      match summary.result with
      | .error error => ⟨.error (.filter error), lines, tree⟩
      | .ok _ =>
        if !request.verify then ⟨.ok (), lines, tree⟩
        else
          match verifyFile request.output ready.dataset ready.pipeline ready.config ready.registry
              tree with
          | .error fault => ⟨.error fault, lines, tree⟩
          | .ok () =>
            ⟨.ok (), lines ++ [.text s!"  verify: {ready.dataset.chunkCount} chunks match"], tree⟩

/-- Writes a synthetic dataset. -/
def write [Compression] (env : Environment) (request : WriteRequest) : Progress Unit :=
  match prepareWrite env request with
  | .error progress => progress
  | .ok ready =>
    let written := writeDataset ready.writer ready.config.threads ready.dataset
    concludeWrite request ready written.result written.store

/-- Lists the registered filters, or looks one up. -/
def filters [Compression] (env : Environment) (id : Option FilterId) : Progress Unit :=
  let registry := registryOf env
  match id with
  | none =>
    ⟨.ok (), .text "registered filters:" :: registry.classes.map classLine, env.tree⟩
  | some id =>
    let availability := registry.isAvailable id
    match availability.result with
    | .error error => ⟨.error (.filter error), [], env.tree⟩
    | .ok false => ⟨.ok (), [.text s!"Filter {id} not found."], env.tree⟩
    | .ok true =>
      match availability.registry.get? id with
      | none => ⟨.error (.filter (.filterNotRegistered id)), [], env.tree⟩
      | some c =>
        ⟨.ok (), [.text s!"filter {id} available (encode {c.encoder}, decode {c.decoder})"],
          env.tree⟩

/-- Tells what is in a chunk file. -/
def inspect (env : Environment) (input : String) : Progress Unit :=
  match env.tree.read input with
  | .error fault => ⟨.error (.filter (.file fault)), [], env.tree⟩
  | .ok image =>
    match ChunkFile.ofImage image with
    | .error error => ⟨.error (.filter error), [], env.tree⟩
    | .ok f => ⟨.ok (), inspectLines input f, env.tree⟩

/-- How a run of the command ends. -/
structure Finished where
  /-- 0 for success, 1 for a failure, 2 for arguments at fault, 101 for a crash. -/
  status : Nat
  lines : List Line
  error : Option String
  tree : FileTree

/-- The end of a run with a request. -/
def finish (progress : Progress Unit) : Finished :=
  match progress.result with
  | .ok () => ⟨0, progress.lines, none, progress.tree⟩
  | .error .crash => ⟨101, progress.lines, none, progress.tree⟩
  | .error fault => ⟨1, progress.lines, some fault.message, progress.tree⟩

/-- Does what is requested. -/
def perform [Compression] (env : Environment) : Request → Progress Unit
  | .write request => write env request
  | .filters id => filters env id
  | .inspect input => inspect env input
  | .version => ⟨.ok (), [.text "h5filter 0.1.0"], env.tree⟩
  | .help => ⟨.ok (), usage, env.tree⟩

/-- Runs the command with some arguments. -/
def run [Compression] (env : Environment) (arguments : List String) : Finished :=
  match readArguments arguments with
  | some request => finish (perform env request)
  | none => ⟨2, [], none, env.tree⟩

end FilteredChunks.Command
