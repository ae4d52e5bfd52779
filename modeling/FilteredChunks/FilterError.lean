import FilteredChunks.ChunkOffset
import FilteredChunks.FilterFlags
import FilteredChunks.FilterId

/-!
# Failures

Every failure is a cause; its wording is given by `message` alone.  A failure may be wrapped in
contexts that say what was being done; `root` looks through them.  A `Fault` is either a failure or a
crash, the end of a computation that took more bytes than a buffer holds or asked for a longer buffer
than there can be.
-/

namespace FilteredChunks

/-- Kind of an open object that may use a filter. -/
inductive ObjectKind
  | dataset
  | group
  deriving DecidableEq

def ObjectKind.text : ObjectKind → String
  | dataset => "dataset"
  | group => "group"

/-- What is wrong with a plugin's descriptor. -/
inductive PluginFault
  | nullDescriptor
  | unsupportedVersion
  | idOutOfRange
  | noFilterFunction
  /-- A well-known library describes another filter. -/
  | wrongFilter
  deriving DecidableEq

def PluginFault.text : PluginFault → String
  | nullDescriptor => "null filter descriptor"
  | unsupportedVersion => "unsupported filter descriptor version"
  | idOutOfRange => "filter id out of range"
  | noFilterFunction => "descriptor has no filter function"
  | wrongFilter => "descriptor id does not match the requested filter"

/-- Why a step failed while chunks were written. -/
inductive WriteFault
  | notRegistered
  | returnedFailure
  | other (reason : String)
  deriving DecidableEq

def WriteFault.text : WriteFault → String
  | notRegistered => "required filter is not registered"
  | returnedFailure => "filter returned failure"
  | other reason => reason

/-- Why a step failed while chunks were read. -/
inductive ReadFault
  /-- The step's name is given if it has one. -/
  | notRegistered (name : Option String)
  | returnedFailure
  | other (reason : String)
  deriving DecidableEq

def ReadFault.text : ReadFault → String
  | notRegistered (some name) => s!"required filter '{name}' is not registered"
  | notRegistered none => "required filter '(name unavailable)' is not registered"
  | returnedFailure => "filter returned failure during read"
  | other reason => reason

/-- Why a filter cannot be applied to a dataset. -/
inductive Refusal
  | notAppropriate
  /-- The check itself could not run. -/
  | checkFailed (reason : String)
  | other (reason : String)
  deriving DecidableEq

def Refusal.text : Refusal → String
  | notAppropriate => "filter parameters not appropriate"
  | checkFailed reason => s!"error during user callback: {reason}"
  | other reason => reason

/-- Arguments that no operation accepts. -/
inductive ArgumentFault
  | emptyBuffer
  | tableNotForWriting
  | tableLength
  deriving DecidableEq

def ArgumentFault.text : ArgumentFault → String
  | emptyBuffer => "empty chunk buffer"
  | tableNotForWriting => "codec table was not resolved for writing"
  | tableLength => "codec table does not match the pipeline"

/-- Failures of a worker pool. -/
inductive PoolFault
  | shuttingDown
  | queueClosed (chunk : Nat)
  | taskCrashed (chunk : Nat)
  | workerCrashed (detail : String)
  | unprocessed (missing submitted : Nat)
  | other (reason : String)
  deriving DecidableEq

def PoolFault.text : PoolFault → String
  | shuttingDown => "worker pool is shutting down; no new chunks accepted"
  | queueClosed chunk => s!"work queue closed before chunk {chunk} was queued"
  | taskCrashed chunk => s!"worker task panicked while processing chunk {chunk}"
  | workerCrashed detail => s!"worker thread panicked: {detail}"
  | unprocessed missing submitted => s!"{missing} of {submitted} chunks were never processed"
  | other reason => reason

/-- Failures of chunk stores. -/
inductive StorageFault
  | badMagic
  | unsupportedVersion
  | reservedBits
  | truncatedRecord (position : Nat)
  | tooManyDimensions
  | other (reason : String)
  deriving DecidableEq

def StorageFault.text : StorageFault → String
  | badMagic => "invalid chunk file magic"
  | unsupportedVersion => "unsupported chunk file version"
  | reservedBits => "invalid chunk record reserved bits"
  | truncatedRecord position => s!"truncated chunk record at byte {position}"
  | tooManyDimensions => "too many chunk dimensions"
  | other reason => reason

/-- Failures of the file system. -/
inductive FileFault
  | endOfFile
  | notFound
  | alreadyExists
  | notDirectory
  | isDirectory
  | invalidArgument
  | noSpace
  | nameTooLong
  | other (reason : String)
  deriving DecidableEq

def FileFault.text : FileFault → String
  | endOfFile => "failed to fill whole buffer"
  | notFound => "No such file or directory (os error 2)"
  | alreadyExists => "File exists (os error 17)"
  | notDirectory => "Not a directory (os error 20)"
  | isDirectory => "Is a directory (os error 21)"
  | invalidArgument => "Invalid argument (os error 22)"
  | noSpace => "No space left on device (os error 28)"
  | nameTooLong => "File name too long (os error 36)"
  | other reason => reason

/-- What was being done when something failed. -/
inductive Context
  | resolvingStep (index : Nat)
  | filteringChunk (index : Nat)
  | storingChunk (index : Nat)
  | chunkAt (index : Nat) (offset : ChunkOffset)
  | gettingCommunicator
  | issuingBarrier
  | flushingFiles
  | other (text : String)
  deriving DecidableEq

def Context.text : Context → String
  | resolvingStep index => s!"resolving filter step {index}"
  | filteringChunk index => s!"filtering chunk {index}"
  | storingChunk index => s!"storing chunk {index}"
  | chunkAt index offset => s!"chunk {index} at {offset.text}"
  | gettingCommunicator => "can't get communicator"
  | issuingBarrier => "collective barrier failed"
  | flushingFiles => "unable to flush file hierarchy"
  | other text => text

/-- A failure, by its cause. -/
inductive FilterError
  | invalidFilterId (id : FilterId)
  | predefinedFilter (id : FilterId)
  | invalidFlags (flags : FilterFlags)
  | tooManyFilters
  | filterNotRegistered (id : FilterId)
  | filterNotInPipeline (id : FilterId)
  | unknownFilter (id : FilterId)
  /-- The library at `path` cannot be opened. -/
  | pluginLoad (path : String)
  /-- The library at `path` does not export `symbol`. -/
  | pluginSymbol (path symbol : String)
  | invalidPlugin (path : String) (fault : PluginFault)
  | writeFailed (id : FilterId) (fault : WriteFault)
  | readFailed (id : FilterId) (fault : ReadFault)
  | noEncoder (id : FilterId)
  | noDecoder (id : FilterId)
  | cannotApply (id : FilterId) (refusal : Refusal)
  | tuningFailed (id : FilterId) (reason : String)
  | notSuitable
  | filterInUse (id : FilterId) (kind : ObjectKind)
  | collective (reason : String)
  | storage (fault : StorageFault)
  | invalidArgument (fault : ArgumentFault)
  | workerPool (fault : PoolFault)
  | file (fault : FileFault)
  | inContext (context : Context) (source : FilterError)
  | other (reason : String)
  deriving DecidableEq

namespace FilterError

/-- A flag word in hexadecimal, with at least four digits. -/
def flagsText (flags : FilterFlags) : String :=
  let digits := Nat.toDigits 16 flags.bits.toNat
  "0x" ++ String.ofList (List.replicate (4 - digits.length) '0' ++ digits)

/-- The wording of a failure. -/
def message : FilterError → String
  | invalidFilterId id => s!"invalid filter identification number {id}"
  | predefinedFilter id => s!"unable to modify predefined filter {id}"
  | invalidFlags flags => s!"invalid filter flags {flagsText flags}"
  | tooManyFilters => "too many filters in pipeline"
  | filterNotRegistered id => s!"filter {id} is not registered"
  | filterNotInPipeline id => s!"filter {id} is not in pipeline"
  | unknownFilter id => s!"unknown filter {id}"
  | pluginLoad path => s!"failed to load plugin library {path}"
  | pluginSymbol path symbol => s!"failed to resolve symbol {symbol} in {path}"
  | invalidPlugin path fault => s!"invalid plugin {path}: {fault.text}"
  | writeFailed id fault => s!"filter {id}: {fault.text}"
  | readFailed id fault => s!"filter {id}: {fault.text}"
  | noEncoder id => s!"filter {id} present but encoding is disabled"
  | noDecoder id => s!"filter {id} present but decoding is disabled"
  | cannotApply id refusal => s!"filter {id}: {refusal.text}"
  | tuningFailed id reason => s!"filter {id}: error during user callback: {reason}"
  | notSuitable => "data space or type is not suitable for filters"
  | filterInUse id kind => s!"can't unregister filter {id} because a {kind.text} is still using it"
  | collective reason => s!"collective operation failed: {reason}"
  | storage fault => s!"storage error: {fault.text}"
  | invalidArgument fault => s!"invalid argument: {fault.text}"
  | workerPool fault => s!"worker pool error: {fault.text}"
  | file fault => s!"I/O error: {fault.text}"
  | inContext context source => s!"{context.text}: {source.message}"
  | other reason => reason

/-- The innermost failure. -/
def root : FilterError → FilterError
  | inContext _ source => source.root
  | error => error

/-- The failure with one more context around it. -/
def within (error : FilterError) (context : Context) : FilterError := inContext context error

@[simp]
theorem root_within (error : FilterError) (context : Context) :
    (error.within context).root = error.root := rfl

end FilterError

/-- How a computation may end without an answer. -/
inductive Fault
  | failure (error : FilterError)
  | crash
  deriving DecidableEq

namespace Fault

/-- A context goes around a failure; a crash has none. -/
def within (fault : Fault) (context : Context) : Fault :=
  match fault with
  | failure error => failure (error.within context)
  | crash => crash

end Fault

end FilteredChunks
