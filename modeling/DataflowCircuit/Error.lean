import DataflowCircuit.Operator
import DataflowCircuit.Text.ControlSequence
import DataflowCircuit.Text.Utf8

/-!
# Diagnostics

Everything that can stop a compilation, as causes. A cause carries the data
of the situation and the wording is given once, by `message`, so a statement
about when an error arises never has to look at text.

A warning is a situation that is reported and does not stop anything.

## Main definitions

* `GraphFault`: How a process can contradict itself.
* `ShapeFault`: What can be wrong with a single dataflow element.
* `RecordFault`: What can be wrong with a line of a metrics file.
* `PathFault`: Why a path does not lead to a file.
* `ReadFault`: Why a file cannot be read.
* `SynthesisFault`: Why the cost of a unit cannot be estimated.
* `Error`: Every cause of failure.
* `Error.message`: The text of an error.
* `Warning`: Every reported situation.
* `Warning.message`: The text of a warning.
-/

namespace DataflowCircuit

/-- What a declared name can stand for. -/
inductive NameKind where
  | process
  | channel
  deriving DecidableEq, Repr

/-- The word for a kind of name. -/
def NameKind.text : NameKind → String
  | .process => "process"
  | .channel => "channel"

/-- How the references of a process can contradict its declarations. -/
inductive GraphFault where
  /-- Two channels of different widths are connected. -/
  | widthsDiffer (lhs : String) (lhsWidth : Nat) (rhs : String) (rhsWidth : Nat)
  /-- A channel has no entry among the widths of canonical channels. -/
  | noWidth (channel : String)
  /-- A channel is read that was not counted; its declaration number starts
      at one. -/
  | neverCounted (number : Nat)
  /-- A unit reads a channel that was not resolved to a wire. -/
  | neverResolved (channel : String)
  /-- A split does not read exactly its input and its guard. -/
  | splitReads (channels : Nat)
  deriving DecidableEq, Repr

/-- The text of a graph fault. -/
def GraphFault.message : GraphFault → String
  | .widthsDiffer lhs lw rhs rw =>
    s!"cannot connect `{lhs}' ({lw} bits) to `{rhs}' ({rw} bits)"
  | .noWidth channel => s!"no bitwidth recorded for `{channel}'"
  | .neverCounted number =>
    s!"channel read during lowering was never counted: Identity(SymbolU32 " ++
      "\x7b value: " ++ toString number ++ " \x7d)"
  | .neverResolved channel => s!"`{channel}' is read but was never resolved"
  | .splitReads channels => s!"split reads {channels} channels, expected 2"

/-- What can be wrong with one dataflow element or declaration. -/
inductive ShapeFault where
  | channelWidth
  | noFunctions
  | fewOutputs
  | fewInputs (kind : String) (inputs : Nat)
  | noOutput
  | bufferedConstant
  | computedToken
  | emptyBuffer
  | unaryOnConstant
  | binaryOnConstants (op : BinOp)
  | sameBranches
  | conditionalOnConstants
  | constantBody
  | wideToken (value width : Nat)
  | wideConstant (value width : Nat)
  deriving DecidableEq, Repr

/-- The text of a shape fault. -/
def ShapeFault.message : ShapeFault → String
  | .channelWidth => "channel width must be a positive 32-bit number"
  | .noFunctions => "dataflow cluster has no functions"
  | .fewOutputs => "split requires at least 2 outputs"
  | .fewInputs kind inputs => s!"{kind} requires at least 2 inputs, found {inputs}"
  | .noOutput => "function has no output"
  | .bufferedConstant => "constant source cannot be buffered"
  | .computedToken => "initial token must be a constant"
  | .emptyBuffer => "buffer of depth 0 without an initial token"
  | .unaryOnConstant => "unary operator on a constant"
  | .binaryOnConstants op => s!"both operands of `{op.symbol}' are constants"
  | .sameBranches => "conditional has identical branches"
  | .conditionalOnConstants => "conditional on constants only"
  | .constantBody => "constant function body"
  | .wideToken value width => s!"initial token {value} does not fit in {width} bits"
  | .wideConstant value width => s!"constant {value} does not fit in {width} bits"

/-- What can be wrong with a record of a metrics file. -/
inductive RecordFault where
  | fieldCount (key : String) (fields : Nat)
  | notANumber (field : String)
  deriving DecidableEq, Repr

/-- The text of a record fault. -/
def RecordFault.message : RecordFault → String
  | .fieldCount key fields => s!"`{key}' has {fields} metrics, expected 4"
  | .notANumber field => s!"`{field}' is not a number"

/-- Why a cost reply cannot be read. -/
inductive ReplyFault where
  | notANumber (field : String)
  | fieldCount (fields : Nat)
  deriving DecidableEq, Repr

/-- The text of a reply fault. -/
def ReplyFault.message : ReplyFault → String
  | .notANumber field => s!"`{field}': invalid float literal"
  | .fieldCount fields => s!"expected 4 numbers, found {fields}"

/-- Why a path does not lead to a file. -/
inductive PathFault where
  /-- There is nothing at the end of the path, or no directory on its way. -/
  | missing
  /-- A file stands where the path needs a directory. -/
  | notDirectory
  /-- A directory stands where a file is needed. -/
  | isDirectory
  /-- The path holds a NUL character, which no name can. -/
  | nulCharacter
  deriving DecidableEq, Repr

/-- The operating system's text for a path fault. -/
def PathFault.message : PathFault → String
  | .missing => "No such file or directory (os error 2)"
  | .notDirectory => "Not a directory (os error 20)"
  | .isDirectory => "Is a directory (os error 21)"
  | .nulCharacter => "file name contained an unexpected NUL byte"

/-- The text for a stream that is not UTF-8 and was to be read as text. -/
def notTextText : String :=
  "stream did not contain valid UTF-8"

/-- Why an input or metrics file cannot be read. -/
inductive ReadFault where
  /-- The path of the input file leads to no file. -/
  | noInput (path : String) (fault : PathFault)
  /-- The input file is not UTF-8. -/
  | malformedInput (fault : Utf8.Fault)
  /-- The input stream is not UTF-8. -/
  | malformedStream
  /-- The path of a metrics file leads to no file. -/
  | noMetricsFile (path : String) (fault : PathFault)
  /-- A metrics file is not UTF-8. -/
  | malformedMetricsFile (path : String)
  deriving DecidableEq, Repr

/-- The text of a read fault. -/
def ReadFault.message : ReadFault → String
  | .noInput path fault => s!"Failed to read {path}: " ++ fault.message
  | .malformedInput fault => fault.message
  | .malformedStream => "Failed to parse buffer: " ++ notTextText
  | .noMetricsFile path fault => s!"{path}: " ++ fault.message
  | .malformedMetricsFile path => s!"{path}: " ++ notTextText

/-- Why the cost of a functional unit cannot be estimated. -/
inductive SynthesisFault where
  /-- The estimator cannot be started. -/
  | cannotRun (program reason : String)
  /-- The estimator was started, but its end cannot be awaited. -/
  | cannotWait (program reason : String)
  /-- The estimator ended with a status that says that it failed. -/
  | failed (status : Nat) (report : String)
  /-- The estimator was ended by a signal. -/
  | killed (signal report : String)
  /-- The estimator succeeded without having taken the whole request. -/
  | cannotSend (reason : String)
  /-- The thread that writes the request did not end properly. -/
  | writerPanicked
  | badReply (fault : ReplyFault)
  deriving DecidableEq, Repr

/-- The text of a synthesis fault. -/
def SynthesisFault.message : SynthesisFault → String
  | .cannotRun program reason => s!"cannot run `{program}': {reason}"
  | .cannotWait program reason => s!"cannot wait for `{program}': {reason}"
  | .failed status report => s!"estimator exited with exit status: {status}: {report}"
  | .killed signal report => s!"estimator exited with signal: {signal}: {report}"
  | .cannotSend reason => s!"cannot send request: {reason}"
  | .writerPanicked => "request writer panicked"
  | .badReply fault => fault.message

/-- Every cause of failure. -/
inductive Error where
  | inconsistentGraph (fault : GraphFault)
  /-- More reads of a channel were asked for than were counted. -/
  | passDivergence (channel : String) (outputs : Nat)
  | malformedElement (element : String) (fault : ShapeFault)
  | missingMetrics (key : String)
  | synthesis (unit : String) (fault : SynthesisFault)
  | metricsFile (path : String) (line : Nat) (fault : RecordFault)
  | alreadyBound (name : String) (kind : NameKind)
  | undefinedName (name : String) (kind : NameKind)
  /-- The source text is not a program; lines and columns start at one. -/
  | notAProgram (line column : Nat) (reason : String)
  | invalidFile (fault : ReadFault)
  /-- A file cannot be created or opened for writing. -/
  | cannotWrite (path : String) (fault : PathFault)
  | castWidth (width : Nat)
  | emptyEstimatorCommand
  /-- A sum of costs leaves the signed 64-bit range. -/
  | costOverflow
  deriving DecidableEq, Repr

/-- The text of an error. -/
def Error.message : Error → String
  | .inconsistentGraph fault => "Inconsistent dataflow graph: " ++ fault.message
  | .passDivergence channel outputs =>
    s!"Copy cursor for `{channel}' exceeded {outputs} planned outputs. " ++
      "The use counter and the lowering pass disagree"
  | .malformedElement element fault => s!"Malformed element `{element}': " ++ fault.message
  | .missingMetrics key => s!"Missing metrics for `{key}': cost database incomplete"
  | .synthesis unit fault => s!"Failed to synthesize metrics for `{unit}': " ++ fault.message
  | .metricsFile path line fault => s!"{path}:{line}: " ++ fault.message
  | .alreadyBound name kind => s!"Name `{name}' already bound by " ++ kind.text
  | .undefinedName name kind => "Undefined " ++ kind.text ++ s!" `{name}'"
  | .notAProgram line column reason => s!"Parse error: {line}:{column}: {reason}"
  | .invalidFile fault => "Invalid file: " ++ fault.message
  | .cannotWrite path fault => s!"Write error: {path}: " ++ fault.message
  | .castWidth width => s!"Invalid cast width {width}"
  | .emptyEstimatorCommand => "empty estimator command"
  | .costOverflow => "attempt to add with overflow"

/-- Every reported situation that does not stop a compilation. -/
inductive Warning where
  /-- A metrics record replaces a different one under the same key. -/
  | overridden (key before after : String)
  /-- A functional unit has no metrics, and nothing can estimate them. -/
  | noEstimator (key : String)
  /-- A template name is taken by a different body. -/
  | renamed (name replacement : String)
  /-- A split output is a local channel that nobody reads. -/
  | neverRead (channel element : String)
  deriving DecidableEq, Repr

namespace Warning

/-- The text of a warning. -/
def message : Warning → String
  | .overridden key before after =>
    s!"metrics for `{key}' ({before}) overridden by ({after})"
  | .noEstimator key => s!"no metrics for `{key}' and no estimator configured"
  | .renamed name replacement =>
    s!"template `{name}' already names a different body, using `{replacement}'"
  | .neverRead channel element => s!"`{channel}' is never read, sinking it in `{element}'"

/-- The part of the compiler a warning is filed under. -/
def topic : Warning → String
  | .overridden .. | .noEstimator .. => "dflowmap_opt::metrics"
  | .renamed .. => "dflowmap_opt::cache"
  | .neverRead .. => "dflowmap_opt::lower::structural"

/-- A warning as a line of the log, which is free of control sequences. -/
def logLine (w : Warning) : String :=
  Text.ControlSequence.strip ("[WARN  " ++ w.topic ++ "] " ++ w.message ++ "\n")

end Warning

end DataflowCircuit
