import DataflowCircuit.Compile.Output
import DataflowCircuit.Text.Blank

/-!
# Command Line Options

Arguments are read from the left. Before a `--`, an argument that starts with
a minus is an option or a switch and must be known exactly; an option takes
the next argument as its value, whatever that looks like. Everything else is
positional, of which there is at most one. Options other than the metrics
files are given at most once, switches may be repeated.

A help trigger asks for the help text, and from then on only more triggers
and positional arguments may follow. The first error ends the reading.

## Main definitions

* `LogLevel`: How much is logged.
* `Options`: What was asked for.
* `Options.input?`: The input file, if one was named.
* `Options.pathsRead`, `Options.pathsWritten`: The files concerned.
* `ArgumentFault`: What can be wrong with arguments.
* `Request`: Options or the help text.
* `Request.ofArguments`: The request that arguments make.
* `helpText`, `ArgumentFault.report`: The texts of the command line.
-/

namespace DataflowCircuit

/-- How much is logged. -/
inductive LogLevel where
  | off | error | warn | info | debug | trace
  deriving DecidableEq, Repr

namespace LogLevel

/-- The name of a level. -/
def text : LogLevel → String
  | .off => "OFF"
  | .error => "ERROR"
  | .warn => "WARN"
  | .info => "INFO"
  | .debug => "DEBUG"
  | .trace => "TRACE"

/-- Every level. -/
def all : List LogLevel :=
  [.off, .error, .warn, .info, .debug, .trace]

/-- The level that a text names, in any case. -/
def ofString? (s : String) : Option LogLevel :=
  let upper := String.ofList (s.toList.map Char.toUpper)
  all.find? (·.text = upper)

/-- Are warnings logged? -/
def showsWarnings : LogLevel → Bool
  | .off | .error => false
  | _ => true

end LogLevel

/-- What a command line asks for. -/
structure Options where
  file : Option String
  output : Output
  lib : Output
  conf : Output
  metrics : List String
  customMetrics : Option String
  estimator : Option String
  stats : Option Output
  pipeline : Bool
  dump : Bool
  logLevel : LogLevel
  deriving Repr

namespace Options

/-- The options of an empty command line. -/
def default : Options where
  file := none
  output := .stdout
  lib := .null
  conf := .null
  metrics := []
  customMetrics := none
  estimator := none
  stats := none
  pipeline := false
  dump := false
  logLevel := .warn

/-- The input file, if one was named. -/
def input? (o : Options) : Option String :=
  o.file.filter (· ≠ "-")

/-- The files that a compilation may read. -/
def pathsRead (o : Options) : List String :=
  o.input?.toList ++ o.metrics ++ o.customMetrics.toList

/-- The files that a compilation may write. -/
def pathsWritten (o : Options) : List String :=
  ([o.output, o.lib, o.conf] ++ o.stats.toList).filterMap Output.path? ++ o.customMetrics.toList

end Options

/-- What can be wrong with arguments. -/
inductive ArgumentFault where
  | unrecognized (arg : String)
  | noValue (option : String)
  | duplicate (option value : String)
  | badLevel (option value : String)
  /-- An option after a help trigger. -/
  | afterHelp
  deriving DecidableEq, Repr

namespace ArgumentFault

/-- The text of a fault. -/
def message : ArgumentFault → String
  | .unrecognized arg => s!"Unrecognized argument: {arg}"
  | .noValue option => s!"No value provided for option '{option}'."
  | .duplicate option value =>
    s!"Error parsing option '{option}' with value '{value}': duplicate values provided"
  | .badLevel option value =>
    s!"Error parsing option '{option}' with value '{value}': " ++
      "attempted to convert a string that doesn't match an existing log level"
  | .afterHelp => "Trailing arguments are not allowed after `help`."

/-- What separates the text of a fault from the hint. A fault after a help
    trigger is found by the help itself and has no empty line. -/
def separator : ArgumentFault → String
  | .afterHelp => "\n"
  | _ => "\n\n"

/-- What is printed about a fault. -/
def report (f : ArgumentFault) : String :=
  f.message ++ f.separator ++ "Run dflowmap --help for more information.\n"

end ArgumentFault

/-- The options that take a value. -/
inductive ValueOption where
  | output | lib | conf | metrics | customMetrics | estimator | stats | logLevel
  deriving DecidableEq, Repr

/-- The options without a value. -/
inductive Switch where
  | pipeline | dump
  deriving DecidableEq, Repr

/-- What an argument that starts with a minus can be. -/
inductive Flag where
  | value (o : ValueOption)
  | switch (s : Switch)
  | help
  deriving DecidableEq, Repr

/-- The known arguments that start with a minus. -/
def flags : List (String × Flag) :=
  [("-o", .value .output), ("--output", .value .output),
   ("--lib", .value .lib),
   ("--conf", .value .conf),
   ("-m", .value .metrics), ("--metrics", .value .metrics),
   ("--custom-metrics", .value .customMetrics),
   ("--estimator", .value .estimator),
   ("--stats", .value .stats),
   ("--log-level", .value .logLevel),
   ("--pipeline", .switch .pipeline),
   ("--dump-ir", .switch .dump),
   ("-h", .help), ("--help", .help)]

/-- The arguments read so far. -/
structure Reading where
  options : Options
  /-- The options that were given a value. -/
  given : List ValueOption
  /-- Was help asked for? -/
  help : Bool
  deriving Repr

namespace Reading

/-- Nothing has been read. -/
def start : Reading :=
  ⟨.default, [], false⟩

/-- Turn a switch on. -/
def turnOn (r : Reading) : Switch → Reading
  | .pipeline => { r with options := { r.options with pipeline := true } }
  | .dump => { r with options := { r.options with dump := true } }

/-- Give an option its value. -/
def assign (r : Reading) (name : String) (o : ValueOption) (v : String) :
    Except ArgumentFault Reading := do
  if o ∈ r.given && o ≠ .metrics then throw (.duplicate name v)
  let opts := r.options
  let opts ←
    match o with
    | .output => pure { opts with output := .ofString v }
    | .lib => pure { opts with lib := .ofString v }
    | .conf => pure { opts with conf := .ofString v }
    | .metrics => pure { opts with metrics := opts.metrics ++ [v] }
    | .customMetrics => pure { opts with customMetrics := some v }
    | .estimator => pure { opts with estimator := some v }
    | .stats => pure { opts with stats := some (.ofString v) }
    | .logLevel =>
      match LogLevel.ofString? v with
      | some level => pure { opts with logLevel := level }
      | none => throw (.badLevel name v)
  return { r with options := opts, given := o :: r.given }

/-- Take a positional argument. -/
def positional (r : Reading) (arg : String) : Except ArgumentFault Reading :=
  match r.options.file with
  | some _ => .error (.unrecognized arg)
  | none => .ok { r with options := { r.options with file := some arg } }

/-- Take arguments that are all positional. -/
def positionals (r : Reading) (args : List String) : Except ArgumentFault Reading :=
  args.foldlM positional r

end Reading

/-- Read arguments from the left. -/
def readArguments (r : Reading) : List String → Except ArgumentFault Reading
  | [] => .ok r
  | arg :: args =>
    if arg = "--" then r.positionals args
    else if arg.toList.head? ≠ some '-' then do
      readArguments (← r.positional arg) args
    else
      match flags.lookup arg with
      | some .help => readArguments { r with help := true } args
      | flag =>
        if r.help then .error .afterHelp
        else
          match flag, args with
          | some (.switch s), args => readArguments (r.turnOn s) args
          | some (.value _), [] => .error (.noValue arg)
          | some (.value o), v :: args => do readArguments (← r.assign arg o v) args
          | _, _ => .error (.unrecognized arg)

/-- What a command line asks for: help, or a compilation. -/
inductive Request where
  | help
  | compile (options : Options)
  deriving Repr

/-- The request that arguments make. -/
def Request.ofArguments (args : List String) : Except ArgumentFault Request := do
  let r ← readArguments .start args
  return if r.help then .help else .compile r.options

/-- The help text. -/
def helpText : String :=
  "Usage: dflowmap [-o <output>] [--lib <lib>] [--conf <conf>] [-m <metrics...>] " ++
  "[--custom-metrics <custom-metrics>] [--estimator <estimator>] [--stats <stats>] " ++
  "[--pipeline] [--dump-ir] [--log-level <log-level>] [--] [<file>]\n" ++
  "\n" ++
  "Lower dataflow processes to a costed asynchronous circuit netlist.\n" ++
  "\n" ++
  "Positional Arguments:\n" ++
  "  file              input file, `-` or absent for stdin\n" ++
  "\n" ++
  "Options:\n" ++
  "  -o, --output      netlist output, default is stdout\n" ++
  "  --lib             template library output\n" ++
  "  --conf            cost configuration output\n" ++
  "  -m, --metrics     standard metrics file. May be repeated; later files override\n" ++
  "                    earlier ones\n" ++
  "  --custom-metrics  file caching the metrics of synthesized functional units\n" ++
  "  --estimator       command estimating the cost of unknown functional units\n" ++
  "  --stats           write area and leakage statistics here\n" ++
  "  --pipeline        use the pipelined structural templates\n" ++
  "  --dump-ir         print the parsed processes to stderr before lowering\n" ++
  "  --log-level       logging level\n" ++
  "  -h, --help        display usage information\n" ++
  "\n"

end DataflowCircuit
