import DataflowCircuit.Cost.Estimate
import DataflowCircuit.FunctionalUnit.RequestJson

/-!
# Estimators as Commands

An estimator is a program with arguments, given as one text and cut at
blanks. It is started once per request, reads the request from its input and
answers on its output. What programs do is not known here, so running one is
a parameter.

Starting a program, feeding it and waiting for it can go wrong on the side of
the operating system. What it says then is a text that is passed on, and the
faults are looked at in a fixed order: a program that cannot be started or
awaited has no status, a status that tells of a failure is reported before a
request that was not taken, and only the output of a program that succeeded on
the whole request is read. Whatever goes wrong, the answer is a synthesis fault.

## Main definitions

* `Sending`: How the request reached a program.
* `RunResult`: How a program ended.
* `Programs`: What programs do.
* `RunResult.reply`: The reply of an estimator that ended in some way.
* `Estimator.ofCommand`: The estimator that a command names.
-/

namespace DataflowCircuit

/-- How a request reached the input of a program. -/
inductive Sending where
  | complete
  /-- Writing failed, for instance because the program closed its input. -/
  | broken (reason : String)
  /-- The thread that writes the request did not end properly. -/
  | panicked
  deriving DecidableEq, Repr

/-- How running a program ended. -/
inductive RunResult where
  /-- There is no such program. -/
  | missing
  /-- The program cannot be started for another reason. -/
  | unstartable (reason : String)
  /-- The program was started, but its end cannot be awaited. -/
  | unawaited (reason : String)
  /-- The program was ended by a signal. -/
  | killed (signal stderr : String)
  | finished (status : Nat) (stdout stderr : String) (sending : Sending := .complete)
  deriving DecidableEq, Repr

/-- What a program does with its arguments and its input. -/
abbrev Programs := String → List String → String → RunResult

/-- The reply that a run of an estimator gives. -/
def RunResult.reply (program : String) : RunResult → Except SynthesisFault RawCost
  | .missing => .error (.cannotRun program PathFault.missing.message)
  | .unstartable reason => .error (.cannotRun program reason)
  | .unawaited reason => .error (.cannotWait program reason)
  | .killed signal stderr => .error (.killed signal (String.ofList (Text.trim stderr.toList)))
  | .finished 0 stdout _ .complete =>
    match RawCost.read stdout with
    | .ok raw => .ok raw
    | .error fault => .error (.badReply fault)
  | .finished 0 _ _ (.broken reason) => .error (.cannotSend reason)
  | .finished 0 _ _ .panicked => .error .writerPanicked
  | .finished status _ stderr _ =>
    .error (.failed status (String.ofList (Text.trim stderr.toList)))

/-- The estimator that a command names. -/
def Estimator.ofCommand (programs : Programs) (command : String) : Except Error Estimator :=
  match (Text.words command.toList).map String.ofList with
  | [] => .error .emptyEstimatorCommand
  | program :: args =>
    .ok ⟨fun _ request => (programs program args request.render).reply program⟩

end DataflowCircuit
