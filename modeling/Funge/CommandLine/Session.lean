import Funge.CommandLine.Options
import Funge.Machine.Run
import Funge.Playfield.Source

/-!
A session of the command line from its arguments to its exit code.
-/

namespace Funge

/-- The level that a word names. An empty word keeps errors only; a word that names no
level keeps nothing. -/
def Filter.ofWord (word : String) : Filter :=
  match String.ofList (word.toList.map Char.toLower) with
  | "" => .above .error
  | "trace" => .above .trace
  | "debug" => .above .debug
  | "info" => .above .info
  | "warn" => .above .warn
  | "error" => .above .error
  | _ => .off

/-- Without a word, warnings and errors are kept. -/
def Filter.ofWord? (word : Option String) : Filter :=
  match word with
  | some word => ofWord word
  | none => .above .warn

namespace CommandLine

/-- What a session leaves behind. -/
structure Report where
  exit : Nat
  output : Array UInt8
  events : List Event

def helpReport : Report := ⟨0, Text.Utf8.encode helpText, []⟩

def usageReport : Report := ⟨2, #[], []⟩

def startFailure (file : String) (f : Fault) : Event :=
  .failed ("could not start " ++ file ++ ": " ++ f.fullMessage)

def runFailure (f : Fault) : Event := .failed ("program aborted: " ++ f.fullMessage)

/-- The report on a run that has ended. A run that goes round without end has none. -/
def runReport (m : Machine) : Except Stop Unit → Option Report
  | .ok () => some ⟨0, m.console.output, m.journal.toList⟩
  | .error (.fault f) => some ⟨1, m.console.output, m.journal.toList ++ [runFailure f]⟩
  | .error .outOfMemory => some ⟨101, m.console.output, m.journal.toList⟩
  | .error .endless => none

/-- `lookup` answers for the files, `fresh` is the seed if none is given, and `fuel` bounds
the ticks of the run. -/
def session (lookup : String → Document) (args : List String) (input : List UInt8)
    (fresh : UInt64) (fuel : Nat) : Option Report :=
  match parse args with
  | none => some usageReport
  | some .help => some helpReport
  | some (.run file settings) =>
    match Playfield.load file (lookup file) with
    | .error f => some ⟨1, #[], [startFailure file f]⟩
    | .ok field =>
      match (Machine.start field settings { input } fresh).run fuel with
      | some (result, m) => runReport m result
      | none => none

end CommandLine

end Funge
