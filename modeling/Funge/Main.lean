import Funge.CommandLine.Session

/-!
The command line program. Input is taken from the terminal line by line, when a
turn cannot do without it.
-/

namespace Funge.Terminal

def emit (m : Machine) (filter : Filter) : IO Machine := do
  let out ← IO.getStdout
  out.write ⟨m.console.output⟩
  out.flush
  for line in filter.lines m.journal.toList do
    IO.eprintln line
  return { m with console := m.console.clear, journal := #[] }

def isOutOfInput : Except Stop Unit → Bool
  | .error (.fault (.inputExhausted _)) => true
  | _ => false

/-- The bytes through the next line feed, none at the end of the input. -/
partial def readLine (input : IO.FS.Stream) (line : List UInt8) : IO (List UInt8) := do
  match (← input.read 1).data.toList with
  | [] => return line.reverse
  | b :: _ => if b = 10 then return (b :: line).reverse else readLine input (b :: line)

/-- A tick that runs out of input is taken back, and tried again with one line more. -/
partial def tick (m : Machine) : IO (Except Stop Unit × Machine) := do
  let (result, after) := m.tick
  if isOutOfInput result then
    let line ← readLine (← IO.getStdin) []
    if line.isEmpty then return (result, after)
    tick { m with console := { m.console with input := m.console.input ++ line } }
  else return (result, after)

def exitCode (m : Machine) (filter : Filter) (result : Except Stop Unit) : IO UInt32 := do
  let m ← emit m filter
  match CommandLine.runReport m result with
  | some r =>
    for line in filter.lines r.events do
      IO.eprintln line
    return r.exit.toUInt32
  | none =>
    IO.eprintln "the program never ends"
    return 1

partial def rounds (m : Machine) (filter : Filter) : IO UInt32 := do
  if m.isFinished then
    let (result, m) := m.finish
    exitCode m filter result
  else
    match m.showFrame with
    | (.error s, m) => exitCode m filter (.error s)
    | (.ok (), m) =>
      let m ← emit m filter
      if m.settings.opsPerSecond ≠ 0 then
        IO.sleep (1000 / m.settings.opsPerSecond)
      match ← tick m with
      | (.error s, m) => exitCode m filter (.error s)
      | (.ok (), m) => rounds (← emit m filter) filter

def lookup (name : String) : IO Document := do
  try
    return .bytes (← IO.FS.readBinFile name).data.toList
  catch e =>
    match e with
    | .noFileOrDirectory .. => return .missing
    | .permissionDenied .. => return .denied
    | _ => return .directory

end Funge.Terminal

open Funge in
def main (args : List String) : IO UInt32 := do
  let filter := Filter.ofWord? (← IO.getEnv "RUST_LOG")
  match CommandLine.parse args with
  | none =>
    IO.eprintln CommandLine.usage
    return 2
  | some .help =>
    IO.print CommandLine.helpText
    return 0
  | some (.run file settings) =>
    match Playfield.load file (← Terminal.lookup file) with
    | .error f =>
      for line in filter.lines [CommandLine.startFailure file f] do
        IO.eprintln line
      return 1
    | .ok field =>
      let fresh ← IO.rand 0 0xffffffffffffffff
      let m := Machine.start field settings {} (.ofNat fresh)
      Terminal.rounds m.announce filter
