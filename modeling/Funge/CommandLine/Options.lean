import Funge.Machine.Basic

/-!
The arguments of the command line. They are taken from left to right, the first
fault decides, and a request for help ends the reading.
-/

namespace Funge.CommandLine

/-- What the arguments have said so far. -/
structure Given where
  file : Option String := none
  steps : Bool := false
  ops : Option UInt32 := none
  seed : Option UInt64 := none
  noColor : Bool := false

/-- Options that are followed by a value. -/
inductive Key where
  | ops
  | seed

/-- What the command line asks for. -/
inductive Request where
  | help
  | run (file : String) (settings : Settings)

namespace Given

def withFile (g : Given) (name : String) : Option Given :=
  if g.file.isSome ∨ name = "" then none else some { g with file := some name }

def withSteps (g : Given) : Option Given :=
  if g.steps then none else some { g with steps := true }

def withNoColor (g : Given) : Option Given :=
  if g.noColor then none else some { g with noColor := true }

/-- The number of ticks is read as a signed word first, so a zero may have a minus
sign. -/
def withOps (g : Given) (value : List Char) : Option Given :=
  match g.ops, Text.Decimal.readInt64 value with
  | none, .ok v =>
    if 0 ≤ v ∧ v < 0x100000000 then some { g with ops := some (.ofNat v.toInt.toNat) } else none
  | _, _ => none

def withSeed (g : Given) (value : List Char) : Option Given :=
  match g.seed, Text.Decimal.read 0 0xffffffffffffffff value with
  | none, .ok v => some { g with seed := some (.ofNat v.toNat) }
  | _, _ => none

def withValue (g : Given) : Key → List Char → Option Given
  | .ops => g.withOps
  | .seed => g.withSeed

def request (g : Given) : Option Request :=
  g.file.map fun file =>
    .run file
      { opsPerSecond := g.ops.getD 0, showSteps := g.steps, seed := g.seed, color := !g.noColor }

end Given

/-- How reading goes on after an argument. -/
inductive Next where
  | go (g : Given)
  | await (key : Key) (g : Given)
  | help

/-- An argument after two dashes, with the value after an equals sign if there is one. -/
def long (g : Given) (name : List Char) (value : Option (List Char)) : Option Next :=
  match String.ofList name, value with
  | "help", none => some .help
  | "steps", none => g.withSteps.map .go
  | "no-color", none => g.withNoColor.map .go
  | "ops", none => some (.await .ops g)
  | "seed", none => some (.await .seed g)
  | "ops", some v => (g.withOps v).map .go
  | "seed", some v => (g.withSeed v).map .go
  | _, _ => none

/-- The letters after a single dash. What follows an option that takes a value is that
value, less an equals sign. -/
def short (g : Given) : List Char → Option Next
  | [] => some (.go g)
  | 'h' :: _ => some .help
  | 's' :: rest =>
    match g.withSteps with
    | some g => short g rest
    | none => none
  | ['o'] => some (.await .ops g)
  | 'o' :: '=' :: value => (g.withOps value).map .go
  | 'o' :: value => (g.withOps value).map .go
  | _ => none

def argument (g : Given) (arg : String) : Option Next :=
  match arg.toList with
  | '-' :: '-' :: rest =>
    let name := rest.takeWhile (· ≠ '=')
    long g name (if '=' ∈ rest then some (rest.drop (name.length + 1)) else none)
  | '-' :: c :: rest => short g (c :: rest)
  | _ => (g.withFile arg).map .go

/-- After two bare dashes every argument is a file. -/
def files (g : Given) : List String → Option Given
  | [] => some g
  | arg :: rest =>
    match g.withFile arg with
    | some g => files g rest
    | none => none

/-- An argument that can be the value of the option before it: a dash alone can, anything
else that starts with a dash cannot. -/
def isValue (arg : String) : Bool := arg = "-" ∨ arg.toList.head? ≠ some '-'

/-- There is no answer to a command line that is not well formed. -/
def parseFrom (g : Given) : List String → Option Request
  | [] => g.request
  | "--" :: rest => (files g rest).bind Given.request
  | arg :: rest =>
    match argument g arg with
    | none => none
    | some .help => some .help
    | some (.go g) => parseFrom g rest
    | some (.await key g) =>
      match rest with
      | [] => none
      | value :: rest =>
        if isValue value then
          match g.withValue key value.toList with
          | some g => parseFrom g rest
          | none => none
        else none

def parse (args : List String) : Option Request := parseFrom {} args

def usage : String := "Usage: befunge [OPTIONS] <FILE>"

def helpLines : List String :=
  ["Run a two-dimensional stack program",
   "",
   usage,
   "",
   "Arguments:",
   "  <FILE>  Program file",
   "",
   "Options:",
   "  -s, --steps        Print the grid, every stack and the output so far before each tick",
   "  -o, --ops <OPS>    Maximum ticks per second (0 runs as fast as possible) [default: 0]",
   "      --seed <SEED>  Seed for the random direction instruction",
   "      --no-color     Disable colours in step traces",
   "  -h, --help         Print help"]

def helpText : String := String.join (helpLines.map (· ++ "\n"))

end Funge.CommandLine
