import Funge.Cell
import Funge.Direction
import Funge.Position

/-!
What can go wrong while a program is loaded or run.
-/

namespace Funge

/-- Why a program file gives no playfield. -/
inductive LoadFault where
  | invalidText
  | missing
  | denied
  | isDirectory
deriving DecidableEq

def LoadFault.message : LoadFault → String
  | invalidText => "stream did not contain valid UTF-8"
  | missing => "No such file or directory (os error 2)"
  | denied => "Permission denied (os error 13)"
  | isDirectory => "Is a directory (os error 21)"

/-- Why the console refuses to read or write. -/
inductive ConsoleFault where
  | invalidText
  | full
deriving DecidableEq

def ConsoleFault.message : ConsoleFault → String
  | invalidText => "stream did not contain valid UTF-8"
  | full => "failed to write whole buffer"

/-- What a read was waiting for when the input ended. -/
inductive Wanted where
  | integer
  | character
deriving DecidableEq

def Wanted.text : Wanted → String
  | integer => "an integer"
  | character => "a character"

inductive Fault where
  | illegalInstruction (cell : Cell) (location : Position)
  | notImplemented (cell : Cell) (location : Position)
  | divisionByZero (dividend : Int64) (location : Position)
  | moduloByZero (dividend : Int64) (location : Position)
  | emptyRow (direction : Direction) (location : Position)
  | inputExhausted (wanted : Wanted)
  | load (name : String) (cause : LoadFault)
  | console (cause : ConsoleFault)
deriving DecidableEq

inductive Category where
  | instruction
  | arithmetic
  | io
deriving DecidableEq

namespace Fault

def category : Fault → Category
  | illegalInstruction .. | notImplemented .. => .instruction
  | divisionByZero .. | moduloByZero .. | emptyRow .. => .arithmetic
  | inputExhausted .. | load .. | console .. => .io

/-- Where the program failed; faults of the outer world have no place in it. -/
def location? : Fault → Option Position
  | illegalInstruction _ p | notImplemented _ p => some p
  | divisionByZero _ p | moduloByZero _ p | emptyRow _ p => some p
  | inputExhausted .. | load .. | console .. => none

def message : Fault → String
  | illegalInstruction c p => p.text ++ ": illegal instruction '" ++ c.text ++ "'"
  | notImplemented c p => p.text ++ ": instruction '" ++ c.text ++ "' is not implemented"
  | divisionByZero v p =>
    p.text ++ ": division by zero (" ++ Text.Decimal.write v.toInt ++ " / 0)"
  | moduloByZero v p =>
    p.text ++ ": modulo by zero (" ++ Text.Decimal.write v.toInt ++ " % 0)"
  | emptyRow d p => p.text ++ ": cannot move " ++ d.text ++ ", nothing to wrap around"
  | inputExhausted w => "input exhausted while reading " ++ w.text
  | load name cause => "failed to load program from " ++ name ++ ": " ++ cause.message
  | console cause => "console I/O failed: " ++ cause.message

/-- The message and, after a colon, that of the outer cause once more. -/
def fullMessage (f : Fault) : String :=
  match f with
  | load _ cause => f.message ++ ": " ++ cause.message
  | console cause => f.message ++ ": " ++ cause.message
  | _ => f.message

end Fault

/-- Why a machine cannot go on. -/
inductive Stop where
  | fault (f : Fault)
  /-- A write would make a row, or the list of rows, longer than memory allows. -/
  | outOfMemory
  /-- A search along the playfield goes round without end. -/
  | endless
deriving DecidableEq

end Funge
