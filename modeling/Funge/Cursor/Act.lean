import Funge.Cursor.Motion
import Funge.Text.Utf8

/-!
What an instruction does to its own cursor, and what it asks of the world
around it.
-/

namespace Funge

/-- A request of a cursor to the machine. -/
inductive Effect where
  | none
  | print (text : String)
  | readInteger
  | readCharacter
  | put (x y value : Int64)
  | fork
  | goRandom
deriving DecidableEq

namespace Cursor

def printedCharacter (v : Int64) : String :=
  String.singleton ((Word.char? v).getD Text.Utf8.replacement)

/-- A place outside the playfield holds a blank, and so does one with a negative
coordinate. -/
def fetch (f : Playfield) (x y : Int64) : Int64 :=
  match Position.ofWords? x y with
  | some p => (f.read p).code
  | none => Cell.blank.code

/-- The result of a move that may fail; a cursor that cannot move keeps its place. -/
def moved (c : Cursor) : Except Stop Cursor → Cursor × Except Stop Effect
  | .ok c => (c, .ok .none)
  | .error s => (c, .error s)

/-- One instruction. Also when it fails, the values it took are gone. -/
def act (f : Playfield) (c : Cursor) : Instruction → Cursor × Except Stop Effect
  | .digit value => (c.push (Int64.ofNat value.toNat), .ok .none)
  | .add => ((c.drop 2).push (c.operand 0 + c.operand 1), .ok .none)
  | .subtract => ((c.drop 2).push (c.operand 1 - c.operand 0), .ok .none)
  | .multiply => ((c.drop 2).push (c.operand 0 * c.operand 1), .ok .none)
  | .divide =>
    if c.operand 0 = 0 then
      (c.drop 2, .error (.fault (.divisionByZero (c.operand 1) c.position)))
    else ((c.drop 2).push (Word.floorDiv (c.operand 1) (c.operand 0)), .ok .none)
  | .modulo =>
    if c.operand 0 = 0 then
      (c.drop 2, .error (.fault (.moduloByZero (c.operand 1) c.position)))
    else ((c.drop 2).push (Word.floorMod (c.operand 1) (c.operand 0)), .ok .none)
  | .not => ((c.drop 1).push (Word.ofBool (c.operand 0 = 0)), .ok .none)
  | .greater => ((c.drop 2).push (Word.ofBool (c.operand 0 < c.operand 1)), .ok .none)
  | .go d => ({ c with direction := d }, .ok .none)
  | .horizontalIf =>
    ({ c.drop 1 with direction := if c.operand 0 = 0 then .right else .left }, .ok .none)
  | .verticalIf =>
    ({ c.drop 1 with direction := if c.operand 0 = 0 then .down else .up }, .ok .none)
  | .goRandom => (c, .ok .goRandom)
  | .turnLeft => ({ c with direction := c.direction.turnLeft }, .ok .none)
  | .turnRight => ({ c with direction := c.direction.turnRight }, .ok .none)
  | .compareTurn =>
    let d := c.direction
    let turned :=
      if c.operand 1 < c.operand 0 then d.turnLeft
      else if c.operand 0 < c.operand 1 then d.turnRight
      else d
    ({ c.drop 2 with direction := turned }, .ok .none)
  | .trampoline => c.moved (c.advance f)
  | .jumpOver => c.moved (c.jumpOver f)
  | .jumpForward => (c.drop 1).moved ((c.drop 1).jumpForward f (c.operand 0))
  | .duplicate => ({ c with stack := c.stack.dup }, .ok .none)
  | .swap => ({ c with stack := c.stack.swap }, .ok .none)
  | .discard => (c.drop 1, .ok .none)
  | .clear => ({ c with stack := .empty }, .ok .none)
  | .printInteger => (c.drop 1, .ok (.print (Text.Decimal.write (c.operand 0).toInt ++ " ")))
  | .printCharacter => (c.drop 1, .ok (.print (printedCharacter (c.operand 0))))
  | .readInteger => (c, .ok .readInteger)
  | .readCharacter => (c, .ok .readCharacter)
  | .put => (c.drop 3, .ok (.put (c.operand 1) (c.operand 2) (c.operand 0)))
  | .get => ((c.drop 2).push (fetch f (c.operand 0) (c.operand 1)), .ok .none)
  | .fork => (c, .ok .fork)
  | .halt => (c.terminate, .ok .none)
  | .toggleLiteral => (c.toggleLiteral, .ok .none)
  | .nop => (c, .ok .none)
  | .reserved r => (c, .error (.fault (.notImplemented (.char r) c.position)))

end Cursor

end Funge
