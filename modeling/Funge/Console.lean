import Funge.Fault
import Funge.Text.Blank
import Funge.Text.Decimal
import Funge.Text.Utf8

/-!
The console: input taken line by line, and an output that may have room for a
limited number of bytes only.
-/

namespace Funge

structure Console where
  input : List UInt8 := []
  output : Array UInt8 := #[]
  /-- How many more bytes the output takes, if there is a limit. -/
  room : Option Nat := none
deriving DecidableEq

namespace Console

def newlineCode : Int64 := 10

/-- The bytes through the first line feed, and the rest. -/
def cutLine : List UInt8 → List UInt8 × List UInt8
  | [] => ([], [])
  | b :: rest => if b = 10 then ([b], rest) else (b :: (cutLine rest).1, (cutLine rest).2)

/-- The text of a line without the line feed, and without a carriage return before the
line feed. -/
def withoutEnd (line : List Char) : List Char :=
  match line.reverse with
  | '\n' :: '\r' :: rest => rest.reverse
  | '\n' :: rest => rest.reverse
  | _ => line

/-- There is no line at the end of the input. A line that is no text is taken and
refused. -/
def readLine (k : Console) : Except ConsoleFault (Option (List Char)) × Console :=
  match cutLine k.input with
  | ([], rest) => (.ok none, { k with input := rest })
  | (b :: line, rest) =>
    match Text.Utf8.decode? (b :: line) with
    | some text => (.ok (some (withoutEnd text.toList)), { k with input := rest })
    | none => (.error .invalidText, { k with input := rest })

theorem cutLine_rest_length (bs : List UInt8) :
    (cutLine bs).1.length + (cutLine bs).2.length = bs.length := by
  induction bs with
  | nil => rfl
  | cons b rest ih =>
    by_cases h : b = 10
    · simp [cutLine, h]
      omega
    · simp [cutLine, h]
      omega

theorem readLine_length {k k' : Console} {line : List Char}
    (h : k.readLine = (.ok (some line), k')) : k'.input.length < k.input.length := by
  have hlen := cutLine_rest_length k.input
  unfold readLine at h
  split at h
  · simp at h
  · next b bs rest hcut =>
    rw [hcut] at hlen
    simp only [List.length_cons] at hlen
    split at h
    · simp only [Prod.mk.injEq] at h
      rw [← h.2]
      show rest.length < k.input.length
      omega
    · simp at h

/-- An input line that was to hold an integer and did not. -/
structure Rejected where
  line : List Char
  reason : Text.Decimal.Fault
deriving DecidableEq

/-- The outcome of a read, with the lines that were passed over. -/
structure Reading where
  value : Except Fault Int64
  rejected : List Rejected
  console : Console

/-- Reads lines until one holds an integer. -/
def readInteger (k : Console) : Reading :=
  match _h : k.readLine with
  | (.error cause, k) => ⟨.error (.console cause), [], k⟩
  | (.ok none, k) => ⟨.error (.inputExhausted .integer), [], k⟩
  | (.ok (some line), k') =>
    match Text.Decimal.readInt64 (Text.trim line) with
    | .ok v => ⟨.ok v, [], k'⟩
    | .error reason =>
      let later := k'.readInteger
      { later with rejected := ⟨line, reason⟩ :: later.rejected }
termination_by k.input.length
decreasing_by exact readLine_length ‹_›

/-- The code of the first character of a line; an empty line counts as its end. -/
def readCharacter (k : Console) : Reading :=
  match k.readLine with
  | (.error cause, k) => ⟨.error (.console cause), [], k⟩
  | (.ok none, k) => ⟨.error (.inputExhausted .character), [], k⟩
  | (.ok (some []), k) => ⟨.ok newlineCode, [], k⟩
  | (.ok (some (c :: _)), k) => ⟨.ok (Int64.ofNat c.toNat), [], k⟩

/-- Writes what fits, and fails if that is not all. -/
def write (k : Console) (text : String) : Except ConsoleFault Unit × Console :=
  let bytes := Text.Utf8.encode text
  match k.room with
  | none => (.ok (), { k with output := k.output ++ bytes })
  | some room =>
    let k := { k with output := k.output ++ bytes.take room, room := some (room - bytes.size) }
    if bytes.size ≤ room then (.ok (), k) else (.error .full, k)

def contents (k : Console) : String := Text.Utf8.lenient k.output

/-- Forgets the output; the room it took stays taken. -/
def clear (k : Console) : Console := { k with output := #[] }

end Console

end Funge
