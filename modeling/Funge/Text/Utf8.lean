/-!
Text as UTF-8 bytes: strict reading, which refuses any fault, and lenient
reading, which puts U+FFFD for each faulty part.
-/

namespace Funge.Text.Utf8

def encode (s : String) : Array UInt8 := s.toUTF8.data

def decode? (bytes : List UInt8) : Option String := String.fromUTF8? bytes.toByteArray

/-- A character of which only a first part has been seen: `value` is what its bytes
so far say, `missing + 1` bytes are still to come, and the next one lies between
`lo` and `hi`. -/
structure Unfinished where
  value : Nat
  missing : Nat
  lo : UInt8
  hi : UInt8

def replacement : Char := Char.ofNat 0xfffd

/-- What a byte at the start of a character gives. The narrowed ranges after `e0`, `ed`,
`f0` and `f4` keep out overlong forms, surrogates and values beyond the last code
point. -/
def start (b : UInt8) : List Char × Option Unfinished :=
  let n := b.toNat
  if n < 0x80 then ([Char.ofNat n], none)
  else if n < 0xc2 then ([replacement], none)
  else if n < 0xe0 then ([], some ⟨n - 0xc0, 0, 0x80, 0xbf⟩)
  else if n = 0xe0 then ([], some ⟨n - 0xe0, 1, 0xa0, 0xbf⟩)
  else if n = 0xed then ([], some ⟨n - 0xe0, 1, 0x80, 0x9f⟩)
  else if n < 0xf0 then ([], some ⟨n - 0xe0, 1, 0x80, 0xbf⟩)
  else if n = 0xf0 then ([], some ⟨n - 0xf0, 2, 0x90, 0xbf⟩)
  else if n < 0xf4 then ([], some ⟨n - 0xf0, 2, 0x80, 0xbf⟩)
  else if n = 0xf4 then ([], some ⟨n - 0xf0, 2, 0x80, 0x8f⟩)
  else ([replacement], none)

/-- A byte that cannot continue the unfinished character ends it as faulty and starts
a character of its own. -/
def feed : Option Unfinished → UInt8 → List Char × Option Unfinished
  | none, b => start b
  | some u, b =>
    if u.lo ≤ b ∧ b ≤ u.hi then
      let value := u.value * 64 + (b.toNat - 0x80)
      match u.missing with
      | 0 => ([Char.ofNat value], none)
      | m + 1 => ([], some ⟨value, m, 0x80, 0xbf⟩)
    else (replacement :: (start b).1, (start b).2)

def lenientFrom (u : Option Unfinished) : List UInt8 → List Char
  | [] => if u.isSome then [replacement] else []
  | b :: rest => (feed u b).1 ++ lenientFrom (feed u b).2 rest

def lenient (bytes : Array UInt8) : String :=
  String.ofList (lenientFrom none bytes.toList)

end Funge.Text.Utf8
