/-!
The source of random directions: a generator with four words of state, seeded from
one word by a congruential generator.
-/

namespace Funge

structure Random where
  s0 : UInt64
  s1 : UInt64
  s2 : UInt64
  s3 : UInt64
deriving DecidableEq

namespace Random

def rotateLeft (x : UInt64) (n : UInt64) : UInt64 := x <<< n ||| x >>> (64 - n)

def rotateRight (x : UInt32) (n : UInt32) : UInt32 := x >>> n ||| x <<< ((32 - n) % 32)

/-- One step of the seeding generator. -/
def seedStep (state : UInt64) : UInt64 := state * 6364136223846793005 + 11634580027462260723

/-- The half word that a state of the seeding generator gives. -/
def seedHalf (state : UInt64) : UInt64 :=
  (rotateRight (((state >>> 18) ^^^ state) >>> 27).toUInt32 (state >>> 59).toUInt32).toUInt64

/-- A word from two successive states, the lower half first, and the later state. -/
def seedWord (state : UInt64) : UInt64 × UInt64 :=
  let low := seedStep state
  let high := seedStep low
  (seedHalf low ||| seedHalf high <<< 32, high)

def ofSeed (seed : UInt64) : Random :=
  let (s0, state) := seedWord seed
  let (s1, state) := seedWord state
  let (s2, state) := seedWord state
  let (s3, _) := seedWord state
  ⟨s0, s1, s2, s3⟩

def next (r : Random) : UInt64 × Random :=
  let s2 := r.s2 ^^^ r.s0
  let s3 := r.s3 ^^^ r.s1
  let s1 := r.s1 ^^^ s2
  let s0 := r.s0 ^^^ s3
  (rotateLeft (r.s0 + r.s3) 23 + r.s0,
    ⟨s0, s1, s2 ^^^ (r.s1 <<< 17), rotateLeft s3 45⟩)

/-- The two highest bits of a word. -/
def topBits (v : UInt64) : Fin 4 := ⟨(v >>> 62).toNat % 4, Nat.mod_lt _ (by decide)⟩

/-- Draws until a word is fit for use, its third highest bit being clear. -/
def drawWithin : Nat → Random → Fin 4 × Random
  | 0, r => (topBits r.next.1, r.next.2)
  | fuel + 1, r =>
    if r.next.1 <<< 2 < 0x8000000000000000 then (topBits r.next.1, r.next.2)
    else drawWithin fuel r.next.2

/-- A number below four. Half of all words are fit for use, so the bound on the number
of draws is never met. -/
def draw (r : Random) : Fin 4 × Random := drawWithin 0x100000000 r

end Random

end Funge
