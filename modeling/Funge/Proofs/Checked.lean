import Funge.Proofs.StoredCell

/-!
The machine with checks. Its arithmetic, its accesses to lists and its requests for memory give no
answer at all where a plain sum leaves the range of words, where a quotient or a remainder is not
defined, where an index is out of range, or where a list would take up more bytes than it can. On a
playfield within the length limit no check stops it, unless a put asks for too much memory: it gives
the answers of the machine without checks, however much room the lists have to spare.
-/

namespace Funge

/-! ## Words -/

namespace Word

/-- The sum, if it is a word. -/
def checkedAdd (a b : Int64) : Option Int64 :=
  if -0x8000000000000000 ≤ a.toInt + b.toInt ∧ a.toInt + b.toInt < 0x8000000000000000 then
    some (a + b)
  else none

/-- The remainder, if there is a quotient and it is a word. That of the least word and minus
one is not. -/
def checkedMod (b a : Int64) : Option Int64 :=
  if a = 0 ∨ b = Int64.minValue ∧ a = -1 then none else some (b % a)

/-- The quotient, if there is one. It may overflow. -/
def quotient? (b a : Int64) : Option Int64 := if a = 0 then none else some (b / a)

/-- The remainder, if there is a quotient. That may overflow. -/
def remainder? (b a : Int64) : Option Int64 := if a = 0 then none else some (b % a)

def checkedFloorDiv (b a : Int64) : Option Int64 := do
  let q ← quotient? b a
  let r ← remainder? b a
  return if r ≠ 0 ∧ (r < 0 ↔ ¬ a < 0) then q - 1 else q

def checkedFloorMod (b a : Int64) : Option Int64 := do
  let r ← remainder? b a
  if r ≠ 0 ∧ (r < 0 ↔ ¬ a < 0) then checkedAdd r a else return r

def checkedResidue (a n : Int64) : Option Int64 := do
  let r ← checkedMod a n
  return if r < 0 then r + n else r

def checkedWrap (index : Nat) (delta : Int64) (len : Nat) : Option Nat :=
  if len = 0 then some index
  else do
    let n := Int64.ofNat len
    let base ← checkedResidue (Int64.ofNat index) n
    let sum ← checkedAdd base (← checkedMod delta n)
    return (← checkedResidue sum n).toInt.toNat

/-- No machine word counts as far as this, `2 ^ 64`. -/
def countLimit : Nat := 0x10000000000000000

/-- The next number, if a machine word counts so far. -/
def checkedSucc (n : Nat) : Option Nat := if n + 1 < countLimit then some (n + 1) else none

theorem checkedFloorDiv_eq (b : Int64) {a : Int64} (ha : a ≠ 0) :
    checkedFloorDiv b a = some (floorDiv b a) := by
  simp only [checkedFloorDiv, quotient?, remainder?, if_neg ha]
  rfl

/-- A remainder is added to a divisor of the other sign, so the sum lies between them. -/
theorem checkedFloorMod_eq (b : Int64) {a : Int64} (ha : a ≠ 0) :
    checkedFloorMod b a = some (floorMod b a) := by
  simp only [checkedFloorMod, remainder?, if_neg ha]
  change (if _ then checkedAdd (b % a) a else some (b % a)) = _
  simp only [floorMod]
  split
  · next h =>
    have hfits : -0x8000000000000000 ≤ (b % a).toInt + a.toInt ∧
        (b % a).toInt + a.toInt < 0x8000000000000000 := by
      have hsigns := h.2
      rw [Int64.lt_iff_toInt_lt, Int64.lt_iff_toInt_lt, Int64.toInt_zero] at hsigns
      have h1 := Int64.toInt_lt (b % a)
      have h2 := Int64.toInt_lt a
      have h3 := Int64.le_toInt (b % a)
      have h4 := Int64.le_toInt a
      omega
    exact if_pos hfits
  · rfl

theorem checkedMod_of_pos (b : Int64) {a : Int64} (ha : 0 < a.toInt) :
    checkedMod b a = some (b % a) := by
  apply if_neg
  rintro (rfl | ⟨_, rfl⟩) <;> simp at ha

theorem checkedResidue_of_pos (a : Int64) {n : Int64} (hn : 0 < n.toInt) :
    checkedResidue a n = some (residue a n) := by
  simp only [checkedResidue, checkedMod_of_pos a hn]
  rfl

theorem checkedWrap_of_le (i : Nat) (delta : Int64) {len : Nat} (hpos : 0 < len)
    (hlen : len ≤ 0x4000000000000000) :
    checkedWrap i delta len = some (wrap i delta len) := by
  have hn : 0 < (Int64.ofNat len).toInt := by
    rw [toInt_ofNat_of_le hlen]
    omega
  have hzero : len ≠ 0 := by omega
  have hadd : checkedAdd (residue (Int64.ofNat i) (Int64.ofNat len)) (delta % Int64.ofNat len) =
      some (residue (Int64.ofNat i) (Int64.ofNat len) + delta % Int64.ofNat len) :=
    if_pos (sum_fits i delta hpos hlen)
  simp only [checkedWrap, wrap, if_neg hzero, checkedResidue_of_pos _ hn, checkedMod_of_pos _ hn,
    Option.bind_eq_bind, Option.bind_some, hadd]
  rfl

theorem checkedWrap_eq (i : Nat) (delta : Int64) {len : Nat} (hlen : len ≤ Playfield.lengthLimit) :
    checkedWrap i delta len = some (wrap i delta len) := by
  have hlimit : Playfield.lengthLimit = 2 ^ 60 := rfl
  by_cases hzero : len = 0
  · simp [checkedWrap, wrap, hzero]
  · exact checkedWrap_of_le i delta (by omega) (by omega)

/-- **Moving around a cycle is exact.** On a cycle of at most `2 ^ 62` places and from an index
below `2 ^ 63`, no operation of `wrap` leaves the range of words, its sum least of all, and the new
index is the Euclidean remainder of the exact sum. It lies on the cycle, and a second move adds up
with the first. -/
theorem wrap_exact (i len : Nat) (hi : i < 0x8000000000000000) (hpos : 1 ≤ len)
    (hlen : len ≤ 0x4000000000000000) (a : Int64) :
    checkedWrap i a len = some (wrap i a len) ∧
    (residue (.ofNat i) (.ofNat len) + a % .ofNat len).toInt =
      (residue (.ofNat i) (.ofNat len)).toInt + (a % .ofNat len).toInt ∧
    (wrap i a len : Int) = (i + a.toInt) % len ∧
    wrap i a len < len ∧
    ∀ b : Int64, (wrap (wrap i a len) b len : Int) = (i + a.toInt + b.toInt) % len := by
  refine ⟨checkedWrap_of_le i a hpos hlen, toInt_add_of_fits (sum_fits i a hpos hlen),
    wrap_cast_of_lt a hi hpos hlen, wrap_lt i a hpos hlen, ?_⟩
  intro b
  rw [wrap_wrap_cast i a b hpos hlen, Int64.toInt_ofNat_of_lt hi]

/-- The last index of a word, back by `2 ^ 63` and forward by `2 ^ 63 - 1` on the longest cycle. -/
theorem wrap_exact_extremes :
    checkedWrap 0x7fffffffffffffff .minValue 0x4000000000000000 = some 0x3fffffffffffffff ∧
    (wrap (wrap 0x7fffffffffffffff .minValue 0x4000000000000000) .maxValue 0x4000000000000000 :
      Int) = 0x3ffffffffffffffe := by
  obtain ⟨hchecked, _, hfirst, _, hsecond⟩ := wrap_exact 0x7fffffffffffffff 0x4000000000000000
    (by decide) (by decide) (by decide) .minValue
  have hplace : wrap 0x7fffffffffffffff .minValue 0x4000000000000000 = 0x3fffffffffffffff :=
    Int.ofNat_inj.mp (hfirst.trans (by decide))
  exact ⟨hplace ▸ hchecked, (hsecond .maxValue).trans (by decide)⟩

/-- On a cycle of one place more the sum can leave the range. -/
example : checkedWrap 0x4000000000000000 0x4000000000000000 0x4000000000000001 = none := by
  decide +kernel

end Word

/-! ## Playfields -/

namespace Playfield

def checkedSeekRow (f : Playfield) (x : Nat) (step : Int64) : Nat → Nat → Option (Option Nat)
  | 0, _ => some none
  | fuel + 1, y =>
    if x < f.rowLength y then some (some y)
    else do
      let y ← Word.checkedWrap y step f.rowCount
      f.checkedSeekRow x step fuel y

def checkedAdvance (f : Playfield) (p : Position) (d : Direction) : Option (Option Position) :=
  if d.isHorizontal then do
    let x ← Word.checkedWrap p.x d.step (f.rowLength p.y)
    return some ⟨x, p.y⟩
  else if f.rowCount = 0 then some (some p)
  else do
    let y ← Word.checkedWrap p.y d.step f.rowCount
    let found ← f.checkedSeekRow p.x d.step f.rowCount y
    return found.map fun y => ⟨p.x, y⟩

def checkedJump (f : Playfield) (p : Position) (d : Direction) (n : Int64) : Option Position :=
  let delta := d.step * n
  if d.isHorizontal then do
    let x ← Word.checkedWrap p.x delta (f.rowLength p.y)
    return ⟨x, p.y⟩
  else do
    let y ← Word.checkedWrap p.y delta f.rowCount
    return ⟨p.x, y⟩

/-- The room of a list, in entries of `size` bytes, once it suffices for `length` entries. Room that
does not suffice is doubled at least. There is no answer if a list cannot take up so many bytes. -/
def checkedReserve (size room length : Nat) : Option Nat :=
  if length ≤ room then some room
  else
    let grown := max 4 (max (2 * room) length)
    if size * grown ≤ byteLimit then some grown else none

/-- The list, grown if need be so that it has an entry at `i`. It has room for `spare` entries more
than it holds. -/
def checkedGrow {α : Type} (size spare : Nat) (l : List α) (i : Nat) (a : α) : Option (List α) :=
  if i < l.length then some l
  else do
    let length ← Word.checkedSucc i
    let _ ← checkedReserve size (l.length + spare) length
    return l.rightpad length a

def checkedSet {α : Type} (l : List α) (i : Nat) (a : α) : Option (List α) :=
  if i < l.length then some (l.set i a) else none

/-- The room that a playfield has to spare in its list of rows, and in each row. It depends on how
they have grown, so it may be any. -/
structure Spare where
  rows : Playfield → Nat
  cells : Playfield → Nat → Nat

def checkedWrite (f : Playfield) (spare : Spare) (p : Position) (c : Cell) : Option Playfield := do
  let rows ← checkedGrow rowBytes (spare.rows f) f.rows p.y []
  let row ← rows[p.y]?
  let row ← checkedGrow cellBytes (spare.cells f p.y) row p.x .blank
  let row ← checkedSet row p.x c
  return ⟨rows.set p.y row⟩

variable {f : Playfield} {spare : Spare}

theorem checkedSeekRow_eq (hf : f.Bounded) (x : Nat) (step : Int64) (fuel y : Nat) :
    f.checkedSeekRow x step fuel y = some (f.seekRow x step fuel y) := by
  induction fuel generalizing y with
  | zero => rfl
  | succ fuel ih =>
    rw [checkedSeekRow, seekRow]
    split
    · rfl
    · rw [Word.checkedWrap_eq y step hf.rows]
      exact ih _

theorem checkedAdvance_eq (hf : f.Bounded) (p : Position) (d : Direction) :
    f.checkedAdvance p d = some (f.advance? p d) := by
  unfold checkedAdvance advance?
  split
  · rw [Word.checkedWrap_eq p.x d.step (hf.cells p.y)]
    rfl
  · split
    · rfl
    · rw [Word.checkedWrap_eq p.y d.step hf.rows]
      simp only [Option.bind_eq_bind, Option.bind_some, checkedSeekRow_eq hf]
      rfl

theorem checkedJump_eq (hf : f.Bounded) (p : Position) (d : Direction) (n : Int64) :
    f.checkedJump p d n = some (f.jump p d n) := by
  unfold checkedJump jump
  simp only
  split
  · rw [Word.checkedWrap_eq p.x _ (hf.cells p.y)]
    rfl
  · rw [Word.checkedWrap_eq p.y _ hf.rows]
    rfl

/-! ### Memory -/

/-- The index limit is the exact one: below it a list can grow whatever room it has, and from it on
there is a room that cannot be doubled. -/
theorem lt_indexLimit_iff {size : Nat} (hpos : 0 < size) (hsize : size * 4 ≤ byteLimit) (i : Nat) :
    i < indexLimit size ↔ ∀ room, (checkedReserve size room (i + 1)).isSome := by
  have hbytes : i < indexLimit size ↔ size * (2 * i) ≤ byteLimit := by
    rw [indexLimit, Nat.lt_succ_iff, Nat.le_div_iff_mul_le (by omega), Nat.mul_comm i,
      Nat.mul_comm 2, Nat.mul_assoc]
  rw [hbytes]
  constructor
  · intro hdouble room
    unfold checkedReserve
    split
    · rfl
    · next hroom =>
      have hgrown : max 4 (max (2 * room) (i + 1)) ≤ max 4 (2 * i) := by omega
      have hfits : size * max 4 (2 * i) ≤ byteLimit := by
        rw [← Nat.mul_max_mul_left]
        exact Nat.max_le.mpr ⟨hsize, hdouble⟩
      rw [if_pos (Nat.le_trans (Nat.mul_le_mul_left size hgrown) hfits)]
      rfl
  · -- a list of `i` entries without room to spare has to double it
    intro hreserve
    have hfull := hreserve i
    rw [checkedReserve, if_neg (by omega)] at hfull
    by_cases hfits : size * max 4 (max (2 * i) (i + 1)) ≤ byteLimit
    · exact Nat.le_trans (Nat.mul_le_mul_left size (by omega)) hfits
    · simp [hfits] at hfull

/-- No room makes up for more bytes than a list can take up. -/
theorem checkedReserve_eq_none {size room length : Nat} (hroom : size * room ≤ byteLimit)
    (hlength : byteLimit < size * length) : checkedReserve size room length = none := by
  have hmore : ¬ length ≤ room := by
    intro h
    have hle := Nat.mul_le_mul_left size h
    omega
  have hgrown : size * length ≤ size * max 4 (max (2 * room) length) :=
    Nat.mul_le_mul_left size (by omega)
  rw [checkedReserve, if_neg hmore]
  exact if_neg (by omega)

theorem rightpad_of_lt {α : Type} {l : List α} {i : Nat} (h : i < l.length) (a : α) :
    l.rightpad (i + 1) a = l := by
  have hnone : i + 1 - l.length = 0 := by omega
  rw [List.rightpad, hnone, List.replicate_zero, List.append_nil]

theorem checkedGrow_eq {α : Type} {size : Nat} (hpos : 0 < size) (hsize : size * 4 ≤ byteLimit)
    (spare : Nat) {l : List α} {i : Nat} (a : α) (h : l.length ≤ i → i < indexLimit size) :
    checkedGrow size spare l i a = some (l.rightpad (i + 1) a) := by
  unfold checkedGrow
  split
  · next hi => rw [rightpad_of_lt hi]
  · next hi =>
    have hlimit := h (Nat.le_of_not_lt hi)
    have hcount : i + 1 < Word.countLimit := by
      have hle := Nat.div_le_self byteLimit (2 * size)
      have hbytes : byteLimit + 1 < Word.countLimit := by decide
      unfold indexLimit at hlimit
      omega
    obtain ⟨room, hroom⟩ := Option.isSome_iff_exists.mp
      ((lt_indexLimit_iff hpos hsize i).mp hlimit (l.length + spare))
    rw [Word.checkedSucc, if_pos hcount]
    simp only [Option.bind_eq_bind, Option.bind_some, hroom]
    rfl

theorem checkedGrow_eq_none {α : Type} {size spare : Nat} {l : List α} {i : Nat} (a : α)
    (hroom : size * (l.length + spare) ≤ byteLimit) (hi : l.length ≤ i)
    (hbytes : byteLimit < size * (i + 1)) : checkedGrow size spare l i a = none := by
  rw [checkedGrow, if_neg (Nat.not_lt.mpr hi), Word.checkedSucc]
  split
  · simp only [Option.bind_eq_bind, Option.bind_some, checkedReserve_eq_none hroom hbytes,
      Option.bind_none]
  · rfl

theorem eq_rightpad_of_checkedGrow {α : Type} {size spare : Nat} {l k : List α} {i : Nat} {a : α}
    (h : checkedGrow size spare l i a = some k) : k = l.rightpad (i + 1) a := by
  unfold checkedGrow at h
  split at h
  · next hi => rw [rightpad_of_lt hi, Option.some.inj h]
  · simp only [Word.checkedSucc, Option.bind_eq_bind, Option.bind_eq_some_iff] at h
    obtain ⟨length, hlength, _, _, hk⟩ := h
    split at hlength
    · cases hlength
      exact (Option.some.inj hk).symm
    · cases hlength

theorem getElem?_rightpad_rows (f : Playfield) (y : Nat) :
    (f.rows.rightpad (y + 1) [])[y]? = some (f.row y) := by
  have hpad := getD_rightpad f.rows (y + 1) y []
  rw [List.getD_eq_getElem?_getD] at hpad
  rw [row, ← hpad, List.getElem?_eq_getElem (lt_length_rightpad f.rows y [])]
  rfl

/-- The list has been grown before it is indexed. -/
theorem checkedWrite_eq {p : Position} (c : Cell) (hgrow : ¬ f.Overgrows p) :
    f.checkedWrite spare p c = some (f.write p c) := by
  simp only [Overgrows, not_or, not_and, Nat.not_le] at hgrow
  have hrows := checkedGrow_eq (by decide) (by decide) (spare.rows f) [] hgrow.1
  have hcells := checkedGrow_eq (by decide) (by decide) (spare.cells f p.y) Cell.blank hgrow.2
  have hset : checkedSet ((f.row p.y).rightpad (p.x + 1) .blank) p.x c =
      some (((f.row p.y).rightpad (p.x + 1) .blank).set p.x c) :=
    if_pos (lt_length_rightpad (f.row p.y) p.x .blank)
  simp only [checkedWrite, hrows, Option.bind_eq_bind, Option.bind_some, getElem?_rightpad_rows,
    hcells, hset]
  rw [write, List.modify_eq_set, getElem?_rightpad_rows]
  rfl

/-- A write at `p` makes a row or the list of rows grow, and it would take up more bytes than a list
can. -/
def Exceeds (f : Playfield) (p : Position) : Prop :=
  (f.rowCount ≤ p.y ∧ byteLimit < rowBytes * (p.y + 1)) ∨
    (f.rowLength p.y ≤ p.x ∧ byteLimit < cellBytes * (p.x + 1))

/-- The lists of the playfield are in memory with the room they have to spare. -/
structure Spare.Fits (spare : Spare) (f : Playfield) : Prop where
  rows : rowBytes * (f.rowCount + spare.rows f) ≤ byteLimit
  cells : ∀ y, cellBytes * (f.rowLength y + spare.cells f y) ≤ byteLimit

theorem checkedWrite_eq_none {p : Position} (c : Cell) (hspare : spare.Fits f)
    (hp : f.Exceeds p) : f.checkedWrite spare p c = none := by
  unfold checkedWrite
  cases hrows : checkedGrow rowBytes (spare.rows f) f.rows p.y [] with
  | none => rfl
  | some rows =>
    rcases hp with ⟨hy, hbytes⟩ | ⟨hx, hbytes⟩
    · rw [checkedGrow_eq_none [] hspare.rows hy hbytes] at hrows
      cases hrows
    · rw [eq_rightpad_of_checkedGrow hrows]
      simp only [Option.bind_eq_bind, Option.bind_some, getElem?_rightpad_rows,
        checkedGrow_eq_none Cell.blank (hspare.cells p.y) hx hbytes, Option.bind_none]

end Playfield

/-! ## Moves -/

namespace Cursor

def checkedAdvance (f : Playfield) (c : Cursor) : Option (Except Stop Cursor) :=
  match c.requireRoom f with
  | .error s => some (.error s)
  | .ok () => do
    match ← f.checkedAdvance c.position c.direction with
    | some p => return .ok { c with position := p }
    | none => return .error .endless

def checkedScan (f : Playfield) : Nat → Cursor → Option (Except Stop Cursor)
  | 0, _ => some (.error .endless)
  | fuel + 1, c => do
    match ← c.checkedAdvance f with
    | .error s => return .error s
    | .ok c => if c.atMarker f then return .ok c else checkedScan f fuel c

def checkedJumpOver (f : Playfield) (c : Cursor) : Option (Except Stop Cursor) :=
  c.checkedScan f (f.extent c.position c.direction + 1)

def checkedPassMarkers (f : Playfield) : Nat → Cursor → Option (Except Stop Cursor)
  | 0, _ => some (.error .endless)
  | fuel + 1, c =>
    if c.atMarker f then do
      match ← c.checkedJumpOver f with
      | .error s => return .error s
      | .ok c =>
        match ← c.checkedAdvance f with
        | .error s => return .error s
        | .ok c => checkedPassMarkers f fuel c
    else some (.ok c)

def checkedStride (f : Playfield) (c : Cursor) : Option (Except Stop Cursor) := do
  match ← c.checkedAdvance f with
  | .error s => return .error s
  | .ok c => c.checkedPassMarkers f (f.extent c.position c.direction + 1)

def checkedJumpForward (f : Playfield) (n : Int64) (c : Cursor) : Option (Except Stop Cursor) :=
  match c.requireRoom f with
  | .error s => some (.error s)
  | .ok () => do
    let p ← f.checkedJump c.position c.direction n
    return .ok { c with position := p }

/-- The instructions that divide or move; the others neither divide nor look for a place. -/
def checkedAct (f : Playfield) (c : Cursor) : Instruction → Option (Cursor × Except Stop Effect)
  | .divide =>
    if c.operand 0 = 0 then
      some (c.drop 2, .error (.fault (.divisionByZero (c.operand 1) c.position)))
    else do
      let v ← Word.checkedFloorDiv (c.operand 1) (c.operand 0)
      return ((c.drop 2).push v, .ok .none)
  | .modulo =>
    if c.operand 0 = 0 then
      some (c.drop 2, .error (.fault (.moduloByZero (c.operand 1) c.position)))
    else do
      let v ← Word.checkedFloorMod (c.operand 1) (c.operand 0)
      return ((c.drop 2).push v, .ok .none)
  | .trampoline => do return c.moved (← c.checkedAdvance f)
  | .jumpOver => do return c.moved (← c.checkedJumpOver f)
  | .jumpForward => do return (c.drop 1).moved (← (c.drop 1).checkedJumpForward f (c.operand 0))
  | i => some (c.act f i)

variable {f : Playfield}

theorem checkedAdvance_eq (hf : f.Bounded) (c : Cursor) :
    c.checkedAdvance f = some (c.advance f) := by
  unfold checkedAdvance advance
  cases c.requireRoom f with
  | error s => rfl
  | ok u =>
    simp only [f.checkedAdvance_eq hf, Option.bind_eq_bind, Option.bind_some]
    cases f.advance? c.position c.direction <;> rfl

theorem checkedScan_eq (hf : f.Bounded) (fuel : Nat) (c : Cursor) :
    c.checkedScan f fuel = some (c.scan f fuel) := by
  induction fuel generalizing c with
  | zero => rfl
  | succ fuel ih =>
    rw [checkedScan, scan, checkedAdvance_eq hf]
    cases c.advance f with
    | error s => rfl
    | ok d =>
      simp only [Option.bind_eq_bind, Option.bind_some]
      split
      · rfl
      · exact ih d

theorem checkedJumpOver_eq (hf : f.Bounded) (c : Cursor) :
    c.checkedJumpOver f = some (c.jumpOver f) :=
  checkedScan_eq hf _ c

theorem checkedPassMarkers_eq (hf : f.Bounded) (fuel : Nat) (c : Cursor) :
    c.checkedPassMarkers f fuel = some (c.passMarkers f fuel) := by
  induction fuel generalizing c with
  | zero => rfl
  | succ fuel ih =>
    rw [checkedPassMarkers, passMarkers, checkedJumpOver_eq hf]
    split
    · cases c.jumpOver f with
      | error s => rfl
      | ok d =>
        simp only [Option.bind_eq_bind, Option.bind_some, checkedAdvance_eq hf]
        cases d.advance f with
        | error s => rfl
        | ok e => exact ih e
    · rfl

theorem checkedStride_eq (hf : f.Bounded) (c : Cursor) :
    c.checkedStride f = some (c.stride f) := by
  rw [checkedStride, stride, checkedAdvance_eq hf]
  cases c.advance f with
  | error s => rfl
  | ok d => exact checkedPassMarkers_eq hf _ d

theorem checkedJumpForward_eq (hf : f.Bounded) (n : Int64) (c : Cursor) :
    c.checkedJumpForward f n = some (c.jumpForward f n) := by
  unfold checkedJumpForward jumpForward
  cases c.requireRoom f with
  | error s => rfl
  | ok u =>
    simp only [f.checkedJump_eq hf]
    rfl

theorem checkedAct_eq (hf : f.Bounded) (c : Cursor) (i : Instruction) :
    c.checkedAct f i = some (c.act f i) := by
  cases i with
  | divide =>
    rw [checkedAct, act]
    split
    · rfl
    · next h => rw [Word.checkedFloorDiv_eq _ h]; rfl
  | modulo =>
    rw [checkedAct, act]
    split
    · rfl
    · next h => rw [Word.checkedFloorMod_eq _ h]; rfl
  | trampoline => rw [checkedAct, checkedAdvance_eq hf]; rfl
  | jumpOver => rw [checkedAct, checkedJumpOver_eq hf]; rfl
  | jumpForward => rw [checkedAct, checkedJumpForward_eq hf]; rfl
  | _ => rfl

end Cursor

/-! ## Turns and ticks -/

/-- The direction of a draw, looked up by its index. -/
def Direction.checkedOfDraw (i : Fin 4) : Option Direction := all[i.val]?

theorem Direction.checkedOfDraw_eq (i : Fin 4) : checkedOfDraw i = some (ofDraw i) :=
  List.getElem?_eq_getElem i.isLt

namespace Machine

def checkedPut (m : Machine) (spare : Playfield.Spare) (x y value : Int64)
    (location : Position) : Option (Except Stop Unit × Machine) :=
  match Position.ofWords? x y with
  | none => some (.ok (), m.report (.putIgnored x y value location))
  | some p => do
    let f ← m.field.checkedWrite spare p (.ofValue value)
    return (.ok (), { m with field := f })

def checkedFork (m : Machine) (parent : Cursor) : Option (Except Stop Unit × Machine) := do
  let d := parent.direction.opposite
  match ← m.field.checkedAdvance parent.position d with
  | none => return (.error .endless, m)
  | some p =>
    let m := m.report (.cursorForked parent.position p d)
    return (.ok (), { m with cursors := { position := p, direction := d } :: m.cursors })

/-- The requests that reach the playfield or pick a direction; the others ask for nothing of
the kind. -/
def checkedPerform (m : Machine) (spare : Playfield.Spare) (c : Cursor) (location : Position) :
    Effect → Option Turn
  | .put x y value => do
    let (result, n) ← m.checkedPut spare x y value location
    return ⟨n, c, result⟩
  | .fork => do
    let (result, n) ← m.checkedFork c
    return ⟨n, c, result⟩
  | .goRandom => do
    let d ← Direction.checkedOfDraw m.random.draw.1
    return ⟨{ m with random := m.random.draw.2 }, { c with direction := d }, .ok ()⟩
  | e => some (m.perform c location e)

def checkedExecute (m : Machine) (spare : Playfield.Spare) (c : Cursor) (i : Instruction) :
    Option Turn := do
  match ← c.checkedAct m.field i with
  | (after, .ok effect) => m.checkedPerform spare after c.position effect
  | (after, .error s) => return ⟨m, after, .error s⟩

def checkedMeet (m : Machine) (spare : Playfield.Spare) (c : Cursor) (cell : Cell) :
    Option Turn :=
  if c.mode = .literal then some (m.meet c cell)
  else
    match Instruction.ofCell? cell with
    | some i => m.checkedExecute spare c i
    | none => some (m.meet c cell)

def checkedTurn (m : Machine) (spare : Playfield.Spare) (c : Cursor) : Option Turn :=
  let cell := m.field.read c.position
  let c := { c with last := cell }
  if c.isTerminated then some ⟨m, c, .ok ()⟩
  else do
    let t ← m.checkedMeet spare c cell
    match t.result with
    | .error _ => return t
    | .ok () =>
      match ← t.cursor.checkedStride t.machine.field with
      | .ok c => return { t with cursor := c }
      | .error s => return { t with result := .error s }

def checkedTurns (m : Machine) (spare : Playfield.Spare) :
    List Cursor → Option (Except Stop Unit × List Cursor × Machine)
  | [] => some (.ok (), [], m)
  | c :: rest => do
    let t ← m.checkedTurn spare c
    match t.result with
    | .error s => return (.error s, t.cursor :: rest, t.machine)
    | .ok () =>
      let (result, after, last) ← t.machine.checkedTurns spare rest
      return (result, t.cursor :: after, last)

def checkedTick (m : Machine) (spare : Playfield.Spare) :
    Option (Except Stop Unit × Machine) := do
  let (result, after, last) ← m.opened.checkedTurns spare m.cursors
  let ticks ← Word.checkedSucc last.ticks
  return (result, { last.close after with ticks := ticks })

variable {m : Machine} {spare : Playfield.Spare}

theorem checkedPut_eq {x y value : Int64} {l : Position}
    (h : (m.put x y value l).1 ≠ .error .outOfMemory) :
    m.checkedPut spare x y value l = some (m.put x y value l) := by
  unfold checkedPut
  unfold put at h ⊢
  cases hp : Position.ofWords? x y with
  | none => rfl
  | some p =>
    by_cases hgrow : m.field.Overgrows p
    · simp [hp, Playfield.write?, hgrow] at h
    · simp only [Playfield.write?_of_not_overgrows hgrow, Playfield.checkedWrite_eq _ hgrow]
      rfl

theorem checkedFork_eq (hm : m.field.Bounded) (c : Cursor) :
    m.checkedFork c = some (m.fork c) := by
  simp only [checkedFork, fork, m.field.checkedAdvance_eq hm, Option.bind_eq_bind,
    Option.bind_some]
  cases m.field.advance? c.position c.direction.opposite <;> rfl

theorem checkedPerform_eq (hm : m.field.Bounded) {c : Cursor} {l : Position} {e : Effect}
    (h : (m.perform c l e).result ≠ .error .outOfMemory) :
    m.checkedPerform spare c l e = some (m.perform c l e) := by
  unfold checkedPerform
  cases e with
  | put x y value =>
    simp only [checkedPut_eq h]
    rfl
  | fork =>
    simp only [checkedFork_eq hm]
    rfl
  | goRandom =>
    simp only [Direction.checkedOfDraw_eq]
    rfl
  | _ => rfl

theorem checkedExecute_eq (hm : m.field.Bounded) {c : Cursor} {i : Instruction}
    (h : (m.execute c i).result ≠ .error .outOfMemory) :
    m.checkedExecute spare c i = some (m.execute c i) := by
  rw [checkedExecute, Cursor.checkedAct_eq hm]
  rw [execute] at h ⊢
  rcases hact : c.act m.field i with ⟨after, _ | e⟩
  · rfl
  · rw [hact] at h
    exact checkedPerform_eq hm h

theorem checkedMeet_eq (hm : m.field.Bounded) {c : Cursor} {cell : Cell}
    (h : (m.meet c cell).result ≠ .error .outOfMemory) :
    m.checkedMeet spare c cell = some (m.meet c cell) := by
  unfold checkedMeet
  split
  · rfl
  · next hmode =>
    cases hi : Instruction.ofCell? cell with
    | none => rfl
    | some i =>
      simp only [meet, if_neg hmode, hi] at h ⊢
      exact checkedExecute_eq hm h

/-- The turn of a live cursor is stopped where its instruction or its move is. -/
theorem checkedTurn_of_live {c : Cursor} (h : c.mode ≠ .terminated) :
    m.checkedTurn spare c =
      (m.checkedMeet spare (m.seen c) (m.field.read c.position)).bind fun t =>
        match t.result with
        | .error _ => some t
        | .ok () =>
          (t.cursor.checkedStride t.machine.field).bind fun
            | .ok d => some { t with cursor := d }
            | .error s => some { t with result := .error s } := by
  have hlive : (m.seen c).isTerminated = false := by
    simp [Cursor.isTerminated, seen, h]
  exact if_neg (ne_true_of_eq_false hlive)

theorem checkedTurn_eq (hm : m.field.Bounded) {c : Cursor}
    (h : (m.turn c).result ≠ .error .outOfMemory) :
    m.checkedTurn spare c = some (m.turn c) := by
  by_cases hterm : c.mode = .terminated
  · rw [turn_of_terminated m c hterm]
    exact if_pos (by simp [Cursor.isTerminated, hterm])
  · have hafter := stored_footing.turn_field (c := c) hm
    rw [turn_machine m c hterm] at hafter
    rw [turn_of_live m c hterm] at h ⊢
    have hmet : (m.met c).result ≠ .error .outOfMemory := by
      intro hmet
      simp only [hmet] at h
      exact h rfl
    have hmeet : m.checkedMeet spare (m.seen c) (m.field.read c.position) = some (m.met c) :=
      checkedMeet_eq hm hmet
    rw [checkedTurn_of_live hterm, hmeet, Option.bind_some]
    -- the move goes over the playfield that the instruction leaves, which is bounded as well
    generalize m.met c = t at hafter ⊢
    obtain ⟨n, d, s | u⟩ := t
    · rfl
    · simp only [Cursor.checkedStride_eq hafter, Option.bind_some]
      cases d.stride n.field <;> rfl

theorem checkedTurns_eq (hm : m.field.Bounded) {cs : List Cursor}
    (h : (m.turns cs).1 ≠ .error .outOfMemory) :
    m.checkedTurns spare cs = some (m.turns cs) := by
  induction cs generalizing m with
  | nil => rfl
  | cons c cs ih =>
    cases hresult : (m.turn c).result with
    | error s =>
      rw [turns_cons_error m hresult] at h ⊢
      rw [checkedTurns, checkedTurn_eq hm (hresult ▸ h)]
      simp only [Option.bind_eq_bind, Option.bind_some, hresult]
      rfl
    | ok u =>
      rw [turns_cons_ok m hresult] at h ⊢
      rw [checkedTurns, checkedTurn_eq hm (by simp [hresult])]
      -- the turn may have grown the playfield, but not beyond the limit
      simp only [Option.bind_eq_bind, Option.bind_some, hresult,
        ih (stored_footing.turn_field hm) h]
      rfl

theorem checkedTick_eq (hm : m.field.Bounded) (hticks : m.ticks + 1 < Word.countLimit)
    (h : m.tick.1 ≠ .error .outOfMemory) : m.checkedTick spare = some m.tick := by
  have hlast : (m.opened.turns m.cursors).2.2.ticks + 1 < Word.countLimit := by
    rw [(turns_constants m.opened m.cursors).2]
    exact hticks
  rw [checkedTick, checkedTurns_eq (m := m.opened) hm h]
  simp only [Option.bind_eq_bind, Option.bind_some, Word.checkedSucc, if_pos hlast]
  rfl

end Machine

end Funge
