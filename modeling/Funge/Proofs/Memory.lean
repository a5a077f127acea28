import Funge.Proofs.Turn

/-!
The playfield as the memory of a program. A get after a put finds the value put, if it looks at the
place of the put, and else what it would have found before. A put enlarges the playfield just far
enough for its place, and what it adds reads as what was read there before.
-/

namespace Funge

/-- A value can be got back from the cell that it is stored as. -/
theorem Cell.code_ofValue (v : Int64) : (Cell.ofValue v).code = v := by
  unfold ofValue
  split
  · next hprint =>
    have hlow : 32 ≤ v.toInt := Int64.le_iff_toInt_le.mp hprint.1
    have hhigh : v.toInt ≤ 126 := Int64.le_iff_toInt_le.mp hprint.2
    have hcodes : ∀ n < 127, (Char.ofNat n).toNat = n := by decide
    rw [code, hcodes v.toInt.toNat (by omega)]
    apply Int64.toInt_inj.mp
    rw [Int64.toInt_ofNat_of_lt (by omega)]
    omega
  · rfl

theorem Word.toNat_inj {a b : Int64} (ha : 0 ≤ a) (hb : 0 ≤ b) :
    a.toInt.toNat = b.toInt.toNat ↔ a = b := by
  have ha' : 0 ≤ a.toInt := Int64.le_iff_toInt_le.mp ha
  have hb' : 0 ≤ b.toInt := Int64.le_iff_toInt_le.mp hb
  rw [← Int64.toInt_inj]
  omega

namespace Position

theorem ofWords?_of_nonneg {x y : Int64} (hx : 0 ≤ x) (hy : 0 ≤ y) :
    ofWords? x y = some ⟨x.toInt.toNat, y.toInt.toNat⟩ := if_pos ⟨hx, hy⟩

theorem ofWords?_of_negative {x y : Int64} (h : ¬ (0 ≤ x ∧ 0 ≤ y)) : ofWords? x y = none :=
  if_neg h

/-- Coordinates that address a place address no other. -/
theorem ofWords?_eq_some_iff {x y : Int64} (hx : 0 ≤ x) (hy : 0 ≤ y) (x' y' : Int64) :
    ofWords? x' y' = some ⟨x.toInt.toNat, y.toInt.toNat⟩ ↔ x' = x ∧ y' = y := by
  constructor
  · intro h
    unfold ofWords? at h
    split at h
    · next hnonneg =>
      rw [Option.some.injEq, mk.injEq] at h
      exact ⟨(Word.toNat_inj hnonneg.1 hx).mp h.1, (Word.toNat_inj hnonneg.2 hy).mp h.2⟩
    · cases h
  · rintro ⟨rfl, rfl⟩
    exact ofWords?_of_nonneg hx hy

end Position

namespace Playfield

/-- The second playfield has room for `p`, and just as much more than the first as that takes. -/
structure Grown (f g : Playfield) (p : Position) : Prop where
  rows : g.rowCount = max f.rowCount (p.y + 1)
  row : g.rowLength p.y = max (f.rowLength p.y) (p.x + 1)
  others : ∀ y, y ≠ p.y → g.rowLength y = f.rowLength y

theorem grown_write (f : Playfield) (p : Position) (c : Cell) : f.Grown (f.write p c) p where
  rows := rowCount_write f p c
  row := by rw [rowLength_write, if_pos rfl]
  others y hy := by rw [rowLength_write, if_neg hy]

end Playfield

namespace Machine

variable (m : Machine) {x y : Int64} (v : Int64) (l : Position)

theorem put_of_negative (h : ¬ (0 ≤ x ∧ 0 ≤ y)) :
    m.put x y v l = (.ok (), m.report (.putIgnored x y v l)) := by
  rw [put, Position.ofWords?_of_negative h]

theorem put_of_nonneg (hx : 0 ≤ x) (hy : 0 ≤ y)
    (hroom : ¬ m.field.Overgrows ⟨x.toInt.toNat, y.toInt.toNat⟩) :
    m.put x y v l =
      (.ok (), { m with field := m.field.write ⟨x.toInt.toNat, y.toInt.toNat⟩ (.ofValue v) }) := by
  rw [put, Position.ofWords?_of_nonneg hx hy]
  simp only [Playfield.write?_of_not_overgrows hroom]

theorem fetch_put
    (hroom : 0 ≤ x ∧ 0 ≤ y → ¬ m.field.Overgrows ⟨x.toInt.toNat, y.toInt.toNat⟩) (x' y' : Int64) :
    Cursor.fetch (m.put x y v l).2.field x' y' =
      if (x' = x ∧ y' = y) ∧ 0 ≤ x ∧ 0 ≤ y then v else Cursor.fetch m.field x' y' := by
  by_cases hnonneg : 0 ≤ x ∧ 0 ≤ y
  · have hplace := Position.ofWords?_eq_some_iff hnonneg.1 hnonneg.2 x' y'
    rw [put_of_nonneg m v l hnonneg.1 hnonneg.2 (hroom hnonneg), Cursor.fetch, Cursor.fetch]
    cases hwords : Position.ofWords? x' y' with
    | none =>
      rw [hwords] at hplace
      rw [if_neg (fun h => nomatch hplace.mpr h.1)]
    | some q =>
      rw [hwords, Option.some.injEq] at hplace
      simp only [Playfield.read_write, hplace]
      by_cases hsame : x' = x ∧ y' = y
      · rw [if_pos hsame, if_pos ⟨hsame, hnonneg⟩, Cell.code_ofValue]
      · rw [if_neg hsame, if_neg (fun h => hsame h.1)]
  · rw [put_of_negative m v l hnonneg, if_neg (fun h => hnonneg h.2)]
    rfl

theorem execute_put (c : Cursor) (s : Stack) (x y v : Int64) :
    m.execute { c with stack := ((s.push y).push x).push v } .put =
      ⟨(m.put x y v c.position).2, { c with stack := s }, (m.put x y v c.position).1⟩ := rfl

theorem execute_get (c : Cursor) (s : Stack) (x y : Int64) :
    m.execute { c with stack := (s.push y).push x } .get =
      ⟨m, { c with stack := s.push (Cursor.fetch m.field x y) }, .ok ()⟩ := rfl

/-- **Put and get form a memory.** After a put of `v` at the coordinates `x` and `y`, for which
nothing has to grow beyond the limits of rows and columns, a get at `x'` and `y'` pushes `v` if
these are the same coordinates and address a place, and else the value `w` that it would have pushed
without the put. A put with a negative coordinate leaves the playfield as it is; any other makes
room for its place and for nothing more. -/
theorem get_after_put (m : Machine) (c d : Cursor) (s t : Stack) (v : Int64) {x y : Int64}
    (hroom : 0 ≤ x ∧ 0 ≤ y → ¬ m.field.Overgrows ⟨x.toInt.toNat, y.toInt.toNat⟩)
    (x' y' : Int64) :
    let putting := m.execute { c with stack := ((s.push y).push x).push v } .put
    let getting (n : Machine) := n.execute { d with stack := (t.push y').push x' } .get
    putting.result = .ok () ∧ putting.cursor = { c with stack := s } ∧
    (∃ w, getting m = ⟨m, { d with stack := t.push w }, .ok ()⟩ ∧
      getting putting.machine =
        ⟨putting.machine,
          { d with stack := t.push (if (x' = x ∧ y' = y) ∧ 0 ≤ x ∧ 0 ≤ y then v else w) },
          .ok ()⟩) ∧
    (¬ (0 ≤ x ∧ 0 ≤ y) → putting.machine.field = m.field) ∧
    (0 ≤ x ∧ 0 ≤ y →
      m.field.Grown putting.machine.field ⟨x.toInt.toNat, y.toInt.toNat⟩) := by
  intro putting getting
  have hput : putting = _ := execute_put m c s x y v
  have hget : ∀ n, getting n = _ := fun n => execute_get n d t x' y'
  have hresult : (m.put x y v c.position).1 = .ok () := by
    by_cases hnonneg : 0 ≤ x ∧ 0 ≤ y
    · rw [put_of_nonneg m v _ hnonneg.1 hnonneg.2 (hroom hnonneg)]
    · rw [put_of_negative m v _ hnonneg]
  rw [hput]
  refine ⟨hresult, rfl, ⟨_, hget m, ?_⟩, fun hnegative => ?_, fun hnonneg => ?_⟩
  · rw [hget, fetch_put m v _ hroom]
  · rw [put_of_negative m v _ hnegative]
    rfl
  · rw [put_of_nonneg m v _ hnonneg.1 hnonneg.2 (hroom hnonneg)]
    exact m.field.grown_write _ _

/-- A program of a single cell. -/
def notebook : Machine := start ⟨[[.char 'p']]⟩ {} {} 0

/-- A put of seven into the second row, which is not there yet, at column five. -/
def entered : Machine :=
  (notebook.execute { Cursor.initial with stack := ⟨[7, 5, 1]⟩ } .put).machine

/-- The stack of a cursor that gets the value at a place. -/
def looked (m : Machine) (x y : Int64) : Stack :=
  (m.execute { Cursor.initial with stack := ⟨[x, y]⟩ } .get).cursor.stack

/-- The seven is found at its place, and nothing new in the padding before it or at a negative
column. -/
theorem get_after_put_padding :
    ¬ notebook.field.Overgrows ⟨5, 1⟩ ∧
      looked entered 5 1 = ⟨[7]⟩ ∧ looked entered 3 1 = looked notebook 3 1 ∧
      looked entered (-1) 1 = looked notebook (-1) 1 ∧ entered.field.rowLength 1 = 6 := by
  have hroom : ¬ notebook.field.Overgrows ⟨5, 1⟩ := by decide
  have hget := fun x' y' => get_after_put notebook .initial .initial .empty .empty 7
    (x := 5) (y := 1) (fun _ => hroom) x' y'
  have helsewhere : ∀ x' y', ¬ (x' = 5 ∧ y' = 1) →
      looked entered x' y' = looked notebook x' y' := by
    intro x' y' hother
    obtain ⟨w, hbefore, hafter⟩ := (hget x' y').2.2.1
    rw [if_neg (fun h => hother h.1)] at hafter
    exact (congrArg (·.cursor.stack) hafter).trans (congrArg (·.cursor.stack) hbefore).symm
  refine ⟨hroom, ?_, helsewhere 3 1 (by decide), helsewhere (-1) 1 (by decide), ?_⟩
  · obtain ⟨w, _, hafter⟩ := (hget 5 1).2.2.1
    rw [if_pos (by decide)] at hafter
    exact congrArg (·.cursor.stack) hafter
  · exact ((hget 5 1).2.2.2.2 (by decide)).row

/-- There is no memory for column `2 ^ 59`, though it is within the length limit: a put there fails,
and nothing is found there. -/
theorem put_fails_below_lengthLimit :
    let failing :=
      notebook.execute { Cursor.initial with stack := ⟨[7, 0x800000000000000, 0]⟩ } .put
    (0x800000000000000 : Int64).toInt < Playfield.lengthLimit ∧
      failing.result = .error .outOfMemory ∧ failing.machine.field = notebook.field ∧
      looked failing.machine 0x800000000000000 0 = ⟨[32]⟩ :=
  ⟨by decide, rfl, rfl, rfl⟩

end Machine

end Funge
