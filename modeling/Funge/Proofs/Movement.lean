import Mathlib.Logic.Function.Iterate
import Funge.Cursor.Motion
import Funge.Proofs.Playfield
import Funge.Proofs.Word

/-!
Moves that find a cell. A vertical step searches the rows one after another around
their cycle, so it finds a row as soon as there is one that reaches the column; from a
stored cell there always is. Every move of a cursor is a series of such steps.
-/

namespace Funge

/-- Whether a direction counts columns or rows upwards or downwards. -/
def Direction.sense : Direction → Int
  | right | down => 1
  | left | up => -1

theorem Direction.toInt_step (d : Direction) : d.step.toInt = d.sense := by
  cases d <;> rfl

/-- Steps around a cycle add up. -/
theorem Word.wrap_iterate (d : Direction) {i len : Nat} (hi : i < len)
    (hlen : len ≤ Playfield.lengthLimit) (k : Nat) :
    ((fun i => wrap i d.step len)^[k] i : Int) = (i + d.step.toInt * k) % len ∧
      (fun i => wrap i d.step len)^[k] i < len := by
  have hlimit : Playfield.lengthLimit = 2 ^ 60 := rfl
  induction k with
  | zero =>
    refine ⟨?_, hi⟩
    change (i : Int) = _
    rw [Int.emod_eq_of_lt (by simp) (by simpa using hi)]
    simp
  | succ k ih =>
    obtain ⟨hval, hlt⟩ := ih
    rw [Function.iterate_succ_apply']
    refine ⟨?_, wrap_lt _ _ (by omega) (by omega)⟩
    rw [wrap_cast_of_lt _ (by omega) (by omega) (by omega), hval, Int.emod_add_emod]
    congr 1
    rw [Int.add_assoc]
    congr 1
    push_cast
    rw [Int.mul_add, Int.mul_one]

namespace Playfield

/-- The row that a vertical search looks at after row `y`. -/
def nextRow (f : Playfield) (step : Int64) (y : Nat) : Nat := Word.wrap y step f.rowCount

theorem seekRow_reaches {f : Playfield} {x : Nat} {step : Int64} {fuel y z : Nat}
    (h : f.seekRow x step fuel y = some z) : x < f.rowLength z := by
  induction fuel generalizing y with
  | zero => simp [seekRow] at h
  | succ fuel ih =>
    rw [seekRow] at h
    split at h
    · next hx =>
      rw [← Option.some.inj h]
      exact hx
    · exact ih h

theorem seekRow_eq_none_iff (f : Playfield) (x : Nat) (step : Int64) (fuel y : Nat) :
    f.seekRow x step fuel y = none ↔ ∀ k < fuel, f.rowLength ((f.nextRow step)^[k] y) ≤ x := by
  induction fuel generalizing y with
  | zero => simp [seekRow]
  | succ fuel ih =>
    rw [seekRow]
    split
    · next hx =>
      simp only [reduceCtorEq, false_iff]
      intro hall
      have h0 : f.rowLength y ≤ x := hall 0 (by omega)
      omega
    · next hx =>
      change f.seekRow x step fuel (f.nextRow step y) = none ↔ _
      rw [ih]
      constructor
      · intro hall k hk
        cases k with
        | zero =>
          change f.rowLength y ≤ x
          omega
        | succ k => exact hall k (by omega)
      · intro hall k hk
        exact hall (k + 1) (by omega)

theorem nextRow_iterate (f : Playfield) (hrows : f.rowCount ≤ lengthLimit) (d : Direction)
    {y : Nat} (hy : y < f.rowCount) (k : Nat) :
    ((f.nextRow d.step)^[k] y : Int) = (y + d.step.toInt * k) % f.rowCount ∧
      (f.nextRow d.step)^[k] y < f.rowCount :=
  Word.wrap_iterate d hy hrows k

/-- A search that looks at as many rows as there are looks at all of them. -/
theorem exists_nextRow_iterate_eq (f : Playfield) (hrows : f.rowCount ≤ lengthLimit)
    (d : Direction) {y z : Nat} (hy : y < f.rowCount) (hz : z < f.rowCount) :
    ∃ k < f.rowCount, (f.nextRow d.step)^[k] y = z := by
  have hpos : 0 < (f.rowCount : Int) := by omega
  let k := (d.step.toInt * (z - y)) % (f.rowCount : Int)
  have h0 : 0 ≤ k := Int.emod_nonneg _ (by omega)
  have h1 : k < f.rowCount := Int.emod_lt_of_pos _ hpos
  have hcast : (k.toNat : Int) = k := Int.toNat_of_nonneg h0
  refine ⟨k.toNat, by omega, ?_⟩
  have hval := (nextRow_iterate f hrows d hy k.toNat).1
  have hsquare : d.step.toInt * (d.step.toInt * (z - y)) = (z : Int) - y := by
    rw [d.toInt_step]
    cases d <;> simp only [Direction.sense] <;> omega
  have hz' : ((y : Int) + d.step.toInt * k) % f.rowCount = z := by
    rw [Int.add_emod, Int.mul_emod, Int.emod_emod, ← Int.mul_emod, hsquare, ← Int.add_emod,
      show (y : Int) + (z - y) = z by omega, Int.emod_eq_of_lt (by omega) (by omega)]
  rw [hcast, hz'] at hval
  exact_mod_cast hval

/-- A move from `p` finds a cell: it wraps around a row that has one, or passes a row that
reaches the column. -/
def Movable (f : Playfield) (p : Position) (d : Direction) : Prop :=
  if d.isHorizontal then 0 < f.rowLength p.y else ∃ y, p.x < f.rowLength y

theorem Stored.movable {f : Playfield} {p : Position} (h : f.Stored p) (d : Direction) :
    f.Movable p d := by
  unfold Movable
  split
  · exact Nat.lt_of_le_of_lt (Nat.zero_le _) h
  · exact ⟨p.y, h⟩

theorem advance?_of_movable {f : Playfield} (hf : f.Bounded) {p : Position} {d : Direction}
    (h : f.Movable p d) : ∃ q, f.advance? p d = some q ∧ f.Stored q := by
  unfold Movable at h
  unfold advance?
  split at h
  · next hd =>
    have hlen : f.rowLength p.y ≤ 2 ^ 60 := hf.cells p.y
    rw [if_pos hd]
    exact ⟨_, rfl, Word.wrap_lt _ _ h (by omega)⟩
  · next hd =>
    obtain ⟨z, hz⟩ := h
    have hzlt := lt_rowCount_of_lt_rowLength hz
    have hrows : f.rowCount ≤ 2 ^ 60 := hf.rows
    rw [if_neg hd, if_neg (by omega)]
    have hy : Word.wrap p.y d.step f.rowCount < f.rowCount :=
      Word.wrap_lt _ _ (by omega) (by omega)
    cases hseek : f.seekRow p.x d.step f.rowCount (Word.wrap p.y d.step f.rowCount) with
    | none =>
      obtain ⟨k, hk, hkz⟩ := exists_nextRow_iterate_eq f hf.rows d hy hzlt
      have hshort := (seekRow_eq_none_iff _ _ _ _ _).mp hseek k hk
      rw [hkz] at hshort
      omega
    | some y =>
      refine ⟨⟨p.x, y⟩, ?_, seekRow_reaches hseek⟩
      simp only [hseek, Option.map_some]

theorem Movable.extent_pos {f : Playfield} {p : Position} {d : Direction} (h : f.Movable p d) :
    0 < f.extent p d := by
  unfold Movable at h
  unfold extent
  split at h
  · next hd =>
    rw [if_pos hd]
    exact h
  · next hd =>
    obtain ⟨z, hz⟩ := h
    have := lt_rowCount_of_lt_rowLength hz
    rw [if_neg hd]
    omega

/-- A jump lands in a row that may be too short, but the move after it goes the same way. -/
theorem jump_movable {f : Playfield} {p : Position} (h : f.Stored p)
    (d : Direction) (n : Int64) : f.Movable (f.jump p d n) d := by
  unfold Stored at h
  unfold Movable jump
  by_cases hd : d.isHorizontal
  · simp only [hd, ↓reduceIte]
    omega
  · simp only [hd, Bool.false_eq_true, ↓reduceIte]
    exact ⟨p.y, h⟩

end Playfield

namespace Cursor

/-- `n` steps one after another. -/
def walk (f : Playfield) : Nat → Cursor → Except Stop Cursor
  | 0, c => .ok c
  | n + 1, c =>
    match c.advance f with
    | .error s => .error s
    | .ok c => walk f n c

variable {f : Playfield} {c : Cursor}

theorem requireRoom_of_movable (h : f.Movable c.position c.direction) :
    c.requireRoom f = .ok () := by
  have hpos := h.extent_pos
  rw [requireRoom, if_neg (by omega)]

theorem advance_of_movable (hf : f.Bounded) (h : f.Movable c.position c.direction) :
    ∃ q, f.Stored q ∧ c.advance f = .ok { c with position := q } := by
  obtain ⟨q, hq, hstored⟩ := Playfield.advance?_of_movable hf h
  refine ⟨q, hstored, ?_⟩
  rw [advance, requireRoom_of_movable h]
  simp only [hq]

theorem walk_of_movable (hf : f.Bounded) (n : Nat) (h : f.Movable c.position c.direction) :
    ∃ q, c.walk f n = .ok { c with position := q } := by
  induction n generalizing c with
  | zero => exact ⟨c.position, rfl⟩
  | succ n ih =>
    obtain ⟨p, hp, hadv⟩ := advance_of_movable hf h
    obtain ⟨q, hq⟩ := ih (c := { c with position := p }) (hp.movable _)
    refine ⟨q, ?_⟩
    rw [walk, hadv]
    exact hq

/-- A move brings the cursor to a place of `P` and changes nothing else of it, or it goes on
without end. -/
def LandsIn (P : Position → Prop) (c : Cursor) (r : Except Stop Cursor) : Prop :=
  r = .error .endless ∨ ∃ q, P q ∧ r = .ok { c with position := q }

/-- A step of the cursor from a place of `P` leads to a place of `P`. -/
def StaysIn (f : Playfield) (P : Position → Prop) (c : Cursor) : Prop :=
  ∀ p, P p → c.LandsIn P (advance f { c with position := p })

variable {P : Position → Prop}

theorem StaysIn.scan (hstep : c.StaysIn f P) (fuel : Nat) (hfirst : c.LandsIn P (c.advance f)) :
    c.LandsIn P (c.scan f fuel) := by
  induction fuel generalizing c with
  | zero => exact Or.inl rfl
  | succ fuel ih =>
    rw [Cursor.scan]
    rcases hfirst with hadv | ⟨p, hp, hadv⟩
    · rw [hadv]
      exact Or.inl rfl
    · rw [hadv]
      dsimp only
      split
      · exact Or.inr ⟨p, hp, rfl⟩
      · exact ih (c := { c with position := p }) hstep (hstep p hp)

theorem StaysIn.jumpOver (hstep : c.StaysIn f P) (hfirst : c.LandsIn P (c.advance f)) :
    c.LandsIn P (c.jumpOver f) :=
  hstep.scan _ hfirst

theorem StaysIn.passMarkers (hstep : c.StaysIn f P) (fuel : Nat) (hc : P c.position) :
    c.LandsIn P (c.passMarkers f fuel) := by
  induction fuel generalizing c with
  | zero => exact Or.inl rfl
  | succ fuel ih =>
    rw [Cursor.passMarkers]
    split
    · rcases hstep.jumpOver (hstep c.position hc) with hjump | ⟨p, hp, hjump⟩
      · rw [hjump]
        exact Or.inl rfl
      · rw [hjump]
        dsimp only
        rcases hstep p hp with hadv | ⟨q, hq, hadv⟩
        · rw [hadv]
          exact Or.inl rfl
        · rw [hadv]
          exact ih (c := { c with position := q }) hstep hq
    · exact Or.inr ⟨c.position, hc, rfl⟩

theorem StaysIn.stride (hstep : c.StaysIn f P) (hfirst : c.LandsIn P (c.advance f)) :
    c.LandsIn P (c.stride f) := by
  rw [Cursor.stride]
  rcases hfirst with hadv | ⟨p, hp, hadv⟩
  · rw [hadv]
    exact Or.inl rfl
  · rw [hadv]
    exact StaysIn.passMarkers (c := { c with position := p }) hstep _ hp

/-- A move that ends off the markers is over. -/
theorem stride_of_free {d : Cursor} (hstep : c.advance f = .ok d) (hfree : d.atMarker f = false) :
    c.stride f = .ok d := by
  simp [stride, hstep, passMarkers, hfree]

/-- A search along a path that meets its first marker after `n + 1` steps. -/
theorem scan_along (path : Nat → Position) {n fuel : Nat}
    (hsteps : ∀ i ≤ n, advance f { c with position := path i } =
      .ok { c with position := path (i + 1) })
    (hfree : ∀ i, 0 < i → i ≤ n → atMarker f { c with position := path i } = false)
    (hend : atMarker f { c with position := path (n + 1) } = true) (hfuel : n < fuel) :
    scan f fuel { c with position := path 0 } = .ok { c with position := path (n + 1) } := by
  induction n generalizing path fuel with
  | zero =>
    obtain ⟨fuel, rfl⟩ : ∃ k, fuel = k + 1 := ⟨fuel - 1, by omega⟩
    simp [scan, hsteps 0 (by omega), hend]
  | succ n ih =>
    obtain ⟨fuel, rfl⟩ : ∃ k, fuel = k + 1 := ⟨fuel - 1, by omega⟩
    have hrest := ih (fun i => path (i + 1)) (fun i hi => hsteps (i + 1) (by omega))
      (fun i _ hi => hfree (i + 1) (by omega) (by omega)) hend (show n < fuel by omega)
    simp [scan, hsteps 0 (by omega), hfree 1 (by omega) (by omega), hrest]

/-- A move that meets one marked stretch goes on behind it. -/
theorem stride_of_marked {a b d : Cursor} (hstep : c.advance f = .ok a)
    (hmark : a.atMarker f = true) (hextent : 0 < f.extent a.position a.direction)
    (hjump : a.jumpOver f = .ok b) (hnext : b.advance f = .ok d)
    (hfree : d.atMarker f = false) : c.stride f = .ok d := by
  obtain ⟨fuel, hfuel⟩ : ∃ k, f.extent a.position a.direction = k + 1 :=
    ⟨f.extent a.position a.direction - 1, by omega⟩
  simp [stride, hstep, hfuel, passMarkers, hmark, hjump, hnext, hfree]

theorem jumpForward_of_stored (h : f.Stored c.position) (n : Int64) :
    c.jumpForward f n = .ok { c with position := f.jump c.position c.direction n } := by
  rw [jumpForward, requireRoom_of_movable (h.movable c.direction)]

end Cursor

end Funge
