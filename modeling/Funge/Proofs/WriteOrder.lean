import Mathlib.Data.List.Basic
import Mathlib.Order.Nat
import Funge.Proofs.Playfield

/-!
The order of writes. Every write may lengthen the list of rows and one of the rows, so the same
writes in another order lead through other playfields. They end with the same one if the last
writes at each place are the same: the playfield has room for the places written, and no more,
and holds the last cell written at each.
-/

namespace Funge.Playfield

variable {f g k : Playfield} {ws vs : List (Position × Cell)} {p q : Position}

/-- Does the writes one after the other. There is no answer if one of them needs too much
memory. -/
def writeAll? (f : Playfield) : List (Position × Cell) → Option Playfield
  | [] => some f
  | (p, c) :: rest => (f.write? p c).bind fun g => g.writeAll? rest

/-- The cell that the last of the writes at `p` leaves there; none if there is no such write. -/
def lastWritten (p : Position) : List (Position × Cell) → Option Cell
  | [] => none
  | (q, c) :: rest => (lastWritten p rest).or (if q = p then some c else none)

theorem lastWritten_eq_none_iff : lastWritten p ws = none ↔ p ∉ ws.map Prod.fst := by
  induction ws with
  | nil => simp [lastWritten]
  | cons w rest ih =>
    simp only [lastWritten, Option.or_eq_none_iff, ih, List.map_cons, List.mem_cons, not_or]
    by_cases h : w.1 = p
    · simp [h]
    · simp [h, Ne.symm h]

/-- What writes make of `f`: there is room for their places and for nothing more, and every place
written holds the last cell written there. -/
structure Overwritten (f : Playfield) (ws : List (Position × Cell)) (g : Playfield) : Prop where
  rows : ∀ y, y < g.rowCount ↔ y < f.rowCount ∨ ∃ p ∈ ws.map Prod.fst, y ≤ p.y
  cells : ∀ q, g.Stored q ↔ f.Stored q ∨ ∃ p ∈ ws.map Prod.fst, q.y = p.y ∧ q.x ≤ p.x
  read : ∀ q, g.read q = (lastWritten q ws).getD (f.read q)

theorem overwritten_nil (f : Playfield) : f.Overwritten [] f where
  rows y := by simp
  cells q := by simp
  read q := rfl

/-- One write more, before the others. -/
theorem Overwritten.cons {c : Cell} (h : (f.write p c).Overwritten ws g) :
    f.Overwritten ((p, c) :: ws) g where
  rows y := by
    have hfirst : y < (f.write p c).rowCount ↔ y < f.rowCount ∨ y ≤ p.y := by
      rw [rowCount_write]
      omega
    rw [h.rows, hfirst, List.map_cons, List.exists_mem_cons_iff, or_assoc]
  cells q := by
    have hfirst : (f.write p c).Stored q ↔ f.Stored q ∨ q.y = p.y ∧ q.x ≤ p.x := by
      unfold Stored
      rw [rowLength_write]
      split <;> omega
    rw [h.cells, hfirst, List.map_cons, List.exists_mem_cons_iff, or_assoc]
  read q := by
    rw [h.read, read_write, lastWritten]
    -- a later write at the same place hides this one
    cases lastWritten q ws with
    | some c' => rfl
    | none =>
      by_cases hq : p = q
      · simp [hq]
      · simp [hq, Ne.symm hq]

/-- If there is memory for each of the places to begin with, the writes are all done. -/
theorem writeAll?_overwritten (f : Playfield) (hws : ∀ w ∈ ws, ¬ f.Overgrows w.1) :
    ∃ g, f.writeAll? ws = some g ∧ f.Overwritten ws g := by
  induction ws generalizing f with
  | nil => exact ⟨f, rfl, overwritten_nil f⟩
  | cons w rest ih =>
    obtain ⟨p, c⟩ := w
    rw [List.forall_mem_cons] at hws
    obtain ⟨g, hg, hwritten⟩ := ih (f.write p c) fun w hw => not_overgrows_write (hws.2 w hw) p c
    refine ⟨g, ?_, hwritten.cons⟩
    rw [writeAll?, write?_of_not_overgrows hws.1]
    exact hg

/-- The last cell written at each place decides what is left. -/
theorem Overwritten.unique (hg : f.Overwritten ws g) (hk : f.Overwritten vs k)
    (hlast : ∀ p, lastWritten p ws = lastWritten p vs) : k = g := by
  -- the places written are those with a last cell, and the shape depends on nothing else
  have hplaces : ∀ p, p ∈ ws.map Prod.fst ↔ p ∈ vs.map Prod.fst := by
    intro p
    rw [← not_iff_not, ← lastWritten_eq_none_iff, ← lastWritten_eq_none_iff, hlast]
  have hrows : ∀ y, y < k.rowCount ↔ y < g.rowCount := by
    intro y
    simp only [hk.rows, hg.rows, hplaces]
  have hcells : ∀ q, k.Stored q ↔ g.Stored q := by
    intro q
    simp only [hk.cells, hg.cells, hplaces]
  have hshape : g.SameShape k :=
    ⟨eq_of_forall_lt_iff hrows, fun y => eq_of_forall_lt_iff fun x => hcells ⟨x, y⟩⟩
  apply hshape.eq
  intro q
  rw [hk.read, hg.read, hlast]

theorem write_comm (f : Playfield) (hne : p ≠ q) (a b : Cell) :
    (f.write p a).write q b = (f.write q b).write p a := by
  have hpq : f.Overwritten [(p, a), (q, b)] _ := (overwritten_nil _).cons.cons
  have hqp : f.Overwritten [(q, b), (p, a)] _ := (overwritten_nil _).cons.cons
  apply hqp.unique hpq
  intro o
  simp only [lastWritten, Option.none_or]
  by_cases hp : p = o
  · simp [hp, show q ≠ o from fun hq => hne (hp.trans hq.symm)]
  · simp [hp]

theorem write_write (f : Playfield) (p : Position) (a b : Cell) :
    (f.write p a).write p b = f.write p b := by
  have htwice : f.Overwritten [(p, a), (p, b)] _ := (overwritten_nil _).cons.cons
  have honce : f.Overwritten [(p, b)] _ := (overwritten_nil _).cons
  apply honce.unique htwice
  intro o
  simp only [lastWritten, Option.none_or]
  split <;> rfl

/-- **The order of writes is immaterial.** Writes for which nothing has to grow beyond the limits of
rows and columns are all done. Two at different places give the same playfield in either order, and
of two at one place the last wins. Hence sequences of writes to the same places with the same last
cell at each give the same playfield: it has room for those places and no more, holds the last cell
written at each, and is otherwise as it was. -/
theorem order_of_writes_immaterial (f : Playfield) :
    (∀ p q a b, ¬ f.Overgrows p → ¬ f.Overgrows q → p ≠ q →
      ∃ g h k, f.write? p a = some g ∧ g.write? q b = some k ∧
        f.write? q b = some h ∧ h.write? p a = some k) ∧
    (∀ p a b, ¬ f.Overgrows p →
      ∃ g k, f.write? p a = some g ∧ g.write? p b = some k ∧ f.write? p b = some k) ∧
    (∀ ws vs : List (Position × Cell), (∀ w ∈ ws, ¬ f.Overgrows w.1) →
      (∀ w ∈ vs, ¬ f.Overgrows w.1) → (∀ p, lastWritten p ws = lastWritten p vs) →
      ∃ k, f.writeAll? ws = some k ∧ f.writeAll? vs = some k ∧ f.Overwritten ws k) := by
  refine ⟨?_, ?_, ?_⟩
  · intro p q a b hp hq hne
    refine ⟨_, _, _, write?_of_not_overgrows hp a,
      write?_of_not_overgrows (not_overgrows_write hq p a) b, write?_of_not_overgrows hq b, ?_⟩
    rw [write?_of_not_overgrows (not_overgrows_write hp q b) a, write_comm f hne]
  · intro p a b hp
    refine ⟨_, _, write?_of_not_overgrows hp a,
      write?_of_not_overgrows (not_overgrows_write hp p a) b, ?_⟩
    rw [write?_of_not_overgrows hp b, write_write]
  · intro ws vs hws hvs hlast
    obtain ⟨g, hg, hwritten⟩ := writeAll?_overwritten f hws
    obtain ⟨k, hk, hwritten'⟩ := writeAll?_overwritten f hvs
    rw [hwritten.unique hwritten' hlast] at hk
    exact ⟨g, hg, hk, hwritten⟩

/-- A single row of two cells. -/
def sketch : Playfield := ⟨[[.char 'a', .char 'b']]⟩

/-- What is left of the row after a write beyond its end and one below it. -/
def enlarged : Playfield :=
  ⟨[[.char 'a', .char 'b', .blank, .char 'x'], [], [.blank, .int 7]]⟩

/-- The two writes in either order, one of them repeated, and one made in place of another. -/
theorem order_of_writes_immaterial_sketch :
    (∃ g h, sketch.write? ⟨3, 0⟩ (.char 'x') = some g ∧ g.write? ⟨1, 2⟩ (.int 7) = some enlarged ∧
      sketch.write? ⟨1, 2⟩ (.int 7) = some h ∧ h.write? ⟨3, 0⟩ (.char 'x') = some enlarged) ∧
    (∃ g k, sketch.write? ⟨3, 0⟩ (.char 'y') = some g ∧ g.write? ⟨3, 0⟩ (.char 'x') = some k ∧
      sketch.write? ⟨3, 0⟩ (.char 'x') = some k) ∧
    sketch.writeAll? [(⟨3, 0⟩, .char 'y'), (⟨1, 2⟩, .int 7), (⟨3, 0⟩, .char 'x')] = some enlarged ∧
    sketch.writeAll? [(⟨3, 0⟩, .char 'x'), (⟨1, 2⟩, .int 7)] = some enlarged := by
  have hwrites : sketch.writeAll? [(⟨3, 0⟩, .char 'x'), (⟨1, 2⟩, .int 7)] = some enlarged := by
    decide +kernel
  obtain ⟨hcommute, hwins, hsame⟩ := order_of_writes_immaterial sketch
  refine ⟨?_, hwins ⟨3, 0⟩ (.char 'y') (.char 'x') (by decide), ?_, hwrites⟩
  · obtain ⟨g, h, k, hg, hk, hh, hk'⟩ :=
      hcommute ⟨3, 0⟩ ⟨1, 2⟩ (.char 'x') (.int 7) (by decide) (by decide) (by decide)
    have hleft : k = enlarged := by
      simpa [writeAll?, hg, hk] using hwrites
    subst hleft
    exact ⟨g, h, hg, hk, hh, hk'⟩
  · obtain ⟨k, hk, hk', _⟩ :=
      hsame [(⟨3, 0⟩, .char 'y'), (⟨1, 2⟩, .int 7), (⟨3, 0⟩, .char 'x')]
        [(⟨3, 0⟩, .char 'x'), (⟨1, 2⟩, .int 7)] (by decide) (by decide) (by
          intro p
          by_cases hp : (⟨3, 0⟩ : Position) = p
          · simp [lastWritten, ← hp]
          · simp [lastWritten, hp])
    rw [hk, ← hk', hwrites]

/-- There is no memory for column `2 ^ 59` and row `2 ^ 59`, though both are within the length
limit. -/
theorem write_fails_below_lengthLimit :
    0x800000000000000 < lengthLimit ∧
      sketch.write? ⟨0x800000000000000, 0⟩ (.char 'x') = none ∧
      sketch.write? ⟨0, 0x800000000000000⟩ (.char 'x') = none ∧
      (∃ g, sketch.write? ⟨1, 2⟩ (.int 7) = some g ∧
        g.write? ⟨0x800000000000000, 0⟩ (.char 'x') = none) := by
  exact ⟨by decide, by decide, by decide, _, rfl, by decide +kernel⟩

end Funge.Playfield
