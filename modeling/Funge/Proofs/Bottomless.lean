import Mathlib.Data.List.DropRight
import Mathlib.Data.List.GetD
import Funge.Proofs.Simulation

/-!
The stack has no bottom that a program could find: stacks that differ only by zeros at the
bottom hold the same value at every depth, so machines that differ only in this way behave
alike for ever.
-/

namespace Funge

namespace Stack

/-- Equal after all zeros at the bottom have been removed. -/
def Equiv (s t : Stack) : Prop := s.toList.dropWhile (· = 0) = t.toList.dropWhile (· = 0)

theorem getD_rdropWhile (l : List Int64) (n : Nat) :
    (l.rdropWhile (· = 0)).getD n 0 = l.getD n 0 := by
  induction l using List.reverseRecOn with
  | nil => rfl
  | append_singleton l v ih =>
    by_cases hv : v = 0
    · rw [List.rdropWhile_concat_pos _ _ _ (by simpa using hv), ih, hv]
      simp only [List.getD_eq_getElem?_getD, List.getElem?_append]
      split
      · rfl
      · next h =>
        rw [List.getElem?_eq_none (by omega)]
        cases n - l.length <;> rfl
    · rw [List.rdropWhile_concat_neg _ _ _ (by simpa using hv)]

/-- Of two lists with the same entries at every place, one that does not end in zero is not the
longer one. -/
theorem length_le_of_getD_eq {l k : List Int64} (h : ∀ n, l.getD n 0 = k.getD n 0)
    (hl : ∀ hne : l ≠ [], l.getLast hne ≠ 0) : l.length ≤ k.length := by
  by_contra hlt
  have hne : l ≠ [] := by
    rintro rfl
    simp at hlt
  have hlast := h (l.length - 1)
  rw [List.getD_eq_getElem?_getD, List.getD_eq_getElem?_getD,
    List.getElem?_eq_none (show k.length ≤ l.length - 1 by omega), ← List.getLast?_eq_getElem?,
    List.getLast?_eq_some_getLast hne] at hlast
  exact hl hne hlast

/-- Equivalent stacks are those that answer alike at every depth. -/
theorem equiv_iff (s t : Stack) : s.Equiv t ↔ ∀ n, s.get n = t.get n := by
  -- the top is the head of `values`, so the zeros at the bottom are those at its end
  have hdrop : ∀ u : Stack, u.toList.dropWhile (· = 0) =
      (u.values.rdropWhile (· = 0)).reverse := by
    intro u
    rw [List.rdropWhile, List.reverse_reverse]
    rfl
  rw [Equiv, hdrop, hdrop, List.reverse_inj]
  constructor
  · intro h n
    rw [get, get, ← getD_rdropWhile, h, getD_rdropWhile]
  · intro h
    have hget : ∀ n, (s.values.rdropWhile (· = 0)).getD n 0 =
        (t.values.rdropWhile (· = 0)).getD n 0 := by
      intro n
      rw [getD_rdropWhile, getD_rdropWhile]
      exact h n
    -- trimmed lists with the same entries are as long as each other, since neither ends in zero
    have hend : ∀ (l : List Int64) (hne : l.rdropWhile (· = 0) ≠ []),
        (l.rdropWhile (· = 0)).getLast hne ≠ 0 := by
      intro l hne
      simpa using List.rdropWhile_last_not (· = 0) l hne
    have hlen := Nat.le_antisymm (length_le_of_getD_eq hget (hend _))
      (length_le_of_getD_eq (fun n => (hget n).symm) (hend _))
    apply List.ext_getElem hlen
    intro n hn hn'
    have := hget n
    rwa [List.getD_eq_getElem _ _ hn, List.getD_eq_getElem _ _ hn'] at this

theorem Equiv.get {s t : Stack} (h : s.Equiv t) (n : Nat) : s.get n = t.get n :=
  (equiv_iff s t).mp h n

theorem Equiv.push {s t : Stack} (h : s.Equiv t) (v : Int64) : (s.push v).Equiv (t.push v) := by
  rw [equiv_iff]
  intro n
  cases n with
  | zero => rfl
  | succ n => exact h.get n

theorem get_drop (s : Stack) (k n : Nat) : (s.drop k).get n = s.get (k + n) := by
  rw [Stack.get, Stack.get, drop, List.getD_eq_getElem?_getD, List.getD_eq_getElem?_getD,
    List.getElem?_drop]

theorem Equiv.drop {s t : Stack} (h : s.Equiv t) (k : Nat) : (s.drop k).Equiv (t.drop k) := by
  rw [equiv_iff]
  intro n
  rw [get_drop, get_drop, h.get]

theorem Equiv.dup {s t : Stack} (h : s.Equiv t) : s.dup.Equiv t.dup := by
  rw [Stack.dup, Stack.dup, peek, peek, h.get]
  exact h.push _

theorem Equiv.swap {s t : Stack} (h : s.Equiv t) : s.swap.Equiv t.swap := by
  rw [Stack.swap, Stack.swap, h.get, h.get]
  exact ((h.drop 2).push _).push _

end Stack

namespace Cursor

/-- The same cursor up to zeros at the bottom of its stack. -/
structure Equiv (c d : Cursor) : Prop where
  position : d.position = c.position
  direction : d.direction = c.direction
  mode : d.mode = c.mode
  last : d.last = c.last
  stack : c.stack.Equiv d.stack

variable {c d : Cursor}

theorem Equiv.operand (h : c.Equiv d) (n : Nat) : d.operand n = c.operand n :=
  (h.stack.get n).symm

theorem Equiv.isTerminated (h : c.Equiv d) : c.isTerminated = d.isTerminated := by
  rw [Cursor.isTerminated, Cursor.isTerminated, h.mode]

theorem Equiv.push (h : c.Equiv d) (v : Int64) : (c.push v).Equiv (d.push v) :=
  ⟨h.position, h.direction, h.mode, h.last, h.stack.push v⟩

theorem Equiv.drop (h : c.Equiv d) (n : Nat) : (c.drop n).Equiv (d.drop n) :=
  ⟨h.position, h.direction, h.mode, h.last, h.stack.drop n⟩

theorem Equiv.turned (h : c.Equiv d) (e : Direction) :
    Equiv { c with direction := e } { d with direction := e } :=
  ⟨h.position, rfl, h.mode, h.last, h.stack⟩

theorem Equiv.toggleLiteral (h : c.Equiv d) : c.toggleLiteral.Equiv d.toggleLiteral := by
  unfold Cursor.toggleLiteral
  rw [h.mode]
  split
  · exact ⟨h.position, h.direction, rfl, h.last, h.stack⟩
  · exact ⟨h.position, h.direction, rfl, h.last, h.stack⟩
  · exact h

theorem equiv_requireRoom (f : Playfield) (h : c.Equiv d) :
    d.requireRoom f = c.requireRoom f := by
  rw [requireRoom, requireRoom, h.position, h.direction]

theorem equiv_advance (f : Playfield) (h : c.Equiv d) :
    Agree Eq Equiv (c.advance f) (d.advance f) := by
  rw [advance, advance, equiv_requireRoom f h, h.position, h.direction]
  cases c.requireRoom f with
  | error s => exact rfl
  | ok u =>
    dsimp only
    cases f.advance? c.position c.direction with
    | none => exact rfl
    | some p => exact ⟨rfl, rfl, h.mode, h.last, h.stack⟩

theorem equiv_steps (f : Playfield) : StepsAgree f f Equiv Eq where
  advance := equiv_advance f
  marker h := by rw [atMarker, atMarker, h.position]
  extent h := by rw [h.position, h.direction]
  endless := rfl

theorem equiv_jumpForward (f : Playfield) (h : c.Equiv d) (n : Int64) :
    Agree Eq Equiv (c.jumpForward f n) (d.jumpForward f n) := by
  rw [jumpForward, jumpForward, equiv_requireRoom f h, h.position, h.direction]
  cases c.requireRoom f with
  | error s => exact rfl
  | ok u => exact ⟨rfl, rfl, h.mode, h.last, h.stack⟩

/-- Every instruction finds the same operands, so it does the same and asks the same. -/
theorem equiv_act (f : Playfield) (h : c.Equiv d) (i : Instruction) :
    (c.act f i).1.Equiv (d.act f i).1 ∧ (d.act f i).2 = (c.act f i).2 := by
  have h0 := h.operand 0
  have h1 := h.operand 1
  cases i with
  | digit value => exact ⟨h.push _, rfl⟩
  | add | subtract | multiply | greater | get =>
    rw [act, act, h0, h1]
    exact ⟨(h.drop 2).push _, rfl⟩
  | divide | modulo =>
    rw [act, act, h0, h1, h.position]
    split
    · exact ⟨h.drop 2, rfl⟩
    · exact ⟨(h.drop 2).push _, rfl⟩
  | not =>
    rw [act, act, h0]
    exact ⟨(h.drop 1).push _, rfl⟩
  | go e => exact ⟨h.turned e, rfl⟩
  | horizontalIf | verticalIf =>
    rw [act, act, h0]
    exact ⟨(h.drop 1).turned _, rfl⟩
  | turnLeft | turnRight =>
    rw [act, act, h.direction]
    exact ⟨h.turned _, rfl⟩
  | compareTurn =>
    rw [act, act, h0, h1, h.direction]
    exact ⟨(h.drop 2).turned _, rfl⟩
  | trampoline => exact moved_agrees h (equiv_advance f h)
  | jumpOver => exact moved_agrees h ((equiv_steps f).jumpOver h)
  | jumpForward =>
    rw [act, act, h0]
    exact moved_agrees (h.drop 1) (equiv_jumpForward f (h.drop 1) _)
  | duplicate => exact ⟨⟨h.position, h.direction, h.mode, h.last, h.stack.dup⟩, rfl⟩
  | swap => exact ⟨⟨h.position, h.direction, h.mode, h.last, h.stack.swap⟩, rfl⟩
  | clear =>
    exact ⟨⟨h.position, h.direction, h.mode, h.last, (Stack.equiv_iff _ _).mpr fun _ => rfl⟩, rfl⟩
  | discard => exact ⟨h.drop 1, rfl⟩
  | printInteger | printCharacter =>
    rw [act, act, h0]
    exact ⟨h.drop 1, rfl⟩
  | put =>
    rw [act, act, h0, h1, h.operand 2]
    exact ⟨h.drop 3, rfl⟩
  | halt => exact ⟨⟨h.position, h.direction, rfl, h.last, h.stack⟩, rfl⟩
  | toggleLiteral => exact ⟨h.toggleLiteral, rfl⟩
  | reserved r =>
    rw [act, act, h.position]
    exact ⟨h, rfl⟩
  | goRandom | readInteger | readCharacter | fork | nop => exact ⟨h, rfl⟩

end Cursor

namespace Machine

/-- The same machine up to zeros at the bottom of the cursors' stacks. -/
structure Equiv (m n : Machine) : Prop where
  world : { n with cursors := [] } = { m with cursors := [] }
  cursors : List.Forall₂ Cursor.Equiv m.cursors n.cursors

theorem Equiv.eq {m n : Machine} (h : m.Equiv n) : n = { m with cursors := n.cursors } :=
  congrArg (fun k : Machine => { k with cursors := n.cursors }) h.world

theorem Equiv.field {m n : Machine} (h : m.Equiv n) : n.field = m.field := by
  rw [h.eq]

theorem equiv_perform {m n : Machine} {c d : Cursor} (hmn : m.Equiv n) (hcd : c.Equiv d)
    (l : Position) (e : Effect) :
    (m.perform c l e).Agrees Equiv Cursor.Equiv Eq (n.perform d l e) := by
  obtain ⟨ds, hds, rfl⟩ : ∃ ds, List.Forall₂ Cursor.Equiv m.cursors ds ∧
      n = { m with cursors := ds } := ⟨n.cursors, hmn.cursors, hmn.eq⟩
  cases e with
  | none => exact ⟨hmn, hcd, trivial⟩
  | print text =>
    simp only [perform, print, write]
    split
    · exact ⟨⟨rfl, hds⟩, hcd, trivial⟩
    · split
      · exact ⟨⟨rfl, hds⟩, hcd, trivial⟩
      · exact ⟨⟨rfl, hds⟩, hcd, rfl⟩
  | readInteger | readCharacter =>
    simp only [perform, received]
    split
    · exact ⟨⟨rfl, hds⟩, hcd.push _, trivial⟩
    · exact ⟨⟨rfl, hds⟩, hcd, rfl⟩
  | put x y value =>
    simp only [perform, put]
    split
    · exact ⟨⟨rfl, hds⟩, hcd, trivial⟩
    · split
      · exact ⟨⟨rfl, hds⟩, hcd, trivial⟩
      · exact ⟨⟨rfl, hds⟩, hcd, rfl⟩
  | fork =>
    simp only [perform, fork, hcd.position, hcd.direction]
    split
    · exact ⟨⟨rfl, hds⟩, hcd, rfl⟩
    · exact ⟨⟨rfl, .cons ⟨rfl, rfl, rfl, rfl, rfl⟩ hds⟩, hcd, trivial⟩
  | goRandom => exact ⟨⟨rfl, hds⟩, hcd.turned _, trivial⟩

theorem equiv_execute {m n : Machine} {c d : Cursor} (hmn : m.Equiv n) (hcd : c.Equiv d)
    (i : Instruction) :
    (m.execute c i).Agrees Equiv Cursor.Equiv Eq (n.execute d i) := by
  obtain ⟨hafter, heffect⟩ := Cursor.equiv_act m.field hcd i
  apply execute_agrees hmn (fun _ => rfl)
  · rw [hmn.field]
    exact hafter
  · rw [hmn.field]
    exact heffect
  · intro e
    rw [hmn.field, hcd.position]
    exact equiv_perform hmn hafter _ e

theorem equiv_simulation : Simulation Equiv Cursor.Equiv Eq where
  cursors h := h.cursors
  opened := by
    intro m n h
    rw [opened, opened, h.eq]
    refine ⟨?_, .nil⟩
    rw [h.cursors.length_eq]
    rfl
  turn := by
    intro m n c d hmn hcd
    have hcell : n.field.read d.position = m.field.read c.position := by
      rw [hmn.field, hcd.position]
    have hseen : (m.seen c).Equiv (n.seen d) :=
      ⟨hcd.position, hcd.direction, hcd.mode, hcell, hcd.stack⟩
    apply turn_agrees _ hmn hcd.mode hseen
    · apply met_agrees hmn hcell hcd.mode hseen hseen.toggleLiteral hseen.push
      · intro cell
        rw [hcd.position]
      · intro i _
        exact equiv_execute hmn hseen i
    · intro m n h
      rw [h.field]
      exact (Cursor.equiv_steps m.field).stride
  close := by
    intro m n cs ds hmn hcs
    refine ⟨?_, close_cursors_related (fun _ _ => Cursor.Equiv.isTerminated) hmn.cursors hcs⟩
    simp only [close, gone_related (fun _ _ => Cursor.Equiv.isTerminated)
      (fun _ _ => Cursor.Equiv.position) (List.rel_append hmn.cursors hcs)]
    rw [hmn.eq]

/-- **The stack is bottomless.** Machines that differ only by zeros at the bottom of their
cursors' stacks give the same results in every tick, and differ in nothing else for ever. -/
theorem equiv_after {m n : Machine} (h : m.Equiv n) (k : Nat) :
    (∀ j < k, (m.after j).tick.1 = (n.after j).tick.1) ∧ (m.after k).Equiv (n.after k) :=
  ⟨fun j _ => (equiv_simulation.tick (equiv_simulation.after h j)).1.eq,
    equiv_simulation.after h k⟩

/-- An exchange of the two values on top, and a division. -/
def exchanged : Playfield := ⟨[[.char '\\', .char '/']]⟩

/-- An empty stack and one of two zeros are exchanged alike and divided alike. -/
theorem equiv_after_exchanged :
    (start exchanged {} {} 0).Equiv
        { start exchanged {} {} 0 with cursors := [{ Cursor.initial with stack := ⟨[0, 0]⟩ }] } ∧
      ((start exchanged {} {} 0).after 1).tick.1 =
        .error (.fault (.divisionByZero 0 ⟨1, 0⟩)) ∧
      ∀ j < 2, ((start exchanged {} {} 0).after j).tick.1 =
        (Machine.after { start exchanged {} {} 0 with
          cursors := [{ Cursor.initial with stack := ⟨[0, 0]⟩ }] } j).tick.1 := by
  have hequiv : (start exchanged {} {} 0).Equiv
      { start exchanged {} {} 0 with cursors := [{ Cursor.initial with stack := ⟨[0, 0]⟩ }] } :=
    ⟨rfl, .cons ⟨rfl, rfl, rfl, rfl, rfl⟩ .nil⟩
  exact ⟨hequiv, by decide +kernel, (equiv_after hequiv 2).1⟩

end Machine

end Funge
