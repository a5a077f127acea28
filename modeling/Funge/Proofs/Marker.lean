import Funge.Proofs.Tick

/-!
Where cursors meet the marker. A turn never ends with its own cursor on a marker. After a
tick a live cursor can still stand on one, for two reasons only: a later turn of the same
tick has put the marker under it, or it is a child that was born there.
-/

namespace Funge

/-- The marker is stored for its own code and for no other value. -/
theorem Cell.ofValue_eq_marker_iff (v : Int64) :
    Cell.ofValue v = .char Instruction.marker ↔ v = 59 := by
  constructor
  · intro h
    unfold ofValue at h
    split at h
    · next hprint =>
      have hlow : 32 ≤ v.toInt := Int64.le_iff_toInt_le.mp hprint.1
      have hhigh : v.toInt ≤ 126 := Int64.le_iff_toInt_le.mp hprint.2
      have hcodes : ∀ n < 127, Char.ofNat n = Instruction.marker → n = 59 := by decide
      have hcode := hcodes v.toInt.toNat (by omega) (Cell.char.inj h)
      apply Int64.toInt_inj.mp
      rw [show (59 : Int64).toInt = 59 by decide]
      omega
    · cases h
  · rintro rfl
    decide

namespace Cursor

variable {f : Playfield} {c d : Cursor}

theorem passMarkers_ok {fuel : Nat} (h : c.passMarkers f fuel = .ok d) : d.atMarker f = false := by
  induction fuel generalizing c with
  | zero => cases h
  | succ fuel ih =>
    rw [passMarkers] at h
    split at h
    · split at h
      · cases h
      · split at h
        · cases h
        · exact ih h
    · next hmark =>
      rw [← Except.ok.inj h]
      exact eq_false_of_ne_true hmark

theorem stride_ok (h : c.stride f = .ok d) : d.atMarker f = false := by
  rw [stride] at h
  split at h
  · cases h
  · exact passMarkers_ok h

end Cursor

namespace Machine

variable {m : Machine} {c : Cursor}

/-- A turn ends off the markers, except that of a cursor which is terminated already. -/
theorem turn_off_marker (hok : (m.turn c).result = .ok ())
    (hlive : (m.turn c).cursor.isTerminated = false) :
    (m.turn c).cursor.atMarker (m.turn c).machine.field = false := by
  have hmode : c.mode ≠ .terminated := by
    intro h
    rw [turn_of_terminated m c h] at hlive
    simp [Cursor.isTerminated, seen, h] at hlive
  rw [turn_machine m c hmode]
  exact Cursor.stride_ok (turn_ok m c hmode hok).2

/-- The value that the turn of a cursor puts at a place, if it puts one there. -/
def putAt (m : Machine) (c : Cursor) (p : Position) : Option Int64 :=
  (m.putBy c).bind fun q => if q.1 = p then some q.2 else none

/-- The value that the turns of a list of cursors put at a place last. -/
def lastPut (m : Machine) (p : Position) : List Cursor → Option Int64
  | [] => none
  | c :: rest => ((m.turn c).machine.lastPut p rest).or (m.putAt c p)

/-- What a place holds after a put, or after none. -/
def held (f : Playfield) (p : Position) (put : Option Int64) : Cell :=
  (put.map Cell.ofValue).getD (f.read p)

theorem read_turn_eq_held (hok : (m.turn c).result = .ok ()) (p : Position) :
    (m.turn c).machine.field.read p = held m.field p (m.putAt c p) := by
  rw [read_turn m c hok, putAt]
  cases m.putBy c with
  | none => rfl
  | some q =>
    simp only [Option.bind_some]
    by_cases h : p = q.1
    · rw [if_pos h, if_pos h.symm]
      rfl
    · rw [if_neg h, if_neg (Ne.symm h)]
      rfl

theorem read_turns {cs : List Cursor} (hok : (m.turns cs).1 = .ok ()) (p : Position) :
    (m.turns cs).2.2.field.read p = held m.field p (m.lastPut p cs) := by
  induction cs generalizing m with
  | nil => rfl
  | cons c cs ih =>
    obtain ⟨hres, hrest⟩ := turns_cons_of_ok m hok
    rw [turns_cons_ok m hres, ih hrest, lastPut]
    cases hlater : (m.turn c).machine.lastPut p cs with
    | none => exact read_turn_eq_held hres p
    | some v => rfl

theorem held_marker_iff (f : Playfield) (p : Position) (put : Option Int64) :
    held f p put = .char Instruction.marker ↔
      put = some 59 ∨ put = none ∧ f.read p = .char Instruction.marker := by
  cases put with
  | none => simp [held]
  | some v => simp [held, Cell.ofValue_eq_marker_iff]

/-- The turns after one that has begun go on with the machine it leaves. -/
theorem TurnBegins.last {n : Machine} {d : Cursor} {cs rest : List Cursor}
    (h : TurnBegins m cs d n rest) (hok : (m.turns cs).1 = .ok ()) :
    (n.turn d).result = .ok () ∧ ((n.turn d).machine.turns rest).1 = .ok () ∧
      (m.turns cs).2.2 = ((n.turn d).machine.turns rest).2.2 := by
  induction h with
  | head m c rest =>
    obtain ⟨hres, hrest⟩ := turns_cons_of_ok m hok
    rw [turns_cons_ok m hres]
    exact ⟨hres, hrest, rfl⟩
  | tail hres _ ih =>
    rw [turns_cons_ok _ hres] at hok ⊢
    exact ih hok

/-- What a place holds after the tick, from the end of any of its turns on. -/
theorem TurnBegins.read {n : Machine} {d : Cursor} {cs rest : List Cursor}
    (h : TurnBegins m cs d n rest) (hok : (m.turns cs).1 = .ok ()) (p : Position) :
    (m.turns cs).2.2.field.read p =
      held (n.turn d).machine.field p ((n.turn d).machine.lastPut p rest) := by
  obtain ⟨_, hrest, hlast⟩ := h.last hok
  rw [hlast, read_turns hrest]

/-- Each cursor of the list after the turns has had its turn. -/
theorem exists_turn_of_mem {cs : List Cursor} (hok : (m.turns cs).1 = .ok ())
    (hc : c ∈ (m.turns cs).2.1) :
    ∃ d n rest, TurnBegins m cs d n rest ∧ c = (n.turn d).cursor := by
  induction cs generalizing m with
  | nil => cases hc
  | cons b cs ih =>
    obtain ⟨hres, hrest⟩ := turns_cons_of_ok m hok
    rw [turns_cons_ok m hres] at hc
    rcases List.mem_cons.mp hc with rfl | hc
    · exact ⟨b, m, cs, .head m b cs, rfl⟩
    · obtain ⟨d, n, rest, hbegins, rfl⟩ := ih hrest hc
      exact ⟨d, n, rest, .tail hres hbegins, rfl⟩

/-- Each newborn cursor was born in one of the turns. -/
theorem exists_turn_of_newborn {cs : List Cursor} (hok : (m.turns cs).1 = .ok ())
    (hc : c ∈ (m.turns cs).2.2.cursors) :
    c ∈ m.cursors ∨
      ∃ d n rest, TurnBegins m cs d n rest ∧ (n.turn d).machine.cursors = c :: n.cursors := by
  induction cs generalizing m with
  | nil => exact Or.inl hc
  | cons b cs ih =>
    obtain ⟨hres, hrest⟩ := turns_cons_of_ok m hok
    rw [turns_cons_ok m hres] at hc
    rcases ih hrest hc with hborn | ⟨d, n, rest, hbegins, hborn⟩
    · -- born before the later turns: in this one, or before all of them
      rcases turn_cursors m b with hsame | ⟨_, q, _, hchild⟩
      · rw [hsame] at hborn
        exact Or.inl hborn
      · rw [hchild] at hborn
        rcases List.mem_cons.mp hborn with rfl | hold
        · exact Or.inr ⟨b, m, cs, .head m b cs, hchild⟩
        · exact Or.inl hold
    · exact Or.inr ⟨d, n, rest, .tail hres hbegins, hborn⟩

/-- **When a cursor rests on the marker.** After a tick that succeeds, a live cursor stands on
a marker exactly if, in one of the turns of the tick, either it has made that turn and the last
put at its place in the turns after it is the marker; or it was born in that turn, and the last
put there is the marker, or there is none and it was born on one. -/
theorem atMarker_iff (m : Machine) (hok : m.tick.1 = .ok ()) {c : Cursor}
    (hc : c ∈ m.tick.2.cursors) :
    c.atMarker m.tick.2.field = true ↔
      ∃ d n rest, TurnBegins m.opened m.cursors d n rest ∧
        (c = (n.turn d).cursor ∧ (n.turn d).machine.lastPut c.position rest = some 59 ∨
          (n.turn d).machine.cursors = c :: n.cursors ∧
            ((n.turn d).machine.lastPut c.position rest = some 59 ∨
              (n.turn d).machine.lastPut c.position rest = none ∧
                c.atMarker (n.turn d).machine.field = true)) := by
  have hmark : ∀ f : Playfield, c.atMarker f = true ↔
      f.read c.position = .char Instruction.marker := fun f => decide_eq_true_iff
  rw [hmark]
  constructor
  · intro hread
    obtain ⟨hmem, hlive⟩ := (mem_close_cursors _).mp hc
    rcases hmem with hborn | hold
    · rcases exists_turn_of_newborn hok hborn with hnone | ⟨d, n, rest, hbegins, hchild⟩
      · cases hnone
      · refine ⟨d, n, rest, hbegins, Or.inr ⟨hchild, ?_⟩⟩
        rw [hmark]
        exact (held_marker_iff _ _ _).mp ((hbegins.read hok c.position).symm.trans hread)
    · obtain ⟨d, n, rest, hbegins, rfl⟩ := exists_turn_of_mem hok hold
      refine ⟨d, n, rest, hbegins, Or.inl ⟨rfl, ?_⟩⟩
      -- its own turn has left it off the markers, so a later put must have brought this one
      have hoff := turn_off_marker (hbegins.last hok).1 hlive
      rcases (held_marker_iff _ _ _).mp ((hbegins.read hok _).symm.trans hread) with h | ⟨_, h⟩
      · exact h
      · rw [(hmark _).mpr h] at hoff
        cases hoff
  · rintro ⟨d, n, rest, hbegins, h⟩
    rw [show m.tick.2.field.read c.position = _ from hbegins.read hok c.position,
      held_marker_iff]
    rcases h with ⟨_, h⟩ | ⟨_, h | ⟨hnone, hborn⟩⟩
    · exact Or.inl h
    · exact Or.inl h
    · exact Or.inr ⟨hnone, (hmark _).mp hborn⟩

/-- A fork at the origin with a marker at the other end of its row. -/
def birthplace : Playfield :=
  ⟨[[.char 't', .char ' ', .char ' ', .char ';', .char ' ', .char ';']]⟩

/-- The child of that fork. -/
def stranded : Cursor := { position := ⟨5, 0⟩, direction := .left }

/-- The marker is rested on. -/
theorem stranded_atMarker :
    (start birthplace {} {} 0).tick.1 = .ok () ∧
      stranded ∈ (start birthplace {} {} 0).tick.2.cursors ∧
      stranded.atMarker (start birthplace {} {} 0).tick.2.field = true :=
  ⟨rfl, by decide +kernel, by decide +kernel⟩

theorem atMarker_iff_stranded :
    (start birthplace {} {} 0).tick.1 = .ok () ∧
      stranded ∈ (start birthplace {} {} 0).tick.2.cursors ∧
      ∃ d n rest, TurnBegins (start birthplace {} {} 0).opened [.initial] d n rest ∧
        (stranded = (n.turn d).cursor ∧ (n.turn d).machine.lastPut ⟨5, 0⟩ rest = some 59 ∨
          (n.turn d).machine.cursors = stranded :: n.cursors ∧
            ((n.turn d).machine.lastPut ⟨5, 0⟩ rest = some 59 ∨
              (n.turn d).machine.lastPut ⟨5, 0⟩ rest = none ∧
                stranded.atMarker (n.turn d).machine.field = true)) := by
  have hok : (start birthplace {} {} 0).tick.1 = .ok () := rfl
  have hchild : stranded ∈ (start birthplace {} {} 0).tick.2.cursors := by decide +kernel
  exact ⟨hok, hchild, (atMarker_iff _ hok hchild).mp (by decide +kernel)⟩

end Machine

end Funge
