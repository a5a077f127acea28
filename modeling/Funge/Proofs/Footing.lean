import Funge.Proofs.Movement
import Funge.Proofs.Turn

/-!
Where cursors can go on from. If the places of some kind leave a cursor ready to move in every
direction, and moves lead to places of that kind again, then any cell that a cursor meets on
such a place leaves it ready for the move that ends its turn: a jump forward goes on in its own
direction, and what a put writes takes no place away.
-/

namespace Funge

theorem Cursor.jumpForward_ok {f : Playfield} {n : Int64} {c d : Cursor}
    (h : c.jumpForward f n = .ok d) :
    d = { c with position := f.jump c.position c.direction n } := by
  unfold jumpForward at h
  split at h
  · cases h
  · exact (Except.ok.inj h).symm

/-- An instruction with a request leaves its cursor in place. -/
theorem Cursor.act_position_of_request {f : Playfield} {c : Cursor} {i : Instruction} {e : Effect}
    (h : (c.act f i).2 = .ok e) (he : e ≠ .none) : (c.act f i).1.position = c.position := by
  cases hmoves : i.moves with
  | false => exact act_position hmoves
  | true => exact absurd (act_effect_of_moves hmoves h) he

namespace Machine

theorem within_fieldAfter (f : Playfield) (put : Option (Position × Int64)) :
    f.Within (fieldAfter f put) := by
  cases put with
  | none => exact Playfield.Within.refl f
  | some pv =>
    obtain ⟨p, value⟩ := pv
    simp only [fieldAfter]
    cases hw : f.write? p (.ofValue value) with
    | none => exact Playfield.Within.refl f
    | some g =>
      rw [(Playfield.write?_eq_some hw).2]
      exact Playfield.within_write f p _

theorem turn_within {m : Machine} {c : Cursor} : m.field.Within (m.turn c).machine.field := by
  rw [turn_field]
  exact within_fieldAfter m.field _

end Machine

/-- On a playfield with `F`, a cursor on a place of `P` is ready in the sense of `Q` for every
direction, and the move of one that is ready leads to a place of `P`. -/
structure Footing (F : Playfield → Prop) (P : Playfield → Position → Prop)
    (Q : Playfield → Position → Direction → Prop) : Prop where
  put : ∀ {f : Playfield} (put : Option (Position × Int64)), F f → F (Machine.fieldAfter f put)
  within : ∀ {f g : Playfield} {p : Position}, f.Within g → P f p → P g p
  ready : ∀ {f : Playfield} {p : Position}, P f p → ∀ d, Q f p d
  jump : ∀ {f : Playfield} {p : Position}, P f p → ∀ d n, Q f (f.jump p d n) d
  advance : ∀ {f : Playfield} {c : Cursor}, F f → Q f c.position c.direction →
    c.LandsIn (P f) (c.advance f)

namespace Footing

variable {F : Playfield → Prop} {P : Playfield → Position → Prop}
  {Q : Playfield → Position → Direction → Prop} {f : Playfield} {m : Machine} {c : Cursor}
  {i : Instruction}

theorem staysIn (h : Footing F P Q) (hf : F f) (c : Cursor) : c.StaysIn f (P f) :=
  fun p hp => h.advance (c := { c with position := p }) hf (h.ready hp c.direction)

theorem jumpOver (h : Footing F P Q) (hf : F f) (hc : Q f c.position c.direction) :
    c.LandsIn (P f) (c.jumpOver f) :=
  (h.staysIn hf c).jumpOver (h.advance hf hc)

theorem stride (h : Footing F P Q) (hf : F f) (hc : Q f c.position c.direction) :
    c.LandsIn (P f) (c.stride f) :=
  (h.staysIn hf c).stride (h.advance hf hc)

/-- A move within an instruction leads to a place of `P`, or the instruction does not succeed. -/
theorem moved {r : Except Stop Cursor} {e : Effect} (h : Footing F P Q)
    (hlands : c.LandsIn (P f) r) (hok : (c.moved r).2 = .ok e) :
    Q f (c.moved r).1.position (c.moved r).1.direction := by
  rcases hlands with rfl | ⟨q, hq, rfl⟩
  · cases hok
  · exact h.ready hq _

theorem act (h : Footing F P Q) (hf : F f) (hc : P f c.position) {e : Effect}
    (hok : (c.act f i).2 = .ok e) :
    Q f (c.act f i).1.position (c.act f i).1.direction := by
  have hready := h.ready hc c.direction
  cases hmoves : i.moves with
  | false =>
    rw [Cursor.act_position hmoves]
    exact h.ready hc _
  | true =>
    cases i with
    | trampoline => exact h.moved (h.advance hf hready) hok
    | jumpOver => exact h.moved (h.jumpOver hf hready) hok
    | jumpForward =>
      rw [Cursor.act] at hok ⊢
      cases hjump : (c.drop 1).jumpForward f (c.operand 0) with
      | error s =>
        rw [hjump] at hok
        cases hok
      | ok d =>
        obtain rfl := Cursor.jumpForward_ok hjump
        exact h.jump hc _ _
    | _ => cases hmoves

theorem execute (h : Footing F P Q) (hm : F m.field) (hc : P m.field c.position)
    (hok : (m.execute c i).result = .ok ()) :
    Q (m.execute c i).machine.field (m.execute c i).cursor.position
      (m.execute c i).cursor.direction := by
  cases hact : (c.act m.field i).2 with
  | error s =>
    rw [Machine.execute_error m c hact] at hok
    cases hok
  | ok e =>
    rw [Machine.execute_ok m c hact]
    by_cases he : e = .none
    · subst he
      exact h.act hm hc hact
    · apply h.ready
      rw [Machine.perform_position, Cursor.act_position_of_request hact he, Machine.perform_field]
      exact h.within (Machine.within_fieldAfter m.field _) hc

theorem met (h : Footing F P Q) (hm : F m.field) (hc : P m.field c.position)
    (hlive : c.mode ≠ .terminated) (hok : (m.met c).result = .ok ()) :
    Q (m.met c).machine.field (m.met c).cursor.position (m.met c).cursor.direction := by
  rcases Machine.met_cases m c hlive with ⟨i, _, hmet⟩ | ⟨_, hmet | hmet | hmet⟩
  · rw [hmet] at hok ⊢
    exact h.execute (c := m.seen c) hm hc hok
  · rw [hmet]
    apply h.ready
    rw [Cursor.toggleLiteral_position]
    exact hc
  · rw [hmet]
    exact h.ready hc _
  · rw [hmet] at hok
    cases hok

theorem turn_field (h : Footing F P Q) (hm : F m.field) : F (m.turn c).machine.field := by
  rw [Machine.turn_field]
  exact h.put _ hm

/-- The move that ends a turn leads to a place of `P`, or goes on without end. -/
theorem turn_stride (h : Footing F P Q) (hm : F m.field) (hc : P m.field c.position)
    (hlive : c.mode ≠ .terminated) (hok : (m.met c).result = .ok ()) :
    (m.met c).cursor.LandsIn (P (m.met c).machine.field)
      ((m.met c).cursor.stride (m.met c).machine.field) := by
  apply h.stride _ (h.met hm hc hlive hok)
  rw [← Machine.turn_machine m c hlive]
  exact h.turn_field hm

end Footing

end Funge
