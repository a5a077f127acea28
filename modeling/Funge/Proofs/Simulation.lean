import Mathlib.Data.List.Forall2
import Funge.Proofs.Instruction
import Funge.Proofs.Tick

/-!
Two machines in lockstep. A relation between machines and one between cursors that every
pair of turns keeps are kept by whole ticks and by any number of them. For the moves of a
turn it is enough that single steps keep the relation and that the cursors agree on where
the markers are.
-/

namespace Funge

/-- Both succeed, with related values, or both stop, for related reasons. -/
def Agree {α β : Type} (S : Stop → Stop → Prop) (R : α → β → Prop) :
    Except Stop α → Except Stop β → Prop
  | .ok a, .ok b => R a b
  | .error s, .error t => S s t
  | _, _ => False

theorem Agree.cases {α β : Type} {S : Stop → Stop → Prop} {R : α → β → Prop}
    {r : Except Stop α} {q : Except Stop β} (h : Agree S R r q) :
    (∃ s t, r = .error s ∧ q = .error t ∧ S s t) ∨ ∃ a b, r = .ok a ∧ q = .ok b ∧ R a b := by
  cases r with
  | error s =>
    cases q with
    | error t => exact Or.inl ⟨s, t, rfl, rfl, h⟩
    | ok b => exact h.elim
  | ok a =>
    cases q with
    | error t => exact h.elim
    | ok b => exact Or.inr ⟨a, b, rfl, rfl, h⟩

theorem Agree.mono {α β : Type} {S S' : Stop → Stop → Prop} {R : α → β → Prop}
    {r : Except Stop α} {q : Except Stop β} (h : Agree S R r q) (hS : ∀ s t, S s t → S' s t) :
    Agree S' R r q := by
  rcases h.cases with ⟨s, t, rfl, rfl, hst⟩ | ⟨a, b, rfl, rfl, hab⟩
  · exact hS s t hst
  · exact hab

theorem Agree.eq {r q : Except Stop Unit} (h : Agree Eq (fun _ _ => True) r q) : r = q := by
  rcases h.cases with ⟨s, t, rfl, rfl, rfl⟩ | ⟨a, b, rfl, rfl, _⟩ <;> rfl

/-! ## Moves -/

namespace Cursor

variable {f g : Playfield} {C : Cursor → Cursor → Prop} {S : Stop → Stop → Prop}

/-- Steps on two playfields keep a relation between cursors that share the markers and the
length of their cycles. -/
structure StepsAgree (f g : Playfield) (C : Cursor → Cursor → Prop) (S : Stop → Stop → Prop) :
    Prop where
  advance : ∀ {c d}, C c d → Agree S C (c.advance f) (d.advance g)
  marker : ∀ {c d}, C c d → c.atMarker f = d.atMarker g
  extent : ∀ {c d}, C c d → f.extent c.position c.direction = g.extent d.position d.direction
  endless : S .endless .endless

theorem StepsAgree.scan (h : StepsAgree f g C S) (fuel : Nat) {c d : Cursor} (hcd : C c d) :
    Agree S C (c.scan f fuel) (d.scan g fuel) := by
  induction fuel generalizing c d with
  | zero => exact h.endless
  | succ fuel ih =>
    rw [Cursor.scan, Cursor.scan]
    rcases (h.advance hcd).cases with ⟨s, t, hc, hd, hst⟩ | ⟨c', d', hc, hd, hcd'⟩
    · rw [hc, hd]
      exact hst
    · simp only [hc, hd, h.marker hcd']
      split
      · exact hcd'
      · exact ih hcd'

theorem StepsAgree.jumpOver (h : StepsAgree f g C S) {c d : Cursor} (hcd : C c d) :
    Agree S C (c.jumpOver f) (d.jumpOver g) := by
  rw [Cursor.jumpOver, Cursor.jumpOver, h.extent hcd]
  exact h.scan _ hcd

theorem StepsAgree.passMarkers (h : StepsAgree f g C S) (fuel : Nat) {c d : Cursor}
    (hcd : C c d) : Agree S C (c.passMarkers f fuel) (d.passMarkers g fuel) := by
  induction fuel generalizing c d with
  | zero => exact h.endless
  | succ fuel ih =>
    rw [Cursor.passMarkers, Cursor.passMarkers, h.marker hcd]
    split
    · rcases (h.jumpOver hcd).cases with ⟨s, t, hc, hd, hst⟩ | ⟨c', d', hc, hd, hcd'⟩
      · rw [hc, hd]
        exact hst
      · simp only [hc, hd]
        rcases (h.advance hcd').cases with ⟨s, t, hc, hd, hst⟩ | ⟨c', d', hc, hd, hcd'⟩
        · rw [hc, hd]
          exact hst
        · rw [hc, hd]
          exact ih hcd'
    · exact hcd

theorem StepsAgree.stride (h : StepsAgree f g C S) {c d : Cursor} (hcd : C c d) :
    Agree S C (c.stride f) (d.stride g) := by
  rw [Cursor.stride, Cursor.stride]
  rcases (h.advance hcd).cases with ⟨s, t, hc, hd, hst⟩ | ⟨c', d', hc, hd, hcd'⟩
  · rw [hc, hd]
    exact hst
  · simp only [hc, hd, h.extent hcd']
    exact h.passMarkers _ hcd'

/-- Every step is like itself. -/
theorem steps_refl (f : Playfield) : StepsAgree f f Eq Eq where
  advance := by
    rintro c _ rfl
    cases c.advance f <;> rfl
  marker := by
    rintro c _ rfl
    rfl
  extent := by
    rintro c _ rfl
    rfl
  endless := rfl

/-- Moves within an instruction that agree leave related cursors and the same request. -/
theorem moved_agrees {c d : Cursor} (hcd : C c d) {r q : Except Stop Cursor}
    (hrq : Agree Eq C r q) : C (c.moved r).1 (d.moved q).1 ∧ (d.moved q).2 = (c.moved r).2 := by
  rcases hrq.cases with ⟨s, t, rfl, rfl, rfl⟩ | ⟨c', d', rfl, rfl, hcd'⟩
  · exact ⟨hcd, rfl⟩
  · exact ⟨hcd', rfl⟩

end Cursor

/-! ## Turns and ticks -/

/-- Two turns leave related machines and cursors, with results that agree. -/
structure Turn.Agrees (R : Machine → Machine → Prop) (C : Cursor → Cursor → Prop)
    (S : Stop → Stop → Prop) (t u : Turn) : Prop where
  machine : R t.machine u.machine
  cursor : C t.cursor u.cursor
  result : Agree S (fun _ _ => True) t.result u.result

namespace Machine

variable {R : Machine → Machine → Prop} {C : Cursor → Cursor → Prop} {S : Stop → Stop → Prop}

/-- An instruction that does the same to both cursors and asks the same of both machines. -/
theorem execute_agrees {m n : Machine} {c d : Cursor} {i : Instruction} (hmn : R m n)
    (hstop : ∀ s, S s s) (hafter : C (c.act m.field i).1 (d.act n.field i).1)
    (heffect : (d.act n.field i).2 = (c.act m.field i).2)
    (hperform : ∀ e, (m.perform (c.act m.field i).1 c.position e).Agrees R C S
      (n.perform (d.act n.field i).1 d.position e)) :
    (m.execute c i).Agrees R C S (n.execute d i) := by
  cases hact : (c.act m.field i).2 with
  | error s =>
    rw [execute_error m c hact, execute_error n d (heffect.trans hact)]
    exact ⟨hmn, hafter, hstop s⟩
  | ok e =>
    rw [execute_ok m c hact, execute_ok n d (heffect.trans hact)]
    exact hperform e

/-- Cursors that meet cells of the same value and the same instruction do the same with them,
provided that they do so when they execute them. -/
theorem met_agrees_of_alike {m n : Machine} {c d : Cursor} (hmn : R m n)
    (hcode : (n.field.read d.position).code = (m.field.read c.position).code)
    (hinstruction : Instruction.ofCell? (n.field.read d.position) =
      Instruction.ofCell? (m.field.read c.position))
    (hmode : d.mode = c.mode) (hseen : C (m.seen c) (n.seen d))
    (htoggle : C (m.seen c).toggleLiteral (n.seen d).toggleLiteral)
    (hpush : ∀ v, C ((m.seen c).push v) ((n.seen d).push v))
    (hillegal : S (.fault (.illegalInstruction (m.field.read c.position) c.position))
      (.fault (.illegalInstruction (n.field.read d.position) d.position)))
    (hexec : ∀ i, Instruction.ofCell? (m.field.read c.position) = some i →
      (m.execute (m.seen c) i).Agrees R C S (n.execute (n.seen d) i)) :
    (m.met c).Agrees R C S (n.met d) := by
  unfold met meet
  simp only [Instruction.eq_toggle_iff]
  rw [hcode, hinstruction, show (n.seen d).mode = (m.seen c).mode from hmode]
  split
  · split
    · exact ⟨hmn, htoggle, trivial⟩
    · exact ⟨hmn, hpush _, trivial⟩
  · split
    · next i hi => exact hexec i hi
    · exact ⟨hmn, hseen, hillegal⟩

/-- Cursors that meet the same cell do the same with it, provided that they do so when they
execute it. -/
theorem met_agrees {m n : Machine} {c d : Cursor} (hmn : R m n)
    (hcell : n.field.read d.position = m.field.read c.position) (hmode : d.mode = c.mode)
    (hseen : C (m.seen c) (n.seen d))
    (htoggle : C (m.seen c).toggleLiteral (n.seen d).toggleLiteral)
    (hpush : ∀ v, C ((m.seen c).push v) ((n.seen d).push v))
    (hillegal : ∀ cell, S (.fault (.illegalInstruction cell c.position))
      (.fault (.illegalInstruction cell d.position)))
    (hexec : ∀ i, Instruction.ofCell? (m.field.read c.position) = some i →
      (m.execute (m.seen c) i).Agrees R C S (n.execute (n.seen d) i)) :
    (m.met c).Agrees R C S (n.met d) := by
  apply met_agrees_of_alike hmn (by rw [hcell]) (by rw [hcell]) hmode hseen htoggle hpush _ hexec
  rw [hcell]
  exact hillegal _

/-- The turn adds to what the cell does to a cursor only a move. -/
theorem turn_agrees (hstride : ∀ {m n}, R m n → ∀ {c d}, C c d →
      Agree S C (c.stride m.field) (d.stride n.field))
    {m n : Machine} {c d : Cursor} (hmn : R m n) (hmode : d.mode = c.mode)
    (hseen : C (m.seen c) (n.seen d)) (hmet : (m.met c).Agrees R C S (n.met d)) :
    (m.turn c).Agrees R C S (n.turn d) := by
  by_cases hterm : c.mode = .terminated
  · rw [turn_of_terminated m c hterm, turn_of_terminated n d (hmode.trans hterm)]
    exact ⟨hmn, hseen, trivial⟩
  · rw [turn_of_live m c hterm, turn_of_live n d (hmode ▸ hterm)]
    rcases hmet.result.cases with ⟨s, t, hc, hd, _⟩ | ⟨_, _, hc, hd, _⟩
    · simp only [hc, hd]
      exact hmet
    · simp only [hc, hd]
      rcases (hstride hmet.machine hmet.cursor).cases with
        ⟨s, t, hc', hd', hst⟩ | ⟨c', d', hc', hd', hcd'⟩
      · simp only [hc', hd']
        exact ⟨hmet.machine, hmet.cursor, hst⟩
      · simp only [hc', hd']
        exact ⟨hmet.machine, hcd', trivial⟩

/-- Machines with the same playfield that grant all requests alike have the same turns. -/
theorem turn_agrees_of_perform (hfield : ∀ {m n}, R m n → n.field = m.field)
    (hperform : ∀ {m n}, R m n → ∀ c l e, (m.perform c l e).Agrees R Eq Eq (n.perform c l e))
    {m n : Machine} (hmn : R m n) (c : Cursor) : (m.turn c).Agrees R Eq Eq (n.turn c) := by
  have hseen : m.seen c = n.seen c := by
    rw [seen, seen, hfield hmn]
  apply turn_agrees _ hmn rfl hseen
  · apply met_agrees hmn (by rw [hfield hmn]) rfl hseen
    · rw [hseen]
    · intro v
      rw [hseen]
    · intro cell
      rfl
    · intro i _
      rw [← hseen]
      apply execute_agrees hmn (fun _ => rfl)
      · rw [hfield hmn]
      · rw [hfield hmn]
      · intro e
        rw [hfield hmn]
        exact hperform hmn _ _ e
  · intro m n hmn
    rw [hfield hmn]
    exact (Cursor.steps_refl m.field).stride

/-- A relation between machines and one between cursors that every pair of turns keeps. -/
structure Simulation (R : Machine → Machine → Prop) (C : Cursor → Cursor → Prop)
    (S : Stop → Stop → Prop) : Prop where
  cursors : ∀ {m n}, R m n → List.Forall₂ C m.cursors n.cursors
  opened : ∀ {m n}, R m n → R m.opened n.opened
  turn : ∀ {m n c d}, R m n → C c d → (m.turn c).Agrees R C S (n.turn d)
  close : ∀ {m n cs ds}, R m n → List.Forall₂ C cs ds → R (m.close cs) (n.close ds)

theorem close_cursors_related (hterm : ∀ c d, C c d → c.isTerminated = d.isTerminated)
    {m n : Machine} (hmn : List.Forall₂ C m.cursors n.cursors) {cs ds : List Cursor}
    (hcs : List.Forall₂ C cs ds) :
    List.Forall₂ C (m.close cs).cursors (n.close ds).cursors := by
  apply List.rel_filter
  · intro c d hcd
    simp only [hterm c d hcd]
  · exact List.rel_append hmn hcs

/-- The same cursors are removed, from the same places. -/
theorem gone_related (hterm : ∀ c d, C c d → c.isTerminated = d.isTerminated)
    (hplace : ∀ c d, C c d → d.position = c.position) {cs ds : List Cursor}
    (h : List.Forall₂ C cs ds) :
    (cs.filter Cursor.isTerminated).map (fun c => Event.cursorTerminated c.position) =
      (ds.filter Cursor.isTerminated).map fun c => Event.cursorTerminated c.position := by
  induction h with
  | nil => rfl
  | cons hcd _ ih =>
    rw [List.filter_cons, List.filter_cons, hterm _ _ hcd]
    split
    · rw [List.map_cons, List.map_cons, ih, hplace _ _ hcd]
    · exact ih

theorem Simulation.turns (h : Simulation R C S) {m n : Machine} (hmn : R m n)
    {cs ds : List Cursor} (hcs : List.Forall₂ C cs ds) :
    Agree S (fun _ _ => True) (m.turns cs).1 (n.turns ds).1 ∧
      List.Forall₂ C (m.turns cs).2.1 (n.turns ds).2.1 ∧
      R (m.turns cs).2.2 (n.turns ds).2.2 := by
  induction hcs generalizing m n with
  | nil => exact ⟨trivial, .nil, hmn⟩
  | @cons c d cs ds hcd hcs ih =>
    have hturn := h.turn hmn hcd
    rcases hturn.result.cases with ⟨s, t, hc, hd, hst⟩ | ⟨_, _, hc, hd, _⟩
    · rw [turns_cons_error m hc, turns_cons_error n hd]
      exact ⟨hst, .cons hturn.cursor hcs, hturn.machine⟩
    · rw [turns_cons_ok m hc, turns_cons_ok n hd]
      obtain ⟨hresults, hafter, hlast⟩ := ih hturn.machine
      exact ⟨hresults, .cons hturn.cursor hafter, hlast⟩

theorem Simulation.tick (h : Simulation R C S) {m n : Machine} (hmn : R m n) :
    Agree S (fun _ _ => True) m.tick.1 n.tick.1 ∧ R m.tick.2 n.tick.2 := by
  obtain ⟨hresults, hafter, hlast⟩ := h.turns (h.opened hmn) (h.cursors hmn)
  exact ⟨hresults, h.close hlast hafter⟩

theorem Simulation.after (h : Simulation R C S) {m n : Machine} (hmn : R m n) (k : Nat) :
    R (m.after k) (n.after k) := by
  induction k with
  | zero => exact hmn
  | succ k ih => exact (h.tick ih).2

theorem Simulation.isFinished (h : Simulation R C S) {m n : Machine} (hmn : R m n) :
    n.isFinished = m.isFinished := by
  have hlen := (h.cursors hmn).length_eq
  rw [Bool.eq_iff_iff, Machine.isFinished, Machine.isFinished, List.isEmpty_iff_length_eq_zero,
    List.isEmpty_iff_length_eq_zero, hlen]

/-- Up to the same number of ticks, the machines stop together. -/
theorem Simulation.step (h : Simulation R C S) {m n : Machine} (hmn : R m n) (k : Nat) :
    Agree S (fun _ _ => True) (m.step k).1 (n.step k).1 ∧ R (m.step k).2 (n.step k).2 := by
  induction k generalizing m n with
  | zero => exact ⟨trivial, hmn⟩
  | succ k ih =>
    obtain ⟨hresult, hafter⟩ := h.tick hmn
    rw [Machine.step, Machine.step, h.isFinished hmn]
    split
    · exact ⟨trivial, hmn⟩
    · generalize m.tick = p at hresult hafter ⊢
      generalize n.tick = q at hresult hafter ⊢
      obtain ⟨r, m'⟩ := p
      obtain ⟨r', n'⟩ := q
      rcases hresult.cases with ⟨s, t, rfl, rfl, hst⟩ | ⟨_, _, rfl, rfl, _⟩
      · exact ⟨hst, hafter⟩
      · exact ih hafter

end Machine

end Funge
