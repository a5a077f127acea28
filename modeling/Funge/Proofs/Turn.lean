import Funge.Machine.Turn
import Funge.Proofs.Console
import Funge.Proofs.Playfield

/-!
What one turn can do. A live cursor executes, pushes, toggles or meets a cell that is no
instruction, and then moves on; the machine around it changes only by the request of the
instruction. The playfield changes only by a put, the list of the newborn only by a fork.
-/

namespace Funge

/-- The instruction moves the cursor itself. -/
def Instruction.moves : Instruction → Bool
  | trampoline | jumpOver | jumpForward => true
  | _ => false

namespace Cursor

theorem toggleLiteral_position (c : Cursor) : c.toggleLiteral.position = c.position := by
  unfold toggleLiteral
  split <;> rfl

theorem act_position {f : Playfield} {c : Cursor} {i : Instruction} (h : i.moves = false) :
    (c.act f i).1.position = c.position := by
  cases i with
  | trampoline | jumpOver | jumpForward => simp [Instruction.moves] at h
  | divide | modulo =>
    rw [act]
    split <;> rfl
  | toggleLiteral => exact toggleLiteral_position c
  | _ => rfl

/-- An instruction that moves the cursor asks nothing of the machine. -/
theorem act_effect_of_moves {f : Playfield} {c : Cursor} {i : Instruction} (h : i.moves = true)
    {e : Effect} (he : (c.act f i).2 = .ok e) : e = .none := by
  have hmoved : ∀ (a : Cursor) (r : Except Stop Cursor), (a.moved r).2 = .ok e → e = .none := by
    intro a r hr
    cases r with
    | error s => simp [moved] at hr
    | ok b => exact (Except.ok.inj hr).symm
  cases i with
  | trampoline | jumpOver | jumpForward => exact hmoved _ _ he
  | _ => simp [Instruction.moves] at h

end Cursor

/-- The place and the value of a request to write to the playfield. -/
def Effect.put? : Effect → Option (Position × Int64)
  | put x y value => (Position.ofWords? x y).map fun p => (p, value)
  | _ => Option.none

namespace Machine

variable (m : Machine) (c : Cursor)

@[simp] theorem write_field (text : String) : (m.write text).2.field = m.field := by
  unfold write
  split <;> rfl

@[simp] theorem write_cursors (text : String) : (m.write text).2.cursors = m.cursors := by
  unfold write
  split <;> rfl

@[simp] theorem print_field (text : String) : (m.print text).2.field = m.field := by
  unfold print
  split
  · rfl
  · exact write_field m text

@[simp] theorem print_cursors (text : String) : (m.print text).2.cursors = m.cursors := by
  unfold print
  split
  · rfl
  · exact write_cursors m text

@[simp] theorem received_field (r : Console.Reading) :
    (m.received c r).machine.field = m.field := by
  unfold received
  split <;> rfl

@[simp] theorem received_cursors (r : Console.Reading) :
    (m.received c r).machine.cursors = m.cursors := by
  unfold received
  split <;> rfl

@[simp] theorem received_position (r : Console.Reading) :
    (m.received c r).cursor.position = c.position := by
  unfold received
  split <;> rfl

@[simp] theorem fork_field : (m.fork c).2.field = m.field := by
  simp only [fork]
  split <;> rfl

@[simp] theorem put_cursors (x y value : Int64) (l : Position) :
    (m.put x y value l).2.cursors = m.cursors := by
  unfold put
  split
  · rfl
  · split <;> rfl

theorem perform_position (l : Position) (e : Effect) :
    (m.perform c l e).cursor.position = c.position := by
  cases e <;> simp [perform]

/-- The playfield with a value put at a place, or as it was if that needs too much memory. -/
def fieldAfter (f : Playfield) : Option (Position × Int64) → Playfield
  | none => f
  | some (p, value) => (f.write? p (.ofValue value)).getD f

theorem put_field (x y value : Int64) (l : Position) :
    (m.put x y value l).2.field = fieldAfter m.field (Effect.put x y value).put? := by
  simp only [put, Effect.put?]
  cases Position.ofWords? x y with
  | none => rfl
  | some p =>
    simp only [Option.map_some, fieldAfter]
    cases m.field.write? p (.ofValue value) <;> rfl

theorem perform_field (l : Position) (e : Effect) :
    (m.perform c l e).machine.field = fieldAfter m.field e.put? := by
  cases e with
  | put x y value => exact put_field m x y value l
  | print text => exact print_field m text
  | readInteger | readCharacter => exact received_field m c _
  | fork => exact fork_field m c
  | none | goRandom => rfl

/-- A put that is done has not asked for too much memory. -/
theorem write?_of_perform_ok {l : Position} {e : Effect} {p : Position} {value : Int64}
    (hok : (m.perform c l e).result = .ok ()) (hput : e.put? = some (p, value)) :
    m.field.write? p (.ofValue value) = some (m.field.write p (.ofValue value)) := by
  cases e with
  | put x y v =>
    simp only [Effect.put?, Option.map_eq_some_iff, Prod.mk.injEq] at hput
    obtain ⟨q, hq, rfl, rfl⟩ := hput
    simp only [perform, put, hq] at hok
    cases hw : m.field.write? q (.ofValue v) with
    | none => simp [hw] at hok
    | some g => rw [(Playfield.write?_eq_some hw).2]
  | _ => simp [Effect.put?] at hput

/-- The newborn cursor of a fork by `parent`, if its place is `q`. -/
def child (parent : Cursor) (q : Position) : Cursor :=
  { position := q, direction := parent.direction.opposite }

theorem fork_cursors : (m.fork c).2.cursors = m.cursors ∨
    ∃ q, m.field.advance? c.position c.direction.opposite = some q ∧
      (m.fork c).2.cursors = child c q :: m.cursors := by
  simp only [fork]
  split
  · exact Or.inl rfl
  · next q hq => exact Or.inr ⟨q, hq, rfl⟩

theorem perform_cursors (l : Position) (e : Effect) :
    (m.perform c l e).machine.cursors = m.cursors ∨
      e = .fork ∧ ∃ q, m.field.advance? c.position c.direction.opposite = some q ∧
        (m.perform c l e).machine.cursors = child c q :: m.cursors := by
  cases e with
  | fork =>
    rcases fork_cursors m c with h | h
    · exact Or.inl h
    · exact Or.inr ⟨rfl, h⟩
  | put x y value => exact Or.inl (put_cursors m x y value l)
  | print text => exact Or.inl (print_cursors m text)
  | readInteger | readCharacter => exact Or.inl (received_cursors m c _)
  | none | goRandom => exact Or.inl rfl

/-- No request changes the settings or the count of ticks. -/
theorem perform_constants (l : Position) (e : Effect) :
    (m.perform c l e).machine.settings = m.settings ∧
      (m.perform c l e).machine.ticks = m.ticks := by
  cases e with
  | none | goRandom => exact ⟨rfl, rfl⟩
  | print text =>
    simp only [perform, print, write]
    split
    · exact ⟨rfl, rfl⟩
    · split <;> exact ⟨rfl, rfl⟩
  | readInteger | readCharacter =>
    simp only [perform, received]
    split <;> exact ⟨rfl, rfl⟩
  | put x y value =>
    simp only [perform, put]
    split
    · exact ⟨rfl, rfl⟩
    · split <;> exact ⟨rfl, rfl⟩
  | fork =>
    simp only [perform, fork]
    split <;> exact ⟨rfl, rfl⟩

theorem write_error {text : String} {s : Stop} (h : (m.write text).1 = .error s) :
    ∃ cause, s = .fault (.console cause) := by
  unfold write at h
  split at h
  · cases h
  · next cause _ _ =>
    cases h
    exact ⟨cause, rfl⟩

theorem print_error {text : String} {s : Stop} (h : (m.print text).1 = .error s) :
    ∃ cause, s = .fault (.console cause) := by
  unfold print at h
  split at h
  · cases h
  · exact write_error m h

theorem received_error {r : Console.Reading} {s : Stop}
    (hr : ∀ f, r.value = .error f → f.location? = none)
    (h : (m.received c r).result = .error s) : ∃ f, s = .fault f ∧ f.location? = none := by
  unfold received at h
  split at h
  · cases h
  · next f hf =>
    cases h
    exact ⟨f, rfl, hr f hf⟩

/-- A request is refused for want of memory or of a row, or by the outer world. -/
theorem perform_error {l : Position} {e : Effect} {s : Stop}
    (h : (m.perform c l e).result = .error s) :
    s = .outOfMemory ∨ s = .endless ∨ ∃ f, s = .fault f ∧ f.location? = none := by
  cases e with
  | none | goRandom => cases h
  | print text =>
    obtain ⟨cause, rfl⟩ := print_error m h
    exact Or.inr (Or.inr ⟨_, rfl, rfl⟩)
  | readInteger =>
    exact Or.inr (Or.inr (received_error m c (fun f => Console.readInteger_fault _) h))
  | readCharacter =>
    exact Or.inr (Or.inr (received_error m c (fun f => Console.readCharacter_fault _) h))
  | put x y value =>
    simp only [perform, put] at h
    split at h
    · cases h
    · split at h
      · cases h
      · cases h
        exact Or.inl rfl
  | fork =>
    simp only [perform, fork] at h
    split at h
    · cases h
      exact Or.inr (Or.inl rfl)
    · cases h

/-- A cursor that has read its cell. -/
def seen : Cursor := { c with last := m.field.read c.position }

/-- The turn of a live cursor up to its move. -/
def met : Turn := m.meet (m.seen c) (m.field.read c.position)

/-- The cursor is about to execute the instruction. -/
def Executes (i : Instruction) : Prop :=
  c.mode = .normal ∧ Instruction.ofCell? (m.field.read c.position) = some i

/-- A live cursor executes an instruction, or else the machine stays as it is. -/
theorem met_cases (hlive : c.mode ≠ .terminated) :
    (∃ i, m.Executes c i ∧ m.met c = m.execute (m.seen c) i) ∨
    ((∀ i, ¬ m.Executes c i) ∧
      (m.met c = ⟨m, (m.seen c).toggleLiteral, .ok ()⟩ ∨
       m.met c = ⟨m, (m.seen c).push (m.field.read c.position).code, .ok ()⟩ ∨
       m.met c = ⟨m, m.seen c,
         .error (.fault (.illegalInstruction (m.field.read c.position) c.position))⟩)) := by
  unfold met meet
  cases hmode : c.mode with
  | terminated => exact absurd hmode hlive
  | literal =>
    have hidle : ∀ i, ¬ m.Executes c i := by
      intro i hi
      rw [hi.1] at hmode
      cases hmode
    rw [if_pos (show (m.seen c).mode = .literal from hmode)]
    split
    · exact Or.inr ⟨hidle, Or.inl rfl⟩
    · exact Or.inr ⟨hidle, Or.inr (Or.inl rfl)⟩
  | normal =>
    have hseen : (m.seen c).mode ≠ .literal := by
      rw [show (m.seen c).mode = .normal from hmode]
      decide
    rw [if_neg hseen]
    cases hcell : Instruction.ofCell? (m.field.read c.position) with
    | none =>
      have hidle : ∀ i, ¬ m.Executes c i := by
        intro i hi
        rw [hi.2] at hcell
        cases hcell
      exact Or.inr ⟨hidle, Or.inr (Or.inr rfl)⟩
    | some i => exact Or.inl ⟨i, ⟨hmode, hcell⟩, rfl⟩

theorem met_of_executes {i : Instruction} (h : m.Executes c i) :
    m.met c = m.execute (m.seen c) i := by
  have hmode : (m.seen c).mode ≠ .literal := by
    rw [show (m.seen c).mode = .normal from h.1]
    decide
  simp only [met, meet, if_neg hmode, h.2]

/-- In literal mode every cell but the toggle is data. -/
theorem met_of_literal (h : c.mode = .literal) :
    m.met c =
      if m.field.read c.position = .char Instruction.toggle then
        ⟨m, (m.seen c).toggleLiteral, .ok ()⟩
      else ⟨m, (m.seen c).push (m.field.read c.position).code, .ok ()⟩ :=
  if_pos (show (m.seen c).mode = .literal from h)

theorem turn_of_terminated (h : c.mode = .terminated) :
    m.turn c = ⟨m, m.seen c, .ok ()⟩ := by
  have hterm : (m.seen c).isTerminated = true := by
    simp [Cursor.isTerminated, seen, h]
  exact if_pos hterm

/-- The turn of a live cursor ends with its move, unless it has failed before. -/
theorem turn_of_live (h : c.mode ≠ .terminated) :
    m.turn c =
      match (m.met c).result with
      | .error _ => m.met c
      | .ok () =>
        match (m.met c).cursor.stride (m.met c).machine.field with
        | .ok d => { m.met c with cursor := d }
        | .error s => { m.met c with result := .error s } := by
  have hlive : (m.seen c).isTerminated = false := by
    simp [Cursor.isTerminated, seen, h]
  exact if_neg (ne_true_of_eq_false hlive)

/-- The move changes the cursor only. -/
theorem turn_machine (h : c.mode ≠ .terminated) : (m.turn c).machine = (m.met c).machine := by
  rw [turn_of_live m c h]
  split
  · rfl
  · split <;> rfl

/-- A turn that succeeds has succeeded in its instruction and in its move. -/
theorem turn_ok (h : c.mode ≠ .terminated) (hok : (m.turn c).result = .ok ()) :
    (m.met c).result = .ok () ∧
      (m.met c).cursor.stride (m.met c).machine.field = .ok (m.turn c).cursor := by
  rw [turn_of_live m c h] at hok ⊢
  cases hmet : (m.met c).result with
  | error s => simp [hmet] at hok
  | ok u =>
    refine ⟨rfl, ?_⟩
    cases hstride : (m.met c).cursor.stride (m.met c).machine.field with
    | error s => simp [hmet, hstride] at hok
    | ok d => rfl

instance (i : Instruction) : Decidable (m.Executes c i) := inferInstanceAs (Decidable (_ ∧ _))

/-- The place and the value of the put that a cursor is about to make. -/
def putBy : Option (Position × Int64) :=
  if m.Executes c .put then (Effect.put (c.operand 1) (c.operand 2) (c.operand 0)).put? else none

end Machine

/-- Of all instructions only `put` asks for a write. -/
theorem Cursor.act_put? {f : Playfield} {c : Cursor} {i : Instruction} {e : Effect}
    (h : (c.act f i).2 = .ok e) :
    e.put? =
      if i = .put then (Effect.put (c.operand 1) (c.operand 2) (c.operand 0)).put? else none := by
  by_cases hi : i = .put
  · subst hi
    rw [if_pos rfl, ← Except.ok.inj h]
  · rw [if_neg hi]
    cases i with
    | put => exact absurd rfl hi
    | trampoline | jumpOver | jumpForward => rw [Cursor.act_effect_of_moves rfl h]; rfl
    | divide | modulo =>
      rw [Cursor.act] at h
      split at h
      · cases h
      · rw [← Except.ok.inj h]; rfl
    | reserved r => cases h
    | _ => rw [← Except.ok.inj h]; rfl

theorem Cursor.act_fork {f : Playfield} {c : Cursor} {i : Instruction}
    (h : (c.act f i).2 = .ok .fork) : i = .fork ∧ (c.act f i).1 = c := by
  cases i with
  | fork => exact ⟨rfl, rfl⟩
  | trampoline | jumpOver | jumpForward => cases Cursor.act_effect_of_moves rfl h
  | divide | modulo =>
    rw [Cursor.act] at h
    split at h <;> cases h
  | _ => cases h

namespace Machine

variable (m : Machine) (c : Cursor)

theorem execute_ok {i : Instruction} {e : Effect} (h : (c.act m.field i).2 = .ok e) :
    m.execute c i = m.perform (c.act m.field i).1 c.position e := by
  unfold execute
  rw [show c.act m.field i = ((c.act m.field i).1, .ok e) from Prod.ext rfl h]

theorem execute_error {i : Instruction} {s : Stop} (h : (c.act m.field i).2 = .error s) :
    m.execute c i = ⟨m, (c.act m.field i).1, .error s⟩ := by
  unfold execute
  rw [show c.act m.field i = ((c.act m.field i).1, .error s) from Prod.ext rfl h]

theorem executes_unique {i j : Instruction} (hi : m.Executes c i) (hj : m.Executes c j) :
    i = j := Option.some.inj (hi.2.symm.trans hj.2)

theorem putBy_of_executes {i : Instruction} (h : m.Executes c i) :
    m.putBy c =
      if i = .put then (Effect.put (c.operand 1) (c.operand 2) (c.operand 0)).put? else none := by
  unfold putBy
  by_cases hi : i = .put
  · subst hi
    rw [if_pos h, if_pos rfl]
  · rw [if_neg (fun hput => hi (executes_unique m c h hput)), if_neg hi]

theorem executes_of_putBy {p : Position} {value : Int64} (h : m.putBy c = some (p, value)) :
    m.Executes c .put := by
  unfold putBy at h
  split at h
  · next hput => exact hput
  · cases h

theorem putBy_of_idle (h : ∀ i, ¬ m.Executes c i) : m.putBy c = none := if_neg (h .put)

theorem idle_of_terminated (h : c.mode = .terminated) (i : Instruction) : ¬ m.Executes c i := by
  intro hi
  rw [hi.1] at h
  cases h

theorem execute_field {i : Instruction} (h : m.Executes c i) :
    (m.execute (m.seen c) i).machine.field = fieldAfter m.field (m.putBy c) := by
  rw [putBy_of_executes m c h]
  cases hact : ((m.seen c).act m.field i).2 with
  | ok e =>
    rw [execute_ok m _ hact, perform_field, Cursor.act_put? hact]
    rfl
  | error s =>
    rw [execute_error m _ hact]
    have hput : i ≠ .put := by
      rintro rfl
      cases hact
    rw [if_neg hput]
    rfl

/-- Only an instruction changes the machine in a turn. -/
theorem turn_machine_cases :
    (∃ i, m.Executes c i ∧ (m.turn c).machine = (m.execute (m.seen c) i).machine) ∨
      (∀ i, ¬ m.Executes c i) ∧ (m.turn c).machine = m := by
  by_cases hterm : c.mode = .terminated
  · rw [turn_of_terminated m c hterm]
    exact Or.inr ⟨idle_of_terminated m c hterm, rfl⟩
  · rw [turn_machine m c hterm]
    rcases met_cases m c hterm with ⟨i, hi, hmet⟩ | ⟨hidle, hmet | hmet | hmet⟩
    · exact Or.inl ⟨i, hi, by rw [hmet]⟩
    · exact Or.inr ⟨hidle, by rw [hmet]⟩
    · exact Or.inr ⟨hidle, by rw [hmet]⟩
    · exact Or.inr ⟨hidle, by rw [hmet]⟩

theorem turn_field : (m.turn c).machine.field = fieldAfter m.field (m.putBy c) := by
  rcases turn_machine_cases m c with ⟨i, hi, hmachine⟩ | ⟨hidle, hmachine⟩
  · rw [hmachine]
    exact execute_field m c hi
  · rw [hmachine, putBy_of_idle m c hidle]
    rfl

/-- A turn that succeeds writes what its put says and nothing else. -/
theorem read_turn (hok : (m.turn c).result = .ok ()) (q : Position) :
    (m.turn c).machine.field.read q =
      match m.putBy c with
      | some (p, value) => if q = p then .ofValue value else m.field.read q
      | none => m.field.read q := by
  rw [turn_field]
  cases hput : m.putBy c with
  | none => rfl
  | some pv =>
    obtain ⟨p, value⟩ := pv
    have hexec := executes_of_putBy m c hput
    have hlive : c.mode ≠ .terminated := fun h => idle_of_terminated m c h _ hexec
    have hmet := (turn_ok m c hlive hok).1
    rcases met_cases m c hlive with ⟨i, hi, heq⟩ | ⟨hidle, _⟩
    · have hi' := executes_unique m c hi hexec
      subst hi'
      rw [heq, execute_ok m (m.seen c) rfl] at hmet
      rw [putBy_of_executes m c hexec, if_pos rfl] at hput
      have hw := write?_of_perform_ok m _ hmet hput
      simp only [fieldAfter, hw, Option.getD_some]
      exact Playfield.read_write m.field p q _
    · exact absurd hexec (hidle _)

theorem execute_cursors {i : Instruction} :
    (m.execute (m.seen c) i).machine.cursors = m.cursors ∨
      i = .fork ∧ ∃ q, m.field.advance? c.position c.direction.opposite = some q ∧
        (m.execute (m.seen c) i).machine.cursors = child c q :: m.cursors := by
  cases hact : ((m.seen c).act m.field i).2 with
  | ok e =>
    rw [execute_ok m _ hact]
    rcases perform_cursors m ((m.seen c).act m.field i).1 c.position e with h | ⟨rfl, q, hq, h⟩
    · exact Or.inl h
    · obtain ⟨hi, hsame⟩ := Cursor.act_fork hact
      rw [hsame] at hq h
      refine Or.inr ⟨hi, q, hq, ?_⟩
      rw [hsame]
      exact h
  | error s =>
    rw [execute_error m _ hact]
    exact Or.inl rfl

theorem turn_constants :
    (m.turn c).machine.settings = m.settings ∧ (m.turn c).machine.ticks = m.ticks := by
  rcases turn_machine_cases m c with ⟨i, _, hmachine⟩ | ⟨_, hmachine⟩
  · rw [hmachine]
    cases hact : ((m.seen c).act m.field i).2 with
    | ok e =>
      rw [execute_ok m _ hact]
      exact perform_constants m _ _ e
    | error s =>
      rw [execute_error m _ hact]
      exact ⟨rfl, rfl⟩
  · rw [hmachine]
    exact ⟨rfl, rfl⟩

/-- A turn gives birth to at most one cursor, and only by a fork. -/
theorem turn_cursors : (m.turn c).machine.cursors = m.cursors ∨
    m.Executes c .fork ∧ ∃ q, m.field.advance? c.position c.direction.opposite = some q ∧
      (m.turn c).machine.cursors = child c q :: m.cursors := by
  rcases turn_machine_cases m c with ⟨i, hi, hmachine⟩ | ⟨_, hmachine⟩
  · rw [hmachine]
    rcases execute_cursors m c (i := i) with h | ⟨rfl, h⟩
    · exact Or.inl h
    · exact Or.inr ⟨hi, h⟩
  · rw [hmachine]
    exact Or.inl rfl

end Machine

end Funge
