import Funge.Proofs.Checked
import Funge.Proofs.Simulation

/-!
Safety. Every turn keeps the playfield within the length limit, so its sums, quotients and indices
pass all checks. What can stop a tick is a put that asks for too much memory, and nothing else.
-/

namespace Funge

namespace Cursor

variable {f : Playfield} {c : Cursor} {s : Stop}

/-- Steps go over the playfield as it is and ask for no memory. -/
theorem steps_within_memory (f : Playfield) :
    StepsAgree f f Eq fun s t => s = t ∧ s ≠ .outOfMemory where
  advance := by
    rintro c _ rfl
    unfold advance requireRoom
    split
    · next h =>
      split at h
      · cases h
        exact ⟨rfl, by simp⟩
      · cases h
    · split
      · rfl
      · exact ⟨rfl, by simp⟩
  marker := by
    rintro c _ rfl
    rfl
  extent := by
    rintro c _ rfl
    rfl
  endless := ⟨rfl, by simp⟩

theorem stride_within_memory (h : c.stride f = .error s) : s ≠ .outOfMemory := by
  have hagree := (steps_within_memory f).stride (rfl : c = c)
  rw [h] at hagree
  exact hagree.2

/-- No instruction fails for want of memory before its request is granted. -/
theorem act_within_memory {i : Instruction} (h : (c.act f i).2 = .error s) :
    s ≠ .outOfMemory := by
  have hmoved : ∀ {a : Cursor} {r : Except Stop Cursor}, (a.moved r).2 = .error s →
      r = .error s := by
    intro a r hr
    cases r with
    | error t => exact congrArg _ (Except.error.inj hr)
    | ok b => cases hr
  cases i with
  | trampoline =>
    have hagree := (steps_within_memory f).advance (rfl : c = c)
    rw [hmoved h] at hagree
    exact hagree.2
  | jumpOver =>
    have hagree := (steps_within_memory f).jumpOver (rfl : c = c)
    rw [hmoved h] at hagree
    exact hagree.2
  | jumpForward =>
    have hjump := hmoved h
    unfold jumpForward requireRoom at hjump
    split at hjump
    · next hroom =>
      split at hroom
      · cases hroom
        cases hjump
        simp
      · cases hroom
    · cases hjump
  | divide | modulo =>
    rw [act] at h
    split at h
    · cases h
      simp
    · cases h
  | reserved r =>
    cases h
    simp
  | _ => cases h

end Cursor

namespace Machine

/-- The cursor is about to put a value at a place, with no negative coordinate, for which the
playfield has to grow beyond the limits of rows and columns. -/
def HugePut (m : Machine) (c : Cursor) : Prop :=
  ∃ p value, m.putBy c = some (p, value) ∧ m.field.Overgrows p

theorem HugePut.executes {m : Machine} {c : Cursor} (h : m.HugePut c) : m.Executes c .put := by
  obtain ⟨p, value, hput, _⟩ := h
  exact executes_of_putBy m c hput

theorem perform_outOfMemory_iff (m : Machine) (c : Cursor) (l : Position) (e : Effect) :
    (m.perform c l e).result = .error .outOfMemory ↔
      ∃ p value, e.put? = some (p, value) ∧ m.field.Overgrows p := by
  cases e with
  | put x y v =>
    simp only [perform, put, Effect.put?]
    cases Position.ofWords? x y with
    | none => simp
    | some p =>
      by_cases hgrow : m.field.Overgrows p
      · simp [Playfield.write?, hgrow]
      · simp [Playfield.write?, hgrow]
  | print text =>
    refine iff_of_false (fun h => ?_) (by simp [Effect.put?])
    obtain ⟨cause, hcause⟩ := print_error m h
    cases hcause
  | readInteger =>
    refine iff_of_false (fun h => ?_) (by simp [Effect.put?])
    obtain ⟨f, hf, _⟩ := received_error m c (fun f => Console.readInteger_fault _) h
    cases hf
  | readCharacter =>
    refine iff_of_false (fun h => ?_) (by simp [Effect.put?])
    obtain ⟨f, hf, _⟩ := received_error m c (fun f => Console.readCharacter_fault _) h
    cases hf
  | fork =>
    refine iff_of_false (fun h => ?_) (by simp [Effect.put?])
    simp only [perform, fork] at h
    split at h <;> cases h
  | none | goRandom => simp [perform, Effect.put?]

theorem execute_outOfMemory_iff {m : Machine} {c : Cursor} {i : Instruction}
    (hi : m.Executes c i) :
    (m.execute (m.seen c) i).result = .error .outOfMemory ↔ m.HugePut c := by
  cases hact : ((m.seen c).act m.field i).2 with
  | error s =>
    rw [execute_error m _ hact]
    refine iff_of_false (fun h => ?_) (fun hput => ?_)
    · cases h
      exact Cursor.act_within_memory hact rfl
    · rw [executes_unique m c hi hput.executes] at hact
      cases hact
  | ok e =>
    rw [execute_ok m _ hact, perform_outOfMemory_iff, Cursor.act_put? hact, HugePut,
      putBy_of_executes m c hi]
    rfl

theorem turn_outOfMemory_iff (m : Machine) (c : Cursor) :
    (m.turn c).result = .error .outOfMemory ↔ m.HugePut c := by
  by_cases hterm : c.mode = .terminated
  · rw [turn_of_terminated m c hterm]
    exact iff_of_false (by simp) fun hput => idle_of_terminated m c hterm _ hput.executes
  · -- the move at the end of a turn asks for no memory, so what counts is what the cell does
    have hturn : (m.turn c).result = .error .outOfMemory ↔
        (m.met c).result = .error .outOfMemory := by
      rw [turn_of_live m c hterm]
      cases hmet : (m.met c).result with
      | error s => simp only [hmet]
      | ok u =>
        refine iff_of_false (fun h => ?_) (by simp)
        simp only at h
        split at h
        · simp [hmet] at h
        · next s hstride =>
          cases h
          exact Cursor.stride_within_memory hstride rfl
    rw [hturn]
    rcases met_cases m c hterm with ⟨i, hi, hmet⟩ | ⟨hidle, hmet | hmet | hmet⟩
    · rw [hmet]
      exact execute_outOfMemory_iff hi
    all_goals
      rw [hmet]
      exact iff_of_false (by simp) fun hput => hidle _ hput.executes

theorem TurnBegins.fails {m n : Machine} {c : Cursor} {cs rest : List Cursor} {s : Stop}
    (h : TurnBegins m cs c n rest) (hfails : (n.turn c).result = .error s) :
    (m.turns cs).1 = .error s := by
  induction h with
  | head m c rest => rw [turns_cons_error m hfails]
  | @tail m _ b _ _ _ hok _ ih =>
    rw [turns_cons_ok m hok]
    exact ih hfails

theorem tick_outOfMemory_iff (m : Machine) :
    m.tick.1 = .error .outOfMemory ↔
      ∃ c n rest, TurnBegins m.opened m.cursors c n rest ∧ n.HugePut c := by
  rw [tick_result]
  constructor
  · intro h
    obtain ⟨_, c, n, rest, hbegins, hfails, _⟩ := turns_error m.opened h
    exact ⟨c, n, rest, hbegins, (turn_outOfMemory_iff n c).mp hfails⟩
  · rintro ⟨c, n, rest, hbegins, hput⟩
    exact hbegins.fails ((turn_outOfMemory_iff n c).mpr hput)

/-! ## Puts without memory -/

/-- The place of a put is given by the operands of the cursor. -/
theorem ofWords?_of_putBy {m : Machine} {c : Cursor} {p : Position} {value : Int64}
    (h : m.putBy c = some (p, value)) :
    Position.ofWords? (c.operand 1) (c.operand 2) = some p := by
  rw [putBy, if_pos (executes_of_putBy m c h)] at h
  simp only [Effect.put?, Option.map_eq_some_iff, Prod.mk.injEq] at h
  obtain ⟨q, hq, rfl, _⟩ := h
  exact hq

/-- If no list can hold what a put asks for, the checks stop it, whatever room there is to spare. -/
theorem checkedTurn_eq_none {m : Machine} {c : Cursor} {p : Position} {value : Int64}
    {spare : Playfield.Spare} (hput : m.putBy c = some (p, value)) (hp : m.field.Exceeds p)
    (hspare : spare.Fits m.field) : m.checkedTurn spare c = none := by
  have hexecutes := executes_of_putBy m c hput
  have hlive : c.mode ≠ .terminated := fun h => idle_of_terminated m c h _ hexecutes
  have hmode : (m.seen c).mode ≠ .literal := by
    rw [show (m.seen c).mode = .normal from hexecutes.1]
    decide
  have hwrite : m.checkedPut spare (c.operand 1) (c.operand 2) (c.operand 0) c.position = none := by
    simp only [checkedPut, ofWords?_of_putBy hput, Playfield.checkedWrite_eq_none _ hspare hp]
    rfl
  have hmeet : m.checkedMeet spare (m.seen c) (m.field.read c.position) = none := by
    rw [checkedMeet, if_neg hmode, hexecutes.2]
    change (m.checkedPut spare (c.operand 1) (c.operand 2) (c.operand 0) c.position).bind _ = none
    rw [hwrite, Option.bind_none]
  rw [checkedTurn_of_live hlive, hmeet, Option.bind_none]

/-- The turns before one that the checks stop have passed them. -/
theorem TurnBegins.checkedTurns_eq_none {m n : Machine} {c : Cursor} {cs rest : List Cursor}
    {spare : Playfield.Spare} (h : TurnBegins m cs c n rest) (hm : m.field.Bounded)
    (hnone : n.checkedTurn spare c = none) : m.checkedTurns spare cs = none := by
  induction h with
  | head m c rest =>
    rw [checkedTurns, hnone]
    rfl
  | @tail m _ b _ _ _ hok _ ih =>
    rw [checkedTurns, checkedTurn_eq hm (by simp [hok])]
    simp only [Option.bind_eq_bind, Option.bind_some, hok,
      ih (stored_footing.turn_field hm) hnone, Option.bind_none]

theorem TurnBegins.checkedTick_eq_none {m n : Machine} {c : Cursor} {rest : List Cursor}
    {spare : Playfield.Spare} (h : TurnBegins m.opened m.cursors c n rest) (hm : m.field.Bounded)
    (hnone : n.checkedTurn spare c = none) : m.checkedTick spare = none := by
  rw [checkedTick, h.checkedTurns_eq_none hm hnone]
  rfl

/-! ## Every tick -/

/-- The limit on the playfield is an invariant that asks nothing of the cursors. -/
theorem bounded_invariant : Invariant Playfield.Bounded fun _ _ => True where
  field hm _ := stored_footing.turn_field hm
  newborn _ _ _ := trivial
  others _ _ _ := trivial
  self _ _ _ := trivial

/-- Computes `13 ^ 16`, which is more than `2 ^ 59`, and puts a value in that column. -/
def overreach : Playfield := ⟨["0d:*:*:*:*7p@".toList.map .char]⟩

def overreaching : Machine := start overreach {} {} 0

/-- The cursor of the program when it comes to the put. -/
def overreacher : Cursor :=
  { Cursor.initial with
    position := ⟨11, 0⟩, stack := ⟨[7, 0x93c08e16a022441, 0]⟩, last := .char '7' }

theorem reaches_overreaching {n : Nat} (hn : n ≤ 11) :
    overreaching.Reaches (overreaching.after n) := by
  have hreturns : ∀ k < 11, Returns (overreaching.after k).tick.1 := by decide +kernel
  exact reaches_after overreaching fun k hk => hreturns k (by omega)

end Machine

end Funge
