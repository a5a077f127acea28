import Funge.Machine.Tick
import Funge.Proofs.Turn

/-!
Ticks as series of turns, and runs as series of ticks. A tick that returns leaves a machine
behind, with or without a fault; one that searches without end, or needs more memory than
there is, does not.
-/

namespace Funge.Machine

variable (m : Machine)

theorem tick_result : m.tick.1 = (m.opened.turns m.cursors).1 := rfl

theorem tick_machine :
    m.tick.2 = (m.opened.turns m.cursors).2.2.close (m.opened.turns m.cursors).2.1 := rfl

theorem turns_cons_error {c : Cursor} {s : Stop} (h : (m.turn c).result = .error s)
    (rest : List Cursor) :
    m.turns (c :: rest) = (.error s, (m.turn c).cursor :: rest, (m.turn c).machine) := by
  simp only [turns, h]

theorem turns_cons_ok {c : Cursor} (h : (m.turn c).result = .ok ()) (rest : List Cursor) :
    m.turns (c :: rest) =
      (((m.turn c).machine.turns rest).1,
        (m.turn c).cursor :: ((m.turn c).machine.turns rest).2.1,
        ((m.turn c).machine.turns rest).2.2) := by
  simp only [turns, h]

/-- Turns that all succeed have succeeded one by one. -/
theorem turns_cons_of_ok {c : Cursor} {rest : List Cursor}
    (hok : (m.turns (c :: rest)).1 = .ok ()) :
    (m.turn c).result = .ok () ∧ ((m.turn c).machine.turns rest).1 = .ok () := by
  cases hres : (m.turn c).result with
  | error s =>
    rw [turns_cons_error m hres] at hok
    cases hok
  | ok u =>
    rw [turns_cons_ok m hres] at hok
    exact ⟨rfl, hok⟩

theorem mem_close_cursors {after : List Cursor} {c : Cursor} :
    c ∈ (m.close after).cursors ↔ (c ∈ m.cursors ∨ c ∈ after) ∧ c.isTerminated = false := by
  rw [close, List.mem_filter, List.mem_append, Bool.not_eq_true']

/-- Of the turns of a list of cursors that start with `m`, that of `c` begins with the machine
`n`, and the cursors of `rest` have their turns after it. -/
inductive TurnBegins : Machine → List Cursor → Cursor → Machine → List Cursor → Prop
  | head (m : Machine) (c : Cursor) (rest : List Cursor) : TurnBegins m (c :: rest) c m rest
  | tail {m n : Machine} {b c : Cursor} {cs rest : List Cursor} :
    (m.turn b).result = .ok () → TurnBegins (m.turn b).machine cs c n rest →
      TurnBegins m (b :: cs) c n rest

theorem TurnBegins.mem {m n : Machine} {c : Cursor} {cs rest : List Cursor}
    (h : TurnBegins m cs c n rest) : c ∈ cs := by
  induction h with
  | head => exact List.mem_cons_self ..
  | tail _ _ ih => exact List.mem_cons_of_mem _ ih

/-- Turns that do not all succeed end with one that fails. -/
theorem turns_error {cs : List Cursor} {s : Stop} (h : (m.turns cs).1 = .error s) :
    ∃ earlier c n rest, TurnBegins m cs c n rest ∧ (n.turn c).result = .error s ∧
      m.turns cs = (.error s, earlier ++ (n.turn c).cursor :: rest, (n.turn c).machine) := by
  induction cs generalizing m with
  | nil => cases h
  | cons b cs ih =>
    cases hres : (m.turn b).result with
    | error s' =>
      have hturns := turns_cons_error m hres cs
      rw [hturns] at h
      cases h
      exact ⟨[], b, m, cs, .head m b cs, hres, hturns⟩
    | ok u =>
      have hturns := turns_cons_ok m hres cs
      rw [hturns] at h
      obtain ⟨earlier, c, n, rest, hbegins, hfail, heq⟩ := ih (m.turn b).machine h
      refine ⟨(m.turn b).cursor :: earlier, c, n, rest, .tail hres hbegins, hfail, ?_⟩
      rw [hturns, heq]
      rfl

/-- The machine `k` ticks later. -/
def after : Nat → Machine
  | 0 => m
  | k + 1 => (after k).tick.2

theorem turns_constants (cs : List Cursor) :
    (m.turns cs).2.2.settings = m.settings ∧ (m.turns cs).2.2.ticks = m.ticks := by
  induction cs generalizing m with
  | nil => exact ⟨rfl, rfl⟩
  | cons c cs ih =>
    obtain ⟨hsettings, hticks⟩ := turn_constants m c
    cases hres : (m.turn c).result with
    | error s =>
      rw [turns_cons_error m hres]
      exact ⟨hsettings, hticks⟩
    | ok u =>
      rw [turns_cons_ok m hres]
      obtain ⟨hsettings', hticks'⟩ := ih (m.turn c).machine
      exact ⟨hsettings'.trans hsettings, hticks'.trans hticks⟩

theorem tick_settings : m.tick.2.settings = m.settings :=
  (turns_constants m.opened m.cursors).1

/-- A tick counts, whether or not it fails. -/
theorem tick_ticks : m.tick.2.ticks = m.ticks + 1 :=
  congrArg (· + 1) (turns_constants m.opened m.cursors).2

theorem after_settings (k : Nat) : (m.after k).settings = m.settings := by
  induction k with
  | zero => rfl
  | succ k ih => rw [after, tick_settings, ih]

theorem after_add (j k : Nat) : m.after (j + k) = (m.after j).after k := by
  induction k with
  | zero => rfl
  | succ k ih => rw [← Nat.add_assoc, after, after, ih]

theorem after_ticks (k : Nat) : (m.after k).ticks = m.ticks + k := by
  induction k with
  | zero => rfl
  | succ k ih =>
    rw [after, tick_ticks, ih]
    rfl

/-- The program comes back from a tick with this result. -/
def Returns : Except Stop Unit → Prop
  | .ok () => True
  | .error (.fault _) => True
  | .error .outOfMemory => False
  | .error .endless => False

instance : DecidablePred Returns
  | .ok () => isTrue trivial
  | .error (.fault _) => isTrue trivial
  | .error .outOfMemory => isFalse id
  | .error .endless => isFalse id

/-- The machine is reached by any number of ticks, some of which may have failed. -/
inductive Reaches : Machine → Prop
  | start : Reaches m
  | tick {n : Machine} : Reaches n → Returns n.tick.1 → Reaches n.tick.2

theorem reaches_after {n : Nat} (h : ∀ k < n, Returns (m.after k).tick.1) :
    m.Reaches (m.after n) := by
  induction n with
  | zero => exact .start
  | succ n ih => exact (ih fun k hk => h k (by omega)).tick (h n (by omega))

end Funge.Machine
