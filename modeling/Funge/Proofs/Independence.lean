import Funge.Proofs.Tick

/-!
Cursors that keep to themselves. An instruction that asks nothing of the machine leaves all of it
as it is, so in a tick of such instructions no cursor notices the others: the tick can give the
turns in any order.
-/

namespace Funge

/-- The instruction asks nothing of the machine around its cursor. -/
def Instruction.isQuiet : Instruction → Bool
  | put | printInteger | printCharacter | readInteger | readCharacter | goRandom | fork => false
  | _ => true

/-- A quiet instruction reads the playfield and changes its own cursor, no more. -/
theorem Cursor.act_of_quiet {f : Playfield} {c : Cursor} {i : Instruction} (hi : i.isQuiet = true)
    {e : Effect} (h : (c.act f i).2 = .ok e) : e = .none := by
  cases i with
  | put | printInteger | printCharacter | readInteger | readCharacter | goRandom | fork => cases hi
  | trampoline | jumpOver | jumpForward => exact Cursor.act_effect_of_moves rfl h
  | divide | modulo =>
    rw [act] at h
    split at h <;> cases h
    rfl
  | reserved r => cases h
  | _ =>
    cases h
    rfl

namespace Machine

variable (m : Machine)

/-- Whatever the cursor may execute in its turn is quiet. -/
def Quiet (c : Cursor) : Prop := ∀ i, m.Executes c i → i.isQuiet = true

/-- The frame of a quiet turn: the machine stays as it is, whether or not the turn succeeds. -/
theorem turn_machine_of_quiet {c : Cursor} (h : m.Quiet c) : (m.turn c).machine = m := by
  rcases turn_machine_cases m c with ⟨i, hi, hmachine⟩ | ⟨_, hmachine⟩
  · rw [hmachine]
    cases hact : ((m.seen c).act m.field i).2 with
    | error s => rw [execute_error m _ hact]
    | ok e =>
      obtain rfl := Cursor.act_of_quiet (h i hi) hact
      rw [execute_ok m _ hact]
      rfl
  · exact hmachine

/-- Where the turn of a cursor takes it if nothing has happened before. -/
def reached (c : Cursor) : Cursor := (m.turn c).cursor

theorem turns_of_quiet {cs : List Cursor}
    (h : ∀ c ∈ cs, m.Quiet c ∧ (m.turn c).result = .ok ()) :
    m.turns cs = (.ok (), cs.map m.reached, m) := by
  induction cs with
  | nil => rfl
  | cons c cs ih =>
    obtain ⟨hquiet, hok⟩ := h c (List.mem_cons_self ..)
    rw [turns_cons_ok m hok, turn_machine_of_quiet m hquiet,
      ih fun d hd => h d (List.mem_cons_of_mem _ hd)]
    rfl

/-- If all turns are quiet when they begin, each of them might as well have been the first. -/
theorem quiet_of_begins {cs : List Cursor} (hok : (m.turns cs).1 = .ok ())
    (hquiet : ∀ c n rest, TurnBegins m cs c n rest → n.Quiet c) :
    ∀ c ∈ cs, m.Quiet c ∧ (m.turn c).result = .ok () := by
  induction cs with
  | nil => exact fun c hc => nomatch hc
  | cons b cs ih =>
    obtain ⟨hres, hrest⟩ := turns_cons_of_ok m hok
    have hb : m.Quiet b := hquiet b m cs (.head m b cs)
    have hsame := turn_machine_of_quiet m hb
    rw [hsame] at hrest
    intro c hc
    rcases List.mem_cons.mp hc with rfl | hc
    · exact ⟨hb, hres⟩
    · refine ih hrest (fun d n rest hbegins => hquiet d n rest (.tail hres ?_)) c hc
      rwa [hsame]

/-- What a tick of quiet turns leaves. -/
theorem tick_of_quiet (h : ∀ c ∈ m.cursors, m.opened.Quiet c ∧ (m.opened.turn c).result = .ok ()) :
    m.tick = (.ok (), m.opened.close (m.cursors.map m.opened.reached)) := by
  rw [tick, turns_of_quiet m.opened h]

theorem opened_of_perm {cs : List Cursor} (h : cs.Perm m.cursors) :
    Machine.opened { m with cursors := cs } = m.opened := by
  simp only [opened, report, h.length_eq]

/-- **Independent cursors commute.** Let the next tick succeed, with turns that all execute quiet
instructions. Then it succeeds with the cursors in any other order too; every cursor reaches the
same state, those that survive stand in the new order, and the playfield, the console, the random
source, the transcript and the count of ticks are the same. -/
theorem tick_of_permuted (hok : m.tick.1 = .ok ())
    (hquiet : ∀ c n rest, TurnBegins m.opened m.cursors c n rest →
      ∀ i, n.Executes c i → i.isQuiet = true)
    {cs : List Cursor} (hperm : cs.Perm m.cursors) :
    let n : Machine := { m with cursors := cs }
    n.tick.1 = .ok () ∧
    (m.opened.turns m.cursors).2.1 = m.cursors.map m.opened.reached ∧
    (n.opened.turns n.cursors).2.1 = cs.map m.opened.reached ∧
    m.tick.2.cursors = (m.cursors.map m.opened.reached).filter (fun c => !c.isTerminated) ∧
    n.tick.2.cursors = (cs.map m.opened.reached).filter (fun c => !c.isTerminated) ∧
    n.tick.2.field = m.tick.2.field ∧ n.tick.2.console = m.tick.2.console ∧
    n.tick.2.random = m.tick.2.random ∧ n.tick.2.transcript = m.tick.2.transcript ∧
    n.tick.2.ticks = m.tick.2.ticks := by
  intro n
  have hall := quiet_of_begins m.opened hok hquiet
  have hopened : n.opened = m.opened := opened_of_perm m hperm
  have hall' : ∀ c ∈ n.cursors, n.opened.Quiet c ∧ (n.opened.turn c).result = .ok () := by
    intro c hc
    rw [hopened]
    exact hall c (hperm.mem_iff.mp hc)
  have hturns := turns_of_quiet m.opened hall
  have hturns' := turns_of_quiet n.opened hall'
  have htick := tick_of_quiet m hall
  have htick' := tick_of_quiet n hall'
  rw [hopened] at hturns' htick'
  rw [hopened, hturns, hturns', htick, htick']
  exact ⟨rfl, rfl, rfl, rfl, rfl, rfl, rfl, rfl, rfl, rfl⟩

/-- A cursor on a digit, one on a halt and one that reads the digit as a literal. -/
def trio : Machine :=
  { start ⟨[[.char '1', .char '@']]⟩ {} {} 0 with
    cursors := [.initial, { position := ⟨1, 0⟩, direction := .up },
      { position := ⟨0, 0⟩, direction := .left, mode := .literal }] }

theorem trio_quiet (c : Cursor) (n : Machine) (rest : List Cursor)
    (h : TurnBegins trio.opened trio.cursors c n rest) (i : Instruction) (hi : n.Executes c i) :
    i.isQuiet = true := by
  cases h with
  | head =>
    obtain rfl : .digit 1 = i := Option.some.inj hi.2
    rfl
  | tail _ h =>
    cases h with
    | head =>
      obtain rfl : .halt = i := Option.some.inj hi.2
      rfl
    | tail _ h =>
      cases h with
      | head => cases hi.1
      | tail _ h => cases h

/-- From the last to the first, the three cursors do what they do from the first to the last. -/
theorem tick_of_permuted_trio :
    trio.tick.1 = .ok () ∧ trio.cursors.reverse.Perm trio.cursors ∧
      (∀ c n rest, TurnBegins trio.opened trio.cursors c n rest →
        ∀ i, n.Executes c i → i.isQuiet = true) ∧
      trio.tick.2.cursors.length = 2 ∧
      (Machine.tick { trio with cursors := trio.cursors.reverse }).1 = .ok () ∧
      (Machine.tick { trio with cursors := trio.cursors.reverse }).2.cursors =
        (trio.cursors.reverse.map trio.opened.reached).filter (fun c => !c.isTerminated) := by
  have hok : trio.tick.1 = .ok () := rfl
  have hperm := List.reverse_perm trio.cursors
  obtain ⟨hok', _, _, _, hcursors, _⟩ := tick_of_permuted trio hok trio_quiet hperm
  exact ⟨hok, hperm, trio_quiet, by decide +kernel, hok', hcursors⟩

end Machine

end Funge
