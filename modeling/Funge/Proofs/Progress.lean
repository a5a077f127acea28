import Funge.Machine.Run
import Funge.Proofs.Tick

/-!
Printed text goes to the output, or to the transcript while frames are shown.

Runs followed tick by tick. While its ticks succeed a plain run does nothing but tick; it
ends with the first tick that fails, or with a line end once no cursor is left. The tick of a
machine with one cursor is the turn of that cursor.
-/

namespace Funge.Machine

open Text

variable {m : Machine} {c : Cursor}

theorem write_of_room (h : m.console.room = none) (text : String) :
    m.write text = (.ok (), { m with console :=
      { m.console with output := m.console.output ++ Utf8.encode text } }) := by
  unfold write
  rw [Console.write_of_unlimited h]

theorem print_of_plain (h : m.settings.showSteps = false) (text : String) :
    m.print text = m.write text := by
  rw [print, h]
  rfl

theorem print_of_tracing (h : m.settings.showSteps = true) (text : String) :
    m.print text = (.ok (), { m with transcript := m.transcript ++ text }) := by
  rw [print, if_pos h]

/-- Executed with `v` on top of the stack, the instruction takes `v` and prints the text: to an
output without limit, or to the transcript while frames are shown. -/
structure Emits (i : Instruction) (v : Int64) (text : String) : Prop where
  plain : ∀ (m : Machine) (c : Cursor), c.operand 0 = v → m.settings.showSteps = false →
    m.console.room = none →
      m.execute c i = ⟨{ m with console :=
        { m.console with output := m.console.output ++ Utf8.encode text } }, c.drop 1, .ok ()⟩
  traced : ∀ (m : Machine) (c : Cursor), c.operand 0 = v → m.settings.showSteps = true →
    m.execute c i = ⟨{ m with transcript := m.transcript ++ text }, c.drop 1, .ok ()⟩

theorem emits_of_act {i : Instruction} {v : Int64} {text : String}
    (h : ∀ f (c : Cursor), c.operand 0 = v → c.act f i = (c.drop 1, .ok (.print text))) :
    Emits i v text := by
  have hexecute : ∀ (m : Machine) (c : Cursor), c.operand 0 = v →
      m.execute c i = ⟨(m.print text).2, c.drop 1, (m.print text).1⟩ := by
    intro m c hc
    rw [execute, h m.field c hc]
    rfl
  constructor
  · intro m c hc hplain hroom
    rw [hexecute m c hc, print_of_plain hplain, write_of_room hroom]
  · intro m c hc htraced
    rw [hexecute m c hc, print_of_tracing htraced]

theorem emits_printInteger (v : Int64) :
    Emits .printInteger v (Decimal.write v.toInt ++ " ") := by
  apply emits_of_act
  rintro f c rfl
  rfl

theorem emits_printCharacter (v : Int64) :
    Emits .printCharacter v (Cursor.printedCharacter v) := by
  apply emits_of_act
  rintro f c rfl
  rfl

theorem showFrame_of_plain (h : m.settings.showSteps = false) : m.showFrame = (.ok (), m) := by
  rw [showFrame, h]
  rfl

theorem finish_of_showFrame {m' : Machine} (hshow : m.showFrame = (.ok (), m'))
    (hroom : m'.console.room = none) :
    m.finish = (.ok (), { m' with
      console := { m'.console with output := m'.console.output ++ Utf8.encode "\n" }
      journal := m'.journal.push (.runFinished m'.ticks) }) := by
  rw [finish, hshow]
  simp only [write_of_room hroom]
  rfl

/-- The program goes through `n` ticks without an end and without a failure. -/
def Proceeds (m : Machine) (n : Nat) : Prop :=
  ∀ j < n, (m.after j).isFinished = false ∧ (m.after j).tick.1 = .ok ()

theorem Proceeds.zero : m.Proceeds 0 := by
  intro j hj
  omega

theorem Proceeds.add {j k : Nat} (h : m.Proceeds j) (h' : (m.after j).Proceeds k) :
    m.Proceeds (j + k) := by
  intro i hi
  by_cases hij : i < j
  · exact h i hij
  · have hlater := h' (i - j) (by omega)
    rwa [← after_add, show j + (i - j) = i by omega] at hlater

theorem Proceeds.one (hlive : m.isFinished = false) (hok : m.tick.1 = .ok ()) : m.Proceeds 1 := by
  intro j hj
  obtain rfl : j = 0 := by omega
  exact ⟨hlive, hok⟩

theorem round_of_plain (h : m.settings.showSteps = false) : m.round = m.tick := by
  rw [round, showFrame_of_plain h]

theorem rounds_of_proceeds (hplain : m.settings.showSteps = false) {n : Nat}
    (h : m.Proceeds n) (fuel : Nat) : m.rounds (n + fuel) = (m.after n).rounds fuel := by
  induction n generalizing fuel with
  | zero => simp [after]
  | succ n ih =>
    have hbefore : m.Proceeds n := fun j hj => h j (by omega)
    obtain ⟨hlive, hok⟩ := h n (by omega)
    have hplain' : (m.after n).settings.showSteps = false := by
      rw [after_settings, hplain]
    rw [show n + 1 + fuel = n + (fuel + 1) by omega, ih hbefore, rounds, hlive,
      round_of_plain hplain',
      show (m.after n).tick = (.ok (), m.after (n + 1)) from Prod.ext hok rfl]
    rfl

/-- A run whose program fails after `n` ticks that succeed. -/
theorem run_of_failed (hplain : m.settings.showSteps = false) {n : Nat}
    (h : m.announce.Proceeds n) (hlive : (m.announce.after n).isFinished = false) {s : Stop}
    (hfail : (m.announce.after n).tick.1 = .error s) {fuel : Nat} (hfuel : n < fuel) :
    m.run fuel = some (.error s, m.announce.after (n + 1)) := by
  have hplain' : (m.announce.after n).settings.showSteps = false := by
    rw [after_settings]
    exact hplain
  obtain ⟨rest, rfl⟩ : ∃ rest, fuel = n + (rest + 1) := ⟨fuel - n - 1, by omega⟩
  have hround : (m.announce.after n).round = (.error s, m.announce.after (n + 1)) := by
    rw [round_of_plain hplain']
    exact Prod.ext hfail rfl
  rw [run, rounds_of_proceeds (m := m.announce) hplain h, rounds, hlive, hround]
  rfl

/-- A run whose program ends after `n` ticks, over an output without limit. -/
theorem run_of_finished (hplain : m.settings.showSteps = false) {n : Nat}
    (h : m.announce.Proceeds n) (hend : (m.announce.after n).isFinished = true)
    (hroom : (m.announce.after n).console.room = none) {fuel : Nat} (hfuel : n ≤ fuel) :
    ∃ m', m.run fuel = some (.ok (), m') ∧ m'.ticks = m.ticks + n ∧
      m'.console.output =
        (m.announce.after n).console.output ++ Utf8.encode "\n" := by
  have hplain' : (m.announce.after n).settings.showSteps = false := by
    rw [after_settings]
    exact hplain
  obtain ⟨rest, rfl⟩ : ∃ rest, fuel = n + rest := ⟨fuel - n, by omega⟩
  have hrounds : (m.announce.after n).rounds rest = some (.ok (), m.announce.after n) := by
    cases rest <;> simp [rounds, hend]
  rw [run, rounds_of_proceeds (m := m.announce) hplain h, hrounds]
  exact ⟨_, congrArg some (finish_of_showFrame (showFrame_of_plain hplain') hroom),
    after_ticks m.announce n, rfl⟩

theorem tick_of_lone {t : Turn} (hc : m.cursors = [c]) (hturn : m.opened.turn c = t) :
    m.tick = (t.result, t.machine.close [t.cursor]) := by
  have hturns : m.opened.turns m.cursors = (t.result, [t.cursor], t.machine) := by
    subst hturn
    rw [hc]
    cases hres : (m.opened.turn c).result with
    | ok u => rw [turns_cons_ok _ hres]; rfl
    | error s => rw [turns_cons_error _ hres]
  exact Prod.ext (by rw [tick_result, hturns]) (by rw [tick_machine, hturns])

/-- The tick of a lone cursor that does something with its cell and moves on. -/
theorem tick_of_lone_met {n : Machine} {d e : Cursor} (hc : m.cursors = [c])
    (hlive : c.mode ≠ .terminated) (hmet : m.opened.met c = ⟨n, d, .ok ()⟩)
    (hmove : d.stride n.field = .ok e) : m.tick = (.ok (), n.close [e]) := by
  have hturn : m.opened.turn c = ⟨n, e, .ok ()⟩ := by
    rw [turn_of_live _ _ hlive, hmet]
    simp only [hmove]
  exact tick_of_lone hc hturn

/-- The tick of a lone cursor that executes an instruction and moves on. -/
theorem tick_of_lone_ok {i : Instruction} {n : Machine} {d e : Cursor} (hc : m.cursors = [c])
    (hi : m.Executes c i) (hexec : m.opened.execute (m.seen c) i = ⟨n, d, .ok ()⟩)
    (hmove : d.stride n.field = .ok e) : m.tick = (.ok (), n.close [e]) :=
  tick_of_lone_met hc (fun h => idle_of_terminated m c h i hi)
    ((met_of_executes m.opened c hi).trans hexec) hmove

/-- The tick of a lone cursor whose instruction fails. -/
theorem tick_of_lone_error {i : Instruction} {n : Machine} {d : Cursor} {s : Stop}
    (hc : m.cursors = [c]) (hi : m.Executes c i)
    (hexec : m.opened.execute (m.seen c) i = ⟨n, d, .error s⟩) :
    m.tick = (.error s, n.close [d]) := by
  have hlive : c.mode ≠ .terminated := fun h => idle_of_terminated m c h i hi
  have hmet : m.opened.met c = ⟨n, d, .error s⟩ := (met_of_executes m.opened c hi).trans hexec
  have hturn : m.opened.turn c = ⟨n, d, .error s⟩ := by
    rw [turn_of_live _ _ hlive, hmet]
  exact tick_of_lone hc hturn

/-- Prints a digit and halts. -/
def digitPrinter : Playfield := ⟨[[.char '7', .char '.', .char '@']]⟩

end Funge.Machine
