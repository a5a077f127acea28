import Funge.Proofs.Progress
import Funge.Proofs.Simulation

/-!
Tracing shows a program at work and changes nothing in it. A machine that traces goes in
lockstep with one that does not: what the plain machine writes, the traced one keeps in its
transcript, and what the traced machine writes are its frames, one before every tick and one
at the end of a run.
-/

namespace Funge

open Text

/-- Where the output of a program goes. On a plain console `k` it comes after `base`; where the
program is traced it is kept as `text`, and the console `k'` has only what is `shown`. -/
structure Outlets (traced : Settings) (base shown : Array UInt8) (s : Settings) (k : Console)
    (s' : Settings) (text : String) (k' : Console) : Prop where
  plain : s.showSteps = false
  settings : s' = traced
  tracing : s'.showSteps = true
  room : k.room = none
  room' : k'.room = none
  written : k.output = base ++ Utf8.encode text
  shown : k'.output = shown

namespace Machine

/-- The machines agree in all that a program can reach. -/
structure SameProgram (m n : Machine) : Prop where
  field : n.field = m.field
  cursors : n.cursors = m.cursors
  ticks : n.ticks = m.ticks
  random : n.random = m.random
  input : n.console.input = m.console.input

/-- The machine `n` traces the program that `m` runs plainly. -/
structure Traced (traced : Settings) (base shown : Array UInt8) (m n : Machine) : Prop extends
    SameProgram m n where
  outlets : Outlets traced base shown m.settings m.console n.settings n.transcript n.console

variable {traced : Settings} {base shown : Array UInt8} {m n : Machine}

theorem traced_received (h : Traced traced base shown m n) (c : Cursor) (r : Console.Reading) :
    (m.received c (r.over m.console)).Agrees (Traced traced base shown) Eq Eq
      (n.received c (r.over n.console)) := by
  have houtlets : Outlets traced base shown m.settings (r.over m.console).console n.settings
      n.transcript (r.over n.console).console :=
    ⟨h.outlets.plain, h.outlets.settings, h.outlets.tracing, h.outlets.room, h.outlets.room',
      h.outlets.written, h.outlets.shown⟩
  simp only [received, show (r.over m.console).value = r.value from rfl,
    show (r.over n.console).value = r.value from rfl]
  cases r.value with
  | ok v => exact ⟨⟨⟨h.field, h.cursors, h.ticks, h.random, rfl⟩, houtlets⟩, rfl, trivial⟩
  | error f => exact ⟨⟨⟨h.field, h.cursors, h.ticks, h.random, rfl⟩, houtlets⟩, rfl, rfl⟩

theorem traced_print (h : Traced traced base shown m n) (text : String) :
    ∃ m' n', m.print text = (.ok (), m') ∧ n.print text = (.ok (), n') ∧
      Traced traced base shown m' n' := by
  refine ⟨_, _, (print_of_plain h.outlets.plain text).trans (write_of_room h.outlets.room text),
    print_of_tracing h.outlets.tracing text,
    ⟨h.field, h.cursors, h.ticks, h.random, h.input⟩,
    ⟨h.outlets.plain, h.outlets.settings, h.outlets.tracing, h.outlets.room, h.outlets.room', ?_,
      h.outlets.shown⟩⟩
  rw [Utf8.encode_append, ← Array.append_assoc, ← h.outlets.written]

/-- Only a request to print is granted in different ways. -/
theorem traced_perform (h : Traced traced base shown m n) (c : Cursor) (l : Position)
    (e : Effect) :
    (m.perform c l e).Agrees (Traced traced base shown) Eq Eq (n.perform c l e) := by
  have hbare : n.console.bare = m.console.bare := by
    rw [Console.bare, Console.bare, h.input]
  cases e with
  | none => exact ⟨h, rfl, trivial⟩
  | print text =>
    obtain ⟨m', n', hm, hn, h'⟩ := traced_print h text
    simp only [perform, hm, hn]
    exact ⟨h', rfl, trivial⟩
  | readInteger =>
    rw [perform, perform, Console.readInteger_bare m.console, Console.readInteger_bare n.console,
      hbare]
    exact traced_received h c _
  | readCharacter =>
    rw [perform, perform, Console.readCharacter_bare m.console,
      Console.readCharacter_bare n.console, hbare]
    exact traced_received h c _
  | put x y value =>
    simp only [perform, put, h.field]
    split
    · exact ⟨⟨⟨h.field, h.cursors, h.ticks, h.random, h.input⟩, h.outlets⟩, rfl, trivial⟩
    · split
      · exact ⟨⟨⟨rfl, h.cursors, h.ticks, h.random, h.input⟩, h.outlets⟩, rfl, trivial⟩
      · exact ⟨h, rfl, rfl⟩
  | fork =>
    simp only [perform, fork, h.field]
    split
    · exact ⟨h, rfl, rfl⟩
    · exact ⟨⟨⟨h.field, congrArg (_ :: ·) h.cursors, h.ticks, h.random, h.input⟩, h.outlets⟩, rfl,
        trivial⟩
  | goRandom =>
    simp only [perform, h.random]
    exact ⟨⟨⟨h.field, h.cursors, h.ticks, rfl, h.input⟩, h.outlets⟩, rfl, trivial⟩

theorem traced_simulation (traced : Settings) (base shown : Array UInt8) :
    Simulation (Traced traced base shown) Eq Eq where
  cursors h := by
    rw [h.cursors]
    exact List.forall₂_refl _
  opened h := ⟨⟨h.field, rfl, h.ticks, h.random, h.input⟩, h.outlets⟩
  turn := by
    rintro m n c _ h rfl
    exact turn_agrees_of_perform (fun h => h.field) traced_perform h c
  close := by
    intro m n cs ds h hcs
    rw [List.forall₂_eq_eq_eq] at hcs
    subst hcs
    refine ⟨⟨h.field, ?_, congrArg (· + 1) h.ticks, h.random, h.input⟩, h.outlets⟩
    rw [close, close, h.cursors]

/-! ## Runs -/

/-- The frames before each of the first `k` ticks. -/
def frames (m : Machine) : Nat → String
  | 0 => ""
  | k + 1 => m.frames k ++ (m.after k).frame

/-- Machines that trace one plain machine show the same frame. -/
theorem Traced.frame {shown' : Array UInt8} {t : Machine} (hn : Traced traced base shown m n)
    (ht : Traced traced base shown' m t) : n.frame = t.frame := by
  have htext : n.transcript = t.transcript :=
    Utf8.encode_inj ((Array.append_right_inj base).mp
      (hn.outlets.written.symm.trans ht.outlets.written))
  rw [Machine.frame, Machine.frame, hn.outlets.settings, ht.outlets.settings, hn.field, ht.field,
    hn.cursors, ht.cursors, htext]

/-- A frame goes to the output and nowhere else. -/
theorem Traced.showFrame (h : Traced traced base shown m n) :
    ∃ n', n.showFrame = (.ok (), n') ∧
      Traced traced base (shown ++ Utf8.encode n.frame) m n' := by
  rw [Machine.showFrame, if_pos h.outlets.tracing, write_of_room h.outlets.room']
  exact ⟨_, rfl, ⟨h.field, h.cursors, h.ticks, h.random, h.input⟩,
    ⟨h.outlets.plain, h.outlets.settings, h.outlets.tracing, h.outlets.room, h.outlets.room',
      h.outlets.written, congrArg (· ++ Utf8.encode n.frame) h.outlets.shown⟩⟩

theorem Traced.round (h : Traced traced base shown m n) :
    m.round = m.tick ∧ n.round.1 = m.tick.1 ∧
      Traced traced base (shown ++ Utf8.encode n.frame) m.tick.2 n.round.2 := by
  obtain ⟨n', hshow, h'⟩ := h.showFrame
  obtain ⟨hresult, hafter⟩ := (traced_simulation _ _ _).tick h'
  have hround : n.round = n'.tick := by
    rw [Machine.round, hshow]
  rw [hround]
  refine ⟨?_, hresult.eq.symm, hafter⟩
  rw [Machine.round, showFrame_of_plain h.outlets.plain]

/-- The rounds of the two machines end together, if they end. After `k` rounds the traced one has
shown the first `k` frames of `t`, a machine that traces the program without a run around it. -/
theorem Traced.rounds {t : Machine} (fuel : Nat) {j : Nat}
    (hn : Traced traced base (shown ++ Utf8.encode (t.frames j)) m n)
    (ht : Traced traced base shown m (t.after j)) :
    m.rounds fuel = none ∧ n.rounds fuel = none ∨
      ∃ r m' n' k, m.rounds fuel = some (r, m') ∧ n.rounds fuel = some (r, n') ∧
        Traced traced base (shown ++ Utf8.encode (t.frames k)) m' n' ∧
        Traced traced base shown m' (t.after k) := by
  -- `m` links the machine in the run with `t`, which has made the same `j` ticks
  induction fuel generalizing m n j with
  | zero =>
    rw [Machine.rounds, Machine.rounds, isFinished, isFinished, hn.cursors]
    split
    · exact Or.inr ⟨_, m, n, j, rfl, rfl, hn, ht⟩
    · exact Or.inl ⟨rfl, rfl⟩
  | succ fuel ih =>
    rw [Machine.rounds, Machine.rounds, isFinished, isFinished, hn.cursors]
    split
    · exact Or.inr ⟨_, m, n, j, rfl, rfl, hn, ht⟩
    · obtain ⟨hplain, hresult, hn'⟩ := hn.round
      have ht' := ((traced_simulation _ _ _).tick ht).2
      rw [hn.frame ht, Array.append_assoc, ← Utf8.encode_append] at hn'
      rw [hplain, show n.round = (m.tick.1, n.round.2) from Prod.ext hresult rfl]
      cases hm : m.tick with
      | mk r m' =>
        rw [hm] at hn' ht'
        cases r with
        | ok u => exact ih (j := j + 1) hn' ht'
        | error s => exact Or.inr ⟨_, m', _, j + 1, rfl, rfl, hn', ht'⟩

/-- Both runs end with a line end, the traced one after its last frame. -/
theorem Traced.finish (h : Traced traced base shown m n) :
    ∃ m' n', m.finish = (.ok (), m') ∧ n.finish = (.ok (), n') ∧ SameProgram m' n' ∧
      m'.ticks = m.ticks ∧
      m'.console.output = base ++ Utf8.encode (n'.transcript ++ "\n") ∧
      n'.console.output = shown ++ Utf8.encode (n.frame ++ "\n") := by
  obtain ⟨n', hshow, h'⟩ := h.showFrame
  refine ⟨_, _, finish_of_showFrame (showFrame_of_plain h.outlets.plain) h.outlets.room,
    finish_of_showFrame hshow h'.outlets.room',
    ⟨h'.field, h'.cursors, h'.ticks, h'.random, h'.input⟩, rfl, ?_, ?_⟩
  · rw [h'.outlets.written, Utf8.encode_append, Array.append_assoc]
  · rw [h'.outlets.shown, Utf8.encode_append, Array.append_assoc]

theorem Traced.run {t : Machine} (hn : Traced traced base shown m n)
    (ht : Traced traced base shown m t) (hstart : t.ticks = 0) (fuel : Nat) :
    m.run fuel = none ∧ n.run fuel = none ∨
      ∃ r m' n', m.run fuel = some (r, m') ∧ n.run fuel = some (r, n') ∧ SameProgram m' n' ∧
        match r with
        | .ok () =>
          m'.console.output = base ++ Utf8.encode (n'.transcript ++ "\n") ∧
          n'.console.output = shown ++ Utf8.encode (t.frames (n'.ticks + 1) ++ "\n")
        | .error _ =>
          m'.console.output = base ++ Utf8.encode n'.transcript ∧
          n'.console.output = shown ++ Utf8.encode (t.frames n'.ticks) := by
  have hn' : Traced traced base (shown ++ Utf8.encode (t.frames 0)) m.announce n.announce :=
    ⟨⟨hn.field, hn.cursors, hn.ticks, hn.random, hn.input⟩, hn.outlets⟩
  have ht' : Traced traced base shown m.announce (t.after 0) :=
    ⟨⟨ht.field, ht.cursors, ht.ticks, ht.random, ht.input⟩, ht.outlets⟩
  rw [Machine.run, Machine.run]
  rcases hn'.rounds fuel ht' with ⟨hm, hn⟩ | ⟨r, m', n', k, hm, hn, hk, htk⟩
  · rw [hm, hn]
    exact Or.inl ⟨rfl, rfl⟩
  · rw [hm, hn]
    have hticks : m'.ticks = k := by
      rw [← htk.ticks, after_ticks, hstart, Nat.zero_add]
    cases r with
    | error s =>
      refine Or.inr ⟨_, m', n', rfl, rfl, hk.toSameProgram, hk.outlets.written, ?_⟩
      rw [hk.ticks, hticks, hk.outlets.shown]
    | ok u =>
      obtain ⟨m'', n'', hm'', hn'', hsame, hsameTicks, hwritten, hshown⟩ := hk.finish
      refine Or.inr ⟨_, m'', n'', congrArg some hm'', congrArg some hn'', hsame, hwritten, ?_⟩
      rw [hshown, hsame.ticks, hsameTicks, hticks, hk.frame htk, frames, Array.append_assoc,
        ← Utf8.encode_append, String.append_assoc]

theorem traced_start (field : Playfield) {plain traced : Settings}
    (hplain : plain.showSteps = false) (htraced : traced.showSteps = true)
    (hseed : traced.seed = plain.seed) {k : Console} (hroom : k.room = none) (fresh : UInt64) :
    Traced traced k.output k.output (start field plain k fresh) (start field traced k fresh) :=
  ⟨⟨rfl, rfl, rfl, by rw [start, start, hseed], rfl⟩,
    ⟨hplain, rfl, htraced, hroom, hroom, rfl, rfl⟩⟩

/-- **Tracing is transparent.** Take a program over an output without limit, once plain and once
traced. All ticks give the same results and leave the same program; the traced machine keeps as its
transcript what the plain one writes, and its ticks write nothing. Runs end together and alike: the
plain one has written the transcript, the traced one a frame for every tick, and where they
succeed both have ended the line, the traced one after one more frame. -/
theorem tracing_transparent (field : Playfield) (plain traced : Settings)
    (hplain : plain.showSteps = false) (htraced : traced.showSteps = true)
    (hseed : traced.seed = plain.seed) (k : Console) (hroom : k.room = none) (fresh : UInt64) :
    let m := start field plain k fresh
    let t := start field traced k fresh
    (∀ j, (m.after j).tick.1 = (t.after j).tick.1 ∧ SameProgram (m.after j) (t.after j) ∧
      (m.after j).console.output = k.output ++ Utf8.encode (t.after j).transcript ∧
      (t.after j).console.output = k.output) ∧
    ∀ fuel, m.run fuel = none ∧ t.run fuel = none ∨
      ∃ r m' t', m.run fuel = some (r, m') ∧ t.run fuel = some (r, t') ∧ SameProgram m' t' ∧
        match r with
        | .ok () =>
          m'.console.output = k.output ++ Utf8.encode (t'.transcript ++ "\n") ∧
          t'.console.output = k.output ++ Utf8.encode (t.frames (t'.ticks + 1) ++ "\n")
        | .error _ =>
          m'.console.output = k.output ++ Utf8.encode t'.transcript ∧
          t'.console.output = k.output ++ Utf8.encode (t.frames t'.ticks) := by
  intro m t
  have hstart : Traced traced k.output k.output m t :=
    traced_start field hplain htraced hseed hroom fresh
  constructor
  · intro j
    have hj := (traced_simulation _ _ _).after hstart j
    exact ⟨((traced_simulation _ _ _).tick hj).1.eq, hj.toSameProgram, hj.outlets.written,
      hj.outlets.shown⟩
  · exact hstart.run hstart rfl

/-- The program that prints a digit, shown step by step without colour. -/
def shownPrinter : Machine := start digitPrinter { showSteps := true, color := false } {} 0

/-- The plain run writes the digit and ends the line, the traced one writes four frames. The second
frame shows the digit on the stack. -/
theorem tracing_transparent_digitPrinter :
    (∃ m' t', (start digitPrinter {} {} 0).run 3 = some (.ok (), m') ∧
      shownPrinter.run 3 = some (.ok (), t') ∧ t'.transcript = "7 " ∧
      m'.console.output = #[55, 32, 10] ∧
      t'.console.output = #[] ++ Utf8.encode (shownPrinter.frames 4 ++ "\n")) ∧
    (shownPrinter.after 1).frame =
      "################################################################################\n" ++
        "Code:\n7.@\nStack N: 7\nStack A: '\\x07'\nStdout: \n" := by
  refine ⟨?_, by decide +kernel⟩
  have hleft : (shownPrinter.run 3).map (fun p => (p.2.transcript, p.2.ticks)) =
      some ("7 ", 3) := by
    decide +kernel
  have hok : ((start digitPrinter {} {} 0).run 3).map Prod.fst = some (.ok ()) := by
    decide +kernel
  have hruns := (tracing_transparent digitPrinter {} { showSteps := true, color := false }
    rfl rfl rfl {} rfl 0).2 3
  rcases hruns with ⟨hnone, _⟩ | ⟨r, m', t', hm, ht, _, hends⟩
  · rw [hnone] at hok
    cases hok
  · rw [hm] at hok
    obtain rfl := Option.some.inj hok
    have ht' : shownPrinter.run 3 = some (.ok (), t') := ht
    rw [ht', Option.map_some, Option.some.injEq, Prod.mk.injEq] at hleft
    obtain ⟨htranscript, hticks⟩ := hleft
    obtain ⟨hwritten, hshown⟩ := hends
    rw [htranscript] at hwritten
    rw [hticks] at hshown
    exact ⟨m', t', hm, ht', htranscript, hwritten.trans (by decide +kernel), hshown⟩

end Machine

end Funge
