import Funge.Playfield.Source
import Funge.Proofs.Progress
import Funge.Proofs.Row

/-!
A single cursor that goes right along a single row without markers. Every tick executes one cell
and leads one column on, so that a run can be followed along the text of its program, from what
stands before a cell to what stands after it.
-/

namespace Funge

/-- A line that ends with a halt is read as it stands. -/
theorem Playfield.ofText_halting {text : List Char} (hline : '\n' ∉ text) :
    ofText (String.ofList (text ++ ['@'])) = .ofRow ((text ++ ['@']).map .char) := by
  have hline' : '\n' ∉ text ++ ['@'] := by
    simpa using hline
  have htrim : Text.trimEnd (text ++ ['@']) = text ++ ['@'] := by
    have hat : Text.isBlank '@' = false := by decide
    simp [Text.trimEnd, hat]
  rw [ofText, String.toList_ofList, List.splitOn_eq_singleton hline', List.map_singleton, ofLine,
    htrim]
  rfl

/-- A cursor in any column but the last moves on by one. -/
theorem Cursor.stride_right {r : List Cell} {c : Cursor} {x : Nat}
    (hlen : r.length ≤ Playfield.lengthLimit) (hfree : .char Instruction.marker ∉ r)
    (hplace : c.position = ⟨x, 0⟩) (hd : c.direction = .right) (hx : x + 1 < r.length) :
    c.stride (.ofRow r) = .ok { c with position := ⟨x + 1, 0⟩ } := by
  have hcolumn : c.direction.along r.length x = x + 1 := by
    rw [hd, Direction.along, if_neg (by omega)]
  rw [← hcolumn]
  exact stride_ofRow hlen hplace (by omega) (fun hmark => hfree (List.mem_of_getElem? hmark))

namespace Machine

open Text

/-- One cursor goes right along the row `r`; it is in column `x` with the stack `s`, and the
console is `k`. -/
structure Computing (r : List Cell) (k : Console) (x : Nat) (s : Stack) (m : Machine) : Prop where
  field : m.field = .ofRow r
  cursors : ∃ last,
    m.cursors = [{ position := ⟨x, 0⟩, direction := .right, stack := s, last := last }]
  console : m.console = k

/-- One of the next `n` ticks fails with `f`, and up to then the console stays as it is. -/
def FailsWithin (k : Console) (m : Machine) (n : Nat) (f : Fault) : Prop :=
  ∃ j < n, m.Proceeds j ∧ (m.after j).isFinished = false ∧
    (m.after j).tick.1 = .error (.fault f) ∧ (m.after (j + 1)).console = k

theorem FailsWithin.mono {k : Console} {m : Machine} {n n' : Nat} {f : Fault}
    (h : FailsWithin k m n f) (hn : n ≤ n') : FailsWithin k m n' f := by
  obtain ⟨j, hj, hrest⟩ := h
  exact ⟨j, by omega, hrest⟩

theorem FailsWithin.later {k : Console} {m : Machine} {i n : Nat} {f : Fault}
    (hi : m.Proceeds i) (h : FailsWithin k (m.after i) n f) : FailsWithin k m (i + n) f := by
  obtain ⟨j, hj, hproceeds, hlive, hfail, hconsole⟩ := h
  rw [← after_add] at hlive hfail hconsole
  exact ⟨i + j, by omega, hi.add hproceeds, hlive, hfail, hconsole⟩

section

variable {r : List Cell} {k : Console} {x : Nat} {s : Stack} {m : Machine}

theorem Computing.isFinished (h : Computing r k x s m) : m.isFinished = false := by
  obtain ⟨last, hcursors⟩ := h.cursors
  simp [Machine.isFinished, hcursors]

theorem Computing.executes {ch : Char} {i : Instruction} {c : Cursor} (h : Computing r k x s m)
    (hcell : r[x]? = some (.char ch)) (hi : Instruction.ofChar? ch = some i)
    (hmode : c.mode = .normal) (hplace : c.position = ⟨x, 0⟩) : m.Executes c i := by
  refine ⟨hmode, ?_⟩
  have hread : m.field.read c.position = .char ch := by
    rw [h.field, hplace, Playfield.read_ofRow, hcell]
    rfl
  rw [hread]
  exact hi

/-- An instruction that changes at most the stack and the console leads one column on. -/
theorem Computing.tick (h : Computing r k x s m) (hlen : r.length ≤ Playfield.lengthLimit)
    (hfree : .char Instruction.marker ∉ r) (hx : x + 1 < r.length) {ch : Char} {i : Instruction}
    (hcell : r[x]? = some (.char ch)) (hi : Instruction.ofChar? ch = some i) {k' : Console}
    {t : Stack}
    (hexec : ∀ c : Cursor, c.stack = s → m.opened.execute c i =
      ⟨{ m.opened with console := k' }, { c with stack := t }, .ok ()⟩) :
    m.Proceeds 1 ∧ Computing r k' (x + 1) t (m.after 1) := by
  obtain ⟨last, hcursors⟩ := h.cursors
  have hexecutes := h.executes hcell hi (c := ⟨⟨x, 0⟩, .right, s, .normal, last⟩) rfl rfl
  have hmove := Cursor.stride_right hlen hfree
    (c := ⟨⟨x, 0⟩, .right, t, .normal, m.field.read ⟨x, 0⟩⟩) rfl rfl hx
  rw [← h.field] at hmove
  have htick := tick_of_lone_ok hcursors hexecutes (hexec _ rfl) hmove
  refine ⟨.one h.isFinished (by rw [htick]), ?_⟩
  rw [after, after, htick]
  exact ⟨h.field, ⟨_, rfl⟩, rfl⟩

/-- An instruction that changes the stack alone. -/
theorem Computing.compute (h : Computing r k x s m) (hlen : r.length ≤ Playfield.lengthLimit)
    (hfree : .char Instruction.marker ∉ r) (hx : x + 1 < r.length) {ch : Char} {i : Instruction}
    (hcell : r[x]? = some (.char ch)) (hi : Instruction.ofChar? ch = some i) {t : Stack}
    (hact : ∀ c : Cursor, c.stack = s →
      c.act (.ofRow r) i = ({ c with stack := t }, .ok .none)) :
    m.Proceeds 1 ∧ Computing r k (x + 1) t (m.after 1) := by
  apply h.tick hlen hfree hx hcell hi
  intro c hc
  have hquiet : c.act m.opened.field i = ({ c with stack := t }, .ok .none) := by
    rw [show m.opened.field = _ from h.field]
    exact hact c hc
  simp only [execute, hquiet, perform, ← h.console]
  rfl

/-- An instruction that fails. -/
theorem Computing.fail (h : Computing r k x s m) {ch : Char} {i : Instruction}
    (hcell : r[x]? = some (.char ch)) (hi : Instruction.ofChar? ch = some i) {t : Stack}
    {f : Fault}
    (hact : ∀ c : Cursor, c.stack = s → c.position = ⟨x, 0⟩ →
      c.act (.ofRow r) i = ({ c with stack := t }, .error (.fault f))) :
    FailsWithin k m 1 f := by
  obtain ⟨last, hcursors⟩ := h.cursors
  let c : Cursor := m.seen ⟨⟨x, 0⟩, .right, s, .normal, last⟩
  have hexecutes := h.executes hcell hi (c := ⟨⟨x, 0⟩, .right, s, .normal, last⟩) rfl rfl
  have hexec : m.opened.execute c i = ⟨m.opened, { c with stack := t }, .error (.fault f)⟩ := by
    have hfails : c.act m.opened.field i = ({ c with stack := t }, .error (.fault f)) := by
      rw [show m.opened.field = _ from h.field]
      exact hact c rfl rfl
    simp only [execute, hfails]
  have htick := tick_of_lone_error hcursors hexecutes hexec
  refine ⟨0, by omega, .zero, h.isFinished, ?_, ?_⟩
  · rw [after, htick]
  · rw [after, after, htick]
    exact h.console

theorem cell_of_text (before : List Char) (ch : Char) (after : List Char)
    (hr : r = (before ++ ch :: after).map .char) (hafter : after ≠ []) :
    r[before.length]? = some (.char ch) ∧ before.length + 1 < r.length := by
  have hpos := List.length_pos_iff.mpr hafter
  subst hr
  constructor
  · simp
  · simp only [List.length_map, List.length_append, List.length_cons]
    omega

/-- Over an output without limit a text is printed. -/
theorem Computing.print (h : Computing r k x s m) (hlen : r.length ≤ Playfield.lengthLimit)
    (hfree : .char Instruction.marker ∉ r) (hx : x + 1 < r.length) {ch : Char} {i : Instruction}
    (hcell : r[x]? = some (.char ch)) (hi : Instruction.ofChar? ch = some i) {t : Stack}
    {text : String}
    (hact : ∀ c : Cursor, c.stack = s →
      c.act (.ofRow r) i = ({ c with stack := t }, .ok (.print text)))
    (hplain : m.settings.showSteps = false) (hroom : k.room = none) :
    m.Proceeds 1 ∧
      Computing r { k with output := k.output ++ Utf8.encode text } (x + 1) t (m.after 1) := by
  have hroom' : m.opened.console.room = none := by
    rw [show m.opened.console = k from h.console, hroom]
  apply h.tick hlen hfree hx hcell hi
  intro c hc
  have hprints : c.act m.opened.field i = ({ c with stack := t }, .ok (.print text)) := by
    rw [show m.opened.field = _ from h.field]
    exact hact c hc
  simp only [execute, hprints, perform, print_of_plain (m := m.opened) hplain,
    write_of_room hroom', ← h.console]
  rfl

/-- A cursor that halts in the last column is gone after its tick. -/
theorem Computing.halt (h : Computing r k x s m) (hlen : r.length ≤ Playfield.lengthLimit)
    (hfree : .char Instruction.marker ∉ r) (hcell : r[x]? = some (.char '@')) :
    m.Proceeds 1 ∧ (m.after 1).isFinished = true ∧ (m.after 1).console = k := by
  obtain ⟨last, hcursors⟩ := h.cursors
  obtain ⟨hx, _⟩ := List.getElem?_eq_some_iff.mp hcell
  have hexecutes := h.executes hcell (i := .halt) (by decide)
    (c := ⟨⟨x, 0⟩, .right, s, .normal, last⟩) rfl rfl
  have hmove := Cursor.stride_ofRow hlen
    (c := ⟨⟨x, 0⟩, .right, s, .terminated, m.field.read ⟨x, 0⟩⟩) rfl hx
    (fun hmark => hfree (List.mem_of_getElem? hmark))
  rw [← h.field] at hmove
  have htick := tick_of_lone_ok hcursors hexecutes (n := m.opened) rfl hmove
  refine ⟨.one h.isFinished (by rw [htick]), ?_, ?_⟩
  · rw [after, after, htick]
    rfl
  · rw [after, after, htick]
    exact h.console

end

end Machine

end Funge
