import Funge.Proofs.Instruction
import Funge.Proofs.Traversal

/-!
Programs that print a text. Between two quotes every cell is pushed and none is executed, so the
text may spell any instructions. It is quoted from its end to its start, which leaves the first
character on top of the stack, and is then printed from the top.
-/

namespace Funge

/-- A code is printed as the character that it belongs to. -/
theorem Cursor.printedCharacter_code (c : Char) :
    printedCharacter (Cell.char c).code = String.singleton c := by
  have hcode := Cell.toInt_code_char c
  have hvalid : c.toNat.isValidChar := c.valid
  have hnonneg : 0 ≤ (Cell.char c).code := by
    rw [Int64.le_iff_toInt_le, hcode]
    exact Int.natCast_nonneg _
  have hchar : Word.char? (Cell.char c).code = some c := by
    rw [Word.char?, hcode, Int.toNat_natCast, if_pos ⟨hnonneg, hvalid⟩, Char.ofNat_toNat]
  rw [printedCharacter, hchar, Option.getD_some]

/-- The codes of a text with its first character on top. -/
def Stack.ofText (text : List Char) : Stack := ⟨text.map fun c => (Cell.char c).code⟩

@[simp] theorem Stack.push_ofText (text : List Char) (c : Char) :
    (ofText text).push (Cell.char c).code = ofText (c :: text) := rfl

@[simp] theorem Stack.ofText_nil : ofText [] = empty := rfl

/-- The text in quotes, from its end to its start, and a print for each of its characters. -/
def quotation (text : List Char) : List Char :=
  Instruction.toggle :: text.reverse ++ Instruction.toggle :: List.replicate text.length ','

/-- Prints the text and halts. -/
def quotationProgram (s : String) : String := String.ofList (quotation s.toList ++ ['@'])

theorem mem_quotation {text : List Char} {ch : Char} (h : ch ∈ quotation text ++ ['@']) :
    ch ∈ text ∨ ch = Instruction.toggle ∨ ch = ',' ∨ ch = '@' := by
  simp only [quotation, List.mem_append, List.mem_cons, List.mem_reverse, List.mem_replicate,
    List.not_mem_nil, or_false] at h
  rcases h with ((h | h) | h | ⟨_, h⟩) | h
  · exact Or.inr (Or.inl h)
  · exact Or.inl h
  · exact Or.inr (Or.inl h)
  · exact Or.inr (Or.inr (Or.inl h))
  · exact Or.inr (Or.inr (Or.inr h))

theorem length_quotation (text : List Char) : (quotation text).length = 2 * text.length + 2 := by
  simp only [quotation, List.length_append, List.length_cons, List.length_reverse,
    List.length_replicate]
  omega

theorem ofText_quotationProgram {s : String} (hline : '\n' ∉ s.toList) :
    Playfield.ofText (quotationProgram s) = .ofRow ((quotation s.toList ++ ['@']).map .char) := by
  apply Playfield.ofText_halting
  intro h
  rcases mem_quotation (List.mem_append_left ['@'] h) with h | h | h | h
  · exact hline h
  · exact absurd h (by decide)
  · exact absurd h (by decide)
  · exact absurd h (by decide)

theorem quotation_free {text : List Char} (hmarker : Instruction.marker ∉ text) :
    .char Instruction.marker ∉ (quotation text ++ ['@']).map Cell.char := by
  intro h
  obtain ⟨ch, hch, heq⟩ := List.mem_map.mp h
  obtain rfl : ch = Instruction.marker := Cell.char.inj heq
  rcases mem_quotation hch with h | h | h | h
  · exact hmarker h
  · exact absurd h (by decide)
  · exact absurd h (by decide)
  · exact absurd h (by decide)

namespace Machine

open Text

/-- One cursor goes right along the row `r` in literal mode; it is in column `x` with the stack `s`,
and the console is `k`. -/
structure Quoting (r : List Cell) (k : Console) (x : Nat) (s : Stack) (m : Machine) : Prop where
  field : m.field = .ofRow r
  cursors : ∃ last,
    m.cursors =
      [{ position := ⟨x, 0⟩, direction := .right, stack := s, mode := .literal, last := last }]
  console : m.console = k

section

variable {r : List Cell} {k : Console} {x : Nat} {s : Stack} {m : Machine} {c d : Cursor}

/-- What a cell does to a cursor that it neither sends away nor turns round is followed by a move
to the next column. -/
theorem tick_rightward (hfield : m.field = .ofRow r) (hlen : r.length ≤ Playfield.lengthLimit)
    (hfree : .char Instruction.marker ∉ r) (hx : x + 1 < r.length) (hcursors : m.cursors = [c])
    (hlive : c.mode ≠ .terminated) (hmet : m.opened.met c = ⟨m.opened, d, .ok ()⟩)
    (hplace : d.position = ⟨x, 0⟩) (hd : d.direction = .right) :
    m.Proceeds 1 ∧ m.after 1 = m.opened.close [{ d with position := ⟨x + 1, 0⟩ }] := by
  have hmove := Cursor.stride_right hlen hfree hplace hd hx
  rw [← hfield] at hmove
  have htick := tick_of_lone_met hcursors hlive hmet hmove
  refine ⟨.one (by simp [isFinished, hcursors]) (by rw [htick]), ?_⟩
  rw [after, after, htick]

theorem read_of_row {p : Position} {cell : Cell} (hfield : m.field = .ofRow r)
    (hplace : p = ⟨x, 0⟩) (hcell : r[x]? = some cell) : m.field.read p = cell := by
  rw [hfield, hplace, Playfield.read_ofRow, hcell]
  rfl

theorem Computing.quote (h : Computing r k x s m) (hlen : r.length ≤ Playfield.lengthLimit)
    (hfree : .char Instruction.marker ∉ r) (hx : x + 1 < r.length)
    (hcell : r[x]? = some (.char Instruction.toggle)) :
    m.Proceeds 1 ∧ Quoting r k (x + 1) s (m.after 1) := by
  obtain ⟨last, hcursors⟩ := h.cursors
  have hexecutes := h.executes hcell (i := .toggleLiteral) (by decide)
    (c := ⟨⟨x, 0⟩, .right, s, .normal, last⟩) rfl rfl
  obtain ⟨hone, hafter⟩ := tick_rightward h.field hlen hfree hx hcursors (by simp)
    (met_of_executes m.opened _ hexecutes) rfl rfl
  rw [hafter]
  exact ⟨hone, h.field, ⟨_, rfl⟩, h.console⟩

theorem Quoting.push {ch : Char} (h : Quoting r k x s m)
    (hlen : r.length ≤ Playfield.lengthLimit) (hfree : .char Instruction.marker ∉ r)
    (hx : x + 1 < r.length) (hcell : r[x]? = some (.char ch)) (hch : ch ≠ Instruction.toggle) :
    m.Proceeds 1 ∧ Quoting r k (x + 1) (s.push (Cell.char ch).code) (m.after 1) := by
  obtain ⟨last, hcursors⟩ := h.cursors
  have hread := read_of_row h.field (p := ⟨x, 0⟩) rfl hcell
  have hmet := met_of_literal m.opened ⟨⟨x, 0⟩, .right, s, .literal, last⟩ rfl
  rw [show m.opened.field.read ⟨x, 0⟩ = _ from hread, if_neg (by simpa using hch)] at hmet
  obtain ⟨hone, hafter⟩ :=
    tick_rightward h.field hlen hfree hx hcursors (by simp) hmet rfl rfl
  rw [hafter]
  exact ⟨hone, h.field, ⟨_, rfl⟩, h.console⟩

theorem Quoting.unquote (h : Quoting r k x s m) (hlen : r.length ≤ Playfield.lengthLimit)
    (hfree : .char Instruction.marker ∉ r) (hx : x + 1 < r.length)
    (hcell : r[x]? = some (.char Instruction.toggle)) :
    m.Proceeds 1 ∧ Computing r k (x + 1) s (m.after 1) := by
  obtain ⟨last, hcursors⟩ := h.cursors
  have hread := read_of_row h.field (p := ⟨x, 0⟩) rfl hcell
  have hmet := met_of_literal m.opened ⟨⟨x, 0⟩, .right, s, .literal, last⟩ rfl
  rw [show m.opened.field.read ⟨x, 0⟩ = _ from hread, if_pos rfl] at hmet
  obtain ⟨hone, hafter⟩ :=
    tick_rightward h.field hlen hfree hx hcursors (by simp) hmet rfl rfl
  rw [hafter]
  exact ⟨hone, h.field, ⟨_, rfl⟩, h.console⟩

/-- A quoted text is pushed from its start to its end. -/
theorem Quoting.text (hlen : r.length ≤ Playfield.lengthLimit)
    (hfree : .char Instruction.marker ∉ r) (text before after pushed : List Char)
    (hr : r = (before ++ text ++ after).map .char) (hafter : after ≠ [])
    (htext : Instruction.toggle ∉ text)
    (h : Quoting r k before.length (.ofText pushed) m) :
    m.Proceeds text.length ∧
      Quoting r k (before.length + text.length) (.ofText (text.reverse ++ pushed))
        (m.after text.length) := by
  induction text generalizing before pushed m with
  | nil => exact ⟨.zero, h⟩
  | cons ch text ih =>
    obtain ⟨hcell, hx⟩ := cell_of_text before ch (text ++ after)
      (by simpa using hr) (by simp [hafter])
    obtain ⟨hone, hpushed⟩ := h.push hlen hfree hx hcell (fun heq => htext (by simp [heq]))
    obtain ⟨hrest, hend⟩ := ih (before ++ [ch]) (ch :: pushed) (by simpa using hr)
      (fun hmem => htext (by simp [hmem])) (by simpa using hpushed)
    rw [List.length_cons, Nat.add_comm text.length 1]
    refine ⟨hone.add hrest, ?_⟩
    rw [after_add]
    simpa [Nat.add_assoc] using hend

theorem Computing.printCharacter {ch : Char} {text : List Char}
    (h : Computing r k x (.ofText (ch :: text)) m) (hlen : r.length ≤ Playfield.lengthLimit)
    (hfree : .char Instruction.marker ∉ r) (hx : x + 1 < r.length)
    (hcell : r[x]? = some (.char ',')) (hplain : m.settings.showSteps = false)
    (hroom : k.room = none) :
    m.Proceeds 1 ∧
      Computing r { k with output := k.output ++ Utf8.encode (String.singleton ch) } (x + 1)
        (.ofText text) (m.after 1) := by
  apply h.print hlen hfree hx hcell (i := .printCharacter) (by decide) _ hplain hroom
  intro c hc
  have htop : c.operand 0 = (Cell.char ch).code := by
    rw [Cursor.operand, hc]
    rfl
  rw [Cursor.act, htop, Cursor.printedCharacter_code, Cursor.drop, hc]
  rfl

/-- As many prints as a text has characters print the text. -/
theorem Computing.printText (hlen : r.length ≤ Playfield.lengthLimit)
    (hfree : .char Instruction.marker ∉ r) (text before after : List Char)
    (hr : r = (before ++ List.replicate text.length ',' ++ after).map .char) (hafter : after ≠ [])
    (hplain : m.settings.showSteps = false) (hroom : k.room = none)
    (h : Computing r k before.length (.ofText text) m) :
    m.Proceeds text.length ∧
      Computing r { k with output := k.output ++ Utf8.encode (String.ofList text) }
        (before.length + text.length) .empty (m.after text.length) := by
  induction text generalizing before k m with
  | nil =>
    refine ⟨.zero, ?_⟩
    simpa [Utf8.encode, Machine.after] using h
  | cons ch text ih =>
    obtain ⟨hcell, hx⟩ := cell_of_text before ',' (List.replicate text.length ',' ++ after)
      (by simpa [List.replicate_succ] using hr) (by simp [hafter])
    obtain ⟨hone, hprinted⟩ := h.printCharacter hlen hfree hx hcell hplain hroom
    obtain ⟨hrest, hend⟩ := ih
      (k := { k with output := k.output ++ Utf8.encode (String.singleton ch) }) (before ++ [','])
      (by simpa [List.replicate_succ] using hr) (by rw [after_settings m 1, hplain]) hroom
      (by simpa using hprinted)
    rw [List.length_cons, Nat.add_comm text.length 1]
    refine ⟨hone.add hrest, ?_⟩
    rw [after_add]
    have hjoin : String.ofList (ch :: text) = String.singleton ch ++ String.ofList text := by
      rw [← String.toList_inj]
      simp
    rw [hjoin, Utf8.encode_append, ← Array.append_assoc]
    simpa [Nat.add_assoc] using hend

/-- A text between quotes, from its end to its start, comes to lie on the stack with its first
character on top. -/
theorem Computing.quoted (hlen : r.length ≤ Playfield.lengthLimit)
    (hfree : .char Instruction.marker ∉ r) (text before after : List Char)
    (hr : r =
      (before ++ Instruction.toggle :: text.reverse ++ Instruction.toggle :: after).map .char)
    (hafter : after ≠ []) (htext : Instruction.toggle ∉ text)
    (h : Computing r k before.length .empty m) :
    m.Proceeds (text.length + 2) ∧
      Computing r k (before.length + (text.length + 2)) (.ofText text)
        (m.after (text.length + 2)) := by
  obtain ⟨hopen, hx⟩ := cell_of_text before Instruction.toggle
    (text.reverse ++ Instruction.toggle :: after) (by simpa using hr) (by simp)
  obtain ⟨hquote, hquoting⟩ := h.quote hlen hfree hx hopen
  obtain ⟨hpush, hpushed⟩ := Quoting.text hlen hfree text.reverse (before ++ [Instruction.toggle])
    (Instruction.toggle :: after) [] (by simpa using hr) (by simp) (by simpa using htext)
    (by simpa using hquoting)
  rw [← after_add, ← List.length_append, List.reverse_reverse, List.append_nil] at hpushed
  obtain ⟨hclose, hx⟩ := cell_of_text (before ++ [Instruction.toggle] ++ text.reverse)
    Instruction.toggle after (by simpa using hr) hafter
  obtain ⟨hunquote, hcomputing⟩ := hpushed.unquote hlen hfree hx hclose
  have hticks : text.length + 2 = 1 + text.reverse.length + 1 := by
    rw [List.length_reverse]
    omega
  have hcolumn : (before ++ [Instruction.toggle] ++ text.reverse).length + 1 =
      before.length + (text.length + 2) := by
    simp only [List.length_append, List.length_reverse, List.length_singleton]
    omega
  rw [← after_add, hcolumn] at hcomputing
  rw [hticks]
  exact ⟨(hquote.add hpush).add hunquote, hticks ▸ hcomputing⟩

/-- A quotation prints its text and leaves the stack empty. -/
theorem Computing.quotation (hlen : r.length ≤ Playfield.lengthLimit)
    (hfree : .char Instruction.marker ∉ r) (text before after : List Char)
    (hr : r = (before ++ Funge.quotation text ++ after).map .char) (hafter : after ≠ [])
    (htext : Instruction.toggle ∉ text) (hplain : m.settings.showSteps = false)
    (hroom : k.room = none) (h : Computing r k before.length .empty m) :
    m.Proceeds (2 * text.length + 2) ∧
      Computing r { k with output := k.output ++ Utf8.encode (String.ofList text) }
        (before.length + (2 * text.length + 2)) .empty (m.after (2 * text.length + 2)) := by
  obtain ⟨hquoted, hcomputing⟩ := Computing.quoted hlen hfree text before
    (List.replicate text.length ',' ++ after) (by simpa [Funge.quotation] using hr)
    (by simp [hafter]) htext h
  have hcolumn : before.length + (text.length + 2) =
      (before ++ Instruction.toggle :: text.reverse ++ [Instruction.toggle]).length := by
    simp only [List.length_append, List.length_cons, List.length_reverse, List.length_nil]
    omega
  rw [hcolumn] at hcomputing
  obtain ⟨hprint, hprinted⟩ := Computing.printText hlen hfree text _ after
    (by simpa [Funge.quotation] using hr) hafter (by rw [after_settings, hplain]) hroom hcomputing
  rw [← after_add, ← hcolumn] at hprinted
  have hticks : 2 * text.length + 2 = text.length + 2 + text.length := by omega
  rw [hticks, ← Nat.add_assoc]
  exact ⟨hquoted.add hprint, hprinted⟩

end

/-- **A quotation program prints its text.** Over an output without limit the program of a text
that holds no line end, no quote and no marker ends after two ticks for each character and three
more, and has written the text and a line end. -/
theorem run_quotationProgram (s : String)
    (hs : ∀ c ∈ s.toList, c ≠ '\n' ∧ c ≠ Instruction.toggle ∧ c ≠ Instruction.marker)
    (hlen : 2 * s.length + 3 ≤ Playfield.lengthLimit) (settings : Settings)
    (hplain : settings.showSteps = false) (k : Console) (hroom : k.room = none) (fresh : UInt64)
    {fuel : Nat} (hfuel : 2 * s.length + 3 ≤ fuel) :
    ∃ m', (start (.ofText (quotationProgram s)) settings k fresh).run fuel = some (.ok (), m') ∧
      m'.ticks = 2 * s.length + 3 ∧
      m'.console.output = k.output ++ Utf8.encode (s ++ "\n") := by
  let m := start (.ofText (quotationProgram s)) settings k fresh
  let r : List Cell := (quotation s.toList ++ ['@']).map .char
  have hfree : .char Instruction.marker ∉ r := quotation_free fun h => (hs _ h).2.2 rfl
  have hlen' : r.length ≤ Playfield.lengthLimit := by
    rwa [List.length_map, List.length_append, length_quotation, String.length_toList]
  have hstart : Computing r k 0 .empty m.announce :=
    ⟨ofText_quotationProgram fun h => (hs _ h).1 rfl, ⟨_, rfl⟩, rfl⟩
  obtain ⟨hproceeds, hprinted⟩ := Computing.quotation hlen' hfree s.toList [] ['@'] rfl (by simp)
    (fun h => (hs _ h).2.1 rfl) hplain hroom hstart
  rw [List.length_nil, Nat.zero_add, ← length_quotation] at hprinted
  have hhalt : r[(quotation s.toList).length]? = some (.char '@') := by simp [r]
  obtain ⟨hlast, hfinished, hconsole⟩ := hprinted.halt hlen' hfree hhalt
  rw [length_quotation, ← after_add, String.length_toList] at hfinished hconsole
  rw [length_quotation, String.length_toList] at hlast
  rw [String.length_toList] at hproceeds
  obtain ⟨m', hrun, hticks, houtput⟩ := run_of_finished hplain (hproceeds.add hlast) hfinished
    (by rw [hconsole, hroom]) hfuel
  refine ⟨m', hrun, ?_, ?_⟩
  · rw [hticks]
    exact Nat.zero_add _
  · rw [houtput, hconsole, Array.append_assoc, ← Utf8.encode_append, String.ofList_toList]

/-- The text spells a halt, a blank, a put and an arrow beyond the range of one byte. -/
theorem run_quotationProgram_instructions :
    (∀ c ∈ "@ p→".toList, c ≠ '\n' ∧ c ≠ Instruction.toggle ∧ c ≠ Instruction.marker) ∧
    ∃ m', (start (.ofText (quotationProgram "@ p→")) {} {} 0).run 11 = some (.ok (), m') ∧
      m'.ticks = 11 ∧ m'.console.output = #[64, 32, 112, 226, 134, 146, 10] := by
  have hs : ∀ c ∈ "@ p→".toList, c ≠ '\n' ∧ c ≠ Instruction.toggle ∧ c ≠ Instruction.marker := by
    simp [Instruction.toggle, Instruction.marker]
  have hlength : 2 * "@ p→".length + 3 = 11 := by decide
  refine ⟨hs, ?_⟩
  obtain ⟨m', hrun, hticks, houtput⟩ :=
    run_quotationProgram "@ p→" hs (by decide) {} rfl {} rfl 0 (Nat.le_of_eq hlength)
  exact ⟨m', hrun, hticks.trans hlength, houtput.trans (by decide +kernel)⟩

end Machine

end Funge
