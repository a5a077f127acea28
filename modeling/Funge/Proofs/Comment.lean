import Funge.Proofs.Instruction
import Funge.Proofs.Row
import Funge.Proofs.Simulation

/-!
A stretch between two markers is a comment. In a program of one row whose instructions keep to
their own place, a comment can be put in or taken out at any column but the first: the program
does the same in every tick, in either direction, across the ends of the row and inside
literals, and only the columns behind the comment are counted differently.
-/

namespace Funge

/-- The cells whose instructions reach beyond their own place. -/
def Cell.farReaching : List Cell :=
  [.char ';', .char '#', .char 'j', .char 'p', .char 'g', .char 't']

/-- The instruction depends on its place only by what it reports of it. -/
def Instruction.isLocal : Instruction → Bool
  | jumpOver | trampoline | jumpForward | put | get | fork => false
  | _ => true

theorem Instruction.isLocal_of_ofCell? {cell : Cell} {i : Instruction}
    (hcell : cell ∉ Cell.farReaching) (h : ofCell? cell = some i) : i.isLocal = true := by
  have hsign := eq_char_of_ofCell? h
  cases i with
  | jumpOver | trampoline | jumpForward | put | get | fork =>
    simp [hsign, sign, Cell.farReaching] at hcell
  | _ => rfl

/-- The request has nothing to do with the playfield. -/
def Effect.isLocal : Effect → Bool
  | put .. | fork => false
  | _ => true

/-! ## Places seen through a map -/

def Fault.relocate (σ : Position → Position) : Fault → Fault
  | illegalInstruction cell p => illegalInstruction cell (σ p)
  | notImplemented cell p => notImplemented cell (σ p)
  | divisionByZero v p => divisionByZero v (σ p)
  | moduloByZero v p => moduloByZero v (σ p)
  | emptyRow d p => emptyRow d (σ p)
  | f => f

theorem Fault.relocate_of_nowhere {f : Fault} (h : f.location? = none) (σ : Position → Position) :
    f.relocate σ = f := by
  cases f with
  | inputExhausted | load | console => rfl
  | _ => cases h

def Stop.relocate (σ : Position → Position) : Stop → Stop
  | fault f => fault (f.relocate σ)
  | s => s

namespace Cursor

def relocate (σ : Position → Position) (c : Cursor) : Cursor := { c with position := σ c.position }

variable {σ : Position → Position}

theorem toggleLiteral_relocate (c : Cursor) :
    (c.relocate σ).toggleLiteral = c.toggleLiteral.relocate σ := by
  obtain ⟨p, d, s, mode, last⟩ := c
  cases mode <;> rfl

/-- A local instruction does the same at another place of another playfield. -/
theorem act_relocate (f g : Playfield) (c : Cursor) {i : Instruction} (hi : i.isLocal = true) :
    (c.relocate σ).act g i =
      ((c.act f i).1.relocate σ, (c.act f i).2.mapError (Stop.relocate σ)) := by
  cases i with
  | jumpOver | trampoline | jumpForward | put | get | fork => cases hi
  | divide | modulo =>
    by_cases hzero : c.operand 0 = 0
    · have hzero' : (c.relocate σ).operand 0 = 0 := hzero
      simp only [act, hzero, hzero', ↓reduceIte]
      rfl
    · have hzero' : (c.relocate σ).operand 0 ≠ 0 := hzero
      simp only [act, hzero, hzero', ↓reduceIte]
      rfl
  | toggleLiteral => rw [act, act, toggleLiteral_relocate]; rfl
  | _ => rfl

theorem act_isLocal {f : Playfield} {c : Cursor} {i : Instruction} (hi : i.isLocal = true)
    {e : Effect} (h : (c.act f i).2 = .ok e) : e.isLocal = true := by
  cases i with
  | jumpOver | trampoline | jumpForward | put | get | fork => cases hi
  | divide | modulo =>
    rw [act] at h
    split at h <;> cases h
    rfl
  | _ => cases h <;> rfl

theorem act_position_of_isLocal {f : Playfield} {c : Cursor} {i : Instruction}
    (hi : i.isLocal = true) : (c.act f i).1.position = c.position := by
  apply act_position
  cases i with
  | jumpOver | trampoline | jumpForward | put | get | fork => cases hi
  | _ => rfl

end Cursor

/-! ## Rows with a comment -/

/-- The row `u v` with a comment in the middle. -/
def commented (u body v : List Cell) : List Cell :=
  u ++ .char Instruction.marker :: (body ++ .char Instruction.marker :: v)

/-- Where a column of the row `u v` is found in the row with the comment. -/
def pastComment (u body : List Cell) (x : Nat) : Nat :=
  if x < u.length then x else x + body.length + 2

section

variable {u body v : List Cell}

theorem length_commented (u body v : List Cell) :
    (commented u body v).length = (u ++ v).length + body.length + 2 := by
  simp only [commented, List.length_append, List.length_cons]
  omega

theorem getElem?_pastComment (u body v : List Cell) (x : Nat) :
    (commented u body v)[pastComment u body x]? = (u ++ v)[x]? := by
  unfold pastComment commented
  split
  · next hx => rw [List.getElem?_append_left hx, List.getElem?_append_left hx]
  · next hx =>
    rw [List.getElem?_append_right (by omega), List.getElem?_append_right (by omega),
      show x + body.length + 2 - u.length = x - u.length + body.length + 1 + 1 by omega,
      List.getElem?_cons_succ, List.getElem?_append_right (by omega),
      show x - u.length + body.length + 1 - body.length = x - u.length + 1 by omega,
      List.getElem?_cons_succ]

theorem getElem?_opening (u body v : List Cell) :
    (commented u body v)[u.length]? = some (.char Instruction.marker) := by
  simp [commented]

theorem getElem?_closing (u body v : List Cell) :
    (commented u body v)[u.length + body.length + 1]? = some (.char Instruction.marker) := by
  rw [commented, List.getElem?_append_right (by omega),
    show u.length + body.length + 1 - u.length = body.length + 1 by omega, List.getElem?_cons_succ]
  simp

theorem getElem?_body (u body v : List Cell) {i : Nat} (hi : i < body.length) :
    (commented u body v)[u.length + 1 + i]? = body[i]? := by
  rw [commented, List.getElem?_append_right (by omega),
    show u.length + 1 + i - u.length = i + 1 by omega, List.getElem?_cons_succ,
    List.getElem?_append_left hi]

/-- From either end a search crosses the comment to the other end. -/
theorem Cursor.jumpOver_comment (hlen : (commented u body v).length ≤ Playfield.lengthLimit)
    (hbody : .char Instruction.marker ∉ body) {c : Cursor} :
    (c.direction = .right → c.position = ⟨u.length, 0⟩ →
      c.jumpOver (.ofRow (commented u body v)) =
        .ok { c with position := ⟨u.length + body.length + 1, 0⟩ }) ∧
    (c.direction = .left → c.position = ⟨u.length + body.length + 1, 0⟩ →
      c.jumpOver (.ofRow (commented u body v)) = .ok { c with position := ⟨u.length, 0⟩ }) := by
  have hlength := length_commented u body v
  rw [List.length_append] at hlength
  have hfree : ∀ i < body.length,
      (commented u body v)[u.length + 1 + i]? ≠ some (.char Instruction.marker) := by
    intro i hi hmark
    rw [getElem?_body u body v hi] at hmark
    exact hbody (List.mem_of_getElem? hmark)
  constructor
  · intro hd hc
    apply jumpOver_ofRow hlen (by rw [hd]; rfl) (fun i => u.length + i) (n := body.length) hc
      (by omega)
    · intro i hi
      rw [hd, Direction.along, if_neg (by omega)]
      omega
    · intro i hpos hi
      rw [show u.length + i = u.length + 1 + (i - 1) by omega]
      exact hfree (i - 1) (by omega)
    · exact getElem?_closing u body v
  · intro hd hc
    have hjump := jumpOver_ofRow (c := c) hlen (by rw [hd]; rfl)
      (fun i => u.length + body.length + 1 - i) (n := body.length) hc (by omega)
      (by
        intro i hi
        rw [hd, Direction.along, if_neg (by omega)]
        omega)
      (by
        intro i hpos hi
        rw [show u.length + body.length + 1 - i = u.length + 1 + (body.length - i) by omega]
        exact hfree (body.length - i) (by omega))
      (by
        rw [show u.length + body.length + 1 - (body.length + 1) = u.length by omega]
        exact getElem?_opening u body v)
    rwa [show u.length + body.length + 1 - (body.length + 1) = u.length by omega] at hjump

/-- Where the step of a cursor past a comment leads. -/
inductive StepsPast (u body v : List Cell) (d : Direction) (x : Nat) : Prop
  /-- Not to the comment. -/
  | beside (h : d.along (commented u body v).length (pastComment u body x) =
      pastComment u body (d.along (u ++ v).length x))
  /-- To one of its ends, from which the other end leads on. -/
  | across (entry exit : Nat)
    (hends : d = .right ∧ entry = u.length ∧ exit = u.length + body.length + 1 ∨
      d = .left ∧ entry = u.length + body.length + 1 ∧ exit = u.length)
    (henter : d.along (commented u body v).length (pastComment u body x) = entry)
    (hleave : d.along (commented u body v).length exit =
      pastComment u body (d.along (u ++ v).length x))

theorem stepsPast (body : List Cell) (hu : u ≠ []) (d : Direction) {x : Nat}
    (hx : x < (u ++ v).length) : StepsPast u body v d x := by
  have hpos := List.length_pos_iff.mpr hu
  have hlength := length_commented u body v
  rw [List.length_append] at hlength hx
  cases d with
  | up | down => exact .beside rfl
  | right =>
    by_cases hedge : x + 1 = u.length
    · refine .across u.length (u.length + body.length + 1) (Or.inl ⟨rfl, rfl, rfl⟩) ?_ ?_
      · simp only [Direction.along, pastComment]
        grind
      · simp only [Direction.along, pastComment, List.length_append]
        grind
    · refine .beside ?_
      simp only [Direction.along, pastComment, List.length_append]
      grind
  | left =>
    by_cases hedge : x = u.length ∨ x = 0 ∧ v.length = 0
    · refine .across (u.length + body.length + 1) u.length (Or.inr ⟨rfl, rfl, rfl⟩) ?_ ?_
      · simp only [Direction.along, pastComment]
        grind
      · simp only [Direction.along, pastComment, List.length_append]
        grind
    · refine .beside ?_
      simp only [Direction.along, pastComment, List.length_append]
      grind

/-- A move past the comment leads where the same move leads without it. -/
theorem Cursor.stride_commented (hu : u ≠ []) (hfree : .char Instruction.marker ∉ u ++ v)
    (hbody : .char Instruction.marker ∉ body)
    (hlen : (commented u body v).length ≤ Playfield.lengthLimit) {c : Cursor} {x : Nat}
    (hx : x < (u ++ v).length) (hc : c.position = ⟨pastComment u body x, 0⟩) :
    c.stride (.ofRow (commented u body v)) =
      .ok { c with
        position := ⟨pastComment u body (c.direction.along (u ++ v).length x), 0⟩ } := by
  have hlength := length_commented u body v
  have hplace : pastComment u body x < (commented u body v).length := by
    simp only [pastComment]
    split <;> omega
  have hclear : ∀ y, (commented u body v)[pastComment u body y]? ≠
      some (.char Instruction.marker) := by
    intro y hmark
    rw [getElem?_pastComment] at hmark
    exact hfree (List.mem_of_getElem? hmark)
  cases stepsPast body hu c.direction hx with
  | beside h =>
    rw [← h]
    apply stride_ofRow hlen hc hplace
    rw [h]
    exact hclear _
  | across entry exit hends henter hleave =>
    have hstep := advance_ofRow hlen hc hplace
    rw [henter] at hstep
    have hcross : jumpOver (.ofRow (commented u body v)) { c with position := ⟨entry, 0⟩ } =
        .ok { c with position := ⟨exit, 0⟩ } := by
      rcases hends with ⟨hd, rfl, rfl⟩ | ⟨hd, rfl, rfl⟩
      · exact (jumpOver_comment hlen hbody).1 hd rfl
      · exact (jumpOver_comment hlen hbody).2 hd rfl
    have hentry : (commented u body v)[entry]? = some (.char Instruction.marker) := by
      rcases hends with ⟨_, rfl, _⟩ | ⟨_, rfl, _⟩
      · exact getElem?_opening u body v
      · exact getElem?_closing u body v
    have hexit : exit < (commented u body v).length := by
      rw [List.length_append] at hlength
      omega
    have hnext := advance_ofRow (c := { c with position := ⟨exit, 0⟩ }) hlen rfl hexit
    rw [hleave] at hnext
    apply stride_of_marked hstep ((atMarker_ofRow rfl).mpr hentry) _ hcross hnext
    · rw [← Bool.not_eq_true, atMarker_ofRow rfl]
      exact hclear _
    · obtain ⟨hentry', _⟩ := List.getElem?_eq_some_iff.mp hentry
      exact Playfield.extent_ofRow_pos hentry' _

end

/-! ## Programs with a comment -/

/-- The map of the places of a single row. -/
def shifted (u body : List Cell) (p : Position) : Position := ⟨pastComment u body p.x, p.y⟩

/-- The same cursor on the row without the comment and on the row with it. -/
structure Cursor.Shifted (u body v : List Cell) (c d : Cursor) : Prop where
  eq : d = c.relocate (shifted u body)
  place : ∃ x < (u ++ v).length, c.position = ⟨x, 0⟩

namespace Machine

/-- The same program without the comment and with it. -/
structure Shifted (u body v : List Cell) (m n : Machine) : Prop where
  field : m.field = .ofRow (u ++ v)
  field' : n.field = .ofRow (commented u body v)
  settings : n.settings = m.settings
  transcript : n.transcript = m.transcript
  console : n.console = m.console
  random : n.random = m.random
  ticks : n.ticks = m.ticks
  cursors : List.Forall₂ (Cursor.Shifted u body v) m.cursors n.cursors

/-- The same reason to stop, at the shifted place. -/
def SameStop (u body : List Cell) (s t : Stop) : Prop := t = s.relocate (shifted u body)

variable {u body v : List Cell} {m n : Machine} {c d : Cursor}

theorem Shifted.read (h : Shifted u body v m n) (hcd : c.Shifted u body v d) :
    n.field.read d.position = m.field.read c.position := by
  obtain ⟨rfl, x, _, hx⟩ := hcd
  rw [h.field, h.field', Cursor.relocate, hx, shifted, Playfield.read_ofRow, Playfield.read_ofRow,
    getElem?_pastComment]

theorem shifted_received (h : Shifted u body v m n) (hcd : c.Shifted u body v d)
    (r : Console.Reading) (hr : ∀ f, r.value = .error f → f.location? = none) :
    (m.received c r).Agrees (Shifted u body v) (Cursor.Shifted u body v) (SameStop u body)
      (n.received d r) := by
  have hmachine : ∀ journal journal', Shifted u body v
      { m with console := r.console, journal := journal }
      { n with console := r.console, journal := journal' } := fun _ _ =>
    ⟨h.field, h.field', h.settings, h.transcript, rfl, h.random, h.ticks, h.cursors⟩
  obtain ⟨rfl, hplace⟩ := hcd
  simp only [received]
  cases hvalue : r.value with
  | ok value => exact ⟨hmachine _ _, ⟨rfl, hplace⟩, trivial⟩
  | error f =>
    refine ⟨hmachine _ _, ⟨rfl, hplace⟩, ?_⟩
    exact congrArg Stop.fault (Fault.relocate_of_nowhere (hr f hvalue) _).symm

theorem shifted_perform (h : Shifted u body v m n) (hcd : c.Shifted u body v d) (l l' : Position)
    {e : Effect} (he : e.isLocal = true) :
    (m.perform c l e).Agrees (Shifted u body v) (Cursor.Shifted u body v) (SameStop u body)
      (n.perform d l' e) := by
  cases e with
  | put x y value => cases he
  | fork => cases he
  | none => exact ⟨h, hcd, trivial⟩
  | print text =>
    simp only [perform, print, write, h.settings, h.console, h.transcript]
    split
    · exact ⟨⟨h.field, h.field', rfl, rfl, rfl, h.random, h.ticks, h.cursors⟩, hcd, trivial⟩
    · split
      · exact ⟨⟨h.field, h.field', rfl, rfl, rfl, h.random, h.ticks, h.cursors⟩, hcd, trivial⟩
      · exact ⟨⟨h.field, h.field', rfl, rfl, rfl, h.random, h.ticks, h.cursors⟩, hcd, rfl⟩
  | readInteger =>
    rw [perform, perform, h.console]
    exact shifted_received h hcd _ (fun _ => Console.readInteger_fault _)
  | readCharacter =>
    rw [perform, perform, h.console]
    exact shifted_received h hcd _ (fun _ => Console.readCharacter_fault _)
  | goRandom =>
    obtain ⟨rfl, hplace⟩ := hcd
    simp only [perform, h.random]
    exact ⟨⟨h.field, h.field', h.settings, h.transcript, h.console, rfl, h.ticks, h.cursors⟩,
      ⟨rfl, hplace⟩, trivial⟩

theorem shifted_execute (h : Shifted u body v m n) (hcd : c.Shifted u body v d) {i : Instruction}
    (hi : i.isLocal = true) :
    (m.execute c i).Agrees (Shifted u body v) (Cursor.Shifted u body v) (SameStop u body)
      (n.execute d i) := by
  obtain ⟨rfl, hplace⟩ := hcd
  have hact := Cursor.act_relocate (σ := shifted u body) m.field n.field c hi
  have hafter : Cursor.Shifted u body v (c.act m.field i).1
      ((c.relocate (shifted u body)).act n.field i).1 := by
    refine ⟨by rw [hact], ?_⟩
    rw [Cursor.act_position_of_isLocal hi]
    exact hplace
  cases hres : (c.act m.field i).2 with
  | error s =>
    rw [execute_error m c hres, execute_error n _ (by rw [hact, hres]; rfl)]
    exact ⟨h, hafter, rfl⟩
  | ok e =>
    rw [execute_ok m c hres, execute_ok n _ (by rw [hact, hres]; rfl)]
    exact shifted_perform h hafter _ _ (Cursor.act_isLocal hi hres)

theorem shifted_stride (hu : u ≠ []) (hfree : .char Instruction.marker ∉ u ++ v)
    (hbody : .char Instruction.marker ∉ body)
    (hlen : (commented u body v).length ≤ Playfield.lengthLimit) (h : Shifted u body v m n)
    (hcd : c.Shifted u body v d) :
    Agree (SameStop u body) (Cursor.Shifted u body v) (c.stride m.field) (d.stride n.field) := by
  obtain ⟨rfl, x, hx, hplace⟩ := hcd
  have hlength := length_commented u body v
  have hplain := Cursor.stride_ofRow (c := c) (by omega) hplace hx
    (fun hmark => hfree (List.mem_of_getElem? hmark))
  have hpast := Cursor.stride_commented (c := c.relocate (shifted u body)) hu hfree hbody hlen hx
    (by rw [Cursor.relocate, hplace]; rfl)
  rw [h.field, h.field', hplain, hpast]
  exact ⟨rfl, _, c.direction.along_lt hx, rfl⟩

theorem shifted_simulation (hu : u ≠ []) (hlocal : ∀ cell ∈ u ++ v, cell ∉ Cell.farReaching)
    (hbody : .char Instruction.marker ∉ body)
    (hlen : (commented u body v).length ≤ Playfield.lengthLimit) :
    Simulation (Shifted u body v) (Cursor.Shifted u body v) (SameStop u body) where
  cursors h := h.cursors
  opened h := ⟨h.field, h.field', h.settings, h.transcript, h.console, h.random, h.ticks, .nil⟩
  turn := by
    intro m n c d h hcd
    have hcell := h.read hcd
    obtain ⟨x, hx, hposition⟩ := hcd.place
    have hmode : d.mode = c.mode := by
      rw [hcd.eq]
      rfl
    have hseen : Cursor.Shifted u body v (m.seen c) (n.seen d) := by
      refine ⟨?_, x, hx, hposition⟩
      rw [seen, seen, hcell, hcd.eq]
      rfl
    apply turn_agrees _ h hmode hseen
    · apply met_agrees h hcell hmode hseen
      · refine ⟨by rw [hseen.eq, Cursor.toggleLiteral_relocate], x, hx, ?_⟩
        rw [Cursor.toggleLiteral_position]
        exact hposition
      · intro value
        exact ⟨by rw [hseen.eq]; rfl, x, hx, hposition⟩
      · intro cell
        rw [hcd.eq]
        rfl
      · intro i hi
        have hmem : m.field.read c.position ∈ u ++ v := by
          rw [h.field, hposition, Playfield.read_ofRow, List.getElem?_eq_getElem hx]
          exact List.getElem_mem hx
        exact shifted_execute h hseen (Instruction.isLocal_of_ofCell? (hlocal _ hmem) hi)
    · intro m n h c d hcd
      have hfree : .char Instruction.marker ∉ u ++ v := fun hmem => hlocal _ hmem (by decide)
      exact shifted_stride hu hfree hbody hlen h hcd
  close := by
    intro m n cs ds h hcs
    refine ⟨h.field, h.field', h.settings, h.transcript, h.console, h.random,
      congrArg (· + 1) h.ticks, close_cursors_related ?_ h.cursors hcs⟩
    rintro c d ⟨rfl, _⟩
    rfl

theorem Shifted.cursors_eq (h : Shifted u body v m n) :
    n.cursors = m.cursors.map (Cursor.relocate (shifted u body)) := by
  have hcursors := h.cursors
  generalize m.cursors = cs at hcursors
  generalize n.cursors = ds at hcursors
  induction hcursors with
  | nil => rfl
  | cons hcd _ ih => rw [List.map_cons, ih, hcd.eq]

/-- **Comments are transparent.** Put a stretch between two markers, free of markers itself, behind
a part `u` of a row whose instructions all keep to their own place. In every tick the program then
gives the same result, and it leaves the same console, transcript, random source and count of ticks,
and the same cursors; places in the part `v` behind the comment, also those of faults, are farther
right by its length. -/
theorem comment_transparent (u v body : List Cell) (hu : u ≠ [])
    (hlocal : ∀ cell ∈ u ++ v, cell ∉ Cell.farReaching)
    (hbody : .char Instruction.marker ∉ body)
    (hlen : (commented u body v).length ≤ Playfield.lengthLimit) (settings : Settings)
    (console : Console) (fresh : UInt64) (k : Nat) :
    let m := start (.ofRow (u ++ v)) settings console fresh
    let n := start (.ofRow (commented u body v)) settings console fresh
    (∀ j < k, (n.after j).tick.1 =
      (m.after j).tick.1.mapError (Stop.relocate (shifted u body))) ∧
    (n.after k).cursors = (m.after k).cursors.map (Cursor.relocate (shifted u body)) ∧
    (n.after k).console = (m.after k).console ∧
    (n.after k).transcript = (m.after k).transcript ∧
    (n.after k).random = (m.after k).random ∧ (n.after k).ticks = (m.after k).ticks := by
  intro m n
  have hsim := shifted_simulation (v := v) hu hlocal hbody hlen
  have hpos := List.length_pos_iff.mpr hu
  have hstart : Shifted u body v m n := by
    refine ⟨rfl, rfl, rfl, rfl, rfl, rfl, rfl, .cons ⟨?_, 0, ?_, rfl⟩ .nil⟩
    · rw [Cursor.relocate, shifted, pastComment,
        if_pos (show Cursor.initial.position.x < u.length from hpos)]
    · rw [List.length_append]
      omega
  constructor
  · intro j _
    have hresult := (hsim.tick (hsim.after hstart j)).1
    rcases hresult.cases with ⟨s, t, hm, hn, rfl⟩ | ⟨_, _, hm, hn, _⟩
    · rw [hm, hn]
      rfl
    · rw [hm, hn]
      rfl
  · have hk := hsim.after hstart k
    exact ⟨hk.cursors_eq, hk.console, hk.transcript, hk.random, hk.ticks⟩

/-- Five divided by zero, without and with the comment `;@";` behind the five. -/
theorem comment_transparent_division :
    ((start (.ofRow [.char '5', .char '0', .char '/']) {} {} 0).after 2).tick.1 =
        .error (.fault (.divisionByZero 5 ⟨2, 0⟩)) ∧
      ((start (.ofRow [.char '5', .char ';', .char '@', .char '"', .char ';', .char '0', .char '/'])
        {} {} 0).after 2).tick.1 = .error (.fault (.divisionByZero 5 ⟨6, 0⟩)) := by
  have hplain : ((start (.ofRow [.char '5', .char '0', .char '/']) {} {} 0).after 2).tick.1 =
      .error (.fault (.divisionByZero 5 ⟨2, 0⟩)) := rfl
  have hcomment := (comment_transparent [.char '5'] [.char '0', .char '/'] [.char '@', .char '"']
    (by decide) (by decide) (by decide) (by decide) {} {} 0 3).1 2 (by decide)
  refine ⟨hplain, hcomment.trans ?_⟩
  rw [show [Cell.char '5'] ++ [.char '0', .char '/'] = [.char '5', .char '0', .char '/'] from rfl,
    hplain]
  rfl

end Machine

end Funge
