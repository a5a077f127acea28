import Mathlib.Data.List.GetD
import Funge.Playfield.Source
import Funge.Proofs.Memory
import Funge.Proofs.Simulation

/-!
The form of cells. A value may be stored as a character or as a bare number. Where printable values
are stored as characters, which loading and every tick see to, a program cannot find out which of
the other characters are stored as numbers: cells of the same value and the same instruction are
indistinct, and machines that differ only by such cells stay so.
-/

namespace Funge

/-- The characters of the instructions are printable. -/
theorem Instruction.printable_of_ofChar? {c : Char} {i : Instruction} (h : ofChar? c = some i) :
    32 ≤ c.toNat ∧ c.toNat ≤ 126 := by
  unfold ofChar? at h
  split at h
  · next value hvalue =>
    unfold hexValue? at hvalue
    split at hvalue
    · next hc =>
      have hlow : 48 ≤ c.toNat := hc.1
      have hhigh : c.toNat ≤ 57 := hc.2
      omega
    · split at hvalue
      · next hc =>
        have hlow : 97 ≤ c.toNat := hc.1
        have hhigh : c.toNat ≤ 102 := hc.2
        omega
      · cases hvalue
  · split at h
    · next hreserved =>
      have hall : ∀ r ∈ reservedChars, 32 ≤ r.toNat ∧ r.toNat ≤ 126 := by
        simp [reservedChars]
      exact hall c hreserved
    · unfold command? at h
      split at h
      case h_35 => cases h
      all_goals decide

namespace Cell

/-- The value is kept as a character. -/
def Printable (v : Int64) : Prop := leastPrintable ≤ v ∧ v ≤ greatestPrintable

instance (v : Int64) : Decidable (Printable v) := inferInstanceAs (Decidable (_ ∧ _))

theorem ofValue_of_printable {v : Int64} (h : Printable v) :
    ofValue v = char (Char.ofNat v.toInt.toNat) := if_pos h

theorem ofValue_of_unprintable {v : Int64} (h : ¬ Printable v) : ofValue v = int v := if_neg h

/-- A bare number is not printable. -/
def Canonical : Cell → Prop
  | char _ => True
  | int v => ¬ Printable v

instance : DecidablePred Canonical
  | char _ => isTrue trivial
  | int v => inferInstanceAs (Decidable (¬ Printable v))

/-- The form in which a program stores the value of the cell. -/
def normal (c : Cell) : Cell := ofValue c.code

theorem code_normal (c : Cell) : c.normal.code = c.code := code_ofValue c.code

theorem normal_ofValue (v : Int64) : (ofValue v).normal = ofValue v := by
  rw [normal, code_ofValue]

theorem canonical_ofValue (v : Int64) : (ofValue v).Canonical := by
  by_cases hprint : Printable v
  · rw [ofValue_of_printable hprint]
    exact trivial
  · rw [ofValue_of_unprintable hprint]
    exact hprint

theorem canonical_blank : blank.Canonical := trivial

theorem normal_blank : blank.normal = blank := by decide

/-- A character is stored as it is, or else it is no instruction. -/
theorem Canonical.ofCell?_normal {cell : Cell} (hcell : cell.Canonical) :
    Instruction.ofCell? cell.normal = Instruction.ofCell? cell := by
  cases cell with
  | int v => rw [normal, code, ofValue_of_unprintable hcell]
  | char c =>
    by_cases hprint : Printable (char c).code
    · rw [normal, ofValue_of_printable hprint, toInt_code_char, Int.toNat_natCast,
        Char.ofNat_toNat]
    · rw [normal, ofValue_of_unprintable hprint]
      cases hchar : Instruction.ofChar? c with
      | none => exact hchar.symm
      | some i =>
        obtain ⟨hlow, hhigh⟩ := Instruction.printable_of_ofChar? hchar
        have hcode := toInt_code_char c
        refine absurd ⟨?_, ?_⟩ hprint
        · rw [Int64.le_iff_toInt_le, hcode, show leastPrintable.toInt = 32 by decide]
          omega
        · rw [Int64.le_iff_toInt_le, hcode, show greatestPrintable.toInt = 126 by decide]
          omega

/-- A program cannot tell related cells apart, and what it stores is related to itself. -/
structure Indistinct (K : Cell → Cell → Prop) : Prop where
  code : ∀ {a b}, K a b → b.code = a.code
  instruction : ∀ {a b}, K a b → Instruction.ofCell? b = Instruction.ofCell? a
  stored : ∀ v, K (ofValue v) (ofValue v)

variable {K : Cell → Cell → Prop}

/-- The second cell is the normal form of the first. -/
def Normalizes (a b : Cell) : Prop := a.Canonical ∧ b = a.normal

/-- The second cell is the first or the normal form of it. -/
def Keeps (a b : Cell) : Prop := a.Canonical ∧ (b = a ∨ b = a.normal)

theorem normalizes_indistinct : Indistinct Normalizes where
  code := by
    rintro a _ ⟨_, rfl⟩
    exact code_normal a
  instruction := by
    rintro a _ ⟨ha, rfl⟩
    exact ha.ofCell?_normal
  stored v := ⟨canonical_ofValue v, (normal_ofValue v).symm⟩

theorem keeps_indistinct : Indistinct Keeps where
  code := by
    rintro a _ ⟨_, rfl | rfl⟩
    · rfl
    · exact code_normal a
  instruction := by
    rintro a _ ⟨ha, rfl | rfl⟩
    · rfl
    · exact ha.ofCell?_normal
  stored v := ⟨canonical_ofValue v, Or.inl rfl⟩

end Cell

/-! ## Playfields -/

namespace Playfield

variable {f g : Playfield} {K : Cell → Cell → Prop}

theorem SameShape.seekRow (h : f.SameShape g) (x : Nat) (step : Int64) (fuel y : Nat) :
    g.seekRow x step fuel y = f.seekRow x step fuel y := by
  induction fuel generalizing y with
  | zero => rfl
  | succ fuel ih => rw [Playfield.seekRow, Playfield.seekRow, h.cells, h.rows, ih]

theorem SameShape.advance? (h : f.SameShape g) (p : Position) (d : Direction) :
    g.advance? p d = f.advance? p d := by
  simp only [Playfield.advance?, h.cells, h.rows, h.seekRow]

theorem SameShape.jump (h : f.SameShape g) (p : Position) (d : Direction) (n : Int64) :
    g.jump p d n = f.jump p d n := by
  simp only [Playfield.jump, h.cells, h.rows]

theorem SameShape.extent (h : f.SameShape g) (p : Position) (d : Direction) :
    g.extent p d = f.extent p d := by
  simp only [Playfield.extent, h.cells, h.rows]

theorem SameShape.overgrows (h : f.SameShape g) (p : Position) :
    g.Overgrows p ↔ f.Overgrows p := by
  simp only [Overgrows, h.cells, h.rows]

/-- The same playfield up to related cells. -/
structure Alike (K : Cell → Cell → Prop) (f g : Playfield) : Prop where
  shape : f.SameShape g
  read : ∀ p, K (f.read p) (g.read p)

theorem Alike.write (h : Alike K f g) {a b : Cell} (hab : K a b) (p : Position) :
    Alike K (f.write p a) (g.write p b) where
  shape := by
    constructor
    · rw [rowCount_write, rowCount_write, h.shape.rows]
    · intro y
      rw [rowLength_write, rowLength_write, h.shape.cells]
  read q := by
    rw [read_write, read_write]
    split
    · exact hab
    · exact h.read q

/-- Writes need too much memory on both, or are done on both. -/
theorem Alike.write? (h : Alike K f g) {a b : Cell} (hab : K a b) (p : Position) :
    f.write? p a = none ∧ g.write? p b = none ∨
      ∃ f' g', f.write? p a = some f' ∧ g.write? p b = some g' ∧ Alike K f' g' := by
  by_cases hgrow : f.Overgrows p
  · exact Or.inl ⟨if_pos hgrow, if_pos ((h.shape.overgrows p).mpr hgrow)⟩
  · exact Or.inr ⟨_, _, if_neg hgrow, if_neg (fun hg => hgrow ((h.shape.overgrows p).mp hg)),
      h.write hab p⟩

theorem Alike.fetch (h : Alike K f g) (hK : Cell.Indistinct K) (x y : Int64) :
    Cursor.fetch g x y = Cursor.fetch f x y := by
  unfold Cursor.fetch
  cases Position.ofWords? x y with
  | none => rfl
  | some p => exact hK.code (h.read p)

/-- Printable values are stored as characters. -/
def Canonical (f : Playfield) : Prop := ∀ r ∈ f.rows, ∀ cell ∈ r, cell.Canonical

instance (f : Playfield) : Decidable f.Canonical :=
  inferInstanceAs (Decidable (∀ r ∈ f.rows, ∀ cell ∈ r, cell.Canonical))

/-- The playfield with every value stored as a program would store it. -/
def normal (f : Playfield) : Playfield := ⟨f.rows.map (List.map Cell.normal)⟩

theorem canonical_iff_read (f : Playfield) : f.Canonical ↔ ∀ p, (f.read p).Canonical := by
  constructor
  · intro h p
    rw [read, row, List.getD_eq_getElem?_getD, List.getD_eq_getElem?_getD]
    cases hrow : f.rows[p.y]? with
    | none => exact Cell.canonical_blank
    | some r =>
      rw [Option.getD_some]
      cases hcell : r[p.x]? with
      | none => exact Cell.canonical_blank
      | some cell => exact h r (List.mem_of_getElem? hrow) cell (List.mem_of_getElem? hcell)
  · intro h r hr cell hcell
    obtain ⟨y, hy⟩ := List.mem_iff_getElem?.mp hr
    obtain ⟨x, hx⟩ := List.mem_iff_getElem?.mp hcell
    have hread : f.read ⟨x, y⟩ = cell := by
      simp [read, row, hy, hx]
    rw [← hread]
    exact h ⟨x, y⟩

theorem row_normal (f : Playfield) (y : Nat) : f.normal.row y = (f.row y).map Cell.normal :=
  List.getD_map f.rows [] (List.map Cell.normal)

theorem read_normal (f : Playfield) (p : Position) : f.normal.read p = (f.read p).normal := by
  have hmap := List.getD_map (f.row p.y) Cell.blank (n := p.x) Cell.normal
  rwa [Cell.normal_blank, ← row_normal] at hmap

theorem sameShape_normal (f : Playfield) : f.SameShape f.normal where
  rows := List.length_map _
  cells y := by rw [rowLength, rowLength, row_normal, List.length_map]

theorem Canonical.alike_normal (hf : f.Canonical) : f.Alike Cell.Normalizes f.normal where
  shape := sameShape_normal f
  read p := ⟨(canonical_iff_read f).mp hf p, read_normal f p⟩

theorem Alike.canonical (h : f.Alike Cell.Normalizes g) : f.Canonical :=
  (canonical_iff_read f).mpr fun p => (h.read p).1

theorem Alike.eq_normal (h : f.Alike Cell.Normalizes g) : g = f.normal := by
  have hshape : f.normal.SameShape g := by
    constructor
    · rw [h.shape.rows, (sameShape_normal f).rows]
    · intro y
      rw [h.shape.cells, (sameShape_normal f).cells]
  apply hshape.eq
  intro p
  rw [(h.read p).2, read_normal]

/-- A stored value put back into its place leaves cells that keep their values. -/
theorem Canonical.alike_write (hf : f.Canonical) {p : Position} (hp : f.Stored p) :
    f.Alike Cell.Keeps (f.write p (f.read p).normal) where
  shape := by
    have hrow := lt_rowCount_of_lt_rowLength hp
    constructor
    · rw [rowCount_write]
      omega
    · intro y
      rw [rowLength_write]
      split
      · next hy =>
        subst hy
        exact Nat.max_eq_left hp
      · rfl
  read q := by
    refine ⟨(canonical_iff_read f).mp hf q, ?_⟩
    rw [read_write]
    split
    · next hq =>
      rw [hq]
      exact Or.inr rfl
    · exact Or.inl rfl

theorem canonical_ofLine (line : List Char) : ∀ cell ∈ ofLine line, cell.Canonical := by
  intro cell hcell
  obtain ⟨c, _, rfl⟩ := List.mem_map.mp hcell
  exact trivial

theorem canonical_ofText (source : String) : (ofText source).Canonical := by
  intro r hr
  obtain ⟨line, _, rfl⟩ := List.mem_map.mp hr
  exact canonical_ofLine line

theorem canonical_load {name : String} {document : Document}
    (h : load name document = .ok f) : f.Canonical := by
  unfold load at h
  split at h
  · cases h
    intro r hr
    obtain ⟨line, _, rfl⟩ := List.mem_map.mp hr
    exact canonical_ofLine line
  · cases h

end Playfield

/-! ## Cursors -/

/-- The same reason to stop, up to related cells that are no instructions. -/
def Stop.Alike (K : Cell → Cell → Prop) (s t : Stop) : Prop :=
  t = s ∨ ∃ a b p, K a b ∧ s = .fault (.illegalInstruction a p) ∧
    t = .fault (.illegalInstruction b p)

namespace Cursor

variable {f g : Playfield} {K : Cell → Cell → Prop} {c d : Cursor}

/-- The same cursor up to the form of the cell that it has met last. -/
structure Alike (K : Cell → Cell → Prop) (c d : Cursor) : Prop where
  eq : d = { c with last := d.last }
  last : K c.last d.last ∨ d.last = c.last

theorem Alike.exists (h : Alike K c d) :
    ∃ cell, d = { c with last := cell } ∧ (K c.last cell ∨ cell = c.last) := ⟨d.last, h.eq, h.last⟩

theorem Alike.isTerminated (h : Alike K c d) : c.isTerminated = d.isTerminated := by
  rw [h.eq]
  rfl

theorem Alike.toggleLiteral (h : Alike K c d) : Alike K c.toggleLiteral d.toggleLiteral := by
  obtain ⟨cell, rfl, hcell⟩ := h.exists
  obtain ⟨p, e, s, mode, last⟩ := c
  cases mode <;> exact ⟨rfl, hcell⟩

theorem alike_requireRoom (hfg : f.SameShape g) (h : Alike K c d) :
    d.requireRoom g = c.requireRoom f := by
  obtain ⟨cell, rfl, _⟩ := h.exists
  rw [requireRoom, requireRoom, hfg.extent]

theorem alike_advance (hfg : f.SameShape g) (h : Alike K c d) :
    Agree Eq (Alike K) (c.advance f) (d.advance g) := by
  rw [advance, advance, alike_requireRoom hfg h]
  obtain ⟨cell, rfl, hcell⟩ := h.exists
  rw [hfg.advance?]
  cases c.requireRoom f with
  | error s => exact rfl
  | ok u =>
    dsimp only
    cases f.advance? c.position c.direction with
    | none => exact rfl
    | some p => exact ⟨rfl, hcell⟩

theorem alike_steps (hK : Cell.Indistinct K) (hfg : f.Alike K g) :
    StepsAgree f g (Alike K) Eq where
  advance := alike_advance hfg.shape
  marker := by
    intro c d h
    obtain ⟨cell, rfl, _⟩ := h.exists
    simp only [atMarker, Instruction.eq_marker_iff, hK.instruction (hfg.read c.position)]
  extent := by
    intro c d h
    obtain ⟨cell, rfl, _⟩ := h.exists
    rw [hfg.shape.extent]
  endless := rfl

theorem alike_jumpForward (hfg : f.SameShape g) (h : Alike K c d) (n : Int64) :
    Agree Eq (Alike K) (c.jumpForward f n) (d.jumpForward g n) := by
  rw [jumpForward, jumpForward, alike_requireRoom hfg h]
  obtain ⟨cell, rfl, hcell⟩ := h.exists
  rw [hfg.jump]
  cases c.requireRoom f with
  | error s => exact rfl
  | ok u => exact ⟨rfl, hcell⟩

/-- No instruction depends on the cell met last, and those that look at the playfield find the
same values and the same ways. -/
theorem alike_act (hK : Cell.Indistinct K) (hfg : f.Alike K g) (h : Alike K c d)
    (i : Instruction) :
    Alike K (c.act f i).1 (d.act g i).1 ∧ (d.act g i).2 = (c.act f i).2 := by
  obtain ⟨cell, rfl, hcell⟩ := h.exists
  cases i with
  | trampoline => exact moved_agrees h (alike_advance hfg.shape h)
  | jumpOver => exact moved_agrees h ((alike_steps hK hfg).jumpOver h)
  | jumpForward =>
    have hdrop : Alike K (c.drop 1) (drop { c with last := cell } 1) := ⟨rfl, hcell⟩
    exact moved_agrees hdrop (alike_jumpForward hfg.shape hdrop (c.operand 0))
  | get =>
    rw [act, act, hfg.fetch hK]
    exact ⟨⟨rfl, hcell⟩, rfl⟩
  | divide | modulo =>
    by_cases hzero : c.operand 0 = 0
    · have hzero' : operand { c with last := cell } 0 = 0 := hzero
      simp only [act, hzero, hzero', ↓reduceIte]
      exact ⟨⟨rfl, hcell⟩, rfl⟩
    · have hzero' : operand { c with last := cell } 0 ≠ 0 := hzero
      simp only [act, hzero, hzero', ↓reduceIte]
      exact ⟨⟨rfl, hcell⟩, trivial⟩
  | toggleLiteral => exact ⟨h.toggleLiteral, rfl⟩
  | _ => exact ⟨⟨rfl, hcell⟩, rfl⟩

end Cursor

/-! ## Machines -/

namespace Machine

variable {K : Cell → Cell → Prop} {m n : Machine} {c d : Cursor}

/-- The same machine up to the form of its cells, and of those that its cursors have met last. -/
structure Alike (K : Cell → Cell → Prop) (m n : Machine) : Prop where
  world : { n with field := m.field, cursors := [] } = { m with cursors := [] }
  field : m.field.Alike K n.field
  cursors : List.Forall₂ (Cursor.Alike K) m.cursors n.cursors

theorem Alike.eq (h : Alike K m n) : n = { m with field := n.field, cursors := n.cursors } :=
  congrArg (fun k : Machine => { k with field := n.field, cursors := n.cursors }) h.world

theorem Alike.exists (h : Alike K m n) :
    ∃ g ds, n = { m with field := g, cursors := ds } ∧ m.field.Alike K g ∧
      List.Forall₂ (Cursor.Alike K) m.cursors ds := ⟨_, _, h.eq, h.field, h.cursors⟩

theorem alike_perform (hK : Cell.Indistinct K) (hmn : Alike K m n) (hcd : c.Alike K d)
    (l : Position) (e : Effect) :
    (m.perform c l e).Agrees (Alike K) (Cursor.Alike K) (Stop.Alike K) (n.perform d l e) := by
  obtain ⟨g, ds, rfl, hg, hds⟩ := hmn.exists
  obtain ⟨cell, rfl, hcell⟩ := hcd.exists
  cases e with
  | none => exact ⟨hmn, hcd, trivial⟩
  | print text =>
    simp only [perform, print, write]
    split
    · exact ⟨⟨rfl, hg, hds⟩, hcd, trivial⟩
    · split
      · exact ⟨⟨rfl, hg, hds⟩, hcd, trivial⟩
      · exact ⟨⟨rfl, hg, hds⟩, hcd, Or.inl rfl⟩
  | readInteger | readCharacter =>
    simp only [perform, received]
    split
    · exact ⟨⟨rfl, hg, hds⟩, ⟨rfl, hcell⟩, trivial⟩
    · exact ⟨⟨rfl, hg, hds⟩, hcd, Or.inl rfl⟩
  | put x y value =>
    simp only [perform, put]
    split
    · exact ⟨⟨rfl, hg, hds⟩, hcd, trivial⟩
    · next p _ =>
      rcases hg.write? (hK.stored value) p with ⟨hnone, hnone'⟩ | ⟨f', g', hsome, hsome', halike⟩
      · simp only [hnone, hnone']
        exact ⟨⟨rfl, hg, hds⟩, hcd, Or.inl rfl⟩
      · simp only [hsome, hsome']
        exact ⟨⟨rfl, halike, hds⟩, hcd, trivial⟩
  | fork =>
    simp only [perform, fork, hg.shape.advance?]
    split
    · exact ⟨⟨rfl, hg, hds⟩, hcd, Or.inl rfl⟩
    · exact ⟨⟨rfl, hg, .cons ⟨rfl, Or.inr rfl⟩ hds⟩, hcd, trivial⟩
  | goRandom => exact ⟨⟨rfl, hg, hds⟩, ⟨rfl, hcell⟩, trivial⟩

theorem alike_execute (hK : Cell.Indistinct K) (hmn : Alike K m n) (hcd : c.Alike K d)
    (i : Instruction) :
    (m.execute c i).Agrees (Alike K) (Cursor.Alike K) (Stop.Alike K) (n.execute d i) := by
  obtain ⟨hafter, heffect⟩ := Cursor.alike_act hK hmn.field hcd i
  have hplace : d.position = c.position := by rw [hcd.eq]
  apply execute_agrees hmn (fun _ => Or.inl rfl) hafter heffect
  intro e
  rw [hplace]
  exact alike_perform hK hmn hafter _ e

theorem alike_simulation (hK : Cell.Indistinct K) :
    Simulation (Alike K) (Cursor.Alike K) (Stop.Alike K) where
  cursors h := h.cursors
  opened := by
    intro m n h
    have hlen := h.cursors.length_eq
    obtain ⟨g, ds, rfl, hg, hds⟩ := h.exists
    refine ⟨?_, hg, .nil⟩
    simp only [opened, report, hlen]
  turn := by
    intro m n c d hmn hcd
    have hplace : d.position = c.position := by rw [hcd.eq]
    have hcells : K (m.field.read c.position) (n.field.read d.position) := by
      rw [hplace]
      exact hmn.field.read c.position
    have hmode : d.mode = c.mode := by rw [hcd.eq]
    have hseen : (m.seen c).Alike K (n.seen d) := by
      refine ⟨?_, Or.inl hcells⟩
      rw [seen, seen, hcd.eq]
    apply turn_agrees _ hmn hmode hseen
    · apply met_agrees_of_alike hmn (hK.code hcells) (hK.instruction hcells) hmode hseen
        hseen.toggleLiteral
      · intro v
        obtain ⟨cell, heq, hcell⟩ := hseen.exists
        rw [heq]
        exact ⟨rfl, hcell⟩
      · rw [hplace] at hcells ⊢
        exact Or.inr ⟨_, _, _, hcells, rfl, rfl⟩
      · intro i _
        exact alike_execute hK hmn hseen i
    · intro m n h c d hcd
      exact ((Cursor.alike_steps hK h.field).stride hcd).mono fun _ _ h => Or.inl h.symm
  close := by
    intro m n cs ds h hcs
    have hgone := gone_related (fun _ _ => Cursor.Alike.isTerminated)
      (fun c d hcd => by rw [hcd.eq]) (List.rel_append h.cursors hcs)
    have hcursors := close_cursors_related (fun _ _ => Cursor.Alike.isTerminated) h.cursors hcs
    refine ⟨?_, h.field, hcursors⟩
    simp only [close, hgone]
    rw [h.eq]

/-- Machines that are alike stay so, and their ticks give the same results. -/
theorem Alike.after (h : Alike K m n) (hK : Cell.Indistinct K) (k : Nat) :
    Agree (Stop.Alike K) (fun _ _ => True) (m.after k).tick.1 (n.after k).tick.1 ∧
      Alike K (m.after k) (n.after k) := by
  have hk := (alike_simulation hK).after h k
  exact ⟨((alike_simulation hK).tick hk).1, hk⟩

theorem alike_of_field {g : Playfield} (hg : m.field.Alike K g) :
    Alike K m { m with field := g } :=
  ⟨rfl, hg, List.forall₂_same.mpr fun _ _ => ⟨rfl, Or.inr rfl⟩⟩

theorem put_fetch (m : Machine) {x y : Int64} (hx : 0 ≤ x) (hy : 0 ≤ y)
    (hstored : m.field.Stored ⟨x.toInt.toNat, y.toInt.toNat⟩) (l : Position) :
    m.put x y (Cursor.fetch m.field x y) l =
      (.ok (), { m with
        field := m.field.write ⟨x.toInt.toNat, y.toInt.toNat⟩
          (m.field.read ⟨x.toInt.toNat, y.toInt.toNat⟩).normal }) := by
  have hroom := hstored.not_overgrows
  simp only [put, Cursor.fetch, Position.ofWords?_of_nonneg hx hy, Playfield.write?, if_neg hroom]
  rfl

/-- **The form of cells cannot be observed.** Loading gives canonical playfields and ticks keep them
so. A machine with a canonical playfield and the same machine with the normal form of that playfield
give the same results in every tick, up to the cell of an illegal instruction; the second playfield
stays the normal form of the first, and the machines differ in nothing else but the form of the
cells that their cursors have met last. The same is true of a machine and the same machine after a
stored value has been put back into its place, except that there only some cells are normalised. -/
theorem form_unobservable (m : Machine) (hm : m.field.Canonical) :
    (∀ source, (Playfield.ofText source).Canonical) ∧
    (∀ name document f, Playfield.load name document = .ok f → f.Canonical) ∧
    m.tick.2.field.Canonical ∧
    (∀ k,
      let n : Machine := { m with field := m.field.normal }
      Agree (Stop.Alike Cell.Normalizes) (fun _ _ => True) (m.after k).tick.1 (n.after k).tick.1 ∧
      (n.after k).field = (m.after k).field.normal ∧
      Alike Cell.Normalizes (m.after k) (n.after k)) ∧
    (∀ x y l k, 0 ≤ x → 0 ≤ y → m.field.Stored ⟨x.toInt.toNat, y.toInt.toNat⟩ →
      let n : Machine := (m.put x y (Cursor.fetch m.field x y) l).2
      (m.put x y (Cursor.fetch m.field x y) l).1 = .ok () ∧
      Agree (Stop.Alike Cell.Keeps) (fun _ _ => True) (m.after k).tick.1 (n.after k).tick.1 ∧
      Alike Cell.Keeps (m.after k) (n.after k)) := by
  have hnormal := alike_of_field hm.alike_normal
  refine ⟨Playfield.canonical_ofText, fun _ _ _ => Playfield.canonical_load, ?_, ?_, ?_⟩
  · exact ((alike_simulation Cell.normalizes_indistinct).tick hnormal).2.field.canonical
  · intro k
    obtain ⟨hresult, hk⟩ := hnormal.after Cell.normalizes_indistinct k
    exact ⟨hresult, hk.field.eq_normal, hk⟩
  · intro x y l k hx hy hstored
    rw [put_fetch m hx hy hstored l]
    exact ⟨rfl, (alike_of_field (hm.alike_write hstored)).after Cell.keeps_indistinct k⟩

/-- A digit and a character that is neither printable nor an instruction. -/
def accented : Playfield := ⟨[[.char '1', .char 'é']]⟩

/-- Both forms of the second cell are illegal, and they are reported in their own form. -/
theorem form_unobservable_accented :
    accented.Canonical ∧ accented.normal = ⟨[[.char '1', .int 233]]⟩ ∧
      ((start accented {} {} 0).after 1).tick.1 =
        .error (.fault (.illegalInstruction (.char 'é') ⟨1, 0⟩)) ∧
      (Machine.after { start accented {} {} 0 with field := accented.normal } 1).tick.1 =
        .error (.fault (.illegalInstruction (.int 233) ⟨1, 0⟩)) ∧
      (Machine.after { start accented {} {} 0 with field := accented.normal } 1).field =
        ((start accented {} {} 0).after 1).field.normal ∧
      Alike Cell.Normalizes ((start accented {} {} 0).after 1)
        (Machine.after { start accented {} {} 0 with field := accented.normal } 1) := by
  have hcanonical : accented.Canonical := by decide
  have hsame := (form_unobservable (start accented {} {} 0) hcanonical).2.2.2.1 1
  exact ⟨hcanonical, by decide, by decide +kernel, by decide +kernel, hsame.2⟩

end Machine

end Funge
