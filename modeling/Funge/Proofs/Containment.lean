import Funge.Proofs.Instruction
import Funge.Proofs.Invariant
import Funge.Proofs.StoredCell

/-!
Failing turns. A turn that fails takes at most two values off the stack of its cursor and may
have written the start of a text; everything else stays as it was, and a fault with a place
names the place of the cursor. Instructions and requests see to that by themselves, since they
fail before they take effect. The move after them could come too late, but it cannot fail: a
live cursor stands in a row that has a cell, and hence there is room in every direction.
-/

namespace Funge

/-- The cell that a fault names. -/
def Fault.cell? : Fault → Option Cell
  | illegalInstruction cell _ | notImplemented cell _ => some cell
  | _ => none

theorem Fault.cell?_of_location? {e : Fault} (h : e.location? = none) : e.cell? = none := by
  cases e with
  | illegalInstruction | notImplemented => cases h
  | _ => rfl

/-! ## Room to move -/

namespace Playfield

variable {f g : Playfield} {p q : Position} {d : Direction}

/-- The row of `p` has a cell. -/
def Grounded (f : Playfield) (p : Position) : Prop := 0 < f.rowLength p.y

theorem Stored.grounded (h : f.Stored p) : f.Grounded p :=
  Nat.lt_of_le_of_lt (Nat.zero_le _) h

theorem Within.grounded (h : f.Within g) (hp : f.Grounded p) : g.Grounded p :=
  h ⟨0, p.y⟩ hp

theorem Grounded.extent_pos (h : f.Grounded p) (d : Direction) : 0 < f.extent p d := by
  unfold extent
  split
  · exact h
  · exact Nat.lt_of_le_of_lt (Nat.zero_le _) (lt_rowCount_of_lt_rowLength h)

/-- A step along a cycle that is not empty ends in a row that is not empty. -/
theorem advance?_grounded (hroom : 0 < f.extent p d) (h : f.advance? p d = some q) :
    f.Grounded q := by
  unfold extent at hroom
  unfold advance? at h
  split at h
  · next hd =>
    rw [if_pos hd] at hroom
    rw [← Option.some.inj h]
    exact hroom
  · next hd =>
    rw [if_neg hd] at hroom
    rw [if_neg (by omega)] at h
    obtain ⟨y, hy, rfl⟩ := Option.map_eq_some_iff.mp h
    exact Stored.grounded (p := ⟨p.x, y⟩) (seekRow_reaches hy)

theorem jump_extent (f : Playfield) (p : Position) (d : Direction) (n : Int64) :
    f.extent (f.jump p d n) d = f.extent p d := by
  unfold extent jump
  split <;> rfl

end Playfield

namespace Cursor

variable {f : Playfield} {c : Cursor}

theorem advance_of_room (hroom : 0 < f.extent c.position c.direction) :
    c.LandsIn f.Grounded (c.advance f) := by
  have hreq : c.requireRoom f = .ok () := if_neg (by omega)
  simp only [advance, hreq]
  cases hadv : f.advance? c.position c.direction with
  | none => exact Or.inl rfl
  | some q => exact Or.inr ⟨q, Playfield.advance?_grounded hroom hadv, rfl⟩

theorem advance_of_no_room (hroom : f.extent c.position c.direction = 0) :
    c.advance f = .error (.fault (.emptyRow c.direction c.position)) := by
  have hreq : c.requireRoom f = .error (.fault (.emptyRow c.direction c.position)) :=
    if_pos hroom
  simp only [advance, hreq]

end Cursor

/-- A step from a row with a cell leads to a row with a cell. -/
theorem grounded_footing :
    Footing (fun _ => True) Playfield.Grounded (fun f p d => 0 < f.extent p d) where
  put _ _ := trivial
  within hwithin hp := hwithin.grounded hp
  ready hp d := hp.extent_pos d
  jump {f p} hp d n := by
    rw [Playfield.jump_extent]
    exact hp.extent_pos d
  advance _ hroom := Cursor.advance_of_room hroom

namespace Cursor

variable {f : Playfield} {c : Cursor} {i : Instruction}

theorem LandsIn.ne_fault {P : Position → Prop} {r : Except Stop Cursor} (h : c.LandsIn P r)
    (e : Fault) : r ≠ .error (.fault e) := by
  rcases h with rfl | ⟨q, _, rfl⟩ <;> simp

theorem advance_fault {e : Fault} (h : c.advance f = .error (.fault e)) :
    e = .emptyRow c.direction c.position := by
  rcases Nat.eq_zero_or_pos (f.extent c.position c.direction) with hroom | hroom
  · rw [advance_of_no_room hroom] at h
    cases h
    rfl
  · exact absurd h ((advance_of_room hroom).ne_fault e)

theorem jumpOver_fault {e : Fault} (h : c.jumpOver f = .error (.fault e)) :
    e = .emptyRow c.direction c.position := by
  rcases Nat.eq_zero_or_pos (f.extent c.position c.direction) with hroom | hroom
  · rw [jumpOver, scan, advance_of_no_room hroom] at h
    cases h
    rfl
  · exact absurd h ((grounded_footing.jumpOver trivial hroom).ne_fault e)

theorem jumpForward_fault {n : Int64} {e : Fault} (h : c.jumpForward f n = .error (.fault e)) :
    e = .emptyRow c.direction c.position := by
  unfold jumpForward requireRoom at h
  split at h
  · next hreq =>
    split at hreq
    · cases hreq
      cases h
      rfl
    · cases hreq
  · cases h

/-! ## Instructions that fail -/

/-- A move that fails leaves the cursor as it was. -/
theorem moved_fault {r : Except Stop Cursor} {e : Fault} (h : (c.moved r).2 = .error (.fault e)) :
    r = .error (.fault e) ∧ (c.moved r).1 = c := by
  cases r with
  | error s =>
    cases h
    exact ⟨rfl, rfl⟩
  | ok d => cases h

/-- An instruction that fails takes at most two values and names its own place, and if it
names a cell, then its own character. -/
theorem act_fault {e : Fault} (h : (c.act f i).2 = .error (.fault e)) :
    (∃ k ≤ 2, (c.act f i).1 = c.drop k) ∧ e.location? = some c.position ∧
      ∀ cell, e.cell? = some cell → cell = .char i.sign := by
  cases i with
  | trampoline =>
    obtain ⟨hadv, hsame⟩ := moved_fault h
    rw [advance_fault hadv]
    exact ⟨⟨0, by omega, hsame⟩, rfl, by simp [Fault.cell?]⟩
  | jumpOver =>
    obtain ⟨hjump, hsame⟩ := moved_fault h
    rw [jumpOver_fault hjump]
    exact ⟨⟨0, by omega, hsame⟩, rfl, by simp [Fault.cell?]⟩
  | jumpForward =>
    obtain ⟨hjump, hsame⟩ := moved_fault h
    rw [jumpForward_fault hjump]
    exact ⟨⟨1, by omega, hsame⟩, rfl, by simp [Fault.cell?]⟩
  | divide | modulo =>
    rw [act] at h ⊢
    split at h
    · next hzero =>
      rw [if_pos hzero]
      cases h
      exact ⟨⟨2, by omega, rfl⟩, rfl, by simp [Fault.cell?]⟩
    · cases h
  | reserved r =>
    cases h
    exact ⟨⟨0, by omega, rfl⟩, rfl, by simp [Fault.cell?, Instruction.sign]⟩
  | _ => cases h

/-- The text that an instruction prints. -/
def printed (c : Cursor) : Instruction → Option String
  | .printInteger => some (Text.Decimal.write (c.operand 0).toInt ++ " ")
  | .printCharacter => some (printedCharacter (c.operand 0))
  | _ => none

theorem printed_of_error {s : Stop} (h : (c.act f i).2 = .error s) : c.printed i = none := by
  cases i with
  | printInteger | printCharacter => cases h
  | _ => rfl

end Cursor

/-- The text that a request prints. -/
def Effect.text? : Effect → Option String
  | print text => some text
  | _ => Option.none

theorem Cursor.act_text? {f : Playfield} {c : Cursor} {i : Instruction} {r : Effect}
    (h : (c.act f i).2 = .ok r) : r.text? = c.printed i := by
  cases i with
  | trampoline | jumpOver | jumpForward =>
    rw [Cursor.act_effect_of_moves rfl h]
    rfl
  | divide | modulo =>
    rw [Cursor.act] at h
    split at h
    · cases h
    · rw [← Except.ok.inj h]
      rfl
  | reserved r => cases h
  | _ =>
    rw [← Except.ok.inj h]
    rfl

/-- Besides the put, an instruction with a request does no more to its cursor than to take a
value. -/
theorem Cursor.act_request {f : Playfield} {c : Cursor} {i : Instruction} {r : Effect}
    (h : (c.act f i).2 = .ok r) (hr : r ≠ .none) (hput : i ≠ .put) :
    ∃ k ≤ 2, (c.act f i).1 = c.drop k := by
  cases i with
  | put => exact absurd rfl hput
  | printInteger | printCharacter => exact ⟨1, by omega, rfl⟩
  | readInteger | readCharacter | fork | goRandom => exact ⟨0, by omega, rfl⟩
  | trampoline | jumpOver | jumpForward => exact absurd (Cursor.act_effect_of_moves rfl h) hr
  | divide | modulo =>
    rw [Cursor.act] at h
    split at h
    · cases h
    · exact absurd (Except.ok.inj h).symm hr
  | reserved r => cases h
  | _ => exact absurd (Except.ok.inj h).symm hr

/-! ## Requests that fail -/

namespace Console

/-- The output has grown by a proper prefix of the text, or not at all if there is no text. -/
def CutShort (before after : Console) : Option String → Prop
  | none => after.output = before.output
  | some text => ∃ k < (Text.Utf8.encode text).size,
    after.output = before.output ++ (Text.Utf8.encode text).take k

theorem write_cutShort {k : Console} {text : String} {cause : ConsoleFault}
    (h : (k.write text).1 = .error cause) : k.CutShort (k.write text).2 (some text) := by
  unfold write at h ⊢
  cases hroom : k.room with
  | none => simp [hroom] at h
  | some room =>
    simp only [hroom] at h ⊢
    split at h
    · cases h
    · next hsize =>
      rw [if_neg hsize]
      exact ⟨room, by omega, rfl⟩

theorem readInteger_output (k : Console) : k.readInteger.console.output = k.output := by
  rw [readInteger_bare]
  rfl

theorem readCharacter_output (k : Console) : k.readCharacter.console.output = k.output := by
  rw [readCharacter_bare]
  rfl

end Console

namespace Machine

/-- What a failure leaves of the machine, if `text` was to be printed. -/
structure Undisturbed (m n : Machine) (text : Option String) : Prop where
  field : n.field = m.field
  newborn : n.cursors = m.cursors
  random : n.random = m.random
  transcript : n.transcript = m.transcript
  output : m.console.CutShort n.console text

variable (m : Machine) (c : Cursor)

theorem Undisturbed.refl : m.Undisturbed m none := ⟨rfl, rfl, rfl, rfl, rfl⟩

theorem received_undisturbed {r : Console.Reading} (h : r.console.output = m.console.output) :
    m.Undisturbed (m.received c r).machine none := by
  unfold received
  split <;> exact ⟨rfl, rfl, rfl, rfl, h⟩

theorem received_cursor {r : Console.Reading} {s : Stop}
    (h : (m.received c r).result = .error s) : (m.received c r).cursor = c := by
  unfold received at h ⊢
  cases hvalue : r.value with
  | ok v => simp [hvalue] at h
  | error f => rfl

theorem print_undisturbed {text : String} {s : Stop} (h : (m.print text).1 = .error s) :
    m.Undisturbed (m.print text).2 (some text) := by
  unfold print at h ⊢
  split at h
  · cases h
  · next hshow =>
    rw [if_neg hshow]
    unfold write at h ⊢
    cases hwrite : m.console.write text with
    | mk r k =>
      cases r with
      | ok u => simp [hwrite] at h
      | error cause =>
        have hcut := Console.write_cutShort (show (m.console.write text).1 = .error cause by
          rw [hwrite])
        rw [hwrite] at hcut
        exact ⟨rfl, rfl, rfl, rfl, hcut⟩

theorem put_ne_fault (x y value : Int64) (l : Position) (e : Fault) :
    (m.put x y value l).1 ≠ .error (.fault e) := by
  unfold put
  split
  · simp
  · split <;> simp

/-- A request that fails with a fault is a print or a read. -/
theorem perform_fault {l : Position} {r : Effect} {e : Fault}
    (h : (m.perform c l r).result = .error (.fault e)) :
    m.Undisturbed (m.perform c l r).machine r.text? ∧ (m.perform c l r).cursor = c := by
  cases r with
  | none | goRandom => cases h
  | print text => exact ⟨print_undisturbed m h, rfl⟩
  | readInteger =>
    exact ⟨received_undisturbed m c m.console.readInteger_output, received_cursor m c h⟩
  | readCharacter =>
    exact ⟨received_undisturbed m c m.console.readCharacter_output, received_cursor m c h⟩
  | put x y value => exact absurd h (put_ne_fault m x y value l e)
  | fork =>
    simp only [perform, fork] at h
    split at h <;> cases h

/-! ## Turns that fail -/

/-- The text that a cursor is about to print. -/
def printedBy : Option String :=
  if c.mode = .normal then (Instruction.ofCell? (m.field.read c.position)).bind c.printed
  else none

theorem printedBy_of_executes {i : Instruction} (h : m.Executes c i) :
    m.printedBy c = c.printed i := by
  rw [printedBy, if_pos h.1, h.2]
  rfl

theorem printedBy_of_idle (h : ∀ i, ¬ m.Executes c i) : m.printedBy c = none := by
  unfold printedBy
  split
  · next hmode =>
    cases hcell : Instruction.ofCell? (m.field.read c.position) with
    | none => rfl
    | some i => exact absurd ⟨hmode, hcell⟩ (h i)
  · rfl

/-- The turn has failed with `e` and has changed nothing but the top of its cursor's stack and,
if it was to print, the output; the place that the fault has is that of the cursor, and the
cell that it names is the one there. -/
structure Contained (t : Turn) (e : Fault) : Prop where
  result : t.result = .error (.fault e)
  machine : m.Undisturbed t.machine (m.printedBy c)
  position : t.cursor.position = c.position
  direction : t.cursor.direction = c.direction
  mode : t.cursor.mode = c.mode
  stack : ∃ k ≤ 2, t.cursor.stack = c.stack.drop k
  location : ∀ p, e.location? = some p → p = c.position
  cell : ∀ cell, e.cell? = some cell → m.field.read c.position = cell

theorem contained_of_drop {t : Turn} {e : Fault} {k : Nat} (hresult : t.result = .error (.fault e))
    (hmachine : m.Undisturbed t.machine (m.printedBy c)) (hk : k ≤ 2)
    (hdrop : t.cursor = (m.seen c).drop k) (hlocation : ∀ p, e.location? = some p → p = c.position)
    (hcell : ∀ cell, e.cell? = some cell → m.field.read c.position = cell) :
    m.Contained c t e where
  result := hresult
  machine := hmachine
  position := by rw [hdrop]; rfl
  direction := by rw [hdrop]; rfl
  mode := by rw [hdrop]; rfl
  stack := ⟨k, hk, by rw [hdrop]; rfl⟩
  location := hlocation
  cell := hcell

theorem execute_contained {i : Instruction} (hi : m.Executes c i) {e : Fault}
    (h : (m.execute (m.seen c) i).result = .error (.fault e)) :
    m.Contained c (m.execute (m.seen c) i) e := by
  have htext : m.printedBy c = (m.seen c).printed i := printedBy_of_executes m c hi
  cases hact : ((m.seen c).act m.field i).2 with
  | error s =>
    rw [execute_error m _ hact] at h ⊢
    cases h
    obtain ⟨⟨k, hk, hdrop⟩, hlocation, hcell⟩ := Cursor.act_fault hact
    refine contained_of_drop m c rfl ?_ hk hdrop ?_ ?_
    · rw [htext, Cursor.printed_of_error hact]
      exact .refl m
    · intro p hp
      exact (Option.some.inj (hlocation.symm.trans hp)).symm
    · intro cell hname
      rw [hcell cell hname]
      exact Instruction.eq_char_of_ofCell? hi.2
  | ok r =>
    rw [execute_ok m _ hact] at h ⊢
    have hr : r ≠ .none := by
      rintro rfl
      cases h
    have hput : i ≠ .put := by
      rintro rfl
      cases hact
      exact put_ne_fault m _ _ _ _ e h
    have hnowhere : e.location? = none := by
      rcases perform_error m _ h with hs | hs | ⟨e', hs, he⟩ <;> cases hs
      exact he
    obtain ⟨hmachine, hsame⟩ := perform_fault m _ h
    obtain ⟨k, hk, hdrop⟩ := Cursor.act_request hact hr hput
    refine contained_of_drop m c h ?_ hk (hsame.trans hdrop) ?_ ?_
    · rw [htext, ← Cursor.act_text? hact]
      exact hmachine
    · simp [hnowhere]
    · simp [Fault.cell?_of_location? hnowhere]

theorem met_contained (hlive : c.mode ≠ .terminated) {e : Fault}
    (h : (m.met c).result = .error (.fault e)) : m.Contained c (m.met c) e := by
  rcases met_cases m c hlive with ⟨i, hi, hmet⟩ | ⟨hidle, hmet | hmet | hmet⟩
  · rw [hmet] at h ⊢
    exact execute_contained m c hi h
  · rw [hmet] at h
    cases h
  · rw [hmet] at h
    cases h
  · rw [hmet] at h ⊢
    cases h
    refine contained_of_drop m c (k := 0) rfl ?_ (by omega) rfl ?_ ?_
    · rw [printedBy_of_idle m c hidle]
      exact .refl m
    · simp [Fault.location?]
    · simp [Fault.cell?]

/-- A turn that returns succeeds and brings its cursor to a row with a cell, or it fails and is
contained. -/
theorem turn_returns (hc : m.field.Grounded c.position) (hret : Returns (m.turn c).result) :
    (m.turn c).result = .ok () ∧
        (m.turn c).machine.field.Grounded (m.turn c).cursor.position ∨
      ∃ e, m.Contained c (m.turn c) e := by
  by_cases hterm : c.mode = .terminated
  · rw [turn_of_terminated m c hterm]
    exact Or.inl ⟨rfl, hc⟩
  · rw [turn_of_live m c hterm] at hret ⊢
    cases hmet : (m.met c).result with
    | error s =>
      simp only [hmet] at hret ⊢
      cases s with
      | fault e => exact Or.inr ⟨e, met_contained m c hterm hmet⟩
      | outOfMemory | endless => exact hret.elim
    | ok u =>
      rcases grounded_footing.turn_stride trivial hc hterm hmet with hmove | ⟨q, hq, hmove⟩
      · simp only [hmet, hmove] at hret
        exact hret.elim
      · simp only [hmove]
        exact Or.inl ⟨hmet, hq⟩

/-! ## Failing ticks -/

/-- Every live cursor stands in a row that has a cell. -/
theorem grounded_invariant :
    Invariant (fun _ => True) (fun f c => f.Grounded c.position) where
  field _ _ := trivial
  newborn _ hc hq := Playfield.advance?_grounded (hc.extent_pos _) hq
  others _ _ hd := turn_within.grounded hd
  self {m c} _ hc hret := by
    rcases turn_returns m c hc hret with ⟨_, hrest⟩ | ⟨e, hcontained⟩
    · exact hrest
    · rw [hcontained.position]
      exact turn_within.grounded hc

theorem turn_contained (hc : m.field.Grounded c.position) {e : Fault}
    (h : (m.turn c).result = .error (.fault e)) : m.Contained c (m.turn c) e := by
  rcases turn_returns m c hc (by rw [h]; trivial) with ⟨hok, _⟩ | ⟨e', hcontained⟩
  · rw [h] at hok
    cases hok
  · have hsame := hcontained.result
    rw [h] at hsame
    cases hsame
    exact hcontained

/-- Beside an empty first row it is the move that fails, after a blank. -/
theorem turn_initial_contained (hrow : m.field.rowLength 0 = 0) :
    m.Contained .initial (m.turn .initial) (.emptyRow .right .origin) := by
  have hread : m.field.read .origin = .blank := Playfield.read_of_empty_row hrow
  have hblank : m.Executes .initial .nop := by
    refine ⟨rfl, ?_⟩
    rw [show Cursor.initial.position = .origin from rfl, hread]
    decide
  have hseen : m.seen .initial = .initial := by
    rw [seen, show Cursor.initial.position = .origin from rfl, hread]
    rfl
  rw [turn_initial_of_empty hrow]
  refine contained_of_drop m .initial (k := 0) rfl ?_ (by omega) (by rw [hseen]; rfl) ?_ ?_
  · rw [printedBy_of_executes m .initial hblank]
    exact .refl m
  · intro p hp
    exact (Option.some.inj hp).symm
  · simp [Fault.cell?]

theorem turn_error_live {s : Stop} (h : (m.turn c).result = .error s) :
    c.mode ≠ .terminated := by
  intro hterm
  rw [turn_of_terminated m c hterm] at h
  cases h

/-- In every machine that a program reaches the turn with which a tick fails is contained. -/
theorem Reaches.turn_contained {field : Playfield} {settings : Settings} {console : Console}
    {fresh : UInt64} {m n : Machine} {c : Cursor} {rest : List Cursor} {e : Fault}
    (hm : (Machine.start field settings console fresh).Reaches m)
    (hbegins : TurnBegins m.opened m.cursors c n rest)
    (hfail : (n.turn c).result = .error (.fault e)) : n.Contained c (n.turn c) e := by
  rcases Nat.eq_zero_or_pos (field.rowLength 0) with hrow | hrow
  · have hunmoved := hm.unmoved hrow rfl
    rw [show m.cursors = [.initial] from hunmoved.cursors] at hbegins
    cases hbegins with
    | head =>
      have hcontained := turn_initial_contained m.opened (by
        rw [show m.opened.field = field from hunmoved.field]
        exact hrow)
      have hsame := hcontained.result
      rw [hfail] at hsame
      cases hsame
      exact hcontained
    | tail _ hrest => cases hrest
  · have hholds := grounded_invariant.reaches (m := Machine.start field settings console fresh)
      ⟨trivial, fun c hc => by
        rw [List.mem_singleton.mp hc]
        exact hrow⟩ hm
    have hopened : m.opened.Holds (fun _ => True) (fun f c => f.Grounded c.position) :=
      ⟨trivial, fun c hc => nomatch hc⟩
    exact Machine.turn_contained n c (grounded_invariant.begins hbegins hopened hholds.cursors).2
      hfail

/-- **Failures are contained.** When a tick of a program fails with a fault, the turn that fails
has left the playfield, the newborn, the random source, the transcript and the cursor with its
heading and mode as they were, has taken at most two values and has at most begun to print. The
cursor stays, and a fault with a place names its place and the cell there. -/
theorem failure_contained (field : Playfield) (settings : Settings) (console : Console)
    (fresh : UInt64) {m : Machine} (hm : (start field settings console fresh).Reaches m)
    {e : Fault} (hfail : m.tick.1 = .error (.fault e)) :
    ∃ c ∈ m.cursors, ∃ n rest, TurnBegins m.opened m.cursors c n rest ∧
      n.Contained c (n.turn c) e ∧
      (n.turn c).cursor ∈ m.tick.2.cursors ∧
      m.tick.2.field = n.field ∧ m.tick.2.random = n.random ∧
      m.tick.2.transcript = n.transcript ∧ m.tick.2.console = (n.turn c).machine.console ∧
      ∀ p, e.location? = some p → p = c.position ∧ p = (n.turn c).cursor.position ∧
        ∀ cell, e.cell? = some cell → m.tick.2.field.read p = cell := by
  obtain ⟨earlier, c, n, rest, hbegins, hturn, hturns⟩ := turns_error m.opened hfail
  have hcontained := hm.turn_contained hbegins hturn
  have htick : m.tick.2 =
      (n.turn c).machine.close (earlier ++ (n.turn c).cursor :: rest) := by
    rw [tick_machine, hturns]
  have hfield : m.tick.2.field = n.field := by
    rw [htick]
    exact hcontained.machine.field
  refine ⟨c, hbegins.mem, n, rest, hbegins, hcontained, ?_, hfield, ?_, ?_, ?_, ?_⟩
  · have hmode : (n.turn c).cursor.mode ≠ .terminated := by
      rw [hcontained.mode]
      exact turn_error_live n c hturn
    rw [htick, mem_close_cursors]
    exact ⟨Or.inr (by simp), by simp [Cursor.isTerminated, hmode]⟩
  · rw [htick]
    exact hcontained.machine.random
  · rw [htick]
    exact hcontained.machine.transcript
  · rw [htick]
    rfl
  · intro p hp
    obtain rfl := hcontained.location p hp
    refine ⟨rfl, hcontained.position.symm, fun cell hcell => ?_⟩
    rw [hfield]
    exact hcontained.cell cell hcell

/-- A cursor forks and goes on to divide by zero; its child has divided at the same place
before it, in the same tick. -/
def forkedDivision : Playfield := ⟨[[.char '1', .char 't', .char '0', .char '/']]⟩

theorem failure_contained_forkedDivision :
    ∃ m, (start forkedDivision {} {} 0).Reaches m ∧
      m.tick.1 = .error (.fault (.divisionByZero 1 ⟨3, 0⟩)) ∧ m.cursors.length = 2 ∧
      ∃ c ∈ m.cursors, c.position = ⟨3, 0⟩ ∧ ∃ n rest,
        TurnBegins m.opened m.cursors c n rest ∧
        n.Contained c (n.turn c) (.divisionByZero 1 ⟨3, 0⟩) := by
  have hreaches : (start forkedDivision {} {} 0).Reaches ((start forkedDivision {} {} 0).after 3) :=
    reaches_after _ (by decide +kernel)
  have hfail : ((start forkedDivision {} {} 0).after 3).tick.1 =
      .error (.fault (.divisionByZero 1 ⟨3, 0⟩)) := by
    rfl
  obtain ⟨c, hc, n, rest, hbegins, hcontained, _⟩ :=
    failure_contained forkedDivision {} {} 0 hreaches hfail
  refine ⟨_, hreaches, hfail, by decide +kernel, c, hc, ?_, n, rest, hbegins, hcontained⟩
  exact (hcontained.location _ rfl).symm

end Machine

end Funge
