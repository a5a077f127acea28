import Funge.Proofs.Footing
import Funge.Proofs.Invariant

/-!
Live cursors rest on stored cells. A cursor that does so has a cell to go to in every
direction; the playfield never loses a cell, so neither the puts of other cursors nor a
fork can take it away. A jump may land in a row too short for its column, but the move
after it goes the same way and finds a cell again before the turn is over.
-/

namespace Funge

theorem Machine.bounded_fieldAfter {f : Playfield} (hf : f.Bounded)
    (put : Option (Position × Int64)) : (fieldAfter f put).Bounded := by
  cases put with
  | none => exact hf
  | some pv =>
    obtain ⟨p, value⟩ := pv
    simp only [fieldAfter]
    cases hw : f.write? p (.ofValue value) with
    | none => exact hf
    | some g =>
      obtain ⟨hgrow, rfl⟩ := Playfield.write?_eq_some hw
      exact hf.write _ hgrow

theorem stored_footing : Footing Playfield.Bounded Playfield.Stored Playfield.Movable where
  put put hf := Machine.bounded_fieldAfter hf put
  within hwithin hp := hwithin _ hp
  ready hp d := hp.movable d
  jump hp d n := Playfield.jump_movable hp d n
  advance hf hc := Or.inr (Cursor.advance_of_movable hf hc)

namespace Cursor

variable {f : Playfield} {c : Cursor}

/-- An instruction that fails leaves the cursor where it is and does not lack room, unless
it looks for a marker without end. -/
theorem act_error (hf : f.Bounded) (hc : f.Stored c.position) {i : Instruction} {s : Stop}
    (h : (c.act f i).2 = .error s) :
    s = .endless ∨
      (c.act f i).1.position = c.position ∧ ∀ d p, s ≠ .fault (.emptyRow d p) := by
  cases i with
  | trampoline =>
    obtain ⟨q, _, hadv⟩ := advance_of_movable hf (hc.movable c.direction)
    rw [act, hadv] at h
    cases h
  | jumpOver =>
    rcases stored_footing.jumpOver hf (hc.movable c.direction) with hjump | ⟨q, _, hjump⟩
    · rw [act, hjump] at h
      exact Or.inl (Except.error.inj h).symm
    · rw [act, hjump] at h
      cases h
  | jumpForward =>
    rw [act, jumpForward_of_stored (c := c.drop 1) hc] at h
    cases h
  | divide | modulo =>
    refine Or.inr ⟨act_position rfl, ?_⟩
    rw [act] at h
    split at h
    · cases h
      simp
    · cases h
  | reserved r =>
    cases h
    exact Or.inr ⟨rfl, by simp⟩
  | _ => cases h

end Cursor

namespace Machine

/-- The playfield fits into memory and every cursor of the list rests on one of its cells. -/
structure Sound (m : Machine) : Prop where
  bounded : m.field.Bounded
  stored : ∀ c ∈ m.cursors, m.field.Stored c.position

variable {m : Machine} {c : Cursor}

theorem execute_stop (hm : m.field.Bounded) (hc : m.field.Stored c.position) {i : Instruction}
    {s : Stop} (h : (m.execute c i).result = .error s) :
    s = .endless ∨
      (m.execute c i).cursor.position = c.position ∧ ∀ d p, s ≠ .fault (.emptyRow d p) := by
  cases hact : (c.act m.field i).2 with
  | error s' =>
    rw [execute_error m c hact] at h ⊢
    cases h
    exact Cursor.act_error hm hc hact
  | ok e =>
    rw [execute_ok m c hact] at h ⊢
    have he : e ≠ .none := by
      rintro rfl
      cases h
    rw [perform_position, Cursor.act_position_of_request hact he]
    rcases perform_error m _ h with rfl | rfl | ⟨f, rfl, hf⟩
    · exact Or.inr ⟨rfl, by simp⟩
    · exact Or.inl rfl
    · refine Or.inr ⟨rfl, ?_⟩
      rintro d p hfault
      cases hfault
      cases hf

theorem met_stop (hm : m.field.Bounded) (hc : m.field.Stored c.position)
    (hlive : c.mode ≠ .terminated) {s : Stop} (h : (m.met c).result = .error s) :
    s = .endless ∨
      (m.met c).cursor.position = c.position ∧ ∀ d p, s ≠ .fault (.emptyRow d p) := by
  rcases met_cases m c hlive with ⟨i, _, hmet⟩ | ⟨_, hmet | hmet | hmet⟩
  · rw [hmet] at h ⊢
    exact execute_stop (c := m.seen c) hm hc h
  · rw [hmet] at h
    cases h
  · rw [hmet] at h
    cases h
  · rw [hmet] at h ⊢
    cases h
    exact Or.inr ⟨rfl, by simp⟩

/-- A turn never lacks room. If it returns, the cursor rests on a stored cell again. -/
theorem turn_rests (hm : m.field.Bounded) (hc : m.field.Stored c.position) :
    (Returns (m.turn c).result → (m.turn c).machine.field.Stored (m.turn c).cursor.position) ∧
      ∀ d p, (m.turn c).result ≠ .error (.fault (.emptyRow d p)) := by
  by_cases hterm : c.mode = .terminated
  · rw [turn_of_terminated m c hterm]
    exact ⟨fun _ => hc, by simp⟩
  · have hgrown : (m.met c).machine.field.Stored c.position := by
      rw [← turn_machine m c hterm]
      exact turn_within _ hc
    rw [turn_of_live m c hterm]
    cases hmet : (m.met c).result with
    | error s =>
      rcases met_stop hm hc hterm hmet with rfl | ⟨hpos, hroom⟩
      · simp only [hmet]
        exact ⟨fun h => h.elim, by simp⟩
      · simp only [hmet, hpos]
        exact ⟨fun _ => hgrown, fun d p h => hroom d p (Except.error.inj h)⟩
    | ok u =>
      rcases stored_footing.turn_stride hm hc hterm hmet with h | ⟨q, hq, h⟩
      · simp only [h]
        exact ⟨fun h => h.elim, by simp⟩
      · simp only [h]
        exact ⟨fun _ => hq, by simp [hmet]⟩

theorem Sound.holds (hm : m.Sound) :
    m.Holds Playfield.Bounded (fun f c => f.Stored c.position) := ⟨hm.bounded, hm.stored⟩

theorem Holds.sound (hm : m.Holds Playfield.Bounded (fun f c => f.Stored c.position)) :
    m.Sound := ⟨hm.field, hm.cursors⟩

/-- A child starts one step from a stored cell, hence on a stored cell. -/
theorem stored_invariant : Invariant Playfield.Bounded (fun f c => f.Stored c.position) where
  field hf _ := stored_footing.turn_field hf
  newborn {m c q} hf hc hq := by
    obtain ⟨p, hp, hstored⟩ := Playfield.advance?_of_movable hf (hc.movable c.direction.opposite)
    rw [hp] at hq
    rw [← Option.some.inj hq]
    exact hstored
  others _ _ hd := turn_within _ hd
  self hf hc hret := (turn_rests hf hc).1 hret

/-- What the turns of a list of cursors keep, from one turn to the next. -/
theorem turns_rest (hm : m.Sound) {cs : List Cursor} (hcs : ∀ c ∈ cs, m.field.Stored c.position) :
    (m.turns cs).2.2.Sound ∧ m.field.Within (m.turns cs).2.2.field ∧
      (Returns (m.turns cs).1 →
        ∀ c ∈ (m.turns cs).2.1, (m.turns cs).2.2.field.Stored c.position) ∧
      ∀ d p, (m.turns cs).1 ≠ .error (.fault (.emptyRow d p)) := by
  obtain ⟨hlast, hkept, hafter⟩ := stored_invariant.turns hm.holds hcs
  refine ⟨hlast.sound, fun p hp => hkept { position := p, direction := .right } hp, hafter, ?_⟩
  intro d p hfail
  obtain ⟨_, c, n, rest, hbegins, hturn, _⟩ := turns_error m hfail
  obtain ⟨hn, hc⟩ := stored_invariant.begins hbegins hm.holds hcs
  exact (turn_rests hn.field hc).2 d p hturn

theorem Sound.opened (hm : m.Sound) : m.opened.Sound :=
  ⟨hm.bounded, fun c hc => by simp [Machine.opened] at hc⟩

theorem Reaches.sound {n : Machine} (h : m.Reaches n) (hm : m.Sound) : n.Sound :=
  (stored_invariant.reaches hm.holds h).sound

theorem start_sound {field : Playfield} (hfield : field.Bounded) (hrow : 0 < field.rowLength 0)
    (settings : Settings) (console : Console) (fresh : UInt64) :
    (start field settings console fresh).Sound := by
  refine ⟨hfield, fun c hc => ?_⟩
  rw [List.mem_singleton.mp hc]
  exact hrow

/-- When the turn of a cursor begins, the turns before it have left its cell in place. -/
theorem TurnBegins.sound {n : Machine} {cs rest : List Cursor} (h : TurnBegins m cs c n rest)
    (hm : m.Sound) (hcs : ∀ d ∈ cs, m.field.Stored d.position) :
    n.Sound ∧ n.field.Stored c.position := by
  obtain ⟨hn, hc⟩ := stored_invariant.begins h hm.holds hcs
  exact ⟨hn.sound, hc⟩

/-- No search for a row that a turn of `c` can make goes on without end: on the way that `#` and
`;` take it, on the way to the place of a child, and on the way from where its instruction has
left it, over any number of markers. -/
structure SearchesEnd (m : Machine) (c : Cursor) : Prop where
  ahead : ∀ k, ∃ d, c.walk m.field k = .ok d
  behind : ∃ q, m.field.advance? c.position c.direction.opposite = some q
  onward : c.mode ≠ .terminated → (m.met c).result = .ok () →
    ∀ k, ∃ d, (m.met c).cursor.walk (m.met c).machine.field k = .ok d

theorem searchesEnd (hm : m.Sound) (hc : m.field.Stored c.position) : m.SearchesEnd c where
  ahead k := by
    obtain ⟨q, hq⟩ := Cursor.walk_of_movable hm.bounded k (hc.movable c.direction)
    exact ⟨_, hq⟩
  behind := by
    obtain ⟨q, hq, _⟩ :=
      Playfield.advance?_of_movable hm.bounded (hc.movable c.direction.opposite)
    exact ⟨q, hq⟩
  onward hlive hok k := by
    have hbounded : (m.met c).machine.field.Bounded := by
      rw [← turn_machine m c hlive]
      exact stored_footing.turn_field hm.bounded
    obtain ⟨q, hq⟩ := Cursor.walk_of_movable hbounded k (stored_footing.met hm.bounded hc hlive hok)
    exact ⟨_, hq⟩

/-- The same playfield, cursors, console, transcript and random source. -/
structure Unmoved (m n : Machine) : Prop where
  field : n.field = m.field
  cursors : n.cursors = m.cursors
  console : n.console = m.console
  transcript : n.transcript = m.transcript
  random : n.random = m.random

theorem Unmoved.trans {l m n : Machine} (h : l.Unmoved m) (h' : m.Unmoved n) : l.Unmoved n :=
  ⟨h'.field.trans h.field, h'.cursors.trans h.cursors, h'.console.trans h.console,
    h'.transcript.trans h.transcript, h'.random.trans h.random⟩

/-- The first cursor reads a blank beside the empty row and cannot move on. -/
theorem turn_initial_of_empty (hrow : m.field.rowLength 0 = 0) :
    m.turn .initial = ⟨m, .initial, .error (.fault (.emptyRow .right .origin))⟩ := by
  have hread : m.field.read .origin = .blank := Playfield.read_of_empty_row hrow
  have hseen : m.seen .initial = .initial := by
    rw [seen, show Cursor.initial.position = .origin from rfl, hread]
    rfl
  have hmet : m.met .initial = ⟨m, .initial, .ok ()⟩ := by
    rw [met, hseen, show Cursor.initial.position = .origin from rfl, hread]
    rfl
  have hstride : Cursor.initial.stride m.field =
      .error (.fault (.emptyRow .right .origin)) := by
    rw [Cursor.stride, Cursor.advance, Cursor.requireRoom,
      show Cursor.initial.position = .origin from rfl,
      show Cursor.initial.direction = .right from rfl,
      if_pos (show m.field.extent .origin .right = 0 from hrow)]
  rw [turn_of_live m .initial (by decide), hmet]
  simp only [hstride]

theorem tick_of_empty (hrow : m.field.rowLength 0 = 0) (hcursors : m.cursors = [.initial]) :
    m.tick.1 = .error (.fault (.emptyRow .right .origin)) ∧ m.Unmoved m.tick.2 := by
  have hturn := turn_initial_of_empty (m := m.opened) hrow
  have hturns : m.opened.turns m.cursors =
      (.error (.fault (.emptyRow .right .origin)), [.initial], m.opened) := by
    rw [hcursors, turns_cons_error m.opened (by rw [hturn]), hturn]
  refine ⟨by rw [tick_result, hturns], ?_⟩
  rw [tick_machine, hturns]
  exact ⟨rfl, hcursors.symm, rfl, rfl, rfl⟩

theorem Reaches.unmoved {n : Machine} (h : m.Reaches n) (hrow : m.field.rowLength 0 = 0)
    (hcursors : m.cursors = [.initial]) : m.Unmoved n := by
  induction h with
  | start => exact ⟨rfl, rfl, rfl, rfl, rfl⟩
  | tick _ _ ih =>
    rw [← ih.field] at hrow
    rw [← ih.cursors] at hcursors
    exact ih.trans (tick_of_empty hrow hcursors).2

/-- **Live cursors rest on stored cells.** If the first row has a cell, then in every machine
that a program reaches each cursor stands on a stored cell, no tick lacks room for a move, and
every search for a row in any turn of a tick comes to an end. If it has none, every tick fails
at once and changes nothing. -/
theorem rest_on_stored_cells (field : Playfield) (hfield : field.Bounded) (settings : Settings)
    (console : Console) (fresh : UInt64) {m : Machine}
    (hm : (start field settings console fresh).Reaches m) :
    (0 < field.rowLength 0 →
      (∀ c ∈ m.cursors, m.field.Stored c.position) ∧
      (∀ d p, m.tick.1 ≠ .error (.fault (.emptyRow d p))) ∧
      ∀ c n rest, TurnBegins m.opened m.cursors c n rest → n.SearchesEnd c) ∧
    (field.rowLength 0 = 0 →
      (start field settings console fresh).Unmoved m ∧ m.cursors = [.initial] ∧
      m.tick.1 = .error (.fault (.emptyRow .right .origin)) ∧ m.Unmoved m.tick.2) := by
  constructor
  · intro hrow
    have hsound := hm.sound (start_sound hfield hrow settings console fresh)
    refine ⟨hsound.stored, (turns_rest hsound.opened hsound.stored).2.2.2, ?_⟩
    intro c n rest hbegins
    obtain ⟨hn, hc⟩ := hbegins.sound hsound.opened hsound.stored
    exact searchesEnd hn hc
  · intro hrow
    have hunmoved := hm.unmoved hrow rfl
    have hcursors : m.cursors = [.initial] := hunmoved.cursors
    have hrow' : m.field.rowLength 0 = 0 := by
      rw [hunmoved.field]
      exact hrow
    exact ⟨hunmoved, hcursors, tick_of_empty hrow' hcursors⟩

/-- A first row of two cells over a row too short for the second column, and a jump down the
column that lands there. -/
def staircase : Playfield :=
  ⟨[[.char '1', .char 'v'], [.char '@'], [.char ' ', .char 'j'], [], [.char ' ', .char '^']]⟩

/-- The jump at column 1 of `staircase` lands in the empty row, and the cursor rests one row
further down. -/
theorem rest_on_stored_cells_staircase :
    staircase.Bounded ∧ 0 < staircase.rowLength 0 ∧
      ((start staircase {} {} 0).after 3).cursors.map Cursor.position = [⟨1, 4⟩] ∧
      ∀ c ∈ ((start staircase {} {} 0).after 3).cursors,
        ((start staircase {} {} 0).after 3).field.Stored c.position := by
  have hbounded : staircase.Bounded := by decide
  have hreaches : (start staircase {} {} 0).Reaches ((start staircase {} {} 0).after 3) :=
    reaches_after _ (by decide +kernel)
  refine ⟨hbounded, by decide, by decide +kernel, ?_⟩
  exact ((rest_on_stored_cells staircase hbounded {} {} 0 hreaches).1 (by decide)).1

end Machine

end Funge
