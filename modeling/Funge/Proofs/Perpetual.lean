import Funge.Machine.Run
import Funge.Proofs.Instruction
import Funge.Proofs.Tick

/-!
Programs that never finish. Only the instruction to halt ends a cursor, and only a put changes the
playfield. A program without the signs of these two keeps its playfield, and all its cursors live
on, whatever fails and whoever is born; so a run of it fails or goes on, but never comes to its end.
-/

namespace Funge

namespace Cursor

variable {f : Playfield} {c d : Cursor}

/-! ## Moves -/

/-- The same cursor but for its place. -/
def SameButPlace (c d : Cursor) : Prop := ∃ p, d = { c with position := p }

theorem SameButPlace.refl (c : Cursor) : c.SameButPlace c := ⟨c.position, rfl⟩

theorem SameButPlace.trans {b : Cursor} (h : c.SameButPlace d) (h' : d.SameButPlace b) :
    c.SameButPlace b := by
  obtain ⟨p, rfl⟩ := h
  obtain ⟨q, rfl⟩ := h'
  exact ⟨q, rfl⟩

theorem SameButPlace.mode (h : c.SameButPlace d) : d.mode = c.mode := by
  obtain ⟨p, rfl⟩ := h
  rfl

theorem sameButPlace_advance (h : c.advance f = .ok d) : c.SameButPlace d := by
  unfold advance at h
  split at h
  · cases h
  · split at h
    · next p _ =>
      cases h
      exact ⟨p, rfl⟩
    · cases h

theorem sameButPlace_scan {fuel : Nat} (h : c.scan f fuel = .ok d) : c.SameButPlace d := by
  induction fuel generalizing c with
  | zero => cases h
  | succ fuel ih =>
    rw [scan] at h
    split at h
    · cases h
    · next b hstep =>
      have hb := sameButPlace_advance hstep
      split at h
      · cases h
        exact hb
      · exact hb.trans (ih h)

theorem sameButPlace_passMarkers {fuel : Nat} (h : c.passMarkers f fuel = .ok d) :
    c.SameButPlace d := by
  induction fuel generalizing c with
  | zero => cases h
  | succ fuel ih =>
    rw [passMarkers] at h
    split at h
    · split at h
      · cases h
      · next b hjump =>
        split at h
        · cases h
        · next a hstep =>
          exact ((sameButPlace_scan hjump).trans (sameButPlace_advance hstep)).trans (ih h)
    · exact Except.ok.inj h ▸ .refl c

theorem sameButPlace_stride (h : c.stride f = .ok d) : c.SameButPlace d := by
  rw [stride] at h
  split at h
  · cases h
  · next b hstep => exact (sameButPlace_advance hstep).trans (sameButPlace_passMarkers h)

theorem sameButPlace_jumpForward {n : Int64} (h : c.jumpForward f n = .ok d) :
    c.SameButPlace d := by
  unfold jumpForward at h
  split at h
  · cases h
  · cases h
    exact ⟨_, rfl⟩

/-! ## Instructions -/

theorem toggleLiteral_live (hc : c.mode ≠ .terminated) : c.toggleLiteral.mode ≠ .terminated := by
  unfold toggleLiteral
  split
  · simp
  · simp
  · exact hc

/-- Only the instruction to halt ends a cursor. -/
theorem act_live {i : Instruction} (hi : i ≠ .halt) (hc : c.mode ≠ .terminated) :
    (c.act f i).1.mode ≠ .terminated := by
  have hmoved : ∀ (b : Cursor) (r : Except Stop Cursor), b.mode ≠ .terminated →
      (∀ d, r = .ok d → b.SameButPlace d) → (b.moved r).1.mode ≠ .terminated := by
    intro b r hb hr
    cases r with
    | error s => exact hb
    | ok d =>
      rw [moved, (hr d rfl).mode]
      exact hb
  cases i with
  | halt => exact absurd rfl hi
  | trampoline => exact hmoved _ _ hc fun d => sameButPlace_advance
  | jumpOver => exact hmoved _ _ hc fun d => sameButPlace_scan
  | jumpForward => exact hmoved _ _ hc fun d => sameButPlace_jumpForward
  | toggleLiteral => exact toggleLiteral_live hc
  | divide | modulo =>
    rw [act]
    split <;> exact hc
  | _ => exact hc

end Cursor

namespace Playfield

/-- No cell is the sign of the instruction. -/
def Lacks (f : Playfield) (i : Instruction) : Prop := ∀ r ∈ f.rows, .char i.sign ∉ r

instance (f : Playfield) (i : Instruction) : Decidable (f.Lacks i) :=
  inferInstanceAs (Decidable (∀ r ∈ f.rows, .char i.sign ∉ r))

/-- What is read is a stored cell or a blank. -/
theorem read_mem_or_blank (f : Playfield) (p : Position) :
    (∃ r ∈ f.rows, f.read p ∈ r) ∨ f.read p = .blank := by
  unfold read row
  rw [List.getD_eq_getElem?_getD, List.getD_eq_getElem?_getD]
  cases hrow : f.rows[p.y]? with
  | none => exact Or.inr rfl
  | some r =>
    rw [Option.getD_some]
    cases hcell : r[p.x]? with
    | none => exact Or.inr rfl
    | some cell => exact Or.inl ⟨r, List.mem_of_getElem? hrow, List.mem_of_getElem? hcell⟩

end Playfield

namespace Machine

variable {m : Machine} {c : Cursor}

theorem not_executes_of_lacks {i : Instruction} (h : m.field.Lacks i) (hblank : i ≠ .nop) :
    ¬ m.Executes c i := by
  intro hi
  have hcell := Instruction.eq_char_of_ofCell? hi.2
  rcases m.field.read_mem_or_blank c.position with ⟨r, hr, hmem⟩ | hread
  · rw [hcell] at hmem
    exact h r hr hmem
  · have hnop : Instruction.ofCell? .blank = some i := hread ▸ hi.2
    exact hblank (Option.some.inj hnop).symm

/-! ## One turn -/

theorem perform_mode (m : Machine) (c : Cursor) (l : Position) (e : Effect) :
    (m.perform c l e).cursor.mode = c.mode := by
  cases e with
  | readInteger | readCharacter =>
    simp only [perform, received]
    split <;> rfl
  | _ => rfl

theorem met_live (hhalt : m.field.Lacks .halt) (hc : c.mode ≠ .terminated) :
    (m.met c).cursor.mode ≠ .terminated := by
  rcases met_cases m c hc with ⟨i, hi, hmet⟩ | ⟨_, hmet | hmet | hmet⟩
  · have hne : i ≠ .halt := by
      rintro rfl
      exact not_executes_of_lacks hhalt (by simp) hi
    have hact := Cursor.act_live (f := m.field) hne (c := m.seen c) hc
    rw [hmet]
    cases hresult : ((m.seen c).act m.field i).2 with
    | ok e =>
      rw [execute_ok m _ hresult, perform_mode]
      exact hact
    | error s =>
      rw [execute_error m _ hresult]
      exact hact
  · rw [hmet]
    exact Cursor.toggleLiteral_live hc
  · rw [hmet]
    exact hc
  · rw [hmet]
    exact hc

/-- The cursor lives on after its turn, also after one that fails. -/
theorem turn_live (hhalt : m.field.Lacks .halt) (hc : c.mode ≠ .terminated) :
    (m.turn c).cursor.mode ≠ .terminated := by
  have hmet := met_live hhalt hc
  rw [turn_of_live m c hc]
  split
  · exact hmet
  · split
    · next d hstride =>
      rw [(Cursor.sameButPlace_stride hstride).mode]
      exact hmet
    · exact hmet

theorem turn_field_of_lacks (hput : m.field.Lacks .put) : (m.turn c).machine.field = m.field := by
  rw [turn_field, putBy, if_neg (not_executes_of_lacks hput (by simp))]
  rfl

/-! ## Ticks and runs -/

/-- Turn after turn: nobody is lost, and all who have had their turn, who wait for it or who have
been born live. -/
theorem turns_live {cs : List Cursor} (hhalt : m.field.Lacks .halt) (hput : m.field.Lacks .put)
    (hcs : ∀ c ∈ cs, c.mode ≠ .terminated) (hborn : ∀ c ∈ m.cursors, c.mode ≠ .terminated) :
    (m.turns cs).2.2.field = m.field ∧ (m.turns cs).2.1.length = cs.length ∧
      (∀ c ∈ (m.turns cs).2.1, c.mode ≠ .terminated) ∧
      ∀ c ∈ (m.turns cs).2.2.cursors, c.mode ≠ .terminated := by
  induction cs generalizing m with
  | nil => exact ⟨rfl, rfl, hcs, hborn⟩
  | cons c cs ih =>
    rw [List.forall_mem_cons] at hcs
    have hc := turn_live hhalt hcs.1
    have hfield := turn_field_of_lacks (c := c) hput
    have hborn' : ∀ d ∈ (m.turn c).machine.cursors, d.mode ≠ .terminated := by
      rcases turn_cursors m c with hsame | ⟨_, q, _, hchild⟩
      · rw [hsame]
        exact hborn
      · rw [hchild, List.forall_mem_cons]
        exact ⟨by simp [child], hborn⟩
    cases hres : (m.turn c).result with
    | error s =>
      rw [turns_cons_error m hres]
      exact ⟨hfield, rfl, List.forall_mem_cons.mpr ⟨hc, hcs.2⟩, hborn'⟩
    | ok u =>
      rw [turns_cons_ok m hres]
      rw [← hfield] at hhalt hput
      obtain ⟨hfield', hlength, hafter, hlast⟩ := ih hhalt hput hcs.2 hborn'
      exact ⟨hfield'.trans hfield, congrArg (· + 1) hlength,
        List.forall_mem_cons.mpr ⟨hc, hafter⟩, hlast⟩

/-- If no turn ends a cursor, the end of a tick removes none. -/
theorem close_of_live {after : List Cursor} (hm : ∀ c ∈ m.cursors, c.mode ≠ .terminated)
    (hafter : ∀ c ∈ after, c.mode ≠ .terminated) :
    (m.close after).cursors = m.cursors ++ after := by
  rw [close, List.filter_eq_self]
  intro c hc
  have hlive : c.mode ≠ .terminated := by
    rcases List.mem_append.mp hc with hc | hc
    · exact hm c hc
    · exact hafter c hc
  simp [Cursor.isTerminated, hlive]

/-- The machine runs the program `f`, with at least one cursor, and all its cursors live. -/
structure Perpetual (f : Playfield) (m : Machine) : Prop where
  field : m.field = f
  nonempty : m.cursors ≠ []
  live : ∀ c ∈ m.cursors, c.mode ≠ .terminated

namespace Perpetual

variable {f : Playfield}

theorem turns (h : m.Perpetual f) (hhalt : f.Lacks .halt) (hput : f.Lacks .put) :
    (m.opened.turns m.cursors).2.2.field = f ∧
      (m.opened.turns m.cursors).2.1.length = m.cursors.length ∧
      (∀ c ∈ (m.opened.turns m.cursors).2.1, c.mode ≠ .terminated) ∧
      ∀ c ∈ (m.opened.turns m.cursors).2.2.cursors, c.mode ≠ .terminated := by
  obtain ⟨rfl, _, hlive⟩ := h
  refine turns_live (m := m.opened) hhalt hput hlive ?_
  intro c hc
  cases hc

theorem tick_cursors (h : m.Perpetual f) (hhalt : f.Lacks .halt) (hput : f.Lacks .put) :
    m.tick.2.cursors =
      (m.opened.turns m.cursors).2.2.cursors ++ (m.opened.turns m.cursors).2.1 := by
  obtain ⟨_, _, hafter, hborn⟩ := h.turns hhalt hput
  rw [tick_machine, close_of_live hborn hafter]

theorem length_le_tick (h : m.Perpetual f) (hhalt : f.Lacks .halt) (hput : f.Lacks .put) :
    m.cursors.length ≤ m.tick.2.cursors.length := by
  obtain ⟨_, hlength, _⟩ := h.turns hhalt hput
  rw [h.tick_cursors hhalt hput, List.length_append]
  omega

theorem tick (h : m.Perpetual f) (hhalt : f.Lacks .halt) (hput : f.Lacks .put) :
    m.tick.2.Perpetual f := by
  obtain ⟨hfield, _, hafter, hborn⟩ := h.turns hhalt hput
  refine ⟨hfield, ?_, ?_⟩
  · have hlength := h.length_le_tick hhalt hput
    have hpos := List.length_pos_iff.mpr h.nonempty
    exact List.ne_nil_of_length_pos (by omega)
  · rw [h.tick_cursors hhalt hput]
    exact List.forall_mem_append.mpr ⟨hborn, hafter⟩

theorem after (h : m.Perpetual f) (hhalt : f.Lacks .halt) (hput : f.Lacks .put) (n : Nat) :
    (m.after n).Perpetual f := by
  induction n with
  | zero => exact h
  | succ n ih => exact ih.tick hhalt hput

theorem isFinished (h : m.Perpetual f) : m.isFinished = false := by
  rw [Machine.isFinished, List.isEmpty_eq_false_iff]
  exact h.nonempty

/-- A frame changes the console only. -/
theorem showFrame (h : m.Perpetual f) : m.showFrame.2.Perpetual f := by
  unfold Machine.showFrame
  split
  · exact ⟨by rw [write_field, h.field], by rw [write_cursors]; exact h.nonempty,
      by rw [write_cursors]; exact h.live⟩
  · exact h

theorem rounds_ne_ok (h : m.Perpetual f) (hhalt : f.Lacks .halt) (hput : f.Lacks .put)
    (fuel : Nat) (m' : Machine) : m.rounds fuel ≠ some (.ok (), m') := by
  induction fuel generalizing m with
  | zero => simp [rounds, h.isFinished]
  | succ fuel ih =>
    have hframe := h.showFrame
    rw [rounds, h.isFinished, round]
    rcases hshow : m.showFrame with ⟨_ | _, n⟩
    · simp
    · rw [hshow] at hframe
      have htick := hframe.tick hhalt hput
      simp only [Bool.false_eq_true, ↓reduceIte]
      rcases hn : n.tick with ⟨_ | _, n'⟩
      · simp
      · rw [hn] at htick
        exact ih htick

theorem run_ne_ok (h : m.Perpetual f) (hhalt : f.Lacks .halt) (hput : f.Lacks .put)
    (fuel : Nat) (m' : Machine) : m.run fuel ≠ some (.ok (), m') := by
  have hannounce : m.announce.Perpetual f := ⟨h.field, h.nonempty, h.live⟩
  have hrounds := hannounce.rounds_ne_ok hhalt hput fuel
  rw [run]
  rcases hresult : m.announce.rounds fuel with _ | ⟨_ | _, n⟩
  · simp
  · simp
  · exact absurd hresult (hrounds n)

end Perpetual

theorem start_perpetual (f : Playfield) (settings : Settings) (console : Console)
    (fresh : UInt64) : (start f settings console fresh).Perpetual f :=
  ⟨rfl, by simp [start], by simp [start, Cursor.initial]⟩

/-- **Only `@` ends a program, and only `p` rewrites it.** A program with neither of the two,
started with any settings, any input and any seed, has the same playfield after any number of ticks,
failed ones among them. It then has cursors, no more than a tick later, and none of them is
terminated, nor does any turn of the next tick leave a cursor so. And its run never succeeds. -/
theorem never_finishes (f : Playfield)
    (hf : ∀ r ∈ f.rows, Cell.char '@' ∉ r ∧ Cell.char 'p' ∉ r) (settings : Settings)
    (console : Console) (fresh : UInt64) :
    (∀ n m, m = (start f settings console fresh).after n →
      m.field = f ∧ m.cursors ≠ [] ∧ m.cursors.length ≤ m.tick.2.cursors.length ∧
      (∀ c ∈ m.cursors, c.mode ≠ .terminated) ∧
      ∀ c ∈ (m.opened.turns m.cursors).2.1, c.mode ≠ .terminated) ∧
    ∀ fuel m', (start f settings console fresh).run fuel ≠ some (.ok (), m') := by
  have hhalt : f.Lacks .halt := fun r hr => (hf r hr).1
  have hput : f.Lacks .put := fun r hr => (hf r hr).2
  have hstart := start_perpetual f settings console fresh
  refine ⟨?_, hstart.run_ne_ok hhalt hput⟩
  rintro n _ rfl
  have hn := hstart.after hhalt hput n
  exact ⟨hn.field, hn.nonempty, hn.length_le_tick hhalt hput, hn.live, (hn.turns hhalt hput).2.2.1⟩

/-- Two cursors walk away from a fork, and one of them divides by zero again and again. -/
def forkAndDivision : Playfield := ⟨[[.char 't', .char '0', .char '/', .char '"']]⟩

/-- After nine ticks, of which some have failed, there are more cursors than at the start. -/
theorem never_finishes_forkAndDivision :
    (∃ s, ((start forkAndDivision {} {} 0).after 2).tick.1 = .error s) ∧
    ((start forkAndDivision {} {} 0).after 9).field = forkAndDivision ∧
    1 < ((start forkAndDivision {} {} 0).after 9).cursors.length ∧
    ∀ fuel m', (start forkAndDivision {} {} 0).run fuel ≠ some (.ok (), m') := by
  have h := never_finishes forkAndDivision (by decide) {} {} 0
  exact ⟨⟨.fault (.divisionByZero 0 ⟨2, 0⟩), rfl⟩, (h.1 9 _ rfl).1, by decide +kernel, h.2⟩

end Machine

end Funge
