import Mathlib.Algebra.Group.Nat.Even
import Funge.Proofs.Circuit
import Funge.Proofs.Instruction
import Funge.Proofs.Marker
import Funge.Proofs.StoredCell

/-!
How far a turn moves. The loops that pass over marked stretches have no bound of their own; here
their single steps are counted. Whether a cursor is inside a stretch depends on the number of
markers met so far, so a walk that begins off the markers is outside again after two rounds of its
circuit at the latest: with an odd number of markers the first round ends inside, and in the second
the opening and the closing markers have changed places.
-/

namespace Funge

namespace Cursor

/-- A search for a marker finds one at `d` after `n` single steps. -/
inductive ScansTo (f : Playfield) : Cursor → Nat → Cursor → Prop
  | found {c d : Cursor} : c.advance f = .ok d → d.atMarker f = true → ScansTo f c 1 d
  | further {c d e : Cursor} {n : Nat} : c.advance f = .ok d → d.atMarker f = false →
      ScansTo f d n e → ScansTo f c (n + 1) e

/-- Marked stretches are passed over in `n` single steps, to `d` off the markers. -/
inductive PassesTo (f : Playfield) : Cursor → Nat → Cursor → Prop
  | clear {c : Cursor} : c.atMarker f = false → PassesTo f c 0 c
  | across {c d e g : Cursor} {i j : Nat} : c.atMarker f = true → ScansTo f c i d →
      d.advance f = .ok e → PassesTo f e j g → PassesTo f c (i + 1 + j) g

/-- The move that ends a turn takes `n` single steps and leads to `d`. -/
inductive StridesTo (f : Playfield) : Cursor → Nat → Cursor → Prop
  | intro {c d e : Cursor} {n : Nat} : c.advance f = .ok d → PassesTo f d n e →
      StridesTo f c (n + 1) e

variable {f : Playfield} {c d e : Cursor} {n k : Nat}

theorem ScansTo.unique (h : ScansTo f c n d) (h' : ScansTo f c k e) : n = k ∧ d = e := by
  induction h generalizing k with
  | found hstep hmark =>
    cases h' with
    | found hstep' _ => exact ⟨rfl, Except.ok.inj (hstep.symm.trans hstep')⟩
    | further hstep' hmark' _ =>
      obtain rfl := Except.ok.inj (hstep.symm.trans hstep')
      rw [hmark] at hmark'
      cases hmark'
  | further hstep hmark _ ih =>
    cases h' with
    | found hstep' hmark' =>
      obtain rfl := Except.ok.inj (hstep.symm.trans hstep')
      rw [hmark] at hmark'
      cases hmark'
    | further hstep' _ hrest' =>
      obtain rfl := Except.ok.inj (hstep.symm.trans hstep')
      obtain ⟨rfl, rfl⟩ := ih hrest'
      exact ⟨rfl, rfl⟩

theorem PassesTo.unique (h : PassesTo f c n d) (h' : PassesTo f c k e) : n = k ∧ d = e := by
  induction h generalizing k with
  | clear hmark =>
    cases h' with
    | clear _ => exact ⟨rfl, rfl⟩
    | across hmark' _ _ _ =>
      rw [hmark] at hmark'
      cases hmark'
  | across hmark hscan hstep _ ih =>
    cases h' with
    | clear hmark' =>
      rw [hmark] at hmark'
      cases hmark'
    | across _ hscan' hstep' hrest' =>
      obtain ⟨rfl, rfl⟩ := hscan.unique hscan'
      obtain rfl := Except.ok.inj (hstep.symm.trans hstep')
      obtain ⟨rfl, rfl⟩ := ih hrest'
      exact ⟨rfl, rfl⟩

theorem StridesTo.unique (h : StridesTo f c n d) (h' : StridesTo f c k e) : n = k ∧ d = e := by
  obtain ⟨hstep, hpass⟩ := h
  obtain ⟨hstep', hpass'⟩ := h'
  obtain rfl := Except.ok.inj (hstep.symm.trans hstep')
  obtain ⟨rfl, rfl⟩ := hpass.unique hpass'
  exact ⟨rfl, rfl⟩

/-- The cursor `k` steps further. -/
def onward (f : Playfield) (c : Cursor) (k : Nat) : Cursor :=
  { c with position := (f.ahead c.direction)^[k] c.position }

theorem onward_add (j k : Nat) : (c.onward f j).onward f k = c.onward f (j + k) := by
  rw [onward, onward, onward, Nat.add_comm, Function.iterate_add_apply]

theorem stored_onward (hf : f.Bounded) (hc : f.Stored c.position) (k : Nat) :
    f.Stored (c.onward f k).position := hc.ahead_iterate hf c.direction k

theorem advance_of_stored (hf : f.Bounded) (hc : f.Stored c.position) :
    c.advance f = .ok (c.onward f 1) := by
  rw [advance, requireRoom_of_movable (hc.movable c.direction)]
  simp only [(hc.ahead hf c.direction).1]
  rfl

theorem advance_onward (hf : f.Bounded) (hc : f.Stored c.position) (k : Nat) :
    (c.onward f k).advance f = .ok (c.onward f (k + 1)) := by
  rw [advance_of_stored hf (stored_onward hf hc k), onward_add]

/-- After one round of its circuit a cursor is back. -/
theorem onward_circuit (hf : f.Bounded) (hc : f.Stored c.position) (k : Nat) :
    c.onward f (f.circuit c.position c.direction + k) = c.onward f k := by
  have hround : c.onward f (f.circuit c.position c.direction) = c := by
    rw [onward, Playfield.ahead_iterate_circuit hf hc]
  rw [← onward_add, hround]

/-! ## The loops as walks -/

/-- The number of markers met before step `k`. -/
def markersBefore (f : Playfield) (c : Cursor) (k : Nat) : Nat :=
  Nat.count (fun i => (c.onward f i).atMarker f = true) k

/-- At step `k` the walk is off the markers and outside of any marked stretch. -/
def OutsideAt (f : Playfield) (c : Cursor) (k : Nat) : Prop :=
  (c.onward f k).atMarker f = false ∧ Even (c.markersBefore f k)

/-- A marker changes the side of the walk. -/
theorem even_markersBefore_succ {k : Nat} (h : (c.onward f k).atMarker f = true) :
    Even (c.markersBefore f (k + 1)) ↔ ¬ Even (c.markersBefore f k) := by
  rw [markersBefore, Nat.count_succ, if_pos h, Nat.even_add_one]
  rfl

theorem markersBefore_succ_of_free {k : Nat} (h : (c.onward f k).atMarker f = false) :
    c.markersBefore f (k + 1) = c.markersBefore f k := by
  rw [markersBefore, Nat.count_succ, if_neg (by simp [h])]
  rfl

theorem markersBefore_add (f : Playfield) (c : Cursor) (j k : Nat) :
    c.markersBefore f (j + k) = c.markersBefore f j + (c.onward f j).markersBefore f k := by
  rw [markersBefore, Nat.count_add]
  simp only [markersBefore, onward_add]

theorem markersBefore_circuit_add (hf : f.Bounded) (hc : f.Stored c.position) (k : Nat) :
    c.markersBefore f (f.circuit c.position c.direction + k) =
      c.markersBefore f (f.circuit c.position c.direction) + c.markersBefore f k := by
  have hround : c.onward f (f.circuit c.position c.direction) = c := onward_circuit hf hc 0
  rw [markersBefore_add, hround]

/-- A walk that comes to step `k` between the stretches goes on to the first step outside; one
that is inside a stretch at step `k` searches for its end before that. -/
theorem passesTo_outside (hf : f.Bounded) (hc : f.Stored c.position) {t : Nat}
    (hout : c.OutsideAt f t) (hfirst : ∀ j < t, ¬ c.OutsideAt f j) {k : Nat} (hk : k ≤ t) :
    (Even (c.markersBefore f k) → PassesTo f (c.onward f k) (t - k) (c.onward f t)) ∧
      (¬ Even (c.markersBefore f (k + 1)) →
        ∃ i, k + i < t ∧ ScansTo f (c.onward f k) i (c.onward f (k + i)) ∧
          PassesTo f (c.onward f (k + i + 1)) (t - (k + i + 1)) (c.onward f t)) := by
  -- induction on the steps that are left
  induction hrest : t - k using Nat.strong_induction_on generalizing k with
  | h r ih =>
    have hinside : ¬ Even (c.markersBefore f (k + 1)) →
        ∃ i, k + i < t ∧ ScansTo f (c.onward f k) i (c.onward f (k + i)) ∧
          PassesTo f (c.onward f (k + i + 1)) (t - (k + i + 1)) (c.onward f t) := by
      intro hodd
      have hlt : k ≠ t := by
        rintro rfl
        rw [markersBefore_succ_of_free hout.1] at hodd
        exact hodd hout.2
      cases hmark : (c.onward f (k + 1)).atMarker f with
      | true =>
        have heven : Even (c.markersBefore f (k + 1 + 1)) :=
          (even_markersBefore_succ hmark).mpr hodd
        have hlt' : k + 1 ≠ t := by
          rintro rfl
          rw [hout.1] at hmark
          cases hmark
        refine ⟨1, by omega, .found (advance_onward hf hc k) hmark, ?_⟩
        exact (ih _ (by omega) (by omega) rfl).1 heven
      | false =>
        have hodd' : ¬ Even (c.markersBefore f (k + 1 + 1)) := by
          rwa [markersBefore_succ_of_free hmark]
        obtain ⟨i, hi, hscan, hpass⟩ := (ih _ (by omega) (by omega) rfl).2 hodd'
        rw [show k + 1 + i = k + (i + 1) by omega] at hi hscan hpass
        exact ⟨i + 1, hi, .further (advance_onward hf hc k) hmark hscan, hpass⟩
    refine ⟨fun heven => ?_, hinside⟩
    cases hmark : (c.onward f k).atMarker f with
    | true =>
      have hodd : ¬ Even (c.markersBefore f (k + 1)) :=
        fun h => (even_markersBefore_succ hmark).mp h heven
      obtain ⟨i, hi, hscan, hpass⟩ := hinside hodd
      have hall := PassesTo.across hmark hscan (advance_onward hf hc (k + i)) hpass
      rwa [show i + 1 + (t - (k + i + 1)) = r by omega] at hall
    | false =>
      have hend : k = t := by
        by_contra hne
        exact hfirst k (by omega) ⟨hmark, heven⟩
      subst hend
      rw [← hrest, Nat.sub_self]
      exact .clear hmark

/-- From a cell off the markers the walk is outside again after two rounds: the markers of the two
rounds together are an even number. -/
theorem outsideAt_two_rounds (hf : f.Bounded) (hc : f.Stored c.position)
    (hfree : c.atMarker f = false) :
    (c.onward f 1).OutsideAt f (2 * f.circuit c.position c.direction - 1) := by
  have hpos := Playfield.circuit_pos hc c.direction
  have hback := onward_circuit hf hc
  have hcount := markersBefore_circuit_add hf hc
  generalize f.circuit c.position c.direction = rounds at hpos hback hcount ⊢
  have hlast : 1 + (2 * rounds - 1) = rounds + (rounds + 0) := by omega
  constructor
  · rw [onward_add, hlast, hback, hback]
    exact hfree
  · have hstart : c.markersBefore f 1 = 0 := markersBefore_succ_of_free hfree
    have hall := markersBefore_add f c 1 (2 * rounds - 1)
    rw [hstart, Nat.zero_add, hlast, hcount, hcount] at hall
    rw [← hall]
    exact ⟨_, rfl⟩

/-- **The move from a cell off the markers.** It takes at most two rounds. -/
theorem stridesTo_of_free (hf : f.Bounded) (hc : f.Stored c.position)
    (hfree : c.atMarker f = false) :
    ∃ n ≤ 2 * f.circuit c.position c.direction, ∃ d, StridesTo f c n d := by
  classical
  have hpos := Playfield.circuit_pos hc c.direction
  have hexit : ∃ t, (c.onward f 1).OutsideAt f t := ⟨_, outsideAt_two_rounds hf hc hfree⟩
  have hle : Nat.find hexit ≤ 2 * f.circuit c.position c.direction - 1 :=
    Nat.find_min' hexit (outsideAt_two_rounds hf hc hfree)
  have hpass := (passesTo_outside hf (stored_onward hf hc 1) (Nat.find_spec hexit)
    (fun j hj => Nat.find_min hexit hj) (Nat.zero_le _)).1 (by simp [markersBefore])
  exact ⟨_, by omega, _, .intro (advance_of_stored hf hc) hpass⟩

/-! ## The bounds of the loops -/

theorem ScansTo.eq_onward (h : ScansTo f c n d) (hf : f.Bounded)
    (hc : f.Stored c.position) :
    d = c.onward f n ∧ 0 < n ∧ ∀ j, 0 < j → j < n → (c.onward f j).atMarker f = false := by
  induction h with
  | found hstep _ =>
    rw [advance_of_stored hf hc] at hstep
    exact ⟨(Except.ok.inj hstep).symm, Nat.one_pos, fun j _ _ => by omega⟩
  | further hstep hmark _ ih =>
    rw [advance_of_stored hf hc] at hstep
    obtain rfl := Except.ok.inj hstep
    obtain ⟨rfl, _, hfree⟩ := ih (stored_onward hf hc 1)
    refine ⟨by rw [onward_add, Nat.add_comm], by omega, fun j hj hjn => ?_⟩
    obtain rfl | hj1 : j = 1 ∨ 1 < j := by omega
    · exact hmark
    · have hrest := hfree (j - 1) (by omega) (by omega)
      rwa [onward_add, show 1 + (j - 1) = j by omega] at hrest

/-- A search from a marker meets one after a round at the latest, since it comes back. -/
theorem ScansTo.le_circuit (h : ScansTo f c n d) (hf : f.Bounded)
    (hc : f.Stored c.position) (hmark : c.atMarker f = true) :
    n ≤ f.circuit c.position c.direction := by
  by_contra hlt
  have hfree := (h.eq_onward hf hc).2.2 _ (Playfield.circuit_pos hc c.direction) (by omega)
  rw [← Nat.add_zero (f.circuit c.position c.direction), onward_circuit hf hc,
    show c.onward f 0 = c from rfl, hmark] at hfree
  cases hfree

theorem ScansTo.scan (h : ScansTo f c n d) (fuel : Nat) (hfuel : n ≤ fuel) :
    c.scan f fuel = .ok d := by
  induction h generalizing fuel with
  | found hstep hmark =>
    obtain ⟨fuel, rfl⟩ : ∃ k, fuel = k + 1 := ⟨fuel - 1, by omega⟩
    simp [Cursor.scan, hstep, hmark]
  | further hstep hmark _ ih =>
    obtain ⟨fuel, rfl⟩ : ∃ k, fuel = k + 1 := ⟨fuel - 1, by omega⟩
    simp [Cursor.scan, hstep, hmark, ih fuel (by omega)]

theorem ScansTo.jumpOver (h : ScansTo f c n d) (hf : f.Bounded)
    (hc : f.Stored c.position) (hmark : c.atMarker f = true) : c.jumpOver f = .ok d := by
  have hround := h.le_circuit hf hc hmark
  have hextent := f.circuit_le_extent c.position c.direction
  exact h.scan _ (by omega)

/-- Each stretch costs two steps at least, its end and the step behind it. -/
theorem PassesTo.passMarkers (h : PassesTo f c n d) (hf : f.Bounded)
    (hc : f.Stored c.position) (fuel : Nat) (hfuel : n < 2 * fuel) :
    c.passMarkers f fuel = .ok d := by
  induction h generalizing fuel with
  | clear hmark =>
    obtain ⟨fuel, rfl⟩ : ∃ k, fuel = k + 1 := ⟨fuel - 1, by omega⟩
    simp [Cursor.passMarkers, hmark]
  | across hmark hscan hstep _ ih =>
    obtain ⟨fuel, rfl⟩ : ∃ k, fuel = k + 1 := ⟨fuel - 1, by omega⟩
    have hjump := hscan.jumpOver hf hc hmark
    obtain ⟨rfl, hlen, _⟩ := hscan.eq_onward hf hc
    rw [advance_onward hf hc] at hstep
    obtain rfl := Except.ok.inj hstep
    have hrest := ih (stored_onward hf hc _) fuel (by omega)
    simp [Cursor.passMarkers, hmark, hjump, advance_onward hf hc, hrest]

theorem StridesTo.stride (h : StridesTo f c n d) (hf : f.Bounded)
    (hc : f.Stored c.position) (hn : n ≤ 2 * f.circuit c.position c.direction) :
    c.stride f = .ok d := by
  obtain ⟨hstep, hpass⟩ := h
  rw [advance_of_stored hf hc] at hstep
  obtain rfl := Except.ok.inj hstep
  have hextent : f.extent (c.onward f 1).position (c.onward f 1).direction =
      f.extent c.position c.direction := f.extent_ahead_iterate c.position c.direction 1
  have hround := f.circuit_le_extent c.position c.direction
  have hrest := hpass.passMarkers hf (stored_onward hf hc 1)
    (f.extent (c.onward f 1).position (c.onward f 1).direction + 1) (by omega)
  rw [Cursor.stride, advance_of_stored hf hc]
  exact hrest

theorem act_ne_endless {i : Instruction} (h : i.moves = false) :
    (c.act f i).2 ≠ .error .endless := by
  cases i with
  | trampoline | jumpOver | jumpForward => cases h
  | divide | modulo =>
    rw [act]
    split <;> simp
  | _ => simp [act]

end Cursor

namespace Machine

/-! ## Turns -/

variable {m : Machine} {c : Cursor}

/-- A request is granted or refused, but never leads to a search without end: the child of a
cursor on a stored cell finds its place. -/
theorem perform_ne_endless (hm : m.field.Bounded) (hc : m.field.Stored c.position) (l : Position)
    (e : Effect) : (m.perform c l e).result ≠ .error .endless := by
  intro h
  cases e with
  | none | goRandom => cases h
  | print text =>
    obtain ⟨cause, hcause⟩ := print_error m h
    cases hcause
  | readInteger =>
    obtain ⟨fault, hfault, _⟩ := received_error m c (fun f => Console.readInteger_fault _) h
    cases hfault
  | readCharacter =>
    obtain ⟨fault, hfault, _⟩ := received_error m c (fun f => Console.readCharacter_fault _) h
    cases hfault
  | put x y value =>
    simp only [perform, put] at h
    split at h
    · cases h
    · split at h <;> cases h
  | fork =>
    simp only [perform, fork, (hc.ahead hm c.direction.opposite).1] at h
    cases h

/-- The instructions that a cursor may execute in its turn leave it where it is. -/
def Stays (m : Machine) (c : Cursor) : Prop := ∀ i, m.Executes c i → i.moves = false

theorem stays_of_free (hfree : m.field.read c.position ≠ .char Instruction.marker)
    (htrampoline : ¬ m.Executes c .trampoline) (hjump : ¬ m.Executes c .jumpForward) :
    m.Stays c := by
  intro i hi
  cases i with
  | trampoline => exact absurd hi htrampoline
  | jumpForward => exact absurd hi hjump
  | jumpOver => exact absurd (Instruction.eq_char_of_ofCell? hi.2) hfree
  | _ => rfl

theorem met_of_stays (hm : m.field.Bounded) (hc : m.field.Stored c.position) (hstays : m.Stays c)
    (hlive : c.mode ≠ .terminated) :
    (m.met c).cursor.position = c.position ∧ (m.met c).result ≠ .error .endless := by
  rcases met_cases m c hlive with ⟨i, hi, hmet⟩ | ⟨_, hmet | hmet | hmet⟩
  · have hplace : ((m.seen c).act m.field i).1.position = c.position :=
      Cursor.act_position (hstays i hi)
    rw [hmet]
    cases hact : ((m.seen c).act m.field i).2 with
    | error s =>
      rw [execute_error m _ hact]
      refine ⟨hplace, fun h => ?_⟩
      cases h
      exact Cursor.act_ne_endless (hstays i hi) hact
    | ok e =>
      rw [execute_ok m _ hact, perform_position]
      refine ⟨hplace, perform_ne_endless hm ?_ _ e⟩
      rw [hplace]
      exact hc
  · rw [hmet]
    exact ⟨Cursor.toggleLiteral_position _, by simp⟩
  · rw [hmet]
    exact ⟨rfl, by simp⟩
  · rw [hmet]
    exact ⟨rfl, by simp⟩

/-- A marker is found after a put where there was one before, or where the put has brought it. -/
theorem read_fieldAfter_marker {f : Playfield} {put : Option (Position × Int64)} {q : Position}
    (h : (fieldAfter f put).read q = .char Instruction.marker) :
    f.read q = .char Instruction.marker ∨ put = some (q, 59) := by
  cases put with
  | none => exact Or.inl h
  | some pv =>
    obtain ⟨p, value⟩ := pv
    rw [fieldAfter] at h
    cases hw : f.write? p (.ofValue value) with
    | none =>
      rw [hw] at h
      exact Or.inl h
    | some g =>
      rw [hw, Option.getD_some, (Playfield.write?_eq_some hw).2, Playfield.read_write] at h
      split at h
      · next hq =>
        rw [Cell.ofValue_eq_marker_iff] at h
        exact Or.inr (by rw [hq, h])
      · exact Or.inl h

/-- **A turn comes to its end.** Let a cursor rest on a stored cell off the markers, and let its
turn neither take it elsewhere by a trampoline or a jump nor put a marker under it. Then the turn is
no search without end, and its move succeeds after a number of single steps, those over all marked
stretches together, of at most two rounds; a round is counted on the playfield and in the direction
that the instruction has left. -/
theorem turn_within_two_rounds (m : Machine) (hm : m.field.Bounded) (c : Cursor)
    (hc : m.field.Stored c.position)
    (hfree : m.field.read c.position ≠ .char Instruction.marker)
    (htrampoline : ¬ m.Executes c .trampoline) (hjump : ¬ m.Executes c .jumpForward)
    (hput : m.putBy c ≠ some (c.position, 59)) :
    (m.turn c).result ≠ .error .endless ∧
    (c.mode ≠ .terminated → (m.met c).result = .ok () →
      (m.turn c).result = .ok () ∧
      ∃ n ≤ 2 * (m.met c).machine.field.circuit c.position (m.met c).cursor.direction,
        (m.met c).cursor.StridesTo (m.met c).machine.field n (m.turn c).cursor ∧
        ∀ k d, (m.met c).cursor.StridesTo (m.met c).machine.field k d →
          n = k ∧ (m.turn c).cursor = d) := by
  by_cases hterm : c.mode = .terminated
  · rw [turn_of_terminated m c hterm]
    exact ⟨by simp, fun h => absurd hterm h⟩
  · have hstays := stays_of_free hfree htrampoline hjump
    obtain ⟨hplace, hended⟩ := met_of_stays hm hc hstays hterm
    have hfield : (m.met c).machine.field = fieldAfter m.field (m.putBy c) := by
      rw [← turn_machine m c hterm, turn_field]
    have hbounded : (m.met c).machine.field.Bounded := by
      rw [hfield]
      exact bounded_fieldAfter hm _
    have hstored : (m.met c).machine.field.Stored (m.met c).cursor.position := by
      rw [hplace, hfield]
      exact within_fieldAfter m.field _ _ hc
    have hoff : (m.met c).cursor.atMarker (m.met c).machine.field = false := by
      rw [Cursor.atMarker, hplace, hfield, decide_eq_false_iff_not]
      intro hmark
      rcases read_fieldAfter_marker hmark with h | h
      · exact hfree h
      · exact hput h
    obtain ⟨n, hn, d, hsteps⟩ := Cursor.stridesTo_of_free hbounded hstored hoff
    have hstride := hsteps.stride hbounded hstored hn
    rw [turn_of_live m c hterm]
    cases hmet : (m.met c).result with
    | error s =>
      simp only [hmet]
      exact ⟨fun h => hended (hmet.trans h), fun _ h => nomatch h⟩
    | ok u =>
      simp only [hstride, hmet]
      rw [hplace] at hn
      exact ⟨by simp, fun _ _ => ⟨trivial, n, hn, hsteps, fun k d => hsteps.unique⟩⟩

/-- A column of two cells, one of them a marker, with an empty row between them. -/
def pit : Playfield := ⟨[[.char 'v'], [], [.char ';']]⟩

/-- The only marker below the start opens a stretch and, a round later, closes it, so the cursor is
back at the start after two rounds of two cells. -/
theorem turn_within_two_rounds_pit :
    pit.Bounded ∧ pit.Stored .origin ∧ pit.read .origin ≠ .char Instruction.marker ∧
      ¬ (start pit {} {} 0).Executes .initial .trampoline ∧
      ¬ (start pit {} {} 0).Executes .initial .jumpForward ∧
      (start pit {} {} 0).putBy .initial ≠ some (.origin, 59) ∧
      ((start pit {} {} 0).turn .initial).cursor.position = .origin ∧
      pit.circuit .origin .down = 2 ∧
      ∃ n ≤ 2 * pit.circuit .origin .down,
        ((start pit {} {} 0).met .initial).cursor.StridesTo pit n
          ((start pit {} {} 0).turn .initial).cursor ∧
        ∀ k d, ((start pit {} {} 0).met .initial).cursor.StridesTo pit k d →
          n = k ∧ ((start pit {} {} 0).turn .initial).cursor = d := by
  have hbounded : pit.Bounded := by decide
  have hstored : pit.Stored .origin := by decide
  have hfree : pit.read .origin ≠ .char Instruction.marker := by decide
  have htrampoline : ¬ (start pit {} {} 0).Executes .initial .trampoline := by decide
  have hjump : ¬ (start pit {} {} 0).Executes .initial .jumpForward := by decide
  have hput : (start pit {} {} 0).putBy .initial ≠ some (.origin, 59) := by decide
  refine ⟨hbounded, hstored, hfree, htrampoline, hjump, hput, by decide +kernel,
    by decide +kernel, ?_⟩
  exact ((turn_within_two_rounds (start pit {} {} 0) hbounded .initial hstored hfree htrampoline
    hjump hput).2 (by decide) rfl).2

end Machine

end Funge
