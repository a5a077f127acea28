import Mathlib.Algebra.Order.Interval.Finset.SuccPred
import Mathlib.Algebra.Ring.Parity
import Mathlib.Data.Nat.SuccPred
import Mathlib.Order.Interval.Finset.Nat
import Mathlib.Order.Nat
import Funge.Proofs.Crossing

/-!
Where the loop that passes over marked stretches ends. From a marker it goes on from stretch to
stretch, and it ends behind the first closing marker that no marker follows at once. Which markers
close a stretch is decided by their number counted from the first one, and an odd number of them on
the circuit exchanges opening and closing markers with every round. If two rounds have brought no
end there is none.
-/

namespace Funge

namespace Cursor

variable {f : Playfield} {c d : Cursor} {k n t : Nat}

/-- One round of the loop: from a marker to the next one, and one step on. -/
inductive Round (f : Playfield) : Cursor → Cursor → Prop
  | intro {c d e : Cursor} {n : Nat} : c.atMarker f = true → ScansTo f c n d →
      d.advance f = .ok e → Round f c e

/-- The loop goes from round to round without end. -/
def Endless (f : Playfield) (c : Cursor) : Prop :=
  ∃ path : Nat → Cursor, path 0 = c ∧ ∀ i, Round f (path i) (path (i + 1))

/-- After `k` steps a walk from a marker is at a marker that closes a stretch, and one step on it is
off the markers. -/
structure ExitsAt (f : Playfield) (c : Cursor) (k : Nat) : Prop where
  ahead : 1 ≤ k
  marker : (c.onward f k).atMarker f = true
  closing : Odd ((Finset.Icc 1 k).filter fun i => (c.onward f i).atMarker f = true).card
  free : (c.onward f (k + 1)).atMarker f = false

/-! ## Counting markers -/

/-- The markers of a walk that begins at one: that one and those among its steps. -/
theorem markersBefore_of_marker (hmark : c.atMarker f = true) (k : Nat) :
    c.markersBefore f (k + 1) =
      ((Finset.Icc 1 k).filter fun i => (c.onward f i).atMarker f = true).card + 1 := by
  have hstart : (c.onward f 0).atMarker f = true := hmark
  induction k with
  | zero => simp [markersBefore, Nat.count_succ, hstart]
  | succ k ih =>
    have hnew : k + 1 ∉ (Finset.Icc 1 k).filter fun i => (c.onward f i).atMarker f = true := by
      simp
    rw [← Finset.insert_Icc_right_eq_Icc_add_one (by omega), Finset.filter_insert]
    cases hnext : (c.onward f (k + 1)).atMarker f with
    | true =>
      rw [if_pos rfl, Finset.card_insert_of_notMem hnew, ← ih, markersBefore, Nat.count_succ,
        if_pos hnext]
      rfl
    | false => rw [if_neg (by simp), ← ih, markersBefore_succ_of_free hnext]

theorem ScansTo.atMarker (h : ScansTo f c n d) : d.atMarker f = true := by
  induction h with
  | found _ hmark => exact hmark
  | further _ _ _ ih => exact ih

/-- A search from a marker passes no other, so it ends with an even number. -/
theorem ScansTo.even_markersBefore (h : ScansTo f c n d) (hf : f.Bounded)
    (hc : f.Stored c.position) (hmark : c.atMarker f = true) :
    Even (c.markersBefore f (n + 1)) := by
  obtain ⟨rfl, hpos, hfree⟩ := h.eq_onward hf hc
  have hone : ∀ j, j < n → c.markersBefore f (j + 1) = 1 := by
    intro j hj
    induction j with
    | zero =>
      rw [markersBefore_of_marker hmark]
      rfl
    | succ j ih => rw [markersBefore_succ_of_free (hfree (j + 1) (by omega) hj), ih (by omega)]
  have hlast := hone (n - 1) (by omega)
  rw [show n - 1 + 1 = n by omega] at hlast
  rw [even_markersBefore_succ h.atMarker, hlast]
  decide

/-! ## The first way out -/

theorem ExitsAt.outsideAt (h : c.ExitsAt f k) (hmark : c.atMarker f = true) :
    c.OutsideAt f (k + 1) := by
  refine ⟨h.free, ?_⟩
  rw [markersBefore_of_marker hmark]
  exact h.closing.add_one

/-- A walk from a marker that is outside at some step has come out at a step before. -/
theorem exists_exitsAt_lt (hmark : c.atMarker f = true) (hout : c.OutsideAt f t) :
    ∃ k < t, c.ExitsAt f k := by
  induction t with
  | zero =>
    have hfree : c.atMarker f = false := hout.1
    rw [hmark] at hfree
    cases hfree
  | succ t ih =>
    obtain ⟨hfree, heven⟩ := hout
    cases hlast : (c.onward f t).atMarker f with
    | true =>
      rw [markersBefore_of_marker hmark] at heven
      have hodd := Nat.not_even_iff_odd.mp (Nat.even_add_one.mp heven)
      have hpos : 1 ≤ t := by
        rcases Nat.eq_zero_or_pos t with rfl | hpos
        · simp at hodd
        · exact hpos
      exact ⟨t, by omega, hpos, hlast, hodd, hfree⟩
    | false =>
      rw [markersBefore_succ_of_free hlast] at heven
      obtain ⟨k, hk, hexit⟩ := ih ⟨hlast, heven⟩
      exact ⟨k, by omega, hexit⟩

/-- The first step outside is within two rounds, since after two rounds the markers are counted as
at first. -/
theorem OutsideAt.lt_two_rounds (h : c.OutsideAt f t) (hf : f.Bounded) (hc : f.Stored c.position)
    (hfirst : ∀ j < t, ¬ c.OutsideAt f j) : t < 2 * f.circuit c.position c.direction := by
  have hpos := Playfield.circuit_pos hc c.direction
  have hback := onward_circuit hf hc
  have hcount := markersBefore_circuit_add hf hc
  generalize f.circuit c.position c.direction = rounds at hpos hback hcount ⊢
  by_contra hlate
  obtain ⟨s, rfl⟩ : ∃ s, t = rounds + (rounds + s) := ⟨t - 2 * rounds, by omega⟩
  obtain ⟨hfree, heven⟩ := h
  rw [hback, hback] at hfree
  rw [hcount, hcount, ← Nat.add_assoc, Nat.even_add] at heven
  exact hfirst s (by omega) ⟨hfree, heven.mp ⟨_, rfl⟩⟩

theorem exits_of_least (hf : f.Bounded) (hc : f.Stored c.position) (hmark : c.atMarker f = true)
    (hk : IsLeast {k | c.ExitsAt f k} k) :
    PassesTo f c (k + 1) (c.onward f (k + 1)) ∧
      c.passMarkers f (f.extent c.position c.direction + 1) = .ok (c.onward f (k + 1)) := by
  have hout := hk.1.outsideAt hmark
  have hfirst : ∀ j < k + 1, ¬ c.OutsideAt f j := by
    intro j hj hearly
    obtain ⟨i, hi, hexit⟩ := exists_exitsAt_lt hmark hearly
    have hle := hk.2 hexit
    omega
  have hpass := (passesTo_outside hf hc hout hfirst (Nat.zero_le _)).1 (by simp [markersBefore])
  have hbound := hout.lt_two_rounds hf hc hfirst
  have hround := f.circuit_le_extent c.position c.direction
  exact ⟨hpass, PassesTo.passMarkers hpass hf hc _ (by omega)⟩

/-! ## No way out -/

/-- A walk that meets a marker is a search that finds one. -/
theorem exists_scansTo (hf : f.Bounded) (hc : f.Stored c.position)
    (h : (c.onward f (n + 1)).atMarker f = true) : ∃ i d, ScansTo f c i d := by
  induction n generalizing c with
  | zero => exact ⟨1, _, .found (advance_of_stored hf hc) h⟩
  | succ n ih =>
    cases hnext : (c.onward f 1).atMarker f with
    | true => exact ⟨1, _, .found (advance_of_stored hf hc) hnext⟩
    | false =>
      rw [show n + 1 + 1 = 1 + (n + 1) by omega, ← onward_add] at h
      obtain ⟨i, d, hscan⟩ := ih (stored_onward hf hc 1) h
      exact ⟨i + 1, d, .further (advance_of_stored hf hc) hnext hscan⟩

/-- The search from a marker ends: at the latest it comes back. -/
theorem exists_scansTo_of_marker (hf : f.Bounded) (hc : f.Stored c.position)
    (hmark : c.atMarker f = true) : ∃ i d, ScansTo f c i d := by
  have hpos := Playfield.circuit_pos hc c.direction
  apply exists_scansTo (n := f.circuit c.position c.direction - 1) hf hc
  rw [show f.circuit c.position c.direction - 1 + 1 = f.circuit c.position c.direction + 0 by omega,
    onward_circuit hf hc]
  exact hmark

/-- A walk that is never outside goes on with another round whenever it is between two stretches. -/
theorem exists_round (hf : f.Bounded) (hc : f.Stored c.position)
    (hinside : ∀ t, ¬ c.OutsideAt f t) (heven : Even (c.markersBefore f k)) :
    ∃ j, Round f (c.onward f k) (c.onward f j) ∧ Even (c.markersBefore f j) := by
  have hmark : (c.onward f k).atMarker f = true := by
    by_contra hfree
    exact hinside k ⟨Bool.eq_false_iff.mpr hfree, heven⟩
  have hstored := stored_onward hf hc k
  obtain ⟨i, d, hscan⟩ := exists_scansTo_of_marker hf hstored hmark
  have hmore := hscan.even_markersBefore hf hstored hmark
  obtain ⟨rfl, _, _⟩ := hscan.eq_onward hf hstored
  have hstep := advance_onward hf hstored i
  rw [onward_add k (i + 1)] at hstep
  refine ⟨k + (i + 1), .intro hmark hscan hstep, ?_⟩
  rw [markersBefore_add, Nat.even_add]
  exact iff_of_true heven hmore

theorem endless_of_inside (hf : f.Bounded) (hc : f.Stored c.position)
    (hinside : ∀ t, ¬ c.OutsideAt f t) : c.Endless f := by
  -- the invariant: every round begins and ends with an even number of markers behind it
  have hround := fun (k : {k // Even (c.markersBefore f k)}) => exists_round hf hc hinside k.2
  choose next hnext heven using hround
  let walk : Nat → {k // Even (c.markersBefore f k)} := fun i =>
    i.rec ⟨0, by simp [markersBefore]⟩ fun _ k => ⟨next k, heven k⟩
  exact ⟨fun i => c.onward f (walk i).1, rfl, fun i => hnext (walk i)⟩

/-- No bound on its rounds suffices for a loop without end. -/
theorem Endless.passMarkers (h : c.Endless f) (hf : f.Bounded) (hc : f.Stored c.position)
    (fuel : Nat) : c.passMarkers f fuel = .error .endless := by
  induction fuel generalizing c with
  | zero => rfl
  | succ fuel ih =>
    obtain ⟨path, rfl, hrounds⟩ := h
    obtain ⟨hmark, hscan, hstep⟩ := hrounds 0
    have hjump := hscan.jumpOver hf hc hmark
    obtain ⟨rfl, _, _⟩ := hscan.eq_onward hf hc
    have hstored : f.Stored (path 1).position := by
      rw [advance_onward hf hc] at hstep
      rw [← Except.ok.inj hstep]
      exact stored_onward hf hc _
    have hrest := ih ⟨fun i => path (i + 1), rfl, fun i => hrounds (i + 1)⟩ hstored
    simp only [Cursor.passMarkers, hmark, ↓reduceIte, hjump, hstep]
    exact hrest

theorem endless_of_no_exit (hf : f.Bounded) (hc : f.Stored c.position)
    (hmark : c.atMarker f = true) (hnone : ¬ ∃ k, c.ExitsAt f k) : c.Endless f := by
  apply endless_of_inside hf hc
  intro t hout
  obtain ⟨k, _, hexit⟩ := exists_exitsAt_lt hmark hout
  exact hnone ⟨k, hexit⟩

theorem exists_passesTo_iff (hf : f.Bounded) (hc : f.Stored c.position)
    (hmark : c.atMarker f = true) : (∃ n d, PassesTo f c n d) ↔ ∃ k, c.ExitsAt f k := by
  classical
  constructor
  · rintro ⟨n, d, hpass⟩
    by_contra hnone
    have hends := hpass.passMarkers hf hc (n + 1) (by omega)
    rw [(endless_of_no_exit hf hc hmark hnone).passMarkers hf hc] at hends
    cases hends
  · intro hexit
    exact ⟨_, _, (exits_of_least hf hc hmark (Nat.isLeast_find hexit)).1⟩

end Cursor

namespace Machine

open Cursor

/-- **Where the marker loop ends.** A cursor stands on a marker, and its steps lead on from there.
The loop comes to an end if and only if at some step there is a marker, an odd one of those after
the first, and none at the next step. It then takes the cursor to the step after the first such
marker and changes nothing else of it. Otherwise it goes from round to round without end. So a turn
whose move begins with a step to that marker ends there with the machine as the instruction has left
it, or does not end. -/
theorem markerLoop_exits_iff (f : Playfield) (hf : f.Bounded) (c : Cursor)
    (hc : f.Stored c.position) (hmark : c.atMarker f = true) :
    (∀ i, (c.onward f i).advance f = .ok (c.onward f (i + 1))) ∧
    ((∃ n d, c.PassesTo f n d) ↔ ∃ k, c.ExitsAt f k) ∧
    (∀ k, IsLeast {k | c.ExitsAt f k} k →
      c.PassesTo f (k + 1) (c.onward f (k + 1)) ∧
      c.passMarkers f (f.extent c.position c.direction + 1) = .ok (c.onward f (k + 1))) ∧
    ((¬ ∃ k, c.ExitsAt f k) →
      c.Endless f ∧ ∀ fuel, c.passMarkers f fuel = .error .endless) ∧
    ∀ (m : Machine) (b : Cursor), b.mode ≠ .terminated → (m.met b).result = .ok () →
      (m.met b).machine.field = f → (m.met b).cursor.advance f = .ok c →
        (∀ k, IsLeast {k | c.ExitsAt f k} k →
          m.turn b = { m.met b with cursor := c.onward f (k + 1) }) ∧
        ((¬ ∃ k, c.ExitsAt f k) → m.turn b = { m.met b with result := .error .endless }) := by
  have hexit := fun k => exits_of_least (k := k) hf hc hmark
  have hnone : (¬ ∃ k, c.ExitsAt f k) →
      c.Endless f ∧ ∀ fuel, c.passMarkers f fuel = .error .endless := by
    intro h
    have hendless := endless_of_no_exit hf hc hmark h
    exact ⟨hendless, hendless.passMarkers hf hc⟩
  refine ⟨advance_onward hf hc, exists_passesTo_iff hf hc hmark, hexit, hnone, ?_⟩
  intro m b hlive hresult hfield hstep
  have hmove : (m.met b).cursor.stride (m.met b).machine.field =
      c.passMarkers f (f.extent c.position c.direction + 1) := by
    rw [hfield, Cursor.stride, hstep]
  constructor
  · intro k hk
    simp only [turn_of_live m b hlive, hresult, hmove, (hexit k hk).2]
  · intro h
    simp only [turn_of_live m b hlive, hresult, hmove, (hnone h).2]

/-- A single marker before a digit. -/
def lonelyMarker : Playfield := ⟨[[.char ';', .char 'a']]⟩

/-- The cursor that has pushed the digit and has come around the row to the marker. -/
def returning : Cursor := ⟨.origin, .right, ⟨[10]⟩, .normal, .char 'a'⟩

/-- A digit between two markers. -/
def closedCell : Playfield := ⟨[[.char ';', .char 'a', .char ';']]⟩

/-- The single marker closes, a round later, the stretch that it has opened, so that the turn ends
after three more steps, at the digit again. Between two markers at the ends of a row the loop does
not end. -/
theorem markerLoop_exits_iff_closedCell :
    lonelyMarker.Bounded ∧ lonelyMarker.Stored returning.position ∧
      returning.atMarker lonelyMarker = true ∧ returning.ExitsAt lonelyMarker 2 ∧
      ((start lonelyMarker {} {} 0).turn { Cursor.initial with position := ⟨1, 0⟩ }).cursor =
        { returning with position := ⟨1, 0⟩ } ∧
    closedCell.Bounded ∧ closedCell.Stored .origin ∧ Cursor.initial.atMarker closedCell = true ∧
      (¬ ∃ k, Cursor.initial.ExitsAt closedCell k) ∧ Cursor.initial.Endless closedCell := by
  have hlonely : lonelyMarker.Bounded := by decide
  have hmark : returning.atMarker lonelyMarker = true := by decide
  have hexit : IsLeast {k | returning.ExitsAt lonelyMarker k} 2 := by
    refine ⟨⟨by decide, by decide, by decide, by decide⟩, ?_⟩
    intro k hk
    by_contra hlt
    obtain rfl : k = 1 := by
      have := hk.ahead
      omega
    exact absurd hk.marker (by decide)
  have hclosed : closedCell.Bounded := by decide
  have hopening : Cursor.initial.atMarker closedCell = true := by decide
  obtain ⟨_, _, _, _, hturn⟩ :=
    markerLoop_exits_iff lonelyMarker hlonely returning (by decide) hmark
  obtain ⟨_, _, hends, hloops, _⟩ :=
    markerLoop_exits_iff closedCell hclosed .initial (by decide) hopening
  have hpasses := (hturn (start lonelyMarker {} {} 0) { Cursor.initial with position := ⟨1, 0⟩ }
    (by decide) rfl rfl rfl).1 2 hexit
  have hnone : ¬ ∃ k, Cursor.initial.ExitsAt closedCell k := by
    classical
    intro hsome
    have hruns : Cursor.initial.passMarkers closedCell 4 = .error .endless := by rfl
    cases hruns.symm.trans (hends _ (Nat.isLeast_find hsome)).2
  refine ⟨hlonely, by decide, hmark, hexit.1, ?_, hclosed, by decide, hopening, hnone,
    (hloops hnone).1⟩
  rw [hpasses]
  decide +kernel

end Machine

end Funge
