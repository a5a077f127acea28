import Funge.Proofs.Tick

/-!
The order of the turns in a tick. The cursors have their turns one after the other, up to
the first that fails. Those born on the way wait at the front, the last born first; no
cursor is lost, and only the terminated go.
-/

namespace Funge.Machine

variable (m : Machine)

/-- The cursor that the turn of `c` gives birth to. -/
def childOf (c : Cursor) : Option Cursor :=
  if m.Executes c .fork then (m.field.advance? c.position c.direction.opposite).map (child c)
  else none

theorem fork_cursors_eq (c : Cursor) : (m.fork c).2.cursors =
    ((m.field.advance? c.position c.direction.opposite).map (child c)).toList ++ m.cursors := by
  simp only [fork]
  cases m.field.advance? c.position c.direction.opposite <;> rfl

theorem turn_cursors_eq (c : Cursor) :
    (m.turn c).machine.cursors = (m.childOf c).toList ++ m.cursors := by
  unfold childOf
  rcases turn_machine_cases m c with ⟨i, hi, hmachine⟩ | ⟨hidle, hmachine⟩
  · rw [hmachine]
    rcases execute_cursors m c (i := i) with hsame | ⟨rfl, _⟩
    · split
      · next hfork =>
        -- a fork that finds no place leaves the list as it is
        obtain rfl := executes_unique m c hi hfork
        exact fork_cursors_eq m (m.seen c)
      · exact hsame
    · rw [if_pos hi]
      exact fork_cursors_eq m (m.seen c)
  · rw [hmachine, if_neg (hidle .fork)]
    rfl

/-! ## Series of turns -/

/-- The turns of a list of cursors, each with the machine that the one before it has left. -/
def series (m : Machine) : List Cursor → List Turn
  | [] => []
  | c :: cs => m.turn c :: series (m.turn c).machine cs

/-- The machine after the turns of a list of cursors. -/
def left (m : Machine) : List Cursor → Machine
  | [] => m
  | c :: cs => left (m.turn c).machine cs

/-- The cursors born in the turns of a list of cursors, the first born first. -/
def births (m : Machine) : List Cursor → List Cursor
  | [] => []
  | c :: cs => (m.childOf c).toList ++ births (m.turn c).machine cs

theorem series_length (cs : List Cursor) : (m.series cs).length = cs.length := by
  induction cs generalizing m with
  | nil => rfl
  | cons c cs ih => rw [series, List.length_cons, List.length_cons, ih]

theorem left_cursors (cs : List Cursor) :
    (m.left cs).cursors = (m.births cs).reverse ++ m.cursors := by
  induction cs generalizing m with
  | nil => rfl
  | cons c cs ih =>
    have hchild : (m.childOf c).toList.reverse = (m.childOf c).toList := by
      cases m.childOf c <;> rfl
    rw [left, ih, births, turn_cursors_eq, List.reverse_append, hchild, List.append_assoc]

theorem left_ticks (cs : List Cursor) : (m.left cs).ticks = m.ticks := by
  induction cs generalizing m with
  | nil => rfl
  | cons c cs ih => rw [left, ih, (turn_constants m c).2]

theorem births_length_le (cs : List Cursor) : (m.births cs).length ≤ cs.length := by
  induction cs generalizing m with
  | nil => exact Nat.le_refl 0
  | cons c cs ih =>
    have hchild : (m.childOf c).toList.length ≤ 1 := by
      cases m.childOf c <;> simp
    have hrest := ih (m.turn c).machine
    rw [births, List.length_append, List.length_cons]
    omega

/-- Every birth is the fork of one cursor, in the state of the machine at its turn. -/
theorem exists_parent {cs : List Cursor} {b : Cursor} (hb : b ∈ m.births cs) :
    ∃ earlier c later q, cs = earlier ++ c :: later ∧ (m.left earlier).Executes c .fork ∧
      (m.left earlier).field.advance? c.position c.direction.opposite = some q ∧
      b = child c q := by
  induction cs generalizing m with
  | nil => cases hb
  | cons c cs ih =>
    rcases List.mem_append.mp hb with hhead | htail
    · rw [Option.mem_toList, childOf] at hhead
      split at hhead
      · next hfork =>
        obtain ⟨q, hq, rfl⟩ := Option.map_eq_some_iff.mp hhead
        exact ⟨[], c, cs, q, rfl, hfork, hq, rfl⟩
      · cases hhead
    · obtain ⟨earlier, d, later, q, rfl, hfork, hq, hchild⟩ := ih (m.turn c).machine htail
      exact ⟨c :: earlier, d, later, q, rfl, hfork, hq, hchild⟩

/-- The turns had are those of the first `k` cursors: of all if none fails, and else up to
the one that fails. -/
def StopsAfter (cs : List Cursor) (k : Nat) (r : Except Stop Unit) : Prop :=
  (k = cs.length ∧ r = .ok () ∧ ∀ t ∈ m.series (cs.take k), t.result = .ok ()) ∨
  ∃ earlier t s, m.series (cs.take k) = earlier ++ [t] ∧
    (∀ u ∈ earlier, u.result = .ok ()) ∧ t.result = .error s ∧ r = .error s

theorem StopsAfter.cons {c : Cursor} {cs : List Cursor} {k : Nat} {r : Except Stop Unit}
    (hok : (m.turn c).result = .ok ()) (h : (m.turn c).machine.StopsAfter cs k r) :
    m.StopsAfter (c :: cs) (k + 1) r := by
  rcases h with ⟨rfl, rfl, hall⟩ | ⟨earlier, t, s, hseries, hall, hfail, rfl⟩
  · refine Or.inl ⟨rfl, rfl, ?_⟩
    rw [List.take_succ_cons, series, List.forall_mem_cons]
    exact ⟨hok, hall⟩
  · refine Or.inr ⟨m.turn c :: earlier, t, s, ?_, ?_, hfail, rfl⟩
    · rw [List.take_succ_cons, series, hseries, List.cons_append]
    · rw [List.forall_mem_cons]
      exact ⟨hok, hall⟩

theorem turns_schedule (cs : List Cursor) :
    ∃ k ≤ cs.length, m.StopsAfter cs k (m.turns cs).1 ∧
      (m.turns cs).2.1 = (m.series (cs.take k)).map Turn.cursor ++ cs.drop k ∧
      (m.turns cs).2.2 = m.left (cs.take k) := by
  induction cs generalizing m with
  | nil => exact ⟨0, Nat.le_refl 0, Or.inl ⟨rfl, rfl, fun t ht => nomatch ht⟩, rfl, rfl⟩
  | cons c cs ih =>
    cases hres : (m.turn c).result with
    | error s =>
      rw [turns_cons_error m hres]
      refine ⟨1, by simp, Or.inr ⟨[], m.turn c, s, rfl, ?_, hres, rfl⟩, rfl, rfl⟩
      exact fun u hu => nomatch hu
    | ok u =>
      obtain ⟨k, hk, hends, hafter, hlast⟩ := ih (m.turn c).machine
      rw [turns_cons_ok m hres]
      refine ⟨k + 1, Nat.succ_le_succ hk, hends.cons m hres, ?_, hlast⟩
      exact congrArg (List.cons _) hafter

/-- One tick. The first `k` of the live cursors have a turn each, all of them unless the
turn of the last of these fails. Then the live are the newborn, those that had a turn as it
left them, and the rest untouched, without the terminated. -/
theorem tick_schedule :
    ∃ k ≤ m.cursors.length, ∃ ran born last all,
      ran = m.opened.series (m.cursors.take k) ∧ born = m.opened.births (m.cursors.take k) ∧
      last = m.opened.left (m.cursors.take k) ∧
      all = born.reverse ++ ran.map Turn.cursor ++ m.cursors.drop k ∧
      m.opened.StopsAfter m.cursors k m.tick.1 ∧
      m.tick.2 = { last with
        cursors := all.filter fun c => !c.isTerminated
        ticks := m.ticks + 1
        journal := last.journal ++ ((all.filter Cursor.isTerminated).map
          fun c => Event.cursorTerminated c.position).toArray } ∧
      all.length = born.length + m.cursors.length ∧ born.length ≤ k ∧
      ∀ b ∈ born, ∃ earlier c later,
        m.cursors.take k = earlier ++ c :: later ∧
        (m.opened.left earlier).Executes c .fork ∧
        (m.opened.left earlier).field.advance? c.position c.direction.opposite =
          some b.position ∧
        b.direction = c.direction.opposite ∧ b.stack = .empty ∧ b.mode = .normal ∧
        b.last = .blank := by
  obtain ⟨k, hk, hends, hafter, hlast⟩ := turns_schedule m.opened m.cursors
  refine ⟨k, hk, _, _, _, _, rfl, rfl, rfl, rfl, hends, ?_, ?_, ?_, ?_⟩
  · have hcursors := left_cursors m.opened (m.cursors.take k)
    have hticks := left_ticks m.opened (m.cursors.take k)
    rw [show m.opened.cursors = [] from rfl, List.append_nil] at hcursors
    rw [show m.opened.ticks = m.ticks from rfl] at hticks
    simp only [tick_machine, hafter, hlast, close, hcursors, hticks, List.append_assoc]
  · simp only [List.length_append, List.length_reverse, List.length_map, series_length,
      List.length_take, List.length_drop]
    omega
  · have hborn := births_length_le m.opened (m.cursors.take k)
    rw [List.length_take] at hborn
    omega
  · intro b hb
    obtain ⟨earlier, c, later, q, hsplit, hfork, hq, rfl⟩ := exists_parent m.opened hb
    exact ⟨earlier, c, later, hsplit, hfork, hq, rfl, rfl, rfl, rfl⟩

end Funge.Machine
