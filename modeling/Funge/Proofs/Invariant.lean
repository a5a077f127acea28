import Funge.Proofs.Tick

/-!
Invariants of ticks. What every turn keeps of the playfield, of the cursor that has the turn,
of the other cursors and of the newborn holds in every machine that ticks reach, and in the
midst of each tick as well.
-/

namespace Funge.Machine

/-- A property of playfields and one of the cursors on them that every turn keeps. -/
structure Invariant (F : Playfield → Prop) (P : Playfield → Cursor → Prop) : Prop where
  field : ∀ {m : Machine} {c}, F m.field → P m.field c → F (m.turn c).machine.field
  newborn : ∀ {m : Machine} {c q}, F m.field → P m.field c →
    m.field.advance? c.position c.direction.opposite = some q → P m.field (child c q)
  others : ∀ {m : Machine} {c d}, F m.field → P m.field c → P m.field d →
    P (m.turn c).machine.field d
  self : ∀ {m : Machine} {c}, F m.field → P m.field c → Returns (m.turn c).result →
    P (m.turn c).machine.field (m.turn c).cursor

/-- The playfield and all cursors of the machine's own list have the properties. -/
structure Holds (F : Playfield → Prop) (P : Playfield → Cursor → Prop) (m : Machine) : Prop where
  field : F m.field
  cursors : ∀ c ∈ m.cursors, P m.field c

namespace Invariant

variable {F : Playfield → Prop} {P : Playfield → Cursor → Prop} {m n : Machine} {c : Cursor}
  {cs rest : List Cursor}

theorem turn (h : Invariant F P) (hm : m.Holds F P) (hc : P m.field c) :
    (m.turn c).machine.Holds F P := by
  refine ⟨h.field hm.field hc, fun d hd => h.others hm.field hc ?_⟩
  rcases turn_cursors m c with hsame | ⟨_, q, hq, hborn⟩
  · rw [hsame] at hd
    exact hm.cursors d hd
  · rw [hborn] at hd
    rcases List.mem_cons.mp hd with rfl | hd
    · exact h.newborn hm.field hc hq
    · exact hm.cursors d hd

/-- From one turn to the next, also for the cursors that wait or have had their turn. -/
theorem turns (h : Invariant F P) (hm : m.Holds F P) (hcs : ∀ c ∈ cs, P m.field c) :
    (m.turns cs).2.2.Holds F P ∧ (∀ d, P m.field d → P (m.turns cs).2.2.field d) ∧
      (Returns (m.turns cs).1 → ∀ c ∈ (m.turns cs).2.1, P (m.turns cs).2.2.field c) := by
  induction cs generalizing m with
  | nil => exact ⟨hm, fun d hd => hd, fun _ c hc => nomatch hc⟩
  | cons c cs ih =>
    have hc := hcs c (List.mem_cons_self ..)
    have hothers : ∀ d, P m.field d → P (m.turn c).machine.field d :=
      fun d hd => h.others hm.field hc hd
    have hcs' : ∀ d ∈ cs, P (m.turn c).machine.field d :=
      fun d hd => hothers d (hcs d (List.mem_cons_of_mem _ hd))
    have hself := h.self hm.field hc
    cases hres : (m.turn c).result with
    | error s =>
      rw [turns_cons_error m hres]
      rw [hres] at hself
      refine ⟨h.turn hm hc, hothers, fun hret d hd => ?_⟩
      rcases List.mem_cons.mp hd with rfl | hd
      · exact hself hret
      · exact hcs' d hd
    | ok u =>
      rw [turns_cons_ok m hres]
      rw [hres] at hself
      obtain ⟨hlast, hkept, hafter⟩ := ih (h.turn hm hc) hcs'
      refine ⟨hlast, fun d hd => hkept d (hothers d hd), fun hret d hd => ?_⟩
      rcases List.mem_cons.mp hd with rfl | hd
      · exact hkept _ (hself trivial)
      · exact hafter hret d hd

theorem tick (h : Invariant F P) (hm : m.Holds F P) (hret : Returns m.tick.1) :
    m.tick.2.Holds F P := by
  have hopened : m.opened.Holds F P := ⟨hm.field, fun c hc => nomatch hc⟩
  obtain ⟨hlast, _, hafter⟩ := h.turns hopened hm.cursors
  refine ⟨hlast.field, fun c hc => ?_⟩
  rcases ((mem_close_cursors _).mp hc).1 with hborn | hold
  · exact hlast.cursors c hborn
  · exact hafter hret c hold

theorem reaches (h : Invariant F P) (hm : m.Holds F P) (hn : m.Reaches n) : n.Holds F P := by
  induction hn with
  | start => exact hm
  | tick _ hret ih => exact h.tick ih hret

/-- When the turn of a cursor begins, the turns before it have kept what it needs. -/
theorem begins (h : Invariant F P) (hbegins : TurnBegins m cs c n rest) (hm : m.Holds F P)
    (hcs : ∀ d ∈ cs, P m.field d) : n.Holds F P ∧ P n.field c := by
  induction hbegins with
  | head m c rest => exact ⟨hm, hcs c (List.mem_cons_self ..)⟩
  | @tail m _ b _ _ _ _ _ ih =>
    have hb := hcs b (List.mem_cons_self ..)
    apply ih
    · exact h.turn hm hb
    · intro d hd
      exact h.others hm.field hb (hcs d (List.mem_cons_of_mem _ hd))

end Invariant

end Funge.Machine
