import Funge.Proofs.Simulation
import Funge.Proofs.Truncation

/-!
Steps and runs. Ticks can be made in parts, of which the later are left out once one has failed. A
plain run makes the ticks that steps make, up to the end of the program or its first failure, and
then ends the line if it has not failed; what it reports beside that no cursor can see.
-/

namespace Funge.Machine

open Text

variable {m : Machine}

/-! ## Steps -/

theorem step_of_finished (h : m.isFinished = true) (k : Nat) : m.step k = (.ok (), m) := by
  cases k with
  | zero => rfl
  | succ k => rw [step, if_pos h]

theorem step_of_live (h : m.isFinished = false) (k : Nat) :
    m.step (k + 1) =
      match m.tick with
      | (.ok (), n) => n.step k
      | (.error s, n) => (.error s, n) := by
  rw [step, h]
  rfl

theorem step_add (m : Machine) (j k : Nat) :
    m.step (j + k) =
      match m.step j with
      | (.ok (), n) => n.step k
      | (.error s, n) => (.error s, n) := by
  induction j generalizing m with
  | zero => rw [Nat.zero_add, step]
  | succ j ih =>
    cases hfinished : m.isFinished with
    | true => simp only [step_of_finished hfinished]
    | false =>
      rw [Nat.succ_add, step_of_live hfinished, step_of_live hfinished]
      rcases m.tick with ⟨_ | _, n⟩
      · rfl
      · exact ih n

/-- The program has failed or is finished, so that no tick would follow. -/
def Settled (p : Except Stop Unit × Machine) : Prop := p.1 = .ok () → p.2.isFinished = true

instance (p : Except Stop Unit × Machine) : Decidable (Settled p) :=
  inferInstanceAs (Decidable (_ → _))

theorem step_of_settled {j k : Nat} (h : Settled (m.step j)) (hle : j ≤ k) :
    m.step k = m.step j := by
  obtain ⟨i, rfl⟩ := Nat.exists_eq_add_of_le hle
  rw [step_add]
  rcases hj : m.step j with ⟨_ | _, n⟩
  · rfl
  · rw [hj] at h
    exact step_of_finished (h rfl) i

/-- Of the ticks asked for, some number `n` is made. -/
theorem exists_step_eq_after (m : Machine) (k : Nat) :
    ∃ n, n ≤ k ∧ (m.step k).2 = m.after n ∧ m.step n = m.step k := by
  induction k generalizing m with
  | zero => exact ⟨0, Nat.le_refl 0, rfl, rfl⟩
  | succ k ih =>
    cases hfinished : m.isFinished with
    | true =>
      rw [step_of_finished hfinished]
      exact ⟨0, Nat.zero_le _, rfl, rfl⟩
    | false =>
      have hstep := step_of_live hfinished
      have hafter : ∀ i, m.after (1 + i) = m.tick.2.after i := after_add m 1
      rcases htick : m.tick with ⟨_ | _, m'⟩
      · refine ⟨1, by omega, ?_, ?_⟩
        · rw [hstep, htick, show m.after 1 = m.tick.2 from rfl, htick]
        · rw [hstep, hstep, htick]
      · obtain ⟨n, hn, hmachine, hsame⟩ := ih m'
        refine ⟨1 + n, by omega, ?_, ?_⟩
        · rw [hstep, hafter, htick]
          exact hmachine
        · rw [Nat.add_comm, hstep, hstep, htick]
          exact hsame

theorem step_settings (m : Machine) (k : Nat) : (m.step k).2.settings = m.settings := by
  obtain ⟨n, _, hmachine, _⟩ := exists_step_eq_after m k
  rw [hmachine, after_settings]

theorem step_room (h : m.console.room = none) (k : Nat) : (m.step k).2.console.room = none := by
  obtain ⟨_, _, htruncates⟩ := step_truncating k m 0 _ rfl
  have hroom := htruncates.grows.1
  rwa [withRoom_of_room h] at hroom

/-! ## Reports -/

/-- The same machine up to what has been reported. -/
def SameButReports (m n : Machine) : Prop := n = { m with journal := n.journal }

theorem sameButReports_perform {m n : Machine} (h : m.SameButReports n) (c : Cursor) (l : Position)
    (e : Effect) : (m.perform c l e).Agrees SameButReports Eq Eq (n.perform c l e) := by
  obtain ⟨reports, rfl⟩ : ∃ reports, n = { m with journal := reports } := ⟨_, h⟩
  cases e with
  | none | goRandom => exact ⟨rfl, rfl, trivial⟩
  | print text =>
    simp only [perform, print, write]
    split
    · exact ⟨rfl, rfl, trivial⟩
    · split
      · exact ⟨rfl, rfl, trivial⟩
      · exact ⟨rfl, rfl, rfl⟩
  | readInteger | readCharacter =>
    simp only [perform, received]
    split
    · exact ⟨rfl, rfl, trivial⟩
    · exact ⟨rfl, rfl, rfl⟩
  | put x y value =>
    simp only [perform, put]
    split
    · exact ⟨rfl, rfl, trivial⟩
    · split
      · exact ⟨rfl, rfl, trivial⟩
      · exact ⟨rfl, rfl, rfl⟩
  | fork =>
    simp only [perform, fork]
    split
    · exact ⟨rfl, rfl, rfl⟩
    · exact ⟨rfl, rfl, trivial⟩

theorem sameButReports_simulation : Simulation SameButReports Eq Eq where
  cursors h := by
    rw [h]
    exact List.forall₂_refl _
  opened h := by
    rw [h]
    rfl
  turn := by
    rintro m n c _ h rfl
    exact turn_agrees_of_perform (fun h => by rw [h]) sameButReports_perform h c
  close := by
    intro m n cs ds h hcs
    rw [List.forall₂_eq_eq_eq] at hcs
    subst hcs
    rw [h]
    rfl

theorem announce_step (m : Machine) (k : Nat) :
    (m.announce.step k).1 = (m.step k).1 ∧
      (m.step k).2.SameButReports (m.announce.step k).2 := by
  have hannounce : m.SameButReports m.announce := rfl
  obtain ⟨hresult, hafter⟩ := sameButReports_simulation.step hannounce k
  exact ⟨hresult.eq.symm, hafter⟩

theorem settled_announce_iff (m : Machine) (k : Nat) :
    Settled (m.announce.step k) ↔ Settled (m.step k) := by
  obtain ⟨hresult, hafter⟩ := announce_step m k
  rw [Settled, Settled, hresult, sameButReports_simulation.isFinished hafter]

/-! ## Runs -/

theorem rounds_eq_some_iff (hplain : m.settings.showSteps = false) {fuel : Nat}
    {q : Except Stop Unit × Machine} :
    m.rounds fuel = some q ↔ m.step fuel = q ∧ Settled q := by
  -- wherever the rounds end, no tick would follow
  have hends : ∀ p : Except Stop Unit × Machine, Settled p →
      (some p = some q ↔ p = q ∧ Settled q) := by
    intro p hp
    rw [Option.some.injEq]
    exact ⟨fun h => ⟨h, h ▸ hp⟩, fun h => h.1⟩
  induction fuel generalizing m with
  | zero =>
    rw [rounds, step]
    split
    · next hfinished => exact hends _ fun _ => hfinished
    · next hlive =>
      constructor
      · intro h
        cases h
      · rintro ⟨rfl, hsettled⟩
        exact absurd (hsettled rfl) hlive
  | succ fuel ih =>
    have hplain' : m.tick.2.settings.showSteps = false := by
      rw [tick_settings, hplain]
    rw [rounds, step, round_of_plain hplain]
    split
    · next hfinished => exact hends _ fun _ => hfinished
    · rcases htick : m.tick with ⟨_ | _, n⟩
      · apply hends
        intro hok
        cases hok
      · rw [htick] at hplain'
        exact ih hplain'

/-- The machine with the line end that closes a run, unless the program has failed. -/
def closed (m : Machine) : Except Stop Unit → Machine
  | .ok () => { m with console :=
      { m.console with output := m.console.output ++ Utf8.encode "\n" } }
  | .error _ => m

theorem SameButReports.finish {n : Machine} (h : m.SameButReports n)
    (hplain : m.settings.showSteps = false) (hroom : m.console.room = none) :
    ∃ n', n.finish = (.ok (), n') ∧ (m.closed (.ok ())).SameButReports n' := by
  obtain ⟨reports, rfl⟩ : ∃ reports, n = { m with journal := reports } := ⟨_, h⟩
  exact ⟨_, finish_of_showFrame (showFrame_of_plain hplain) hroom, rfl⟩

/-- A run that returns has made the steps of the program up to its end and has closed. -/
theorem run_eq_some {fuel : Nat} {r : Except Stop Unit} {m' : Machine}
    (hplain : m.settings.showSteps = false) (hroom : m.console.room = none)
    (h : m.run fuel = some (r, m')) :
    Settled (m.step fuel) ∧ (m.step fuel).1 = r ∧
      ((m.step fuel).2.closed r).SameButReports m' := by
  obtain ⟨hresult, hafter⟩ := announce_step m fuel
  have hplain' : (m.step fuel).2.settings.showSteps = false := by
    rw [step_settings, hplain]
  cases hrounds : m.announce.rounds fuel with
  | none => simp [run, hrounds] at h
  | some q =>
    obtain ⟨hstep, hsettled⟩ := (rounds_eq_some_iff (m := m.announce) hplain).mp hrounds
    rw [← hstep, settled_announce_iff] at hsettled
    rw [hstep] at hresult hafter
    obtain ⟨_ | _, n⟩ := q
    · simp only [run, hrounds, Option.some.injEq, Prod.mk.injEq] at h
      obtain ⟨rfl, rfl⟩ := h
      exact ⟨hsettled, hresult.symm, hafter⟩
    · obtain ⟨n', hfinish, hclosed⟩ := hafter.finish hplain' (step_room hroom fuel)
      simp only [run, hrounds, hfinish, Option.some.injEq, Prod.mk.injEq] at h
      obtain ⟨rfl, rfl⟩ := h
      exact ⟨hsettled, hresult.symm, hclosed⟩

theorem run_eq_none_iff (hplain : m.settings.showSteps = false) (fuel : Nat) :
    m.run fuel = none ↔ ¬ Settled (m.step fuel) := by
  have hrounds : m.run fuel = none ↔ m.announce.rounds fuel = none := by
    rw [run]
    rcases m.announce.rounds fuel with _ | ⟨_ | _, _⟩ <;> simp
  rw [hrounds, ← settled_announce_iff, Option.eq_none_iff_forall_ne_some]
  simp only [ne_eq, rounds_eq_some_iff (m := m.announce) hplain, not_and]
  exact ⟨fun h => h _ rfl, fun h p hp => hp ▸ h⟩

/-- **Runs and steps agree.** A plain run over an output without limit returns within a number of
ticks just if as many steps end the program or make it fail. If it returns after a number of ticks,
`made`, then that many steps or more have the same result and leave the machine that those ticks
leave; the run leaves the same one up to its reports, with a line end on the output if it has not
failed. And on every machine steps can be made in two parts, of which the second is left out if the
first fails. -/
theorem run_agrees_with_step (m : Machine) :
    (m.settings.showSteps = false → m.console.room = none → ∀ fuel,
      (m.run fuel = none ↔ ¬ Settled (m.step fuel)) ∧
      ∀ r m', m.run fuel = some (r, m') →
        ∃ made, made ≤ fuel ∧ m'.ticks = m.ticks + made ∧
          ∀ k, made ≤ k → (m.step k).1 = r ∧ (m.step k).2 = m.after made ∧
            ((m.step k).2.closed r).SameButReports m') ∧
    ∀ j k, m.step (j + k) =
      match m.step j with
      | (.ok (), n) => n.step k
      | (.error s, n) => (.error s, n) := by
  refine ⟨fun hplain hroom fuel => ⟨run_eq_none_iff hplain fuel, ?_⟩, step_add m⟩
  intro r m' hrun
  obtain ⟨hsettled, hresult, hmachine⟩ := run_eq_some hplain hroom hrun
  obtain ⟨made, hmade, hafter, hsame⟩ := exists_step_eq_after m fuel
  refine ⟨made, hmade, ?_, ?_⟩
  · have hticks : m'.ticks = (m.step fuel).2.ticks := by
      rw [hmachine]
      cases r <;> rfl
    rw [hticks, hafter, after_ticks]
  · intro k hk
    -- after the last tick that was made the program is settled, so nothing follows
    rw [step_of_settled (hsame ▸ hsettled) hk, hsame]
    exact ⟨hresult, hafter, hmachine⟩

/-- Prints a digit and divides by zero. -/
def digitAndDivision : Playfield := ⟨[[.char '7', .char '.', .char '0', .char '/']]⟩

/-- One run ends after three ticks and the other fails in its fourth; seven steps come to the same,
but for the line end of the first. -/
theorem run_agrees_with_step_digits :
    (∃ m', (start digitPrinter {} {} 0).run 9 = some (.ok (), m') ∧ m'.ticks = 3 ∧
      ((start digitPrinter {} {} 0).step 7).1 = .ok () ∧
      m'.console.output =
        ((start digitPrinter {} {} 0).step 7).2.console.output ++ Utf8.encode "\n") ∧
    (∃ m', (start digitAndDivision {} {} 0).run 9 =
        some (.error (.fault (.divisionByZero 0 ⟨3, 0⟩)), m') ∧ m'.ticks = 4 ∧
      ((start digitAndDivision {} {} 0).step 7).1 = .error (.fault (.divisionByZero 0 ⟨3, 0⟩)) ∧
      m'.console.output = ((start digitAndDivision {} {} 0).step 7).2.console.output) ∧
    (start digitPrinter {} {} 0).run 2 = none := by
  have hreturns : ∀ f r n, n ≤ 7 →
      ((start f {} {} 0).run 9).map (fun p => (p.1, p.2.ticks)) = some (r, n) →
      ∃ m', (start f {} {} 0).run 9 = some (r, m') ∧ m'.ticks = n ∧
        ((start f {} {} 0).step 7).1 = r ∧
        m'.console.output = (((start f {} {} 0).step 7).2.closed r).console.output := by
    intro f r n hn hmap
    obtain ⟨⟨_, m'⟩, hrun, hpair⟩ := Option.map_eq_some_iff.mp hmap
    obtain ⟨rfl, rfl⟩ := Prod.mk.inj hpair
    obtain ⟨k, _, hticks, hsteps⟩ := ((run_agrees_with_step _).1 rfl rfl 9).2 _ _ hrun
    have hmade : m'.ticks = k := hticks.trans (Nat.zero_add k)
    obtain ⟨hresult, _, hclosed⟩ := hsteps 7 (hmade ▸ hn)
    exact ⟨m', hrun, rfl, hresult, by rw [hclosed]⟩
  refine ⟨hreturns digitPrinter _ _ (by decide) (by decide +kernel),
    hreturns digitAndDivision _ _ (by decide) (by decide +kernel), ?_⟩
  exact ((run_agrees_with_step (start digitPrinter {} {} 0)).1 rfl rfl 2).1.mpr (by decide +kernel)

end Funge.Machine
