import Funge.Proofs.Progress

/-!
A full output only truncates. A machine whose output takes a limited number of bytes goes in
step with one whose output takes them all, up to the first write that does not fit; that write
stores what fits and ends everything with the same fault. Actions that behave so can be done
one after the other, and with that the property passes from single writes to turns, ticks and
whole runs.
-/

namespace Funge

open Text

/-- What an action comes to: its result, what it gives, and the machine it leaves. -/
structure Outcome (α : Type) where
  result : Except Stop Unit
  value : α
  machine : Machine

def Turn.outcome (t : Turn) : Outcome Cursor := ⟨t.result, t.cursor, t.machine⟩

/-- The outcome of an action that gives nothing. -/
def Outcome.ofPair (p : Except Stop Unit × Machine) : Outcome Unit := ⟨p.1, (), p.2⟩

/-- What the write that finds the output full ends with. -/
def Stop.full : Stop := .fault (.console .full)

namespace Machine

/-- The machine with room for this many more bytes on its output. -/
def withRoom (m : Machine) (room : Option Nat) : Machine :=
  { m with console := { m.console with room := room } }

@[simp] theorem withRoom_field (m : Machine) (room : Option Nat) :
    (m.withRoom room).field = m.field := rfl

theorem withRoom_of_room {m : Machine} {room : Option Nat} (h : m.console.room = room) :
    m.withRoom room = m := by
  subst h
  rfl

end Machine

open Machine

variable {α β : Type} {base added : Array UInt8} {limit : Nat}

/-- The outcome `whole` has no limit on its output and adds bytes to `base`. With room for
`limit` bytes the outcome is the same if they fit; otherwise the output has those that fit, and
is full. -/
inductive Truncates (base : Array UInt8) (limit : Nat) (whole : Outcome α) : Outcome α → Prop
  | fits (added : Array UInt8) :
    whole.machine.console.room = none → whole.machine.console.output = base ++ added →
      added.size ≤ limit →
      Truncates base limit whole
        { whole with machine := whole.machine.withRoom (some (limit - added.size)) }
  | exceeds (added : Array UInt8) (cut : Outcome α) :
    whole.machine.console.room = none → whole.machine.console.output = base ++ added →
      limit < added.size → cut.result = .error .full →
      cut.machine.console.output = base ++ added.take limit → Truncates base limit whole cut

namespace Truncates

variable {whole cut : Outcome α}

theorem grows (h : Truncates base limit whole cut) :
    whole.machine.console.room = none ∧
      ∃ added, whole.machine.console.output = base ++ added := by
  cases h with
  | fits added hroom hadded _ => exact ⟨hroom, added, hadded⟩
  | exceeds added _ hroom hadded _ _ _ => exact ⟨hroom, added, hadded⟩

/-- What is written after bytes that fit has the room that they leave. -/
theorem after_fitting (hadded : added.size ≤ limit)
    (h : Truncates (base ++ added) (limit - added.size) whole cut) :
    Truncates base limit whole cut := by
  cases h with
  | fits more hroom hmore hfits =>
    rw [Array.append_assoc] at hmore
    have hsize : (added ++ more).size ≤ limit := by
      rw [Array.size_append]
      omega
    have hleft : limit - added.size - more.size = limit - (added ++ more).size := by
      rw [Array.size_append]
      omega
    rw [hleft]
    exact .fits (added ++ more) hroom hmore hsize
  | exceeds more cut hroom hmore hexceeds hresult houtput =>
    rw [Array.append_assoc] at hmore houtput
    have hsize : limit < (added ++ more).size := by
      rw [Array.size_append]
      omega
    have htake : (added ++ more).take limit = added ++ more.take (limit - added.size) := by
      simp only [Array.take_eq_extract, Array.extract_append,
        Array.extract_eq_self_of_le hadded, Nat.zero_sub]
    exact .exceeds (added ++ more) cut hroom hmore hsize hresult (htake ▸ houtput)

/-- An output that is full already takes nothing of what would have been written later. -/
theorem after_exceeding (hadded : limit < added.size) (hresult : cut.result = .error .full)
    (houtput : cut.machine.console.output = base ++ added.take limit)
    (hroom : whole.machine.console.room = none) {more : Array UInt8}
    (hmore : whole.machine.console.output = base ++ added ++ more) :
    Truncates base limit whole cut := by
  rw [Array.append_assoc] at hmore
  have hsize : limit < (added ++ more).size := by
    rw [Array.size_append]
    omega
  have htake : (added ++ more).take limit = added.take limit := by
    have hnone : limit - added.size = 0 := by omega
    simp only [Array.take_eq_extract, Array.extract_append, hnone, Nat.zero_sub,
      Array.extract_zero, Array.append_empty]
  exact .exceeds (added ++ more) cut hroom hmore hsize hresult (htake.symm ▸ houtput)

end Truncates

/-- Whatever the machine, a limit on its output truncates the action. The action may have no
outcome at all. -/
def Truncating (act : Machine → Option (Outcome α)) : Prop :=
  ∀ (m : Machine) (limit : Nat) (whole : Outcome α), act (m.withRoom none) = some whole →
    ∃ cut, act (m.withRoom (some limit)) = some cut ∧
      Truncates m.console.output limit whole cut

/-- The action does not look at the room on the output and writes nothing. -/
structure Silent (act : Machine → Outcome α) : Prop where
  room : ∀ m room, act (m.withRoom room) =
    { act m with machine := (act m).machine.withRoom room }
  output : ∀ m, (act m).machine.console.output = m.console.output

theorem Silent.truncating {act : Machine → Outcome α} (h : Silent act) :
    Truncating fun m => some (act m) := by
  intro m limit whole hwhole
  refine ⟨_, rfl, ?_⟩
  rw [← Option.some.inj hwhole, h.room m none, h.room m (some limit)]
  refine .fits #[] rfl ?_ (Nat.zero_le limit)
  rw [Array.append_empty]
  exact h.output m

/-- An action may do different things on different machines, as long as the room on the output
is not what they differ in. -/
theorem truncating_of_agrees {act : Machine → Option (Outcome α)}
    (h : ∀ m : Machine, ∃ act', Truncating act' ∧
      ∀ room, act (m.withRoom room) = act' (m.withRoom room)) : Truncating act := by
  intro m limit whole hwhole
  obtain ⟨act', hact', hagrees⟩ := h m
  rw [hagrees] at hwhole ⊢
  exact hact' m limit whole hwhole

theorem truncating_idle (result : Except Stop Unit) (a : α) :
    Truncating fun m => some ⟨result, a, m⟩ :=
  Silent.truncating ⟨fun _ _ => rfl, fun _ => rfl⟩

/-- Does an action and, if it succeeds, another that depends on what the first has given. -/
def andThen (act : Machine → Option (Outcome α)) (failed : α → β)
    (next : α → Machine → Option (Outcome β)) (m : Machine) : Option (Outcome β) :=
  match act m with
  | none => none
  | some ⟨.error s, a, n⟩ => some ⟨.error s, failed a, n⟩
  | some ⟨.ok (), a, n⟩ => next a n

section andThen

variable {act : Machine → Option (Outcome α)} {failed : α → β}
  {next : α → Machine → Option (Outcome β)}

theorem andThen_of_error {m : Machine} {t : Outcome α} {s : Stop} (h : act m = some t)
    (hs : t.result = .error s) :
    andThen act failed next m = some ⟨.error s, failed t.value, t.machine⟩ := by
  obtain ⟨_, a, n⟩ := t
  cases hs
  simp only [andThen, h]

theorem andThen_of_ok {m : Machine} {t : Outcome α} (h : act m = some t)
    (hok : t.result = .ok ()) : andThen act failed next m = next t.value t.machine := by
  obtain ⟨_, a, n⟩ := t
  cases hok
  simp only [andThen, h]

theorem andThen_ofPair (act : Machine → Except Stop Unit × Machine)
    (next : Machine → Option (Outcome Unit)) (m : Machine) :
    andThen (fun m => some (.ofPair (act m))) id (fun _ => next) m =
      match act m with
      | (.ok (), n) => next n
      | (.error s, n) => some (.ofPair (.error s, n)) := by
  simp only [andThen, Outcome.ofPair]
  rcases act m with ⟨_ | _, _⟩ <;> rfl

theorem Truncating.andThen (hact : Truncating act) (failed : α → β)
    (hnext : ∀ a, Truncating (next a)) : Truncating (andThen act failed next) := by
  intro m limit whole hwhole
  cases hfirst : act (m.withRoom none) with
  | none => simp [Funge.andThen, hfirst] at hwhole
  | some first =>
    obtain ⟨cut, hcut, htruncates⟩ := hact m limit first hfirst
    cases hresult : first.result with
    | error s =>
      rw [andThen_of_error hfirst hresult] at hwhole
      cases hwhole
      cases htruncates with
      | fits added hroom hadded hfits =>
        exact ⟨_, andThen_of_error hcut hresult, .fits added hroom hadded hfits⟩
      | exceeds added _ hroom hadded hexceeds hfull houtput =>
        exact ⟨_, andThen_of_error hcut hfull,
          .exceeds added _ hroom hadded hexceeds rfl houtput⟩
    | ok u =>
      rw [andThen_of_ok hfirst hresult] at hwhole
      have hroom := htruncates.grows.1
      rw [← withRoom_of_room hroom] at hwhole
      cases htruncates with
      | fits added _ hadded hfits =>
        obtain ⟨last, hlast, hrest⟩ := hnext _ _ (limit - added.size) whole hwhole
        rw [hadded] at hrest
        exact ⟨last, (andThen_of_ok hcut hresult).trans hlast, hrest.after_fitting hfits⟩
      | exceeds added _ _ hadded hexceeds hfull houtput =>
        -- what the unlimited machine does next only adds to its output
        obtain ⟨_, _, hrest⟩ := hnext _ _ 0 whole hwhole
        obtain ⟨hroom', more, hmore⟩ := hrest.grows
        rw [hadded] at hmore
        exact ⟨_, andThen_of_error hcut hfull,
          .after_exceeding hexceeds rfl houtput hroom' hmore⟩

end andThen

/-- What is done in the end, whatever the result. -/
theorem Truncating.ending {act : Machine → Outcome α} (hact : Truncating fun m => some (act m))
    (give : α → β) (close : Machine → α → Machine)
    (hroom : ∀ m a room, close (m.withRoom room) a = (close m a).withRoom room)
    (houtput : ∀ m a, (close m a).console.output = m.console.output) :
    Truncating fun m =>
      some ⟨(act m).result, give (act m).value, close (act m).machine (act m).value⟩ := by
  intro m limit whole hwhole
  cases hwhole
  have hkept : ∀ {n : Machine} {a : α}, n.console.room = none →
      (close n a).console.room = none := by
    intro n a hn
    rw [← withRoom_of_room hn, hroom]
    rfl
  obtain ⟨cut, hcut, htruncates⟩ := hact m limit _ rfl
  refine ⟨_, rfl, ?_⟩
  rw [Option.some.inj hcut]
  cases htruncates with
  | fits added hnone hadded hfits =>
    simp only [hroom]
    exact .fits added (hkept hnone) ((houtput _ _).trans hadded) hfits
  | exceeds added _ hnone hadded hexceeds hfull hstored =>
    exact .exceeds added _ (hkept hnone) ((houtput _ _).trans hadded) hexceeds hfull
      ((houtput _ _).trans hstored)

namespace Machine

/-! ## Turns -/

theorem write_truncating (text : String) (a : α) :
    Truncating fun m => some ⟨(m.write text).1, a, (m.write text).2⟩ := by
  intro m limit whole hwhole
  simp only [write_of_room (m := m.withRoom none) rfl, Option.some.injEq] at hwhole
  subst hwhole
  refine ⟨_, rfl, ?_⟩
  rcases Nat.lt_or_ge limit (Utf8.encode text).size with hexceeds | hfits
  · have hwrite := Console.write_of_exceeds (k := (m.withRoom (some limit)).console) rfl hexceeds
    simp only [write, hwrite]
    exact .exceeds (Utf8.encode text) _ rfl rfl hexceeds rfl rfl
  · have hwrite := Console.write_of_fits (k := (m.withRoom (some limit)).console) rfl hfits
    simp only [write, hwrite]
    exact .fits (Utf8.encode text) rfl rfl hfits

theorem print_truncating (text : String) (a : α) :
    Truncating fun m => some ⟨(m.print text).1, a, (m.print text).2⟩ := by
  apply truncating_of_agrees
  intro m
  cases hplain : m.settings.showSteps with
  | false =>
    refine ⟨_, write_truncating text a, ?_⟩
    intro room
    rw [print_of_plain (m := m.withRoom room) hplain]
  | true =>
    refine ⟨fun m => some ⟨.ok (), a, { m with transcript := m.transcript ++ text }⟩,
      Silent.truncating ⟨fun _ _ => rfl, fun _ => rfl⟩, ?_⟩
    intro room
    rw [print_of_tracing (m := m.withRoom room) hplain]

/-- A read sees the input only. -/
theorem received_truncating (c : Cursor) {read : Console → Console.Reading}
    (hread : ∀ k, read k = (read k.bare).over k) :
    Truncating fun m => some (m.received c (read m.console)).outcome := by
  apply Silent.truncating
  constructor
  · intro m room
    rw [hread m.console, hread (m.withRoom room).console]
    simp only [received, show (m.withRoom room).console.bare = m.console.bare from rfl,
      Console.Reading.over]
    cases (read m.console.bare).value <;> rfl
  · intro m
    rw [hread m.console]
    simp only [received, Console.Reading.over]
    cases (read m.console.bare).value <;> rfl

theorem put_silent (c : Cursor) (x y value : Int64) (l : Position) :
    Silent fun m => (m.perform c l (.put x y value)).outcome := by
  constructor
  · intro m room
    simp only [perform, put, withRoom_field]
    split
    · rfl
    · split <;> rfl
  · intro m
    simp only [perform, put]
    split
    · rfl
    · split <;> rfl

theorem fork_silent (c : Cursor) (l : Position) :
    Silent fun m => (m.perform c l .fork).outcome := by
  constructor
  · intro m room
    simp only [perform, fork, withRoom_field]
    split <;> rfl
  · intro m
    simp only [perform, fork]
    split <;> rfl

theorem perform_truncating (c : Cursor) (l : Position) (e : Effect) :
    Truncating fun m => some (m.perform c l e).outcome := by
  cases e with
  | none => exact truncating_idle _ _
  | print text => exact print_truncating text c
  | readInteger => exact received_truncating c Console.readInteger_bare
  | readCharacter => exact received_truncating c Console.readCharacter_bare
  | put x y value => exact (put_silent c x y value l).truncating
  | fork => exact (fork_silent c l).truncating
  | goRandom => exact Silent.truncating ⟨fun _ _ => rfl, fun _ => rfl⟩

theorem execute_truncating (c : Cursor) (i : Instruction) :
    Truncating fun m => some (m.execute c i).outcome := by
  apply truncating_of_agrees
  intro m
  cases hact : (c.act m.field i).2 with
  | error s =>
    refine ⟨_, truncating_idle (.error s) (c.act m.field i).1, ?_⟩
    intro room
    rw [execute_error (m.withRoom room) c hact]
    rfl
  | ok e =>
    refine ⟨_, perform_truncating (c.act m.field i).1 c.position e, ?_⟩
    intro room
    rw [execute_ok (m.withRoom room) c hact]
    rfl

theorem meet_truncating (c : Cursor) (cell : Cell) :
    Truncating fun m => some (m.meet c cell).outcome := by
  unfold meet
  split
  · split <;> exact truncating_idle _ _
  · split
    · exact execute_truncating c _
    · exact truncating_idle _ _

/-- The move at the end of a turn. -/
def moving (c : Cursor) (m : Machine) : Option (Outcome Cursor) :=
  match c.stride m.field with
  | .ok d => some ⟨.ok (), d, m⟩
  | .error s => some ⟨.error s, c, m⟩

/-- The move sees the playfield only. -/
theorem moving_truncating (c : Cursor) : Truncating (moving c) := by
  apply truncating_of_agrees
  intro m
  cases hstride : c.stride m.field with
  | ok d => exact ⟨_, truncating_idle (.ok ()) d, by simp [moving, hstride]⟩
  | error s => exact ⟨_, truncating_idle (.error s) c, by simp [moving, hstride]⟩

theorem turn_eq_andThen {c : Cursor} (hlive : c.mode ≠ .terminated) :
    (fun m : Machine => some (m.turn c).outcome) =
      andThen (fun m => some (m.met c).outcome) id moving := by
  funext m
  rw [turn_of_live m c hlive]
  cases hres : (m.met c).result with
  | error s =>
    rw [andThen_of_error rfl hres]
    simp only [Turn.outcome, hres]
    rfl
  | ok u =>
    rw [andThen_of_ok rfl hres]
    simp only [Turn.outcome, moving, hres]
    split <;> simp [*]

theorem turn_truncating (c : Cursor) : Truncating fun m => some (m.turn c).outcome := by
  by_cases hterm : c.mode = .terminated
  · have hidle : (fun m : Machine => some (m.turn c).outcome) =
        fun m => some ⟨.ok (), m.seen c, m⟩ := by
      funext m
      rw [turn_of_terminated m c hterm]
      rfl
    rw [hidle]
    exact Silent.truncating ⟨fun _ _ => rfl, fun _ => rfl⟩
  · have hmet : Truncating fun m => some (m.met c).outcome := by
      apply truncating_of_agrees
      intro m
      exact ⟨_, meet_truncating (m.seen c) (m.field.read c.position), fun _ => rfl⟩
    rw [turn_eq_andThen hterm]
    exact hmet.andThen id moving_truncating

/-! ## Ticks -/

theorem turns_truncating (cs : List Cursor) :
    Truncating fun m => some ⟨(m.turns cs).1, (m.turns cs).2.1, (m.turns cs).2.2⟩ := by
  induction cs with
  | nil => exact truncating_idle (.ok ()) []
  | cons c rest ih =>
    have hturns : (fun m : Machine => some (⟨(m.turns (c :: rest)).1, (m.turns (c :: rest)).2.1,
          (m.turns (c :: rest)).2.2⟩ : Outcome (List Cursor))) =
        andThen (fun m => some (m.turn c).outcome) (· :: rest) fun d n =>
          some ⟨(n.turns rest).1, d :: (n.turns rest).2.1, (n.turns rest).2.2⟩ := by
      funext m
      cases hres : (m.turn c).result with
      | error s =>
        rw [turns_cons_error m hres, andThen_of_error rfl hres]
        rfl
      | ok u =>
        rw [turns_cons_ok m hres, andThen_of_ok rfl hres]
        rfl
    rw [hturns]
    exact (turn_truncating c).andThen _ fun d =>
      ih.ending (d :: ·) (fun n _ => n) (fun _ _ _ => rfl) fun _ _ => rfl

theorem tick_truncating : Truncating fun m => some (.ofPair m.tick) := by
  have hopened : Truncating fun m => some ⟨.ok (), m.cursors, m.opened⟩ :=
    Silent.truncating ⟨fun _ _ => rfl, fun _ => rfl⟩
  have hturns : Truncating fun m : Machine =>
      some ⟨(m.opened.turns m.cursors).1, (m.opened.turns m.cursors).2.1,
        (m.opened.turns m.cursors).2.2⟩ :=
    hopened.andThen id turns_truncating
  exact hturns.ending (fun _ => ()) close (fun _ _ _ => rfl) fun _ _ => rfl

/-- An action that is left out on a finished machine. -/
theorem truncating_unless_finished {act : Machine → Option (Outcome Unit)} (hact : Truncating act) :
    Truncating fun m => if m.isFinished then some ⟨.ok (), (), m⟩ else act m := by
  apply truncating_of_agrees
  intro m
  cases hfin : m.isFinished with
  | true =>
    refine ⟨_, truncating_idle (.ok ()) (), ?_⟩
    intro room
    rw [show (m.withRoom room).isFinished = true from hfin]
    rfl
  | false =>
    refine ⟨_, hact, ?_⟩
    intro room
    rw [show (m.withRoom room).isFinished = false from hfin]
    rfl

theorem step_truncating (n : Nat) : Truncating fun m => some (.ofPair (m.step n)) := by
  induction n with
  | zero => exact truncating_idle (.ok ()) ()
  | succ n ih =>
    have hstep : (fun m : Machine => some (Outcome.ofPair (m.step (n + 1)))) = fun m =>
        if m.isFinished then some ⟨.ok (), (), m⟩
        else andThen (fun m => some (.ofPair m.tick)) id
          (fun _ m => some (.ofPair (m.step n))) m := by
      funext m
      rw [step, andThen_ofPair]
      split
      · rfl
      · rcases m.tick with ⟨_ | _, _⟩ <;> rfl
    rw [hstep]
    exact truncating_unless_finished (tick_truncating.andThen id fun _ => ih)

/-! ## Runs -/

theorem showFrame_truncating : Truncating fun m => some (.ofPair m.showFrame) := by
  apply truncating_of_agrees
  intro m
  cases htraced : m.settings.showSteps with
  | false =>
    refine ⟨_, truncating_idle (.ok ()) (), ?_⟩
    intro room
    rw [showFrame_of_plain (m := m.withRoom room) htraced]
    rfl
  | true =>
    refine ⟨_, write_truncating m.frame (), ?_⟩
    intro room
    rw [showFrame, if_pos (show (m.withRoom room).settings.showSteps = true from htraced)]
    rfl

theorem round_truncating : Truncating fun m => some (.ofPair m.round) := by
  have hround : (fun m : Machine => some (Outcome.ofPair m.round)) =
      andThen (fun m => some (.ofPair m.showFrame)) id (fun _ m => some (.ofPair m.tick)) := by
    funext m
    rw [round, andThen_ofPair]
    rcases m.showFrame with ⟨_ | _, _⟩ <;> rfl
  rw [hround]
  exact showFrame_truncating.andThen id fun _ => tick_truncating

theorem rounds_truncating (fuel : Nat) :
    Truncating fun m => (m.rounds fuel).map .ofPair := by
  induction fuel with
  | zero =>
    have hnone : Truncating fun _ : Machine => (none : Option (Outcome Unit)) := by
      intro m limit whole hwhole
      cases hwhole
    have hrounds : (fun m : Machine => (m.rounds 0).map Outcome.ofPair) = fun m =>
        if m.isFinished then some ⟨.ok (), (), m⟩ else none := by
      funext m
      rw [rounds]
      split <;> rfl
    rw [hrounds]
    exact truncating_unless_finished hnone
  | succ fuel ih =>
    have hrounds : (fun m : Machine => (m.rounds (fuel + 1)).map Outcome.ofPair) = fun m =>
        if m.isFinished then some ⟨.ok (), (), m⟩
        else andThen (fun m => some (.ofPair m.round)) id
          (fun _ m => (m.rounds fuel).map .ofPair) m := by
      funext m
      rw [rounds, andThen_ofPair]
      split
      · rfl
      · rcases m.round with ⟨_ | _, _⟩ <;> rfl
    rw [hrounds]
    exact truncating_unless_finished (round_truncating.andThen id fun _ => ih)

theorem finish_truncating : Truncating fun m => some (.ofPair m.finish) := by
  have hreport : Truncating fun m => some (.ofPair (.ok (), m.report (.runFinished m.ticks))) :=
    Silent.truncating ⟨fun _ _ => rfl, fun _ => rfl⟩
  have hfinish : (fun m : Machine => some (Outcome.ofPair m.finish)) =
      andThen (fun m => some (.ofPair m.showFrame)) id fun _ =>
        andThen (fun m => some (.ofPair (m.write "\n"))) id fun _ m =>
          some (.ofPair (.ok (), m.report (.runFinished m.ticks))) := by
    funext m
    rw [finish, andThen_ofPair]
    rcases m.showFrame with ⟨_ | _, n⟩
    · rfl
    · simp only [andThen_ofPair]
      rcases n.write "\n" with ⟨_ | _, _⟩ <;> rfl
  rw [hfinish]
  exact showFrame_truncating.andThen id fun _ =>
    (write_truncating "\n" ()).andThen id fun _ => hreport

theorem run_truncating (fuel : Nat) : Truncating fun m => (m.run fuel).map .ofPair := by
  have hannounce : Truncating fun m => some (.ofPair (.ok (), m.announce)) :=
    Silent.truncating ⟨fun _ _ => rfl, fun _ => rfl⟩
  have hrun : (fun m : Machine => (m.run fuel).map Outcome.ofPair) =
      andThen (fun m => some (.ofPair (.ok (), m.announce))) id fun _ =>
        andThen (fun m => (m.rounds fuel).map .ofPair) id fun _ m => some (.ofPair m.finish) := by
    funext m
    rw [run, andThen_ofPair]
    simp only [andThen]
    rcases m.announce.rounds fuel with _ | ⟨_ | _, _⟩ <;> rfl
  rw [hrun]
  exact hannounce.andThen id fun _ =>
    (rounds_truncating fuel).andThen id fun _ => finish_truncating

/-! ## Frames in pieces -/

theorem write_append (m : Machine) (s t : String) :
    m.write (s ++ t) =
      match m.write s with
      | (.ok (), n) => n.write t
      | (.error e, n) => (.error e, n) := by
  simp only [write, Console.write_append m.console s t]
  rcases m.console.write s with ⟨_ | _, _⟩ <;> rfl

/-- Writes one text after the other, up to the first that does not fit. -/
def writeEach (m : Machine) : List String → Except Stop Unit × Machine
  | [] => (.ok (), m)
  | text :: rest =>
    match m.write text with
    | (.ok (), n) => n.writeEach rest
    | (.error s, n) => (.error s, n)

theorem writeEach_eq_write (m : Machine) (texts : List String) :
    m.writeEach texts = m.write (String.join texts) := by
  induction texts generalizing m with
  | nil =>
    rw [writeEach, String.join_nil, write, Console.write_empty]
  | cons text rest ih =>
    rw [writeEach, String.join_cons, write_append]
    rcases m.write text with ⟨_ | _, n⟩
    · rfl
    · exact ih n

/-! ## The whole -/

/-- Over `base` the outcome `whole` has added some bytes to its output, and `cut` as many of
them as the limit lets through. If that is all of them, the two differ in the room that is left
on the output and in nothing else; if not, `cut` has failed because the output is full. -/
def Truncated (base : Array UInt8) (limit : Nat) (whole cut : Except Stop Unit × Machine) : Prop :=
  ∃ added, whole.2.console.output = base ++ added ∧
    cut.2.console.output = base ++ added.take limit ∧
    (added.size ≤ limit →
      cut.1 = whole.1 ∧ cut.2 = whole.2.withRoom (some (limit - added.size))) ∧
    (limit < added.size → cut.1 = .error (.fault (.console .full)))

theorem truncated_of_truncates {base : Array UInt8} {limit : Nat}
    {whole cut : Except Stop Unit × Machine}
    (h : Truncates base limit (.ofPair whole) (.ofPair cut)) : Truncated base limit whole cut := by
  generalize hc : Outcome.ofPair cut = c at h
  obtain ⟨r, n⟩ := cut
  cases h with
  | fits added _ hadded hfits =>
    cases hc
    refine ⟨added, hadded, ?_, fun _ => ⟨rfl, rfl⟩, fun hexceeds => ?_⟩
    · rw [Array.take_eq_extract, Array.extract_eq_self_of_le hfits]
      exact hadded
    · omega
  | exceeds added _ _ hadded hexceeds hfull hstored =>
    cases hc
    exact ⟨added, hadded, hstored, fun hfits => by omega, fun _ => hfull⟩

/-- **A full output only truncates.** Take any machine, in plain or traced mode, once with an
output that takes everything and once with one that takes `limit` more bytes. However many ticks
are made, and whenever a run ends, the limited output has the first bytes of what is written, as
many as it takes; if that is all, the result and the machine are the same but for the room that is
left, and otherwise the answer is that the output is full. For this it makes no difference into
which pieces the text of a frame is cut to be written. -/
theorem full_output_truncates (m : Machine) (limit : Nat) :
    (∀ n, Truncated m.console.output limit ((m.withRoom none).step n)
      ((m.withRoom (some limit)).step n)) ∧
    (∀ fuel whole, (m.withRoom none).run fuel = some whole →
      ∃ cut, (m.withRoom (some limit)).run fuel = some cut ∧
        Truncated m.console.output limit whole cut) ∧
    ∀ (n : Machine) (pieces : List String), n.settings.showSteps = true →
      String.join pieces = n.frame → n.writeEach pieces = n.showFrame := by
  refine ⟨?_, ?_, ?_⟩
  · intro n
    obtain ⟨cut, hcut, htruncates⟩ := step_truncating n m limit _ rfl
    rw [← Option.some.inj hcut] at htruncates
    exact truncated_of_truncates htruncates
  · intro fuel whole hwhole
    have hrun : ((m.withRoom none).run fuel).map Outcome.ofPair = some (.ofPair whole) := by
      rw [hwhole]
      rfl
    obtain ⟨_, hcut, htruncates⟩ := run_truncating fuel m limit _ hrun
    obtain ⟨cut, hlimited, rfl⟩ := Option.map_eq_some_iff.mp hcut
    exact ⟨cut, hlimited, truncated_of_truncates htruncates⟩
  · intro n pieces htraced hpieces
    rw [writeEach_eq_write, hpieces, showFrame, if_pos htraced]

/-- Prints a character of two bytes and halts. -/
def accentPrinter : Playfield :=
  ⟨[[.char '"', .char 'é', .char '"', .char ',', .char '@']]⟩

/-- Room for one byte cuts the character in two. -/
theorem full_output_truncates_accentPrinter :
    (∃ whole, ((start accentPrinter {} {} 0).withRoom none).run 5 = some whole ∧
      ∃ cut, ((start accentPrinter {} {} 0).withRoom (some 1)).run 5 = some cut ∧
        cut.1 = .error (.fault (.console .full)) ∧ cut.2.console.output = #[0xc3]) ∧
    (start accentPrinter { showSteps := true } {} 0).writeEach
        [(start accentPrinter { showSteps := true } {} 0).frame] =
      (start accentPrinter { showSteps := true } {} 0).showFrame := by
  obtain ⟨_, hruns, hframes⟩ := full_output_truncates (start accentPrinter {} {} 0) 1
  refine ⟨?_, hframes _ _ rfl (by simp [String.join_cons])⟩
  have hwritten : (((start accentPrinter {} {} 0).withRoom none).run 5).map
      (·.2.console.output) = some #[0xc3, 0xa9, 0x0a] := by
    decide +kernel
  obtain ⟨whole, hwhole, houtput⟩ := Option.map_eq_some_iff.mp hwritten
  obtain ⟨cut, hcut, added, hadded, hstored, _, hfull⟩ := hruns 5 whole hwhole
  have hbytes : added = #[0xc3, 0xa9, 0x0a] := by
    rw [← houtput, hadded]
    exact (Array.empty_append ..).symm
  subst hbytes
  exact ⟨whole, hwhole, cut, hcut, hfull (by decide), hstored⟩

end Machine

end Funge
