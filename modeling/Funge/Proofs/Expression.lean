import Funge.Proofs.Traversal

/-!
Arithmetic in postfix notation. The text of an expression is a program that pushes its value:
each part leaves one value on whatever stack it began with. A program that prints the value and
halts therefore writes the value of the expression, or stops at the first operator whose divisor
is zero.
-/

namespace Funge

/-- The operators of two operands. -/
inductive Operator where
  | add
  | subtract
  | multiply
  | divide
  | modulo
  | greater
deriving DecidableEq

namespace Operator

def char : Operator → Char
  | add => '+'
  | subtract => '-'
  | multiply => '*'
  | divide => '/'
  | modulo => '%'
  | greater => '\x60'

/-- The exact result brought into the range of words; none if the divisor is zero. -/
def value? (l r : Int64) : Operator → Option Int64
  | add => some (.ofInt (l.toInt + r.toInt))
  | subtract => some (.ofInt (l.toInt - r.toInt))
  | multiply => some (.ofInt (l.toInt * r.toInt))
  | divide => if r = 0 then none else some (.ofInt (l.toInt.fdiv r.toInt))
  | modulo => if r = 0 then none else some (.ofInt (l.toInt.fmod r.toInt))
  | greater => some (if r.toInt < l.toInt then 1 else 0)

/-- How the operator fails if its divisor is zero. -/
def fault (dividend : Int64) (p : Position) : Operator → Fault
  | modulo => .moduloByZero dividend p
  | _ => .divisionByZero dividend p

def instruction : Operator → Instruction
  | add => .add
  | subtract => .subtract
  | multiply => .multiply
  | divide => .divide
  | modulo => .modulo
  | greater => .greater

theorem ofChar?_char (op : Operator) : Instruction.ofChar? op.char = some op.instruction := by
  cases op <;> decide

theorem value?_eq_none_iff (op : Operator) (l r : Int64) :
    op.value? l r = none ↔ (op = .divide ∨ op = .modulo) ∧ r = 0 := by
  cases op <;> simp [value?]

end Operator

inductive Expression where
  | digit (d : Fin 16)
  | not (e : Expression)
  | binary (op : Operator) (l r : Expression)
deriving DecidableEq

namespace Expression

/-- The text in postfix notation. -/
def code : Expression → List Char
  | digit d => [Nat.digitChar d]
  | not e => e.code ++ ['!']
  | binary op l r => l.code ++ r.code ++ [op.char]

/-- The value of an expression in which no divisor is zero. -/
def value? : Expression → Option Int64
  | digit d => some (.ofNat d)
  | not e => e.value?.map fun v => if v = 0 then 1 else 0
  | binary op l r => l.value?.bind fun a => r.value?.bind fun b => op.value? a b

/-- Prints the value and halts. -/
def program (e : Expression) : String := String.ofList (e.code ++ ['.', '@'])

/-- The character that completes the text of an expression. -/
def sign : Expression → Char
  | digit d => Nat.digitChar d
  | not _ => '!'
  | binary op _ _ => op.char

/-- All parts of an expression, in the order of their signs in the text. -/
def parts : Expression → List Expression
  | digit d => [digit d]
  | not e => e.parts ++ [not e]
  | binary op l r => l.parts ++ r.parts ++ [binary op l r]

/-- The operator of the expression divides by zero. -/
def dividesByZero : Expression → Bool
  | binary .divide _ r | binary .modulo _ r => r.value? = some 0
  | _ => false

/-- The sign of the part number `k` stands in column `k`. -/
theorem code_eq_map_sign (e : Expression) : e.code = e.parts.map sign := by
  induction e with
  | digit d => rfl
  | not e ih => simp [code, parts, sign, ih]
  | binary op l r ihl ihr => simp [code, parts, sign, ihl, ihr]

theorem length_parts (e : Expression) : e.parts.length = e.code.length := by
  rw [code_eq_map_sign, List.length_map]

theorem dividesByZero_binary (op : Operator) (l r : Expression) :
    (binary op l r).dividesByZero = true ↔
      (op = .divide ∨ op = .modulo) ∧ r.value? = some 0 := by
  cases op <;> simp [dividesByZero]

/-! ## From left to right -/

/-- What the text of an expression gives that begins in column `x`: its operators are applied in
the order of the text, up to the first that cannot be. -/
def outcome (x : Nat) : Expression → Except Fault Int64
  | digit d => .ok (.ofNat d)
  | not e =>
    match e.outcome x with
    | .error f => .error f
    | .ok v => .ok (if v = 0 then 1 else 0)
  | binary op l r =>
    match l.outcome x with
    | .error f => .error f
    | .ok a =>
      match r.outcome (x + l.code.length) with
      | .error f => .error f
      | .ok b =>
        match op.value? a b with
        | some v => .ok v
        | none => .error (op.fault a ⟨x + l.code.length + r.code.length, 0⟩)

theorem outcome_of_defined {e : Expression} (h : ∀ p ∈ e.parts, p.dividesByZero = false)
    (x : Nat) : ∃ v, e.value? = some v ∧ e.outcome x = .ok v := by
  induction e generalizing x with
  | digit d => exact ⟨_, rfl, rfl⟩
  | not e ih =>
    obtain ⟨v, hv, hout⟩ := ih (fun p hp => h p (by simp [parts, hp])) x
    refine ⟨if v = 0 then 1 else 0, ?_, ?_⟩
    · simp [value?, hv]
    · simp [outcome, hout]
  | binary op l r ihl ihr =>
    obtain ⟨a, ha, hl⟩ := ihl (fun p hp => h p (by simp [parts, hp])) x
    obtain ⟨b, hb, hr⟩ := ihr (fun p hp => h p (by simp [parts, hp])) (x + l.code.length)
    have hself := h (binary op l r) (by simp [parts])
    cases hv : op.value? a b with
    | some v => exact ⟨v, by simp [value?, ha, hb, hv], by simp [outcome, hl, hr, hv]⟩
    | none =>
      obtain ⟨hop, rfl⟩ := (op.value?_eq_none_iff a b).mp hv
      rw [(dividesByZero_binary op l r).mpr ⟨hop, hb⟩] at hself
      cases hself

/-- The part number `k` of the list `ps` divides by zero, and no part before it does. -/
structure FirstZero (ps : List Expression) (k : Nat) (p : Expression) : Prop where
  part : ps[k]? = some p
  zero : p.dividesByZero = true
  first : ∀ j < k, ∀ q, ps[j]? = some q → q.dividesByZero = false

theorem exists_firstZero {ps : List Expression} (h : ∃ p ∈ ps, p.dividesByZero = true) :
    ∃ k op l r, FirstZero ps k (binary op l r) := by
  induction ps with
  | nil => simp at h
  | cons q ps ih =>
    cases hq : q.dividesByZero with
    | true =>
      cases q with
      | binary op l r => exact ⟨0, op, l, r, rfl, hq, fun j hj => absurd hj (Nat.not_lt_zero j)⟩
      | digit d => cases hq
      | not e => cases hq
    | false =>
      obtain ⟨k, op, l, r, hk⟩ := ih (by simpa [hq] using h)
      refine ⟨k + 1, op, l, r, hk.part, hk.zero, ?_⟩
      intro j hj p hp
      cases j with
      | zero =>
        obtain rfl : q = p := Option.some.inj hp
        exact hq
      | succ j => exact hk.first j (by omega) p hp

/-- The first zero of two lists of parts is that of the first list, or that of the second after a
first list without any. -/
theorem FirstZero.append {ps qs : List Expression} {k : Nat} {p : Expression}
    (h : FirstZero (ps ++ qs) k p) :
    FirstZero ps k p ∨
      (∀ q ∈ ps, q.dividesByZero = false) ∧ ∃ j, k = ps.length + j ∧ FirstZero qs j p := by
  by_cases hk : k < ps.length
  · left
    refine ⟨?_, h.zero, ?_⟩
    · rw [← List.getElem?_append_left hk, h.part]
    · intro j hj q hq
      apply h.first j hj q
      rw [List.getElem?_append_left (by omega), hq]
  · right
    refine ⟨?_, k - ps.length, by omega, ?_, h.zero, ?_⟩
    · intro q hq
      obtain ⟨j, hj, hjq⟩ := List.mem_iff_getElem.mp hq
      apply h.first j (by omega) q
      rw [List.getElem?_append_left hj, List.getElem?_eq_getElem hj, hjq]
    · rw [← List.getElem?_append_right (by omega), h.part]
    · intro j hj q hq
      apply h.first (ps.length + j) (by omega) q
      rw [List.getElem?_append_right (by omega), Nat.add_sub_cancel_left, hq]

theorem FirstZero.singleton {q p : Expression} {k : Nat} (h : FirstZero [q] k p) :
    k = 0 ∧ p = q := by
  have hpart := h.part
  cases k with
  | zero => exact ⟨rfl, (Option.some.inj hpart).symm⟩
  | succ k => simp at hpart

/-- The first operator of the text that divides by zero has a dividend, and ends the text. -/
theorem outcome_of_firstZero {e : Expression} {k : Nat} {op : Operator} {l r : Expression}
    (h : FirstZero e.parts k (binary op l r)) (x : Nat) :
    ∃ a, l.value? = some a ∧ e.outcome x = .error (op.fault a ⟨x + k, 0⟩) := by
  induction e generalizing x k with
  | digit d => cases h.singleton.2
  | not e ih =>
    rcases h.append with h | ⟨_, j, _, hj⟩
    · obtain ⟨a, ha, hout⟩ := ih h x
      exact ⟨a, ha, by simp [outcome, hout]⟩
    · cases hj.singleton.2
  | binary op' l' r' ihl ihr =>
    rcases h.append with h | ⟨hdefined, j, rfl, hj⟩
    · rcases h.append with h | ⟨hdefined, j, rfl, hj⟩
      · obtain ⟨a, ha, hout⟩ := ihl h x
        exact ⟨a, ha, by simp [outcome, hout]⟩
      · obtain ⟨v, _, hl⟩ := outcome_of_defined hdefined x
        obtain ⟨a, ha, hout⟩ := ihr hj (x + l'.code.length)
        refine ⟨a, ha, ?_⟩
        simp [outcome, hl, hout, length_parts, Nat.add_assoc]
    · -- both operands have values, so the operator itself is the first to fail
      obtain ⟨rfl, hself⟩ := hj.singleton
      cases hself
      obtain ⟨a, ha, hl⟩ := outcome_of_defined (e := l) (fun p hp => hdefined p (by simp [hp])) x
      obtain ⟨b, hb, hr⟩ := outcome_of_defined (e := r) (fun p hp => hdefined p (by simp [hp]))
        (x + l.code.length)
      obtain ⟨hop, hzero⟩ := (dividesByZero_binary op l r).mp hj.zero
      obtain rfl : b = 0 := Option.some.inj (hb.symm.trans hzero)
      have hnone := (op.value?_eq_none_iff a 0).mpr ⟨hop, rfl⟩
      refine ⟨a, ha, ?_⟩
      simp [outcome, hl, hr, hnone, length_parts, Nat.add_assoc]

/-! ## Instructions -/

/-- The text of an expression holds no marker and no line end. -/
theorem code_plain (e : Expression) : ∀ ch ∈ e.code, ch ≠ Instruction.marker ∧ ch ≠ '\n' := by
  have hdigit : ∀ d : Fin 16, Nat.digitChar d ≠ Instruction.marker ∧ Nat.digitChar d ≠ '\n' := by
    decide
  have hchar : ∀ op : Operator, op.char ≠ Instruction.marker ∧ op.char ≠ '\n' := by
    intro op
    cases op <;> decide
  induction e with
  | digit d => simpa [code] using hdigit d
  | not e ih =>
    intro ch hch
    rcases List.mem_append.mp hch with hch | hch
    · exact ih ch hch
    · rw [List.mem_singleton.mp hch]
      decide
  | binary op l r ihl ihr =>
    intro ch hch
    rcases List.mem_append.mp hch with hch | hch
    · rcases List.mem_append.mp hch with hch | hch
      · exact ihl ch hch
      · exact ihr ch hch
    · rw [List.mem_singleton.mp hch]
      exact hchar op

theorem program_free (e : Expression) :
    .char Instruction.marker ∉ (e.code ++ ['.', '@']).map Cell.char := by
  intro h
  obtain ⟨ch, hch, hmarker⟩ := List.mem_map.mp h
  obtain rfl : ch = Instruction.marker := Cell.char.inj hmarker
  rcases List.mem_append.mp hch with hch | hch
  · exact (e.code_plain _ hch).1 rfl
  · revert hch
    decide

theorem ofText_program (e : Expression) :
    Playfield.ofText e.program = .ofRow ((e.code ++ ['.', '@']).map .char) := by
  have hline : '\n' ∉ e.code ++ ['.'] := by
    intro h
    rcases List.mem_append.mp h with h | h
    · exact (e.code_plain _ h).2 rfl
    · revert h
      decide
  simpa [program] using Playfield.ofText_halting hline

theorem ofChar?_digit (d : Fin 16) :
    Instruction.ofChar? (Nat.digitChar d) = some (.digit (Nat.toUInt8 d)) := by
  revert d
  decide

end Expression

namespace Cursor

variable {f : Playfield} {c : Cursor} {s : Stack}

theorem act_digit (hs : c.stack = s) (d : Fin 16) :
    c.act f (.digit (Nat.toUInt8 d)) = ({ c with stack := s.push (.ofNat d) }, .ok .none) := by
  have hvalue : ∀ d : Fin 16, (Nat.toUInt8 d).toNat = d := by decide
  rw [act, hvalue, push, hs]

theorem act_not {v : Int64} (hs : c.stack = s.push v) :
    c.act f .not = ({ c with stack := s.push (if v = 0 then 1 else 0) }, .ok .none) := by
  simp [act, push, drop, operand, hs, Stack.push, Stack.drop, Stack.get, Word.ofBool]

/-- An operator takes its right operand from the top and its left one from below. -/
theorem act_operator {a b : Int64} (hs : c.stack = (s.push a).push b) (op : Operator) :
    c.act f op.instruction =
      match op.value? a b with
      | some v => ({ c with stack := s.push v }, .ok .none)
      | none => ({ c with stack := s }, .error (.fault (op.fault a c.position))) := by
  have h0 : c.operand 0 = b := by simp [operand, hs, Stack.push, Stack.get]
  have h1 : c.operand 1 = a := by simp [operand, hs, Stack.push, Stack.get]
  have hrest : c.drop 2 = { c with stack := s } := by simp [drop, hs, Stack.push, Stack.drop]
  cases op with
  | add =>
    simp [Operator.instruction, Operator.value?, act, h0, h1, hrest, push, Int64.ofInt_add,
      Int64.add_comm]
  | subtract =>
    simp [Operator.instruction, Operator.value?, act, h0, h1, hrest, push, Int64.ofInt_sub]
  | multiply =>
    simp [Operator.instruction, Operator.value?, act, h0, h1, hrest, push, Int64.ofInt_mul,
      Int64.mul_comm]
  | divide =>
    by_cases hb : b = 0
    · simp [Operator.instruction, Operator.value?, Operator.fault, act, h0, h1, hrest, hb]
    · simp [Operator.instruction, Operator.value?, act, h0, h1, hrest, push, hb,
        Word.floorDiv_eq a hb]
  | modulo =>
    by_cases hb : b = 0
    · simp [Operator.instruction, Operator.value?, Operator.fault, act, h0, h1, hrest, hb]
    · simp [Operator.instruction, Operator.value?, act, h0, h1, hrest, push, hb,
        Word.floorMod_eq a b]
  | greater =>
    simp [Operator.instruction, Operator.value?, act, h0, h1, hrest, push, Word.ofBool,
      Int64.lt_iff_toInt_lt]

end Cursor

/-! ## Programs -/

namespace Machine

open Text

/-- The next `n` ticks lead `n` columns on and push a value, or one of them fails. -/
def Yields (r : List Cell) (k : Console) (x n : Nat) (s : Stack) (m : Machine) :
    Except Fault Int64 → Prop
  | .ok v => m.Proceeds n ∧ Computing r k (x + n) (s.push v) (m.after n)
  | .error f => FailsWithin k m n f

section

variable {r : List Cell} {k : Console} {x : Nat} {s : Stack} {m : Machine}

/-- The text of an expression leaves its value on top of the stack with which it began. -/
theorem Computing.expression (hlen : r.length ≤ Playfield.lengthLimit)
    (hfree : .char Instruction.marker ∉ r) (e : Expression) (before after : List Char)
    (hr : r = (before ++ e.code ++ after).map .char) (hafter : after ≠ [])
    (h : Computing r k before.length s m) :
    Yields r k before.length e.code.length s m (e.outcome before.length) := by
  -- the text around an operand is that around the whole with the rest of the whole added
  induction e generalizing before after s m with
  | digit d =>
    obtain ⟨hcell, hx⟩ := cell_of_text before (Nat.digitChar d) after
      (by simpa [Expression.code] using hr) hafter
    exact h.compute hlen hfree hx hcell (Expression.ofChar?_digit d)
      (fun c hc => Cursor.act_digit hc d)
  | not e ih =>
    have hoperand := ih before ('!' :: after) (by simpa [Expression.code] using hr) (by simp) h
    obtain ⟨hcell, hx⟩ := cell_of_text (before ++ e.code) '!' after
      (by simpa [Expression.code] using hr) hafter
    rw [Expression.outcome, Expression.code, List.length_append]
    cases hout : e.outcome before.length with
    | error f =>
      rw [hout] at hoperand
      exact FailsWithin.mono hoperand (by omega)
    | ok v =>
      rw [hout] at hoperand
      obtain ⟨hproceeds, hvalue⟩ := hoperand
      rw [← List.length_append] at hvalue
      obtain ⟨hone, hresult⟩ := hvalue.compute hlen hfree hx hcell (i := .not) (by decide)
        (fun c hc => Cursor.act_not hc)
      refine ⟨hproceeds.add hone, ?_⟩
      rw [after_add]
      simpa [Nat.add_assoc] using hresult
  | binary op lhs rhs ihl ihr =>
    have hleft := ihl before (rhs.code ++ op.char :: after)
      (by simpa [Expression.code] using hr) (by simp) h
    obtain ⟨hcell, hx⟩ := cell_of_text (before ++ lhs.code ++ rhs.code) op.char after
      (by simpa [Expression.code] using hr) hafter
    rw [Expression.outcome, Expression.code, List.length_append, List.length_append]
    cases houtl : lhs.outcome before.length with
    | error f =>
      rw [houtl] at hleft
      exact FailsWithin.mono hleft (by omega)
    | ok a =>
      rw [houtl] at hleft
      obtain ⟨hproceeds, hvalue⟩ := hleft
      rw [← List.length_append] at hvalue
      have hright := ihr (before ++ lhs.code) (op.char :: after)
        (by simpa [Expression.code] using hr) (by simp) hvalue
      simp only [List.length_append] at hright ⊢
      cases houtr : rhs.outcome (before.length + lhs.code.length) with
      | error f =>
        rw [houtr] at hright
        exact (hright.later hproceeds).mono (by omega)
      | ok b =>
        rw [houtr] at hright
        obtain ⟨hproceeds', hvalue'⟩ := hright
        rw [← after_add, ← List.length_append, ← List.length_append] at hvalue'
        have hboth := hproceeds.add hproceeds'
        cases happly : op.value? a b with
        | none =>
          have hfails := hvalue'.fail hcell op.ofChar?_char (t := s) (fun c hc hplace => by
            rw [Cursor.act_operator hc, happly, hplace])
          simp only [happly]
          simpa [Yields, Nat.add_assoc] using hfails.later hboth
        | some v =>
          obtain ⟨hone, hresult⟩ := hvalue'.compute hlen hfree hx hcell op.ofChar?_char
            (t := s.push v) (fun c hc => by rw [Cursor.act_operator hc, happly])
          simp only [happly]
          refine ⟨hboth.add hone, ?_⟩
          rw [after_add]
          simpa [Nat.add_assoc] using hresult

theorem Computing.printInteger {v : Int64} (h : Computing r k x (s.push v) m)
    (hlen : r.length ≤ Playfield.lengthLimit) (hfree : .char Instruction.marker ∉ r)
    (hx : x + 1 < r.length) (hcell : r[x]? = some (.char '.'))
    (hplain : m.settings.showSteps = false) (hroom : k.room = none) :
    m.Proceeds 1 ∧
      Computing r { k with output := k.output ++ Utf8.encode (Decimal.write v.toInt ++ " ") }
        (x + 1) s (m.after 1) := by
  apply h.print hlen hfree hx hcell (i := .printInteger) (by decide) _ hplain hroom
  intro c hc
  simp [Cursor.act, Cursor.drop, Cursor.operand, hc, Stack.push, Stack.drop, Stack.get]

end

/-- **Postfix expressions are evaluated.** Over an output without limit, the program of an
expression in which no divisor is zero ends after a tick for each of its characters and has
written the value; otherwise it stops at the first operator of the text that divides by zero, with
the dividend and the column of that operator, and has written nothing. -/
theorem run_program (e : Expression) (hlen : e.code.length + 2 ≤ Playfield.lengthLimit)
    (settings : Settings) (hplain : settings.showSteps = false) (k : Console)
    (hroom : k.room = none) (fresh : UInt64) :
    let m := start (.ofText e.program) settings k fresh
    ((∀ p ∈ e.parts, p.dividesByZero = false) → ∃ v, e.value? = some v ∧
      ∀ fuel, e.code.length + 2 ≤ fuel → ∃ m', m.run fuel = some (.ok (), m') ∧
        m'.ticks = e.code.length + 2 ∧
        m'.console.output = k.output ++ Utf8.encode (Decimal.write v.toInt ++ " " ++ "\n")) ∧
    ((∃ p ∈ e.parts, p.dividesByZero = true) → ∃ column op l r a,
      Expression.FirstZero e.parts column (.binary op l r) ∧
      e.code[column]? = some op.char ∧ l.value? = some a ∧
      ∀ fuel, e.code.length + 2 ≤ fuel → ∃ m',
        m.run fuel = some (.error (.fault (op.fault a ⟨column, 0⟩)), m') ∧
        m'.console.output = k.output) := by
  intro m
  have hstart : Computing ((e.code ++ ['.', '@']).map .char) k 0 .empty m.announce :=
    ⟨e.ofText_program, ⟨_, rfl⟩, rfl⟩
  have hlen' : ((e.code ++ ['.', '@']).map Cell.char).length ≤ Playfield.lengthLimit := by
    simpa using hlen
  have hyields := hstart.expression hlen' e.program_free e [] ['.', '@'] (by simp)
    (by simp)
  rw [List.length_nil] at hyields
  constructor
  · intro hdefined
    obtain ⟨v, hv, hout⟩ := Expression.outcome_of_defined hdefined 0
    refine ⟨v, hv, ?_⟩
    intro fuel hfuel
    rw [hout] at hyields
    obtain ⟨hproceeds, hvalue⟩ := hyields
    rw [Nat.zero_add] at hvalue
    have hsettings : (m.announce.after e.code.length).settings.showSteps = false := by
      rw [after_settings]
      exact hplain
    obtain ⟨hprint, hprinted⟩ := hvalue.printInteger hlen' e.program_free (by simp) (by simp)
      hsettings hroom
    obtain ⟨hhalt, hfinished, hconsole⟩ := hprinted.halt hlen' e.program_free (by simp)
    have hend := (hproceeds.add hprint).add (by rwa [after_add])
    rw [← after_add, ← after_add] at hfinished hconsole
    obtain ⟨m', hrun, hticks, houtput⟩ := run_of_finished hplain hend hfinished
      (by rw [hconsole, hroom]) hfuel
    refine ⟨m', hrun, ?_, ?_⟩
    · rw [hticks]
      exact Nat.zero_add _
    · rw [houtput, hconsole, Array.append_assoc, ← Utf8.encode_append]
  · intro hzero
    obtain ⟨column, op, l, r, hfirst⟩ := Expression.exists_firstZero hzero
    obtain ⟨a, ha, hout⟩ := Expression.outcome_of_firstZero hfirst 0
    have hsign : e.code[column]? = some op.char := by
      rw [e.code_eq_map_sign, List.getElem?_map, hfirst.part]
      rfl
    refine ⟨column, op, l, r, a, hfirst, hsign, ha, ?_⟩
    intro fuel hfuel
    rw [hout, Nat.zero_add] at hyields
    obtain ⟨j, hj, hproceeds, hlive, hfail, hconsole⟩ := hyields
    exact ⟨_, run_of_failed hplain hproceeds hlive hfail (by omega), by rw [hconsole]⟩

/-- Four divided by a quotient that has no value. Its text is `73-20/%`, and the operator in
column 5 is the first that divides by zero. -/
def nestedDivision : Expression :=
  .binary .modulo (.binary .subtract (.digit 7) (.digit 3)) (.binary .divide (.digit 2) (.digit 0))

/-- Minus seven divided by two, rounded down. -/
def flooredDivision : Expression :=
  .binary .divide (.binary .subtract (.digit 0) (.digit 7)) (.digit 2)

theorem run_program_divisions :
    (∃ m', (start (.ofText flooredDivision.program) {} {} 0).run 7 = some (.ok (), m') ∧
      m'.ticks = 7 ∧ m'.console.output = #[45, 52, 32, 10]) ∧
    ∃ m', (start (.ofText nestedDivision.program) {} {} 0).run 9 =
        some (.error (.fault (.divisionByZero 2 ⟨5, 0⟩)), m') ∧ m'.console.output = #[] := by
  constructor
  · obtain ⟨v, hv, hrun⟩ :=
      (run_program flooredDivision (by decide) {} rfl {} rfl 0).1 (by decide)
    obtain rfl : (-4 : Int64) = v := Option.some.inj hv
    obtain ⟨m', hm', hticks, houtput⟩ := hrun 7 (by decide)
    exact ⟨m', hm', hticks, houtput.trans (by decide +kernel)⟩
  · obtain ⟨column, op, l, r, a, _, _, _, hrun⟩ :=
      (run_program nestedDivision (by decide) {} rfl {} rfl 0).2 (by decide)
    obtain ⟨m', hm', houtput⟩ := hrun 9 (by decide)
    have hresult : ((start (.ofText nestedDivision.program) {} {} 0).run 9).map Prod.fst =
        some (.error (.fault (.divisionByZero 2 ⟨5, 0⟩))) := rfl
    rw [hm'] at hresult
    exact ⟨m', by rw [hm', ← Option.some.inj hresult], houtput⟩

end Machine

end Funge
