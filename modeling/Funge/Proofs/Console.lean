import Funge.Console
import Funge.Proofs.Utf8

/-!
What the console does to its parts. A read depends on the input alone and takes from the
input alone; a write to an output without limit always succeeds and only adds to it, and one
to an output with a limit adds what fits.
-/

namespace Funge

namespace Console

/-- The input without an output. -/
def bare (k : Console) : Console := { input := k.input }

theorem readLine_bare {k k' : Console} {r : Except ConsoleFault (Option (List Char))}
    (h : k.readLine = (r, k')) :
    k.bare.readLine = (r, k'.bare) ∧ k' = { k with input := k'.input } := by
  unfold readLine at h ⊢
  dsimp only [bare]
  split at h
  · cases h
    exact ⟨rfl, rfl⟩
  · split at h <;> cases h <;> exact ⟨rfl, rfl⟩

theorem readInteger_eq (k : Console) :
    k.readInteger =
      match k.readLine with
      | (.error cause, k') => ⟨.error (.console cause), [], k'⟩
      | (.ok none, k') => ⟨.error (.inputExhausted .integer), [], k'⟩
      | (.ok (some line), k') =>
        match Text.Decimal.readInt64 (Text.trim line) with
        | .ok v => ⟨.ok v, [], k'⟩
        | .error reason =>
          { k'.readInteger with rejected := ⟨line, reason⟩ :: k'.readInteger.rejected } := by
  rw [readInteger]
  split
  · next h => exact h ▸ rfl
  · next h => exact h ▸ rfl
  · next h => exact h ▸ rfl

/-- The answer that a read gives for its input, together with an output that it has not
touched. -/
def Reading.over (k : Console) (r : Reading) : Reading :=
  { r with console := { k with input := r.console.input } }

theorem readInteger_bare (k : Console) : k.readInteger = k.bare.readInteger.over k := by
  fun_induction readInteger k with
  | case1 k cause k' h =>
    obtain ⟨hbare, hk⟩ := readLine_bare h
    rw [readInteger_eq k.bare, hbare, hk]
    rfl
  | case2 k k' h =>
    obtain ⟨hbare, hk⟩ := readLine_bare h
    rw [readInteger_eq k.bare, hbare, hk]
    rfl
  | case3 k line k' h v hv =>
    obtain ⟨hbare, hk⟩ := readLine_bare h
    rw [readInteger_eq k.bare, hbare, hk]
    simp only [hv]
    rfl
  | case4 k line k' h reason hreason later ih =>
    obtain ⟨hbare, hk⟩ := readLine_bare h
    rw [readInteger_eq k.bare, hbare]
    simp only [hreason, later]
    rw [ih, hk]
    rfl

theorem readCharacter_bare (k : Console) : k.readCharacter = k.bare.readCharacter.over k := by
  unfold readCharacter
  split
  all_goals
    next h =>
      obtain ⟨hbare, hk⟩ := readLine_bare h
      rw [hbare, hk]
      rfl

/-- A read fails only by what the input is, and such a fault has no place. -/
theorem readInteger_fault (k : Console) {f : Fault} (h : k.readInteger.value = .error f) :
    f.location? = none := by
  fun_induction readInteger k with
  | case1 | case2 =>
    cases h
    rfl
  | case3 => cases h
  | case4 k line k' _ reason _ later ih => exact ih h

theorem readCharacter_fault (k : Console) {f : Fault} (h : k.readCharacter.value = .error f) :
    f.location? = none := by
  unfold readCharacter at h
  split at h <;> cases h <;> rfl

theorem write_of_unlimited {k : Console} (h : k.room = none) (text : String) :
    k.write text = (.ok (), { k with output := k.output ++ Text.Utf8.encode text }) := by
  unfold write
  rw [h]

theorem write_of_fits {k : Console} {room : Nat} (h : k.room = some room) {text : String}
    (hfits : (Text.Utf8.encode text).size ≤ room) :
    k.write text =
      (.ok (), { k with
        output := k.output ++ Text.Utf8.encode text
        room := some (room - (Text.Utf8.encode text).size) }) := by
  simp only [write, h, if_pos hfits, Array.extract_eq_self_of_le hfits]

theorem write_of_exceeds {k : Console} {room : Nat} (h : k.room = some room) {text : String}
    (hexceeds : room < (Text.Utf8.encode text).size) :
    k.write text =
      (.error .full, { k with
        output := k.output ++ (Text.Utf8.encode text).take room
        room := some 0 }) := by
  simp only [write, h, if_neg (Nat.not_le.mpr hexceeds),
    Nat.sub_eq_zero_of_le (Nat.le_of_lt hexceeds)]

theorem write_empty (k : Console) : k.write "" = (.ok (), k) := by
  have hempty : Text.Utf8.encode "" = #[] := rfl
  cases hroom : k.room with
  | none =>
    rw [write_of_unlimited hroom, hempty, Array.append_empty]
  | some room =>
    rw [write_of_fits hroom (hempty ▸ Nat.zero_le room), hempty, Array.append_empty,
      Array.size_empty, Nat.sub_zero, ← hroom]

/-- To write a text is to write a first part of it and then, if that fits, the rest. -/
theorem write_append (k : Console) (s t : String) :
    k.write (s ++ t) =
      match k.write s with
      | (.ok (), k') => k'.write t
      | (.error cause, k') => (.error cause, k') := by
  have happend := Text.Utf8.encode_append s t
  have hsize : (Text.Utf8.encode (s ++ t)).size =
      (Text.Utf8.encode s).size + (Text.Utf8.encode t).size := by
    rw [happend, Array.size_append]
  cases hroom : k.room with
  | none =>
    have hroom' : ({ k with output := k.output ++ Text.Utf8.encode s } : Console).room = none :=
      hroom
    simp only [write_of_unlimited hroom, write_of_unlimited hroom', happend, Array.append_assoc]
  | some room =>
    by_cases hs : (Text.Utf8.encode s).size ≤ room
    · rw [write_of_fits hroom hs]
      simp only
      by_cases ht : (Text.Utf8.encode t).size ≤ room - (Text.Utf8.encode s).size
      · rw [write_of_fits rfl ht, write_of_fits hroom (by omega), happend, Array.append_assoc,
          Array.size_append, Nat.sub_add_eq]
      · rw [write_of_exceeds rfl (Nat.lt_of_not_le ht), write_of_exceeds hroom (by omega), happend]
        simp [Array.extract_append, Array.append_assoc, Array.extract_eq_self_of_le hs]
    · rw [write_of_exceeds hroom (by omega), write_of_exceeds hroom (by omega), happend]
      have hnone : room - (Text.Utf8.encode s).size = 0 := by omega
      simp [Array.extract_append, hnone]

end Console

end Funge
