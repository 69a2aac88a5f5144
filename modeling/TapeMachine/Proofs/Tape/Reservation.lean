import TapeMachine.Proofs.Config.Validity
import TapeMachine.Proofs.Tape.Lawful
import TapeMachine.Proofs.Tape.Window

namespace TapeMachine.Reserved

/-- The positions covered by a number of cells, of which half, rounded down, lie left of the
origin. -/
def Inside (cells : Nat) (p : Position) : Prop :=
  -(cells / 2 : Nat) ≤ p.toInt ∧ p.toInt < (cells - cells / 2 : Nat)

instance (cells : Nat) (p : Position) : Decidable (Inside cells p) :=
  inferInstanceAs (Decidable (_ ∧ _))

theorem index?_eq_some_iff {t : Reserved} {p : Position} {i : Fin t.capacity} :
    t.index? p = some i ↔ (i : Int) = p.toInt + (t.capacity / 2 : Nat) := by
  have bound := i.isLt
  have middle : t.origin = t.capacity / 2 := rfl
  unfold index?
  constructor
  · intro h
    split at h
    next =>
      have hi := congrArg Fin.val (Option.some.inj h)
      simp only at hi
      omega
    next => simp at h
  · intro h
    rw [dif_pos (by omega), Option.some.injEq, Fin.ext_iff]
    simp only
    omega

theorem exists_index?_iff {t : Reserved} {p : Position} :
    (∃ i, t.index? p = some i) ↔ Inside t.capacity p := by
  constructor
  · rintro ⟨i, hi⟩
    have bound := i.isLt
    have place := index?_eq_some_iff.mp hi
    unfold Inside
    omega
  · intro inside
    obtain ⟨low, high⟩ := inside
    have bound : (p.toInt + (t.capacity / 2 : Nat)).toNat < t.capacity := by omega
    refine ⟨⟨_, bound⟩, index?_eq_some_iff.mpr ?_⟩
    simp only
    omega

theorem exists_position {t : Reserved} (small : t.capacity < 2 ^ 63) (i : Fin t.capacity) :
    ∃ p, t.index? p = some i := by
  have bound := i.isLt
  have value : (Int64.ofInt (i - (t.capacity / 2 : Nat))).toInt = i - (t.capacity / 2 : Nat) :=
    Int64.toInt_ofInt_of_le (by omega) (by omega)
  refine ⟨Int64.ofInt (i - (t.capacity / 2 : Nat)), index?_eq_some_iff.mpr ?_⟩
  rw [value]
  omega

theorem refusal_eq (t : Reserved) (p : Position) :
    t.refusal? p = if Inside t.capacity p then none else some (.outside p t.capacity) := by
  unfold refusal?
  by_cases inside : Inside t.capacity p
  · rw [if_pos inside, if_pos (Option.isSome_iff_exists.mpr (exists_index?_iff.mpr inside))]
  · rw [if_neg inside, if_neg]
    intro found
    exact inside (exists_index?_iff.mp (Option.isSome_iff_exists.mp found))

theorem read_of_not_inside {t : Reserved} {p : Position} (outside : ¬Inside t.capacity p) :
    t.read p = .blank := by
  cases h : t.index? p with
  | none => exact read_of_none h t.cells
  | some i => exact absurd (exists_index?_iff.mp ⟨i, h⟩) outside

theorem toInt_stop {t : Reserved} (small : t.capacity < 2 ^ 63) :
    t.stop.toInt = (t.capacity - t.capacity / 2 : Nat) :=
  Int64.toInt_ofNat_of_lt (by rw [origin]; omega)

theorem capacity_attempts (t : Reserved) (calls : List (Position × Symbol)) :
    (Tape.attempts t calls).2.capacity = t.capacity :=
  Tape.attempts_keep (P := fun u : Reserved => u.capacity = t.capacity) rfl
    (fun {u p} _ same s => (u.capacity_set p s).trans same) calls

/-- The cells of a valid size are split evenly, and there are cells on both sides. -/
theorem halves_of_valid {c : Config} (kind : c.tape = .reserved) (valid : c.validate = .ok ()) :
    let cells := c.tapeBytes.toNat / cellBytes
    cells - cells / 2 = cells / 2 ∧ 0 < cells / 2 := by
  intro cells
  obtain ⟨-, whole⟩ := Config.validate_eq_ok_iff.mp valid
  obtain ⟨nonzero, multiple⟩ := whole kind
  have positive : 0 < c.tapeBytes.toNat := by
    have := UInt64.pos_iff_ne_zero.mpr nonzero
    simpa [UInt64.lt_iff_toNat_lt] using this
  have eighth : c.tapeBytes.toNat % 8 = 0 := by
    have := congrArg UInt64.toNat multiple
    simpa using this
  simp only [cells, cellBytes]
  omega

theorem inside_of_valid {c : Config} (kind : c.tape = .reserved) (valid : c.validate = .ok ()) :
    let cells := c.tapeBytes.toNat / cellBytes
    (∀ p, Inside cells p ↔ Window cells p) ∧ Inside cells (-1) ∧ Inside cells 0 := by
  intro cells
  obtain ⟨even, side⟩ := halves_of_valid kind valid
  change cells - cells / 2 = cells / 2 at even
  change 0 < cells / 2 at side
  refine ⟨fun p => ?_, ?_, ?_⟩
  · unfold Inside Window
    rw [even]
  · have value : (-1 : Position).toInt = -1 := by decide
    unfold Inside
    omega
  · have value : (0 : Position).toInt = 0 := Int64.toInt_zero
    unfold Inside
    omega

/-- After any writes to a fresh reservation, each position that it covers shows the last write to
it, and any other position is blank. A write to another position is refused and changes nothing.
Each cell belongs to exactly one position. -/
theorem holds_what_was_written_inside {memory : Memory} {size : UInt64} {start : Reserved}
    (allocated : allocate memory size = .ok start) (calls : List (Position × Symbol)) :
    let cells := size.toNat / 4
    let log := (Tape.attempts start calls).1
    let t := (Tape.attempts start calls).2
    t.capacity = cells ∧
    (∀ p s, (Tape.attempt t p s).1.fault =
      if Inside cells p then none else some (.outside p cells)) ∧
    (∀ p s, ¬Inside cells p → (Tape.attempt t p s).2 = t) ∧
    (log = calls.map fun c =>
      ⟨c.1, c.2, if Inside cells c.1 then none else some (.outside c.1 cells)⟩) ∧
    (∀ p, (∃ i, t.index? p = some i) ↔ Inside cells p) ∧
    (∀ p q i, t.index? p = some i → t.index? q = some i → p = q) ∧
    (∀ i, ∃ p, t.index? p = some i) ∧
    (∀ p, Tape.read t p = (Tape.lastDone? log p).getD .blank) ∧
    (∀ p, ¬Inside cells p → Tape.read t p = .blank) ∧
    (∃ stop, Tape.stop t = some stop ∧ stop.toInt = (cells - cells / 2 : Nat)) ∧
    ∀ c : Config, c.tape = .reserved → c.validate = .ok () →
      let cells := c.tapeBytes.toNat / 4
      (∀ p, Inside cells p ↔ -(cells / 2 : Nat) ≤ p.toInt ∧ p.toInt < (cells / 2 : Nat)) ∧
      Inside cells (-1) ∧ Inside cells 0 := by
  intro cells log t
  have start_capacity : start.capacity = cells := capacity_of_allocated allocated
  have capacity : t.capacity = cells := (start.capacity_attempts calls).trans start_capacity
  have small : t.capacity < 2 ^ 63 := by
    have bound := capacity_lt_of_allocated allocated
    have same := start.capacity_attempts calls
    change t.capacity = start.capacity at same
    unfold Growable.cellLimit at bound
    omega
  have fault (p : Position) :
      Tape.refusal? t p = if Inside cells p then none else some (.outside p cells) := by
    rw [← capacity]
    exact t.refusal_eq p
  refine ⟨capacity, fun p s => ?_, fun p s outside => ?_, ?_, fun p => ?_,
    fun p q i hp hq => index?_inj hp hq, exists_position small, fun p => ?_,
    fun p outside => ?_, ⟨t.stop, rfl, ?_⟩, fun c kind valid => inside_of_valid kind valid⟩
  · rw [Tape.fst_attempt, fault]
  · rw [Tape.attempt_of_refusal ((fault p).trans (if_neg outside))]
  · refine (Tape.fst_attempts start calls).trans (List.map_congr_left fun c _ => ?_)
    rw [← start_capacity]
    exact congrArg (Tape.Attempt.mk c.1 c.2) (start.refusal_eq c.1)
  · rw [← capacity]
    exact exists_index?_iff
  · rw [Tape.read_attempts]
    exact congrArg _ (read_of_allocated allocated p)
  · rw [← capacity] at outside
    exact read_of_not_inside outside
  · rw [← capacity]
    exact toInt_stop small

/-- Three cells and a byte left over: writes at both ends of the reservation, next to it and at the
least position. -/
theorem holds_what_was_written_inside_three_cells :
    let start : Reserved := { capacity := 3 }
    let calls := [(1, Symbol.ofChar 'a'), (2, .ofChar 'b'), (-1, .ofChar 'c'),
      (Int64.minValue, .ofChar 'd')]
    let log := (Tape.attempts start calls).1
    let t := (Tape.attempts start calls).2
    allocate .ample 13 = .ok start ∧
    log.map Tape.Attempt.fault =
      [none, some (.outside 2 3), none, some (.outside Int64.minValue 3)] ∧
    Tape.read t 1 = .ofChar 'a' ∧ Tape.read t (-1) = .ofChar 'c' ∧
    Tape.read t 0 = .blank ∧ Tape.read t 2 = .blank := by
  intro start calls log t
  have allocated : allocate .ample 13 = .ok start := rfl
  obtain ⟨-, -, -, hlog, -, -, -, read, outside, -⟩ :=
    holds_what_was_written_inside allocated calls
  have faults : log = calls.map fun c =>
      ⟨c.1, c.2, if Inside 3 c.1 then none else some (.outside c.1 3)⟩ := hlog
  have shown (p : Position) : Tape.read t p = (Tape.lastDone? log p).getD .blank := read p
  refine ⟨allocated, ?_, ?_, ?_, ?_, outside 2 (by decide)⟩
  · rw [faults]
    decide
  · rw [shown, faults]
    decide
  · rw [shown, faults]
    decide
  · rw [shown, faults]
    decide

end TapeMachine.Reserved
