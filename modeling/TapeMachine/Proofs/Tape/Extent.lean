import Mathlib.Algebra.Ring.Int.Defs
import TapeMachine.Proofs.Tape.Lawful
import TapeMachine.Proofs.Tape.Window

namespace TapeMachine.Growable

/-- How many cells the half of a position must have to hold it. -/
def cellsFor (p : Position) : Int := if 0 ≤ p.toInt then p.toInt + 1 else -p.toInt

theorem index_add_one (p : Position) : (index p + 1 : Nat) = cellsFor p := by
  simp only [index, leftIndex, cellsFor, Int64.le_iff_toInt_le, Int64.toInt_zero]
  split <;> omega

theorem refusal_eq (p : Position) :
    refusal? p = if 2 ^ 61 ≤ cellsFor p then some .capacityOverflow else none := by
  have h := index_add_one p
  unfold refusal? cellLimit
  by_cases limit : 2 ^ 61 ≤ cellsFor p
  · rw [if_pos limit, if_pos (by omega)]
  · rw [if_neg limit, if_neg (by omega)]

/-- The place of a position in 64-bit arithmetic that wraps around, as it does for the least
position. -/
theorem index_eq_wrapping (p : Position) :
    index p = (if 0 ≤ p then p else -p - 1).toUInt64.toNat := by
  have low := p.le_toInt
  have high := p.toInt_lt
  by_cases hp : 0 ≤ p
  · rw [index, if_pos hp, if_pos hp, Int64.toNat_toUInt64_of_le hp]
    rfl
  · have negative : p.toInt < 0 := by
      rw [Int64.le_iff_toInt_le, Int64.toInt_zero] at hp
      omega
    have value : (-p - 1).toInt = -p.toInt - 1 := by
      rw [Int64.toInt_sub, Int64.toInt_neg, Int64.toInt_one, Int.bmod_sub_bmod]
      apply Int.bmod_eq_of_le <;> omega
    have positive : 0 ≤ -p - 1 := by
      rw [Int64.le_iff_toInt_le, Int64.toInt_zero, value]
      omega
    rw [index, if_neg hp, if_neg hp, Int64.toNat_toUInt64_of_le positive, leftIndex, ← value]
    rfl

theorem size_right_set_eq (t : Growable) (p : Position) (s : Symbol) :
    ((t.set p s).right.size : Int) = Max.max (t.right.size : Int) (p.toInt + 1) := by
  have h := index_add_one p
  unfold set
  by_cases hp : 0 ≤ p
  · rw [if_pos hp, size_put]
    rw [Int64.le_iff_toInt_le, Int64.toInt_zero] at hp
    rw [cellsFor, if_pos hp] at h
    omega
  · rw [if_neg hp, Int.max_eq_left]
    rw [Int64.le_iff_toInt_le, Int64.toInt_zero] at hp
    omega

theorem size_left_set_eq (t : Growable) (p : Position) (s : Symbol) :
    -((t.set p s).left.size : Int) = Min.min (-(t.left.size : Int)) p.toInt := by
  have h := index_add_one p
  unfold set
  by_cases hp : 0 ≤ p
  · rw [if_pos hp, Int.min_eq_left]
    rw [Int64.le_iff_toInt_le, Int64.toInt_zero] at hp
    omega
  · rw [if_neg hp, size_put]
    rw [Int64.le_iff_toInt_le, Int64.toInt_zero] at hp
    rw [cellsFor, if_neg hp] at h
    omega

/-- Both halves can be addressed. -/
structure Fits (t : Growable) : Prop where
  left : t.left.size < cellLimit
  right : t.right.size < cellLimit

theorem Fits.set {t : Growable} (h : t.Fits) {p : Position} (accepted : refusal? p = none)
    (s : Symbol) : (t.set p s).Fits := by
  obtain ⟨left, right⟩ := h
  have enough : index p + 1 < cellLimit := by
    unfold refusal? at accepted
    split at accepted
    next => simp at accepted
    next limit => exact Nat.lt_of_not_le limit
  unfold Growable.set
  split
  · exact ⟨left, by rw [size_put]; exact Nat.max_lt.mpr ⟨right, enough⟩⟩
  · exact ⟨by rw [size_put]; exact Nat.max_lt.mpr ⟨left, enough⟩, right⟩

theorem Fits.toInt_max {t : Growable} (h : t.Fits) : t.max.toInt = t.right.size := by
  have := h.right
  unfold cellLimit at this
  exact Int64.toInt_ofNat_of_lt (by omega)

theorem Fits.toInt_min {t : Growable} (h : t.Fits) : t.min.toInt = -t.left.size := by
  have := h.left
  unfold cellLimit at this
  exact Int64.toInt_neg_ofNat_of_le (by omega)

theorem fits_attempts (calls : List (Position × Symbol)) : (Tape.attempts empty calls).2.Fits :=
  Tape.attempts_keep ⟨by decide, by decide⟩ (fun accepted fits s => fits.set accepted s) calls

/-- After any writes, each cell shows the last write to it that was done, and the bounds are those
of the writes that were done. A write is refused if its half would need too many cells, and then
it changes nothing. -/
theorem holds_what_was_written (calls : List (Position × Symbol)) :
    let log := (Tape.attempts empty calls).1
    let t := (Tape.attempts empty calls).2
    (∀ p s, (Tape.attempt t p s).1.fault =
      if 2 ^ 61 ≤ cellsFor p then some .capacityOverflow else none) ∧
    (∀ p s, 2 ^ 61 ≤ cellsFor p → (Tape.attempt t p s).2 = t) ∧
    (log = calls.map fun c =>
      ⟨c.1, c.2, if 2 ^ 61 ≤ cellsFor c.1 then some .capacityOverflow else none⟩) ∧
    (∀ p, Tape.read t p = (Tape.lastDone? log p).getD .blank) ∧
    t.max.toInt = ((Tape.donePositions log).map fun p => p.toInt + 1).foldl Max.max 0 ∧
    Tape.stop t = some t.max ∧
    t.min.toInt = ((Tape.donePositions log).map Int64.toInt).foldl Min.min 0 ∧
    (∀ p, index p = (if 0 ≤ p then p else -p - 1).toUInt64.toNat) := by
  intro log t
  have fits : t.Fits := fits_attempts calls
  have fault (p : Position) : Tape.refusal? t p = _ := refusal_eq p
  refine ⟨fun p s => ?_, fun p s limit => ?_, ?_, fun p => ?_, ?_, rfl, ?_, index_eq_wrapping⟩
  · rw [Tape.fst_attempt, fault]
  · rw [Tape.attempt_of_refusal ((fault p).trans (if_pos limit))]
  · refine (Tape.fst_attempts empty calls).trans (List.map_congr_left fun c _ => ?_)
    exact congrArg (Tape.Attempt.mk c.1 c.2) (refusal_eq c.1)
  · rw [Tape.read_attempts]
    exact congrArg _ (read_empty p)
  · rw [fits.toInt_max, List.foldl_map]
    exact Tape.attempts_measure (fun t : Growable => (t.right.size : Int)) _
      (fun t p s _ => size_right_set_eq t p s) empty calls
  · rw [fits.toInt_min, List.foldl_map]
    exact Tape.attempts_measure (fun t : Growable => -(t.left.size : Int)) _
      (fun t p s _ => size_left_set_eq t p s) empty calls

/-- A write on each side, and between them one at the least position, which is refused. -/
example :
    (Tape.attempts empty [(-1, .ofChar 'a'), (Int64.minValue, .ofChar 'b'), (2, .ofChar 'c')]).2 =
      ⟨#[.ofChar 'a'], #[.blank, .blank, .ofChar 'c']⟩ := by decide +kernel

end TapeMachine.Growable
