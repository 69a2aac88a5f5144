import TapeMachine.Proofs.Tape.Lawful
import TapeMachine.Proofs.Tape.Traced

namespace TapeMachine

/-- The positions that are as far from the origin as half the cells, or nearer. -/
def Reserved.Window (cells : Nat) (p : Position) : Prop :=
  -(cells / 2 : Nat) ≤ p.toInt ∧ p.toInt < (cells / 2 : Nat)

instance (cells : Nat) (p : Position) : Decidable (Reserved.Window cells p) :=
  inferInstanceAs (Decidable (_ ∧ _))

namespace Growable

theorem size_put (half : Array Symbol) (i : Nat) (s : Symbol) :
    (put half i s).size = Max.max half.size (i + 1) := by
  unfold put
  split
  next h => rw [Array.size_set, Nat.max_eq_left h]
  next h =>
    rw [Array.size_push, Array.size_append, Array.size_replicate]
    omega

theorem max_lt {t : Growable} (small : t.right.size < cellLimit) : t.max < Int64.maxValue := by
  have last : Int64.maxValue.toInt = 2 ^ 63 - 1 := rfl
  unfold cellLimit at small
  rw [Int64.lt_iff_toInt_lt, max, Int64.toInt_ofNat_of_lt (by omega)]
  omega

theorem read_empty (p : Position) : Growable.empty.read p = .blank := by
  unfold read
  split <;> simp [empty]

end Growable

/-- A mapping that was had from the system is not at the null address, and lies in the lower half of
the address space. -/
theorem Mapping.of_allocated {memory : Memory} {size : UInt64} {m : Mapping}
    (h : allocate memory size = .ok m) :
    0 < m.base.toNat ∧ 0 < size.toNat ∧ m.base.toNat + size.toNat ≤ 2 ^ 63 ∧
      m.tape = { capacity := size.toNat / Reserved.cellBytes } := by
  unfold allocate at h
  split at h
  next => simp at h
  next base reserved =>
    split at h
    next => simp at h
    next nonnull =>
      cases h
      have placed := memory.end_le reserved
      have filled : size ≠ 0 := by
        rintro rfl
        rw [memory.reserve_zero] at reserved
        cases reserved
      exact ⟨UInt64.pos_iff_ne_zero.mpr nonnull, UInt64.pos_iff_ne_zero.mpr filled, placed, rfl⟩

namespace Reserved

theorem stop_lt {t : Reserved} (small : t.capacity < Growable.cellLimit) :
    t.stop < Int64.maxValue := by
  have last : Int64.maxValue.toInt = 2 ^ 63 - 1 := rfl
  unfold Growable.cellLimit at small
  rw [Int64.lt_iff_toInt_lt, stop, Int64.toInt_ofNat_of_lt (by omega)]
  omega

theorem capacity_set (t : Reserved) (p : Position) (s : Symbol) :
    (t.set p s).capacity = t.capacity := by
  unfold set
  split <;> rfl

theorem capacity_place (t : Reserved) (p : Position) (xs : List Symbol) :
    (Tape.place t p xs).2.capacity = t.capacity := by
  induction xs generalizing t p with
  | nil => rfl
  | cons s xs ih =>
    rw [Tape.place]
    cases Tape.refusal? t p with
    | none => exact (ih (t.set p s) (p + 1)).trans (t.capacity_set p s)
    | some f => rfl

theorem isSome_index?_zero {t : Reserved} (h : 0 < t.capacity) : (t.index? 0).isSome := by
  have inside : (0 : Position).toInt + t.origin < t.capacity := by
    rw [origin, Int64.toInt_zero]
    omega
  rw [index?, dif_pos ⟨Int.add_nonneg (by decide) (Int.natCast_nonneg _), inside⟩]
  rfl

theorem exists_mapping {memory : Memory} {size : UInt64} {t : Reserved}
    (h : allocate memory size = .ok t) :
    ∃ m, Mapping.allocate memory size = .ok m ∧ m.tape = t := by
  unfold allocate at h
  cases mapped : Mapping.allocate memory size with
  | error e => simp [mapped, Except.map] at h
  | ok m =>
    rw [mapped] at h
    exact ⟨m, rfl, Except.ok.inj h⟩

theorem eq_of_allocated {memory : Memory} {size : UInt64} {t : Reserved}
    (h : allocate memory size = .ok t) :
    size.toNat < 2 ^ 63 ∧ t = { capacity := size.toNat / cellBytes } := by
  obtain ⟨m, mapped, rfl⟩ := exists_mapping h
  obtain ⟨low, -, high, fresh⟩ := Mapping.of_allocated mapped
  exact ⟨by omega, fresh⟩

theorem read_of_allocated {memory : Memory} {size : UInt64} {t : Reserved}
    (h : allocate memory size = .ok t) (p : Position) : t.read p = .blank := by
  obtain ⟨-, rfl⟩ := eq_of_allocated h
  unfold read
  split <;> simp

theorem capacity_of_allocated {memory : Memory} {size : UInt64} {t : Reserved}
    (h : allocate memory size = .ok t) : t.capacity = size.toNat / cellBytes := by
  obtain ⟨-, rfl⟩ := eq_of_allocated h
  rfl

theorem capacity_lt_of_allocated {memory : Memory} {size : UInt64} {t : Reserved}
    (h : allocate memory size = .ok t) : t.capacity < Growable.cellLimit := by
  obtain ⟨small, rfl⟩ := eq_of_allocated h
  unfold cellBytes Growable.cellLimit
  simp only
  omega

end Reserved

end TapeMachine
