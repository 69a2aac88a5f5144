import TapeMachine.Proofs.Tape.Embedding
import TapeMachine.Proofs.Tape.Room

namespace TapeMachine

/-- How many cells a tape of this configuration has from the origin on. -/
def Config.room (c : Config) : Nat :=
  match c.tape with
  | .growable => Growable.cellLimit - 1
  | .reserved => c.tapeBytes.toNat / Reserved.cellBytes / 2

/-- The positions that a tape of this configuration can hold. -/
def Config.Holds (c : Config) (p : Position) : Prop :=
  match c.tape with
  | .growable => Growable.cellsFor p < 2 ^ 61
  | .reserved => Reserved.Inside (c.tapeBytes.toNat / Reserved.cellBytes) p

instance (c : Config) (p : Position) : Decidable (c.Holds p) :=
  match c with
  | ⟨.growable, _, _⟩ => inferInstanceAs (Decidable (Growable.cellsFor p < 2 ^ 61))
  | ⟨.reserved, size, _⟩ =>
    inferInstanceAs (Decidable (Reserved.Inside (size.toNat / Reserved.cellBytes) p))

/-- A blank tape with just so much room from the origin on, whose bound lies behind all that is
laid out there. -/
structure Tape.Fresh {T : Type} [Tape T] (t : T) (room : Nat) : Prop where
  extent : Tape.Room t room
  blank : ∀ p, Tape.read t p = .blank
  stop : ∀ xs : List Symbol, xs.length ≤ room →
    ∃ stop, Tape.stop (Tape.place t 0 xs).2 = some stop ∧ xs.length ≤ stop.toInt

theorem Growable.fresh : Tape.Fresh Growable.empty (Growable.cellLimit - 1) where
  extent := Growable.empty.room
  blank := Growable.read_empty
  stop xs fits := by
    have small : xs.length < Growable.cellLimit := Nat.lt_of_le_pred (by decide) fits
    exact ⟨_, rfl, Int.le_of_eq (Growable.toInt_max_place small).symm⟩

theorem Reserved.fresh {memory : Memory} {size : UInt64} {t : Reserved}
    (allocated : Reserved.allocate memory size = .ok t) :
    Tape.Fresh t (t.capacity - t.capacity / 2) where
  extent := by
    have bound := Reserved.capacity_lt_of_allocated allocated
    unfold Growable.cellLimit at bound
    exact Reserved.room (by omega)
  blank := Reserved.read_of_allocated allocated
  stop xs fits := by
    have bound := Reserved.capacity_lt_of_allocated allocated
    have same := t.capacity_place 0 xs
    unfold Growable.cellLimit at bound
    refine ⟨_, rfl, ?_⟩
    rw [Reserved.toInt_stop (by omega), same]
    omega

theorem Configured.embedding_growable : TapeEmbedding Configured.growable where
  read _ _ := rfl
  refusal _ _ := rfl
  set _ _ _ := rfl
  stop _ := rfl

theorem TapeEmbedding.fresh {S T : Type} [Tape S] [Tape T] {φ : S → T} (e : TapeEmbedding φ)
    {t : S} {room : Nat} (h : Tape.Fresh t room) : Tape.Fresh (φ t) room where
  extent := by
    obtain ⟨writable, refused⟩ := h.extent
    refine ⟨fun i hi => ?_, ?_⟩
    · obtain ⟨p, hp, accepted⟩ := writable i hi
      exact ⟨p, hp, (e.refusal t p).trans accepted⟩
    · rw [e.refusal]
      exact refused
  blank p := (e.read t p).trans (h.blank p)
  stop xs fits := by
    rw [e.place, e.stop]
    exact h.stop xs fits

theorem Configured.allocate_cases {memory : Memory} {c : Config} {t : Configured}
    (allocated : Configured.allocate memory c = .ok t) :
    (c.tape = .growable ∧ t = .growable .empty) ∨
      ∃ r, c.tape = .reserved ∧ Reserved.allocate memory c.tapeBytes = .ok r ∧ t = .reserved r := by
  unfold Configured.allocate at allocated
  cases kind : c.tape with
  | growable =>
    rw [kind] at allocated
    cases allocated
    exact Or.inl ⟨rfl, rfl⟩
  | reserved =>
    simp only [kind] at allocated
    cases reservation : Reserved.allocate memory c.tapeBytes with
    | error i => simp [reservation, Except.map] at allocated
    | ok r =>
      rw [reservation] at allocated
      cases allocated
      exact Or.inr ⟨r, rfl, rfl, rfl⟩

theorem Configured.fresh {memory : Memory} {c : Config} {t : Configured}
    (valid : c.validate = .ok ()) (allocated : Configured.allocate memory c = .ok t) : Tape.Fresh t c.room := by
  unfold Config.room
  obtain ⟨kind, rfl⟩ | ⟨r, kind, reservation, rfl⟩ := Configured.allocate_cases allocated
  · rw [kind]
    exact Configured.embedding_growable.fresh Growable.fresh
  · have fresh := Configured.embedding_reserved.fresh (Reserved.fresh reservation)
    obtain ⟨even, -⟩ := Reserved.halves_of_valid kind valid
    rw [Reserved.capacity_of_allocated reservation, even] at fresh
    rw [kind]
    exact fresh

namespace Configured

def Fits : Configured → Prop
  | growable t => t.Fits
  | reserved t => t.capacity < Growable.cellLimit

theorem Fits.set {t : Configured} {p : Position} (accepted : Tape.refusal? t p = none)
    (h : t.Fits) (s : Symbol) : (Tape.set t p s).Fits := by
  cases t with
  | growable t => exact Growable.Fits.set h accepted s
  | reserved t => exact Nat.lt_of_le_of_lt (Nat.le_of_eq (t.capacity_set p s)) h

theorem Fits.stop_lt {t : Configured} (h : t.Fits) : t.stop < Int64.maxValue := by
  cases t with
  | growable t => exact Growable.max_lt h.right
  | reserved t => exact Reserved.stop_lt h

theorem fits_of_allocated {memory : Memory} {c : Config} {t : Configured}
    (allocated : Configured.allocate memory c = .ok t) : t.Fits := by
  obtain ⟨-, rfl⟩ | ⟨r, -, reservation, rfl⟩ := allocate_cases allocated
  · exact ⟨by decide, by decide⟩
  · exact Reserved.capacity_lt_of_allocated reservation

end Configured

namespace Emission

variable {T : Type} [Tape T] {t : T} {room : Nat} {xs : List Symbol}

theorem scanFrom_eq_takeWhile (t : T) (a : Alphabet) (count : Nat) (p : Position) :
    scanFrom t a count p = (Tape.cells t p count).takeWhile (· ∈ a) := by
  induction count generalizing p with
  | zero => rfl
  | succ count ih =>
    rw [scanFrom, Tape.cells_succ, List.takeWhile_cons, ih]
    simp only [decide_eq_true_eq]

theorem takeWhile_append_blank {a : Alphabet} (blank : Symbol.blank ∉ a) (xs : List Symbol)
    (n : Nat) :
    (xs ++ List.replicate n Symbol.blank).takeWhile (· ∈ a) = xs.takeWhile (· ∈ a) := by
  induction xs with
  | nil =>
    cases n with
    | zero => rfl
    | succ n => simp [List.replicate_succ, blank]
  | cons s xs ih =>
    rw [List.cons_append, List.takeWhile_cons, List.takeWhile_cons, ih]

variable [LawfulTape T]

/-- Of symbols laid out on a fresh tape a scan finds those before the first that is not in the
alphabet. -/
theorem scan_place (h : Tape.Fresh t room) (fits : xs.length ≤ room) {a : Alphabet}
    (blank : Symbol.blank ∉ a) :
    scan (Tape.place t 0 xs).2 0 a = xs.takeWhile (· ∈ a) := by
  obtain ⟨stop, bound, behind⟩ := h.stop xs fits
  have high := stop.toInt_lt
  have count : reach (Tape.place t 0 xs).2 0 = stop.toInt.toNat := by
    rw [reach_of_stop bound, Int64.toInt_zero, Int.sub_zero]
  rw [scan, count, scanFrom_eq_takeWhile,
    Tape.cells_place h.extent.writable fits h.blank (by omega) (by omega),
    takeWhile_append_blank blank]

end Emission

theorem Tape.Fresh.read_zero {T : Type} [Tape T] [LawfulTape T] {t : T} {room : Nat}
    {xs : List Symbol} (h : Tape.Fresh t room) (fits : xs.length ≤ room) :
    Tape.read (Tape.place t 0 xs).2 0 = xs.headD .blank := by
  have enough : 0 + xs.length ≤ room := by omega
  have shown := Tape.read_place h.extent.writable enough 0
  rw [Int64.toInt_zero, if_pos (by omega), h.blank] at shown
  refine shown.trans ?_
  cases xs <;> rfl

end TapeMachine
