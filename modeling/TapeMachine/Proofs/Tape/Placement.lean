import TapeMachine.Proofs.Tape.Lawful

namespace TapeMachine

namespace Tape

variable {T : Type} [Tape T]

theorem place_append (t : T) (p : Position) (xs ys : List Symbol) :
    place t p (xs ++ ys) =
      match place t p xs with
      | (.error f, t) => (.error f, t)
      | (.ok q, t) => place t q ys := by
  induction xs generalizing t p with
  | nil => rfl
  | cons s xs ih =>
    rw [List.cons_append, place, place]
    cases refusal? t p with
    | none => exact ih (set t p s) (p + 1)
    | some f => rfl

/-- The first `k` cells from the origin on exist and can be written. -/
def Writable (t : T) (k : Nat) : Prop :=
  ∀ i : Nat, i < k → ∃ p : Position, p.toInt = i ∧ refusal? t p = none

theorem Writable.refusal {t : T} {k i : Nat} (w : Writable t k) (h : i < k) :
    i < 2 ^ 63 ∧ refusal? t (Int64.ofNat i) = none := by
  obtain ⟨p, hp, hr⟩ := w i h
  have lt := p.toInt_lt
  have small : i < 2 ^ 63 := by omega
  have he : p = Int64.ofNat i := by
    rw [← Int64.toInt_inj, Int64.toInt_ofNat_of_lt small, hp]
  exact ⟨small, he ▸ hr⟩

theorem Writable.le {t : T} {k : Nat} (w : Writable t k) : k ≤ 2 ^ 63 := by
  cases k with
  | zero => omega
  | succ k => exact (w.refusal (Nat.lt_succ_self k)).1

theorem ofNat_succ (n : Nat) : Int64.ofNat n + 1 = Int64.ofNat (n + 1) := (Int64.ofNat_add n 1).symm

theorem eq_ofNat_iff {p : Position} {n : Nat} (h : n < 2 ^ 63) :
    p = Int64.ofNat n ↔ p.toInt = n := by
  rw [← Int64.toInt_inj, Int64.toInt_ofNat_of_lt h]

theorem place_cons_of_writable {t : T} {k n : Nat} {s : Symbol} {xs : List Symbol}
    (w : Writable t k) (h : n < k) :
    place t (Int64.ofNat n) (s :: xs) =
      place (set t (Int64.ofNat n) s) (Int64.ofNat (n + 1)) xs := by
  rw [place, (w.refusal h).2, ofNat_succ]

variable [LawfulTape T]

theorem Writable.set {t : T} {k : Nat} (w : Writable t k) (p : Position) (s : Symbol) :
    Writable (Tape.set t p s) k := by
  intro i hi
  obtain ⟨q, hq, hr⟩ := w i hi
  exact ⟨q, hq, by rw [LawfulTape.refusal_set, hr]⟩

theorem place_of_writable {t : T} {k n : Nat} {xs : List Symbol} (w : Writable t k)
    (h : n + xs.length ≤ k) :
    place t (Int64.ofNat n) xs =
      (.ok (Int64.ofNat (n + xs.length)), (place t (Int64.ofNat n) xs).2) := by
  induction xs generalizing t n with
  | nil => rfl
  | cons s xs ih =>
    rw [List.length_cons] at h
    rw [place_cons_of_writable w (by omega), ih (w.set _ s) (by omega), List.length_cons,
      Nat.add_right_comm, Nat.add_assoc]

/-- After a placement in writable cells they hold its symbols, and no other cell has changed. -/
theorem read_place {t : T} {k n : Nat} {xs : List Symbol} (w : Writable t k)
    (h : n + xs.length ≤ k) (q : Position) :
    read (place t (Int64.ofNat n) xs).2 q =
      if (n : Int) ≤ q.toInt then xs[(q.toInt - n).toNat]?.getD (read t q) else read t q := by
  induction xs generalizing t n with
  | nil => simp [place]
  | cons s xs ih =>
    rw [List.length_cons] at h
    have hn : n < k := by omega
    have hw := w.refusal hn
    rw [place_cons_of_writable w hn, ih (w.set _ s) (by omega), LawfulTape.read_set _ _ _ _ hw.2]
    simp only [eq_ofNat_iff hw.1]
    rcases Int.lt_trichotomy q.toInt n with lt | eq | gt
    · rw [if_neg (by omega), if_neg (by omega), if_neg (by omega)]
    · rw [if_neg (by omega), if_pos eq, if_pos (by omega)]
      simp [eq]
    · have hi : (q.toInt - n).toNat = (q.toInt - (n + 1 : Nat)).toNat + 1 := by omega
      rw [if_pos (by omega), if_neg (by omega), if_pos (by omega), hi, List.getElem?_cons_succ]

theorem read_place_inside {t : T} {xs : List Symbol} (w : Writable t xs.length) {p : Position}
    {i : Nat} (hi : p.toInt = i) (lt : i < xs.length) :
    xs[i]? = some (read (place t 0 xs).2 p) := by
  have shown := read_place w (Nat.le_of_eq (Nat.zero_add _)) p
  have position : (p.toInt - (0 : Nat)).toNat = i := by omega
  rw [if_pos (by omega), position, List.getElem?_eq_getElem lt, Option.getD_some] at shown
  rw [List.getElem?_eq_getElem lt]
  exact congrArg some shown.symm

theorem read_place_outside {t : T} {xs : List Symbol} (w : Writable t xs.length) {p : Position}
    (outside : p.toInt < 0 ∨ xs.length ≤ p.toInt) : read (place t 0 xs).2 p = read t p := by
  refine (read_place w (Nat.le_of_eq (Nat.zero_add _)) p).trans ?_
  split
  next => rw [List.getElem?_eq_none (by omega), Option.getD_none]
  next => rfl

end Tape

theorem Growable.writable (t : Growable) {k : Nat} (h : k < Growable.cellLimit) :
    Tape.Writable t k := by
  intro i hi
  unfold cellLimit at h
  have ht : (Int64.ofNat i).toInt = i := Int64.toInt_ofNat_of_lt (by omega)
  refine ⟨Int64.ofNat i, ht, ?_⟩
  have hp : 0 ≤ Int64.ofNat i := by
    rw [Int64.le_iff_toInt_le, Int64.toInt_zero, ht]
    omega
  have hx : index (Int64.ofNat i) = i := by
    rw [index, if_pos hp, ht, Int.toNat_natCast]
  change refusal? _ = none
  rw [refusal?, hx, cellLimit, if_neg (by omega)]

end TapeMachine
