import TapeMachine.Proofs.Tape.Extent
import TapeMachine.Proofs.Tape.Placement
import TapeMachine.Proofs.Tape.Reservation

namespace TapeMachine

namespace Tape

variable {T : Type} [Tape T]

/-- There are just so many cells to write from the origin on. -/
structure Room (t : T) (room : Nat) : Prop where
  writable : Writable t room
  refused : ∃ f, refusal? t (Int64.ofNat room) = some f

variable [LawfulTape T]

theorem refusal_place (t : T) (p q : Position) (xs : List Symbol) :
    refusal? (place t p xs).2 q = refusal? t q := by
  induction xs generalizing t p with
  | nil => rfl
  | cons s xs ih =>
    rw [place]
    cases refusal? t p with
    | none => rw [ih, LawfulTape.refusal_set]
    | some f => rfl

theorem Room.place_of_lt {t : T} {room : Nat} (h : Room t room) {xs : List Symbol}
    (more : room < xs.length) :
    ∃ f, refusal? t (Int64.ofNat room) = some f ∧
      place t 0 xs = (.error f, (place t 0 (xs.take room)).2) := by
  obtain ⟨f, refused⟩ := h.refused
  have fits : 0 + (xs.take room).length ≤ room := by
    rw [List.length_take]
    omega
  have cursor : 0 + (xs.take room).length = room := by
    rw [List.length_take]
    omega
  have placed := place_of_writable h.writable fits
  rw [cursor] at placed
  obtain ⟨s, rest, hrest⟩ := List.exists_cons_of_length_pos (l := xs.drop room) (by
    rw [List.length_drop]
    omega)
  have refused' := (refusal_place t 0 (Int64.ofNat room) (xs.take room)).trans refused
  have whole : place t 0 (xs.take room ++ s :: rest) =
      (.error f, (place t 0 (xs.take room)).2) := by
    have start : place t 0 (xs.take room) =
        (.ok (Int64.ofNat room), (place t 0 (xs.take room)).2) := placed
    rw [place_append, start]
    simp only
    rw [place, refused']
  rw [← hrest, List.take_append_drop] at whole
  exact ⟨f, refused, whole⟩

theorem cells_place {t : T} {k : Nat} {xs : List Symbol} (w : Writable t k)
    (fits : xs.length ≤ k) (blank : ∀ p, read t p = .blank) {count : Nat}
    (shown : xs.length ≤ count) (small : count ≤ 2 ^ 63) :
    cells (place t 0 xs).2 0 count = xs ++ List.replicate (count - xs.length) .blank := by
  have start : (0 : Position) = Int64.ofNat 0 := rfl
  apply List.ext_getElem?
  intro i
  by_cases hi : i < count
  · have value : (Int64.ofNat i).toInt = i := Int64.toInt_ofNat_of_lt (by omega)
    have enough : 0 + xs.length ≤ k := by omega
    have cell := read_place w enough (Int64.ofNat i)
    rw [value, if_pos (by omega), blank] at cell
    have position : (i - (0 : Nat) : Int).toNat = i := by omega
    rw [position] at cell
    rw [cells, List.getElem?_map, List.getElem?_range hi, Option.map_some, Int64.zero_add, start,
      cell, List.getElem?_append, List.getElem?_replicate]
    by_cases inside : i < xs.length
    · rw [if_pos inside, List.getElem?_eq_getElem inside, Option.getD_some]
    · rw [if_neg inside, if_pos (by omega), List.getElem?_eq_none (by omega), Option.getD_none]
  · have length := length_cells (place t 0 xs).2 0 count
    rw [List.getElem?_eq_none (by omega), List.getElem?_eq_none]
    rw [List.length_append, List.length_replicate]
    omega

end Tape

namespace Growable

theorem room (t : Growable) : Tape.Room t (cellLimit - 1) where
  writable := t.writable (by decide)
  refused := by
    have full : refusal? (Int64.ofNat (cellLimit - 1)) = some .capacityOverflow := by decide
    exact ⟨.capacityOverflow, full⟩

theorem size_right_place {t : Growable} {n : Nat} {xs : List Symbol}
    (fits : n + xs.length < cellLimit) (size : t.right.size = n) :
    (Tape.place t (Int64.ofNat n) xs).2.right.size = n + xs.length := by
  induction xs generalizing t n with
  | nil => exact size
  | cons s xs ih =>
    rw [List.length_cons] at fits ⊢
    have writable := t.writable (k := n + 1) (by omega)
    have value : (Int64.ofNat n).toInt = n := Int64.toInt_ofNat_of_lt (by
      have := fits
      unfold cellLimit at this
      omega)
    have grown := size_right_set_eq t (Int64.ofNat n) s
    rw [value, size] at grown
    have next : (t.set (Int64.ofNat n) s).right.size = n + 1 := by omega
    rw [Tape.place_cons_of_writable writable (Nat.lt_succ_self n)]
    have rest := ih (t := t.set (Int64.ofNat n) s) (n := n + 1) (by omega) next
    refine rest.trans ?_
    omega

theorem toInt_max_place {xs : List Symbol} (fits : xs.length < cellLimit) :
    (Tape.place empty 0 xs).2.max.toInt = xs.length := by
  have enough : 0 + xs.length < cellLimit := by omega
  have size := size_right_place enough (show empty.right.size = 0 from rfl)
  have start : (0 : Position) = Int64.ofNat 0 := rfl
  unfold cellLimit at fits
  rw [max, start, size, Nat.zero_add]
  exact Int64.toInt_ofNat_of_lt (by omega)

end Growable

namespace Reserved

theorem refusal_room {t : Reserved} (small : t.capacity < 2 ^ 63) :
    Tape.refusal? t (Int64.ofNat (t.capacity - t.capacity / 2)) =
      some (.outside (Int64.ofNat (t.capacity - t.capacity / 2)) t.capacity) := by
  have value : (Int64.ofNat (t.capacity - t.capacity / 2)).toInt =
      (t.capacity - t.capacity / 2 : Nat) := Int64.toInt_ofNat_of_lt (by omega)
  have outside : ¬Inside t.capacity (Int64.ofNat (t.capacity - t.capacity / 2)) := by
    unfold Inside
    omega
  exact (t.refusal_eq _).trans (if_neg outside)

theorem room {t : Reserved} (small : t.capacity < 2 ^ 63) :
    Tape.Room t (t.capacity - t.capacity / 2) where
  writable := by
    intro i hi
    have value : (Int64.ofNat i).toInt = i := Int64.toInt_ofNat_of_lt (by omega)
    have inside : Inside t.capacity (Int64.ofNat i) := by
      unfold Inside
      omega
    exact ⟨Int64.ofNat i, value, (t.refusal_eq _).trans (if_pos inside)⟩
  refused := ⟨_, refusal_room small⟩

end Reserved

end TapeMachine
