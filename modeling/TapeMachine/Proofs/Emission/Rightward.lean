import TapeMachine.Proofs.Emission.Bound

namespace TapeMachine

namespace Emission

variable {T : Type} [Tape T] {t : T} {head : Position} {a : Alphabet}

def visitedFrom (t : T) (a : Alphabet) : (count : Nat) → Position → List Position
  | 0, _ => []
  | count + 1, p => if Tape.read t p ∈ a then p :: visitedFrom t a count (p + 1) else []

def visited (t : T) (head : Position) (a : Alphabet) : List Position :=
  visitedFrom t a (reach t head) head

theorem map_visitedFrom (t : T) (a : Alphabet) (count : Nat) (p : Position) :
    (visitedFrom t a count p).map (Tape.read t) = scanFrom t a count p := by
  induction count generalizing p with
  | zero => rfl
  | succ count ih =>
    rw [visitedFrom, scanFrom]
    split
    next => rw [List.map_cons, ih]
    next => rfl

theorem map_visited (t : T) (head : Position) (a : Alphabet) :
    (visited t head a).map (Tape.read t) = scan t head a := map_visitedFrom t a _ head

/-- So many positions from one on, with the first one after the last. -/
def onward (p : Position) (count : Nat) : List Position :=
  (List.range count).map fun i => p + Int64.ofNat i

theorem onward_succ (p : Position) (count : Nat) :
    onward p (count + 1) = p :: onward (p + 1) count := by
  have first : p + Int64.ofNat 0 = p := Int64.add_zero p
  rw [onward, onward, List.range_succ_eq_map, List.map_cons, List.map_map, first]
  congr 1
  exact List.map_congr_left fun i _ => Tape.add_ofNat_succ p i

theorem getElem?_onward {p q : Position} {count i : Nat} :
    (onward p count)[i]? = some q ↔ i < count ∧ q = p + Int64.ofNat i := by
  rw [onward, List.getElem?_map, Option.map_eq_some_iff]
  constructor
  · rintro ⟨j, hj, rfl⟩
    obtain ⟨lt, same⟩ := List.getElem?_eq_some_iff.mp hj
    rw [List.length_range] at lt
    rw [List.getElem_range] at same
    exact ⟨lt, by rw [same]⟩
  · rintro ⟨lt, rfl⟩
    exact ⟨i, List.getElem?_range lt, rfl⟩

theorem visitedFrom_eq_onward (t : T) (a : Alphabet) (count : Nat) (p : Position) :
    visitedFrom t a count p = onward p (scanFrom t a count p).length := by
  induction count generalizing p with
  | zero => rfl
  | succ count ih =>
    rw [visitedFrom, scanFrom]
    split
    next => rw [List.length_cons, onward_succ, ih]
    next => rfl

theorem visited_eq_onward (t : T) (head : Position) (a : Alphabet) :
    visited t head a = onward head (scan t head a).length := visitedFrom_eq_onward t a _ head

/-- The positions follow one another from the head on: none is left of it, and each is the next one
after the one before. -/
structure Rightward (head : Position) (ps : List Position) : Prop where
  from_head : ∀ p ∈ ps, head ≤ p
  increasing : ps.Pairwise (· < ·)
  gapless : ∀ (i : Nat) (p : Position), ps[i]? = some p → p.toInt = head.toInt + i

theorem Rightward.of_gapless {ps : List Position}
    (gapless : ∀ (i : Nat) (p : Position), ps[i]? = some p → p.toInt = head.toInt + i) :
    Rightward head ps where
  from_head p hp := by
    obtain ⟨i, hi⟩ := List.mem_iff_getElem?.mp hp
    have place := gapless i p hi
    rw [Int64.le_iff_toInt_le]
    omega
  increasing := by
    rw [List.pairwise_iff_getElem]
    intro i j hi hj lt
    have left := gapless i _ (List.getElem?_eq_getElem hi)
    have right := gapless j _ (List.getElem?_eq_getElem hj)
    rw [Int64.lt_iff_toInt_lt]
    omega
  gapless := gapless

theorem rightward_onward {count : Nat} (inside : count ≤ ahead head) :
    Rightward head (onward head count) := by
  have whole := toInt_add_ahead head
  apply Rightward.of_gapless
  intro i p hi
  obtain ⟨lt, rfl⟩ := getElem?_onward.mp hi
  exact toInt_add_ofNat (by omega)

/-- A cell is visited if a scan can go on as far as there: it and all cells from the head on come
before the bound and hold members, and it is not the last one there is. -/
theorem mem_visited_iff (p : Position) :
    p ∈ visited t head a ↔
      head ≤ p ∧ p < Int64.maxValue ∧
        ∀ q, head ≤ q → q ≤ p →
          (∀ stop, Tape.stop t = some stop → q < stop) ∧ Tape.read t q ∈ a := by
  have whole := toInt_add_ahead head
  have near := reach_le_ahead t head
  have last : Int64.maxValue.toInt = 2 ^ 63 - 1 := rfl
  obtain ⟨k, le, found, members, stops⟩ := scanFrom_eq_cells t a (reach t head) head
  have length : (scan t head a).length = k := by rw [scan, found, Tape.length_cells]
  have value {i : Nat} (inside : i ≤ k) : (head + Int64.ofNat i).toInt = head.toInt + i :=
    toInt_add_ofNat (by omega)
  rw [visited_eq_onward, length]
  simp only [Int64.le_iff_toInt_le, Int64.lt_iff_toInt_lt]
  constructor
  · intro hp
    obtain ⟨i, hi⟩ := List.mem_iff_getElem?.mp hp
    obtain ⟨lt, rfl⟩ := getElem?_onward.mp hi
    have place := value (Nat.le_of_lt lt)
    refine ⟨by omega, by omega, fun q right left => ?_⟩
    obtain ⟨j, rfl, there⟩ := exists_eq_add_ofNat (Int64.le_iff_toInt_le.mpr right)
    refine ⟨fun stop bound => ?_, members j (by omega)⟩
    rw [reach_of_stop bound] at le
    omega
  · rintro ⟨right, before, inside⟩
    obtain ⟨j, rfl, there⟩ := exists_eq_add_ofNat (Int64.le_iff_toInt_le.mpr right)
    have lt : j < k := by
      apply Nat.lt_of_not_le
      intro past
      -- The first cell that is not visited would be one of those asked for.
      have place := value (Nat.le_refl k)
      obtain ⟨first, member⟩ := inside (head + Int64.ofNat k) (by omega) (by omega)
      have full : ¬k < reach t head := fun short => stops short member
      cases bound : Tape.stop t with
      | none =>
        rw [reach_of_stop_eq_none bound] at full
        omega
      | some stop =>
        have inner := first stop bound
        rw [reach_of_stop bound] at full
        omega
    exact List.mem_iff_getElem?.mpr ⟨j, getElem?_onward.mpr ⟨lt, rfl⟩⟩

/-- A scan faults if it goes up to the last position: if every cell from its head on, but for the
last one, comes before the bound and holds a member. -/
theorem fault?_eq_some_iff :
    fault? t head a = some .addOverflow ↔
      ∀ p, head ≤ p → p < Int64.maxValue →
        (∀ stop, Tape.stop t = some stop → p < stop) ∧ Tape.read t p ∈ a := by
  constructor
  · intro faults p right before
    have endless : ¬Terminates t head a := by
      rw [← fault?_eq_none_iff, faults]
      simp
    refine ⟨fun stop bound => ?_, ?_⟩
    · apply Int64.not_le.mp
      intro past
      exact endless ⟨p, right, before, Or.inl ⟨stop, bound, past⟩⟩
    · by_contra other
      exact endless ⟨p, right, before, Or.inr other⟩
  · intro full
    apply fault?_of_not_terminates
    rintro ⟨p, right, before, ends⟩
    obtain ⟨inside, member⟩ := full p right before
    obtain ⟨stop, bound, past⟩ | other := ends
    · exact Int64.not_le.mpr (inside stop bound) past
    · exact other member

/-- A scan visits the cells of the symbols it finds. It moves right from its head, one position at a
time, as long as there are members before the bound, and never gets to the last position there is:
if every cell up to there holds a member and comes before the bound, the scan faults, and an emission
with it, when all lines are written. A scan that begins at the last position does so at once, whatever
is on the tape. -/
theorem scan_moves_right (t : T) (head : Position) (a : Alphabet) :
    (visited t head a).map (Tape.read t) = scan t head a ∧
    Rightward head (visited t head a) ∧
    (∀ p, p ∈ visited t head a ↔
      head ≤ p ∧ p < Int64.maxValue ∧
        ∀ q, head ≤ q → q ≤ p →
          (∀ stop, Tape.stop t = some stop → q < stop) ∧ Tape.read t q ∈ a) ∧
    (fault? t head a = none ∨ fault? t head a = some .addOverflow) ∧
    (fault? t head a = some .addOverflow ↔
      ∀ p, head ≤ p → p < Int64.maxValue →
        (∀ stop, Tape.stop t = some stop → p < stop) ∧ Tape.read t p ∈ a) ∧
    (∀ sink : Sink, sink.Reliable → ∃ sink',
      sink'.accepted.toList = sink.accepted.toList ++ report (scan t head a) ∧
      emit t head a sink =
        (match fault? t head a with
          | none => .ok (visited t head a).length
          | some f => .error (.fault f), sink')) := by
  have inside := Nat.le_trans (length_scan_le t head a) (reach_le_ahead t head)
  have met := visited_eq_onward t head a
  have right := rightward_onward inside
  rw [← met] at right
  have length : (visited t head a).length = (scan t head a).length := by
    rw [← map_visited, List.length_map]
  refine ⟨map_visited t head a, right, mem_visited_iff, ?_, fault?_eq_some_iff, ?_⟩
  · rw [fault?]
    split
    next => exact Or.inr rfl
    next => exact Or.inl rfl
  · intro sink reliable
    obtain ⟨sink', accepted, done, stuck⟩ := emit_of_reliable reliable t head a
    refine ⟨sink', accepted, ?_⟩
    by_cases ends : Terminates t head a
    · rw [done ends, fault?_eq_none_iff.mpr ends, length]
    · rw [stuck ends, fault?_of_not_terminates ends]

/-- A cell at the last position that holds a member is not found, and what follows is a fault instead
of the end. -/
theorem scan_faults_at_last_position :
    let t := (Sparse.empty.set Int64.maxValue (.ofChar '1')).set Int64.minValue (.ofChar '1')
    let a : Alphabet := ⟨[.ofChar '1']⟩
    Tape.stop t = none ∧ Tape.read t Int64.maxValue ∈ a ∧ Tape.read t Int64.minValue ∈ a ∧
    Tape.read t (Int64.minValue + 1) ∉ a ∧
    visited t Int64.maxValue a = [] ∧ fault? t Int64.maxValue a = some .addOverflow ∧
    ∀ sink, emit t Int64.maxValue a sink = (.error (.fault .addOverflow), sink) := by
  intro t a
  have cell (p : Position) : Tape.read t p =
      if p = Int64.minValue then .ofChar '1'
      else if p = Int64.maxValue then .ofChar '1' else .blank := by
    rw [← Sparse.read_empty p]
    exact (LawfulTape.read_set _ _ p _ rfl).trans
      (congrArg _ (LawfulTape.read_set Sparse.empty _ p _ rfl))
  refine ⟨rfl, ?_, ?_, ?_, rfl, rfl, emit_last t a⟩
  · rw [cell]
    decide
  · rw [cell]
    decide
  · rw [cell]
    decide

end Emission

end TapeMachine
