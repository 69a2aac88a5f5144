import Mathlib.Algebra.Ring.Int.Defs
import Mathlib.Algebra.Ring.Nat
import TapeMachine.Emission
import TapeMachine.Proofs.Stream.Delivery
import TapeMachine.Proofs.Tape.Lawful

namespace TapeMachine.Emission

variable {S T : Type} [Tape S] [Tape T]

theorem toInt_add_ofNat {p : Position} {k : Nat} (small : p.toInt + k < 2 ^ 63) :
    (p + Int64.ofNat k).toInt = p.toInt + k := by
  have low := p.le_toInt
  have size : Int64.size = 2 ^ 64 := rfl
  rw [Int64.toInt_add, ← Int64.ofInt_eq_ofNat, Int64.toInt_ofInt, size, Int.add_bmod_bmod]
  apply Int.bmod_eq_of_le <;> omega

theorem reach_of_stop {t : T} {stop : Position} (h : Tape.stop t = some stop) (head : Position) :
    reach t head = (stop.toInt - head.toInt).toNat := by
  rw [reach, h]

variable {t : T} {head : Position} {a : Alphabet}

/-- What a scan of some cells finds: as many of them as hold members, up to one that does not. -/
theorem scanFrom_eq_cells (t : T) (a : Alphabet) (count : Nat) (p : Position) :
    ∃ k ≤ count, scanFrom t a count p = Tape.cells t p k ∧
      (∀ i < k, Tape.read t (p + Int64.ofNat i) ∈ a) ∧
      (k < count → Tape.read t (p + Int64.ofNat k) ∉ a) := by
  have first : p + Int64.ofNat 0 = p := Int64.add_zero p
  induction count generalizing p with
  | zero => exact ⟨0, Nat.le_refl 0, rfl, by omega, by omega⟩
  | succ count ih =>
    rw [scanFrom]
    split
    next member =>
      obtain ⟨k, le, found, members, stops⟩ := ih (p + 1) (Int64.add_zero (p + 1))
      refine ⟨k + 1, Nat.succ_le_succ le, by rw [found, Tape.cells_succ], ?_, fun lt => ?_⟩
      · intro i hi
        cases i with
        | zero => rwa [first]
        | succ i =>
          rw [Tape.add_ofNat_succ]
          exact members i (Nat.lt_of_succ_lt_succ hi)
      · rw [Tape.add_ofNat_succ]
        exact stops (Nat.lt_of_succ_lt_succ lt)
    next other => exact ⟨0, Nat.zero_le _, rfl, by omega, fun _ => by rwa [first]⟩

theorem length_scan_le (t : T) (head : Position) (a : Alphabet) :
    (scan t head a).length ≤ reach t head := by
  obtain ⟨k, le, found, -⟩ := scanFrom_eq_cells t a (reach t head) head
  rwa [scan, found, Tape.length_cells]

theorem toInt_add_ahead (p : Position) : p.toInt + ahead p = 2 ^ 63 - 1 := by
  have high := p.toInt_lt
  have last : Int64.maxValue.toInt = 2 ^ 63 - 1 := rfl
  rw [ahead, last, Int.toNat_of_nonneg (by omega)]
  omega

theorem reach_le_ahead (t : T) (head : Position) : reach t head ≤ ahead head := by
  have whole := toInt_add_ahead head
  rw [reach]
  split
  next stop _ =>
    have high := stop.toInt_lt
    omega
  next => exact Nat.le_refl _

theorem exists_eq_add_ofNat {p q : Position} (right : p ≤ q) :
    ∃ j : Nat, q = p + Int64.ofNat j ∧ q.toInt = p.toInt + j := by
  have high := q.toInt_lt
  rw [Int64.le_iff_toInt_le] at right
  have value : (p + Int64.ofNat (q.toInt - p.toInt).toNat).toInt = q.toInt := by
    rw [toInt_add_ofNat (by omega)]
    omega
  exact ⟨(q.toInt - p.toInt).toNat, Int64.toInt_inj.mp value.symm, by omega⟩

/-- A scan comes to an end: from its head on, but not as far as the last position, there is one at
the bound of the tape, or one whose cell holds no member. -/
def Terminates (t : T) (head : Position) (a : Alphabet) : Prop :=
  ∃ p, head ≤ p ∧ p < Int64.maxValue ∧
    ((∃ stop, Tape.stop t = some stop ∧ stop ≤ p) ∨ Tape.read t p ∉ a)

theorem terminates_iff_length_lt :
    Terminates t head a ↔ (scan t head a).length < ahead head := by
  have whole := toInt_add_ahead head
  have last : Int64.maxValue.toInt = 2 ^ 63 - 1 := rfl
  obtain ⟨k, le, found, members, stops⟩ := scanFrom_eq_cells t a (reach t head) head
  have length : (scan t head a).length = k := by rw [scan, found, Tape.length_cells]
  rw [length]
  constructor
  · rintro ⟨p, right, before, ends⟩
    obtain ⟨j, rfl, value⟩ := exists_eq_add_ofNat right
    rw [Int64.lt_iff_toInt_lt] at before
    rcases ends with ⟨stop, bound, past⟩ | other
    · rw [Int64.le_iff_toInt_le] at past
      rw [reach_of_stop bound] at le
      omega
    · have shorter : k ≤ j := Nat.le_of_not_lt fun lt => other (members j lt)
      omega
  · intro lt
    have value : (head + Int64.ofNat k).toInt = head.toInt + k := toInt_add_ofNat (by omega)
    refine ⟨head + Int64.ofNat k, ?_, ?_, ?_⟩
    · rw [Int64.le_iff_toInt_le]
      omega
    · rw [Int64.lt_iff_toInt_lt]
      omega
    · by_cases full : k < reach t head
      · exact Or.inr (stops full)
      · cases bound : Tape.stop t with
        | none => simp only [reach, bound] at full; omega
        | some stop =>
          rw [reach_of_stop bound] at full
          exact Or.inl ⟨stop, rfl, by rw [Int64.le_iff_toInt_le]; omega⟩

theorem fault?_eq_none_iff : fault? t head a = none ↔ Terminates t head a := by
  have le := Nat.le_trans (length_scan_le t head a) (reach_le_ahead t head)
  rw [terminates_iff_length_lt, fault?]
  split
  next => simp only [reduceCtorEq, false_iff]; omega
  next => simp only [true_iff]; omega

theorem fault?_of_not_terminates (endless : ¬Terminates t head a) :
    fault? t head a = some .addOverflow := by
  rw [← fault?_eq_none_iff, fault?] at endless
  rw [fault?]
  split
  next => rfl
  next other => exact absurd (if_neg other) endless

/-- If the bound of the tape is not the last position, only a scan that begins there faults. -/
theorem terminates_iff_of_stop_lt {stop : Position} (bound : Tape.stop t = some stop)
    (lt : stop < Int64.maxValue) : Terminates t head a ↔ head ≠ Int64.maxValue := by
  have last : Int64.maxValue.toInt = 2 ^ 63 - 1 := rfl
  have high := head.toInt_lt
  have whole := toInt_add_ahead head
  have le := length_scan_le t head a
  rw [reach_of_stop bound] at le
  rw [Int64.lt_iff_toInt_lt] at lt
  rw [terminates_iff_length_lt, ne_eq, ← Int64.toInt_inj]
  omega

def lines (symbols : List Symbol) : List (List UInt8) := symbols.map fun s => Utf8.bytesOf (line s)

theorem flatten_lines (symbols : List Symbol) : (lines symbols).flatten = report symbols := by
  rw [lines, report, List.flatMap_def]

theorem emitFrom_eq (t : T) (a : Alphabet) (count : Nat) (p : Position) (written : Nat)
    (sink : Sink) :
    emitFrom t a count p written sink =
      match sink.writeEach (lines (scanFrom t a count p)) with
      | (.error e, sink) => (.error (.error (.output e)), sink)
      | (.ok (), sink) =>
        if (scanFrom t a count p).length = count ∧ p + Int64.ofNat count = Int64.maxValue then
          (.error (.fault .addOverflow), sink)
        else close (written + (scanFrom t a count p).length) sink := by
  induction count generalizing p written sink with
  | zero =>
    have here : p + Int64.ofNat 0 = p := Int64.add_zero p
    simp only [emitFrom, scanFrom, lines, List.map_nil, Sink.writeEach, List.length_nil, here,
      true_and, Nat.add_zero]
  | succ count ih =>
    rw [emitFrom, scanFrom]
    split
    next =>
      simp only [lines, List.map_cons, Sink.writeEach]
      rcases sink.writeAll (Utf8.bytesOf (line (Tape.read t p))) with ⟨e | ⟨⟩, mid⟩
      · rfl
      · have total : written + ((scanFrom t a count (p + 1)).length + 1) =
            written + 1 + (scanFrom t a count (p + 1)).length := by omega
        simp only [List.length_cons, Nat.add_right_cancel_iff, Tape.add_ofNat_succ, total]
        exact ih (p + 1) (written + 1) mid
    next => simp only [lines, List.map_nil, Sink.writeEach, List.length_nil, Nat.add_zero,
        Nat.right_eq_add, Nat.add_eq_zero_iff, Nat.succ_ne_self, and_false, false_and, if_false]

/-- An emission writes the lines for its scan, and then faults if the scan does, or flushes. -/
theorem emit_eq (t : T) (head : Position) (a : Alphabet) (sink : Sink) :
    emit t head a sink =
      match sink.writeEach (lines (scan t head a)) with
      | (.error e, sink) => (.error (.error (.output e)), sink)
      | (.ok (), sink) =>
        match fault? t head a with
        | some f => (.error (.fault f), sink)
        | none => close (scan t head a).length sink := by
  have whole := toInt_add_ahead head
  have last : Int64.maxValue.toInt = 2 ^ 63 - 1 := rfl
  have shorter := length_scan_le t head a
  have near := reach_le_ahead t head
  have value : (head + Int64.ofNat (reach t head)).toInt = head.toInt + reach t head :=
    toInt_add_ofNat (by omega)
  have full : (scan t head a).length = reach t head ∧
      head + Int64.ofNat (reach t head) = Int64.maxValue ↔
        (scan t head a).length = ahead head := by
    rw [← Int64.toInt_inj, value]
    omega
  rw [emit, emitFrom_eq, ← scan, Nat.zero_add]
  simp only [full, fault?]
  split
  next => rfl
  next => split <;> rfl

/-- What is answered when so many lines are to be written: their number, or what the sink failed
with. -/
def answer (count : Nat) : Except IoError Unit → Except Stop Nat
  | .ok () => .ok count
  | .error e => .error (.error (.output e))

theorem close_eq (written : Nat) (sink : Sink) :
    close written sink = (answer written sink.flush.1, sink.flush.2) := by
  rw [close]
  split
  next he => rw [he]; rfl
  next he => rw [he]; rfl

theorem emit_of_terminates (ends : Terminates t head a) (sink : Sink) :
    emit t head a sink =
      (answer (scan t head a).length (sink.deliver (lines (scan t head a))).1,
        (sink.deliver (lines (scan t head a))).2) := by
  rw [emit_eq, fault?_eq_none_iff.mpr ends, Sink.deliver_eq_writeEach]
  rcases sink.writeEach (lines (scan t head a)) with ⟨e | ⟨⟩, mid⟩
  · rfl
  · exact close_eq _ mid

theorem emit_of_not_terminates (endless : ¬Terminates t head a) (sink : Sink) :
    emit t head a sink =
      match sink.writeEach (lines (scan t head a)) with
      | (.error e, sink) => (.error (.error (.output e)), sink)
      | (.ok (), sink) => (.error (.fault .addOverflow), sink) := by
  rw [emit_eq, fault?_of_not_terminates endless]

theorem emit_last (t : T) (a : Alphabet) (sink : Sink) :
    emit t Int64.maxValue a sink = (.error (.fault .addOverflow), sink) := by
  have far := reach_le_ahead t Int64.maxValue
  have none : ahead Int64.maxValue = 0 := rfl
  rw [none, Nat.le_zero] at far
  rw [emit, far]
  rfl

/-- Whether the scan faults or not, the lines of its symbols are what is given to the sink. -/
theorem accepted_emit (t : T) (head : Position) (a : Alphabet) (sink : Sink) :
    (emit t head a sink).2.accepted = (sink.deliver (lines (scan t head a))).2.accepted := by
  by_cases ends : Terminates t head a
  · rw [emit_of_terminates ends]
  · rw [emit_of_not_terminates ends, ← Sink.accepted_writeEach]
    rcases sink.writeEach (lines (scan t head a)) with ⟨e | ⟨⟩, mid⟩ <;> rfl

theorem answer_eq_ok {count n : Nat} {r : Except IoError Unit} (h : answer count r = .ok n) :
    n = count ∧ r = .ok () := by
  cases r with
  | ok => exact ⟨(Except.ok.inj h).symm, rfl⟩
  | error e => cases h

theorem answer_eq_error {count : Nat} {r : Except IoError Unit} {e : Stop}
    (h : answer count r = .error e) : ∃ i, e = .error (.output i) := by
  cases r with
  | ok => cases h
  | error i => exact ⟨i, (Except.error.inj h).symm⟩

/-- How an emission that does not succeed ends: with what the sink fails with, or at the last
position. -/
theorem emit_error {sink sink' : Sink} {e : Stop} (h : emit t head a sink = (.error e, sink')) :
    (∃ i, e = .error (.output i)) ∨ e = .fault .addOverflow ∧ ¬Terminates t head a := by
  by_cases ends : Terminates t head a
  · rw [emit_of_terminates ends] at h
    exact Or.inl (answer_eq_error (congrArg Prod.fst h))
  · rw [emit_of_not_terminates ends] at h
    split at h
    next i _ _ =>
      cases h
      exact Or.inl ⟨i, rfl⟩
    next =>
      cases h
      exact Or.inr ⟨rfl, ends⟩

/-- An emission that succeeds has written the text for the scan and flushed the sink. -/
theorem of_emit_ok {sink sink' : Sink} {count : Nat} (h : emit t head a sink = (.ok count, sink')) :
    Terminates t head a ∧ count = (scan t head a).length ∧
      sink'.accepted.toList = sink.accepted.toList ++ report (scan t head a) ∧
      sink'.flushes = sink.flushes + 1 ∧ sink.flushError = none := by
  have course := sink.truncates_deliver (lines (scan t head a))
  by_cases ends : Terminates t head a
  · rw [emit_of_terminates ends] at h
    obtain ⟨answered, rfl⟩ := Prod.mk.inj h
    obtain ⟨counted, ok⟩ := answer_eq_ok answered
    rw [flatten_lines] at course
    exact ⟨ends, counted, course.ok_iff.mp ok⟩
  · rw [emit_of_not_terminates ends] at h
    split at h
    next => cases h
    next => cases h

theorem front_of_emit (t : T) (head : Position) (a : Alphabet) (sink : Sink) :
    ∃ front, front <+: report (scan t head a) ∧
      (emit t head a sink).2.accepted.toList = sink.accepted.toList ++ front := by
  have course := sink.truncates_deliver (lines (scan t head a))
  rw [flatten_lines] at course
  rw [accepted_emit]
  exact course.front

theorem emit_of_reliable {sink : Sink} (reliable : sink.Reliable) (t : T) (head : Position)
    (a : Alphabet) :
    ∃ sink', sink'.accepted.toList = sink.accepted.toList ++ report (scan t head a) ∧
      (Terminates t head a → emit t head a sink = (.ok (scan t head a).length, sink')) ∧
      (¬Terminates t head a → emit t head a sink = (.error (.fault .addOverflow), sink')) := by
  obtain ⟨mid, written, still, accepted⟩ := reliable.writeEach (lines (scan t head a))
  rw [flatten_lines] at accepted
  by_cases ends : Terminates t head a
  · refine ⟨{ mid with flushes := mid.flushes + 1 }, accepted, fun _ => ?_,
      fun endless => absurd ends endless⟩
    rw [emit_of_terminates ends, Sink.deliver_eq_writeEach, written]
    simp only [still.flush, answer]
  · refine ⟨mid, accepted, fun done => absurd done ends, fun _ => ?_⟩
    rw [emit_of_not_terminates ends, written]

theorem emit_of_ends (ends : Terminates t head a) {sink : Sink} (reliable : sink.Reliable) :
    ∃ sink', emit t head a sink = (.ok (scan t head a).length, sink') ∧
      sink'.accepted.toList = sink.accepted.toList ++ report (scan t head a) := by
  obtain ⟨sink', accepted, emitted, -⟩ := emit_of_reliable reliable t head a
  exact ⟨sink', emitted ends, accepted⟩

end TapeMachine.Emission
