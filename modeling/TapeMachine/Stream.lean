import TapeMachine.IoError

namespace TapeMachine

/-- What a read call finds: some bytes, of which it takes as many as it has room for, or an
error. No bytes at all mean the end of the stream. -/
inductive Source.Event where
  | data (bytes : List UInt8)
  | fail (error : IoError)
deriving DecidableEq

/-- A byte source. After the last event every read finds the end of the stream. -/
structure Source where
  events : List Source.Event
  reads : Nat := 0
deriving DecidableEq

namespace Source

def empty : Source := ⟨[], 0⟩

def ofBytes (bytes : List UInt8) : Source := ⟨[.data bytes], 0⟩

/-- One read call with room for `room` bytes; what did not fit is kept for the next call. -/
def read (s : Source) (room : Nat) : Except IoError (List UInt8) × Source :=
  match s.events with
  | [] => (.ok [], { s with reads := s.reads + 1 })
  | .fail e :: events => (.error e, ⟨events, s.reads + 1⟩)
  | .data bytes :: events =>
    match bytes.drop room with
    | [] => (.ok bytes, ⟨events, s.reads + 1⟩)
    | rest => (.ok (bytes.take room), ⟨.data rest :: events, s.reads + 1⟩)

def Event.weight : Event → Nat
  | .data bytes => bytes.length + 1
  | .fail _ => 1

/-- How much a source can still deliver: one for each event and each byte. -/
def weight (s : Source) : Nat := s.events.foldr (fun e n => e.weight + n) 0

theorem weight_read_of_error {s t : Source} {room : Nat} {e : IoError}
    (h : s.read room = (.error e, t)) : t.weight < s.weight := by
  obtain ⟨events, reads⟩ := s
  unfold read at h
  split at h
  next => simp at h
  next he =>
    simp only [Prod.mk.injEq] at h
    simp only at he
    simp [weight, Event.weight, ← h.2, he]
  next => split at h <;> simp at h

theorem weight_read_of_bytes {s t : Source} {room : Nat} {b : UInt8} {bytes : List UInt8}
    (h : s.read room = (.ok (b :: bytes), t)) : t.weight < s.weight := by
  obtain ⟨events, reads⟩ := s
  unfold read at h
  split at h
  next => simp at h
  next => simp at h
  next found rest he =>
    simp only at he
    split at h
    next =>
      simp only [Prod.mk.injEq, Except.ok.injEq] at h
      simp [weight, Event.weight, ← h.2, he]
    next =>
      simp only [Prod.mk.injEq, Except.ok.injEq] at h
      have positive : 0 < room := by
        rcases Nat.eq_zero_or_pos room with rfl | positive
        · simp at h
        · exact positive
      have shorter : found.length - room < found.length := by
        have nonempty : found ≠ [] := by
          rintro rfl
          simp at h
        have := List.length_pos_iff.mpr nonempty
        omega
      simpa [weight, Event.weight, ← h.2, he] using shorter

end Source

/-- How a write call is answered: with room for some bytes, kept for the next calls while any of
it is left, or with an error. Room for nothing accepts nothing. -/
inductive Sink.Event where
  | room (size : Nat)
  | fail (error : IoError)
deriving DecidableEq

/-- A byte sink. After the last event everything is accepted; `burst` bounds what one call
accepts, and `flushError` is what a flush fails with. -/
structure Sink where
  script : List Sink.Event := []
  burst : Option Nat := none
  flushError : Option IoError := none
  accepted : Array UInt8 := #[]
  writes : Nat := 0
  flushes : Nat := 0
deriving DecidableEq

namespace Sink

def accept (s : Sink) (script : List Event) (n : Nat) (bytes : List UInt8) : Sink :=
  { s with script, accepted := s.accepted ++ bytes.take n, writes := s.writes + 1 }

/-- The most bytes that one call offering `n` of them can place. -/
def most (s : Sink) (n : Nat) : Nat := (s.burst.getD n).min n

/-- One write call; the answer is the number of bytes accepted. A call that can place nothing
does not get as far as the script. -/
def write (s : Sink) (bytes : List UInt8) : Except IoError Nat × Sink :=
  if s.most bytes.length = 0 then (.ok 0, { s with writes := s.writes + 1 })
  else
    match s.script with
    | [] => (.ok (s.most bytes.length), s.accept [] (s.most bytes.length) bytes)
    | .fail e :: script => (.error e, { s with script, writes := s.writes + 1 })
    | .room size :: script =>
      if s.most bytes.length < size then
        (.ok (s.most bytes.length),
          s.accept (.room (size - s.most bytes.length) :: script) (s.most bytes.length) bytes)
      else (.ok size, s.accept script size bytes)

theorem length_script_of_error {s t : Sink} {bytes : List UInt8} {e : IoError}
    (h : s.write bytes = (.error e, t)) : t.script.length < s.script.length := by
  unfold write at h
  split at h
  next => simp at h
  next =>
    split at h
    next => simp at h
    next he =>
      simp only [Prod.mk.injEq] at h
      simp [he, ← h.2]
    next => split at h <;> simp at h

theorem length_script_of_ok {s t : Sink} {bytes : List UInt8} {n : Nat}
    (h : s.write bytes = (.ok n, t)) : t.script.length ≤ s.script.length := by
  unfold write at h
  split at h
  next =>
    simp only [Prod.mk.injEq] at h
    simp [← h.2]
  next =>
    split at h
    next he =>
      simp only [Prod.mk.injEq] at h
      simp [he, ← h.2, accept]
    next => simp at h
    next he =>
      split at h <;> simp only [Prod.mk.injEq] at h <;> simp [he, ← h.2, accept]

/-- Writes all the bytes, in as many calls as it takes. An interrupted call is made again; any
other error, and a call that accepts nothing, ends the writing. -/
def writeAll (s : Sink) : List UInt8 → Except IoError Unit × Sink
  | [] => (.ok (), s)
  | b :: bytes =>
    match h : s.write (b :: bytes) with
    | (.error e, t) =>
      have := length_script_of_error h
      if e.isInterrupted then writeAll t (b :: bytes) else (.error e, t)
    | (.ok 0, t) => (.error .writeZero, t)
    | (.ok (n + 1), t) =>
      have := length_script_of_ok h
      writeAll t (bytes.drop n)
termination_by bytes => s.script.length + bytes.length
decreasing_by all_goals simp only [List.length_cons, List.length_drop]; omega

def flush (s : Sink) : Except IoError Unit × Sink :=
  let t := { s with flushes := s.flushes + 1 }
  match s.flushError with
  | none => (.ok (), t)
  | some e => (.error e, t)

end Sink

end TapeMachine
