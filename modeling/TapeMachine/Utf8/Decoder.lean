import TapeMachine.Utf8.Basic

namespace TapeMachine.Utf8

/-- What is done with the front of a byte string: a character of some bytes is passed on, one
byte is skipped, or more bytes are needed to tell. -/
inductive Step where
  | pass (c : Char) (size : Nat)
  | skip
  | wait
deriving DecidableEq

/-- A null is skipped like a byte that begins nothing. -/
def step (bytes : List UInt8) : Step :=
  match front bytes with
  | .scalar c size => if c = '\x00' then .skip else .pass c size
  | .invalid => .skip
  | .incomplete => .wait

theorem size_pos_of_step {bytes : List UInt8} {c : Char} {n : Nat}
    (h : step bytes = .pass c n) : 0 < n := by
  unfold step at h
  split at h
  next he =>
    split at h
    next => simp at h
    next =>
      obtain ⟨rfl, rfl⟩ := Step.pass.inj h
      exact size_pos_of_front he
  next => simp at h
  next => simp at h

theorem length_le_three_of_step {bytes : List UInt8} (h : step bytes = .wait) :
    bytes.length ≤ 3 := by
  unfold step at h
  split at h
  next => split at h <;> simp at h
  next => simp at h
  next he => exact length_le_three_of_front he

/-- What a pass over a byte string finds. There is room for three bytes that wait for more. -/
@[ext]
structure Scan where
  scalars : List Char := []
  skipped : Nat := 0
  pending : List UInt8 := []
  fits : pending.length ≤ 3 := by exact Nat.zero_le 3
deriving DecidableEq

namespace Scan

def pass (c : Char) (s : Scan) : Scan := { s with scalars := c :: s.scalars }

def skip (s : Scan) : Scan := { s with skipped := s.skipped + 1 }

def andThen (s t : Scan) : Scan :=
  { t with scalars := s.scalars ++ t.scalars, skipped := s.skipped + t.skipped }

end Scan

/-- Reads from the front. A malformed byte or a null is skipped alone, so the byte after it gets
its own chance to begin a sequence; an incomplete end is left over. -/
def scan : List UInt8 → Scan
  | [] => {}
  | b :: bytes =>
    match h : step (b :: bytes) with
    | .pass c size => (scan (bytes.drop (size - 1))).pass c
    | .skip => (scan bytes).skip
    | .wait => { pending := b :: bytes, fits := length_le_three_of_step h }
termination_by bytes => bytes.length
decreasing_by all_goals simp only [List.length_cons, List.length_drop]; omega

/-- Reads the sequences that begin in a window from a position on, but before its first `carried`
bytes end. The answer's second part is the position after them, if none is incomplete. -/
def stitch (window : List UInt8) (carried pos : Nat) : Scan × Option Nat :=
  if pos < carried then
    match h : step (window.drop pos) with
    | .pass c size =>
      have := size_pos_of_step h
      let (found, stop) := stitch window carried (pos + size)
      (found.pass c, stop)
    | .skip =>
      let (found, stop) := stitch window carried (pos + 1)
      (found.skip, stop)
    | .wait => ({ pending := window.drop pos, fits := length_le_three_of_step h }, none)
  else ({}, some pos)
termination_by carried - pos

/-- The state between two pieces: the bytes of a sequence still incomplete, and how many bytes
were skipped so far. -/
@[ext]
structure Decoder where
  pending : List UInt8 := []
  skipped : Nat := 0
  fits : pending.length ≤ 3 := by exact Nat.zero_le 3
deriving DecidableEq

namespace Decoder

def idle (skipped : Nat) : Decoder := { skipped }

def fresh : Decoder := idle 0

def hasPending (d : Decoder) : Bool := !d.pending.isEmpty

/-- So many bytes of a piece are enough to end any sequence that began before it. -/
def borrowed : Nat := 4

def window (d : Decoder) (chunk : List UInt8) : List UInt8 := d.pending ++ chunk.take borrowed

def keep (d : Decoder) (s : Scan) : Decoder := ⟨s.pending, d.skipped + s.skipped, s.fits⟩

/-- Decodes one more piece of the stream. What begins among the bytes carried over is read in the
window, and the rest of the piece from where that ended. -/
def feed (d : Decoder) (chunk : List UInt8) : List Char × Decoder :=
  let found := match stitch (d.window chunk) d.pending.length 0 with
    | (found, none) => found
    | (found, some pos) => found.andThen (scan (chunk.drop (pos - d.pending.length)))
  (found.scalars, d.keep found)

/-- Ends the stream: bytes still pending count as skipped. The total is the decoder's `skipped`. -/
def finish (d : Decoder) : Decoder := idle (d.skipped + d.pending.length)

end Decoder

end TapeMachine.Utf8
