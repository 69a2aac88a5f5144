import TapeMachine.Alphabet
import TapeMachine.Stream
import TapeMachine.Tape.Basic
import TapeMachine.Utf8.Basic

namespace TapeMachine

namespace Emission

variable {T : Type} [Tape T]

/-- How many positions lie between this one and the last one there is. -/
def ahead (p : Position) : Nat := (Int64.maxValue.toInt - p.toInt).toNat

/-- How many cells a scan may look at: those before the tape's bound, or all but the last one. The
position after a cell is worked out before the cell is looked at, and the last one has none. -/
def reach (t : T) (head : Position) : Nat :=
  match Tape.stop t with
  | some stop => (stop.toInt - head.toInt).toNat
  | none => ahead head

/-- The symbols of at most `count` cells from a position on, up to the first that is not in the
alphabet. -/
def scanFrom (t : T) (a : Alphabet) : (count : Nat) → Position → List Symbol
  | 0, _ => []
  | count + 1, p =>
    if Tape.read t p ∈ a then Tape.read t p :: scanFrom t a count (p + 1) else []

def scan (t : T) (head : Position) (a : Alphabet) : List Symbol :=
  scanFrom t a (reach t head) head

/-- What a scan meets after its symbols if it has come to the last position. -/
def fault? (t : T) (head : Position) (a : Alphabet) : Option Fault :=
  if (scan t head a).length = ahead head then some .addOverflow else none

def line (s : Symbol) : String := "Symbol " ++ s.label ++ " in output stream\n"

def report (symbols : List Symbol) : List UInt8 := symbols.flatMap fun s => Utf8.bytesOf (line s)

/-- Flushes the sink when the last line has been written. -/
def close (written : Nat) (sink : Sink) : Except Stop Nat × Sink :=
  match sink.flush with
  | (.error e, sink) => (.error (.error (.output e)), sink)
  | (.ok (), sink) => (.ok written, sink)

/-- Writes a line for each cell of a scan as it is met. -/
def emitFrom (t : T) (a : Alphabet) :
    (count : Nat) → Position → (written : Nat) → Sink → Except Stop Nat × Sink
  | 0, p, written, sink =>
    if p = Int64.maxValue then (.error (.fault .addOverflow), sink) else close written sink
  | count + 1, p, written, sink =>
    let symbol := Tape.read t p
    if symbol ∈ a then
      match sink.writeAll (Utf8.bytesOf (line symbol)) with
      | (.error e, sink) => (.error (.error (.output e)), sink)
      | (.ok (), sink) => emitFrom t a count (p + 1) (written + 1) sink
    else close written sink

end Emission

/-- Reports the symbols from a head position on and flushes; the answer is their number. -/
def emit {T : Type} [Tape T] (t : T) (head : Position) (a : Alphabet) (sink : Sink) :
    Except Stop Nat × Sink :=
  Emission.emitFrom t a (Emission.reach t head) head 0 sink

end TapeMachine
