import Mathlib.Order.Bounds.Basic
import TapeMachine.Proofs.Emission.Scan
import TapeMachine.Proofs.Tape.Extent
import TapeMachine.Proofs.Tape.Reservation

namespace TapeMachine

theorem Sparse.read_empty (p : Position) : empty.read p = .blank := Std.HashMap.getD_empty

namespace Emission

variable {S T : Type} [Tape S] [Tape T] {s : S} {t : T} {head : Position} {a : Alphabet}

theorem reach_of_stop_eq_none (unbounded : Tape.stop t = none) (head : Position) :
    reach t head = ahead head := by
  rw [reach, unbounded]

end Emission

end TapeMachine
