import Mathlib.Order.Bounds.Defs
import TapeMachine.Proofs.Emission.Scan
import TapeMachine.Proofs.Pipeline.Stages
import TapeMachine.Tape.Growable

namespace TapeMachine.Emission

variable {T : Type} [Tape T] {t : T} {a : Alphabet}

end TapeMachine.Emission
