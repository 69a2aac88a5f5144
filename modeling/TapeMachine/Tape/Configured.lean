import TapeMachine.Tape.Growable
import TapeMachine.Tape.Reserved

namespace TapeMachine

inductive Configured where
  | growable (t : Growable)
  | reserved (t : Reserved)

namespace Configured

def read : Configured → Position → Symbol
  | growable t => t.read
  | reserved t => t.read

def refusal? : Configured → Position → Option Fault
  | growable _ => Growable.refusal?
  | reserved t => t.refusal?

def set : Configured → Position → Symbol → Configured
  | growable t, p, s => growable (t.set p s)
  | reserved t, p, s => reserved (t.set p s)

def stop : Configured → Position
  | growable t => t.max
  | reserved t => t.stop

instance : Tape Configured := ⟨read, refusal?, set, fun t => some t.stop⟩

/-- A blank tape of the kind and size that a configuration gives, valid or not. -/
def allocate (memory : Memory) (c : Config) : Except IoError Configured :=
  match c.tape with
  | .growable => .ok (growable .empty)
  | .reserved => (Reserved.allocate memory c.tapeBytes).map reserved

end Configured

end TapeMachine
