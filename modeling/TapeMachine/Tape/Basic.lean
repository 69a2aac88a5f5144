import TapeMachine.RunError

namespace TapeMachine

/-- A tape. `refusal?` is what a write at a position meets if it cannot be done, `set` does a
write that is not refused, and `stop` is a position from which on all cells are known to be blank,
if the tape knows one. -/
class Tape (T : Type) where
  read : T → Position → Symbol
  refusal? : T → Position → Option Fault
  set : T → Position → Symbol → T
  stop : T → Option Position

namespace Tape

variable {T : Type} [Tape T]

def write (t : T) (p : Position) (s : Symbol) : Except Fault T :=
  match refusal? t p with
  | some f => .error f
  | none => .ok (set t p s)

/-- Writes symbols side by side from a position on, up to the first one refused; the answer is
the position after the last one. -/
def place (t : T) (p : Position) : List Symbol → Except Fault Position × T
  | [] => (.ok p, t)
  | s :: rest =>
    match refusal? t p with
    | some f => (.error f, t)
    | none => place (set t p s) (p + 1) rest

def cells (t : T) (start : Position) (count : Nat) : List Symbol :=
  (List.range count).map fun i => read t (start + Int64.ofNat i)

end Tape

end TapeMachine
