import TapeMachine.Alphabet
import TapeMachine.Config.Basic
import TapeMachine.Stream
import TapeMachine.Utf8.Basic

namespace TapeMachine

structure NoTransition where
  state : String
  symbol : Symbol
deriving DecidableEq

/-- A blank is named, a printable ASCII symbol is shown, and any other is given by its number. -/
def NoTransition.symbolText (s : Symbol) : String :=
  if s = .blank then "blank (" ++ s.label ++ ")"
  else
    match s.printable? with
    | some c => "'" ++ c.toString ++ "' (" ++ s.label ++ ")"
    | none => s.label

def NoTransition.message (f : NoTransition) : String :=
  "No transition from " ++ f.state ++ " on symbol " ++ symbolText f.symbol

inductive RunError where
  | config (error : ConfigError)
  | allocation (error : IoError)
  | input (error : IoError)
  | transition (failure : NoTransition)
  | output (error : IoError)

namespace RunError

def message : RunError → String
  | config e => "Configuration error: " ++ e.message
  | allocation e => "Failed to acquire tape memory: " ++ e.message
  | input e => "failed to read from standard input: " ++ e.message
  | transition f => f.message
  | output e => "failed to write to standard output: " ++ e.message

/-- The text of the error underneath, where there is one. -/
def source? : RunError → Option String
  | config _ => none
  | allocation e | input e | output e => some e.message
  | transition f => some f.message

def exitCode : RunError → Nat := fun _ => 1

end RunError

abbrev Position := Int64

/-- A demand that cannot be met: a write outside a reservation, more memory than can be addressed,
or a number that does not fit into 64 bits. -/
inductive Fault where
  | outside (position : Position) (cells : Nat)
  | capacityOverflow
  | addOverflow
  | subtractOverflow
deriving DecidableEq

def Fault.message : Fault → String
  | outside p cells =>
    "tape position " ++ Text.signedDecimal p.toInt ++ " is outside the " ++ Text.decimal cells ++
      "-cell reservation"
  | capacityOverflow => "capacity overflow"
  | addOverflow => "attempt to add with overflow"
  | subtractOverflow => "attempt to subtract with overflow"

/-- Why a run does not end with a result. A run is `unfinished` when it has taken more steps than
any run that ends. -/
inductive Stop where
  | error (error : RunError)
  | fault (fault : Fault)
  | unfinished

end TapeMachine

namespace TapeMachine.RunError

def line (e : RunError) : String := "turingrt: " ++ e.message ++ "\n"

def report (e : RunError) (sink : Sink) : Except IoError Unit × Sink :=
  match sink.writeAll (Utf8.bytesOf e.line) with
  | (.error failure, sink) => (.error failure, sink)
  | (.ok (), sink) => sink.flush

end TapeMachine.RunError
