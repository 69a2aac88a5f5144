import TapeMachine.Memory
import TapeMachine.Serial
import TapeMachine.Utf8.Basic

namespace TapeMachine

/-- What a run finds around it: two settings of the environment, as bytes that need not be text,
the files, and the memory. -/
structure Host where
  configFile : Option (List UInt8) := none
  tapeKind : Option (List UInt8) := none
  readFile : List UInt8 → Except IoError (List UInt8)
  memory : Memory

namespace Config

def readText (h : Host) (path : List UInt8) : Except IoError String := do
  match Utf8.decode? (← h.readFile path) with
  | some cs => return String.ofList cs
  | none => .error .notUtf8

def load (h : Host) (path : List UInt8) : Except ConfigError Config :=
  match readText h path with
  | .error e => .error (.unreadable (Utf8.lossyText path) e)
  | .ok s => parse s

/-- The configuration that the environment gives. A tape kind that is not text is ignored. -/
def ofEnvironment (h : Host) : Except ConfigError Config := do
  let c ← match h.configFile with
    | some path => load h path
    | none => .ok {}
  let c ← match h.tapeKind.bind Utf8.decode? with
    | some kind => (TapeKind.parse (String.ofList kind)).map fun tape => { c with tape }
    | none => .ok c
  c.checked

/-- The configuration for a command line that may name a file, which then takes the place of the
whole environment, and may choose the kind of tape. -/
def resolve (h : Host) (file : Option String) (tape : Option TapeKind) :
    Except ConfigError Config := do
  let c ← match file with
    | some path => load h (Utf8.bytesOf path)
    | none => ofEnvironment h
  match tape with
  | some tape => checked { c with tape }
  | none => return c

end Config

end TapeMachine
