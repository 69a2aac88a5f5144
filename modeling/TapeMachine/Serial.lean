import TapeMachine.Alphabet
import TapeMachine.Config.Basic
import TapeMachine.Json.Reader
import TapeMachine.Json.Token
import TapeMachine.RunError

namespace TapeMachine

namespace Symbol

def json (s : Symbol) : List Char := Json.printNatural s.code.toNat

def ofToken (t : Json.Token) : Except Json.Error Symbol :=
  (Json.natural UInt32.size "u32" t).map fun n => ⟨UInt32.ofNat n⟩

def reader : Json.Reader Symbol := Json.single ofToken

end Symbol

namespace Alphabet

def json (a : Alphabet) : List Char := Json.printArray (a.symbols.map Symbol.json)

def reader : Json.Reader Alphabet := fun ts =>
  (Json.list "a sequence" Symbol.ofToken ts).map fun (symbols, rest) => (⟨symbols⟩, rest)

end Alphabet

namespace TapeKind

def json (k : TapeKind) : List Char := Json.printString k.name

/-- A kind is named exactly, without regard to how settings are compared. -/
def ofName (s : String) : Except Json.Error TapeKind :=
  match ofName? s with
  | some k => .ok k
  | none => .error (.unknownVariant s names)

/-- A kind is its name, or an object whose only member has that name and the value null. -/
def reader : Json.Reader TapeKind
  | .string (some s) :: ts => (ofName s).map (·, ts)
  | .openBrace :: .string (some s) :: ts => do
    let k ← ofName s
    match ts with
    | .colon :: .null :: .closeBrace :: ts => return (k, ts)
    | .colon :: .null :: _ => .error .malformed
    | .colon :: t :: _ => .error (t.mismatch "unit")
    | _ => .error .malformed
  | _ => .error .malformed

end TapeKind

namespace Config

def json (c : Config) : List Char :=
  Json.printObject [("tape", c.tape.json),
    ("tape_bytes", Json.printNatural c.tapeBytes.toNat),
    ("chunk_size", Json.printNatural c.chunkSize.toNat)]

structure Draft where
  tape : Option TapeKind := none
  tapeBytes : Option UInt64 := none
  chunkSize : Option UInt64 := none

namespace Draft

def size (t : Json.Token) : Except Json.Error UInt64 :=
  (Json.natural UInt64.size "usize" t).map UInt64.ofNat

def fillTape : Json.Filler Draft := fun d ts =>
  (TapeKind.reader ts).map fun (k, rest) => ({ d with tape := some k }, rest)

def fillTapeBytes : Json.Filler Draft :=
  Json.fillSingle size fun d n => { d with tapeBytes := some n }

def fillChunkSize : Json.Filler Draft :=
  Json.fillSingle size fun d n => { d with chunkSize := some n }

def names : List String := ["tape", "tape_bytes", "chunk_size"]

def fills : List (Json.Filler Draft) := [fillTape, fillTapeBytes, fillChunkSize]

/-- A setting may be given once. -/
def field (d : Draft) (name : String) : Except Json.Error (Json.Filler Draft) :=
  let once (given : Bool) (fill : Json.Filler Draft) : Except Json.Error (Json.Filler Draft) :=
    if given then .error (.duplicateField name) else .ok fill
  if name = "tape" then once d.tape.isSome fillTape
  else if name = "tape_bytes" then once d.tapeBytes.isSome fillTapeBytes
  else if name = "chunk_size" then once d.chunkSize.isSome fillChunkSize
  else .error (.unknownField name names)

/-- The default configuration with the settings that were given. -/
def complete (d : Draft) : Config :=
  let c : Config := {}
  { tape := d.tape.getD c.tape
    tapeBytes := d.tapeBytes.getD c.tapeBytes
    chunkSize := d.chunkSize.getD c.chunkSize }

end Draft

def reader : Json.Reader Config
  | .openBrace :: ts =>
    (Json.object Draft.field {} ts).map fun (d, rest) => (d.complete, rest)
  | .openBracket :: ts =>
    (Json.array Draft.fills {} ts).map fun ((d, _), rest) => (d.complete, rest)
  | t :: _ => .error (t.mismatch "struct RuntimeConfig")
  | [] => .error .malformed

/-- The configuration that a text describes, if it is valid. -/
def parse (s : String) : Except ConfigError Config :=
  match Json.readText reader s with
  | .error e => .error (.invalidText e)
  | .ok c => c.checked

end Config

end TapeMachine

namespace TapeMachine.NoTransition

def json (f : NoTransition) : List Char :=
  Json.printObject [("state", Json.printString f.state), ("symbol", f.symbol.json)]

structure Draft where
  state : Option String := none
  symbol : Option Symbol := none

namespace Draft

def fillState : Json.Filler Draft :=
  Json.fillSingle (Json.text "a string") fun d s => { d with state := some s }

def fillSymbol : Json.Filler Draft :=
  Json.fillSingle Symbol.ofToken fun d s => { d with symbol := some s }

def field (d : Draft) (name : String) : Except Json.Error (Json.Filler Draft) :=
  if name = "state" then
    if d.state.isSome then .error (.duplicateField name) else .ok fillState
  else if name = "symbol" then
    if d.symbol.isSome then .error (.duplicateField name) else .ok fillSymbol
  else .ok fun d ts => (Json.skip ts).map (d, ·)

def complete (d : Draft) : Except Json.Error NoTransition :=
  match d.state, d.symbol with
  | none, _ => .error (.missingField "state")
  | _, none => .error (.missingField "symbol")
  | some state, some symbol => .ok ⟨state, symbol⟩

end Draft

def reader : Json.Reader NoTransition
  | .openBrace :: ts => do
    let (d, ts) ← Json.object Draft.field {} ts
    return (← d.complete, ts)
  | .openBracket :: ts => do
    let ((d, count), ts) ← Json.array [Draft.fillState, Draft.fillSymbol] {} ts
    match d.complete with
    | .ok f => return (f, ts)
    | .error _ => .error (.invalidLength count "struct TransitionFailure with 2 elements")
  | t :: _ => .error (t.mismatch "struct TransitionFailure")
  | [] => .error .malformed

end TapeMachine.NoTransition
