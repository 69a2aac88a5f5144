import TapeMachine.IoError
import TapeMachine.Json.Reader
import TapeMachine.Text

namespace TapeMachine

inductive TapeKind where
  | reserved | growable
deriving DecidableEq

structure Config where
  tape : TapeKind := .reserved
  tapeBytes : UInt64 := 2147483648
  chunkSize : UInt64 := 8192
deriving DecidableEq

inductive ConfigError where
  | zeroChunkSize
  | badTapeBytes (size : UInt64)
  | unknownTapeKind (name : String)
  | unreadable (path : String) (error : IoError)
  | invalidText (error : Json.Error)
  | other (text : String)

def ConfigError.message : ConfigError → String
  | zeroChunkSize => "chunk_size must be greater than zero"
  | badTapeBytes n => "tape_bytes must be a nonzero multiple of 8, got " ++ Text.decimal n.toNat
  | unknownTapeKind name =>
    "unknown tape kind `" ++ name ++ "` (expected `reserved` or `growable`)"
  | unreadable path e => "Failed to read file " ++ path ++ ": " ++ e.message
  | invalidText e => "Invalid configuration: " ++ e.message
  | other text => text

namespace TapeKind

def name : TapeKind → String
  | reserved => "reserved"
  | growable => "growable"

def names : List String := [reserved.name, growable.name]

def ofName? (s : String) : Option TapeKind :=
  if s = reserved.name then some reserved
  else if s = growable.name then some growable
  else none

/-- A name as it is compared: without white space around it and in lower case, where only the
letters of ASCII have a case. -/
def normalName (s : String) : String :=
  String.ofList ((Text.trimBlank s.toList).map Char.toLower)

def parse (s : String) : Except ConfigError TapeKind :=
  match ofName? (normalName s) with
  | some k => .ok k
  | none => .error (.unknownTapeKind (normalName s))

end TapeKind

namespace Config

instance : Inhabited Config := ⟨{}⟩

/-- A read must be able to return something, and a reserved tape consists of two halves of whole
cells. The size of a reservation does not matter to a growable tape. -/
def validate (c : Config) : Except ConfigError Unit :=
  if c.chunkSize = 0 then .error .zeroChunkSize
  else if c.tape = .reserved ∧ (c.tapeBytes = 0 ∨ c.tapeBytes % 8 ≠ 0) then
    .error (.badTapeBytes c.tapeBytes)
  else .ok ()

def checked (c : Config) : Except ConfigError Config := c.validate.map fun () => c

end Config

end TapeMachine
