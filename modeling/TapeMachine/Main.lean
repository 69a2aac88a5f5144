import TapeMachine.CommandLine

namespace TapeMachine.Main

/-- An error number, which some calls give negated. -/
def systemError (n : UInt32) : IoError := .system (min n (0 - n)).toNat

def errorOf : IO.Error → IoError
  | .noFileOrDirectory _ n _ | .invalidArgument _ n _ | .permissionDenied _ n _
  | .inappropriateType _ n _ | .resourceExhausted _ n _ | .alreadyExists _ n _
  | .noSuchThing _ n _ | .interrupted _ n _ => systemError n
  | .otherError n _ | .resourceBusy n _ | .resourceVanished n _ | .hardwareFault n _
  | .illegalOperation n _ | .protocolError n _ | .timeExpired n _
  | .unsatisfiedConstraints n _ | .unsupportedOperation n _ => systemError n
  | .unexpectedEof => .plain .unexpectedEof
  | .userError text => .described .other text

def contents (path : String) : IO (Except IoError (List UInt8)) := do
  try
    return .ok (← IO.FS.readBinFile path).toList
  catch e => return .error (errorOf e)

/-- Everything up to the end of the input, or up to an error. -/
def readAll (stdin : IO.FS.Stream) : IO Source := do
  let mut all : Array UInt8 := #[]
  repeat
    try
      let piece ← stdin.read 65536
      if piece.isEmpty then return .ofBytes all.toList
      all := all ++ piece.data
    catch e => return ⟨[.data all.toList, .fail (errorOf e)], 0⟩
  return .ofBytes all.toList

end TapeMachine.Main

open TapeMachine Main

def main (args : List String) : IO UInt32 := do
  let configFile ← IO.getEnv "TURINGRT_CONFIG"
  let tapeKind ← IO.getEnv "TURINGRT_TAPE"
  let named := (CommandLine.parse args).bind (·.config)
  let found ← match named.or configFile with
    | some path => contents path
    | none => pure (.error .noSuchFile)
  let h : Host :=
    ⟨configFile.map Utf8.bytesOf, tapeKind.map Utf8.bytesOf, fun _ => found, .ample⟩
  let p := CommandLine.run args h { stdin := ← readAll (← IO.getStdin) }
  let stdout ← IO.getStdout
  stdout.write ⟨p.streams.stdout.accepted⟩
  stdout.flush
  let stderr ← IO.getStderr
  stderr.write ⟨p.streams.stderr.accepted⟩
  match p.ending with
  | .exited code => return code.toUInt32
  | .aborted | .unending => return 134
