import TapeMachine.Text

namespace TapeMachine

inductive IoErrorKind where
  | notFound | permissionDenied | connectionReset | brokenPipe | wouldBlock | invalidInput
  | invalidData | timedOut | writeZero | interrupted | unexpectedEof | outOfMemory | other
deriving DecidableEq

/-- The text of a kind that comes without one of its own. -/
def IoErrorKind.text : IoErrorKind → String
  | notFound => "entity not found"
  | permissionDenied => "permission denied"
  | connectionReset => "connection reset"
  | brokenPipe => "broken pipe"
  | wouldBlock => "operation would block"
  | invalidInput => "invalid input parameter"
  | invalidData => "invalid data"
  | timedOut => "timed out"
  | writeZero => "write zero"
  | interrupted => "operation interrupted"
  | unexpectedEof => "unexpected end of file"
  | outOfMemory => "out of memory"
  | other => "other error"

/-- An error number of the operating system, a bare kind, or a kind with a text. -/
inductive IoError where
  | system (number : Nat)
  | plain (kind : IoErrorKind)
  | described (kind : IoErrorKind) (text : String)
deriving DecidableEq

namespace IoError

def noSuchFile : IoError := .system 2
def interruptedCall : Nat := 4
def outOfMemory : IoError := .system 12
def invalidArgument : IoError := .system 22

def writeZero : IoError := .described .writeZero "failed to write whole buffer"

def notUtf8 : IoError := .described .invalidData "stream did not contain valid UTF-8"

def systemText : Nat → String
  | 1 => "Operation not permitted"
  | 2 => "No such file or directory"
  | 4 => "Interrupted system call"
  | 5 => "Input/output error"
  | 9 => "Bad file descriptor"
  | 11 => "Resource temporarily unavailable"
  | 12 => "Cannot allocate memory"
  | 13 => "Permission denied"
  | 20 => "Not a directory"
  | 21 => "Is a directory"
  | 22 => "Invalid argument"
  | 23 => "Too many open files in system"
  | 24 => "Too many open files"
  | 27 => "File too large"
  | 28 => "No space left on device"
  | 32 => "Broken pipe"
  | 36 => "File name too long"
  | 40 => "Too many levels of symbolic links"
  | 104 => "Connection reset by peer"
  | 110 => "Connection timed out"
  | n => "Unknown error " ++ Text.decimal n

def message : IoError → String
  | system n => systemText n ++ " (os error " ++ Text.decimal n ++ ")"
  | plain k => k.text
  | described _ t => t

/-- Whether the call was only interrupted, so that it is made again. -/
def isInterrupted : IoError → Bool
  | system n => n = interruptedCall
  | plain k => k = .interrupted
  | described k _ => k = .interrupted

end IoError

end TapeMachine
