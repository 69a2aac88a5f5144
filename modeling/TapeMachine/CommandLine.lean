import TapeMachine.Completion

namespace TapeMachine.CommandLine

inductive Builtin where
  | echo | reject
deriving DecidableEq

structure Options where
  input : String
  output : Option String := none
  tape : Option TapeKind := none
  config : Option String := none
  automaton : Builtin := .echo
  debug : Bool := false
deriving DecidableEq

inductive Setting where
  | input | output | tape | config | automaton
deriving DecidableEq

def Setting.short : Setting → Char
  | input => 'i'
  | output => 'o'
  | tape => 't'
  | config => 'c'
  | automaton => 'a'

def Setting.long : Setting → String
  | input => "input-alphabet"
  | output => "output-alphabet"
  | tape => "tape"
  | config => "config"
  | automaton => "automaton"

def Setting.all : List Setting := [input, output, tape, config, automaton]

inductive Given where
  | debug
  | value (setting : Setting) (text : String)
deriving DecidableEq

/-- What one argument gives: some options in full, and perhaps one whose value is the next
argument. -/
structure Reading where
  given : List Given
  waiting : Option Setting := none

/-- Options in their short form, bundled: flags, and a last one that may have its value attached,
with or without an equals sign before it. -/
def readShort : List Char → Option Reading
  | [] => some ⟨[], none⟩
  | 'd' :: cs => (readShort cs).map fun r => { r with given := .debug :: r.given }
  | c :: cs => do
    let s ← Setting.all.find? (·.short = c)
    match cs with
    | [] => return ⟨[], some s⟩
    | '=' :: value => return ⟨[.value s (String.ofList value)], none⟩
    | value => return ⟨[.value s (String.ofList value)], none⟩

/-- An option in its long form, with its value behind an equals sign or in the next argument. -/
def readLong (cs : List Char) : Option Reading :=
  let name := String.ofList (cs.takeWhile (· ≠ '='))
  match cs.dropWhile (· ≠ '=') with
  | _ :: value => do
    let s ← Setting.all.find? (·.long = name)
    return ⟨[.value s (String.ofList value)], none⟩
  | [] =>
    if name = "debug" then some ⟨[.debug], none⟩
    else (Setting.all.find? (·.long = name)).map fun s => ⟨[], some s⟩

/-- One argument. There are no options without a dash. -/
def readArgument (arg : String) : Option Reading :=
  match arg.toList with
  | '-' :: '-' :: cs => readLong cs
  | '-' :: c :: cs => readShort (c :: cs)
  | _ => none

def isValue (arg : String) : Bool :=
  match arg.toList with
  | '-' :: _ :: _ => false
  | _ => true

/-- All options given. Two dashes may stand at the end. -/
def collect : List String → Option (List Given)
  | [] => some []
  | arg :: rest =>
    if arg = "--" then if rest.isEmpty then some [] else none
    else
      match readArgument arg with
      | none => none
      | some ⟨given, none⟩ => (collect rest).map (given ++ ·)
      | some ⟨given, some s⟩ =>
        match rest with
        | [] => none
        | value :: rest =>
          if isValue value then (collect rest).map (given ++ Given.value s value :: ·) else none

def valueOf? (given : List Given) (s : Setting) : Option String :=
  given.findSome? fun
    | .value t text => if t = s then some text else none
    | .debug => none

/-- Whether no option is given twice. -/
def Given.sameOption : Given → Given → Bool
  | .debug, .debug => true
  | .value s _, .value t _ => s = t
  | _, _ => false

def noneTwice : List Given → Bool
  | [] => true
  | g :: rest => !rest.any g.sameOption && noneTwice rest

def Builtin.ofName? (s : String) : Option Builtin :=
  if s = "echo" then some .echo else if s = "reject" then some .reject else none

/-- A named choice; no name is no choice, a wrong one is refused. -/
def choose {α : Type} (ofName? : String → Option α) (name : Option String) : Option (Option α) :=
  match name with
  | none => some none
  | some s => (ofName? s).map some

/-- The options that some arguments ask for, if they are used as they should be. -/
def parse (args : List String) : Option Options := do
  let given ← collect args
  if !noneTwice given then none
  let input ← valueOf? given .input
  let tape ← choose TapeKind.ofName? (valueOf? given .tape)
  let automaton ← choose Builtin.ofName? (valueOf? given .automaton)
  return {
    input, tape
    output := valueOf? given .output
    config := valueOf? given .config
    automaton := automaton.getD .echo
    debug := given.contains .debug }

def usageCode : Nat := 2

def faultCode : Nat := 101

def Builtin.automaton {T : Type} [Tape T] : Builtin → Automaton T
  | .echo => Automaton.echo
  | .reject => Automaton.reject

/-- The pipeline of some options; what is reported are the input symbols if nothing else is
chosen. -/
def Options.pipeline (o : Options) (c : Config) : Pipeline :=
  let input := Alphabet.ofString o.input
  ⟨c, input, (o.output.map Alphabet.ofString).getD input⟩

def Options.run (o : Options) (h : Host) (s : Streams) : Completion :=
  match Config.resolve h o.config o.tape with
  | .error e => Completion.failWith (.config e) s
  | .ok c =>
    let p := o.pipeline c
    match p.tape h.memory with
    | .error e => Completion.failWith e s
    | .ok t => Completion.ofPipeline h.memory (.exited faultCode) p o.automaton.automaton t s

def run (args : List String) (h : Host) (s : Streams) : Completion :=
  match parse args with
  | none => ⟨.exited usageCode, s⟩
  | some o => o.run h s

end TapeMachine.CommandLine
