import TapeMachine.Compiled
import TapeMachine.Config.Resolution
import TapeMachine.Pipeline
import TapeMachine.RunError

namespace TapeMachine

structure Streams where
  stdin : Source
  stdout : Sink := {}
  stderr : Sink := {}

/-- How a process ends: with an exit code, killed by its own abort, or never. -/
inductive Ending where
  | exited (code : Nat)
  | aborted
  | unending
deriving DecidableEq

structure Completion where
  ending : Ending
  streams : Streams

namespace Completion

def failWith (e : RunError) (s : Streams) : Completion :=
  ⟨.exited e.exitCode, { s with stderr := (e.report s.stderr).2 }⟩

/-- Ends as a run did; `onFault` is what becomes of a fault. -/
def ofOutcome {T : Type} (onFault : Ending) (stderr : Sink) (o : Pipeline.Outcome T) : Completion :=
  let streams : Streams := ⟨o.source, o.sink, stderr⟩
  match o.result with
  | .ok _ => ⟨.exited 0, streams⟩
  | .error (.error e) => failWith e streams
  | .error (.fault _) => ⟨onFault, streams⟩
  | .error .unfinished => ⟨.unending, streams⟩

/-- Whether a process is refused the room for one read. Room that cannot even be asked for is a
fault of the ingestion instead. -/
def starved (memory : Memory) (c : Config) : Bool :=
  c.chunkSize.toNat < Ingestion.roomLimit && !memory.grants c.chunkSize.toNat

/-- Runs a pipeline on a tape between the standard streams. Room for the reads is had when the
configuration was found to be valid; a process that is refused it aborts. -/
def ofPipeline {T : Type} [Tape T] (memory : Memory) (onFault : Ending) (p : Pipeline)
    (automaton : Automaton T) (t : T) (s : Streams) : Completion :=
  match p.config.validate with
  | .error e => failWith (.config e) s
  | .ok () =>
    if starved memory p.config then ⟨.aborted, s⟩
    else ofOutcome onFault s.stderr (p.stages automaton t s.stdin s.stdout)

end Completion

end TapeMachine

namespace TapeMachine.EntryPoint

/-- An alphabet as a compiled program holds it: a table, which may be missing, and how many of its
symbols count. -/
def alphabet (table : Option (List Symbol)) (count : Nat) : Alphabet :=
  match table with
  | none => .empty
  | some symbols => .ofTable symbols count

/-- Runs a compiled automaton as the environment says. Its tape is a reservation, whatever kind
was chosen. A fault cannot be handed on to the caller, so it aborts the process. -/
def run (h : Host) (f : Compiled) (input output : Alphabet) (s : Streams) : Completion :=
  match Config.ofEnvironment h with
  | .error e => Completion.failWith (.config e) s
  | .ok c =>
    let p : Pipeline := ⟨{ c with tape := .reserved }, input, output⟩
    match Reserved.allocate h.memory p.config.tapeBytes with
    | .error e => Completion.failWith (.allocation e) s
    | .ok t => Completion.ofPipeline h.memory .aborted p f.automaton t s

/-- Reports a missing transition and ends the process. -/
def fail (state : Option (List UInt8)) (symbol : Symbol) (s : Streams) : Completion :=
  Completion.failWith (.transition (Compiled.failure state symbol)) s

end TapeMachine.EntryPoint
