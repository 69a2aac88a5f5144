import TapeMachine.Automaton
import TapeMachine.Emission
import TapeMachine.Ingestion
import TapeMachine.Tape.Configured

namespace TapeMachine

structure RunSummary where
  ingest : IngestSummary
  finalHead : Position
  symbolsEmitted : Nat
deriving DecidableEq

structure Pipeline where
  config : Config := {}
  input : Alphabet
  output : Alphabet

namespace Pipeline

structure Outcome (T : Type) where
  result : Except Stop RunSummary
  tape : T
  source : Source
  sink : Sink

/-- The three stages on a tape that is already there. -/
def stages {T : Type} [Tape T] (p : Pipeline) (automaton : Automaton T) (t : T) (source : Source)
    (sink : Sink) : Outcome T :=
  match ingest p.input p.config.chunkSize t source with
  | ⟨.error e, t, source⟩ => ⟨.error e, t, source, sink⟩
  | ⟨.ok summary, t, source⟩ =>
    match automaton t 0 with
    | (.error e, t) => ⟨.error e, t, source, sink⟩
    | (.ok head, t) =>
      match emit t head p.output sink with
      | (.error e, sink) => ⟨.error e, t, source, sink⟩
      | (.ok count, sink) => ⟨.ok ⟨summary, head, count⟩, t, source, sink⟩

/-- Runs on a tape that is already there; the configuration is checked all the same. -/
def runOn {T : Type} [Tape T] (p : Pipeline) (automaton : Automaton T) (t : T) (source : Source)
    (sink : Sink) : Outcome T :=
  match p.config.validate with
  | .error e => ⟨.error (.error (.config e)), t, source, sink⟩
  | .ok () => p.stages automaton t source sink

/-- The fresh tape that a valid configuration asks for. -/
def tape (p : Pipeline) (memory : Memory) : Except RunError Configured :=
  match p.config.validate with
  | .error e => .error (.config e)
  | .ok () =>
    match Configured.allocate memory p.config with
    | .error e => .error (.allocation e)
    | .ok t => .ok t

/-- Runs on a fresh tape as configured. There is no tape at the end if none could be had. A process
that is refused the room for the reads does not get to the end of this. -/
def run (p : Pipeline) (memory : Memory) (automaton : Automaton Configured) (source : Source)
    (sink : Sink) : Outcome (Option Configured) :=
  match p.tape memory with
  | .error e => ⟨.error (.error e), none, source, sink⟩
  | .ok t =>
    let o := p.runOn automaton t source sink
    { o with tape := some o.tape }

end Pipeline

end TapeMachine
