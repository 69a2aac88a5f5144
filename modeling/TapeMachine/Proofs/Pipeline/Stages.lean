import TapeMachine.Pipeline
import TapeMachine.Proofs.Emission.Scan

namespace TapeMachine.Pipeline

variable {T : Type} [Tape T]

def work (p : Pipeline) (automaton : Automaton T) (t : T) (source : Source) :
    Except Stop (IngestSummary × Position) × T × Source :=
  let o := ingest p.input p.config.chunkSize t source
  match o.result with
  | .error e => (.error e, o.tape, o.source)
  | .ok summary =>
    ((automaton o.tape 0).1.map fun head => (summary, head), (automaton o.tape 0).2, o.source)

def ofKind (p : Pipeline) (kind : TapeKind) : Pipeline :=
  { p with config := { p.config with tape := kind } }

theorem runOn_of_valid {p : Pipeline} (valid : p.config.validate = .ok ())
    (automaton : Automaton T) (t : T) (source : Source) (sink : Sink) :
    p.runOn automaton t source sink = p.stages automaton t source sink := by
  rw [runOn, valid]

theorem run_of_valid {p : Pipeline} {memory : Memory} {t : Configured}
    (valid : p.config.validate = .ok ()) (allocated : Configured.allocate memory p.config = .ok t) (automaton : Automaton Configured)
    (source : Source) (sink : Sink) :
    p.run memory automaton source sink =
      { p.stages automaton t source sink with
        tape := some (p.stages automaton t source sink).tape } := by
  have ht : p.tape memory = .ok t := by rw [tape, valid, allocated]
  rw [run, ht]
  simp only [runOn_of_valid valid]

end TapeMachine.Pipeline
