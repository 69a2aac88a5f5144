import TapeMachine.Alphabet
import TapeMachine.Stream
import TapeMachine.Tape.Basic
import TapeMachine.Utf8.Decoder

namespace TapeMachine

/-- What an ingestion took in: the bytes read, the characters written and discarded, and the bytes
that belonged to no character. -/
structure IngestSummary where
  bytesRead : Nat := 0
  symbolsWritten : Nat := 0
  symbolsDiscarded : Nat := 0
  bytesSkipped : Nat := 0
deriving DecidableEq

namespace Ingestion

structure State where
  decoder : Utf8.Decoder := .fresh
  cursor : Position := 0
  summary : IngestSummary := {}

def accepted (a : Alphabet) (cs : List Char) : List Symbol :=
  (cs.map Symbol.ofChar).filter (· ∈ a)

def absorb {T : Type} [Tape T] (a : Alphabet) (st : State) (t : T) (chunk : List UInt8) :
    Except Fault State × T :=
  let (scalars, decoder) := st.decoder.feed chunk
  let symbols := accepted a scalars
  match Tape.place t st.cursor symbols with
  | (.error f, t) => (.error f, t)
  | (.ok cursor, t) =>
    (.ok ⟨decoder, cursor,
      { st.summary with
        bytesRead := st.summary.bytesRead + chunk.length
        symbolsDiscarded := st.summary.symbolsDiscarded + (scalars.length - symbols.length) }⟩, t)

/-- The summary when the stream has ended. The cursor tells how many symbols were written. -/
def State.close (st : State) : IngestSummary :=
  { st.summary with
    bytesSkipped := st.decoder.finish.skipped
    symbolsWritten := st.cursor.toUInt64.toNat }

structure Outcome (T : Type) where
  result : Except Stop IngestSummary
  tape : T
  source : Source

/-- Reads up to `room` bytes at a time until the stream ends. An interrupted read is made again;
any other error ends the ingestion, and what was written before it stays. -/
def pump {T : Type} [Tape T] (a : Alphabet) (room : Nat) (st : State) (t : T) (source : Source) :
    Outcome T :=
  match h : source.read room with
  | (.ok [], rest) => ⟨.ok st.close, t, rest⟩
  | (.ok (b :: bytes), rest) =>
    have := Source.weight_read_of_bytes h
    match absorb a st t (b :: bytes) with
    | (.error f, t) => ⟨.error (.fault f), t, rest⟩
    | (.ok st, t) => pump a room st t rest
  | (.error e, rest) =>
    have := Source.weight_read_of_error h
    if e.isInterrupted then pump a room st t rest
    else ⟨.error (.error (.input e)), t, rest⟩
termination_by source.weight

/-- More bytes than this cannot be asked for in one read. -/
def roomLimit : Nat := 1 <<< 63

end Ingestion

/-- Ingests a whole source. Nothing is read if no read could return anything, or if the room for
one cannot even be asked for. -/
def ingest {T : Type} [Tape T] (a : Alphabet) (chunkSize : UInt64) (t : T) (source : Source) :
    Ingestion.Outcome T :=
  if chunkSize = 0 then ⟨.error (.error (.config .zeroChunkSize)), t, source⟩
  else if Ingestion.roomLimit ≤ chunkSize.toNat then
    ⟨.error (.fault .capacityOverflow), t, source⟩
  else Ingestion.pump a chunkSize.toNat {} t source

end TapeMachine
