import TapeMachine.Automaton
import TapeMachine.Proofs.Ingestion.Ending
import TapeMachine.Proofs.Pipeline.Stages

namespace TapeMachine

/-- A way of taking tapes of one type for tapes of another that no operation can tell. -/
structure TapeEmbedding {S T : Type} [Tape S] [Tape T] (φ : S → T) : Prop where
  read : ∀ t p, Tape.read (φ t) p = Tape.read t p
  refusal : ∀ t p, Tape.refusal? (φ t) p = Tape.refusal? t p
  set : ∀ t p s, Tape.set (φ t) p s = φ (Tape.set t p s)
  stop : ∀ t, Tape.stop (φ t) = Tape.stop t

theorem Configured.embedding_reserved : TapeEmbedding Configured.reserved where
  read _ _ := rfl
  refusal _ _ := rfl
  set _ _ _ := rfl
  stop _ := rfl

namespace TapeEmbedding

variable {S T : Type} [Tape S] [Tape T] {φ : S → T}

theorem place (e : TapeEmbedding φ) (t : S) (p : Position) (xs : List Symbol) :
    Tape.place (φ t) p xs = ((Tape.place t p xs).1, φ (Tape.place t p xs).2) := by
  induction xs generalizing t p with
  | nil => rfl
  | cons s xs ih =>
    rw [Tape.place, Tape.place, e.refusal]
    cases Tape.refusal? t p with
    | none =>
      rw [e.set]
      exact ih (Tape.set t p s) (p + 1)
    | some f => rfl

def ingested (φ : S → T) (o : Ingestion.Outcome S) : Ingestion.Outcome T :=
  ⟨o.result, φ o.tape, o.source⟩

theorem absorb (e : TapeEmbedding φ) (a : Alphabet) (st : Ingestion.State) (t : S)
    (chunk : List UInt8) :
    Ingestion.absorb a st (φ t) chunk =
      ((Ingestion.absorb a st t chunk).1, φ (Ingestion.absorb a st t chunk).2) := by
  simp only [Ingestion.absorb, e.place]
  cases Tape.place t st.cursor (Ingestion.accepted a (st.decoder.feed chunk).1) with
  | mk result u => cases result <;> rfl

theorem pump (e : TapeEmbedding φ) (a : Alphabet) (room : Nat) (st : Ingestion.State) (t : S)
    (source : Source) :
    Ingestion.pump a room st (φ t) source = ingested φ (Ingestion.pump a room st t source) := by
  induction hw : source.weight using Nat.strongRecOn generalizing st t source with
  | ind weight ih =>
    subst weight
    rw [Ingestion.pump_eq, Ingestion.pump_eq]
    rcases hr : source.read room with ⟨i | _ | ⟨b, bytes⟩, rest⟩
    · simp only
      split
      next => exact ih _ (Source.weight_read_of_error hr) st t rest rfl
      next => rfl
    · rfl
    · simp only [e.absorb]
      rcases Ingestion.absorb a st t (b :: bytes) with ⟨f | st', u⟩
      · rfl
      · exact ih _ (Source.weight_read_of_bytes hr) st' u rest rfl

theorem ingest (e : TapeEmbedding φ) (a : Alphabet) (chunkSize : UInt64) (t : S)
    (source : Source) :
    TapeMachine.ingest a chunkSize (φ t) source =
      ingested φ (TapeMachine.ingest a chunkSize t source) := by
  unfold TapeMachine.ingest
  split
  next => rfl
  next =>
    split
    next => rfl
    next => exact e.pump a chunkSize.toNat {} t source

theorem emit (e : TapeEmbedding φ) (t : S) (head : Position) (a : Alphabet) (sink : Sink) :
    TapeMachine.emit (φ t) head a sink = TapeMachine.emit t head a sink := by
  have from_ (count : Nat) (p : Position) (written : Nat) (sink : Sink) :
      Emission.emitFrom (φ t) a count p written sink =
        Emission.emitFrom t a count p written sink := by
    induction count generalizing p written sink with
    | zero => rfl
    | succ count ih => simp only [Emission.emitFrom, e.read, ih]
  rw [TapeMachine.emit, TapeMachine.emit, from_, Emission.reach, Emission.reach, e.stop]

theorem runFrom {σ : Type} (e : TapeEmbedding φ) (p : Program σ) (fuel : Nat) (s : σ) (t : S)
    (head : Position) :
    p.runFrom fuel s (φ t) head = ((p.runFrom fuel s t head).1, φ (p.runFrom fuel s t head).2) := by
  induction fuel generalizing s t head with
  | zero => rfl
  | succ fuel ih =>
    rw [Program.runFrom, Program.runFrom]
    split
    next => rfl
    next =>
      simp only [e.read]
      cases p.action? s (Tape.read t head) with
      | none => rfl
      | some a =>
        simp only
        cases a.write with
        | none => exact ih a.next t (head + a.move)
        | some written =>
          simp only [e.refusal]
          cases Tape.refusal? t head with
          | none =>
            simp only [e.set]
            exact ih a.next (Tape.set t head written) (head + a.move)
          | some f => rfl

/-- The stages of a run go the same way on both tapes if the automata do, on the tape on which
they are run. -/
theorem stages (e : TapeEmbedding φ) {p : Pipeline} {f : Automaton S} {g : Automaton T} {t : S}
    {source : Source} (alike : let u := (TapeMachine.ingest p.input p.config.chunkSize t source).tape
      g (φ u) 0 = ((f u 0).1, φ (f u 0).2)) (sink : Sink) :
    p.stages g (φ t) source sink =
      let o := p.stages f t source sink
      ⟨o.result, φ o.tape, o.source, o.sink⟩ := by
  unfold Pipeline.stages
  rw [e.ingest]
  generalize TapeMachine.ingest p.input p.config.chunkSize t source = taken at alike ⊢
  rcases taken with ⟨stop | summary, u, rest⟩
  · rfl
  · simp only [ingested] at alike ⊢
    rw [alike]
    rcases f u 0 with ⟨stop | head, v⟩
    · rfl
    · simp only [e.emit]
      rcases TapeMachine.emit v head p.output sink with ⟨stop | count, sink'⟩
      · rfl
      · rfl

end TapeEmbedding

end TapeMachine
