import TapeMachine.Proofs.Config.Validity
import TapeMachine.Proofs.Ingestion.Delivery
import TapeMachine.Proofs.Pipeline.Stages
import TapeMachine.Proofs.Tape.Window

namespace TapeMachine

theorem Traced.mem_tried_work {T : Type} [Tape T] {p : Pipeline} {scripts : Position → Script}
    {t : Traced T} {source : Source} {q : Position}
    (h : q ∈ (ingest p.input p.config.chunkSize t source).tape.tried) :
    q ∈ (p.work (Script.automaton scripts) t source).2.1.tried := by
  unfold Pipeline.work
  simp only
  split
  next => exact h
  next => exact Traced.mem_tried_run h (scripts 0)

namespace Traced

variable {T : Type} [Tape T]

theorem place_ok (t : Traced T) (p : Position) (xs : List Symbol) :
    ∃ q, (Tape.place t p xs).1 = .ok q := by
  induction xs generalizing t p with
  | nil => exact ⟨p, rfl⟩
  | cons s xs ih => exact ih (Tape.set t p s) (p + 1)

end Traced

namespace Interchangeable

variable {S T : Type} [Tape S] [Tape T] {allowed : Position → Prop} {R : S → T → Prop}
  {s : Traced S} {t : T}

theorem ingest (i : Interchangeable allowed R) (h : R s.tape t) {a : Alphabet} {chunkSize : UInt64}
    {source : Source}
    (within : ∀ q ∈ (TapeMachine.ingest a chunkSize s source).tape.tried, allowed q) :
    (TapeMachine.ingest a chunkSize s source).result =
        (TapeMachine.ingest a chunkSize t source).result ∧
      R (TapeMachine.ingest a chunkSize s source).tape.tape
        (TapeMachine.ingest a chunkSize t source).tape := by
  obtain ⟨written, result, places⟩ := Ingestion.ingest_places a chunkSize source
  obtain ⟨left, hs⟩ := places s
  obtain ⟨left', ht⟩ := places t
  have tape : (TapeMachine.ingest a chunkSize s source).tape = (Tape.place s 0 written).2 := by
    rw [hs]
    split
    next hp => rw [hp]
    next hp => rw [hp]
  rw [tape] at within ⊢
  obtain ⟨⟨r, hsr, htr⟩, hR⟩ := i.place h within
  rw [hs, ht]
  rw [show Tape.place s 0 written = (.ok r, (Tape.place s 0 written).2) from Prod.ext hsr rfl,
    show Tape.place t 0 written = (.ok r, (Tape.place t 0 written).2) from Prod.ext htr rfl]
  exact ⟨rfl, hR⟩

theorem work (i : Interchangeable allowed R) (h : R s.tape t) {p : Pipeline}
    {scripts : Position → Script} {source : Source}
    (within : ∀ q ∈ (p.work (Script.automaton scripts) s source).2.1.tried, allowed q) :
    (p.work (Script.automaton scripts) s source).1 =
        (p.work (Script.automaton scripts) t source).1 ∧
      R (p.work (Script.automaton scripts) s source).2.1.tape
        (p.work (Script.automaton scripts) t source).2.1 := by
  obtain ⟨hresult, hR⟩ := i.ingest h fun q hq => within q (Traced.mem_tried_work hq)
  unfold Pipeline.work at within ⊢
  simp only [← hresult]
  cases hs : (TapeMachine.ingest p.input p.config.chunkSize s source).result with
  | error e => exact ⟨rfl, hR⟩
  | ok summary =>
    simp only [hs] at within
    obtain ⟨hhalt, hR⟩ := i.run hR within
    exact ⟨congrArg (Except.map fun head => (summary, head)) hhalt, hR⟩

end Interchangeable

namespace Pipeline

end Pipeline

end TapeMachine
