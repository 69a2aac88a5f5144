import TapeMachine.Completion
import TapeMachine.Proofs.Emission.Scan
import TapeMachine.Proofs.Ingestion.Overrun
import TapeMachine.Proofs.Pipeline.Stages
import TapeMachine.Proofs.Tape.Fresh
import TapeMachine.Proofs.Tape.Traced

namespace TapeMachine

/-- On this tape an automaton only reads and writes cells, writes where it is allowed to, and halts,
at a head or without a transition. -/
def Automaton.Settles {T : Type} [Tape T] (automaton : Automaton T) (allowed : Position → Prop)
    (t : T) : Prop :=
  ∃ script : Script, automaton t 0 = script.run t ∧
    (∀ q ∈ (script.run (⟨t, []⟩ : Traced T)).2.tried, allowed q) ∧
    ((∃ head, (script.run (⟨t, []⟩ : Traced T)).1 = .ok head) ∨
      ∃ f, (script.run (⟨t, []⟩ : Traced T)).1 = .error (.error (.transition f)))

theorem Interchangeable.refl {T : Type} [Tape T] [LawfulTape T] (allowed : Position → Prop) :
    Interchangeable allowed fun s t : T =>
      s = t ∧ ∀ p, allowed p → Tape.refusal? t p = none where
  read h p := by rw [h.1]
  refusal h p hp := by
    obtain ⟨rfl, accepts⟩ := h
    exact ⟨accepts p hp, accepts p hp⟩
  set h p hp x := by
    obtain ⟨rfl, accepts⟩ := h
    exact ⟨rfl, fun q hq => (LawfulTape.refusal_set _ p q x).trans (accepts q hq)⟩

theorem Automaton.Settles.halts {T : Type} [Tape T] [LawfulTape T] {automaton : Automaton T}
    {allowed : Position → Prop} {t : T} (h : automaton.Settles allowed t)
    (accepts : ∀ p, allowed p → Tape.refusal? t p = none) :
    (∃ head, (automaton t 0).1 = .ok head) ∨
      ∃ f, (automaton t 0).1 = .error (.error (.transition f)) := by
  obtain ⟨script, follows, within, halts⟩ := h
  have start : (⟨t, []⟩ : Traced T).tape = t ∧ ∀ p, allowed p → Tape.refusal? t p = none :=
    ⟨rfl, accepts⟩
  obtain ⟨same, -⟩ := (Interchangeable.refl allowed).run start within
  rw [follows, ← same]
  exact halts

namespace Pipeline

variable {p : Pipeline} {automaton : Automaton Configured} {t : Configured} {source : Source}

theorem stages_of_large (large : 2 ^ 63 ≤ p.config.chunkSize.toNat)
    (automaton : Automaton Configured) (t : Configured) (source : Source) (sink : Sink) :
    p.stages automaton t source sink = ⟨.error (.fault .capacityOverflow), t, source, sink⟩ := by
  rw [stages, Ingestion.ingest_of_large large]

end Pipeline

namespace Completion

variable {memory : Memory} {onFault : Ending} {p : Pipeline} {T : Type}

theorem starved_iff {c : Config} :
    starved memory c ↔
      c.chunkSize.toNat < 2 ^ 63 ∧ memory.grants c.chunkSize.toNat = false := by
  rw [starved, Bool.and_eq_true, decide_eq_true_eq, Bool.not_eq_true']
  rfl

theorem not_starved_of_large {c : Config} (large : 2 ^ 63 ≤ c.chunkSize.toNat) :
    ¬starved memory c := by
  rw [starved_iff]
  omega

theorem not_starved_of_grants {c : Config} (granted : memory.grants c.chunkSize.toNat) :
    ¬starved memory c := by
  rw [starved_iff, granted]
  simp

variable [Tape T]

theorem ofPipeline_of_starved (valid : p.config.validate = .ok ()) (h : starved memory p.config)
    (automaton : Automaton T) (t : T) (s : Streams) :
    ofPipeline memory onFault p automaton t s = ⟨.aborted, s⟩ := by
  rw [ofPipeline, valid]
  simp only [if_pos h]

theorem ofPipeline_of_not_starved (valid : p.config.validate = .ok ())
    (h : ¬starved memory p.config) (automaton : Automaton T) (t : T) (s : Streams) :
    ofPipeline memory onFault p automaton t s =
      ofOutcome onFault s.stderr (p.stages automaton t s.stdin s.stdout) := by
  rw [ofPipeline, valid]
  simp only [if_neg h]

end Completion

namespace Pipeline

end Pipeline

end TapeMachine
