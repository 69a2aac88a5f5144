import TapeMachine.Proofs.Emission.Scan
import TapeMachine.Proofs.Ingestion.Ending
import TapeMachine.Proofs.Pipeline.Stages

namespace TapeMachine

/-- All that an automaton reports is that it has no transition. -/
def Automaton.Honest {T : Type} (automaton : Automaton T) : Prop :=
  ∀ t head e, (automaton t head).1 = .error (.error e) → ∃ f, e = .transition f

namespace Pipeline

/-- The ways in which a run can go: one for each stage that can report an error, one for success,
and one for runs that end without a result. -/
inductive Course (p : Pipeline) (memory : Memory) (automaton : Automaton Configured)
    (source : Source) (sink : Sink) : Outcome (Option Configured) → Prop
  | invalid {e : ConfigError} (rejected : p.config.validate = .error e) :
      Course p memory automaton source sink ⟨.error (.error (.config e)), none, source, sink⟩
  | refused {e : IoError} (valid : p.config.validate = .ok ())
      (denied : Configured.allocate memory p.config = .error e) :
      Course p memory automaton source sink ⟨.error (.error (.allocation e)), none, source, sink⟩
  | unread {t u : Configured} {rest : Source} {e : IoError} (valid : p.config.validate = .ok ())
      (allocated : Configured.allocate memory p.config = .ok t)
      (ingested : ingest p.input p.config.chunkSize t source =
        ⟨.error (.error (.input e)), u, rest⟩) :
      Course p memory automaton source sink ⟨.error (.error (.input e)), some u, rest, sink⟩
  | stuck {t u v : Configured} {rest : Source} {summary : IngestSummary} {f : NoTransition}
      (valid : p.config.validate = .ok ()) (allocated : Configured.allocate memory p.config = .ok t)
      (ingested : ingest p.input p.config.chunkSize t source = ⟨.ok summary, u, rest⟩)
      (executed : automaton u 0 = (.error (.error (.transition f)), v)) :
      Course p memory automaton source sink ⟨.error (.error (.transition f)), some v, rest, sink⟩
  | unwritten {t u v : Configured} {rest : Source} {summary : IngestSummary} {head : Position}
      {e : IoError} {sink' : Sink}
      (valid : p.config.validate = .ok ()) (allocated : Configured.allocate memory p.config = .ok t)
      (ingested : ingest p.input p.config.chunkSize t source = ⟨.ok summary, u, rest⟩)
      (executed : automaton u 0 = (.ok head, v))
      (emitted : emit v head p.output sink = (.error (.error (.output e)), sink')) :
      Course p memory automaton source sink ⟨.error (.error (.output e)), some v, rest, sink'⟩
  | complete {t u v : Configured} {rest : Source} {summary : IngestSummary} {head : Position}
      {count : Nat} {sink' : Sink}
      (valid : p.config.validate = .ok ()) (allocated : Configured.allocate memory p.config = .ok t)
      (ingested : ingest p.input p.config.chunkSize t source = ⟨.ok summary, u, rest⟩)
      (executed : automaton u 0 = (.ok head, v))
      (emitted : emit v head p.output sink = (.ok count, sink')) :
      Course p memory automaton source sink ⟨.ok ⟨summary, head, count⟩, some v, rest, sink'⟩
  | broken {o : Outcome (Option Configured)} {stop : Stop} (valid : p.config.validate = .ok ())
      (result : o.result = .error stop) (unreported : ∀ e, stop ≠ .error e) :
      Course p memory automaton source sink o

variable {p : Pipeline} {memory : Memory} {automaton : Automaton Configured} {source : Source}
  {sink : Sink}

theorem run_of_invalid {e : ConfigError} (rejected : p.config.validate = .error e)
    (automaton : Automaton Configured) :
    p.run memory automaton source sink = ⟨.error (.error (.config e)), none, source, sink⟩ := by
  simp only [run, tape, rejected]

theorem run_of_refused {e : IoError} (valid : p.config.validate = .ok ())
    (denied : Configured.allocate memory p.config = .error e) (automaton : Automaton Configured) :
    p.run memory automaton source sink = ⟨.error (.error (.allocation e)), none, source, sink⟩ := by
  simp only [run, tape, valid, denied]

theorem run_of_unread {t u : Configured} {rest : Source} {e : Stop}
    (valid : p.config.validate = .ok ()) (allocated : Configured.allocate memory p.config = .ok t)
    (ingested : ingest p.input p.config.chunkSize t source = ⟨.error e, u, rest⟩)
    (automaton : Automaton Configured) :
    p.run memory automaton source sink = ⟨.error e, some u, rest, sink⟩ := by
  rw [run_of_valid valid allocated, stages, ingested]

theorem chunkSize_of_valid (valid : p.config.validate = .ok ()) : p.config.chunkSize ≠ 0 := by
  intro hz
  simp [Config.validate, hz] at valid

theorem run_course (p : Pipeline) (memory : Memory) (honest : automaton.Honest) (source : Source)
    (sink : Sink) :
    Course p memory automaton source sink (p.run memory automaton source sink) := by
  cases valid : p.config.validate with
  | error e =>
    rw [run_of_invalid valid]
    exact .invalid valid
  | ok _ =>
    cases allocated : Configured.allocate memory p.config with
    | error e =>
      rw [run_of_refused valid allocated]
      exact .refused valid allocated
    | ok t =>
      rw [run_of_valid valid allocated, stages]
      rcases ingested : ingest p.input p.config.chunkSize t source with ⟨stop | summary, u, rest⟩
      · cases stop with
        | error e =>
          obtain ⟨i, rfl, -⟩ := Ingestion.ingest_error (chunkSize_of_valid valid)
            (congrArg Ingestion.Outcome.result ingested)
          exact .unread valid allocated ingested
        | fault f => exact .broken valid rfl (fun e => by simp)
        | unfinished => exact .broken valid rfl (fun e => by simp)
      · simp only
        rcases executed : automaton u 0 with ⟨stop | head, v⟩
        · cases stop with
          | error e =>
            obtain ⟨f, rfl⟩ := honest u 0 e (congrArg Prod.fst executed)
            exact .stuck valid allocated ingested executed
          | fault f => exact .broken valid rfl (fun e => by simp)
          | unfinished => exact .broken valid rfl (fun e => by simp)
        · simp only
          rcases emitted : emit v head p.output sink with ⟨stop | count, sink'⟩
          · obtain ⟨e, rfl⟩ | ⟨rfl, -⟩ := Emission.emit_error emitted
            · exact .unwritten valid allocated ingested executed emitted
            · exact .broken valid rfl (fun e => by simp)
          · exact .complete valid allocated ingested executed emitted

theorem eq_of_reported {o : Outcome (Option Configured)} {stop : Stop} {e : RunError}
    (result : o.result = .error stop) (h : o.result = .error (.error e)) : stop = .error e :=
  Except.error.inj (result.symm.trans h)

theorem run_config_iff (honest : automaton.Honest) (source : Source) (sink : Sink)
    (e : ConfigError) :
    (p.run memory automaton source sink).result = .error (.error (.config e)) ↔
      p.config.validate = .error e := by
  constructor
  · intro h
    have course := run_course p memory honest source sink
    generalize p.run memory automaton source sink = o at h course
    cases course with
    | invalid rejected =>
      cases h
      exact rejected
    | broken _ result unreported => exact absurd (eq_of_reported result h) (unreported _)
    | refused | unread | stuck | unwritten | complete => cases h
  · intro rejected
    rw [run_of_invalid rejected]

/-- Without a tape nothing is read or written, and no automaton is run. -/
theorem run_without_tape (honest : automaton.Honest)
    (h : (∃ e, (p.run memory automaton source sink).result = .error (.error (.config e))) ∨
      ∃ e, (p.run memory automaton source sink).result = .error (.error (.allocation e))) :
    (p.run memory automaton source sink).source = source ∧
      (p.run memory automaton source sink).sink = sink ∧
      ∀ other, p.run memory other source sink = p.run memory automaton source sink := by
  have course := run_course p memory honest source sink
  generalize ho : p.run memory automaton source sink = o at h course
  cases course with
  | invalid rejected => exact ⟨rfl, rfl, run_of_invalid rejected⟩
  | refused valid denied => exact ⟨rfl, rfl, run_of_refused valid denied⟩
  | broken _ result unreported =>
    obtain ⟨e, h⟩ | ⟨e, h⟩ := h
    · exact absurd (eq_of_reported result h) (unreported _)
    · exact absurd (eq_of_reported result h) (unreported _)
  | unread | stuck | unwritten | complete => simp at h

theorem run_of_input_error (honest : automaton.Honest)
    (h : ∃ e, (p.run memory automaton source sink).result = .error (.error (.input e))) :
    (p.run memory automaton source sink).sink = sink ∧
      ∀ other, p.run memory other source sink = p.run memory automaton source sink := by
  obtain ⟨e, h⟩ := h
  have course := run_course p memory honest source sink
  generalize ho : p.run memory automaton source sink = o at h course
  cases course with
  | unread valid allocated ingested => exact ⟨rfl, run_of_unread valid allocated ingested⟩
  | broken _ result unreported => exact absurd (eq_of_reported result h) (unreported _)
  | invalid | refused | stuck | unwritten | complete => cases h

/-- A missing transition is the automaton's, on the tape with the whole input. -/
theorem run_of_transition (honest : automaton.Honest) {f : NoTransition}
    (h : (p.run memory automaton source sink).result = .error (.error (.transition f))) :
    ∃ t, Configured.allocate memory p.config = .ok t ∧
      let i := ingest p.input p.config.chunkSize t source
      (∃ summary, i.result = .ok summary) ∧ source.ReadToEnd i.source ∧
      (automaton i.tape 0).1 = .error (.error (.transition f)) ∧
      p.run memory automaton source sink =
        ⟨.error (.error (.transition f)), some (automaton i.tape 0).2, i.source, sink⟩ := by
  have course := run_course p memory honest source sink
  generalize p.run memory automaton source sink = o at h course
  cases course with
  | @stuck t u v rest summary g valid allocated ingested executed =>
    cases h
    have result := congrArg Ingestion.Outcome.result ingested
    refine ⟨t, allocated, ⟨summary, result⟩, Ingestion.ingest_ok result, ?_⟩
    simp only [ingested, executed, and_self]
  | broken _ result unreported => exact absurd (eq_of_reported result h) (unreported _)
  | invalid | refused | unread | unwritten | complete => cases h

theorem run_of_output_error (honest : automaton.Honest) {e : IoError}
    (h : (p.run memory automaton source sink).result = .error (.error (.output e))) :
    ∃ t head, Configured.allocate memory p.config = .ok t ∧
      let i := ingest p.input p.config.chunkSize t source
      let v := (automaton i.tape 0).2
      (∃ summary, i.result = .ok summary) ∧ (automaton i.tape 0).1 = .ok head ∧
      (p.run memory automaton source sink).tape = some v ∧
      ∃ front, front <+: Emission.report (Emission.scan v head p.output) ∧
        (p.run memory automaton source sink).sink.accepted.toList =
          sink.accepted.toList ++ front := by
  have course := run_course p memory honest source sink
  generalize p.run memory automaton source sink = o at h course
  cases course with
  | @unwritten t u v rest summary head e sink' valid allocated ingested executed emitted =>
    obtain ⟨front, isFront, accepted⟩ := Emission.front_of_emit v head p.output sink
    rw [emitted] at accepted
    refine ⟨t, head, allocated, ⟨summary, congrArg Ingestion.Outcome.result ingested⟩, ?_⟩
    simp only [ingested, executed]
    exact ⟨trivial, trivial, front, isFront, accepted⟩
  | broken _ result unreported => exact absurd (eq_of_reported result h) (unreported _)
  | invalid | refused | unread | stuck | complete => cases h

theorem run_ok (honest : automaton.Honest) {summary : RunSummary}
    (h : (p.run memory automaton source sink).result = .ok summary) :
    ∃ t, Configured.allocate memory p.config = .ok t ∧
      let i := ingest p.input p.config.chunkSize t source
      let v := (automaton i.tape 0).2
      let symbols := Emission.scan v summary.finalHead p.output
      i.result = .ok summary.ingest ∧ source.ReadToEnd i.source ∧
      (automaton i.tape 0).1 = .ok summary.finalHead ∧
      (p.run memory automaton source sink).tape = some v ∧
      (p.run memory automaton source sink).source = i.source ∧
      summary.symbolsEmitted = symbols.length ∧
      (p.run memory automaton source sink).sink.accepted.toList =
        sink.accepted.toList ++ Emission.report symbols ∧
      (p.run memory automaton source sink).sink.flushes = sink.flushes + 1 ∧
      sink.flushError = none := by
  have course := run_course p memory honest source sink
  generalize p.run memory automaton source sink = o at h course
  cases course with
  | @complete t u v rest ingestion head count sink' valid allocated ingested executed emitted =>
    cases h
    have result := congrArg Ingestion.Outcome.result ingested
    have toEnd := Ingestion.ingest_ok result
    refine ⟨t, allocated, ?_⟩
    simp only [ingested, executed] at toEnd ⊢
    obtain ⟨-, written⟩ := Emission.of_emit_ok emitted
    exact ⟨trivial, toEnd, trivial, trivial, trivial, written⟩
  | broken _ result _ => cases result.symm.trans h
  | invalid | refused | unread | stuck | unwritten => cases h

/-- The transition that a run found missing, if that is how it ended. -/
def Outcome.missing? {T : Type} (o : Outcome T) : Option NoTransition :=
  match o.result with
  | .error (.error (.transition f)) => some f
  | _ => none

theorem Outcome.result_of_missing? {T : Type} {o : Outcome T} {f : NoTransition}
    (h : o.missing? = some f) : o.result = .error (.error (.transition f)) := by
  unfold Outcome.missing? at h
  split at h
  next g result => rw [result, Option.some.inj h]
  next => simp at h

/-- A run ends at the first stage that fails, and the later ones leave no trace. A run without a
tape reads nothing, runs nothing and writes nothing; one that cannot read its input runs and writes
nothing; one whose automaton is stuck has read all of its input and writes nothing; one that cannot
write has written a front part of the text; and one that succeeds has done all of its work. -/
theorem run_stops_at_first_failure (p : Pipeline) (memory : Memory)
    {automaton : Automaton Configured} (honest : automaton.Honest) (source : Source) (sink : Sink) :
    let o := p.run memory automaton source sink
    (∀ e, o.result = .error (.error (.config e)) ↔ p.config.validate = .error e) ∧
    ((∃ e, o.result = .error (.error (.config e))) ∨
        (∃ e, o.result = .error (.error (.allocation e))) →
      o.source = source ∧ o.sink = sink ∧ ∀ other, p.run memory other source sink = o) ∧
    ((∃ e, o.result = .error (.error (.input e))) →
      o.sink = sink ∧ ∀ other, p.run memory other source sink = o) ∧
    (∀ f, o.result = .error (.error (.transition f)) →
      ∃ t, Configured.allocate memory p.config = .ok t ∧
        let i := ingest p.input p.config.chunkSize t source
        (∃ summary, i.result = .ok summary) ∧ source.ReadToEnd i.source ∧
        (automaton i.tape 0).1 = .error (.error (.transition f)) ∧
        o = ⟨.error (.error (.transition f)), some (automaton i.tape 0).2, i.source, sink⟩) ∧
    (∀ e, o.result = .error (.error (.output e)) →
      ∃ t head, Configured.allocate memory p.config = .ok t ∧
        let i := ingest p.input p.config.chunkSize t source
        let v := (automaton i.tape 0).2
        (∃ summary, i.result = .ok summary) ∧ (automaton i.tape 0).1 = .ok head ∧
        o.tape = some v ∧
        ∃ front, front <+: Emission.report (Emission.scan v head p.output) ∧
          o.sink.accepted.toList = sink.accepted.toList ++ front) ∧
    (∀ summary, o.result = .ok summary →
      ∃ t, Configured.allocate memory p.config = .ok t ∧
        let i := ingest p.input p.config.chunkSize t source
        let v := (automaton i.tape 0).2
        let symbols := Emission.scan v summary.finalHead p.output
        i.result = .ok summary.ingest ∧ source.ReadToEnd i.source ∧
        (automaton i.tape 0).1 = .ok summary.finalHead ∧ o.tape = some v ∧ o.source = i.source ∧
        summary.symbolsEmitted = symbols.length ∧
        o.sink.accepted.toList = sink.accepted.toList ++ Emission.report symbols ∧
        o.sink.flushes = sink.flushes + 1 ∧ sink.flushError = none) := by
  intro o
  exact ⟨run_config_iff honest source sink, run_without_tape honest, run_of_input_error honest,
    fun f => run_of_transition honest, fun e => run_of_output_error honest,
    fun summary => run_ok honest⟩

/-- An automaton without transitions, on an input of which one byte begins nothing. -/
theorem run_stops_at_first_failure_reject :
    let p : Pipeline :=
      { config := { tape := .growable }
        input := .ofString "ab"
        output := .ofString "ab" }
    let automaton : Automaton Configured := Automaton.reject
    let source := Source.ofBytes [0xFF, 0x62, 0x61]
    let o := p.run .ample automaton source {}
    automaton.Honest ∧ o.result = .error (.error (.transition ⟨"reject", .ofChar 'b'⟩)) ∧
    ∃ t, Configured.allocate .ample p.config = .ok t ∧
      let i := ingest p.input p.config.chunkSize t source
      (∃ summary, i.result = .ok summary) ∧ source.ReadToEnd i.source ∧ o.source = i.source ∧
      o.sink = {} := by
  intro p automaton source o
  have honest : automaton.Honest := by
    intro t head e h
    cases h
    exact ⟨_, rfl⟩
  have result : o.result = .error (.error (.transition ⟨"reject", .ofChar 'b'⟩)) :=
    Outcome.result_of_missing? (by decide +kernel)
  obtain ⟨-, -, -, stuck, -⟩ := run_stops_at_first_failure p .ample honest source {}
  obtain ⟨t, allocated, ingested, toEnd, -, ho⟩ := stuck _ result
  exact ⟨honest, result, t, allocated, ingested, toEnd, congrArg Outcome.source ho,
    congrArg Outcome.sink ho⟩

end Pipeline

end TapeMachine
