import Mathlib.Data.List.TakeWhile
import TapeMachine.CommandLine
import TapeMachine.Proofs.Config.Layering
import TapeMachine.Proofs.Pipeline.Faults
import TapeMachine.Proofs.Stream.Faulty

namespace TapeMachine

theorem Alphabet.blank_mem_ofString {s : String} :
    Symbol.blank ∈ Alphabet.ofString s ↔ '\x00' ∈ s.toList := by
  constructor
  · intro h
    obtain ⟨c, hc, code⟩ := List.mem_map.mp h
    have null : c = '\x00' := Char.ext (Symbol.mk.inj code)
    exact null ▸ hc
  · intro h
    exact List.mem_map.mpr ⟨'\x00', h, rfl⟩

namespace Pipeline

/-- The symbols of a delivery that a pipeline accepts. -/
def accepted (p : Pipeline) (deliveries : List Source.Event) : List Symbol :=
  Ingestion.symbols p.input (Source.delivered deliveries)

section

variable {p : Pipeline} {memory : Memory} {t : Configured} {deliveries ending : List Source.Event}
  (valid : p.config.validate = .ok ()) (allocated : Configured.allocate memory p.config = .ok t)
  (bound : p.config.chunkSize.toNat < 2 ^ 63) (delivers : ∀ e ∈ deliveries, e.Delivers)

include valid allocated bound delivers

theorem stages_overfull (more : p.config.room < (p.accepted deliveries).length)
    (rest : List Source.Event) (reads : Nat) (automaton : Automaton Configured) (sink : Sink) :
    ∃ f u left, p.stages automaton t ⟨deliveries ++ rest, reads⟩ sink =
      ⟨.error (.fault f), u, left, sink⟩ := by
  have positive := Config.chunkSize_pos valid
  have extent := (Configured.fresh valid allocated).extent
  obtain ⟨f, u, left, ingested⟩ :=
    Ingestion.ingest_of_overfull positive bound extent delivers more rest reads
  exact ⟨f, u, left, by rw [stages, ingested]⟩

variable (ends : Source.Ends ending) (fits : (p.accepted deliveries).length ≤ p.config.room)

include ends fits

theorem ingest_of_ended (reads : Nat) :
    ∃ summary left, ingest p.input p.config.chunkSize t ⟨deliveries ++ ending, reads⟩ =
      ⟨.ok summary, (Tape.place t 0 (p.accepted deliveries)).2, left⟩ := by
  have positive := Config.chunkSize_pos valid
  have writable := (Configured.fresh valid allocated).extent.writable
  have enough : 0 + (p.accepted deliveries).length ≤ p.config.room := by omega
  have placed := Tape.place_of_writable writable enough
  obtain ⟨reads', ingested⟩ := Ingestion.ingest_ended positive bound delivers ends reads placed
  exact ⟨_, _, ingested⟩

theorem stages_echo (reads : Nat) (blank : Symbol.blank ∉ p.output) {sink : Sink}
    (reliable : sink.Reliable) :
    ∃ summary u left sink', p.stages Automaton.echo t ⟨deliveries ++ ending, reads⟩ sink =
        ⟨.ok summary, u, left, sink'⟩ ∧
      sink'.accepted.toList = sink.accepted.toList ++
        Emission.report ((p.accepted deliveries).takeWhile (· ∈ p.output)) := by
  have fresh := Configured.fresh valid allocated
  obtain ⟨summary, left, ingested⟩ := ingest_of_ended valid allocated bound delivers ends fits reads
  have scanned := Emission.scan_place fresh fits blank
  have addressed : ((Tape.place t 0 (p.accepted deliveries)).2).Fits :=
    Tape.place_keep (Configured.fits_of_allocated allocated) Configured.Fits.set 0 _
  have terminates : Emission.Terminates (Tape.place t 0 (p.accepted deliveries)).2 0 p.output :=
    (Emission.terminates_iff_of_stop_lt rfl addressed.stop_lt).mpr (by decide)
  obtain ⟨sink', emitted, written⟩ := Emission.emit_of_ends terminates reliable
  rw [scanned] at emitted written
  refine ⟨⟨summary, 0, ((p.accepted deliveries).takeWhile (· ∈ p.output)).length⟩,
    (Tape.place t 0 (p.accepted deliveries)).2, left, sink', ?_, written⟩
  rw [stages, ingested]
  simp only [Automaton.echo, emitted]

theorem stages_reject (reads : Nat) (sink : Sink) :
    ∃ u left, p.stages Automaton.reject t ⟨deliveries ++ ending, reads⟩ sink =
      ⟨.error (.error (.transition ⟨"reject", (p.accepted deliveries).headD .blank⟩)), u, left,
        sink⟩ := by
  have fresh := Configured.fresh valid allocated
  obtain ⟨summary, left, ingested⟩ := ingest_of_ended valid allocated bound delivers ends fits reads
  have under := fresh.read_zero fits
  refine ⟨(Tape.place t 0 (p.accepted deliveries)).2, left, ?_⟩
  rw [stages, ingested]
  simp only [Automaton.reject, under]

end

end Pipeline

namespace CommandLine

variable {args : List String} {h : Host} {o : Options} {c : Config} {t : Configured}

theorem pipeline_output (o : Options) (c : Config) :
    (o.pipeline c).output = Alphabet.ofString (o.output.getD o.input) := by
  unfold Options.pipeline
  cases o.output <;> rfl

theorem run_of_resolved (parsed : parse args = some o)
    (resolved : Config.resolve h o.config o.tape = .ok c)
    (allocated : Configured.allocate h.memory c = .ok t) (s : Streams) :
    run args h s =
      Completion.ofPipeline h.memory (.exited faultCode) (o.pipeline c) o.automaton.automaton t
        s := by
  have valid : (o.pipeline c).config.validate = .ok () := Config.validate_of_resolve resolved
  have same : Configured.allocate h.memory (o.pipeline c).config = .ok t := allocated
  have tape : (o.pipeline c).tape h.memory = .ok t := by rw [Pipeline.tape, valid, same]
  rw [run, parsed]
  simp only [Options.run, resolved, tape]

/-- What becomes of the input. If it does not fit on the tape, or there is no memory for the reads,
nothing is written. Otherwise `echo` reports the symbols before the first that is not in the output
alphabet, and `reject` tells which symbol it was started on. Without an output alphabet all that
was accepted is reported. -/
theorem run_reports_accepted (parsed : parse args = some o)
    (resolved : Config.resolve h o.config o.tape = .ok c)
    (allocated : Configured.allocate h.memory c = .ok t)
    (null : '\x00' ∉ (o.output.getD o.input).toList) {deliveries ending : List Source.Event}
    (delivers : ∀ e ∈ deliveries, e.Delivers) (ends : Source.Ends ending) (reads : Nat)
    {stdout stderr : Sink} (out : stdout.Reliable) (err : stderr.Reliable) :
    let size := c.chunkSize.toNat
    let symbols := Ingestion.symbols (.ofString o.input) (Source.delivered deliveries)
    let reported := symbols.takeWhile (· ∈ Alphabet.ofString (o.output.getD o.input))
    let done := run args h ⟨⟨deliveries ++ ending, reads⟩, stdout, stderr⟩
    (2 ^ 63 ≤ size → done.ending = .exited 101 ∧ done.streams.stdout = stdout) ∧
    (size < 2 ^ 63 → h.memory.grants size = false →
      done.ending = .aborted ∧ done.streams.stdout = stdout) ∧
    (size < 2 ^ 63 → h.memory.grants size →
      (c.room < symbols.length → done.ending = .exited 101 ∧ done.streams.stdout = stdout) ∧
      (symbols.length ≤ c.room → o.automaton = .echo →
        done.ending = .exited 0 ∧ done.streams.stderr = stderr ∧
        done.streams.stdout.accepted.toList =
          stdout.accepted.toList ++ Emission.report reported) ∧
      (symbols.length ≤ c.room → o.automaton = .reject →
        done.ending = .exited 1 ∧ done.streams.stdout = stdout ∧
        done.streams.stderr.accepted.toList = stderr.accepted.toList ++
          Utf8.bytesOf (RunError.transition ⟨"reject", symbols.headD .blank⟩).line)) ∧
    (o.output = none → reported = symbols) := by
  intro size symbols reported done
  have valid : (o.pipeline c).config.validate = .ok () := Config.validate_of_resolve resolved
  have output := pipeline_output o c
  have blank : Symbol.blank ∉ (o.pipeline c).output := by
    rw [output, Alphabet.blank_mem_ofString]
    exact null
  have run : done = _ := run_of_resolved parsed resolved allocated _
  have fed (h : ¬Completion.starved h.memory c) :
      done = Completion.ofOutcome (.exited faultCode) stderr ((o.pipeline c).stages
        o.automaton.automaton t ⟨deliveries ++ ending, reads⟩ stdout) :=
    run.trans (Completion.ofPipeline_of_not_starved valid h _ t _)
  refine ⟨fun large => ?_, fun bound refused => ?_, fun bound granted => ?_, fun same => ?_⟩
  · rw [fed (Completion.not_starved_of_large large), Pipeline.stages_of_large large]
    exact ⟨rfl, rfl⟩
  · rw [run, Completion.ofPipeline_of_starved valid (Completion.starved_iff.mpr ⟨bound, refused⟩)]
    exact ⟨rfl, rfl⟩
  · rw [fed (Completion.not_starved_of_grants granted)]
    refine ⟨fun more => ?_, fun fits echo => ?_, fun fits reject => ?_⟩
    · obtain ⟨f, u, left, overfull⟩ := Pipeline.stages_overfull valid allocated bound delivers more
        ending reads o.automaton.automaton stdout
      rw [overfull]
      exact ⟨rfl, rfl⟩
    · obtain ⟨summary, u, left, sink, stages, written⟩ :=
        Pipeline.stages_echo valid allocated bound delivers ends fits reads blank out
      rw [output] at written
      rw [echo, Builtin.automaton, stages]
      exact ⟨rfl, rfl, written⟩
    · obtain ⟨u, left, stages⟩ :=
        Pipeline.stages_reject valid allocated bound delivers ends fits reads stdout
      rw [reject, Builtin.automaton, stages]
      exact ⟨rfl, rfl, RunError.report_of_reliable _ err⟩
  · have every : ∀ x ∈ symbols, x ∈ Alphabet.ofString (o.output.getD o.input) := by
      intro x hx
      have accepted := (List.mem_filter.mp hx).2
      rw [same]
      exact of_decide_eq_true accepted
    exact List.takeWhile_eq_self_iff.mpr fun x hx => decide_eq_true (every x hx)

/-- Two letters and a byte that begins nothing, in two reads with an interruption between them,
where the second letter is not in the output alphabet. -/
theorem run_reports_accepted_prefix :
    let h : Host := { memory := .ample, readFile := fun _ => .error .notUtf8 }
    let stdin : Source :=
      ⟨[.data [0x61, 0xFF, 0x61], .fail (.plain .interrupted), .data [0x62, 0x61]], 0⟩
    let done := run ["-i", "ab", "-o", "a", "-t", "growable"] h { stdin }
    done.ending = .exited 0 ∧ done.streams.stdout.accepted.toList =
      Utf8.bytesOf "Symbol U+0061 in output stream\nSymbol U+0061 in output stream\n" := by
  intro h stdin done
  have parsed : parse ["-i", "ab", "-o", "a", "-t", "growable"] =
      some { input := "ab", output := some "a", tape := some .growable } := by decide +kernel
  have resolved : Config.resolve h none (some .growable) = .ok { tape := .growable } :=
    Config.eq_ok_of_toOption (by decide +kernel)
  have reliable : ({} : Sink).Reliable := ⟨by decide, by simp, rfl⟩
  have symbols : Ingestion.symbols (.ofString "ab") [0x61, 0xFF, 0x61, 0x62, 0x61] =
      [.ofChar 'a', .ofChar 'a', .ofChar 'b', .ofChar 'a'] := by decide +kernel
  have delivers : ∀ e ∈ stdin.events, e.Delivers := by
    simp [stdin, Source.Event.Delivers, IoError.isInterrupted]
  have ends : Source.Ends [] := by simp [Source.Ends]
  obtain ⟨-, -, result, -⟩ := run_reports_accepted parsed resolved rfl (by decide) delivers ends 0
    reliable reliable
  obtain ⟨-, echoed, -⟩ := result (by decide) (by decide)
  have bytes : Source.delivered stdin.events = [0x61, 0xFF, 0x61, 0x62, 0x61] := rfl
  rw [bytes, symbols] at echoed
  obtain ⟨ending, -, written⟩ := echoed (by decide) rfl
  refine ⟨ending, written.trans ?_⟩
  decide +kernel

/-- A valid configuration under which no input is reported, though the tape has room for it. -/
theorem run_aborts_large_chunks :
    let args := ["-i", "0", "-c", "c"]
    let o : Options := { input := "0", config := some "c" }
    let h : Host :=
      { memory := .ample
        readFile := fun _ => .ok (Utf8.bytesOf
          "\x7b\"tape\":\"growable\",\"chunk_size\":4611686018427387904\x7d") }
    let c : Config := { tape := .growable, chunkSize := 4611686018427387904 }
    let done := run args h { stdin := .ofBytes [0x30] }
    parse args = some o ∧ Config.resolve h o.config o.tape = .ok c ∧
    Configured.allocate h.memory c = .ok (.growable .empty) ∧ c.chunkSize.toNat < 2 ^ 63 ∧
    (Ingestion.symbols (.ofString o.input) [0x30]).length ≤ c.room ∧ o.automaton = .echo ∧
    done.ending = .aborted ∧ done.streams.stdout.accepted = #[] := by
  intro args o h c done
  have parsed : parse args = some o := by decide +kernel
  have resolved : Config.resolve h o.config o.tape = .ok c :=
    Config.eq_ok_of_toOption (by decide +kernel)
  have allocated : Configured.allocate h.memory c = .ok (.growable .empty) := rfl
  have valid : (o.pipeline c).config.validate = .ok () := Config.validate_of_resolve resolved
  have starved : Completion.starved h.memory (o.pipeline c).config := by decide
  have run : done = _ := run_of_resolved parsed resolved allocated _
  rw [run, Completion.ofPipeline_of_starved valid starved]
  exact ⟨parsed, resolved, allocated, by decide, by decide +kernel, rfl, rfl, rfl⟩

end CommandLine

end TapeMachine
