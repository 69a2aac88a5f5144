import TapeMachine.Completion
import TapeMachine.Proofs.Compiled.Simulation
import TapeMachine.Proofs.Config.Validity
import TapeMachine.Proofs.Tape.Embedding

namespace TapeMachine.Completion

/-- Ends as a run of the pipeline does. The room for the reads is asked for once there is a tape; a
process that is refused it aborts. -/
def ofRun (memory : Memory) (onFault : Ending) (p : Pipeline) (automaton : Automaton Configured)
    (s : Streams) : Completion :=
  if (p.tape memory).isOk ∧ starved memory p.config then ⟨.aborted, s⟩
  else ofOutcome onFault s.stderr (p.run memory automaton s.stdin s.stdout)

variable {memory : Memory} {onFault : Ending} {p : Pipeline}

theorem ofRun_of_error {e : RunError} (h : p.tape memory = .error e)
    (automaton : Automaton Configured) (s : Streams) : ofRun memory onFault p automaton s = failWith e s := by
  rw [ofRun, if_neg (by simp [h, Except.isOk, Except.toBool]), Pipeline.run, h]
  rfl

theorem ofRun_of_invalid {e : ConfigError} (h : p.config.validate = .error e)
    (automaton : Automaton Configured) (s : Streams) :
    ofRun memory onFault p automaton s = failWith (.config e) s :=
  ofRun_of_error (by rw [Pipeline.tape, h]) automaton s

theorem ofRun_of_ok {t : Configured} (valid : p.config.validate = .ok ())
    (allocated : Configured.allocate memory p.config = .ok t) (automaton : Automaton Configured)
    (s : Streams) :
    ofRun memory onFault p automaton s = ofPipeline memory onFault p automaton t s := by
  have tape : p.tape memory = .ok t := by rw [Pipeline.tape, valid, allocated]
  rw [ofRun, ofPipeline, valid, Pipeline.run_of_valid valid allocated, tape]
  simp only [Except.isOk, Except.toBool, true_and]
  rfl

theorem ofPipeline_embedding {S T : Type} [Tape S] [Tape T] {φ : S → T} (e : TapeEmbedding φ)
    {f : Automaton S} {g : Automaton T} {t : S} {s : Streams}
    (alike : let u := (ingest p.input p.config.chunkSize t s.stdin).tape
      g (φ u) 0 = ((f u 0).1, φ (f u 0).2)) :
    ofPipeline memory onFault p g (φ t) s = ofPipeline memory onFault p f t s := by
  rw [ofPipeline, ofPipeline, e.stages alike]
  rfl

end TapeMachine.Completion

namespace TapeMachine.EntryPoint

def pipeline (c : Config) (input output : Alphabet) : Pipeline :=
  Pipeline.ofKind ⟨c, input, output⟩ .reserved

/-- A process that runs the pipeline with an automaton on the tape. Its configuration is looked at
before there is a tape. -/
def validated (memory : Memory) (c : Config) (automaton : Automaton Configured)
    (input output : Alphabet) (s : Streams) : Completion :=
  Completion.ofRun memory .aborted (pipeline c input output) automaton s

variable {h : Host} {c : Config} {f : Compiled} {automaton : Automaton Configured}
variable {input output : Alphabet} {s : Streams}

theorem run_of_error {e : ConfigError} (failed : Config.ofEnvironment h = .error e) :
    run h f input output s = Completion.failWith (.config e) s := by
  rw [run, failed]

theorem run_of_allocated {t : Reserved} (found : Config.ofEnvironment h = .ok c)
    (allocated : Reserved.allocate h.memory c.tapeBytes = .ok t)
    (alike : f.Alike automaton (ingest input c.chunkSize t s.stdin).tape) :
    run h f input output s = validated h.memory c automaton input output s := by
  have hrun : run h f input output s =
      Completion.ofPipeline h.memory .aborted (pipeline c input output) f.automaton t s := by
    rw [run, found]
    simp only [allocated]
    rfl
  rw [hrun, validated]
  cases valid : (pipeline c input output).config.validate with
  | error e => rw [Completion.ofRun_of_invalid valid, Completion.ofPipeline, valid]
  | ok _ =>
    have had : Configured.allocate h.memory (pipeline c input output).config = .ok (.reserved t) :=
      congrArg (Except.map Configured.reserved) allocated
    rw [Completion.ofRun_of_ok valid had]
    refine (Completion.ofPipeline_embedding Configured.embedding_reserved ?_).symm
    exact alike

theorem run_of_refused {refused : IoError} (found : Config.ofEnvironment h = .ok c)
    (denied : Reserved.allocate h.memory c.tapeBytes = .error refused) :
    run h f input output s = Completion.failWith (.allocation refused) s := by
  rw [run, found]
  simp only [denied]

theorem validated_of_refused {refused : IoError}
    (valid : (pipeline c input output).config.validate = .ok ())
    (denied : Reserved.allocate h.memory c.tapeBytes = .error refused) :
    validated h.memory c automaton input output s =
      Completion.failWith (.allocation refused) s := by
  apply Completion.ofRun_of_error
  have had : Configured.allocate h.memory (pipeline c input output).config = .error refused :=
    congrArg (Except.map Configured.reserved) denied
  rw [Pipeline.tape, valid, had]

theorem growable_of_not_wholeHalves (found : Config.ofEnvironment h = .ok c)
    (bad : ¬Config.WholeHalves c.tapeBytes) : c.tape = .growable := by
  obtain ⟨-, good⟩ := Config.validate_eq_ok_iff.mp (Config.validate_of_ofEnvironment found)
  cases kind : c.tape with
  | growable => rfl
  | reserved => exact absurd (good kind) bad

theorem validated_of_not_wholeHalves (found : Config.ofEnvironment h = .ok c)
    (bad : ¬Config.WholeHalves c.tapeBytes) :
    validated h.memory c automaton input output s =
      Completion.failWith (.config (.badTapeBytes c.tapeBytes)) s := by
  obtain ⟨positive, -⟩ := Config.validate_eq_ok_iff.mp (Config.validate_of_ofEnvironment found)
  exact Completion.ofRun_of_invalid (Config.validate_of_not_wholeHalves rfl positive bad) _ s

/-- A process that runs a compiled automaton ends as a run of the pipeline on a reservation does, if
the size of its tape is one for a reservation or can be had all the same. A size that is wrong and
refused is reported as refused. -/
theorem run_eq_validated_unless_refused (h : Host) (f : Compiled)
    (automaton : Automaton Configured) (input output : Alphabet) (s : Streams)
    (alike : ∀ c t, Config.ofEnvironment h = .ok c →
      Reserved.allocate h.memory c.tapeBytes = .ok t →
      f.Alike automaton (ingest input c.chunkSize t s.stdin).tape) :
    (∀ e, Config.ofEnvironment h = .error e →
      run h f input output s = Completion.failWith (.config e) s) ∧
    ∀ c, Config.ofEnvironment h = .ok c →
      (Config.WholeHalves c.tapeBytes ∨ (∃ t, Reserved.allocate h.memory c.tapeBytes = .ok t) →
        run h f input output s = validated h.memory c automaton input output s) ∧
      (¬Config.WholeHalves c.tapeBytes →
        c.tape = .growable ∧
        validated h.memory c automaton input output s =
          Completion.failWith (.config (.badTapeBytes c.tapeBytes)) s ∧
        ∀ refused, Reserved.allocate h.memory c.tapeBytes = .error refused →
          run h f input output s = Completion.failWith (.allocation refused) s) := by
  refine ⟨fun e => run_of_error, fun c found => ⟨?_, fun bad => ?_⟩⟩
  · intro usable
    cases allocated : Reserved.allocate h.memory c.tapeBytes with
    | ok t => exact run_of_allocated found allocated (alike c t found allocated)
    | error refused =>
      obtain ⟨positive, -⟩ := Config.validate_eq_ok_iff.mp (Config.validate_of_ofEnvironment found)
      have whole : Config.WholeHalves c.tapeBytes :=
        usable.resolve_right (by rintro ⟨t, ht⟩; cases allocated.symm.trans ht)
      have valid : (pipeline c input output).config.validate = .ok () :=
        Config.validate_eq_ok_iff.mpr ⟨positive, fun _ => whole⟩
      rw [run_of_refused found allocated, validated_of_refused valid allocated]
  · exact ⟨growable_of_not_wholeHalves found bad, validated_of_not_wholeHalves found bad,
      fun refused => run_of_refused found⟩

/-- A program that changes an a, in an environment that chooses a growable tape. -/
theorem run_eq_validated_unless_refused_growable :
    let h : Host :=
      { memory := .ample
        tapeKind := some (Utf8.bytesOf "growable")
        readFile := fun _ => .error .noSuchFile }
    let p : Program Bool :=
      { start := false
        halted := id
        name := fun _ => "change"
        action? := fun _ x =>
          if x = .ofChar 'a' then some ⟨some (.ofChar 'b'), 0, true⟩ else none }
    let input := Alphabet.ofString "a"
    let output := Alphabet.ofString "ab"
    let s : Streams := { stdin := .ofBytes [0x61] }
    let c : Config := { tape := .growable }
    Config.ofEnvironment h = .ok c ∧ Config.WholeHalves c.tapeBytes ∧
    (∀ t, Reserved.allocate h.memory c.tapeBytes = .ok t →
      p.compile.Alike p.automaton (ingest input c.chunkSize t s.stdin).tape) ∧
    run h p.compile input output s = validated h.memory c p.automaton input output s := by
  intro h p input output s c
  have found : Config.ofEnvironment h = .ok c := Config.eq_ok_of_toOption (by decide +kernel)
  have whole : Config.WholeHalves c.tapeBytes := by decide
  have alike : ∀ t, Reserved.allocate h.memory c.tapeBytes = .ok t →
      p.compile.Alike p.automaton (ingest input c.chunkSize t s.stdin).tape := by
    intro t allocated
    have same := Reserved.capacity_ingest input c.chunkSize t s.stdin
    generalize (ingest input c.chunkSize t s.stdin).tape = u at same ⊢
    have granted : u.Granted := ⟨h.memory, c.tapeBytes, t, allocated, same⟩
    have cells := same.trans (Reserved.capacity_of_allocated allocated)
    have center : (u.index? 0).isSome := Reserved.isSome_index?_zero (by
      rw [cells]
      decide)
    have taken : Tape.refusal? u 0 = none := Reserved.refusal_eq_none_iff.mpr
      (Option.isSome_iff_exists.mp center)
    -- every run is over in its second step
    obtain ⟨fuel, limit⟩ : ∃ fuel, Program.stepLimit = fuel + 2 :=
      ⟨Program.stepLimit - 2, (Nat.sub_add_cancel (by decide)).symm⟩
    have visits : p.visits Program.stepLimit p.start u 0 = [0] := by
      rw [limit]
      by_cases ha : Tape.read u 0 = .ofChar 'a' <;> simp [p, Program.visits, ha, taken]
    have near : ∀ last, (p.automaton u 0).1 = .ok last → Reserved.Near last := by
      intro last halts
      rw [Program.automaton, limit] at halts
      by_cases ha : Tape.read u 0 = .ofChar 'a'
      · obtain rfl : 0 = last := by simpa [p, Program.runFrom, ha, taken] using halts
        decide
      · simp [p, Program.runFrom, ha] at halts
    exact p.alike_compile (fun _ => by simp [p]) granted (by simpa [visits] using center) near
  refine ⟨found, whole, alike, ?_⟩
  obtain ⟨-, agree⟩ := run_eq_validated_unless_refused h p.compile p.automaton input output s
    fun d t hd ht => by
      obtain rfl := Except.ok.inj (found.symm.trans hd)
      exact alike t ht
  exact (agree c found).1 (Or.inl whole)

/-- A growable tape of no bytes: the process reports that they cannot be reserved, and not that the
size is wrong. -/
theorem run_ne_validated_growable_zero :
    let h : Host :=
      { memory := .ample
        configFile := some (Utf8.bytesOf "c.json")
        readFile := fun _ => .ok (Utf8.bytesOf "[\"growable\",0]") }
    let m : RuleTable := {}
    let a := Alphabet.ofString "a"
    let s : Streams := { stdin := .empty }
    let c : Config := { tape := .growable, tapeBytes := 0 }
    Config.ofEnvironment h = .ok c ∧
    run h m.program.compile a a s = Completion.failWith (.allocation .invalidArgument) s ∧
    validated h.memory c m.program.automaton a a s =
      Completion.failWith (.config (.badTapeBytes 0)) s ∧
    run h m.program.compile a a s ≠ validated h.memory c m.program.automaton a a s := by
  intro h m a s c
  have found : Config.ofEnvironment h = .ok c := Config.eq_ok_of_toOption (by decide +kernel)
  have ran : run h m.program.compile a a s =
      Completion.failWith (.allocation .invalidArgument) s := run_of_refused found rfl
  have right : validated h.memory c m.program.automaton a a s =
      Completion.failWith (.config (.badTapeBytes 0)) s :=
    validated_of_not_wholeHalves found (by decide)
  refine ⟨found, ran, right, fun same => ?_⟩
  have texts : (Completion.failWith (.allocation .invalidArgument) s).streams.stderr.accepted ≠
      (Completion.failWith (.config (.badTapeBytes 0)) s).streams.stderr.accepted := by
    decide +kernel
  exact texts (by rw [← ran, same, right])

end TapeMachine.EntryPoint
