import TapeMachine.Proofs.Config.Validity

namespace TapeMachine.Config

/-- The file with the settings: the one that the command line names, or else the environment. -/
def selected? (h : Host) (file : Option String) : Option (List UInt8) :=
  (file.map Utf8.bytesOf).or h.configFile

def content? (h : Host) (file : Option String) : Option String :=
  (selected? h file).bind fun path => (readText h path).toOption

/-- The settings as they are written in the file, valid or not. Without a file they are the
default ones. -/
def written? (h : Host) (file : Option String) : Option Config :=
  match selected? h file with
  | none => some {}
  | some _ => (content? h file).bind fun s => (Json.readText reader s).toOption

/-- The kind of tape that the environment asks for, as a text. A file that the command line names
hides it. -/
def environmentText? (h : Host) (file : Option String) : Option (List Char) :=
  match file with
  | some _ => none
  | none => h.tapeKind.bind Utf8.decode?

def environmentKind? (h : Host) (file : Option String) : Option TapeKind :=
  (environmentText? h file).bind fun text => (TapeKind.parse (String.ofList text)).toOption

/-- The settings of the file with another kind of tape, if there is a choice of one. -/
def overridden? (h : Host) (file : Option String) (kind : Option TapeKind) : Option Config :=
  (written? h file).bind fun c => kind.map fun tape => { c with tape }

def problem? {ε α : Type} : Except ε α → Option ε
  | .error e => some e
  | .ok _ => none

/-- What can be wrong with a file: it cannot be read, it is not the text of a configuration, or
its settings are not valid. -/
def fileProblems (h : Host) (file : Option String) : List (Option ConfigError) :=
  [(selected? h file).bind fun path =>
      (problem? (readText h path)).map (.unreadable (Utf8.lossyText path)),
    (content? h file).bind fun s => (problem? (Json.readText reader s)).map .invalidText,
    (written? h file).bind fun c => problem? c.validate]

/-- What can be wrong with a choice of the kind of tape: the environment asks for an unknown one,
or the size of the tape does not do for the kind chosen. -/
def choiceProblems (h : Host) (file : Option String) (tape : Option TapeKind) :
    List (Option ConfigError) :=
  [(environmentText? h file).bind fun text => problem? (TapeKind.parse (String.ofList text)),
    (overridden? h file (environmentKind? h file)).bind fun c => problem? c.validate,
    (overridden? h file tape).bind fun c => problem? c.validate]

def problems (h : Host) (file : Option String) (tape : Option TapeKind) :
    List (Option ConfigError) :=
  fileProblems h file ++ choiceProblems h file tape

def settings (h : Host) (file : Option String) : Except ConfigError Config :=
  match selected? h file with
  | none => .ok {}
  | some path => load h path

def namedKind (h : Host) (file : Option String) : Except ConfigError (Option TapeKind) :=
  match environmentText? h file with
  | none => .ok none
  | some text => (TapeKind.parse (String.ofList text)).map some

def override (kind : Option TapeKind) (c : Config) : Except ConfigError Config :=
  match kind with
  | none => .ok c
  | some tape => checked { c with tape }

variable {h : Host} {file : Option String} {tape : Option TapeKind} {c : Config} {e : ConfigError}

theorem checked_of_valid (valid : c.validate = .ok ()) : c.checked = .ok c := by
  rw [checked, valid]
  rfl

theorem checked_of_invalid (rejected : c.validate = .error e) : c.checked = .error e := by
  rw [checked, rejected]
  rfl

theorem settings_of_error (failed : settings h file = .error e) :
    (fileProblems h file).findSome? id = some e := by
  unfold settings at failed
  unfold fileProblems written? content?
  cases hs : selected? h file with
  | none => simp [hs] at failed
  | some path =>
    simp only [hs, load] at failed
    cases hr : readText h path with
    | error i =>
      simp only [hr, Except.error.injEq] at failed
      simp [hr, problem?, ← failed]
    | ok s =>
      simp only [hr, parse] at failed
      cases hj : Json.readText reader s with
      | error i =>
        simp only [hj, Except.error.injEq] at failed
        simp [hr, hj, problem?, Except.toOption, ← failed]
      | ok d =>
        simp only [hj] at failed
        cases hv : d.validate with
        | ok _ => simp [checked_of_valid hv] at failed
        | error i =>
          rw [checked_of_invalid hv] at failed
          simp [hr, hj, hv, problem?, Except.toOption, Except.error.inj failed]

theorem settings_of_ok (found : settings h file = .ok c) :
    written? h file = some c ∧ c.validate = .ok () ∧
      (fileProblems h file).findSome? id = none := by
  unfold settings at found
  unfold fileProblems written? content?
  cases hs : selected? h file with
  | none =>
    simp only [hs, Except.ok.injEq] at found
    subst c
    exact ⟨rfl, rfl, rfl⟩
  | some path =>
    simp only [hs, load] at found
    cases hr : readText h path with
    | error i => simp [hr] at found
    | ok s =>
      simp only [hr, parse] at found
      cases hj : Json.readText reader s with
      | error i => simp [hj] at found
      | ok d =>
        simp only [hj] at found
        cases hv : d.validate with
        | error i => simp [checked_of_invalid hv] at found
        | ok _ =>
          rw [checked_of_valid hv] at found
          cases found
          exact ⟨by simp [hr, hj, Except.toOption], hv,
            by simp [hr, hj, hv, problem?, Except.toOption]⟩

theorem override_of_ok {kind : Option TapeKind} {d : Config} (valid : c.validate = .ok ())
    (found : override kind c = .ok d) :
    d.validate = .ok () ∧ d = { c with tape := kind.getD c.tape } := by
  cases kind with
  | none =>
    cases found
    exact ⟨valid, rfl⟩
  | some k =>
    have hd := validate_of_checked found
    cases hv : ({ c with tape := k } : Config).validate with
    | error i =>
      have refused := checked_of_invalid hv
      cases refused.symm.trans found
    | ok _ =>
      have same := (checked_of_valid hv).symm.trans found
      cases same
      exact ⟨hd, rfl⟩

theorem problem?_override (kind : Option TapeKind) (before : TapeKind) (c : Config) :
    problem? (override kind { c with tape := before }) =
      (kind.map fun tape => ({ c with tape } : Config)).bind fun d => problem? d.validate := by
  cases kind with
  | none => rfl
  | some k =>
    change problem? (checked { c with tape := k }) = problem? ({ c with tape := k } : Config).validate
    cases hv : ({ c with tape := k } : Config).validate with
    | error i =>
      rw [checked_of_invalid hv]
      rfl
    | ok _ =>
      rw [checked_of_valid hv]
      rfl

theorem namedKind_of_error (failed : namedKind h file = .error e) :
    ((environmentText? h file).bind fun text =>
      problem? (TapeKind.parse (String.ofList text))) = some e := by
  unfold namedKind at failed
  cases ht : environmentText? h file with
  | none => simp [ht] at failed
  | some text =>
    simp only [ht] at failed
    cases hp : TapeKind.parse (String.ofList text) with
    | ok k => simp [hp, Except.map] at failed
    | error i =>
      simp only [hp, Except.map, Except.error.injEq] at failed
      simp [hp, problem?, failed]

theorem namedKind_of_ok {kind : Option TapeKind} (found : namedKind h file = .ok kind) :
    environmentKind? h file = kind ∧
      ((environmentText? h file).bind fun text =>
        problem? (TapeKind.parse (String.ofList text))) = none := by
  unfold namedKind at found
  unfold environmentKind?
  cases ht : environmentText? h file with
  | none =>
    simp only [ht, Except.ok.injEq] at found
    exact ⟨found, rfl⟩
  | some text =>
    simp only [ht] at found
    cases hp : TapeKind.parse (String.ofList text) with
    | error i => simp [hp, Except.map] at found
    | ok k =>
      simp only [hp, Except.map, Except.ok.injEq] at found
      simp [hp, problem?, Except.toOption, ← found]

theorem resolve_some (h : Host) (path : String) (tape : Option TapeKind) :
    resolve h (some path) tape = (load h (Utf8.bytesOf path) >>= override tape) := by
  cases tape <;> rfl

theorem resolve_none (h : Host) (tape : Option TapeKind) :
    resolve h none tape = (ofEnvironment h >>= override tape) := by
  cases tape <;> rfl

theorem ofEnvironment_eq_resolve (h : Host) : ofEnvironment h = resolve h none none := by
  rw [resolve_none]
  cases ofEnvironment h <;> rfl

theorem settings_none (h : Host) : settings h none = ofFile h := by
  have selected : selected? h none = h.configFile := rfl
  rw [settings, ofFile, selected]
  cases h.configFile <;> rfl

theorem resolve_eq (h : Host) (file : Option String) (tape : Option TapeKind) :
    resolve h file tape =
      (settings h file >>= fun c => namedKind h file >>= fun kind =>
        override kind c >>= override tape) := by
  cases file with
  | some path =>
    have found : settings h (some path) = load h (Utf8.bytesOf path) := rfl
    rw [resolve_some, found]
    cases load h (Utf8.bytesOf path) <;> rfl
  | none =>
    rw [resolve_none, ofEnvironment_eq, ← settings_none]
    cases hs : settings h none with
    | error i => rfl
    | ok c =>
      obtain ⟨-, valid, -⟩ := settings_of_ok hs
      have text : environmentText? h none = h.tapeKind.bind Utf8.decode? := rfl
      change (withKind (h.tapeKind.bind Utf8.decode?) c >>= checked) >>= override tape =
        (namedKind h none >>= fun kind => override kind c >>= override tape)
      rw [namedKind, text]
      cases h.tapeKind.bind Utf8.decode? with
      | none => exact congrArg (· >>= override tape) (checked_of_valid valid)
      | some text =>
        simp only [withKind]
        cases TapeKind.parse (String.ofList text) with
        | error i => rfl
        | ok k =>
          change (checked { c with tape := k } >>= override tape) = (override (some k) c >>= _)
          rw [override]

theorem validate_of_resolve (found : resolve h file tape = .ok c) : c.validate = .ok () := by
  rw [resolve_eq] at found
  obtain ⟨base, hs, found⟩ := ok_of_bind found
  obtain ⟨kind, -, found⟩ := ok_of_bind found
  obtain ⟨chosen, ho, found⟩ := ok_of_bind found
  obtain ⟨-, valid, -⟩ := settings_of_ok hs
  exact (override_of_ok (override_of_ok valid ho).1 found).1

theorem written?_eq_some_iff :
    written? h file = some c ↔
      (selected? h file = none ∧ c = {}) ∨
      ∃ path s, selected? h file = some path ∧ readText h path = .ok s ∧
        Json.readText reader s = .ok c := by
  unfold written? content?
  cases selected? h file with
  | none => simp [eq_comm]
  | some path =>
    cases hr : readText h path with
    | error i => simp [hr, Except.toOption]
    | ok s => cases hj : Json.readText reader s <;> simp [hr, hj, Except.toOption]

theorem environmentKind?_eq_some_iff {k : TapeKind} :
    environmentKind? h file = some k ↔
      file = none ∧ ∃ bytes text, h.tapeKind = some bytes ∧ Utf8.decode? bytes = some text ∧
        k.Spelled text := by
  have chosen (text : List Char) :
      (TapeKind.parse (String.ofList text)).toOption = some k ↔ k.Spelled text := by
    rw [← TapeKind.parse_eq_ok_iff]
    exact ⟨eq_ok_of_toOption, fun h => by rw [h]; rfl⟩
  unfold environmentKind? environmentText?
  cases file with
  | some path => simp
  | none =>
    simp only [Option.bind_eq_some_iff, chosen, true_and]
    constructor
    · rintro ⟨text, ⟨bytes, hb, ht⟩, hk⟩
      exact ⟨bytes, text, hb, ht, hk⟩
    · rintro ⟨bytes, text, hb, ht, hk⟩
      exact ⟨text, ⟨bytes, hb, ht⟩, hk⟩

theorem findSome?_problems (h : Host) (file : Option String) (tape : Option TapeKind) :
    (problems h file tape).findSome? id =
      ((fileProblems h file).findSome? id).or ((choiceProblems h file tape).findSome? id) :=
  List.findSome?_append

/-- How a resolution ends: with the first problem that there is, or else with the settings of the
file and the kind of tape that was chosen. -/
theorem resolve_cases (h : Host) (file : Option String) (tape : Option TapeKind) :
    (∃ e, resolve h file tape = .error e ∧ (problems h file tape).findSome? id = some e) ∨
    ∃ base, resolve h file tape =
        .ok { base with tape := (tape.or (environmentKind? h file)).getD base.tape } ∧
      written? h file = some base ∧ (problems h file tape).findSome? id = none := by
  rw [findSome?_problems, resolve_eq]
  cases hs : settings h file with
  | error e =>
    rw [settings_of_error hs]
    exact Or.inl ⟨e, rfl, rfl⟩
  | ok base =>
    obtain ⟨written, valid, clear⟩ := settings_of_ok hs
    have chosen (kind : Option TapeKind) :
        overridden? h file kind = kind.map fun tape => { base with tape } := by
      rw [overridden?, written, Option.bind_some]
    rw [clear, Option.none_or, choiceProblems]
    cases hk : namedKind h file with
    | error e =>
      rw [namedKind_of_error hk]
      exact Or.inl ⟨e, rfl, rfl⟩
    | ok kind =>
      obtain ⟨named, known⟩ := namedKind_of_ok hk
      have first := problem?_override kind base.tape base
      rw [known, named, chosen, ← first]
      cases ho : override kind base with
      | error e => exact Or.inl ⟨e, congrArg (· >>= override tape) ho, rfl⟩
      | ok c =>
        obtain ⟨validChosen, hc⟩ := override_of_ok valid ho
        have second := problem?_override tape (kind.getD base.tape) base
        rw [chosen, ← second, ← hc]
        cases hlast : override tape c with
        | error e =>
          refine Or.inl ⟨e, ?_, rfl⟩
          exact (congrArg (· >>= override tape) ho).trans hlast
        | ok d =>
          obtain ⟨-, hd⟩ := override_of_ok validChosen hlast
          have layered : d = { base with tape := (tape.or kind).getD base.tape } := by
            rw [hd, hc]
            cases tape <;> rfl
          refine Or.inr ⟨base, ?_, written, rfl⟩
          exact ((congrArg (· >>= override tape) ho).trans hlast).trans (congrArg Except.ok layered)

/-- A configuration that is had is valid. Its sizes are those of the file that the command line
names, or else the environment, and the default ones without a file; its kind of tape is the first
one that there is of the command line's, the environment's, the file's and the default one. If
none is had, the problem reported is the first that there is. -/
theorem resolve_layers (h : Host) (file : Option String) (tape : Option TapeKind) :
    (∀ c, resolve h file tape = .ok c → c.validate = .ok () ∧
      ∃ base, written? h file = some base ∧
        c.tapeBytes = base.tapeBytes ∧ c.chunkSize = base.chunkSize ∧
        c.tape = (tape.or (environmentKind? h file)).getD base.tape) ∧
    (∀ e, resolve h file tape = .error e ↔ (problems h file tape).findSome? id = some e) ∧
    (∀ base, written? h file = some base ↔
      (selected? h file = none ∧ base = {}) ∨
      ∃ path s, selected? h file = some path ∧ readText h path = .ok s ∧
        Json.readText reader s = .ok base) ∧
    (∀ k, environmentKind? h file = some k ↔
      file = none ∧ ∃ bytes text, h.tapeKind = some bytes ∧ Utf8.decode? bytes = some text ∧
        k.Spelled text) ∧
    (∀ text e, TapeKind.parse (String.ofList text) = .error e ↔
      (∀ k : TapeKind, ¬k.Spelled text) ∧
        e = .unknownTapeKind (TapeKind.normalName (String.ofList text))) ∧
    ofEnvironment h = resolve h none none := by
  refine ⟨fun c found => ⟨validate_of_resolve found, ?_⟩, fun e => ?_,
    fun base => written?_eq_some_iff, fun k => environmentKind?_eq_some_iff,
    fun text e => TapeKind.parse_eq_error_iff, ofEnvironment_eq_resolve h⟩
  · obtain ⟨e, failed, -⟩ | ⟨base, layered, written, -⟩ := resolve_cases h file tape
    · cases found.symm.trans failed
    · cases found.symm.trans layered
      exact ⟨base, written, rfl, rfl, rfl⟩
  · obtain ⟨i, failed, first⟩ | ⟨base, layered, -, clear⟩ := resolve_cases h file tape
    · rw [failed, first, Except.error.injEq, Option.some.injEq]
    · rw [layered, clear]
      simp

/-- A file for a reserved tape, in an environment that asks for a growable one, as it may be
spelled. -/
theorem resolve_layers_environment :
    let h : Host :=
      { memory := .ample
        configFile := some (Utf8.bytesOf "c.json")
        tapeKind := some (Utf8.bytesOf " Growable\n")
        readFile := fun _ => .ok (Utf8.bytesOf "[\"reserved\",16,4]") }
    let c : Config := { tape := .growable, tapeBytes := 16, chunkSize := 4 }
    resolve h none none = .ok c ∧ c.validate = .ok () ∧
    (∃ base, written? h none = some base ∧ base.tapeBytes = 16 ∧ base.chunkSize = 4) ∧
    ∃ bytes text, h.tapeKind = some bytes ∧ Utf8.decode? bytes = some text ∧
      TapeKind.growable.Spelled text := by
  intro h c
  have found : resolve h none none = .ok c := eq_ok_of_toOption (by decide +kernel)
  have kind : environmentKind? h none = some .growable := by decide +kernel
  obtain ⟨layers, -, -, spelled, -⟩ := resolve_layers h none none
  obtain ⟨valid, base, written, bytes, size, -⟩ := layers c found
  obtain ⟨-, spelling⟩ := (spelled .growable).mp kind
  exact ⟨found, valid, ⟨base, written, bytes.symm, size.symm⟩, spelling⟩

end TapeMachine.Config
