import TapeMachine.Proofs.Config.Layering

namespace TapeMachine.Config

variable {h h₁ h₂ : Host} {file file₁ file₂ : Option String} {tape : Option TapeKind}
  {c c₁ c₂ : Config} {e : ConfigError}

/-- The environment or the command line chooses a reserved tape, and no unknown kind is asked
for. -/
def ReservedChosen (h : Host) (file : Option String) (tape : Option TapeKind) : Prop :=
  (∃ kind, namedKind h file = .ok kind) ∧
    (environmentKind? h file = some .reserved ∨ tape = some .reserved)

theorem settings_of_written (written : written? h file = some c) :
    settings h file = c.checked := by
  obtain ⟨selected, rfl⟩ | ⟨path, s, selected, read, parsed⟩ := written?_eq_some_iff.mp written
  · rw [settings, selected]
    rfl
  · simp only [settings, selected, load, read, parse, parsed]

theorem resolve_of_invalid (written : written? h file = some c) (rejected : c.validate = .error e)
    (tape : Option TapeKind) : resolve h file tape = .error e := by
  rw [resolve_eq, settings_of_written written, checked_of_invalid rejected]
  rfl

theorem resolve_of_unknown (written : written? h file = some c) (valid : c.validate = .ok ())
    (unknown : namedKind h file = .error e) (tape : Option TapeKind) :
    resolve h file tape = .error e := by
  rw [resolve_eq, settings_of_written written, checked_of_valid valid, unknown]
  rfl

theorem override_of_valid (valid : c.validate = .ok ()) (kind : Option TapeKind) :
    override kind c =
      if kind = some .reserved ∧ ¬WholeHalves c.tapeBytes then .error (.badTapeBytes c.tapeBytes)
      else .ok { c with tape := kind.getD c.tape } := by
  obtain ⟨positive, -⟩ := validate_eq_ok_iff.mp valid
  cases kind with
  | none => rfl
  | some k =>
    rw [override]
    split
    next refused =>
      obtain ⟨reserved, bad⟩ := refused
      cases Option.some.inj reserved
      exact checked_of_invalid (validate_of_not_wholeHalves rfl positive bad)
    next accepted =>
      apply checked_of_valid
      rw [validate_eq_ok_iff]
      refine ⟨positive, fun (reserved : k = .reserved) => ?_⟩
      subst k
      exact Classical.byContradiction fun bad => accepted ⟨rfl, bad⟩

/-- What comes of a valid file depends on its sizes and on the kinds that are chosen. -/
theorem resolve_of_valid (written : written? h file = some c) (valid : c.validate = .ok ())
    {kind : Option TapeKind} (known : namedKind h file = .ok kind) (tape : Option TapeKind) :
    resolve h file tape =
      if (kind = some .reserved ∨ tape = some .reserved) ∧ ¬WholeHalves c.tapeBytes then
        .error (.badTapeBytes c.tapeBytes)
      else .ok { c with tape := (tape.or kind).getD c.tape } := by
  have steps : resolve h file tape = (override kind c >>= override tape) := by
    rw [resolve_eq, settings_of_written written, checked_of_valid valid, known]
    rfl
  rw [steps, override_of_valid valid]
  by_cases first : kind = some .reserved ∧ ¬WholeHalves c.tapeBytes
  · rw [if_pos first, if_pos ⟨Or.inl first.1, first.2⟩]
    rfl
  · rw [if_neg first]
    have chosen : override kind c = .ok { c with tape := kind.getD c.tape } := by
      rw [override_of_valid valid, if_neg first]
    obtain ⟨valid', -⟩ := override_of_ok valid chosen
    refine (override_of_valid valid' tape).trans ?_
    by_cases second : tape = some .reserved ∧ ¬WholeHalves c.tapeBytes
    · rw [if_pos second, if_pos ⟨Or.inr second.1, second.2⟩]
    · rw [if_neg second, if_neg]
      · cases tape <;> rfl
      · rintro ⟨reserved | reserved, bad⟩
        · exact first ⟨reserved, bad⟩
        · exact second ⟨reserved, bad⟩

theorem validate_eq_error_iff :
    c.validate = .error e ↔
      (c.chunkSize = 0 ∧ e = .zeroChunkSize) ∨
      (c.chunkSize ≠ 0 ∧ c.tape = .reserved ∧ ¬WholeHalves c.tapeBytes ∧
        e = .badTapeBytes c.tapeBytes) := by
  unfold validate
  split
  next zero => simp [zero, eq_comm]
  next positive =>
    split
    next bad => simp [positive, bad.1, not_wholeHalves.mpr bad.2, eq_comm]
    next good =>
      rw [not_and, ← not_wholeHalves] at good
      simp only [positive, reduceCtorEq, false_and, false_or, ne_eq, not_false_eq_true, true_and,
        false_iff]
      exact fun rejected => good rejected.1 rejected.2.1

theorem eq_of_rejected {e₁ e₂ : ConfigError} (bytes : c₁.tapeBytes = c₂.tapeBytes)
    (chunk : c₁.chunkSize = c₂.chunkSize) (rejected₁ : c₁.validate = .error e₁)
    (rejected₂ : c₂.validate = .error e₂) : e₁ = e₂ := by
  rw [validate_eq_error_iff] at rejected₁ rejected₂
  rw [bytes, chunk] at rejected₁
  obtain ⟨zero, rfl⟩ | ⟨positive, -, -, rfl⟩ := rejected₁
  · obtain ⟨-, rfl⟩ | ⟨positive, -⟩ := rejected₂
    · rfl
    · exact absurd zero positive
  · obtain ⟨zero, -⟩ | ⟨-, -, -, rfl⟩ := rejected₂
    · exact absurd zero positive
    · rfl

theorem badTapeBytes_of_rejected (bytes : c₁.tapeBytes = c₂.tapeBytes)
    (chunk : c₁.chunkSize = c₂.chunkSize) (rejected : c₁.validate = .error e)
    (valid : c₂.validate = .ok ()) :
    e = .badTapeBytes c₂.tapeBytes ∧ ¬WholeHalves c₂.tapeBytes := by
  obtain ⟨positive, -⟩ := validate_eq_ok_iff.mp valid
  rw [validate_eq_error_iff, bytes, chunk] at rejected
  obtain ⟨zero, -⟩ | ⟨-, -, bad, rfl⟩ := rejected
  · exact absurd zero positive
  · exact ⟨rfl, bad⟩

theorem unknown_of_namedKind (failed : namedKind h file = .error e) :
    ∃ name, e = .unknownTapeKind name := by
  unfold namedKind at failed
  split at failed
  next => cases failed
  next text _ =>
    cases parsed : TapeKind.parse (String.ofList text) with
    | ok k => simp [parsed, Except.map] at failed
    | error i =>
      simp only [parsed, Except.map, Except.error.injEq] at failed
      obtain ⟨-, rfl⟩ := TapeKind.parse_eq_error_iff.mp parsed
      exact ⟨_, failed.symm⟩

/-- A file that is rejected for its size and a valid one of the same sizes lead to the same error
exactly if the kind of tape that needs that size is chosen all the same. -/
theorem resolve_eq_iff_of_rejected (written₁ : written? h₁ file₁ = some c₁)
    (written₂ : written? h₂ file₂ = some c₂) (bytes : c₁.tapeBytes = c₂.tapeBytes)
    (chunk : c₁.chunkSize = c₂.chunkSize) (rejected : c₁.validate = .error e)
    (valid : c₂.validate = .ok ()) :
    resolve h₁ file₁ tape = resolve h₂ file₂ tape ↔ ReservedChosen h₂ file₂ tape := by
  obtain ⟨rfl, bad⟩ := badTapeBytes_of_rejected bytes chunk rejected valid
  rw [resolve_of_invalid written₁ rejected]
  cases named : namedKind h₂ file₂ with
  | error i =>
    obtain ⟨name, rfl⟩ := unknown_of_namedKind named
    rw [resolve_of_unknown written₂ valid named, ReservedChosen, named]
    simp
  | ok kind =>
    obtain ⟨asked, -⟩ := namedKind_of_ok named
    have chosen : ReservedChosen h₂ file₂ tape ↔ kind = some .reserved ∨ tape = some .reserved := by
      rw [ReservedChosen, asked]
      exact and_iff_right ⟨kind, named⟩
    rw [resolve_of_valid written₂ valid named, chosen]
    by_cases reserved : kind = some .reserved ∨ tape = some .reserved
    · rw [if_pos ⟨reserved, bad⟩]
      exact iff_of_true rfl reserved
    · rw [if_neg fun refused => reserved refused.1]
      exact iff_of_false (fun same => by cases same) reserved

/-- When a kind of tape is chosen, two files with the same sizes lead to the same outcome, be it a
configuration or an error, if both are valid as they stand or neither is. If one of them is not,
that is so only if a reserved tape is chosen. A file that is not valid is rejected whatever is
chosen; what comes of a valid one depends on its sizes and on the kinds chosen. -/
theorem resolve_same_sizes {k : TapeKind}
    (written₁ : written? h₁ file₁ = some c₁) (written₂ : written? h₂ file₂ = some c₂)
    (bytes : c₁.tapeBytes = c₂.tapeBytes) (chunk : c₁.chunkSize = c₂.chunkSize)
    (asked : environmentText? h₁ file₁ = environmentText? h₂ file₂)
    (chosen : tape.or (environmentKind? h₁ file₁) = some k) :
    (resolve h₁ file₁ tape = resolve h₂ file₂ tape ↔
      (c₁.validate = .ok () ↔ c₂.validate = .ok ()) ∨ ReservedChosen h₁ file₁ tape) ∧
    (∀ e, c₁.validate = .error e → resolve h₁ file₁ tape = .error e) ∧
    (c₁.validate = .ok () → (∃ kind, namedKind h₁ file₁ = .ok kind) →
      resolve h₁ file₁ tape =
        if (environmentKind? h₁ file₁ = some .reserved ∨ tape = some .reserved) ∧
            ¬WholeHalves c₁.tapeBytes then
          .error (.badTapeBytes c₁.tapeBytes)
        else .ok { c₁ with tape := k }) ∧
    ∀ h : Host, ofEnvironment h = resolve h none none := by
  have named : namedKind h₁ file₁ = namedKind h₂ file₂ := by rw [namedKind, namedKind, asked]
  have reserved : ReservedChosen h₁ file₁ tape ↔ ReservedChosen h₂ file₂ tape := by
    rw [ReservedChosen, ReservedChosen, named, environmentKind?, environmentKind?, asked]
  refine ⟨?_, fun e rejected => resolve_of_invalid written₁ rejected tape, ?_,
    ofEnvironment_eq_resolve⟩
  · cases valid₁ : c₁.validate with
    | error e₁ =>
      cases valid₂ : c₂.validate with
      | error e₂ =>
        cases eq_of_rejected bytes chunk valid₁ valid₂
        rw [resolve_of_invalid written₁ valid₁, resolve_of_invalid written₂ valid₂]
        exact iff_of_true rfl (Or.inl Iff.rfl)
      | ok _ =>
        rw [resolve_eq_iff_of_rejected written₁ written₂ bytes chunk valid₁ valid₂, ← reserved]
        simp
    | ok _ =>
      cases valid₂ : c₂.validate with
      | error e₂ =>
        rw [eq_comm, resolve_eq_iff_of_rejected written₂ written₁ bytes.symm chunk.symm valid₂
          valid₁]
        simp
      | ok _ =>
        refine iff_of_true ?_ (Or.inl Iff.rfl)
        cases known : namedKind h₁ file₁ with
        | error e =>
          rw [resolve_of_unknown written₁ valid₁ known,
            resolve_of_unknown written₂ valid₂ (named.symm.trans known)]
        | ok kind =>
          obtain ⟨kind₁, -⟩ := namedKind_of_ok known
          rw [kind₁] at chosen
          rw [resolve_of_valid written₁ valid₁ known,
            resolve_of_valid written₂ valid₂ (named.symm.trans known), chosen, bytes, chunk]
          rfl
  · rintro valid ⟨kind, known⟩
    obtain ⟨kind₁, -⟩ := namedKind_of_ok known
    rw [kind₁] at chosen ⊢
    rw [resolve_of_valid written₁ valid known, chosen]
    rfl

/-- Files for either kind of tape, in an environment that asks for a growable one. -/
theorem resolve_same_sizes_growable :
    let host (text : String) : Host :=
      { memory := .ample
        configFile := some (Utf8.bytesOf "c.json")
        tapeKind := some (Utf8.bytesOf " Growable\n")
        readFile := fun _ => .ok (Utf8.bytesOf text) }
    let h₁ := host "[\"reserved\",16,4]"
    let h₂ := host "[\"growable\",16,4]"
    written? h₁ none = some ⟨.reserved, 16, 4⟩ ∧ written? h₂ none = some ⟨.growable, 16, 4⟩ ∧
    environmentKind? h₁ none = some .growable ∧
    ofEnvironment h₁ = ofEnvironment h₂ ∧ ofEnvironment h₁ = .ok ⟨.growable, 16, 4⟩ := by
  intro host h₁ h₂
  have written₁ : written? h₁ none = some ⟨.reserved, 16, 4⟩ := by decide +kernel
  have written₂ : written? h₂ none = some ⟨.growable, 16, 4⟩ := by decide +kernel
  have kind : environmentKind? h₁ none = some .growable := by decide +kernel
  have valid₁ : (⟨.reserved, 16, 4⟩ : Config).validate = .ok () := rfl
  have valid₂ : (⟨.growable, 16, 4⟩ : Config).validate = .ok () := rfl
  have known : ∃ kind, namedKind h₁ none = .ok kind :=
    ⟨some .growable, eq_ok_of_toOption (by decide +kernel)⟩
  have asked (s t : String) : environmentText? (host s) none = environmentText? (host t) none :=
    rfl
  have chosen : (none : Option TapeKind).or (environmentKind? h₁ none) = some .growable :=
    Option.none_or.trans kind
  obtain ⟨same, -, outcome, environment⟩ :=
    resolve_same_sizes written₁ written₂ rfl rfl (asked _ _) chosen
  rw [environment, environment]
  refine ⟨written₁, written₂, kind, same.mpr (Or.inl (iff_of_true valid₁ valid₂)), ?_⟩
  rw [outcome valid₁ known, kind]
  rfl

/-- Of two files with a size that does for a growable tape only, one is rejected although a
growable tape is chosen for both. -/
theorem resolve_ne_same_sizes :
    let host (text : String) : Host :=
      { memory := .ample
        configFile := some (Utf8.bytesOf "c.json")
        tapeKind := some (Utf8.bytesOf "growable")
        readFile := fun _ => .ok (Utf8.bytesOf text) }
    let h₁ := host "[\"reserved\",0]"
    let h₂ := host "[\"growable\",0]"
    written? h₁ none = some { tape := .reserved, tapeBytes := 0 } ∧
    written? h₂ none = some { tape := .growable, tapeBytes := 0 } ∧
    environmentKind? h₁ none = some .growable ∧ environmentKind? h₂ none = some .growable ∧
    ofEnvironment h₁ = .error (.badTapeBytes 0) ∧
    ofEnvironment h₂ = .ok { tape := .growable, tapeBytes := 0 } ∧
    ofEnvironment h₁ ≠ ofEnvironment h₂ := by
  intro host h₁ h₂
  have written₁ : written? h₁ none = some { tape := .reserved, tapeBytes := 0 } := by
    decide +kernel
  have written₂ : written? h₂ none = some { tape := .growable, tapeBytes := 0 } := by
    decide +kernel
  have rejected : ofEnvironment h₁ = .error (.badTapeBytes 0) := by
    rw [ofEnvironment_eq_resolve]
    exact resolve_of_invalid written₁ rfl none
  have accepted : ofEnvironment h₂ = .ok { tape := .growable, tapeBytes := 0 } :=
    eq_ok_of_toOption (by decide +kernel)
  refine ⟨written₁, written₂, by decide +kernel, by decide +kernel, rejected, accepted, ?_⟩
  rw [rejected, accepted]
  exact fun same => by cases same

end TapeMachine.Config
