import TapeMachine.Completion
import TapeMachine.Proofs.Stream.Faulty
import TapeMachine.Proofs.Text
import TapeMachine.Proofs.Utf8.Texts

namespace TapeMachine

open Text

theorem count_newline_bytesOf (s : String) : (Utf8.bytesOf s).count 0x0A = lineBreaks s :=
  Utf8.count_encode (d := '\n') (by decide) s.toList

def totalBreaks (texts : List String) : Nat := (texts.flatMap String.toList).count '\n'

@[simp] theorem totalBreaks_nil : totalBreaks [] = 0 := rfl

@[simp] theorem totalBreaks_cons (s : String) (texts : List String) :
    totalBreaks (s :: texts) = lineBreaks s + totalBreaks texts := by
  rw [totalBreaks, List.flatMap_cons, List.count_append, lineBreaks, totalBreaks]

theorem totalBreaks_eq_zero {texts : List String} :
    totalBreaks texts = 0 ↔ ∀ s ∈ texts, '\n' ∉ s.toList := by
  simp [totalBreaks, List.count_eq_zero]

namespace IoError

def embedded : IoError → List String
  | described _ text => [text]
  | system _ | plain _ => []

theorem lineBreaks_systemText (n : Nat) : lineBreaks (systemText n) = 0 := by
  unfold systemText
  split
  case h_21 => rw [lineBreaks_append, lineBreaks_decimal]; rfl
  all_goals rfl

theorem lineBreaks_message (e : IoError) : lineBreaks e.message = totalBreaks e.embedded := by
  unfold message
  cases e with
  | system n =>
    simp only [embedded, lineBreaks_append, lineBreaks_systemText, lineBreaks_decimal]
    rfl
  | plain kind => cases kind <;> rfl
  | described kind text => exact (totalBreaks_cons text []).symm

end IoError

namespace Json

theorem Number.lineBreaks_describe (n : Number) : lineBreaks n.describe = 0 := by
  unfold describe
  cases n <;>
    · simp only [lineBreaks_append, lineBreaks_decimal, lineBreaks_signedDecimal,
        Decimal.lineBreaks_text]
      rfl

theorem Found.lineBreaks_describe (found : Found) : lineBreaks found.describe = 0 := by
  unfold describe
  cases found with
  | null | sequence | map => rfl
  | bool b => cases b <;> rfl
  | number n => exact n.lineBreaks_describe
  | string s =>
    simp only [lineBreaks_append, lineBreaks_quoted]
    rfl

theorem lineBreaks_listed (names : List String) :
    lineBreaks (", ".intercalate (names.map fun a => "`" ++ a ++ "`")) = totalBreaks names := by
  have quotes (a : String) : lineBreaks ("`" ++ a ++ "`") = lineBreaks a := by simp [lineBreaks]
  induction names with
  | nil => rfl
  | cons a names ih =>
    rw [totalBreaks_cons, ← ih]
    cases names with
    | nil =>
      rw [List.map_singleton, String.intercalate_singleton, quotes]
      rfl
    | cons b names =>
      simp only [List.map_cons, String.intercalate_cons_cons, lineBreaks_append, quotes]
      simp [lineBreaks]

theorem lineBreaks_choice (names : List String) :
    lineBreaks (choice names) = totalBreaks names := by
  unfold choice
  split
  · simp [lineBreaks]
  · simp [lineBreaks]
  · rw [lineBreaks_append, lineBreaks_listed]
    exact Nat.zero_add _

namespace Error

/-- The texts in an error that are shown as they are. A string that was found is not among them, as
it is shown in quotes. -/
def embedded : Error → List String
  | malformed => []
  | invalidType _ expected | invalidValue _ expected | invalidLength _ expected => [expected]
  | unknownField name known | unknownVariant name known => name :: known
  | duplicateField name | missingField name => [name]

theorem lineBreaks_message (e : Error) : lineBreaks e.message = totalBreaks e.embedded := by
  unfold message
  cases e with
  | malformed => rfl
  | invalidType found expected =>
    simp only [embedded, lineBreaks_append, found.lineBreaks_describe, totalBreaks_cons]
    simp [lineBreaks]
  | invalidValue n expected =>
    simp only [embedded, lineBreaks_append, n.lineBreaks_describe, totalBreaks_cons]
    simp [lineBreaks]
  | invalidLength n expected =>
    simp only [embedded, lineBreaks_append, lineBreaks_decimal, totalBreaks_cons]
    simp [lineBreaks]
  | unknownField name known | unknownVariant name known =>
    simp only [embedded, lineBreaks_append, lineBreaks_choice, totalBreaks_cons]
    simp [lineBreaks]
  | duplicateField name | missingField name =>
    simp only [embedded, lineBreaks_append, totalBreaks_cons]
    simp [lineBreaks]

end Error

end Json

namespace ConfigError

def embedded : ConfigError → List String
  | zeroChunkSize | badTapeBytes _ => []
  | unknownTapeKind name => [name]
  | unreadable path e => path :: e.embedded
  | invalidText e => e.embedded
  | other text => [text]

theorem lineBreaks_message (e : ConfigError) : lineBreaks e.message = totalBreaks e.embedded := by
  unfold message
  cases e with
  | zeroChunkSize => rfl
  | badTapeBytes size =>
    simp only [lineBreaks_append, lineBreaks_decimal]
    rfl
  | unknownTapeKind name =>
    simp only [embedded, lineBreaks_append, totalBreaks_cons]
    simp [lineBreaks]
  | unreadable path e =>
    simp only [embedded, lineBreaks_append, e.lineBreaks_message, totalBreaks_cons]
    simp [lineBreaks]
  | invalidText e =>
    simp only [embedded, lineBreaks_append, e.lineBreaks_message]
    simp [lineBreaks]
  | other text => exact (totalBreaks_cons text []).symm

end ConfigError

namespace NoTransition

theorem newline_ne_printable {s : Symbol} {c : Char} (h : s.printable? = some c) : '\n' ≠ c := by
  have printed : ∀ n < 0x7F, 0x20 ≤ n → '\n' ≠ Char.ofNat n := by decide
  unfold Symbol.printable? at h
  split at h
  next range =>
    rw [UInt32.le_iff_toNat_le, UInt32.le_iff_toNat_le] at range
    cases h
    exact printed _ (Nat.lt_succ_of_le range.2) range.1
  next => cases h

theorem lineBreaks_symbolText (s : Symbol) : lineBreaks (symbolText s) = 0 := by
  unfold symbolText
  split
  · simp only [lineBreaks_append, s.lineBreaks_label]
    rfl
  · split
    next c printable =>
      have shown : lineBreaks c.toString = 0 := by
        rw [lineBreaks_eq_zero]
        simpa using newline_ne_printable printable
      simp only [lineBreaks_append, s.lineBreaks_label, shown]
      rfl
    next => exact s.lineBreaks_label

theorem lineBreaks_message (f : NoTransition) : lineBreaks f.message = lineBreaks f.state := by
  unfold message
  simp only [lineBreaks_append, lineBreaks_symbolText]
  simp [lineBreaks]

end NoTransition

namespace RunError

def embedded : RunError → List String
  | config e => e.embedded
  | allocation e | input e | output e => e.embedded
  | transition f => [f.state]

theorem lineBreaks_message (e : RunError) : lineBreaks e.message = totalBreaks e.embedded := by
  unfold message
  cases e with
  | config e =>
    simp only [embedded, lineBreaks_append, e.lineBreaks_message]
    simp [lineBreaks]
  | allocation e | input e | output e =>
    simp only [embedded, lineBreaks_append, e.lineBreaks_message]
    simp [lineBreaks]
  | transition f =>
    rw [f.lineBreaks_message]
    exact (totalBreaks_cons f.state []).symm

theorem bytesOf_line (e : RunError) :
    Utf8.bytesOf e.line = Utf8.bytesOf "turingrt: " ++ Utf8.bytesOf e.message ++ [0x0A] := by
  simp only [Utf8.bytesOf, line, String.toList_append, Utf8.encode, List.flatMap_append]
  rfl

theorem report_ok_of_reliable (e : RunError) {sink : Sink} (reliable : sink.Reliable) :
    (e.report sink).1 = .ok () := by
  obtain ⟨written, done, still, -⟩ := reliable.writeAll (Utf8.bytesOf e.line)
  rw [report, done]
  simp only [still.flush]

/-- A diagnostic begins with its tag and ends with a line break. The other line breaks in it are
those of the texts that the error carries, so it is a single line exactly if they have none. -/
theorem report_lines (e : RunError) {sink : Sink} (reliable : sink.Reliable) :
    let body := Utf8.bytesOf e.message
    (e.report sink).1 = .ok () ∧
    (e.report sink).2.accepted.toList =
      sink.accepted.toList ++ (Utf8.bytesOf "turingrt: " ++ body ++ [0x0A]) ∧
    body.count 0x0A = totalBreaks e.embedded ∧
    (0x0A ∉ body ↔ ∀ text ∈ e.embedded, '\n' ∉ text.toList) := by
  intro body
  have count : body.count 0x0A = totalBreaks e.embedded := by
    rw [count_newline_bytesOf, e.lineBreaks_message]
  refine ⟨e.report_ok_of_reliable reliable, ?_, count, ?_⟩
  · rw [e.report_of_reliable reliable, bytesOf_line]
  · rw [← List.count_eq_zero, count, totalBreaks_eq_zero]

/-- A line break in a string that was read is shown by its escape. -/
theorem report_lines_quoted_string :
    let e : RunError := .config (.invalidText (.invalidType (.string "8\n192") "usize"))
    Sink.Reliable {} ∧ ∃ body, (e.report {}).2.accepted.toList =
      Utf8.bytesOf "turingrt: " ++ body ++ [0x0A] ∧ 0x0A ∉ body := by
  intro e
  obtain ⟨-, written, -, single⟩ := e.report_lines Sink.reliable_default
  exact ⟨Sink.reliable_default, _, written, single.mpr (by decide)⟩

end RunError

/-- The name of a state is shown as it is, so the report of a missing transition may take two
lines. -/
theorem EntryPoint.fail_two_lines :
    let s : Streams := { stdin := .empty }
    let done := EntryPoint.fail (some [0x71, 0x0A, 0x31]) .blank s
    s.stderr.Reliable ∧
      done.streams.stderr.accepted.toList =
        Utf8.bytesOf "turingrt: No transition from q\n1 on symbol blank (U+0000)\n" ∧
      done.streams.stderr.accepted.toList.count 0x0A = 2 :=
  ⟨Sink.reliable_default, by decide +kernel, by decide +kernel⟩

end TapeMachine
