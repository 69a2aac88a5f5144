import Mathlib.Data.List.Basic
import TapeMachine.Proofs.Stream.Faulty
import TapeMachine.Proofs.Text
import TapeMachine.Proofs.Utf8.Texts

namespace TapeMachine.Emission

def opening : List Char := "Symbol U+".toList

def closing : List Char := " in output stream".toList

/-- The symbol that a line tells of, given without its line break. -/
def readLine? (line : List Char) : Option Symbol := do
  let rest ← line.dropPrefix? opening
  let digits ← rest.dropSuffix? closing
  let n ← Text.ofHexDigits? digits
  if n < UInt32.size then some ⟨UInt32.ofNat n⟩ else none

/-- The symbols that a text tells of. Its last line has to be ended, too. -/
def read? (text : List UInt8) : Option (List Symbol) :=
  let lines := (text.map Char.ofUInt8).splitOn '\n'
  if lines.getLast? = some [] then lines.dropLast.mapM readLine? else none

def body (digits : List Char) : List Char := opening ++ digits ++ closing

def numeral (s : Symbol) : List Char := Text.hexDigits 4 s.code.toNat

theorem isHexNumeral_numeral (s : Symbol) : Text.IsHexNumeral 4 s.code.toNat (numeral s) :=
  Text.isHexNumeral_hexDigits (by decide) _

theorem body_newline (digits : List Char) :
    body digits ++ ['\n'] = "Symbol U+".toList ++ digits ++ " in output stream\n".toList := by
  have last : closing ++ ['\n'] = " in output stream\n".toList := by decide
  rw [body, List.append_assoc _ closing]
  exact congrArg _ last

theorem toList_line (s : Symbol) : (line s).toList = body (numeral s) ++ ['\n'] := by
  have first : "Symbol U+".toList = "Symbol ".toList ++ "U+".toList := by decide
  rw [line, Symbol.label, body_newline, numeral, first]
  simp only [String.toList_append, String.toList_ofList, List.append_assoc]

theorem ascii_body (s : Symbol) : ∀ c ∈ body (numeral s), c.toNat < 0x80 ∧ c ≠ '\n' := by
  have printed : (opening ++ closing).all fun c => c.toNat < 0x80 ∧ c ≠ '\n' := by decide
  have outside (c : Char) (hc : c ∈ opening ++ closing) : c.toNat < 0x80 ∧ c ≠ '\n' :=
    of_decide_eq_true (List.all_eq_true.mp printed c hc)
  intro c hc
  rcases List.mem_append.mp hc with hc | hc
  · rcases List.mem_append.mp hc with hc | hc
    · exact outside c (List.mem_append_left closing hc)
    · have range := (isHexNumeral_numeral s).toNat_of_mem hc
      simp only [Char.reduceToNat] at range
      refine ⟨by omega, ?_⟩
      rintro rfl
      simp only [Char.reduceToNat] at range
      omega
  · exact outside c (List.mem_append_right opening hc)

theorem readLine?_body (s : Symbol) : readLine? (body (numeral s)) = some s := by
  have front : (body (numeral s)).dropPrefix? opening = some (numeral s ++ closing) := by
    rw [body, List.append_assoc]
    exact List.dropPrefix?_append_of_beq _ BEq.rfl
  have back : (numeral s ++ closing).dropSuffix? closing = some (numeral s) := by
    rw [List.dropSuffix?_eq_some_iff]
    exact ⟨closing, rfl, BEq.rfl⟩
  have small : s.code.toNat < UInt32.size := s.code.toNat_lt_size
  have value : UInt32.ofNat s.code.toNat = s.code := UInt32.ofNat_toNat
  simp only [readLine?, front, back, (isHexNumeral_numeral s).value, Option.bind_eq_bind,
    Option.bind_some, if_pos small, value]

def characters (symbols : List Symbol) : List Char :=
  symbols.flatMap fun s => body (numeral s) ++ ['\n']

theorem characters_cons (s : Symbol) (symbols : List Symbol) :
    characters (s :: symbols) = body (numeral s) ++ '\n' :: characters symbols := by
  rw [characters, List.flatMap_cons, List.append_assoc]
  rfl

theorem report_eq_encode (symbols : List Symbol) :
    report symbols = Utf8.encode (characters symbols) := by
  have each : (fun s => Utf8.bytesOf (line s)) =
      fun s => Utf8.encode (body (numeral s) ++ ['\n']) := by
    funext s
    rw [← toList_line]
    rfl
  rw [report, each, characters, Utf8.encode, List.flatMap_assoc]
  rfl

theorem ascii_characters (symbols : List Symbol) : ∀ c ∈ characters symbols, c.toNat < 0x80 := by
  intro c hc
  obtain ⟨s, -, hc⟩ := List.mem_flatMap.mp hc
  rcases List.mem_append.mp hc with hc | hc
  · exact (ascii_body s c hc).1
  · rw [List.mem_singleton.mp hc]
    decide

theorem splitOn_characters (symbols : List Symbol) :
    (characters symbols).splitOn '\n' = symbols.map (fun s => body (numeral s)) ++ [[]] := by
  induction symbols with
  | nil => rfl
  | cons s symbols ih =>
    have unbroken : ∀ c ∈ body (numeral s), (c == '\n') = false := by
      intro c hc
      exact beq_eq_false_iff_ne.mpr (ascii_body s c hc).2
    rw [characters_cons, List.splitOn, List.splitOnP_append_cons_of_forall_mem unbroken _ BEq.rfl,
      ← List.splitOn, ih]
    rfl

theorem read?_report (symbols : List Symbol) : read? (report symbols) = some symbols := by
  have lines : ∀ xs : List Symbol, (xs.map fun s => body (numeral s)).mapM readLine? = some xs := by
    intro xs
    induction xs with
    | nil => rfl
    | cons s xs ih => simp [List.mapM_cons, readLine?_body, ih]
  rw [read?, report_eq_encode, Utf8.map_ofUInt8_encode (ascii_characters symbols),
    splitOn_characters]
  simp only [List.getLast?_concat, if_true, List.dropLast_concat, lines]

theorem count_newline_characters (symbols : List Symbol) :
    (characters symbols).count '\n' = symbols.length := by
  induction symbols with
  | nil => rfl
  | cons s symbols ih =>
    have unbroken : '\n' ∉ body (numeral s) := fun h => (ascii_body s _ h).2 rfl
    rw [characters_cons, List.count_append, List.count_eq_zero_of_not_mem unbroken,
      List.count_cons_self, ih, Nat.zero_add, List.length_cons]

theorem count_newline_report (symbols : List Symbol) :
    (report symbols).count 0x0A = symbols.length := by
  rw [report_eq_encode, ← count_newline_characters]
  exact Utf8.count_encode (d := '\n') (by decide) _

theorem characters_eq (symbols : List Symbol) :
    characters symbols = symbols.flatMap fun s =>
      "Symbol U+".toList ++ numeral s ++ " in output stream\n".toList := by
  simp only [characters, body_newline]

variable {T : Type} [Tape T]

/-- The emission succeeds with this count and adds this text to what the sink has taken. -/
def Emits (t : T) (head : Position) (a : Alphabet) (sink : Sink) (count : Nat)
    (text : List UInt8) : Prop :=
  ∃ sink', emit t head a sink = (.ok count, sink') ∧
    sink'.accepted.toList = sink.accepted.toList ++ text

theorem emits_report {t : T} {head : Position} {a : Alphabet} (terminates : Terminates t head a)
    {sink : Sink} (reliable : sink.Reliable) :
    Emits t head a sink (scan t head a).length (report (scan t head a)) :=
  emit_of_ends terminates reliable

theorem Emits.unique {t : T} {head : Position} {a : Alphabet} {sink : Sink} {count : Nat}
    {text : List UInt8} (h : Emits t head a sink count text) (terminates : Terminates t head a)
    (reliable : sink.Reliable) :
    count = (scan t head a).length ∧ text = report (scan t head a) := by
  obtain ⟨sink₁, emitted, written⟩ := h
  obtain ⟨sink₂, emitted', written'⟩ := emits_report terminates reliable
  obtain ⟨counted, rfl⟩ := Prod.mk.inj (emitted.symm.trans emitted')
  rw [written'] at written
  exact ⟨Except.ok.inj counted, (List.append_cancel_left written).symm⟩

/-- The symbols of a scan that comes to an end are read back from the text alone, so no emission of
other symbols writes the same text. It is in ASCII and has one line for each symbol counted, with
the numeral of the symbol. -/
theorem read?_emitted {t : T} {head : Position} {a : Alphabet} (terminates : Terminates t head a)
    {sink : Sink} (reliable : sink.Reliable) :
    ∃ count text, Emits t head a sink count text ∧
      read? text = some (scan t head a) ∧
      (∀ b ∈ text, b < 0x80) ∧ text.count 0x0A = count ∧
      (∃ digits : Symbol → List Char,
        (∀ s, Text.IsHexNumeral 4 s.code.toNat (digits s)) ∧
        text = Utf8.encode ((scan t head a).flatMap fun s =>
          "Symbol U+".toList ++ digits s ++ " in output stream\n".toList)) ∧
      ∀ {U : Type} [Tape U] (u : U) (head' : Position) (a' : Alphabet) (sink' : Sink)
        (count' : Nat), Terminates u head' a' → sink'.Reliable →
        Emits u head' a' sink' count' text → scan u head' a' = scan t head a := by
  refine ⟨_, _, emits_report terminates reliable, read?_report _, ?_, count_newline_report _,
    ⟨numeral, isHexNumeral_numeral, ?_⟩, ?_⟩
  · rw [report_eq_encode]
    exact Utf8.ascii_of_mem_encode (ascii_characters _)
  · rw [report_eq_encode, characters_eq]
  · intro U _ u head' a' sink' count' terminates' reliable' emits
    obtain ⟨-, same⟩ := emits.unique terminates' reliable'
    have back := read?_report (scan u head' a')
    rw [← same, read?_report] at back
    exact (Option.some.inj back).symm

/-- Neither of these symbols is a character, and the numeral of the second has twice as many digits
as there have to be. -/
theorem read?_emitted_beyond_characters :
    let t : Growable := (Growable.empty.set 0 ⟨0x110000⟩).set 1 ⟨0xFFFFFFFF⟩
    let a : Alphabet := ⟨[⟨0xFFFFFFFF⟩, ⟨0x110000⟩]⟩
    Terminates t 0 a ∧ Sink.Reliable {} ∧
      ∃ count text, Emits t 0 a {} count text ∧ count = 2 ∧
        read? text = some [⟨0x110000⟩, ⟨0xFFFFFFFF⟩] ∧
        text = Utf8.bytesOf
          "Symbol U+110000 in output stream\nSymbol U+FFFFFFFF in output stream\n" := by
  intro t a
  have terminates : Terminates t 0 a := ⟨2, by decide, by decide, Or.inl ⟨2, rfl, by decide⟩⟩
  have found : scan t 0 a = [⟨0x110000⟩, ⟨0xFFFFFFFF⟩] := by decide +kernel
  obtain ⟨count, text, emits, read, -, -, -, -⟩ := read?_emitted terminates Sink.reliable_default
  obtain ⟨counted, same⟩ := emits.unique terminates Sink.reliable_default
  rw [found] at read counted same
  exact ⟨terminates, Sink.reliable_default, count, text, emits, counted, read,
    same.trans (by decide +kernel)⟩

end TapeMachine.Emission
