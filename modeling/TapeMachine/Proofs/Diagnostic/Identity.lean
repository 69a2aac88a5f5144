import Mathlib.Data.List.Infix
import TapeMachine.Proofs.Text
import TapeMachine.RunError

namespace TapeMachine

namespace Text

/-- Behind a separator comes this text, and the separator does not begin anew in it. -/
def LastBefore (separator after : List Char) : Prop :=
  ¬separator <:+: separator.tail ++ after

instance (separator after : List Char) : Decidable (LastBefore separator after) :=
  inferInstanceAs (Decidable (¬_))

theorem LastBefore.nil_of_append {separator before after after' : List Char}
    (last : LastBefore separator after) (nonempty : separator ≠ [])
    (same : separator ++ after = before ++ (separator ++ after')) : before = [] := by
  obtain ⟨c, rest, rfl⟩ := List.exists_cons_of_ne_nil nonempty
  cases before with
  | nil => rfl
  | cons d before =>
    have behind : rest ++ after = before ++ (c :: rest) ++ after' := by
      rw [List.append_assoc]
      exact (List.cons.inj same).2
    exact absurd ⟨before, after', behind.symm⟩ last

/-- A text is divided in one way only at its last separator. -/
theorem LastBefore.divides {separator before before' after after' : List Char}
    (last : LastBefore separator after) (last' : LastBefore separator after')
    (nonempty : separator ≠ [])
    (same : before ++ (separator ++ after) = before' ++ (separator ++ after')) :
    before = before' ∧ after = after' := by
  have front : before = before' := by
    rcases List.append_eq_append_iff.mp same with ⟨more, rfl, h⟩ | ⟨more, rfl, h⟩
    · rw [last.nil_of_append nonempty h, List.append_nil]
    · rw [last'.nil_of_append nonempty h, List.append_nil]
  subst before'
  exact ⟨rfl, List.append_cancel_left (List.append_cancel_left same)⟩

/-- A separator can begin anew no later than before the last of its own last characters. -/
theorem LastBefore.append {separator after more : List Char} {c : Char}
    (last : LastBefore separator after) (ends : separator.getLast? = some c) (none : c ∉ more) :
    LastBefore separator (after ++ more) := by
  rintro ⟨front, back, same⟩
  rw [← List.append_assoc] at same
  rcases List.append_eq_append_iff.mp same with ⟨rest, h, -⟩ | ⟨rest, h, rfl⟩
  · exact last ⟨front, rest, h.symm⟩
  · rcases List.eq_nil_or_concat' rest with rfl | ⟨init, d, rfl⟩
    · rw [List.append_nil] at h
      exact last ⟨front, [], by rw [List.append_nil, h]⟩
    · have final := congrArg List.getLast? h
      rw [List.getLast?_append, ends, ← List.append_assoc, List.getLast?_concat] at final
      obtain rfl : c = d := Option.some.inj final
      simp at none

def IsPlain (c : Char) : Prop := 0x20 ≤ c.toNat ∧ c.toNat ≤ 0x7E

instance (c : Char) : Decidable (IsPlain c) := inferInstanceAs (Decidable (_ ∧ _))

theorem plain_of_all {text : String} (all : text.toList.all fun c => IsPlain c) :
    ∀ c ∈ text.toList, IsPlain c := by
  intro c hc
  exact of_decide_eq_true (List.all_eq_true.mp all c hc)

end Text

namespace NoTransition

open Text

def separator : List Char := " on symbol ".toList

theorem range_of_mem_numeral {s : Symbol} {c : Char} (h : c ∈ hexDigits 4 s.code.toNat) :
    (0x30 ≤ c.toNat ∧ c.toNat ≤ 0x39) ∨ (0x41 ≤ c.toNat ∧ c.toNat ≤ 0x46) :=
  (isHexNumeral_hexDigits (by decide) _).toNat_of_mem h

theorem not_mem_numeral {s : Symbol} {c : Char}
    (other : ¬((0x30 ≤ c.toNat ∧ c.toNat ≤ 0x39) ∨ (0x41 ≤ c.toNat ∧ c.toNat ≤ 0x46))) :
    c ∉ hexDigits 4 s.code.toNat := fun h => other (range_of_mem_numeral h)

theorem toList_label (s : Symbol) :
    s.label.toList = 'U' :: '+' :: hexDigits 4 s.code.toNat := by
  simp only [Symbol.label, String.toList_append, String.toList_ofList]
  rfl

theorem symbolText_cases (s : Symbol) :
    (s = .blank ∧ symbolText s = "blank (" ++ s.label ++ ")") ∨
    (∃ c, s.printable? = some c ∧ symbolText s = "'" ++ c.toString ++ "' (" ++ s.label ++ ")") ∨
    symbolText s = s.label := by
  unfold symbolText
  split
  next blank => exact Or.inl ⟨blank, rfl⟩
  next =>
    split
    next c shown => exact Or.inr (Or.inl ⟨c, shown, rfl⟩)
    next => exact Or.inr (Or.inr rfl)

theorem toNat_of_printable {s : Symbol} {c : Char} (h : s.printable? = some c) :
    c.toNat = s.code.toNat ∧ IsPlain c := by
  unfold Symbol.printable? at h
  split at h
  next range =>
    rw [UInt32.le_iff_toNat_le, UInt32.le_iff_toNat_le] at range
    obtain ⟨low, high⟩ : 0x20 ≤ s.code.toNat ∧ s.code.toNat ≤ 0x7E := range
    have valid : s.code.toNat.isValidChar := by
      left
      omega
    have value : (Char.ofNat s.code.toNat).toNat = s.code.toNat := by
      rw [Char.ofNat, dif_pos valid]
      rfl
    cases h
    exact ⟨value, by rw [IsPlain, value]; exact ⟨low, high⟩⟩
  next => cases h

theorem plain_label (s : Symbol) : ∀ c ∈ s.label.toList, IsPlain c := by
  rw [toList_label]
  intro c hc
  simp only [List.mem_cons] at hc
  rcases hc with rfl | rfl | hc
  · decide
  · decide
  · have range := range_of_mem_numeral hc
    unfold IsPlain
    omega

theorem plain_symbolText (s : Symbol) : ∀ c ∈ (symbolText s).toList, IsPlain c := by
  have label := plain_label s
  have opening : ∀ c ∈ "blank (".toList, IsPlain c := plain_of_all (by decide)
  have closing : ∀ c ∈ ")".toList, IsPlain c := plain_of_all (by decide)
  have quote : ∀ c ∈ "'".toList, IsPlain c := plain_of_all (by decide)
  have behind : ∀ c ∈ "' (".toList, IsPlain c := plain_of_all (by decide)
  obtain ⟨-, text⟩ | ⟨d, shown, text⟩ | text := symbolText_cases s
  · simp only [text, String.toList_append, List.forall_mem_append]
    exact ⟨⟨opening, label⟩, closing⟩
  · have plain : ∀ c ∈ d.toString.toList, IsPlain c := by
      simpa using (toNat_of_printable shown).2
    simp only [text, String.toList_append, List.forall_mem_append]
    exact ⟨⟨⟨⟨quote, plain⟩, behind⟩, label⟩, closing⟩
  · rw [text]
    exact label

theorem toList_symbolText (s : Symbol) :
    ∃ front back, (symbolText s).toList =
        front ++ (['+'] ++ (hexDigits 4 s.code.toNat ++ back)) ∧ (back = [] ∨ back = [')']) := by
  obtain ⟨-, text⟩ | ⟨d, -, text⟩ | text := symbolText_cases s
  · refine ⟨"blank (U".toList, [')'], ?_, Or.inr rfl⟩
    simp only [text, String.toList_append, toList_label]
    simp
  · refine ⟨"'".toList ++ [d] ++ "' (U".toList, [')'], ?_, Or.inr rfl⟩
    simp only [text, String.toList_append, toList_label]
    simp
  · refine ⟨['U'], [], ?_, Or.inl rfl⟩
    simp only [text, toList_label]
    simp

theorem symbolText_injective {s s' : Symbol}
    (same : (symbolText s).toList = (symbolText s').toList) : s = s' := by
  have plus (s : Symbol) {back : List Char} (closing : back = [] ∨ back = [')']) :
      LastBefore ['+'] (hexDigits 4 s.code.toNat ++ back) := by
    intro found
    have member := found.subset (List.mem_singleton_self '+')
    rcases closing with rfl | rfl
    · simp [not_mem_numeral] at member
    · simp [not_mem_numeral] at member
  have digits (s : Symbol) {back : List Char} (closing : back = [] ∨ back = [')']) :
      (hexDigits 4 s.code.toNat ++ back).filter (· ≠ ')') = hexDigits 4 s.code.toNat := by
    rw [List.filter_append, List.filter_eq_self.mpr]
    · rcases closing with rfl | rfl
      · simp
      · simp
    · intro c hc
      have range := range_of_mem_numeral hc
      rw [decide_eq_true_eq]
      rintro rfl
      revert range
      decide
  obtain ⟨front, back, text, closing⟩ := toList_symbolText s
  obtain ⟨front', back', text', closing'⟩ := toList_symbolText s'
  rw [text, text'] at same
  obtain ⟨-, told⟩ := (plus s closing).divides (plus s' closing') (by simp) same
  have numerals := congrArg (List.filter (· ≠ ')')) told
  rw [digits s closing, digits s' closing'] at numerals
  have four : 0 < 4 := by decide
  have value := (isHexNumeral_hexDigits four s.code.toNat).value
  have value' := (isHexNumeral_hexDigits four s'.code.toNat).value
  rw [numerals, value'] at value
  have code : s.code = s'.code := UInt32.toNat_inj.mp (Option.some.inj value).symm
  cases s
  cases s'
  exact congrArg Symbol.mk code

theorem lastBefore_nil : LastBefore separator [] := by decide

theorem lastBefore_quoted (c : Char) : LastBefore separator ['\'', c, '\'', ' '] := by
  have text : separator = [' ', 'o', 'n', ' ', 's', 'y', 'm', 'b', 'o', 'l', ' '] := by decide
  rw [LastBefore, text]
  simp [List.infix_cons_iff]

/-- Behind the separator nothing begins that could be taken for another one, though the symbol may
be a space or a letter of it. -/
theorem lastBefore_symbolText (s : Symbol) : LastBefore separator (symbolText s).toList := by
  have ends : separator.getLast? = some ' ' := by decide
  have none : ' ' ∉ s.label.toList := by
    rw [toList_label]
    simp [not_mem_numeral]
  have closed : ' ' ∉ '(' :: (s.label.toList ++ [')']) := by simp [none]
  obtain ⟨rfl, -⟩ | ⟨c, -, text⟩ | text := symbolText_cases s
  · decide
  · have quoted := (lastBefore_quoted c).append ends closed
    have shape : (symbolText s).toList =
        ['\'', c, '\'', ' '] ++ '(' :: (s.label.toList ++ [')']) := by
      simp only [text, String.toList_append]
      simp
    rwa [shape]
  · have label := lastBefore_nil.append ends none
    rw [List.nil_append] at label
    rw [text]
    exact label

theorem toList_message (f : NoTransition) :
    f.message.toList = "No transition from ".toList ++
      (f.state.toList ++ (separator ++ (symbolText f.symbol).toList)) := by
  unfold message
  simp only [String.toList_append, List.append_assoc]
  rfl

/-- The state and the symbol of a missing transition can be told from its message. -/
theorem message_injective {f f' : NoTransition} (same : f.message = f'.message) : f = f' := by
  have texts := congrArg String.toList same
  rw [toList_message, toList_message] at texts
  have behind := List.append_cancel_left texts
  have nonempty : separator ≠ [] := by decide
  obtain ⟨states, told⟩ := (lastBefore_symbolText f.symbol).divides
    (lastBefore_symbolText f'.symbol) nonempty behind
  have symbols := symbolText_injective told
  cases f
  cases f'
  rw [NoTransition.mk.injEq]
  exact ⟨String.toList_inj.mp states, symbols⟩

end NoTransition

namespace RunError

/-- The kinds of errors, each with its own opening of the message. -/
inductive Kind where
  | config | allocation | input | transition | output

def kind : RunError → Kind
  | config _ => .config
  | allocation _ => .allocation
  | input _ => .input
  | transition _ => .transition
  | output _ => .output

def Kind.opening : Kind → String
  | config => "Configuration error: "
  | allocation => "Failed to acquire tape memory: "
  | input => "failed to read from standard input: "
  | transition => "No transition from "
  | output => "failed to write to standard output: "

/-- The message behind its opening. -/
def detail : RunError → String
  | config e => e.message
  | allocation e | input e | output e => e.message
  | transition f => f.state ++ (" on symbol " ++ NoTransition.symbolText f.symbol)

theorem message_eq (e : RunError) : e.message = e.kind.opening ++ e.detail := by
  cases e with
  | transition f =>
    unfold message NoTransition.message kind detail Kind.opening
    simp only [String.append_assoc]
  | _ => rfl

theorem Kind.eq_of_take {k k' : Kind}
    (same : k.opening.toList.take 11 = k'.opening.toList.take 11) : k = k' := by
  cases k <;> cases k' <;> first | rfl | exact absurd same (by decide)

theorem take_message (e : RunError) :
    e.message.toList.take 11 = e.kind.opening.toList.take 11 := by
  have long : 11 ≤ e.kind.opening.toList.length := by
    cases e.kind <;> decide
  rw [message_eq, String.toList_append, List.take_append_of_le_length long]

theorem kind_eq_of_message {e e' : RunError} (same : e.message = e'.message) :
    e.kind = e'.kind := by
  apply Kind.eq_of_take
  rw [← take_message, ← take_message, same]

theorem detail_eq_of_message {e e' : RunError} (same : e.message = e'.message) :
    e.detail = e'.detail := by
  have kinds := kind_eq_of_message same
  rw [message_eq, message_eq, kinds] at same
  have texts := congrArg String.toList same
  rw [String.toList_append, String.toList_append] at texts
  exact String.toList_inj.mp (List.append_cancel_left texts)

/-- The errors are of one kind and tell of the same cause: by a text, or by a state and a symbol. -/
def Alike : RunError → RunError → Prop
  | config e, config e' => e.message = e'.message
  | allocation e, allocation e' | input e, input e' | output e, output e' => e.message = e'.message
  | transition f, transition f' => f = f'
  | _, _ => False

theorem alike_of_message {e e' : RunError} (same : e.message = e'.message) : e.Alike e' := by
  have kinds := kind_eq_of_message same
  have details := detail_eq_of_message same
  cases e <;> cases e' <;>
    first
    | exact details
    | exact NoTransition.message_injective same
    | exact Kind.noConfusion kinds

theorem message_of_alike {e e' : RunError} (alike : e.Alike e') : e.message = e'.message := by
  unfold Alike at alike
  split at alike
  next => exact congrArg ("Configuration error: " ++ ·) alike
  next => exact congrArg ("Failed to acquire tape memory: " ++ ·) alike
  next => exact congrArg ("failed to read from standard input: " ++ ·) alike
  next => exact congrArg ("failed to write to standard output: " ++ ·) alike
  next => rw [alike]
  next => exact alike.elim

/-- Two errors have the same message exactly if they are of the same kind and tell of the same
cause. What the message of a missing transition has behind the state is printable ASCII. -/
theorem message_eq_iff_alike :
    (∀ e e' : RunError, e.message = e'.message ↔ e.Alike e') ∧
    ∀ f : NoTransition, ∃ told : String, f.message = "No transition from " ++ f.state ++ told ∧
      ∀ c ∈ told.toList, 0x20 ≤ c.toNat ∧ c.toNat ≤ 0x7E := by
  refine ⟨fun e e' => ⟨alike_of_message, message_of_alike⟩, fun f => ?_⟩
  have separator : ∀ c ∈ " on symbol ".toList, Text.IsPlain c := Text.plain_of_all (by decide)
  refine ⟨" on symbol " ++ NoTransition.symbolText f.symbol, ?_, ?_⟩
  · unfold NoTransition.message
    simp only [String.append_assoc]
  · rw [String.toList_append, List.forall_mem_append]
    exact ⟨separator, NoTransition.plain_symbolText f.symbol⟩

/-- The state may end like the sentence does. -/
example : (RunError.transition ⟨"q on symbol 'A' (U+0041)", .blank⟩).message =
    "No transition from q on symbol 'A' (U+0041) on symbol blank (U+0000)" := by decide

end RunError

end TapeMachine
